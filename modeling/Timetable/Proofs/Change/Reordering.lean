import Timetable.Proofs.Change.Accounting

namespace Timetable

variable {R : Type}

/-- A change with its entities in another order. -/
inductive ServiceChange.Reordered (c : ServiceChange) : ServiceChange → Prop where
  | mk (entities : List EntityDescriptor) :
    c.entities.Perm entities → Reordered c { c with entities }

theorem ServiceChange.Reordered.deletions_perm {c d : ServiceChange} (h : c.Reordered d)
    (today : Date) : (c.deletions today).Perm (d.deletions today) := by
  obtain ⟨es, hperm⟩ := h
  have hvalid : isValid { c with entities := es } = c.isValid := by
    rw [isValid, isValid, hperm.isEmpty_eq]
  have hholds : holdsOn { c with entities := es } today = c.holdsOn today := rfl
  rw [deletions, deletions, hvalid, hholds]
  split
  · rw [operation, operation]
    rcases c with ⟨table, kind, entities, fields, dates⟩
    cases table <;> cases kind <;> first | exact .refl _ | exact hperm.filterMap _
  · exact .refl _

/-- Batches with the same changes in another order, each with its entities in another order. -/
def Reorders (cs ds : List ServiceChange) : Prop :=
  ∃ es, cs.Perm es ∧ List.Forall₂ ServiceChange.Reordered es ds

theorem Engine.named_perm {e : Engine R} {cs ds : List ServiceChange} (h : Reorders cs ds) :
    (e.named cs).Perm (e.named ds) := by
  obtain ⟨es, hperm, hall⟩ := h
  refine ((hperm.flatMap_right _).trans ?_).map _
  clear hperm
  induction hall with
  | nil => exact .refl _
  | cons hfirst _ ih =>
    rw [List.flatMap_cons, List.flatMap_cons]
    exact (hfirst.deletions_perm e.today).append ih

namespace PendingUndo

/-- What is pending, with notes of more modifications; of a trip that has one the first counts. -/
def noting (u : PendingUndo R) (ms : List (TripModification R)) : PendingUndo R :=
  { u with trips := { u.trips with
      modified := u.trips.modified ++ ms.filter (·.trip ∉ u.trips.modified.map (·.trip)) } }

section Noting

variable (u : PendingUndo R) (ms : List (TripModification R)) (m : TripModification R)

theorem mem_trips_noting (id : Ident) : id ∈ (u.noting ms).trips.modified.map (·.trip) ↔
    id ∈ u.trips.modified.map (·.trip) ∨ id ∈ ms.map (·.trip) := by
  rw [noting, List.map_append, List.mem_append]
  constructor
  · rintro (hold | hnew)
    · exact .inl hold
    · exact .inr ((List.filter_sublist.map _).subset hnew)
  · rintro (hold | hnew)
    · exact .inl hold
    · by_cases hold : id ∈ u.trips.modified.map (·.trip)
      · exact .inl hold
      · obtain ⟨n, hn, rfl⟩ := List.mem_map.1 hnew
        exact .inr (List.mem_map_of_mem (List.mem_filter.2 ⟨hn, decide_eq_true hold⟩))

theorem noteIn_noting :
    m.noteIn (u.noting ms).trips.modified = (u.noting (m.noteIn ms)).trips.modified := by
  simp only [TripModification.noteIn, mem_trips_noting]
  by_cases hnew : m.trip ∈ ms.map (·.trip)
  · rw [if_pos (.inr hnew), if_pos hnew]
  · rw [if_neg hnew, noting, noting, List.filter_append]
    by_cases hold : m.trip ∈ u.trips.modified.map (·.trip)
    · -- a note from before stays, and the new one is left out
      rw [if_pos (.inl hold), List.filter_cons_of_neg (by simpa using hold), List.filter_nil,
        List.append_nil]
    · rw [if_neg (not_or.2 ⟨hold, hnew⟩), List.filter_cons_of_pos (by simpa using hold),
        List.filter_nil, List.append_assoc]

theorem modify_noting :
    { u.noting ms with trips := (u.noting ms).trips.modify m } = u.noting (m.noteIn ms) := by
  rw [TripChanges.modify_eq, noteIn_noting]
  rfl

end Noting

inductive Reordered (u : PendingUndo R) : PendingUndo R → Prop where
  | mk (modified : List (TripModification R)) : u.trips.modified.Perm modified →
    Reordered u { u with trips := { u.trips with modified } }

theorem Reordered.noting (u : PendingUndo R) {ms ns : List (TripModification R)}
    (h : ms.Perm ns) : (u.noting ms).Reordered (u.noting ns) :=
  .mk (u := u.noting ms) _ ((h.filter _).append_left _)

end PendingUndo

namespace Schedule

variable {base g h : Schedule R} {ms ns : List (TripModification R)}

theorem Notes.unique {m n : TripModification R} (hm : Notes base g m) (hn : Notes base h n)
    (trip : m.trip = n.trip) : m = n := by
  obtain ⟨t, _, ht, htimes, _⟩ := hm
  obtain ⟨u, _, hu, hutimes, _⟩ := hn
  rw [trip, hu, Option.some.injEq] at ht
  rcases m with ⟨_, _⟩
  rcases n with ⟨_, _⟩
  obtain rfl := ht
  obtain rfl := trip
  rw [TripModification.mk.injEq]
  exact ⟨rfl, htimes.trans hutimes.symm⟩

theorem Lost.unique {m n : Nat} (hg : Lost m base g) (hh : Lost n base h)
    (trips : h.trips = g.trips) : n = m := by
  have htotal : h.callTotal = g.callTotal := by rw [callTotal, callTotal, trips]
  have hcalls := hh.calls
  rw [← hg.calls, htotal] at hcalls
  exact Nat.add_left_cancel hcalls

variable [Zero R]

theorem Shortened.notes_subset (hg : Shortened base g ms) (hh : Shortened base h ns)
    (trips : h.trips = g.trips) : ms ⊆ ns := by
  intro m hm
  have hsame : shortenedTrips base h = shortenedTrips base g := by
    unfold shortenedTrips callCount
    rw [trips]
  have htrip : m.trip ∈ ns.map (·.trip) := by
    rw [hh.trips_perm.mem_iff, hsame, ← hg.trips_perm.mem_iff]
    exact List.mem_map_of_mem hm
  obtain ⟨n, hn, he⟩ := List.mem_map.1 htrip
  rwa [(hg.noted m hm).unique (hh.noted n hn) he.symm]

/-- Schedules with the same trips, cut short from the same base, come with the same notes. -/
theorem Shortened.notes_perm (hg : Shortened base g ms) (hh : Shortened base h ns)
    (trips : h.trips = g.trips) : ms.Perm ns :=
  (List.perm_ext_iff_of_nodup hg.nodup.of_map hh.nodup.of_map).2 fun _ =>
    ⟨fun hm => hg.notes_subset hh trips hm, fun hn => hh.notes_subset hg trips.symm hn⟩

theorem Framed.between (hg : Framed base g) (hh : Framed base h) : Framed g h where
  rest := by
    have hrest := hh.rest.trans hg.rest.symm
    exact congrArg (fun f : Schedule R =>
      { f with trips := g.trips, blocks := g.blocks, version := g.version }) hrest
  consistent := hh.consistent
  outline block := (hh.outline block).trans (hg.outline block).symm

end Schedule

namespace Patched

open Schedule

variable [Zero R] {base : Schedule R} {u : PendingUndo R} {p : Patched R}

/-- Schedules under deletions on top of a base, with what was pending there and what the trips that
were shortened had. -/
def Onto (base : Schedule R) (u : PendingUndo R) (p : Patched R) : Prop :=
  ∃ ms, p.pending = u.noting ms ∧ Shortened base p.schedule ms

theorem Onto.start (hb : Consistent base) (u : PendingUndo R) : Onto base u ⟨base, u⟩ := by
  refine ⟨[], ?_, .start hb base.version⟩
  simp only [PendingUndo.noting, List.filter_nil, List.append_nil]

theorem Onto.deleteStopTime (h : Onto base u p) (trip stop : Ident) :
    Onto base u (p.deleteStopTime trip stop).1 := by
  rcases p.deleteStopTime_cases trip stop with ⟨t, calls, hstored, hdelete, hp⟩ | ⟨_, hp⟩
  · obtain ⟨ms, hpending, hms⟩ := h
    obtain ⟨hsub, hlength⟩ := Calls.sublist_of_delete? hdelete
    rw [hp]
    refine ⟨_, ?_, hms.shorten hstored hsub (Nat.le_of_eq hlength)⟩
    rw [← PendingUndo.modify_noting, ← hpending]
    rfl
  · rwa [hp]

theorem Onto.deleteAll (h : Onto base u p) (named : List (Ident × Ident)) :
    Onto base u (p.deleteAll named) :=
  deleteAll_of_step (fun _ trip stop hp => hp.deleteStopTime trip stop) named h

theorem trips_deleteAll_perm (p : Patched R) {named named' : List (Ident × Ident)}
    (h : named.Perm named') :
    (p.deleteAll named').schedule.trips = (p.deleteAll named).schedule.trips := by
  apply Std.ExtTreeMap.ext_getElem?
  intro id
  rw [trips_deleteAll, trips_deleteAll]
  congr 1
  funext t
  rw [Calls.without_perm (stopsOf_perm h id)]

theorem lost_deleteAll (p : Patched R) (named : List (Ident × Ident)) :
    ∃ n, Lost n p.schedule (p.deleteAll named).schedule := by
  induction named generalizing p with
  | nil => exact ⟨0, .none p.schedule⟩
  | cons d named ih =>
    obtain ⟨n, hn⟩ := ih (p.deleteStopTime d.1 d.2).1
    exact ⟨_, (p.lost_deleteStopTime d.1 d.2).trans hn⟩

theorem deleteAll_perm (hp : Consistent p.schedule) {named named' : List (Ident × Ident)}
    (h : named.Perm named') :
    (p.deleteAll named').schedule = (p.deleteAll named).schedule ∧
      (p.deleteAll named).pending.Reordered (p.deleteAll named').pending := by
  have htrips := p.trips_deleteAll_perm h
  have hstart : Onto p.schedule p.pending p := .start hp p.pending
  obtain ⟨ms, hpending, hms⟩ := hstart.deleteAll named
  obtain ⟨ns, hpending', hns⟩ := hstart.deleteAll named'
  constructor
  · -- the same trips, so as many calls are gone and the version has moved as far
    obtain ⟨m, hm⟩ := p.lost_deleteAll named
    obtain ⟨n, hn⟩ := p.lost_deleteAll named'
    have hversion : (p.deleteAll named').schedule.version =
        (p.deleteAll named).schedule.version := by
      rw [hm.version, hn.version, hm.unique hn htrips]
    rw [(hms.framed.between hns.framed).eq_of_trips hms.framed.consistent htrips, hversion]
  · rw [hpending, hpending']
    exact .noting _ (hms.notes_perm hns htrips)

end Patched

namespace Engine

open Schedule Patched

variable [Geometry R] {e : Engine R} {cs ds : List ServiceChange}

theorem refreshAfter_with_pending (e : Engine R) (pending : PendingUndo R) (mutations : Nat) :
    refreshAfter { e with patcher := { e.patcher with pending } } mutations =
      let r := refreshAfter e mutations
      { r with patcher := { r.patcher with pending } } := by
  rw [refreshAfter, refreshAfter]
  split <;> rfl

/-- The order of the changes in a batch, and of the entities in a change, does not matter, whatever
was pending before: the schedule comes out the same, its version included, after as many mutations,
with the same stop times pending to be put back, and with the same of everything else. -/
theorem applyChanges_reordered (e : Engine R) (h : e.schedule.Reachable)
    (hcs : Reorders cs ds) :
    let r := e.applyChanges cs
    let s := e.applyChanges ds
    s.1.schedule = r.1.schedule ∧
    s.2.mutations = r.2.mutations ∧
    r.1.patcher.pending.Reordered s.1.patcher.pending ∧
    s.1 = { r.1 with patcher := { r.1.patcher with pending := s.1.patcher.pending } } := by
  intro r s
  let p := e.patched.applyChanges e.bareIds e.today cs
  let q := e.patched.applyChanges e.bareIds e.today ds
  have hp : p.1 = e.patched.deleteAll (e.named cs) := fst_applyChanges_eq e _ cs
  have hq : q.1 = e.patched.deleteAll (e.named ds) := fst_applyChanges_eq e _ ds
  have hconsistent : Consistent e.patched.schedule := h.consistent
  obtain ⟨hschedule, hpending⟩ := deleteAll_perm hconsistent (named_perm (e := e) hcs)
  rw [← hp, ← hq] at hschedule hpending
  have hmutations : q.2.mutations = p.2.mutations :=
    (accounts_applyChanges e.bareIds e.today e.patched cs).lost.unique
      (accounts_applyChanges e.bareIds e.today e.patched ds).lost
      (congrArg Schedule.trips hschedule)
  have hrest : s.1 = { r.1 with patcher := { r.1.patcher with pending := q.1.pending } } := by
    have hs : s.1 = refreshAfter { e with
      patcher := { e.patcher with pending := q.1.pending }, schedule := q.1.schedule }
        q.2.mutations := rfl
    rw [hs, hschedule, hmutations]
    exact refreshAfter_with_pending { e with
      patcher := { e.patcher with pending := p.1.pending }, schedule := p.1.schedule } _ _
  have hpending' : r.1.patcher.pending = p.1.pending := by
    obtain ⟨index, hr⟩ := e.applyChanges_eq cs
    rw [show r = _ from hr]
  refine ⟨?_, hmutations, ?_, ?_⟩
  · rw [hrest]
  · rw [hrest, hpending']
    exact hpending
  · rw [hrest]

def cutBoth (first second : String × String) : ServiceChange :=
  { cut "" "" with entities :=
    [{ trip := some first.1, stop := some first.2 },
      { trip := some second.1, stop := some second.2 }] }

/-- Which of the two changes deletes the call that both name depends on their order. -/
theorem applyChanges_reordered_shortenedDay :
    let e := shortenedDayEngine
    let cs := [cutBoth ("T1", "Y") ("T2", "X"), cut "T2" "X"]
    let ds := [cut "T2" "X", cutBoth ("T2", "X") ("T1", "Y")]
    e.schedule.Reachable ∧ Reorders cs ds ∧
    (e.applyChanges cs).2 = { submitted := 2, applied := 1, failed := 1, mutations := 2 } ∧
    (e.applyChanges ds).2 = { submitted := 2, applied := 2, mutations := 2 } ∧
    (e.applyChanges ds).1.schedule = (e.applyChanges cs).1.schedule ∧
    (e.applyChanges cs).1.patcher.pending.Reordered (e.applyChanges ds).1.patcher.pending ∧
    (e.applyChanges cs).1.patcher.pending.trips.modified.map (·.trip) =
      [⟨"A", "T1"⟩, ⟨"A", "T2"⟩] ∧
    (e.applyChanges ds).1.patcher.pending.trips.modified.map (·.trip) =
      [⟨"A", "T2"⟩, ⟨"A", "T1"⟩] := by
  intro e cs ds
  have hreachable : e.schedule.Reachable := ⟨shortenedDay, rfl⟩
  have hreorders : Reorders cs ds :=
    ⟨[cut "T2" "X", cutBoth ("T1", "Y") ("T2", "X")], .swap _ _ [],
      .cons (.mk _ (.refl _)) (.cons (.mk _ (.swap _ _ [])) .nil)⟩
  obtain ⟨hschedule, _, hpending, _⟩ := applyChanges_reordered e hreachable hreorders
  exact ⟨hreachable, hreorders, by decide +kernel, by decide +kernel, hschedule, hpending,
    by decide +kernel, by decide +kernel⟩

end Engine

end Timetable
