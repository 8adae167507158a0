import Timetable.Proofs.Change.Lockstep
import Timetable.Proofs.Schedule.Blocks

namespace Timetable

variable {R : Type}

/-- Notes a modification, unless its trip has one. -/
def TripModification.noteIn (m : TripModification R) (ms : List (TripModification R)) :
    List (TripModification R) :=
  if m.trip ∈ ms.map (·.trip) then ms else ms ++ [m]

theorem TripChanges.modify_eq (c : TripChanges R) (m : TripModification R) :
    c.modify m = { c with modified := m.noteIn c.modified } := by
  rw [modify, TripModification.noteIn]
  by_cases h : m.trip ∈ c.modified.map (·.trip)
  · obtain ⟨n, hn, he⟩ := List.mem_map.1 h
    rw [if_pos h, if_pos (List.any_eq_true.2 ⟨n, hn, decide_eq_true he⟩)]
  · rw [if_neg h, if_neg]
    intro hany
    obtain ⟨n, hn, he⟩ := List.any_eq_true.1 hany
    exact h (List.mem_map.2 ⟨n, hn, of_decide_eq_true he⟩)

namespace Schedule

def callCount (g : Schedule R) (id : Ident) : Nat := (g.trips[id]?).elim 0 (·.calls.length)

def shortenedTrips (base g : Schedule R) : List Ident :=
  base.trips.keys.filter fun id => g.callCount id < base.callCount id

variable [Zero R] {base g : Schedule R} {ms : List (TripModification R)} {id : Ident} {t : Trip R}

/-- Schedules that differ from a base in the version and in the calls of trips alone. -/
structure Framed (base g : Schedule R) : Prop where
  rest : { g with trips := base.trips, blocks := base.blocks, version := base.version } = base
  consistent : Consistent g
  outline (block : Ident) :
    (g.blocks[block]?).map Block.outline = (base.blocks[block]?).map Block.outline

theorem Framed.replan (h : Framed base g) (stored : g.trips[id]? = some t)
    (calls : List (Call R)) : Framed base (g.revise id (t.withCalls calls)).bump where
  rest := h.rest
  consistent := h.consistent.step (.replan id t calls stored)
  outline block := by
    have hblocks : (g.revise id (t.withCalls calls)).bump.blocks =
      (g.revise id (t.withCalls calls)).blocks := rfl
    rw [← h.outline block, hblocks, blocks_revise]
    split
    · cases g.blocks[block]? with
      | none => rfl
      | some b => simp
    · rfl

theorem Framed.blocks_eq (h : Framed base g) (hb : Consistent base)
    (trips : g.trips = base.trips) : g.blocks = base.blocks := by
  apply Std.ExtTreeMap.ext_getElem?
  intro block
  have houtline := h.outline block
  cases hg : g.blocks[block]? with
  | none =>
    rw [hg, Option.map_none, eq_comm, Option.map_eq_none_iff] at houtline
    exact houtline.symm
  | some b =>
    cases hc : base.blocks[block]? with
    | none =>
      rw [hg, hc] at houtline
      cases houtline
    | some c =>
      rw [hg, hc, Option.map_some, Option.map_some, Option.some.injEq] at houtline
      -- the trips determine the configurations, and the outline determines their order
      have hgroups := h.consistent.groups hg
      rw [tripsOf_congr trips] at hgroups
      rw [hgroups.eq_of_outline (hb.groups hc) houtline]

theorem Framed.eq_of_trips (h : Framed base g) (hb : Consistent base)
    (trips : g.trips = base.trips) : g = { base with version := g.version } := by
  have hrest := h.rest
  rw [← trips, ← h.blocks_eq hb trips] at hrest
  exact congrArg (fun f : Schedule R => { f with version := g.version }) hrest

/-- Notes of the stop times that a trip has in a base, where it now has fewer. -/
def Notes (base g : Schedule R) (m : TripModification R) : Prop :=
  ∃ t calls, base.trips[m.trip]? = some t ∧ m.stopTimes = t.stopTimes ∧
    g.trips[m.trip]? = some (t.withCalls calls) ∧ calls.Sublist t.calls ∧
    calls.length < t.calls.length

/-- Schedules in which the noted trips, and no others, have lost calls of those in the base. -/
structure Shortened (base g : Schedule R) (ms : List (TripModification R)) : Prop where
  framed : Framed base g
  nodup : (ms.map (·.trip)).Nodup
  noted (m : TripModification R) : m ∈ ms → Notes base g m
  others (id : Ident) : id ∉ ms.map (·.trip) → g.trips[id]? = base.trips[id]?

namespace Shortened

theorem start (hb : Consistent base) (version : Nat) :
    Shortened base { base with version } [] where
  framed := ⟨rfl, hb.congr rfl rfl fun _ hr => hr, fun _ => rfl⟩
  nodup := List.nodup_nil
  noted m hm := by cases hm
  others _ _ := rfl

theorem noted_of_ne (h : Shortened base g ms) {u : Trip R} {m : TripModification R} (hm : m ∈ ms)
    (hne : id ≠ m.trip) : Notes base (g.revise id u).bump m := by
  rw [Notes, getElem?_trips_revise, if_neg hne]
  exact h.noted m hm

theorem shorten_again (h : Shortened base g ms) (stored : g.trips[id]? = some t)
    (hmem : id ∈ ms.map (·.trip)) {calls : List (Call R)} (hsub : calls.Sublist t.calls)
    (hlt : calls.length < t.calls.length) :
    Shortened base (g.revise id (t.withCalls calls)).bump ms := by
  refine ⟨h.framed.replan stored calls, h.nodup, fun m hm => ?_, fun k hk => ?_⟩
  · by_cases he : id = m.trip
    · -- the note is of the trip in the base, of which `t` has a part
      obtain ⟨u, was, hbase, htimes, hnow, hsub', hlt'⟩ := h.noted m hm
      rw [← he, stored, Option.some.injEq] at hnow
      subst hnow
      refine ⟨u, calls, hbase, htimes, ?_, hsub.trans hsub', Nat.lt_trans hlt hlt'⟩
      rw [getElem?_trips_revise, if_pos he]
      rfl
    · exact h.noted_of_ne hm he
  · have hne : id ≠ k := fun he => hk (he ▸ hmem)
    rw [getElem?_trips_revise, if_neg hne]
    exact h.others k hk

theorem shorten_first (h : Shortened base g ms) (stored : g.trips[id]? = some t)
    (hmem : id ∉ ms.map (·.trip)) {calls : List (Call R)} (hsub : calls.Sublist t.calls)
    (hlt : calls.length < t.calls.length) :
    Shortened base (g.revise id (t.withCalls calls)).bump
      (ms ++ [{ trip := id, stopTimes := t.stopTimes }]) := by
  refine ⟨h.framed.replan stored calls, ?_, fun m hm => ?_, fun k hk => ?_⟩
  · rw [List.map_append, List.nodup_append]
    refine ⟨h.nodup, List.nodup_singleton _, ?_⟩
    rintro a ha b hb rfl
    obtain rfl : a = id := List.mem_singleton.1 hb
    exact hmem ha
  · rcases List.mem_append.1 hm with hm | hm
    · exact h.noted_of_ne hm fun he => hmem (he ▸ List.mem_map_of_mem hm)
    · obtain rfl := List.mem_singleton.1 hm
      refine ⟨t, calls, (h.others id hmem).symm.trans stored, rfl, ?_, hsub, hlt⟩
      simp
  · rw [List.map_append, List.mem_append, not_or, List.map_singleton, List.mem_singleton] at hk
    rw [getElem?_trips_revise, if_neg (Ne.symm hk.2)]
    exact h.others k hk.1

/-- A trip that loses calls is noted as it was before it first did. -/
theorem shorten (h : Shortened base g ms) (stored : g.trips[id]? = some t)
    {calls : List (Call R)} (hsub : calls.Sublist t.calls)
    (hlt : calls.length < t.calls.length) :
    Shortened base (g.revise id (t.withCalls calls)).bump
      (TripModification.noteIn { trip := id, stopTimes := t.stopTimes } ms) := by
  rw [TripModification.noteIn]
  split
  · next hmem => exact h.shorten_again stored hmem hsub hlt
  · next hmem => exact h.shorten_first stored hmem hsub hlt

theorem putBack {m : TripModification R} (h : Shortened base g (m :: ms))
    (stored : g.trips[m.trip]? = some t) :
    Shortened base (g.revise m.trip (t.withCalls (m.stopTimes.map (·.toCall)))).bump ms := by
  obtain ⟨hnew, hnodup⟩ := List.nodup_cons.1 h.nodup
  refine ⟨h.framed.replan stored _, hnodup, fun n hn => ?_, fun k hk => ?_⟩
  · have hne : m.trip ≠ n.trip := fun he => hnew (List.mem_map.2 ⟨n, hn, he.symm⟩)
    exact h.noted_of_ne (List.mem_cons_of_mem m hn) hne
  · rw [getElem?_trips_revise]
    split
    · next he =>
      obtain ⟨u, was, hbase, htimes, hnow, _, _⟩ := h.noted m List.mem_cons_self
      rw [stored, Option.some.injEq] at hnow
      rw [← he, hbase, hnow, htimes, Trip.toCall_stopTimes]
      rfl
    · next hne =>
      refine h.others k fun hmem => ?_
      rcases List.mem_cons.1 hmem with he | hmem
      · exact hne he.symm
      · exact hk hmem

theorem eq_base (h : Shortened base g []) (hb : Consistent base) :
    g = { base with version := g.version } :=
  h.framed.eq_of_trips hb (Std.ExtTreeMap.ext_getElem? fun id => h.others id (by simp))

theorem modifyNoting_eq {m : TripModification R} (stored : g.trips[m.trip]? = some t)
    (c : TripChanges R) : modifyNoting (g, c) m =
      ((g.revise m.trip (t.withCalls (m.stopTimes.map (·.toCall)))).bump,
        c.modify { trip := m.trip, stopTimes := t.stopTimes }) := by
  simp only [modifyNoting, stored, replaceStopTimes, editCalls_eq, Option.bind_some,
    Option.map_some]

/-- Putting back all that is noted leaves nothing lost; it counts one edit for each trip. -/
theorem restore (h : Shortened base g ms) (c : TripChanges R)
    (hc : ∀ m ∈ ms, m.trip ∉ c.modified.map (·.trip)) :
    Shortened base (ms.foldl modifyNoting (g, c)).1 [] ∧
      (ms.foldl modifyNoting (g, c)).2.size = c.size + ms.length := by
  induction ms generalizing g c with
  | nil => exact ⟨h, rfl⟩
  | cons m ms ih =>
    obtain ⟨t, calls, _, _, stored, _, _⟩ := h.noted m List.mem_cons_self
    obtain ⟨hfirst, hrest⟩ := List.forall_mem_cons.1 hc
    have hnew := (List.nodup_cons.1 h.nodup).1
    rw [List.foldl_cons, modifyNoting_eq stored, TripChanges.modify_eq,
      TripModification.noteIn, if_neg hfirst]
    refine And.imp_right (fun hsize => ?_) (ih (h.putBack stored) _ fun n hn hmem => ?_)
    · rw [hsize, List.length_cons]
      simp only [TripChanges.size, List.length_append, List.length_cons, List.length_nil]
      omega
    · rw [List.map_append, List.mem_append, List.map_singleton, List.mem_singleton] at hmem
      rcases hmem with hmem | he
      · exact hrest n hn hmem
      · exact hnew (List.mem_map.2 ⟨n, hn, he⟩)

theorem trips_perm (h : Shortened base g ms) :
    (ms.map (·.trip)).Perm (shortenedTrips base g) := by
  apply (List.perm_ext_iff_of_nodup h.nodup (Std.ExtTreeMap.nodup_keys.filter _)).2
  intro id
  rw [List.mem_filter, Std.ExtTreeMap.mem_keys, decide_eq_true_eq]
  constructor
  · intro hid
    obtain ⟨m, hm, rfl⟩ := List.mem_map.1 hid
    obtain ⟨t, calls, hbase, _, hnow, _, hlt⟩ := h.noted m hm
    rw [Std.ExtTreeMap.mem_iff_isSome_getElem?, callCount, callCount, hbase, hnow]
    exact ⟨rfl, hlt⟩
  · rintro ⟨_, hlt⟩
    by_contra hid
    rw [callCount, h.others id hid, callCount] at hlt
    exact Nat.lt_irrefl _ hlt

theorem sublist (h : Shortened base g ms) (stored : base.trips[id]? = some t) :
    ∃ calls, g.trips[id]? = some (t.withCalls calls) ∧ calls.Sublist t.calls := by
  by_cases hid : id ∈ ms.map (·.trip)
  · obtain ⟨m, hm, rfl⟩ := List.mem_map.1 hid
    obtain ⟨u, calls, hbase, _, hnow, hsub, _⟩ := h.noted m hm
    rw [stored, Option.some.injEq] at hbase
    subst hbase
    exact ⟨calls, hnow, hsub⟩
  · exact ⟨t.calls, (h.others id hid).trans stored, .refl _⟩

end Shortened

end Schedule

namespace Patched

open Schedule

/-- Schedules under deletions on top of a base, with nothing pending but what the trips that were
shortened had. -/
def OnTopOf [Zero R] (base : Schedule R) (p : Patched R) : Prop :=
  ∃ ms, p.pending = { trips := { modified := ms } } ∧ Shortened base p.schedule ms

namespace OnTopOf

variable {base : Schedule R} {p : Patched R}

theorem start [Zero R] (hb : Consistent base) (version : Nat) :
    OnTopOf base ⟨{ base with version }, {}⟩ :=
  ⟨[], rfl, .start hb version⟩

theorem deleteStopTime [Zero R] (h : OnTopOf base p) (trip stop : Ident) :
    OnTopOf base (p.deleteStopTime trip stop).1 := by
  rw [deleteStopTime_eq]
  cases hq : (p.schedule.trips[trip]?).bind fun t =>
    (Calls.delete? stop t.calls).map (p.replanning trip t) with
  | none => exact h
  | some q =>
    obtain ⟨t, stored, hq⟩ := Option.bind_eq_some_iff.1 hq
    obtain ⟨calls, hcalls, rfl⟩ := Option.map_eq_some_iff.1 hq
    obtain ⟨ms, hpending, hms⟩ := h
    obtain ⟨hsub, hlength⟩ := Calls.sublist_of_delete? hcalls
    refine ⟨_, ?_, hms.shorten stored hsub (Nat.le_of_eq hlength)⟩
    change (p.replanning trip t calls).pending = _
    rw [replanning, hpending, TripChanges.modify_eq]

theorem applyChanges [Zero R] (h : OnTopOf base p) (ids : BareIds R) (today : Date)
    (cs : List ServiceChange) : OnTopOf base (p.applyChanges ids today cs).1 :=
  applyChanges_of_step (fun _ trip stop hp => hp.deleteStopTime trip stop) ids today cs h

theorem undo [Geometry R] (h : OnTopOf base p) (hb : Consistent base) :
    p.schedule.undo p.pending =
      ({ base with version := (p.schedule.undo p.pending).1.version },
        (shortenedTrips base p.schedule).length) := by
  obtain ⟨ms, hpending, hms⟩ := h
  obtain ⟨hbase, hsize⟩ := hms.restore .empty fun _ _ => List.not_mem_nil
  have hundo : p.schedule.undo p.pending = ((ms.foldl modifyNoting (p.schedule, .empty)).1,
      (ms.foldl modifyNoting (p.schedule, .empty)).2.size) := by
    rw [hpending]
    simp [Schedule.undo, applyShapes, applyStops, applyTrips, ShapeChanges.size, StopChanges.size,
      ShapeChanges.empty, StopChanges.empty]
  have hcount : (ms.foldl modifyNoting (p.schedule, .empty)).2.size =
      (shortenedTrips base p.schedule).length := by
    rw [hsize, ← hms.trips_perm.length_eq, List.length_map]
    simp [TripChanges.size, TripChanges.empty]
  rw [hundo, hcount, ← hbase.eq_base hb]

end OnTopOf

end Patched

end Timetable
