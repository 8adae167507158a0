import Timetable.Proofs.Change.Shortening

namespace Timetable

variable {R : Type}

namespace Calls

theorem getD_delete? (stop : Ident) (cs : List (Call R)) :
    (delete? stop cs).getD cs = cs.eraseP fun c => c.stop = stop := by
  induction cs with
  | nil => rfl
  | cons c cs ih =>
    rw [delete?]
    by_cases hc : c.stop = stop
    · rw [if_pos hc, List.eraseP_cons_of_pos (by simpa using hc), Option.getD_some]
    · rw [if_neg hc, List.eraseP_cons_of_neg (by simpa using hc), ← ih]
      cases delete? stop cs <;> rfl

/-- The calls that are left when the first one at each of some stops is removed in turn. -/
def without (stops : List Ident) (cs : List (Call R)) : List (Call R) :=
  stops.foldl (fun cs stop => cs.eraseP fun c => c.stop = stop) cs

theorem without_perm {stops stops' : List Ident} (h : stops.Perm stops') (cs : List (Call R)) :
    without stops cs = without stops' cs := by
  -- deletions at two stops commute, as no call is at both
  apply h.foldl_eq'
  intro a _ b _ cs
  by_cases he : a = b
  · rw [he]
  · apply List.eraseP_comm
    intro c _
    rw [decide_eq_true_eq, decide_eq_true_eq, ← not_and_or]
    rintro ⟨ha, hb⟩
    exact he (ha.symm.trans hb)

theorem without_sublist (stops : List Ident) (cs : List (Call R)) :
    (without stops cs).Sublist cs := by
  induction stops generalizing cs with
  | nil => exact .refl cs
  | cons stop stops ih => exact (ih _).trans List.eraseP_sublist

theorem filter_eraseP (stop s : Ident) (cs : List (Call R)) :
    (cs.eraseP fun c => c.stop = stop).filter (fun c => c.stop = s) =
      (cs.filter fun c => c.stop = s).drop (if stop = s then 1 else 0) := by
  induction cs with
  | nil => simp
  | cons c cs ih =>
    by_cases hc : c.stop = stop
    · rw [List.eraseP_cons_of_pos (by simpa using hc), List.filter_cons, ← hc]
      by_cases hs : c.stop = s
      · rw [if_pos hs, if_pos (decide_eq_true hs), List.drop_one, List.tail_cons]
      · rw [if_neg hs, if_neg (by simpa using hs), List.drop_zero]
    · rw [List.eraseP_cons_of_neg (by simpa using hc), List.filter_cons, List.filter_cons, ih]
      by_cases hs : c.stop = s
      · have hne : stop ≠ s := fun he => hc (hs.trans he.symm)
        rw [if_neg hne, List.drop_zero, List.drop_zero]
      · have hs : ¬decide (c.stop = s) = true := by simpa using hs
        rw [if_neg hs, if_neg hs]

/-- Of the calls at a stop the first ones are gone, one for each time that the stop is named. -/
theorem filter_without (stops : List Ident) (stop : Ident) (cs : List (Call R)) :
    (without stops cs).filter (fun c => c.stop = stop) =
      (cs.filter fun c => c.stop = stop).drop (stops.count stop) := by
  induction stops generalizing cs with
  | nil => rfl
  | cons s stops ih =>
    rw [without, List.foldl_cons, ← without, ih, filter_eraseP, List.drop_drop, List.count_cons]
    congr 1
    simp only [beq_iff_eq]
    omega

end Calls

namespace Schedule

def callTotal (g : Schedule R) : Nat := (g.trips.values.flatMap (·.calls)).length

theorem callTotal_revise [Zero R] {g : Schedule R} {id : Ident} {t : Trip R}
    (stored : g.trips[id]? = some t) (u : Trip R) :
    (g.revise id u).bump.callTotal + t.calls.length = g.callTotal + u.calls.length := by
  have hbefore := ((Table.values_perm_erase stored).flatMap_right (·.calls)).length_eq
  have hafter := ((Table.values_insert_perm_erase g.trips id u).flatMap_right (·.calls)).length_eq
  rw [List.flatMap_cons, List.length_append] at hbefore hafter
  have htrips : (g.revise id u).bump.callTotal =
    ((g.trips.insert id u).values.flatMap (·.calls)).length := rfl
  rw [htrips, callTotal, hbefore, hafter]
  omega

/-- A schedule with some calls fewer, each of which counted as a change. -/
structure Lost (n : Nat) (g h : Schedule R) : Prop where
  version : h.version = g.version + n
  calls : h.callTotal + n = g.callTotal

namespace Lost

variable {m n : Nat} {f g h : Schedule R}

theorem none (g : Schedule R) : Lost 0 g g := ⟨rfl, rfl⟩

theorem trans (hf : Lost m f g) (hg : Lost n g h) : Lost (m + n) f h where
  version := by rw [hg.version, hf.version, Nat.add_assoc]
  calls := by rw [← hf.calls, ← hg.calls, Nat.add_comm m, Nat.add_assoc]

end Lost

end Schedule

def stopsOf (trip : Ident) (named : List (Ident × Ident)) : List Ident :=
  (named.filter fun d => d.1 = trip).map (·.2)

theorem stopsOf_perm {named named' : List (Ident × Ident)} (h : named.Perm named')
    (trip : Ident) : (stopsOf trip named).Perm (stopsOf trip named') :=
  (h.filter _).map _

theorem count_stopsOf (trip stop : Ident) (named : List (Ident × Ident)) :
    (stopsOf trip named).count stop = named.count (trip, stop) := by
  induction named with
  | nil => rfl
  | cons d named ih =>
    rw [stopsOf, List.filter_cons, List.count_cons]
    by_cases hd : d.1 = trip
    · rw [if_pos (decide_eq_true hd), List.map_cons, List.count_cons, ← stopsOf, ih]
      congr 1
      simp [Prod.ext_iff, hd]
    · rw [if_neg (by simpa using hd), ← stopsOf, ih, if_neg, Nat.add_zero]
      rintro he
      exact hd (congrArg Prod.fst (beq_iff_eq.1 he))

def BareIds.fixed (trip stop : String → Ident) : BareIds R := ⟨fun _ => trip, fun _ => stop⟩

namespace Patched

open Schedule

variable [Zero R]

def deleteAll (p : Patched R) (named : List (Ident × Ident)) : Patched R :=
  named.foldl (fun p d => (p.deleteStopTime d.1 d.2).1) p

theorem deleteAll_of_step {P : Patched R → Prop}
    (step : ∀ p trip stop, P p → P (p.deleteStopTime trip stop).1) (named : List (Ident × Ident))
    {p : Patched R} (hp : P p) : P (p.deleteAll named) := by
  induction named generalizing p with
  | nil => exact hp
  | cons d named ih => exact ih (step p d.1 d.2 hp)

section Deleting

variable (p : Patched R) (trip stop : Ident)

theorem deleteAll_append (a b : List (Ident × Ident)) :
    p.deleteAll (a ++ b) = (p.deleteAll a).deleteAll b :=
  List.foldl_append

theorem deleteStopTime_cases :
    (∃ t calls, p.schedule.trips[trip]? = some t ∧ Calls.delete? stop t.calls = some calls ∧
      p.deleteStopTime trip stop = (p.replanning trip t calls, true)) ∨
    (∀ t, p.schedule.trips[trip]? = some t → Calls.delete? stop t.calls = none) ∧
      p.deleteStopTime trip stop = (p, false) := by
  rw [deleteStopTime_eq]
  cases hstored : p.schedule.trips[trip]? with
  | none => exact .inr ⟨nofun, rfl⟩
  | some t =>
    rw [Option.bind_some]
    cases hdelete : Calls.delete? stop t.calls with
    | none => exact .inr ⟨fun u hu => Option.some.inj hu ▸ hdelete, rfl⟩
    | some calls => exact .inl ⟨t, calls, rfl, hdelete, rfl⟩

theorem trips_deleteStopTime (id : Ident) :
    (p.deleteStopTime trip stop).1.schedule.trips[id]? =
      if trip = id then (p.schedule.trips[id]?).map fun t =>
        t.withCalls (t.calls.eraseP fun c => c.stop = stop)
      else p.schedule.trips[id]? := by
  rcases p.deleteStopTime_cases trip stop with
    ⟨t, calls, hstored, hdelete, hp⟩ | ⟨habsent, hp⟩
  · have herase := Calls.getD_delete? stop t.calls
    rw [hdelete, Option.getD_some] at herase
    rw [hp, herase]
    refine (getElem?_trips_revise p.schedule trip _ id).trans ?_
    split
    · next he =>
      subst he
      rw [hstored, Option.map_some]
    · rfl
  · rw [hp]
    split
    · next he =>
      subst he
      cases hstored : p.schedule.trips[trip]? with
      | none => rfl
      | some t =>
        have herase := Calls.getD_delete? stop t.calls
        rw [habsent t hstored, Option.getD_none] at herase
        rw [Option.map_some, ← herase]
        rfl
    · rfl

theorem trips_deleteAll (named : List (Ident × Ident)) (id : Ident) :
    (p.deleteAll named).schedule.trips[id]? = (p.schedule.trips[id]?).map fun t =>
      t.withCalls (Calls.without (stopsOf id named) t.calls) := by
  induction named generalizing p with
  | nil =>
    rw [deleteAll, List.foldl_nil]
    cases p.schedule.trips[id]? <;> rfl
  | cons d named ih =>
    rw [deleteAll, List.foldl_cons, ← deleteAll, ih, trips_deleteStopTime]
    by_cases hd : d.1 = id
    · have hstops : stopsOf id (d :: named) = d.2 :: stopsOf id named := by
        rw [stopsOf, List.filter_cons, if_pos (decide_eq_true hd), List.map_cons, stopsOf]
      rw [if_pos hd, Option.map_map, hstops]
      rfl
    · have hstops : stopsOf id (d :: named) = stopsOf id named := by
        rw [stopsOf, List.filter_cons, if_neg (by simpa using hd), stopsOf]
      rw [if_neg hd, hstops]

theorem lost_deleteStopTime : Lost (if (p.deleteStopTime trip stop).2 then 1 else 0)
    p.schedule (p.deleteStopTime trip stop).1.schedule := by
  rcases p.deleteStopTime_cases trip stop with ⟨t, calls, hstored, hdelete, hp⟩ | ⟨_, hp⟩
  · rw [hp]
    have htotal := callTotal_revise hstored (t.withCalls calls)
    obtain ⟨_, hlength⟩ := Calls.sublist_of_delete? hdelete
    refine ⟨rfl, Nat.add_right_cancel (m := calls.length) ?_⟩
    rw [if_pos rfl, Nat.add_assoc, Nat.add_comm 1, hlength]
    exact htotal
  · rw [hp]
    exact .none p.schedule

theorem schedule_deleteStopTime :
    (p.deleteStopTime trip stop).1.schedule = (p.schedule.deleteStopTime trip stop).1 := by
  rw [deleteStopTime]
  cases hstored : p.schedule.trips[trip]? with
  | none =>
    rw [Schedule.deleteStopTime, editCalls_eq, hstored]
    rfl
  | some t => rcases p.schedule.deleteStopTime trip stop with ⟨g, _ | _⟩ <;> rfl

theorem framed_deleteStopTime {base : Schedule R} {p : Patched R} (h : Framed base p.schedule)
    (trip stop : Ident) : Framed base (p.deleteStopTime trip stop).1.schedule := by
  rcases p.deleteStopTime_cases trip stop with ⟨t, calls, hstored, _, hp⟩ | ⟨_, hp⟩
  · rw [hp]
    exact h.replan hstored calls
  · rwa [hp]

theorem framed_deleteAll {base : Schedule R} {p : Patched R} (h : Framed base p.schedule)
    (named : List (Ident × Ident)) : Framed base (p.deleteAll named).schedule :=
  deleteAll_of_step (P := fun p => Framed base p.schedule)
    (fun _ trip stop hp => framed_deleteStopTime hp trip stop) named h

@[simp] theorem mem_trips_deleteAll (named : List (Ident × Ident)) (id : Ident) :
    id ∈ (p.deleteAll named).schedule.trips ↔ id ∈ p.schedule.trips := by
  rw [Std.ExtTreeMap.mem_iff_isSome_getElem?, trips_deleteAll, Option.isSome_map,
    ← Std.ExtTreeMap.mem_iff_isSome_getElem?]

end Deleting

theorem schedule_deleteAll {R : Type} [Geometry R] (p : Patched R)
    (named : List (Ident × Ident)) : (p.deleteAll named).schedule =
      p.schedule.run (named.map fun d => .deleteStopTime d.1 d.2) := by
  induction named generalizing p with
  | nil => rfl
  | cons d named ih =>
    have hfirst : (p.deleteStopTime d.1 d.2).1.schedule =
        (p.schedule.apply (.deleteStopTime d.1 d.2)).1 :=
      schedule_deleteStopTime p d.1 d.2
    rw [deleteAll, List.foldl_cons, ← deleteAll, ih, hfirst]
    rfl

section Batches

variable (ids : BareIds R) (today : Date) (p : Patched R)

theorem deleteStopTimes_cons (trip stop : String) (pairs : List (String × String)) :
    p.deleteStopTimes ids ((trip, stop) :: pairs) =
      let q := p.deleteStopTime (ids.trip p.schedule trip) (ids.stop p.schedule stop)
      let r := q.1.deleteStopTimes ids pairs
      (r.1, (if q.2 then 1 else 0) + r.2) := by
  refine Prod.ext rfl ?_
  simp only [deleteStopTimes]
  split
  · exact Nat.add_comm _ _
  · exact (Nat.zero_add _).symm

theorem lost_deleteStopTimes (pairs : List (String × String)) :
    Lost (p.deleteStopTimes ids pairs).2 p.schedule (p.deleteStopTimes ids pairs).1.schedule := by
  induction pairs generalizing p with
  | nil => exact .none p.schedule
  | cons pair pairs ih =>
    rw [deleteStopTimes_cons]
    exact (p.lost_deleteStopTime _ _).trans (ih _)

end Batches

end Patched

end Timetable
