import Timetable.Proofs.Vehicle.History

namespace Timetable

namespace OccupancyReport

/-- Whether a report is among others of which those before it are not newer and those after it are
older. -/
def IsNewest (r : OccupancyReport) (rs : List OccupancyReport) : Prop :=
  ∃ before after, rs = before ++ r :: after ∧ (∀ s ∈ before, s.timestamp ≤ r.timestamp) ∧
    ∀ s ∈ after, s.timestamp < r.timestamp

/-- The report that counts once reports have come in one after the other. -/
def newest? (rs : List OccupancyReport) : Option OccupancyReport :=
  rs.foldl (fun current r => some (r.over current)) none

variable {r s : OccupancyReport} {rs rs' : List OccupancyReport}

@[simp] theorem newest?_concat (rs : List OccupancyReport) (r : OccupancyReport) :
    newest? (rs ++ [r]) = some (r.over (newest? rs)) := by
  rw [newest?, List.foldl_append]
  rfl

@[simp] theorem newest?_eq_none_iff : newest? rs = none ↔ rs = [] := by
  cases rs using List.reverseRecOn with
  | nil => exact iff_of_true rfl rfl
  | append_singleton rs r => simp [newest?_concat]

theorem IsNewest.mem (h : r.IsNewest rs) : r ∈ rs := by
  obtain ⟨before, after, rfl, -, -⟩ := h
  exact List.mem_append_right _ List.mem_cons_self

theorem IsNewest.le (h : r.IsNewest rs) (hs : s ∈ rs) : s.timestamp ≤ r.timestamp := by
  obtain ⟨before, after, rfl, hbefore, hafter⟩ := h
  rcases List.mem_append.1 hs with hs | hs
  · exact hbefore s hs
  · rcases List.mem_cons.1 hs with rfl | hs
    · exact Int.le_refl _
    · exact Int.le_of_lt (hafter s hs)

theorem isNewest_of_newest? (h : newest? rs = some r) : r.IsNewest rs := by
  induction rs using List.reverseRecOn generalizing r with
  | nil => cases h
  | append_singleton rs last ih =>
    rw [newest?_concat, Option.some.injEq] at h
    subst h
    cases hrs : newest? rs with
    | none =>
      obtain rfl := newest?_eq_none_iff.1 hrs
      exact ⟨[], [], rfl, nofun, nofun⟩
    | some current =>
      have hcurrent := ih hrs
      rw [OccupancyReport.over]
      split
      · next hlater =>
        exact ⟨rs, [], rfl, fun s hs => Int.le_trans (hcurrent.le hs) hlater, nofun⟩
      · next hearlier =>
        obtain ⟨before, after, rfl, hbefore, hafter⟩ := hcurrent
        refine ⟨before, after ++ [last], by simp, hbefore, fun s hs => ?_⟩
        rcases List.mem_append.1 hs with hs | hs
        · exact hafter s hs
        · obtain rfl := List.mem_singleton.1 hs
          exact Int.not_le.1 hearlier

theorem newest?_eq_some_iff : newest? rs = some r ↔ r.IsNewest rs := by
  constructor
  · exact isNewest_of_newest?
  · rintro ⟨before, after, rfl, hbefore, hafter⟩
    have hover : r.over (newest? before) = r := by
      cases hc : newest? before with
      | none => rfl
      | some current => rw [OccupancyReport.over, if_pos (hbefore _ (isNewest_of_newest? hc).mem)]
    have hkeep : after.foldl (fun current r => some (r.over current)) (some r) = some r := by
      induction after with
      | nil => rfl
      | cons s after ih =>
        rw [List.forall_mem_cons] at hafter
        rw [List.foldl_cons, OccupancyReport.over, if_neg (Int.not_le.2 hafter.1)]
        exact ih hafter.2
    rw [newest?, List.foldl_append, List.foldl_cons, ← newest?, hover, hkeep]

theorem newest?_perm (hperm : rs.Perm rs') (hdistinct : (rs.map (·.timestamp)).Nodup) :
    newest? rs' = newest? rs := by
  cases h : newest? rs with
  | none =>
    rw [newest?_eq_none_iff] at h
    subst h
    rw [List.nil_perm.1 hperm]
    rfl
  | some r =>
    have hr := newest?_eq_some_iff.1 h
    cases h' : newest? rs' with
    | none =>
      rw [newest?_eq_none_iff] at h'
      subst h'
      rw [List.perm_nil.1 hperm] at h
      cases h
    | some r' =>
      have hr' := newest?_eq_some_iff.1 h'
      have hle := hr'.le (hperm.mem_iff.1 hr.mem)
      have hge := hr.le (hperm.mem_iff.2 hr'.mem)
      rw [List.inj_on_of_nodup_map hdistinct hr.mem (hperm.mem_iff.2 hr'.mem)
        (Int.le_antisymm hle hge)]

end OccupancyReport

namespace Occupancies

open OccupancyReport

inductive Update where
  | add (r : OccupancyReport)
  | clear (vehicle : Ident)

def update (t : Occupancies) : Update → Occupancies
  | .add r => t.add r
  | .clear vehicle => t.clear vehicle

def run (t : Occupancies) (us : List Update) : Occupancies := us.foldl update t

namespace Update

def clears (vehicle : Ident) : Update → Bool
  | .add _ => false
  | .clear other => other = vehicle

def report? (vehicle : Ident) : Update → Option OccupancyReport
  | .add r => if r.vehicle = vehicle then some r else none
  | .clear _ => none

end Update

/-- The reports of a vehicle since it was cleared last, oldest first. -/
def recent (vehicle : Ident) (us : List Update) : List OccupancyReport :=
  (us.rtakeWhile fun u => !u.clears vehicle).filterMap (Update.report? vehicle)

theorem recent_concat (vehicle : Ident) (us : List Update) (u : Update) :
    recent vehicle (us ++ [u]) =
      if u.clears vehicle then [] else recent vehicle us ++ (u.report? vehicle).toList :=
  History.filterMap_rtakeWhile_concat _ _ us u

theorem getElem?_update (t : Occupancies) (u : Update) (vehicle : Ident) :
    (t.update u)[vehicle]? =
      if u.clears vehicle then none
      else match u.report? vehicle with
        | some r => some (r.over t[vehicle]?)
        | none => t[vehicle]? := by
  cases u with
  | add r =>
    rw [update, getElem?_add, Update.clears, Update.report?, if_neg Bool.false_ne_true]
    split <;> rfl
  | clear other =>
    rw [update, clear, Table.getElem?_erase, Update.clears, Update.report?]
    simp only [decide_eq_true_eq]

theorem getElem?_run (us : List Update) (vehicle : Ident) :
    (run ∅ us)[vehicle]? = newest? (recent vehicle us) := by
  induction us using List.reverseRecOn with
  | nil => exact Std.ExtTreeMap.getElem?_empty
  | append_singleton us u ih =>
    have hrun : run ∅ (us ++ [u]) = (run ∅ us).update u := List.foldl_append
    rw [hrun, getElem?_update, recent_concat, ih]
    split
    · rfl
    · cases u.report? vehicle with
      | none => rw [Option.toList_none, List.append_nil]
      | some r => simp

/-- After any reports and clearings, what is known of a vehicle is the newest of its reports since
it was cleared last, of several equally new ones the last that came, and nothing if there is none.
So of reports with different timestamps it does not matter in which order they come. -/
theorem newest_kept (us : List Update) (vehicle : Ident) :
    (∀ r, (run ∅ us).last? vehicle = some r ↔ r.IsNewest (recent vehicle us)) ∧
    ((run ∅ us).last? vehicle = none ↔ recent vehicle us = []) ∧
    ∀ us', (recent vehicle us).Perm (recent vehicle us') →
      ((recent vehicle us).map (·.timestamp)).Nodup →
      (run ∅ us').last? vehicle = (run ∅ us).last? vehicle := by
  simp only [last?, getElem?_run]
  exact ⟨fun r => newest?_eq_some_iff, newest?_eq_none_iff, fun us' => newest?_perm⟩

/-- Reports of a bus that come in their order, and the same ones out of order, after the bus was
cleared and while another one is reported. -/
def crowdedDays : List Update × List Update :=
  let report (bus : String) (status : OccupancyStatus) (timestamp : Int) : Update :=
    .add { vehicle := ⟨"A", bus⟩, route := none, direction := none, status, timestamp }
  ([report "1" .empty 3, report "1" .fewSeats 4, report "1" .full 5],
   [report "1" .empty 9, .clear ⟨"A", "1"⟩, report "1" .fewSeats 4, report "2" .empty 7,
    report "1" .full 5, .clear ⟨"A", "2"⟩, report "1" .empty 3])

theorem newest_kept_crowdedDays :
    let bus : Ident := ⟨"A", "1"⟩
    let us := crowdedDays.1
    let us' := crowdedDays.2
    (recent bus us).Perm (recent bus us') ∧ ((recent bus us).map (·.timestamp)).Nodup ∧
    (run ∅ us').last? bus = (run ∅ us).last? bus ∧
    ((run ∅ us).last? bus).map (·.status) = some .full := by
  intro bus us us'
  have hperm : (recent bus us).Perm (recent bus us') := by decide +kernel
  have hdistinct : ((recent bus us).map (·.timestamp)).Nodup := by decide +kernel
  exact ⟨hperm, hdistinct, (newest_kept us bus).2.2 us' hperm hdistinct, by decide +kernel⟩

/-- Of two reports with one timestamp the later counts, though an older one comes after it. -/
example :
    let report (status : OccupancyStatus) (timestamp : Int) : Update :=
      .add { vehicle := ⟨"A", "1"⟩, route := none, direction := none, status, timestamp }
    ((run ∅ [report .full 5, report .fewSeats 5, report .empty 4]).last? ⟨"A", "1"⟩).map
      (·.status) = some .fewSeats := by
  decide +kernel

end Occupancies

end Timetable
