import Mathlib.Data.List.DropRight
import Timetable.Proofs.Vehicle.Placement

namespace Timetable.History

inductive Update where
  | add (block : Ident) (r : VehicleReport)
  | clear (vehicle : Ident)

def update (h : History) : Update → History
  | .add block r => h.add block r
  | .clear vehicle => h.clear vehicle

def run (h : History) (us : List Update) : History := us.foldl update h

namespace Update

def concerns (vehicle : Ident) : Update → Bool
  | .add _ r => r.vehicle = some vehicle
  | .clear other => other = vehicle

def clears (vehicle : Ident) : Update → Bool
  | .add _ _ => false
  | .clear other => other = vehicle

def sighting? (vehicle : Ident) : Update → Option (Ident × VehicleReport)
  | .add block r => if r.vehicle = some vehicle then some (block, r) else none
  | .clear _ => none

theorem of_not_concerns {vehicle : Ident} {u : Update} (h : u.concerns vehicle = false) :
    u.clears vehicle = false ∧ u.sighting? vehicle = none := by
  cases u with
  | add block r => exact ⟨rfl, if_neg (of_decide_eq_false h)⟩
  | clear other => exact ⟨h, rfl⟩

end Update

/-- The reports of a vehicle since it was cleared last, with their blocks, oldest first. -/
def sightings (vehicle : Ident) (us : List Update) : List (Ident × VehicleReport) :=
  (us.rtakeWhile fun u => !u.clears vehicle).filterMap (Update.sighting? vehicle)

/-- The latest reports that came from one block without a break, oldest first. -/
def streak (block : Ident) (seen : List (Ident × VehicleReport)) : List VehicleReport :=
  (seen.rtakeWhile fun s => s.1 = block).map (·.2)

/-- What has come in since everything was cleared last, once one thing more is told. -/
theorem filterMap_rtakeWhile_concat {α β : Type} (clears : α → Bool) (told : α → Option β)
    (us : List α) (u : α) : ((us ++ [u]).rtakeWhile fun u => !clears u).filterMap told =
      if clears u then []
      else (us.rtakeWhile fun u => !clears u).filterMap told ++ (told u).toList := by
  rw [List.rtakeWhile_concat]
  cases clears u with
  | true => rfl
  | false =>
    have hone : [u].filterMap told = (told u).toList := by
      rw [List.filterMap_cons]
      cases told u <;> rfl
    simp only [Bool.not_false, if_true, Bool.false_eq_true, if_false]
    rw [List.filterMap_append, hone]

section Sightings

variable (vehicle : Ident) (us : List Update)

theorem sightings_concat (u : Update) : sightings vehicle (us ++ [u]) =
    if u.clears vehicle then [] else sightings vehicle us ++ (u.sighting? vehicle).toList :=
  filterMap_rtakeWhile_concat (Update.clears vehicle) (Update.sighting? vehicle) us u

theorem sightings_filter :
    sightings vehicle (us.filter (·.concerns vehicle)) = sightings vehicle us := by
  induction us using List.reverseRecOn with
  | nil => rfl
  | append_singleton us u ih =>
    rw [List.filter_append, sightings_concat, List.filter_singleton]
    cases hu : u.concerns vehicle with
    | true => rw [cond_true, sightings_concat, ih]
    | false =>
      obtain ⟨hclears, hsighting⟩ := Update.of_not_concerns hu
      rw [cond_false, List.append_nil, ih, hclears, hsighting]
      exact (List.append_nil _).symm

end Sightings

theorem streak_concat (block : Ident) (seen : List (Ident × VehicleReport)) (other : Ident)
    (r : VehicleReport) : streak block (seen ++ [(other, r)]) =
      if other = block then streak block seen ++ [r] else [] := by
  rw [streak, List.rtakeWhile_concat]
  split <;> simp_all [streak]

theorem addBounded_rtake {capacity : Nat} (hc : 0 < capacity) (reports : List VehicleReport)
    (r : VehicleReport) :
    addBounded capacity (reports.rtake capacity) r = (reports ++ [r]).rtake capacity := by
  obtain ⟨n, rfl⟩ := Nat.exists_eq_succ_of_ne_zero hc.ne'
  rw [Nat.succ_eq_add_one, List.rtake_concat_succ, addBounded]
  congr 1
  simp only [List.rtake, List.length_drop, List.drop_drop]
  split
  · congr 1
    omega
  · congr 1
    omega

def trail? (capacity : Nat) (seen : List (Ident × VehicleReport)) : Option Trail :=
  seen.getLast?.map fun last =>
    { block := last.1, reports := (streak last.1 seen).rtake capacity }

theorem trail?_concat (capacity : Nat) (seen : List (Ident × VehicleReport)) (block : Ident)
    (r : VehicleReport) : trail? capacity (seen ++ [(block, r)]) =
      some { block, reports := (streak block seen ++ [r]).rtake capacity } := by
  rw [trail?, List.getLast?_append, List.getLast?_singleton, Option.some_or, Option.map_some,
    streak_concat, if_pos rfl]

section Step

variable (h : History) (vehicle : Ident)

theorem getElem?_add (block : Ident) (r : VehicleReport) : (h.add block r).trails[vehicle]? =
    if r.vehicle = some vehicle then
      some { block, reports := addBounded h.capacity (h.reportsOn vehicle block) r }
    else h.trails[vehicle]? := by
  rw [add]
  cases r.vehicle with
  | none => rfl
  | some other =>
    simp only [Table.getElem?_insert, Option.some.injEq]
    split
    · next he => rw [he]
    · rfl

@[simp] theorem capacity_update (u : Update) : (h.update u).capacity = h.capacity := by
  cases u with
  | clear other => rfl
  | add block r =>
    rw [update, add]
    cases r.vehicle <;> rfl

variable {h vehicle} {seen : List (Ident × VehicleReport)}

theorem reportsOn_of_trail (hseen : h.trails[vehicle]? = trail? h.capacity seen) (block : Ident) :
    h.reportsOn vehicle block = (streak block seen).rtake h.capacity := by
  rw [reportsOn, hseen]
  cases seen using List.reverseRecOn with
  | nil => exact (List.rtake_nil _).symm
  | append_singleton seen last =>
    obtain ⟨other, r⟩ := last
    rw [trail?_concat, streak_concat]
    by_cases he : other = block
    · simp only [he, if_true]
    · simp only [he, if_false]
      exact (List.rtake_nil _).symm

theorem getElem?_update (hc : 0 < h.capacity)
    (hseen : h.trails[vehicle]? = trail? h.capacity seen) (u : Update) :
    (h.update u).trails[vehicle]? = trail? h.capacity
      (if u.clears vehicle then [] else seen ++ (u.sighting? vehicle).toList) := by
  cases u with
  | clear other =>
    rw [update, clear, Table.getElem?_erase, Update.clears, Update.sighting?, Option.toList_none,
      List.append_nil]
    by_cases he : other = vehicle
    · simp only [he, decide_true, if_true]
      rfl
    · simp only [he, decide_false, Bool.false_eq_true, if_false]
      exact hseen
  | add block r =>
    rw [update, getElem?_add, Update.clears, Update.sighting?, if_neg Bool.false_ne_true]
    split
    · rw [Option.toList_some, trail?_concat, reportsOn_of_trail hseen, addBounded_rtake hc]
    · rw [Option.toList_none, List.append_nil, hseen]

end Step

theorem capacity_run (h : History) (us : List Update) : (h.run us).capacity = h.capacity := by
  induction us generalizing h with
  | nil => rfl
  | cons u us ih => exact (ih _).trans (capacity_update h u)

theorem getElem?_run (capacity : Nat) (us : List Update) (vehicle : Ident) :
    ((ofCapacity capacity).run us).trails[vehicle]? =
      trail? (max capacity 1) (sightings vehicle us) := by
  have hcapacity (us : List Update) : ((ofCapacity capacity).run us).capacity = max capacity 1 :=
    capacity_run _ us
  induction us using List.reverseRecOn with
  | nil => exact Std.ExtTreeMap.getElem?_empty
  | append_singleton us u ih =>
    rw [← hcapacity us] at ih ⊢
    have hc : 0 < ((ofCapacity capacity).run us).capacity := by
      rw [hcapacity]
      omega
    rw [sightings_concat, ← getElem?_update hc ih, run, List.foldl_append]
    rfl

/-- After any reports and clearings, the block of a vehicle is that of its latest report since it
was cleared last, and its reports are the latest ones, up to the capacity, that came from that block
without a break. What is about other vehicles or about none makes no difference. -/
theorem latest_from_block (capacity : Nat) (us : List Update) (vehicle : Ident) :
    let h := (ofCapacity capacity).run us
    let seen := sightings vehicle us
    let alone := (ofCapacity capacity).run (us.filter (·.concerns vehicle))
    (match seen.getLast? with
    | some (block, _) =>
      h.block? vehicle = some block ∧
      h.reports vehicle = (streak block seen).rtake (max capacity 1) ∧
      (h.reports vehicle).length = min (streak block seen).length (max capacity 1)
    | none => h.block? vehicle = none ∧ h.reports vehicle = []) ∧
    alone.block? vehicle = h.block? vehicle ∧ alone.reports vehicle = h.reports vehicle := by
  intro h seen alone
  have htrail : h.trails[vehicle]? = trail? (max capacity 1) seen :=
    getElem?_run capacity us vehicle
  have halone : alone.trails[vehicle]? = h.trails[vehicle]? := by
    rw [getElem?_run, sightings_filter, htrail]
  refine ⟨?_, by rw [block?, halone, block?], by rw [reports, halone, reports]⟩
  rw [trail?] at htrail
  cases hlast : seen.getLast? with
  | none =>
    rw [hlast] at htrail
    exact ⟨congrArg (Option.map Trail.block) htrail, reports_of_trail_none htrail⟩
  | some last =>
    rw [hlast] at htrail
    have hreports := reports_of_trail htrail
    refine ⟨block_of_trail htrail, hreports, ?_⟩
    simp only [hreports, List.rtake, List.length_drop]
    omega

/-- A vehicle leaves a block and returns to it, while another one and none at all are reported. -/
example :
    let report (vehicle : Option Ident) (time : Int) : VehicleReport := { vehicle, time }
    let v : Ident := ⟨"A", "V"⟩
    let us : List Update :=
      [.add ⟨"A", "B"⟩ (report v 1), .add ⟨"A", "C"⟩ (report v 2), .add ⟨"A", "B"⟩ (report v 3),
        .add ⟨"A", "C"⟩ (report (some ⟨"A", "W"⟩) 4), .add ⟨"A", "B"⟩ (report v 5),
        .add ⟨"A", "C"⟩ (report none 6)]
    (((ofCapacity 3).run us).reports v).map (·.time) = [3, 5] := by
  decide +kernel

end Timetable.History
