import Timetable.Engine
import Timetable.Proofs.Vehicle.Known

namespace Timetable

variable {R : Type}

/-- A report that came in and the same report with the block of its trip: whatever else it says
stays, and so does the trip if it named a block itself. -/
structure VehicleReport.Completed (raw r : VehicleReport) : Prop where
  same : { r with trip := raw.trip, block := raw.block } = raw
  own : raw.block ≠ none → r = raw

theorem Tracker.completed_withBlock (v : View R) (r : VehicleReport) :
    r.Completed (withBlock v r) := by
  rw [withBlock]
  split
  · next hblock _ => exact ⟨rfl, fun h => (h hblock).elim⟩
  · exact ⟨rfl, fun _ => rfl⟩

section Bounded

variable {capacity : Nat} {reports : List VehicleReport} {r : VehicleReport}

theorem History.length_addBounded (hc : 0 < capacity) (h : reports.length ≤ capacity) :
    (addBounded capacity reports r).length ≤ capacity := by
  rw [addBounded, List.length_append, List.length_singleton]
  split
  · rw [List.length_drop]
    omega
  · omega

theorem History.mem_of_mem_addBounded {s : VehicleReport}
    (h : s ∈ addBounded capacity reports r) : s ∈ reports ∨ s = r := by
  rw [addBounded, List.mem_append, List.mem_singleton] at h
  refine h.imp_left fun hs => ?_
  split at hs
  · exact List.mem_of_mem_drop hs
  · exact hs

@[simp] theorem History.getLast?_addBounded :
    (addBounded capacity reports r).getLast? = some r := by
  rw [addBounded, List.getLast?_append, List.getLast?_singleton, Option.some_or]

end Bounded

/-- A location with the latest report and the trail that belong to it: the report is the one of the
location, and the trail is on the same block and ends there. -/
structure BlockLocation.Backed (capacity : Nat) (l : BlockLocation) (report : Option VehicleReport)
    (trail : Option Trail) : Prop where
  latest : ∃ raw, report = some raw ∧ raw.Completed l.report
  trail : ∃ t, trail = some t ∧ t.block = l.block ∧ (∀ r ∈ t.reports, r.block = some l.block) ∧
    t.reports.getLast? = some l.report ∧ t.reports.length ≤ capacity

namespace Known

/-- A vehicle has a trail only where it is placed. -/
def Coherent (capacity : Nat) (k : Known) : Prop :=
  match k.location with
  | some l => l.Backed capacity k.report k.trail
  | .none => k.trail = .none

variable {capacity : Nat} {k : Known}

theorem Coherent.reportsOn (h : k.Coherent capacity) (block : Ident) :
    (∀ r ∈ k.reportsOn block, r.block = some block) ∧ (k.reportsOn block).length ≤ capacity := by
  have hnil : k.trail = .none → k.reportsOn block = [] := fun ht => by rw [Known.reportsOn, ht]
  rw [Coherent] at h
  cases hl : k.location with
  | none =>
    rw [hl] at h
    rw [hnil h]
    exact ⟨fun _ hr => (List.not_mem_nil hr).elim, Nat.zero_le _⟩
  | some l =>
    rw [hl] at h
    obtain ⟨t, ht, hblock, hreports, _, hlength⟩ := h.trail
    simp only [Known.reportsOn, ht]
    split
    · next he =>
      rw [← he, hblock]
      exact ⟨hreports, hlength⟩
    · exact ⟨fun _ hr => (List.not_mem_nil hr).elim, Nat.zero_le _⟩

theorem Coherent.assign (h : k.Coherent capacity) (hc : 0 < capacity) {raw r : VehicleReport}
    (hr : raw.Completed r) :
    (assign capacity { k with report := some raw } r).Coherent capacity := by
  rw [Known.assign]
  split
  · next block serviceDate hblock _ =>
    obtain ⟨hreports, hlength⟩ := h.reportsOn block
    refine ⟨⟨raw, rfl, hr⟩, _, rfl, rfl, fun s hs => ?_, History.getLast?_addBounded,
      History.length_addBounded hc hlength⟩
    rcases History.mem_of_mem_addBounded hs with hs | rfl
    · exact hreports s hs
    · exact hblock
  · rfl

theorem Coherent.receive (h : k.Coherent capacity) (hc : 0 < capacity) (v : View R)
    (signal : Signal) : (k.receive v capacity signal).Coherent capacity := by
  cases signal with
  | report r =>
    rw [Known.receive]
    split
    · exact h
    · exact h.assign hc (Tracker.completed_withBlock v r)
  | reset => rfl
  | occupancy r => exact h
  | resetOccupancy => exact h

theorem Coherent.receiveAll (h : k.Coherent capacity) (hc : 0 < capacity) (v : View R)
    (signals : List Signal) : (signals.foldl (Known.receive v capacity) k).Coherent capacity := by
  induction signals generalizing k with
  | nil => exact h
  | cons signal signals ih => exact ih (h.receive hc v signal)

end Known

/-- The report that a signal brings; one without a time is refused. -/
def Signal.accepted? : Signal → Option VehicleReport
  | .report r => if r.time = 0 then none else some r
  | _ => none

@[simp] theorem Known.report_assign (capacity : Nat) (k : Known) (r : VehicleReport) :
    (k.assign capacity r).report = k.report := by
  rw [assign]
  split <;> rfl

theorem Known.report_receive {v : View R} {capacity : Nat} {k : Known} {signal : Signal}
    {r : VehicleReport} (h : (k.receive v capacity signal).report = some r) :
    signal.accepted? = some r ∨ signal.accepted? = .none ∧ k.report = some r := by
  cases signal with
  | report s =>
    rw [receive] at h
    rw [Signal.accepted?]
    split at h
    · next hs => exact .inr ⟨if_pos hs, h⟩
    · next hs =>
      rw [report_assign] at h
      exact .inl ((if_neg hs).trans h)
  | reset => cases h
  | occupancy s => exact .inr ⟨rfl, h⟩
  | resetOccupancy => exact .inr ⟨rfl, h⟩

theorem Known.latest_receiveAll (v : View R) (capacity : Nat) {k : Known}
    {told : List VehicleReport} (h : ∀ r, k.report = some r → told.getLast? = some r)
    (signals : List Signal) (r : VehicleReport)
    (hr : (signals.foldl (receive v capacity) k).report = some r) :
    (told ++ signals.filterMap Signal.accepted?).getLast? = some r := by
  induction signals generalizing k told with
  | nil =>
    rw [List.filterMap_nil, List.append_nil]
    exact h r hr
  | cons signal signals ih =>
    have hfirst : ∀ s, (k.receive v capacity signal).report = some s →
        (told ++ signal.accepted?.toList).getLast? = some s := by
      intro s hs
      rcases report_receive hs with ha | ⟨ha, hk⟩
      · rw [ha, Option.toList_some, List.getLast?_append, List.getLast?_singleton, Option.some_or]
      · rw [ha, Option.toList_none, List.append_nil]
        exact h s hk
    have hrest := ih hfirst hr
    rw [List.append_assoc] at hrest
    rw [List.filterMap_cons]
    cases ha : signal.accepted? with
    | none => rwa [ha] at hrest
    | some s => rwa [ha] at hrest

namespace History

variable {h : History} {vehicle : Ident}

theorem reports_of_trail {t : Trail} (ht : h.trails[vehicle]? = some t) :
    h.reports vehicle = t.reports := by
  rw [reports, ht]

theorem reports_of_trail_none (ht : h.trails[vehicle]? = none) : h.reports vehicle = [] := by
  rw [reports, ht]

theorem block_of_trail {t : Trail} (ht : h.trails[vehicle]? = some t) :
    h.block? vehicle = some t.block := by
  rw [block?, ht, Option.map_some]

end History

namespace Tracker

variable {t : Tracker} {vehicle block : Ident}

@[simp] theorem mem_vehiclesOn :
    vehicle ∈ t.vehiclesOn block ↔ ∃ l, t.location? vehicle = some l ∧ l.block = block := by
  simp only [vehiclesOn, List.mem_map, List.mem_filter, decide_eq_true_eq, Prod.exists,
    Std.ExtTreeMap.mem_toList_iff_getElem?_eq_some, location?]
  constructor
  · rintro ⟨v, l, ⟨hl, hblock⟩, rfl⟩
    exact ⟨l, hl, hblock⟩
  · rintro ⟨l, hl, hblock⟩
    exact ⟨vehicle, l, ⟨hl, hblock⟩, rfl⟩

theorem nodup_vehiclesOn (t : Tracker) (block : Ident) : (t.vehiclesOn block).Nodup := by
  have hkeys : (t.locations.toList.map (·.1)).Nodup := by
    rw [Std.ExtTreeMap.map_fst_toList_eq_keys]
    exact Std.ExtTreeMap.nodup_keys
  exact hkeys.sublist (List.filter_sublist.map _)

theorem count_vehiclesOn {l : BlockLocation} (h : t.location? vehicle = some l) (block : Ident) :
    (t.vehiclesOn block).count vehicle = if block = l.block then 1 else 0 := by
  split
  · next he =>
    exact List.count_eq_one_of_mem (t.nodup_vehiclesOn block) (mem_vehiclesOn.2 ⟨l, h, he.symm⟩)
  · next he =>
    rw [List.count_eq_zero, mem_vehiclesOn]
    rintro ⟨l', h', hblock⟩
    rw [h, Option.some.injEq] at h'
    exact he (h' ▸ hblock.symm)

end Tracker

namespace Engine

open History Tracker

/-- What may happen while vehicles are tracked: the tracker is told something, or the schedule and
the registered service become others. -/
inductive Occurrence (R : Type) where
  | track (event : Tracker.Event)
  | change (schedule : Schedule R) (dynamic : Dynamic R)

def occur (e : Engine R) : Occurrence R → Engine R
  | .track event => e.track event
  | .change schedule dynamic => { e with schedule, dynamic }

def occurAll (e : Engine R) (os : List (Occurrence R)) : Engine R := os.foldl occur e

def Occurrence.signals (vehicle : Ident) : Occurrence R → List Signal
  | .track event => event.signals vehicle
  | .change _ _ => []

def accepted (vehicle : Ident) (os : List (Occurrence R)) : List VehicleReport :=
  (os.flatMap (·.signals vehicle)).filterMap Signal.accepted?

/-- Engines in which what is known of a vehicle is coherent, and its report the latest of the given
ones. -/
structure Follows (vehicle : Ident) (capacity : Nat) (told : List VehicleReport)
    (e : Engine R) : Prop where
  kept : e.tracker.history.capacity = capacity
  coherent : (e.tracker.known vehicle).Coherent capacity
  latest : ∀ r, (e.tracker.known vehicle).report = some r → told.getLast? = some r

theorem Follows.occur {vehicle : Ident} {capacity : Nat} {told : List VehicleReport}
    {e : Engine R} (h : e.Follows vehicle capacity told) (hc : 0 < capacity) (o : Occurrence R) :
    (e.occur o).Follows vehicle capacity
      (told ++ (o.signals vehicle).filterMap Signal.accepted?) := by
  cases o with
  | change schedule dynamic =>
    rw [Occurrence.signals, List.filterMap_nil, List.append_nil]
    exact ⟨h.kept, h.coherent, h.latest⟩
  | track event =>
    have hknown := known_step e.view e.tracker event vehicle
    rw [h.kept] at hknown
    constructor
    · exact (capacity_step e.view e.tracker event).trans h.kept
    · rw [Engine.occur, track, hknown]
      exact h.coherent.receiveAll hc e.view _
    · rw [Engine.occur, track, hknown]
      exact Known.latest_receiveAll e.view capacity h.latest _

variable [Geometry R]

theorem follows_occurAll (settings : Settings) (calendar : Calendar) (now : Instant)
    (g : Schedule R) (os : List (Occurrence R)) (vehicle : Ident) :
    ((start settings calendar now g).occurAll os).Follows vehicle
      (max settings.historyCapacity 1) (accepted vehicle os) := by
  have hc : 0 < max settings.historyCapacity 1 := by omega
  induction os using List.reverseRecOn with
  | nil =>
    have hknown : (start settings calendar now g).tracker.known vehicle = .none :=
      known_ofCapacity settings.historyCapacity vehicle
    refine ⟨rfl, ?_, fun r hr => ?_⟩
    · rw [occurAll, List.foldl_nil, hknown]
      rfl
    · rw [occurAll, List.foldl_nil, hknown] at hr
      cases hr
  | append_singleton os o ih =>
    have hocc := ih.occur hc o
    rw [occurAll, List.foldl_append]
    rw [accepted, List.flatMap_append, List.filterMap_append, List.flatMap_singleton]
    exact hocc

/-- After whatever was reported and reset while the service changed in whatever way, a vehicle has a
location exactly if it has a trail. The trail is then on the block of the location, it is within
its bounds and ends with the report of the location, which is the latest accepted one but for the
block and trip that were found for it; and that block is the only one that lists the vehicle. -/
theorem location_agrees (settings : Settings) (calendar : Calendar) (now : Instant)
    (g : Schedule R) (os : List (Occurrence R)) (vehicle : Ident) :
    let t := ((start settings calendar now g).occurAll os).tracker
    let trail := t.history.reports vehicle
    ((t.location? vehicle).isSome ↔ trail ≠ []) ∧
    match t.location? vehicle with
    | some l =>
      t.history.block? vehicle = some l.block ∧
      (∀ r ∈ trail, r.block = some l.block) ∧
      trail.getLast? = some l.report ∧
      1 ≤ trail.length ∧ trail.length ≤ max settings.historyCapacity 1 ∧
      (∃ s, t.status? vehicle = some s ∧ s.recent = trail ∧
        (accepted vehicle os).getLast? = some s.report ∧
        { l.report with trip := s.report.trip, block := s.report.block } = s.report ∧
        (s.report.block ≠ none → l.report = s.report)) ∧
      ∀ block, (t.vehiclesOn block).count vehicle = if block = l.block then 1 else 0
    | none =>
      (∀ s, t.status? vehicle = some s → s.recent = []) ∧
      ∀ block, vehicle ∉ t.vehiclesOn block := by
  intro t trail
  have hfollows := follows_occurAll settings calendar now g os vehicle
  have hcoherent := hfollows.coherent
  have hlocation : (t.known vehicle).location = t.location? vehicle := rfl
  rw [Known.Coherent, hlocation] at hcoherent
  cases hl : t.location? vehicle with
  | none =>
    rw [hl] at hcoherent
    have htrail : trail = [] := reports_of_trail_none hcoherent
    refine ⟨by simp [htrail], fun s hs => ?_, fun block hmem => ?_⟩
    · obtain ⟨_, _, rfl⟩ := Option.map_eq_some_iff.1 hs
      exact htrail
    · obtain ⟨l, hl', _⟩ := mem_vehiclesOn.1 hmem
      rw [hl] at hl'
      cases hl'
  | some l =>
    rw [hl] at hcoherent
    obtain ⟨raw, hraw, hcompleted⟩ := hcoherent.latest
    obtain ⟨tr, htr, hblock, hreports, hlast, hlength⟩ := hcoherent.trail
    have htrail : trail = tr.reports := reports_of_trail htr
    have hne : trail ≠ [] := by
      intro hnil
      rw [← htrail, hnil] at hlast
      cases hlast
    have hstatus : t.status? vehicle = some ⟨raw, trail, t.occupancies.last? vehicle⟩ :=
      congrArg (Option.map _) hraw
    rw [htrail] at hne ⊢
    refine ⟨by simp [hne], block_of_trail htr ▸ congrArg some hblock, hreports, hlast,
      List.length_pos_of_ne_nil hne, hlength, ⟨_, hstatus, htrail, hfollows.latest raw hraw,
      hcompleted.same, hcompleted.own⟩, t.count_vehiclesOn hl⟩

end Engine

end Timetable
