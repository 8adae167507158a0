import Timetable.Proofs.Schedule.Commuting
import Timetable.Proofs.Trip.Edit

namespace Timetable

variable {R : Type}

/-- The trip that an edit gives other calls. -/
def Edit.replanned? : Edit R → Option Ident
  | .deleteStopTime trip _ => some trip
  | .insertStopTime trip _ _ _ _ => some trip
  | .updateStopTime trip _ _ _ _ _ => some trip
  | .replaceStopTimes trip _ => some trip
  | _ => none

/-- What an edit makes of the calls of its trip: which calls it changes, and which it leaves. -/
inductive Edit.Replans [Geometry R] (g : Schedule R) :
    Edit R → List (Call R) → List (Call R) → Prop
  | delete {trip stop : Ident} {front back : List (Call R)} {c : Call R} (taken : c.stop = stop)
      (first : ∀ b ∈ front, b.stop ≠ stop) :
      Replans g (.deleteStopTime trip stop) (front ++ c :: back) (front ++ back)
  | insert {trip stop : Ident} {arrival departure : Int} {distance : Option R}
      {front back : List (Call R)} {c : Call R} {s : Stop R} (known : g.stops[stop]? = some s)
      (new : c = { stop, published := none, arrival, departure
                   distance := distance.getD
                    (Calls.between (g.spacing s.location) front.getLast? back.head?) })
      (behind : ∀ b ∈ front.getLast?, Calls.Precedes arrival departure distance b)
      (last : ∀ b ∈ back, ¬Calls.Precedes arrival departure distance b) :
      Replans g (.insertStopTime trip stop arrival departure distance) (front ++ back)
        (front ++ c :: back)
  | update {trip stop : Ident} {arrival departure : Option Int} {newArrival newDeparture : Int}
      {front back : List (Call R)} {c : Call R} (meant : Calls.Meant stop arrival departure c)
      (first : ∀ b ∈ front, ¬Calls.Meant stop arrival departure b) :
      Replans g (.updateStopTime trip stop arrival departure newArrival newDeparture)
        (front ++ c :: back)
        (front ++ { c with arrival := newArrival, departure := newDeparture } :: back)
  | replace {trip : Ident} {before calls : List (Call R)} :
      Replans g (.replaceStopTimes trip calls) before calls

namespace Edit

variable [Geometry R] {g : Schedule R} {trip stop : Ident} {cs ds : List (Call R)}

theorem replans_delete_iff :
    (deleteStopTime trip stop).Replans g cs ds ↔ Calls.delete? stop cs = some ds := by
  rw [Calls.delete?_eq_some_iff]
  constructor
  · intro h
    cases h with
    | delete taken first => exact ⟨_, _, _, rfl, rfl, taken, first⟩
  · rintro ⟨front, c, back, rfl, rfl, hc, hfront⟩
    exact .delete hc hfront

theorem replans_insert_iff {arrival departure : Int} {distance : Option R} :
    (insertStopTime trip stop arrival departure distance).Replans g cs ds ↔
      ∃ s, g.stops[stop]? = some s ∧
        Calls.insert (g.spacing s.location) stop arrival departure distance cs = ds := by
  simp only [Calls.insert_eq_iff]
  constructor
  · intro h
    cases h with
    | insert known new behind last => exact ⟨_, known, _, _, _, rfl, rfl, new, behind, last⟩
  · rintro ⟨s, hs, front, c, back, rfl, rfl, hc, hfront, hback⟩
    exact .insert hs hc hfront hback

theorem replans_update_iff {arrival departure : Option Int} {newArrival newDeparture : Int} :
    (updateStopTime trip stop arrival departure newArrival newDeparture).Replans g cs ds ↔
      Calls.retime? stop arrival departure newArrival newDeparture cs = some ds := by
  rw [Calls.retime?_eq_some_iff]
  constructor
  · intro h
    cases h with
    | update meant first => exact ⟨_, _, _, rfl, rfl, meant, first⟩
  · rintro ⟨front, c, back, rfl, rfl, hc, hfront⟩
    exact .update hc hfront

theorem replans_replace_iff {calls : List (Call R)} :
    (replaceStopTimes trip calls).Replans g cs ds ↔ calls = ds := by
  constructor
  · intro h
    cases h with
    | replace => rfl
  · rintro rfl
    exact .replace

end Edit

theorem Trip.totalDistance_eq [Zero R] (t : Trip R) :
    t.totalDistance = (t.calls.getLast?.map (·.distance)).getD 0 := by
  rw [totalDistance]
  cases t.calls.getLast? <;> rfl

namespace Schedule

variable [Geometry R] {g : Schedule R} {e : Edit R} {id : Ident} {t u : Trip R}

omit [Geometry R] in
theorem amended_of_replanned (he : e.replanned? = some id) :
    e.amended? = some id ∧ e.weight = 1 := by
  cases e with
  | deleteStopTime => exact ⟨he, rfl⟩
  | insertStopTime => exact ⟨he, rfl⟩
  | updateStopTime => exact ⟨he, rfl⟩
  | replaceStopTimes => exact ⟨he, rfl⟩
  | _ => cases he

theorem version?_eq_some_iff (he : e.replanned? = some id) : g.version? e t = some u ↔
    ∃ calls, e.Replans g t.calls calls ∧ u = t.withCalls calls := by
  cases e with
  | deleteStopTime trip stop =>
    simp only [version?, Option.map_eq_some_iff, Edit.replans_delete_iff, eq_comm (a := u)]
  | insertStopTime trip stop arrival departure distance =>
    simp only [version?, Option.map_eq_some_iff, Edit.replans_insert_iff]
    constructor
    · rintro ⟨s, hs, rfl⟩
      exact ⟨_, ⟨s, hs, rfl⟩, rfl⟩
    · rintro ⟨_, ⟨s, hs, rfl⟩, rfl⟩
      exact ⟨s, hs, rfl⟩
  | updateStopTime trip stop arrival departure newArrival newDeparture =>
    simp only [version?, Option.map_eq_some_iff, Edit.replans_update_iff, eq_comm (a := u)]
  | replaceStopTimes trip calls =>
    simp only [version?, Option.some.injEq, Edit.replans_replace_iff, exists_eq_left',
      eq_comm (a := u)]
  | _ => cases he

theorem blocks_amend_of_ne {block : Ident} {n : Nat} (h : block ≠ t.block) :
    (g.amend id t n).blocks[block]? = g.blocks[block]? := by
  have hrevise : (g.amend id t n).blocks = (g.revise id t).blocks := rfl
  rw [hrevise, blocks_revise, if_neg h.symm]

/-- An edit of stop times succeeds exactly if its trip is stored and has calls of which it can make
others. Then the trip has those others, numbered from zero, and is as long as the last of them is
far, and all the rest stays: every other trip, every block but that of the trip, and what there is
besides trips and blocks. The version grows by one. -/
theorem replanning (g : Schedule R) {e : Edit R} {id : Ident} (he : e.replanned? = some id) :
    ((g.apply e).2.isFailure = false ↔
      ∃ t calls, g.trips[id]? = some t ∧ e.Replans g t.calls calls) ∧
    ((g.apply e).2.isFailure = false →
      let g' := (g.apply e).1
      ∃ t u, g.trips[id]? = some t ∧ g'.trips[id]? = some u ∧ e.Replans g t.calls u.calls ∧
        u = t.withCalls u.calls ∧
        u.stopTimes.map (·.toCall) = u.calls ∧
        u.stopTimes.map (·.sequence) = List.range u.calls.length ∧
        u.totalDistance = (u.calls.getLast?.map (·.distance)).getD 0 ∧
        (∀ other, other ≠ id → g'.trips[other]? = g.trips[other]?) ∧
        (∀ block, block ≠ t.block → g'.blocks[block]? = g.blocks[block]?) ∧
        { g' with trips := g.trips, blocks := g.blocks, version := g.version } = g ∧
        g'.version = g.version + 1) := by
  obtain ⟨hamended, hweight⟩ := amended_of_replanned he
  rw [apply_amending hamended, hweight]
  cases hu : (g.trips[id]?).bind (g.version? e) with
  | none =>
    refine ⟨⟨nofun, fun ⟨t, calls, ht, hreplans⟩ => ?_⟩, nofun⟩
    rw [ht, Option.bind_some, (version?_eq_some_iff he).2 ⟨calls, hreplans, rfl⟩] at hu
    cases hu
  | some u =>
    obtain ⟨t, ht, hversion⟩ := Option.bind_eq_some_iff.1 hu
    obtain ⟨calls, hreplans, rfl⟩ := (version?_eq_some_iff he).1 hversion
    refine ⟨⟨fun _ => ⟨t, calls, ht, hreplans⟩, fun _ => rfl⟩, fun _ => ?_⟩
    refine ⟨t, t.withCalls calls, ht, ?_, hreplans, rfl, Trip.toCall_stopTimes _,
      Trip.sequence_stopTimes _, Trip.totalDistance_eq _, fun other hother => ?_,
      fun block hblock => blocks_amend_of_ne hblock, rfl, rfl⟩
    · simp
    · simp [hother.symm]

/-- A trip that comes to a stop twice, and another stop that it passes. -/
def passingDay : List (Edit Float) :=
  let call (stop : String) (time : Int) (distance : Float) : Call Float :=
    { stop := ⟨"A", stop⟩, published := some 7, arrival := time, departure := time, distance }
  let trip : Trip Float := .ofCalls ⟨"A", "T1"⟩ ⟨"A", "R"⟩ (some ⟨"A", "B"⟩) ⟨"A", "S"⟩
    [call "X" 0 0, call "Y" 60 100, call "X" 120 200]
  [.addAgency "A" "UTC",
    .addStop { id := ⟨"A", "X"⟩, location := ⟨0, 0⟩, name := none },
    .addStop { id := ⟨"A", "Z"⟩, location := ⟨1, 1⟩, name := none }, .addTrip trip none]

theorem replanning_passingDay :
    let g := empty.run passingDay
    let e : Edit Float := .insertStopTime ⟨"A", "T1"⟩ ⟨"A", "Z"⟩ 90 95 none
    let g' := (g.apply e).1
    e.replanned? = some ⟨"A", "T1"⟩ ∧ (g.apply e).2.isFailure = false ∧
    (∃ t u, g.trips[(⟨"A", "T1"⟩ : Ident)]? = some t ∧
      g'.trips[(⟨"A", "T1"⟩ : Ident)]? = some u ∧ e.Replans g t.calls u.calls ∧
      u.stopTimes.map (·.sequence) = List.range u.calls.length) ∧
    { g' with trips := g.trips, blocks := g.blocks, version := g.version } = g ∧
    g'.version = g.version + 1 := by
  intro g e g'
  have hdone : (g.apply e).2.isFailure = false := by decide +kernel
  obtain ⟨t, u, ht, hu, hreplans, _, _, hsequence, _, _, _, hrest, hversion⟩ :=
    (replanning g (e := e) rfl).2 hdone
  exact ⟨rfl, hdone, ⟨t, u, ht, hu, hreplans, hsequence⟩, hrest, hversion⟩

end Schedule

end Timetable
