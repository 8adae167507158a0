import Mathlib.Algebra.Order.Field.Rat
import Mathlib.Data.List.Chain
import Mathlib.Tactic.Linarith
import Timetable.Proofs.Schedule.Consistency
import Timetable.Proofs.Trip.Edit

namespace Timetable

/-- Rational numbers, of which none is rounded. -/
instance : Scalar ℚ where
  half x := x / 2
  lt x y := decide (x < y)
  le x y := decide (x ≤ y)
  eq x y := decide (x = y)

@[reducible]
def Geometry.rational (distance : Location ℚ → Location ℚ → ℚ)
    (boxAround : Location ℚ → ℚ → Box ℚ) : Geometry ℚ where
  distance := distance
  boxAround := boxAround

namespace Calls

variable {arrival departure : Int} {distance : Option ℚ} {spacing : Ident → ℚ} {stop : Ident}
  {c : Call ℚ} {cs ds : List (Call ℚ)}

theorem Precedes.le {d : ℚ} (h : Precedes arrival departure (some d) c) : c.distance ≤ d := by
  obtain hlt | ⟨heq, _⟩ := h
  · exact (of_decide_eq_true hlt).le
  · exact (of_decide_eq_true heq).le

theorem le_of_not_precedes {d : ℚ} (h : ¬Precedes arrival departure (some d) c) :
    d ≤ c.distance := by
  apply le_of_not_gt
  intro hlt
  exact h (.inl (decide_eq_true hlt))

/-- What stands between its neighbours in an order stands between all others. -/
theorem pairwise_insert {R K : Type} {r : K → K → Prop} [Trans r r r] (key : Call R → K)
    {front back : List (Call R)} {c : Call R} (h : ((front ++ back).map key).Pairwise r)
    (hfront : ∀ b ∈ front.getLast?, r (key b) (key c))
    (hback : ∀ b ∈ back.head?, r (key c) (key b)) :
    ((front ++ c :: back).map key).Pairwise r := by
  rw [← List.isChain_iff_pairwise, List.isChain_map, List.isChain_append] at h ⊢
  obtain ⟨hf, hb, _⟩ := h
  refine ⟨hf, List.isChain_cons.2 ⟨hback, hb⟩, fun b hb x hx => ?_⟩
  cases hx
  exact hfront b hb

theorem times_insert {time : Int} (key : Call ℚ → Int)
    (hprecedes : ∀ c, Precedes arrival departure none c ↔ key c < time)
    (hkey : ∀ distance, key { stop, published := none, arrival, departure, distance } = time)
    (hinsert : insert spacing stop arrival departure none cs = ds)
    (h : (cs.map key).Pairwise (· ≤ ·)) : (ds.map key).Pairwise (· ≤ ·) := by
  obtain ⟨front, c, back, rfl, rfl, rfl, hfront, hback⟩ := insert_eq_iff.1 hinsert
  apply pairwise_insert key h
  · intro b hb
    rw [hkey]
    exact ((hprecedes b).1 (hfront b hb)).le
  · intro b hb
    rw [hkey]
    have hnot := hback b (List.mem_of_mem_head? hb)
    exact not_lt.1 fun hlt => hnot ((hprecedes b).2 hlt)

section Distances

variable {r : ℚ → ℚ → Prop} (hlt : ∀ {a b}, a < b → r a b)
  (hhalf : ∀ {a b}, r a b → r a ((a + b) / 2) ∧ r ((a + b) / 2) b)
  (hspacing : ∀ i, 0 < spacing i)

include hlt hhalf hspacing

/-- The distance chosen for a new call lies between those of its neighbours, in every order in which
what is less comes first and halves lie between. -/
theorem between_neighbours {before after : Option (Call ℚ)}
    (h : ∀ b ∈ before, ∀ a ∈ after, r b.distance a.distance) :
    (∀ b ∈ before, r b.distance (between spacing before after)) ∧
      ∀ a ∈ after, r (between spacing before after) a.distance := by
  cases before with
  | none =>
    refine ⟨nofun, fun a ha => hlt ?_⟩
    cases ha
    simp only [between, Scalar.lt, Scalar.half, decide_eq_true_eq]
    split
    · linarith
    · linarith [hspacing a.stop]
  | some b =>
    cases after with
    | none =>
      refine ⟨fun b' hb => hlt ?_, nofun⟩
      cases hb
      simp only [between]
      linarith [hspacing b.stop]
    | some a =>
      obtain ⟨hb, ha⟩ := hhalf (h b rfl a rfl)
      constructor
      · intro b' hb'
        cases hb'
        exact hb
      · intro a' ha'
        cases ha'
        exact ha

theorem distances_insert [Trans r r r]
    (hgiven : ∀ d ∈ distance, ∀ c ∈ cs,
      (c.distance ≤ d → r c.distance d) ∧ (d ≤ c.distance → r d c.distance))
    (hinsert : insert spacing stop arrival departure distance cs = ds)
    (h : (cs.map (·.distance)).Pairwise r) : (ds.map (·.distance)).Pairwise r := by
  obtain ⟨front, c, back, rfl, rfl, rfl, hfront, hback⟩ := insert_eq_iff.1 hinsert
  cases distance with
  | some d =>
    apply pairwise_insert _ h
    · intro b hb
      have hmem := List.mem_append_left back (List.mem_of_getLast? hb)
      exact (hgiven d rfl b hmem).1 (hfront b hb).le
    · intro b hb
      have hb := List.mem_of_mem_head? hb
      exact (hgiven d rfl b (List.mem_append_right front hb)).2 (le_of_not_precedes (hback b hb))
  | none =>
    have hneighbours : ∀ b ∈ front.getLast?, ∀ a ∈ back.head?, r b.distance a.distance := by
      rw [← List.isChain_iff_pairwise, List.isChain_map, List.isChain_append] at h
      exact h.2.2
    obtain ⟨hb, ha⟩ := between_neighbours hlt hhalf hspacing hneighbours
    exact pairwise_insert _ h hb ha

end Distances

theorem arrivals_insert (hinsert : insert spacing stop arrival departure distance cs = ds)
    (hnone : distance = none) (harrival : 0 ≤ arrival)
    (h : (cs.map (·.arrival)).Pairwise (· ≤ ·)) : (ds.map (·.arrival)).Pairwise (· ≤ ·) := by
  cases hnone
  refine times_insert _ (fun c => ?_) (fun _ => rfl) hinsert h
  simp only [Precedes]
  omega

theorem departures_insert (hinsert : insert spacing stop arrival departure distance cs = ds)
    (hnone : distance = none) (harrival : arrival < 0)
    (h : (cs.map (·.departure)).Pairwise (· ≤ ·)) : (ds.map (·.departure)).Pairwise (· ≤ ·) := by
  cases hnone
  refine times_insert _ (fun c => ?_) (fun _ => rfl) hinsert h
  simp only [Precedes]
  omega

section Spaced

variable (hspacing : ∀ i, 0 < spacing i)
  (hinsert : insert spacing stop arrival departure distance cs = ds)

include hspacing hinsert

theorem distances_insert_le (h : (cs.map (·.distance)).Pairwise (· ≤ ·)) :
    (ds.map (·.distance)).Pairwise (· ≤ ·) :=
  distances_insert le_of_lt (fun hab => ⟨by linarith, by linarith⟩) hspacing
    (fun _ _ _ _ => ⟨fun hle => hle, fun hle => hle⟩) hinsert h

theorem distances_insert_lt_iff (h : (cs.map (·.distance)).Pairwise (· < ·)) :
    (ds.map (·.distance)).Pairwise (· < ·) ↔ ∀ d ∈ distance, d ∉ cs.map (·.distance) := by
  constructor
  · intro hlt d hd
    obtain ⟨front, c, back, rfl, rfl, rfl, -, -⟩ := insert_eq_iff.1 hinsert
    cases hd
    have hnodup : ((front ++ _ :: back).map (·.distance)).Nodup := hlt.imp ne_of_lt
    rw [List.map_append, List.map_cons, List.nodup_middle, List.nodup_cons] at hnodup
    rw [List.map_append]
    exact hnodup.1
  · intro hd
    refine distances_insert (fun hab => hab) (fun hab => ⟨by linarith, by linarith⟩) hspacing
      (fun d hd' c hc => ?_) hinsert h
    have hne : c.distance ≠ d := fun heq => hd d hd' (heq ▸ List.mem_map_of_mem hc)
    exact ⟨fun hle => lt_of_le_of_ne hle hne, fun hle => lt_of_le_of_ne hle hne.symm⟩

end Spaced

end Calls

namespace Schedule

theorem insertStopTime_eq {R : Type} [Geometry R] {g : Schedule R} {trip stop : Ident} {t : Trip R}
    {s : Stop R} (ht : g.trips[trip]? = some t) (hs : g.stops[stop]? = some s)
    (arrival departure : Int) (distance : Option R) :
    g.insertStopTime trip stop arrival departure distance =
      ((g.revise trip (t.withCalls (Calls.insert (g.spacing s.location) stop arrival departure
        distance t.calls))).bump, true) := by
  simp only [insertStopTime, hs, editCalls_eq, ht, Option.bind_some, Option.map_some]

variable (measure : Location ℚ → Location ℚ → ℚ) (boxAround : Location ℚ → ℚ → Box ℚ)

theorem spacing_pos (g : Schedule ℚ) (location : Location ℚ) (neighbour : Ident) :
    letI := Geometry.rational measure boxAround
    0 < g.spacing location neighbour := by
  simp only [spacing, Scalar.atLeast, Scalar.lt, decide_eq_true_eq]
  split
  · split
    · next h => exact zero_lt_one.trans h
    · exact zero_lt_one
  · exact zero_lt_one

/-- A call is inserted at a known stop of any trip, wherever its times and its distance put it.
Distances that do not decrease still do not, and those that increase still do, unless the given
distance is among them. Without a distance, arrivals that do not decrease still do not if the new
one is not negative, and departures that do not decrease still do not if it is. -/
theorem insertStopTime_keeps_order (g : Schedule ℚ) {trip stop : Ident} {t : Trip ℚ} {s : Stop ℚ}
    (ht : g.trips[trip]? = some t) (hs : g.stops[stop]? = some s) (arrival departure : Int)
    (distance : Option ℚ) :
    letI := Geometry.rational measure boxAround
    ∃ g' u, g.insertStopTime trip stop arrival departure distance = (g', true) ∧
      g'.trips[trip]? = some u ∧
      (∃ front c back, t.calls = front ++ back ∧ u.calls = front ++ c :: back ∧ c.stop = stop ∧
        c.arrival = arrival ∧ c.departure = departure ∧ ∀ d ∈ distance, c.distance = d) ∧
      ((t.calls.map (·.distance)).Pairwise (· ≤ ·) →
        (u.calls.map (·.distance)).Pairwise (· ≤ ·)) ∧
      ((t.calls.map (·.distance)).Pairwise (· < ·) →
        ((u.calls.map (·.distance)).Pairwise (· < ·) ↔
          ∀ d ∈ distance, d ∉ t.calls.map (·.distance))) ∧
      (distance = none → 0 ≤ arrival → (t.calls.map (·.arrival)).Pairwise (· ≤ ·) →
        (u.calls.map (·.arrival)).Pairwise (· ≤ ·)) ∧
      (distance = none → arrival < 0 → (t.calls.map (·.departure)).Pairwise (· ≤ ·) →
        (u.calls.map (·.departure)).Pairwise (· ≤ ·)) := by
  let inst := Geometry.rational measure boxAround
  have hinsert := insertStopTime_eq ht hs arrival departure distance
  generalize hcalls :
    Calls.insert (g.spacing s.location) stop arrival departure distance t.calls = calls at hinsert
  have htrip := (getElem?_trips_revise g trip (t.withCalls calls) trip).trans (if_pos rfl)
  have hspacing := g.spacing_pos measure boxAround s.location
  have hplaced : ∃ front c back, t.calls = front ++ back ∧ calls = front ++ c :: back ∧
      c.stop = stop ∧ c.arrival = arrival ∧ c.departure = departure ∧
      ∀ d ∈ distance, c.distance = d := by
    obtain ⟨front, c, back, hold, hnew, rfl, -, -⟩ := Calls.insert_eq_iff.1 hcalls
    refine ⟨front, _, back, hold, hnew, rfl, rfl, rfl, fun d hd => ?_⟩
    cases hd
    rfl
  exact ⟨_, t.withCalls calls, hinsert, htrip, hplaced,
    Calls.distances_insert_le hspacing hcalls, Calls.distances_insert_lt_iff hspacing hcalls,
    Calls.arrivals_insert hcalls, Calls.departures_insert hcalls⟩

/-- A trip with two calls, and another stop that it passes. -/
def measuredDay : List (Edit ℚ) :=
  let call (stop : String) (time : Int) (distance : ℚ) : Call ℚ :=
    { stop := ⟨"A", stop⟩, published := none, arrival := time, departure := time, distance }
  [.addAgency "A" "UTC",
    .addStop { id := ⟨"A", "X"⟩, location := ⟨0, 0⟩, name := none },
    .addStop { id := ⟨"A", "Y"⟩, location := ⟨0, 1⟩, name := none },
    .addStop { id := ⟨"A", "Z"⟩, location := ⟨1, 1⟩, name := none },
    .addTrip (.ofCalls ⟨"A", "T1"⟩ ⟨"A", "R"⟩ (some ⟨"A", "B"⟩) ⟨"A", "S"⟩
      [call "X" 0 0, call "Y" 60 100]) none]

theorem insertStopTime_keeps_order_measuredDay :
    letI := Geometry.rational (fun _ _ => 50) (fun _ _ => ⟨0, 0, 1, 1⟩)
    let g := empty.run measuredDay
    ∃ t s g' u, g.trips[(⟨"A", "T1"⟩ : Ident)]? = some t ∧
      g.stops[(⟨"A", "Z"⟩ : Ident)]? = some s ∧
      (t.calls.map (·.distance)).Pairwise (· < ·) ∧
      g.insertStopTime ⟨"A", "T1"⟩ ⟨"A", "Z"⟩ 90 95 none = (g', true) ∧
      g'.trips[(⟨"A", "T1"⟩ : Ident)]? = some u ∧
      (∃ front c back, t.calls = front ++ back ∧ u.calls = front ++ c :: back ∧
        c.stop = ⟨"A", "Z"⟩) ∧
      (u.calls.map (·.distance)).Pairwise (· < ·) := by
  let inst := Geometry.rational (fun _ _ => 50) (fun _ _ => ⟨0, 0, 1, 1⟩)
  intro g
  have hdistances : (g.trips[(⟨"A", "T1"⟩ : Ident)]?).map (·.calls.map (·.distance)) =
      some [0, 100] := by
    decide +kernel
  have hstop : (g.stops[(⟨"A", "Z"⟩ : Ident)]?).isSome := by decide +kernel
  obtain ⟨t, ht, htrip⟩ := Option.map_eq_some_iff.1 hdistances
  obtain ⟨s, hs⟩ := Option.isSome_iff_exists.1 hstop
  have hlt : (t.calls.map (·.distance)).Pairwise (· < ·) := by
    rw [htrip]
    decide
  obtain ⟨g', u, hdone, hu, ⟨front, c, back, hold, hnew, hstop, -⟩, -, hkeeps, -⟩ :=
    insertStopTime_keeps_order (fun _ _ => 50) (fun _ _ => ⟨0, 0, 1, 1⟩) g ht hs 90 95 none
  exact ⟨t, s, g', u, ht, hs, hlt, hdone, hu, ⟨front, c, back, hold, hnew, hstop⟩,
    (hkeeps hlt).2 nofun⟩

end Schedule

end Timetable
