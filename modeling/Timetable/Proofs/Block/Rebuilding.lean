import Timetable.Proofs.Block.Placing

namespace Timetable.Configuration

variable {R : Type} [Zero R]

/-- Configurations that come of building, once or from one to the next. -/
inductive Built : Configuration R → Prop
  | build {block : Ident} {services : ServiceSet} {gaps : List (Ident × R)} {ts : List (Trip R)}
      {c : Configuration R} (h : build? block services gaps ts = some c) : Built c
  | rebuild {c d : Configuration R} {ts : List (Trip R)} (hc : Built c)
      (hd : c.withTrips? ts = some d) : Built d

/-- Configurations with trips, which are in running order, and with one gap for the trips of an
id. -/
structure Settled (c : Configuration R) : Prop where
  members_ne_nil : c.members ≠ []
  ordered : c.members.Pairwise fun s t => s.runsBefore t
  gap_eq (leg leg' : Leg R) : leg ∈ c.legs → leg' ∈ c.legs → leg.trip.id = leg'.trip.id →
    leg.gap = leg'.gap

def keptGap (c : Configuration R) (trip : Ident) : R :=
  gapOf (c.legs.map fun leg => (leg.trip.id, leg.gap)) trip

variable {c d : Configuration R} {ts us : List (Trip R)} {trip : Ident} {leg : Leg R}

theorem gap_of_build? {block : Ident} {services : ServiceSet} {gaps : List (Ident × R)}
    (h : build? block services gaps ts = some c) (hleg : leg ∈ c.legs) :
    leg.gap = gapOf gaps leg.trip.id := by
  obtain ⟨_, rfl⟩ := build?_eq_some.1 h
  obtain ⟨t, _, rfl⟩ := List.mem_map.1 hleg
  rfl

theorem settled_of_build? {block : Ident} {services : ServiceSet} {gaps : List (Ident × R)}
    (h : build? block services gaps ts = some c) : c.Settled where
  members_ne_nil := Configuration.members_ne_nil h
  ordered := pairwise_members h
  gap_eq leg leg' hleg hleg' he := by rw [gap_of_build? h hleg, gap_of_build? h hleg', he]

theorem Built.settled (h : c.Built) : c.Settled := by
  cases h with
  | build h => exact settled_of_build? h
  | rebuild _ hd => exact settled_of_build? hd

theorem keptGap_of_absent (h : ∀ leg ∈ c.legs, leg.trip.id ≠ trip) : c.keptGap trip = 0 := by
  have hnone : (c.legs.map fun leg => (leg.trip.id, leg.gap)).reverse.find?
      (fun g => g.1 = trip) = none := by
    rw [List.find?_eq_none]
    intro g hg
    obtain ⟨leg, hleg, rfl⟩ := List.mem_map.1 (List.mem_reverse.1 hg)
    rw [decide_eq_true_eq]
    exact h leg hleg
  rw [keptGap, gapOf, hnone]

namespace Settled

theorem keptGap_of_mem (hc : c.Settled) (hleg : leg ∈ c.legs) :
    c.keptGap leg.trip.id = leg.gap := by
  have hsome : ((c.legs.map fun leg => (leg.trip.id, leg.gap)).reverse.find?
      fun g => g.1 = leg.trip.id).isSome := by
    rw [List.find?_isSome]
    exact ⟨(leg.trip.id, leg.gap), List.mem_reverse.2 (List.mem_map.2 ⟨leg, hleg, rfl⟩),
      decide_eq_true rfl⟩
  obtain ⟨g, hg⟩ := Option.isSome_iff_exists.1 hsome
  obtain ⟨leg', hleg', rfl⟩ :=
    List.mem_map.1 (List.mem_reverse.1 (List.mem_of_find?_eq_some hg))
  have he : leg'.trip.id = leg.trip.id := by simpa using List.find?_some hg
  rw [keptGap, gapOf, hg]
  exact hc.gap_eq leg' leg hleg' hleg he

theorem withTrips?_members (hc : c.Settled) : c.withTrips? c.members = some c := by
  have hlegs : (c.members.mergeSort Trip.runsBefore).map
      (fun t => (⟨t, c.keptGap t.id⟩ : Leg R)) = c.legs := by
    rw [List.mergeSort_of_pairwise hc.ordered, members, List.map_map]
    conv_rhs => rw [← List.map_id c.legs]
    apply List.map_congr_left
    intro leg hleg
    rw [Function.comp_apply, hc.keptGap_of_mem hleg]
    rfl
  rw [withTrips?, build?_eq_some]
  exact ⟨hc.members_ne_nil,
    congrArg (fun legs => ({ c with legs } : Configuration R)) hlegs.symm⟩

omit [Zero R] in
theorem gap?_of_mem (hc : c.Settled) (hleg : leg ∈ c.legs) :
    c.gap? leg.trip.id = some leg.gap := by
  have hsome : (c.legs.find? fun l => l.trip.id = leg.trip.id).isSome :=
    List.find?_isSome.2 ⟨leg, hleg, decide_eq_true rfl⟩
  obtain ⟨first, hfirst⟩ := Option.isSome_iff_exists.1 hsome
  have he : first.trip.id = leg.trip.id := by simpa using List.find?_some hfirst
  rw [gap?, hfirst, Option.map_some,
    hc.gap_eq first leg (List.mem_of_find?_eq_some hfirst) hleg he]

end Settled

/-- A configuration that came of building is what building it again of its own trips gives. Of trips
with different ids the same comes in whatever order they are listed, and something comes of any trips
at all. The block and the services stay, and every trip of an id that was there has the gap that the
id had, wherever it stands, while all others have none. -/
theorem Built.rebuilding (h : c.Built) :
    c.withTrips? c.members = some c ∧
    (∀ ts us : List (Trip R), (ts.map (·.id)).Nodup → ts.Perm us →
      c.withTrips? ts = c.withTrips? us) ∧
    (∀ ts : List (Trip R), ts ≠ [] → ∃ d, c.withTrips? ts = some d) ∧
    ∀ (ts : List (Trip R)) (d : Configuration R), c.withTrips? ts = some d →
      d.block = c.block ∧ d.services = c.services ∧ d.members.Perm ts ∧
      ∀ leg ∈ d.legs, d.gap? leg.trip.id = some leg.gap ∧
        (∀ old ∈ c.legs, old.trip.id = leg.trip.id → leg.gap = old.gap) ∧
        ((∀ old ∈ c.legs, old.trip.id ≠ leg.trip.id) → leg.gap = 0) := by
  have hc := h.settled
  refine ⟨hc.withTrips?_members, fun ts us hn hp => build?_perm hp hn, fun ts hts => ?_,
    fun ts d hd => ?_⟩
  · exact Option.ne_none_iff_exists'.1 (mt build?_eq_none.1 hts)
  · refine ⟨block_of_build? hd, services_of_build? hd, members_perm hd, fun leg hleg => ?_⟩
    have hgap : leg.gap = c.keptGap leg.trip.id := gap_of_build? hd hleg
    refine ⟨(settled_of_build? hd).gap?_of_mem hleg, fun old hold he => ?_, fun habsent => ?_⟩
    · rw [hgap, ← he, hc.keptGap_of_mem hold]
    · rw [hgap, keptGap_of_absent habsent]

theorem rebuilding_repeatedTrip :
    let gaps : List (Ident × Float) := [(⟨"A", "T1"⟩, 40), (⟨"A", "T2"⟩, 70)]
    let new : Trip Float := .ofCalls ⟨"A", "T5"⟩ ⟨"A", "R"⟩ (some ⟨"A", "B"⟩) ⟨"A", "S"⟩ []
    let ts := new :: repeatedTrip.take 2
    ∃ c d, build? ⟨"A", "B"⟩ (.single ⟨"A", "S"⟩) gaps repeatedTrip = some c ∧
      c.withTrips? ts = some d ∧ d.Built ∧ d.withTrips? d.members = some d ∧
      (ts.map (·.id)).Nodup ∧ ts.Perm ts.reverse ∧ d.withTrips? ts = d.withTrips? ts.reverse ∧
      d.block = c.block ∧ d.services = c.services := by
  intro gaps new ts
  have hlisted : build? ⟨"A", "B"⟩ (.single ⟨"A", "S"⟩) gaps repeatedTrip ≠ none :=
    mt build?_eq_none.1 (List.cons_ne_nil _ _)
  obtain ⟨c, hc⟩ := Option.ne_none_iff_exists'.1 hlisted
  have hbuilt : c.Built := .build hc
  obtain ⟨_, _, hsome, hkept⟩ := hbuilt.rebuilding
  obtain ⟨d, hd⟩ := hsome ts (List.cons_ne_nil _ _)
  obtain ⟨hblock, hservices, _⟩ := hkept ts d hd
  have hrebuilt : d.Built := .rebuild hbuilt hd
  obtain ⟨hself, horder, _, _⟩ := hrebuilt.rebuilding
  have hnodup : (ts.map (·.id)).Nodup := by decide
  have hperm : ts.Perm ts.reverse := (List.reverse_perm ts).symm
  exact ⟨c, d, hc, hd, hrebuilt, hself, hnodup, hperm, horder ts _ hnodup hperm, hblock, hservices⟩

end Timetable.Configuration
