import Timetable.Proofs.Block.Placing
import Timetable.Proofs.Block.StopIndex
import Timetable.Proofs.BlockIndex.Freshness

namespace Timetable

variable {R : Type}

/-- The stop times of a trip at a stop, each with the id of the trip. -/
def Trip.visitsTo (stop : Ident) (t : Trip R) : List (Ident × StopTime R) :=
  (t.stopTimes.filter fun s => s.stop = stop).map fun s => (t.id, s)

def Schedule.visits (g : Schedule R) (service stop : Ident) : List (Ident × StopTime R) :=
  (g.trips.values.filter fun t => t.service = service).flatMap (Trip.visitsTo stop)

theorem Schedule.visits_ne_nil {g : Schedule R} {service stop : Ident} :
    g.visits service stop ≠ [] ↔ ∃ (id : Ident) (t : Trip R), g.trips[id]? = some t ∧
      t.service = service ∧ ∃ s ∈ t.stopTimes, s.stop = stop := by
  have hmem : g.visits service stop ≠ [] ↔ ∃ v, v ∈ g.visits service stop :=
    ⟨List.exists_mem_of_ne_nil _, fun ⟨_, hv⟩ => List.ne_nil_of_mem hv⟩
  rw [hmem]
  simp only [visits, Trip.visitsTo, List.mem_flatMap, List.mem_filter, List.mem_map,
    decide_eq_true_eq, Table.mem_values]
  constructor
  · rintro ⟨_, t, ⟨⟨id, hstored⟩, hservice⟩, s, ⟨hs, hstop⟩, rfl⟩
    exact ⟨id, t, hstored, hservice, s, hs, hstop⟩
  · rintro ⟨id, t, hstored, hservice, s, hs, hstop⟩
    exact ⟨(t.id, s), t, ⟨⟨id, hstored⟩, hservice⟩, s, ⟨hs, hstop⟩, rfl⟩

theorem PlacedTrip.visits_blockStopTimes [Add R] (p : PlacedTrip R) (stop : Ident) :
    ((p.blockStopTimes.filter fun b => b.stopTime.stop = stop).map
      fun b => (b.trip, b.stopTime)) = p.trip.visitsTo stop := by
  rw [blockStopTimes, List.filter_map, List.map_map, Trip.visitsTo]
  rfl

section Placed

variable [Zero R] [Add R]

theorem Configuration.visits_departuresOf (c : Configuration R) (stop : Ident) :
    ((StopIndex.departuresOf c).filter fun d => d.stop = stop).map Departure.visit =
      c.members.flatMap (Trip.visitsTo stop) := by
  rw [StopIndex.departuresOf, List.filter_map, List.map_map, stopTimes, List.filter_flatMap,
    List.map_flatMap, ← trip_trips, List.flatMap_map]
  apply List.flatMap_congr
  intro p _
  exact p.visits_blockStopTimes stop

theorem Configuration.services_of_mem_departuresOf {c : Configuration R} {d : Departure R}
    (hd : d ∈ StopIndex.departuresOf c) : d.services = c.services := by
  obtain ⟨s, _, rfl⟩ := List.mem_map.1 hd
  rfl

theorem Configuration.visits_under {c : Configuration R} {own : Ident}
    (hown : c.services = .single own) (hmembers : ∀ t ∈ c.members, t.service = own)
    (service stop : Ident) :
    (((StopIndex.departuresOf c).filter fun d => d.stop = stop).filter
      fun d => d.services = .single service).map Departure.visit =
        (c.members.filter fun t => t.service = service).flatMap (Trip.visitsTo stop) := by
  have hservices : ∀ d ∈ (StopIndex.departuresOf c).filter fun d => d.stop = stop,
      d.services = .single own := by
    intro d hd
    rw [services_of_mem_departuresOf (List.mem_filter.1 hd).1, hown]
  by_cases he : own = service
  · subst he
    rw [List.filter_eq_self.2 fun d hd => decide_eq_true (hservices d hd),
      List.filter_eq_self.2 fun t ht => decide_eq_true (hmembers t ht)]
    exact c.visits_departuresOf stop
  · have hdepartures : ((StopIndex.departuresOf c).filter fun d => d.stop = stop).filter
        (fun d => d.services = .single service) = [] := by
      rw [List.filter_eq_nil_iff]
      intro d hd
      rw [hservices d hd, decide_eq_true_eq]
      exact fun hs => he (ServiceSet.single_injective hs)
    have hother : c.members.filter (fun t => t.service = service) = [] := by
      rw [List.filter_eq_nil_iff]
      intro t ht
      rwa [hmembers t ht, decide_eq_true_eq]
    rw [hdepartures, hother]
    rfl

def Block.departures (bs : List (Block R)) : List (Departure R) :=
  (bs.flatMap (·.configurations)).flatMap StopIndex.departuresOf

end Placed

namespace Schedule.Consistent

variable [Zero R] {g : Schedule R}

theorem services_eq (hg : Consistent g) {c : Configuration R}
    (hc : c ∈ g.blocks.values.flatMap (·.configurations)) :
    ∃ service, c.services = .single service ∧ ∀ t ∈ c.members, t.service = service := by
  obtain ⟨b, hb, hcb⟩ := List.mem_flatMap.1 hc
  obtain ⟨block, hblock⟩ := Table.mem_values.1 hb
  obtain ⟨services, _, _, rfl⟩ := hg.groups hblock
  obtain ⟨service, _, hu⟩ := List.mem_filterMap.1 hcb
  have hmembers : ∀ t ∈ c.members, t.service = service := by
    intro t ht
    exact ((Configuration.mem_members_under? hu).1 ht).2
  exact ⟨service, Configuration.services_of_under? hu, hmembers⟩

theorem keyed_blocks (hg : Consistent g) : g.blocks.KeyedBy Block.id := by
  intro block b hb
  exact (hg.groups hb).id_eq

theorem mergeSort_blocks (hg : Consistent g) {bs : List (Block R)}
    (hbs : bs.Perm g.blocks.values) :
    bs.mergeSort (fun a b => a.id.isAtMost b.id) = g.blocks.values := by
  apply Table.mergeSort_eq_of_perm Block.id hbs
  have hkeys : (g.blocks.values.map Block.id).Pairwise fun i j => compare i j = .lt := by
    rw [hg.keyed_blocks.map_values]
    exact Std.ExtTreeMap.ordered_keys
  exact List.pairwise_map.1 hkeys

variable [Add R]

/-- The departures under a service are the visits of the stored trips under it. -/
theorem visits_departures (hg : Consistent g) (service stop : Ident) :
    ((((Block.departures g.blocks.values).filter fun d => d.stop = stop).filter
      fun d => d.services = .single service).map Departure.visit).Perm
        (g.visits service stop) := by
  have hconfiguration : ∀ c ∈ g.blocks.values.flatMap (·.configurations),
      (((StopIndex.departuresOf c).filter fun d => d.stop = stop).filter
        fun d => d.services = .single service).map Departure.visit =
          (c.members.filter fun t => t.service = service).flatMap (Trip.visitsTo stop) := by
    intro c hc
    obtain ⟨own, hown, hmembers⟩ := hg.services_eq hc
    exact Configuration.visits_under hown hmembers service stop
  have hmembers : ((g.blocks.values.flatMap (·.configurations)).flatMap (·.members)).Perm
      g.trips.values := by
    rw [List.flatMap_assoc]
    exact hg.members_perm
  rw [Block.departures, List.filter_flatMap, List.filter_flatMap, List.map_flatMap,
    List.flatMap_congr hconfiguration, ← List.flatMap_assoc, ← List.filter_flatMap]
  exact (hmembers.filter _).flatMap_right _

theorem services_of_departure (hg : Consistent g) {d : Departure R}
    (hd : d ∈ Block.departures g.blocks.values) : ∃ service, d.services = .single service := by
  obtain ⟨c, hc, hdc⟩ := List.mem_flatMap.1 hd
  obtain ⟨service, hservice, _⟩ := hg.services_eq hc
  rw [Configuration.services_of_mem_departuresOf hdc]
  exact ⟨service, hservice⟩

theorem departures_ne_nil (hg : Consistent g) (services : ServiceSet) (stop : Ident) :
    (((Block.departures g.blocks.values).filter fun d => d.stop = stop).filter
      fun d => d.services = services) ≠ [] ↔
        ∃ service, services = .single service ∧ g.visits service stop ≠ [] := by
  have hsingle (service : Ident) : (((Block.departures g.blocks.values).filter
      fun d => d.stop = stop).filter fun d => d.services = .single service) = [] ↔
        g.visits service stop = [] := by
    have hperm := hg.visits_departures service stop
    rw [← List.map_eq_nil_iff (f := Departure.visit)]
    constructor
    · intro hnil
      rw [hnil] at hperm
      exact hperm.nil_eq.symm
    · intro hnil
      rw [hnil] at hperm
      exact hperm.eq_nil
  constructor
  · intro hne
    obtain ⟨d, hd⟩ := List.exists_mem_of_ne_nil _ hne
    obtain ⟨hd, hservices⟩ := List.mem_filter.1 hd
    obtain ⟨service, hservice⟩ := hg.services_of_departure (List.mem_filter.1 hd).1
    obtain rfl : services = .single service := (of_decide_eq_true hservices).symm.trans hservice
    exact ⟨service, rfl, fun hnil => hne ((hsingle service).2 hnil)⟩
  · rintro ⟨service, rfl, hne⟩
    exact fun hnil => hne ((hsingle service).1 hnil)

end Schedule.Consistent

namespace StopIndex

def visits (i : StopIndex R) : List (Ident × StopTime R) := i.departures.map Departure.visit

@[simp] theorem visits_unshaped (i : StopIndex R) : i.unshaped.visits = i.visits := by
  rw [visits, unshaped, List.map_map]
  rfl

/-- Indices of a stop that list what going through the stored trips one by one finds. -/
structure Scanned (g : Schedule R) (stop : Ident) (indices : List (StopIndex R)) : Prop where
  increasing : (indices.map (·.services)).Pairwise fun a b => compare a b = .lt
  served (services : ServiceSet) : services ∈ indices.map (·.services) ↔
    ∃ service, services = .single service ∧ ∃ (id : Ident) (t : Trip R),
      g.trips[id]? = some t ∧ t.service = service ∧ ∃ s ∈ t.stopTimes, s.stop = stop
  at_stop : ∀ i ∈ indices, i.stop = stop
  visits : ∀ i ∈ indices, ∀ service, i.services = .single service →
    i.visits.Perm (g.visits service stop)
  ordered : ∀ i ∈ indices, i.visits.Pairwise fun v w =>
    v.2.departure < w.2.departure ∨ v.2.departure = w.2.departure ∧ v.1.isAtMost w.1

variable {g : Schedule R} {stop : Ident} {is js : List (StopIndex R)}

theorem Scanned.congr (hj : Scanned g stop js) (h : is.map unshaped = js.map unshaped) :
    Scanned g stop is := by
  have hservices : is.map (·.services) = js.map (·.services) := by
    have hmap := congrArg (List.map (·.services)) h
    rw [List.map_map, List.map_map] at hmap
    exact hmap
  have hcounterpart : ∀ i ∈ is, ∃ j ∈ js,
      j.stop = i.stop ∧ j.services = i.services ∧ j.visits = i.visits := by
    intro i hi
    have hi' := List.mem_map_of_mem (f := unshaped) hi
    rw [h] at hi'
    obtain ⟨j, hj, he⟩ := List.mem_map.1 hi'
    have hstop := congrArg StopIndex.stop he
    have hservices := congrArg StopIndex.services he
    have hvisits := congrArg StopIndex.visits he
    rw [visits_unshaped, visits_unshaped] at hvisits
    exact ⟨j, hj, hstop, hservices, hvisits⟩
  constructor
  · rw [hservices]
    exact hj.increasing
  · rw [hservices]
    exact hj.served
  · intro i hi
    obtain ⟨j, hmem, hstop, _, _⟩ := hcounterpart i hi
    rw [← hstop]
    exact hj.at_stop j hmem
  · intro i hi
    obtain ⟨j, hmem, _, hservices, hvisits⟩ := hcounterpart i hi
    rw [← hservices, ← hvisits]
    exact hj.visits j hmem
  · intro i hi
    obtain ⟨j, hmem, _, _, hvisits⟩ := hcounterpart i hi
    rw [← hvisits]
    exact hj.ordered j hmem

variable [Zero R] [Add R]

theorem departures_build (g : Schedule R) (stop : Ident) :
    (BlockIndex.build g).departures stop =
      ofDepartures stop ((Block.departures g.blocks.values).filter fun d => d.stop = stop) :=
  listAt_ofConfigurations _ stop

theorem scanned_build (hg : g.Consistent) (stop : Ident) :
    Scanned g stop ((BlockIndex.build g).departures stop) := by
  rw [departures_build]
  constructor
  · rw [List.pairwise_map]
    exact increasing_ofDepartures stop _
  · intro services
    simp only [← Schedule.visits_ne_nil, ← hg.departures_ne_nil, List.mem_map, mem_ofDepartures]
    constructor
    · rintro ⟨i, ⟨_, hne, rfl⟩, rfl⟩
      exact hne
    · intro hne
      exact ⟨_, ⟨services, hne, rfl⟩, rfl⟩
  · intro i hi
    obtain ⟨_, _, rfl⟩ := mem_ofDepartures.1 hi
    rfl
  · intro i hi service hservice
    obtain ⟨services, _, rfl⟩ := mem_ofDepartures.1 hi
    obtain rfl : services = .single service := hservice
    exact ((List.mergeSort_perm _ _).map _).trans (hg.visits_departures service stop)
  · intro i hi
    obtain ⟨services, _, rfl⟩ := mem_ofDepartures.1 hi
    rw [visits, List.pairwise_map]
    apply List.Pairwise.imp Departure.isBefore_iff.1
    apply List.pairwise_mergeSort
    · exact fun _ _ _ => Departure.isBefore_trans
    · exact Departure.isBefore_total

end StopIndex

namespace Engine

open BlockIndex Schedule StopIndex

variable [Geometry R]

/-- Whatever was edited and asked before, the indices of a stop list what going through the stored
trips finds; and in whatever order the stored blocks are kept and the groups of their departures
come up, what is put together is the list that a new index has at the stop. -/
theorem departures_scan (settings : Settings) (calendar : Calendar) (now : Instant)
    {g : Schedule R} (h : g.Reachable) (uses : List (Use R)) (stop : Ident) :
    let e := (start settings calendar now g).useAll uses
    let indices := e.refresh.index.departures stop
    Scanned e.schedule stop indices ∧
    ∀ (blocks : List (Block R)) (groups : List ((Ident × ServiceSet) × List (Departure R))),
      blocks.Perm e.schedule.blocks.values →
      groups.Perm (groupsOf (Block.departures
        (blocks.mergeSort fun a b => a.id.isAtMost b.id))) →
      assemble stop groups = (build e.schedule).departures stop ∧
      (assemble stop groups).map StopIndex.unshaped = indices.map StopIndex.unshaped := by
  intro e indices
  have hstart : (start settings calendar now g).Indexed := ⟨h.consistent, .build g⟩
  have he : e.Indexed := hstart.useAll uses
  have hindex : e.refresh.index.unshaped = (build e.schedule).unshaped := he.fresh.refresh
  have hindices : indices.map StopIndex.unshaped =
      ((build e.schedule).departures stop).map StopIndex.unshaped := by
    rw [← departures_unshaped, hindex, departures_unshaped]
  constructor
  · exact (scanned_build he.consistent stop).congr hindices
  · intro blocks groups hblocks hgroups
    have hassemble : assemble stop groups = (build e.schedule).departures stop := by
      rw [departures_build, assemble_eq hgroups, he.consistent.mergeSort_blocks hblocks]
    rw [hindices, hassemble]
    exact ⟨rfl, rfl⟩

/-- A trip of another block and service comes that calls twice at a stop. -/
def loopAdded : List (Use Float) :=
  let call (stop : String) (time : Int) : Call Float :=
    { stop := ⟨"A", stop⟩, published := none, arrival := time, departure := time, distance := 0 }
  [.ask, .edit (.addTrip (.ofCalls ⟨"A", "T3"⟩ ⟨"A", "R"⟩ none ⟨"A", "L"⟩
    [call "X" 90, call "Y" 100, call "X" 20]) none)]

theorem departures_scan_loopAdded :
    let g := Schedule.empty.run shortenedDay
    let e := (start default ⟨∅⟩ default g).useAll loopAdded
    let stop : Ident := ⟨"A", "X"⟩
    let indices := e.refresh.index.departures stop
    let blocks := e.schedule.blocks.values.reverse
    let groups := (groupsOf (Block.departures
      (blocks.mergeSort fun a b => a.id.isAtMost b.id))).reverse
    g.Reachable ∧
    (e.schedule.visits ⟨"A", "L"⟩ stop).map (fun v => (v.1, v.2.sequence)) =
      [(⟨"A", "T3"⟩, 0), (⟨"A", "T3"⟩, 2)] ∧
    Scanned e.schedule stop indices ∧
    blocks.Perm e.schedule.blocks.values ∧
    groups.Perm (groupsOf (Block.departures
      (blocks.mergeSort fun a b => a.id.isAtMost b.id))) ∧
    assemble stop groups = (build e.schedule).departures stop ∧
    (assemble stop groups).map StopIndex.unshaped = indices.map StopIndex.unshaped := by
  have hscan := departures_scan default ⟨∅⟩ default ⟨shortenedDay, rfl⟩ loopAdded ⟨"A", "X"⟩
  have hassemble := hscan.2 _ _ (List.reverse_perm _) (List.reverse_perm _)
  exact ⟨⟨shortenedDay, rfl⟩, by decide +kernel, hscan.1, List.reverse_perm _,
    List.reverse_perm _, hassemble⟩

end Engine

end Timetable
