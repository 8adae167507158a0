import Timetable.BlockIndex.Basic
import Timetable.Proofs.Block.Grouping

namespace Timetable

variable {R : Type}

namespace Trip

/-- The trip, whatever its shape. -/
def unshaped (t : Trip R) : Trip R := { t with shape := none }

theorem runsBefore_unshaped (s t : Trip R) : s.runsBefore t = s.unshaped.runsBefore t.unshaped :=
  (runsBefore_congr rfl rfl rfl rfl).symm

end Trip

namespace Configuration

def unshaped (c : Configuration R) : Configuration R :=
  { c with legs := c.legs.map fun leg => { leg with trip := leg.trip.unshaped } }

@[simp] theorem routes_unshaped (c : Configuration R) : c.unshaped.routes = c.routes := by
  rw [routes, unshaped, List.map_map, routes]
  rfl

theorem unshaped_build? [Zero R] (block : Ident) (services : ServiceSet)
    (gaps : List (Ident × R)) (ts : List (Trip R)) :
    (build? block services gaps ts).map unshaped =
      build? block services gaps (ts.map Trip.unshaped) := by
  have hsort : (ts.map Trip.unshaped).mergeSort Trip.runsBefore =
      (ts.mergeSort Trip.runsBefore).map Trip.unshaped :=
    (List.map_mergeSort fun s _ t _ => Trip.runsBefore_unshaped s t).symm
  rw [build?, build?, List.isEmpty_map, hsort]
  split
  · rfl
  · simp only [Option.map_some, unshaped, List.map_map]
    rfl

theorem unshaped_under? [Zero R] (block service : Ident) (ts : List (Trip R)) :
    (under? block ts service).map unshaped = under? block (ts.map Trip.unshaped) service := by
  rw [under?, unshaped_build?, under?, List.filter_map]
  rfl

variable [Zero R] [Add R]

@[simp] theorem stopTimes_unshaped (c : Configuration R) : c.unshaped.stopTimes = c.stopTimes := by
  have hplace (legs : List (Leg R)) : ∀ (sequence stopTime : Nat) (distance : R),
      (place sequence stopTime distance
        (legs.map fun leg => { leg with trip := leg.trip.unshaped })).flatMap
          (·.blockStopTimes) =
        (place sequence stopTime distance legs).flatMap (·.blockStopTimes) := by
    induction legs with
    | nil => exact fun _ _ _ => rfl
    | cons leg legs ih =>
      intro sequence stopTime distance
      rw [List.map_cons, place, place, List.flatMap_cons, List.flatMap_cons]
      congr 1
      exact ih _ _ _
  exact hplace c.legs 0 0 0

end Configuration

def Block.unshaped (b : Block R) : Block R :=
  { b with configurations := b.configurations.map Configuration.unshaped }

theorem Block.unshaped_grouped [Zero R] (id : Ident) (services : List Ident)
    (ts : List (Trip R)) :
    (grouped id services ts).unshaped = grouped id services (ts.map Trip.unshaped) := by
  rw [unshaped, grouped, grouped, List.map_filterMap]
  congr 1
  exact List.filterMap_congr fun s _ => Configuration.unshaped_under? id s ts

theorem Block.Groups.unshaped_replace [Zero R] {id : Ident} {ts : List (Trip R)} {t : Trip R}
    {b : Block R} (h : b.Groups id ts) (hn : (ts.map (·.id)).Nodup)
    (ht : ∀ s ∈ ts, s.id = t.id → s.unshaped = t.unshaped) :
    (b.replace t).unshaped = b.unshaped := by
  obtain ⟨services, _, _, rfl⟩ := h
  have hservice : ∀ s ∈ ts, s.id = t.id → s.service = t.service := by
    intro s hs he
    have hservice := congrArg Trip.service (ht s hs he)
    exact hservice
  rw [replace_grouped hn hservice, unshaped_grouped, unshaped_grouped,
    Trip.map_replaceIn ht]

def Departure.unshaped (d : Departure R) : Departure R :=
  { d with configuration := d.configuration.unshaped }

namespace StopIndex

def unshaped (i : StopIndex R) : StopIndex R :=
  { i with departures := i.departures.map Departure.unshaped }

theorem unshaped_ofDepartures (stop : Ident) (ds : List (Departure R)) :
    (ofDepartures stop ds).map unshaped = ofDepartures stop (ds.map Departure.unshaped) := by
  have hgroup := Table.map_group Departure.unshaped (fun d => [d.services])
    (fun d => [d.services]) fun d (_ : d ∈ ds) => rfl
  rw [ofDepartures, ofDepartures, ← hgroup, Std.ExtTreeMap.toList_map, List.map_map, List.map_map]
  apply List.map_congr_left
  rintro ⟨services, es⟩ _
  have hsort : (es.mergeSort Departure.isBefore).map Departure.unshaped =
      (es.map Departure.unshaped).mergeSort Departure.isBefore :=
    List.map_mergeSort fun _ _ _ _ => rfl
  rw [Function.comp_apply, Function.comp_apply, unshaped, hsort]

variable [Zero R] [Add R]

theorem unshaped_departuresOf (c : Configuration R) :
    (departuresOf c).map Departure.unshaped = departuresOf c.unshaped := by
  rw [departuresOf, departuresOf, List.map_map, Configuration.stopTimes_unshaped]
  rfl

theorem unshaped_ofConfigurations (cs : List (Configuration R)) :
    ((ofConfigurations cs).map fun _ => List.map unshaped) =
      ofConfigurations (cs.map Configuration.unshaped) := by
  have hdepartures : (cs.map Configuration.unshaped).flatMap departuresOf =
      (cs.flatMap departuresOf).map Departure.unshaped := by
    rw [List.flatMap_map, List.map_flatMap]
    exact List.flatMap_congr fun c _ => (unshaped_departuresOf c).symm
  have hgroup := Table.map_group Departure.unshaped (fun d => [d.stop]) (fun d => [d.stop])
    fun d (_ : d ∈ cs.flatMap departuresOf) => rfl
  rw [ofConfigurations, ofConfigurations, hdepartures, ← hgroup]
  apply Std.ExtTreeMap.ext_getElem?
  intro stop
  simp only [Std.ExtTreeMap.getElem?_map, Option.map_map]
  congr 1
  funext ds
  exact unshaped_ofDepartures stop ds

end StopIndex

namespace BlockIndex

def unshaped (i : BlockIndex R) : BlockIndex R where
  version := i.version
  all := i.all.map Configuration.unshaped
  byAgency := i.byAgency.map fun _ => List.map Configuration.unshaped
  byCollection := i.byCollection.map fun _ => List.map Configuration.unshaped
  byBlock := i.byBlock.map fun _ => List.map Configuration.unshaped
  byStop := i.byStop.map fun _ => List.map StopIndex.unshaped

@[simp] theorem configurations_unshaped (i : BlockIndex R) (q : IndexQuery) :
    i.unshaped.configurations q = (i.configurations q).map Configuration.unshaped := by
  cases q with
  | all => rfl
  | agency id => exact Table.listAt_map _ _ id
  | collection id => exact Table.listAt_map _ _ id
  | block id => exact Table.listAt_map _ _ id

@[simp] theorem departures_unshaped (i : BlockIndex R) (stop : Ident) :
    i.unshaped.departures stop = (i.departures stop).map StopIndex.unshaped :=
  Table.listAt_map _ _ stop

@[simp] theorem collectionsOf_unshaped (routes : Table Ident Route) (c : Configuration R) :
    collectionsOf routes c.unshaped = collectionsOf routes c := by
  simp [collectionsOf]

variable {g h : Schedule R}

theorem unshaped_configurations
    (blocks : (h.blocks.map fun _ => Block.unshaped) = g.blocks.map fun _ => Block.unshaped) :
    (h.blocks.values.flatMap (·.configurations)).map Configuration.unshaped =
      (g.blocks.values.flatMap (·.configurations)).map Configuration.unshaped := by
  have hblocks (f : Schedule R) :
      (f.blocks.values.flatMap (·.configurations)).map Configuration.unshaped =
        (f.blocks.map fun _ => Block.unshaped).values.flatMap (·.configurations) := by
    rw [Table.values_map, List.map_flatMap, List.flatMap_map]
    rfl
  rw [hblocks h, blocks, ← hblocks g]

variable [Zero R] [Add R]

/-- Of a schedule an index reads the version, the blocks but for shapes, and under which
collections the configurations of the blocks belong. -/
theorem unshaped_build_congr (version : h.version = g.version)
    (blocks : (h.blocks.map fun _ => Block.unshaped) = g.blocks.map fun _ => Block.unshaped)
    (collections : ∀ c ∈ g.blocks.values.flatMap (·.configurations),
      collectionsOf h.routes c = collectionsOf g.routes c) :
    (build h).unshaped = (build g).unshaped := by
  have hall := unshaped_configurations blocks
  have hkeys {K : Type} [Ord K] [Std.TransOrd K] [Std.LawfulEqOrd K]
      {keys keys' : Configuration R → List K}
      (hh : ∀ c, keys' c.unshaped = keys' c)
      (hg : ∀ c ∈ g.blocks.values.flatMap (·.configurations), keys' c = keys c) :
      ((Table.group keys' (h.blocks.values.flatMap (·.configurations))).map
          fun _ => List.map Configuration.unshaped) =
        (Table.group keys (g.blocks.values.flatMap (·.configurations))).map
          fun _ => List.map Configuration.unshaped := by
    rw [Table.map_group _ keys' keys' fun c _ => hh c, hall,
      ← Table.map_group _ keys keys' fun c hc => (hh c).trans (hg c hc)]
  rw [unshaped, unshaped, build, build, hall, version]
  rw [hkeys (fun c => rfl) fun c _ => rfl, hkeys (collectionsOf_unshaped h.routes) collections,
    hkeys (fun c => rfl) fun c _ => rfl, StopIndex.unshaped_ofConfigurations, hall,
    ← StopIndex.unshaped_ofConfigurations]

end BlockIndex

end Timetable
