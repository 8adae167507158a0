import Timetable.Proofs.BlockIndex.Freshness
import Timetable.Proofs.Ident
import Timetable.Proofs.Schedule.Filing

namespace Timetable

variable {R : Type}

theorem filter_eq_singleton {α : Type} {p : α → Bool} {l : List α} {a : α}
    (h : l.Pairwise fun x y => p x → ¬p y) (ha : a ∈ l) (hp : p a) : l.filter p = [a] := by
  induction l with
  | nil => cases ha
  | cons x l ih =>
    obtain ⟨hx, hl⟩ := List.pairwise_cons.1 h
    rcases List.mem_cons.1 ha with rfl | ha
    · have hnone : l.filter p = [] := List.filter_eq_nil_iff.2 fun y hy => hx y hy hp
      rw [List.filter_cons_of_pos hp, hnone]
    · rw [List.filter_cons_of_neg fun hpx => hx a ha hpx hp, ih hl ha]

namespace Schedule.Consistent

variable [Zero R] {g : Schedule R} {c : Configuration R}

theorem members_all_perm (hg : Consistent g) :
    ((g.blocks.values.flatMap (·.configurations)).flatMap (·.members)).Perm g.trips.values := by
  rw [List.flatMap_assoc]
  exact hg.members_perm

theorem block_eq (hg : Consistent g) (hc : c ∈ g.blocks.values.flatMap (·.configurations)) :
    c.members ≠ [] ∧ ∀ t ∈ c.members, t.block = c.block := by
  obtain ⟨b, hb, hcb⟩ := List.mem_flatMap.1 hc
  obtain ⟨block, hblock⟩ := Table.mem_values.1 hb
  obtain ⟨services, _, _, rfl⟩ := hg.groups hblock
  obtain ⟨service, _, hu⟩ := List.mem_filterMap.1 hcb
  refine ⟨Configuration.members_ne_nil hu, fun t ht => ?_⟩
  rw [Configuration.block_of_build? hu]
  exact ((mem_tripsOf hg.keyed).1 ((Configuration.mem_members_under? hu).1 ht).1).2

theorem disjoint_configurations (hg : Consistent g) :
    (g.blocks.values.flatMap (·.configurations)).Pairwise
      fun c d => ∀ trip, c.hasTrip trip → ¬d.hasTrip trip := by
  have hnodup := (hg.members_all_perm.map (·.id)).nodup_iff.2 hg.keyed.nodup_values
  rw [List.map_flatMap, List.nodup_flatMap] at hnodup
  apply hnodup.2.imp
  intro c d hdisjoint trip hc hd
  obtain ⟨t, ht, rfl⟩ := Configuration.hasTrip_iff.1 hc
  obtain ⟨u, hu, he⟩ := Configuration.hasTrip_iff.1 hd
  exact hdisjoint (List.mem_map_of_mem ht) (he ▸ List.mem_map_of_mem hu)

theorem configuration_of_trip (hg : Consistent g) {id : Ident} {t : Trip R}
    (stored : g.trips[id]? = some t) : ∃ c, t ∈ c.members ∧
      ((g.blocks.values.flatMap (·.configurations)).filter fun c => c.hasTrip id) = [c] := by
  have hid : t.id = id := hg.keyed id t stored
  have ht : t ∈ g.trips.values := Table.mem_values.2 ⟨id, stored⟩
  obtain ⟨c, hc, htc⟩ := List.mem_flatMap.1 (hg.members_all_perm.mem_iff.2 ht)
  refine ⟨c, htc, filter_eq_singleton ?_ hc (Configuration.hasTrip_iff.2 ⟨t, htc, hid⟩)⟩
  exact hg.disjoint_configurations.imp fun h => h id

end Schedule.Consistent

namespace BlockIndex

open Schedule

/-- Indices whose tables share out the trips of a schedule among the blocks, the agencies and the
collections to which they belong. -/
structure Partitions (g : Schedule R) (i : BlockIndex R) : Prop where
  trips : (i.all.flatMap (·.members)).Perm g.trips.values
  listed (id : Ident) (t : Trip R) : g.trips[id]? = some t → ∃ c, t ∈ c.members ∧
    c.block = t.block ∧ (i.all.filter fun c => c.hasTrip id) = [c] ∧
    (∀ block, ((i.configurations (.block block)).filter fun c => c.hasTrip id) =
      if c.block = block then [c] else []) ∧
    ∀ agency, ((i.configurations (.agency agency)).filter fun c => c.hasTrip id) =
      if c.block.agency = agency then [c] else []
  blocks (block : Ident) :
    i.configurations (.block block) = i.all.filter fun c => c.block = block
  agencies (agency : String) :
    i.configurations (.agency agency) = i.all.filter fun c => c.block.agency = agency
  collections (collection : Ident) : (i.configurations (.collection collection)).Nodup ∧
    i.configurations (.collection collection) = i.all.filter fun c =>
      c.members.any fun t => g.collectionOf? t.route = some collection

variable [Zero R] [Add R] {g : Schedule R}

/-- A configuration belongs to the collections in which its trips' routes are filed. -/
theorem mem_collectionsOf (hg : Consistent g) {c : Configuration R}
    (hc : c ∈ (build g).all) {collection : Ident} : collection ∈ collectionsOf g.routes c ↔
      ∃ t ∈ c.members, g.collectionOf? t.route = some collection := by
  have hroutes (route : Ident) : route ∈ c.routes ↔ ∃ t ∈ c.members, t.route = route := by
    rw [Configuration.routes, List.mem_eraseDups, Configuration.members]
    simp only [List.mem_map, exists_exists_and_eq_and]
  have hstored : ∀ route ∈ c.routes,
      collectionOf g.routes route = collection ↔ g.collectionOf? route = some collection := by
    intro route hroute
    obtain ⟨r, hr⟩ := Table.exists_of_mem (hg.mem_routes hc hroute)
    rw [collectionOf, collectionOf?, hr, Option.map_some, Option.some.injEq]
  rw [collectionsOf, Ident.mem_distinct, List.mem_map]
  constructor
  · rintro ⟨route, hroute, he⟩
    obtain ⟨t, ht, rfl⟩ := (hroutes route).1 hroute
    exact ⟨t, ht, (hstored t.route hroute).1 he⟩
  · rintro ⟨t, ht, he⟩
    have hroute : t.route ∈ c.routes := (hroutes t.route).2 ⟨t, ht, rfl⟩
    exact ⟨t.route, hroute, (hstored t.route hroute).2 he⟩

theorem nodup_all (hg : Consistent g) : (build g).all.Nodup := by
  apply hg.disjoint_configurations.imp_of_mem
  intro c d hc _ hdisjoint he
  subst he
  obtain ⟨t, ht⟩ := List.exists_mem_of_ne_nil _ (hg.block_eq hc).1
  have htrip : c.hasTrip t.id := Configuration.hasTrip_iff.2 ⟨t, ht, rfl⟩
  exact hdisjoint t.id htrip htrip

theorem configurations_block (g : Schedule R) (block : Ident) :
    (build g).configurations (.block block) = (build g).all.filter fun c => c.block = block :=
  Table.listAt_group (fun c : Configuration R => c.block) (build g).all block

theorem configurations_agency (g : Schedule R) (agency : String) :
    (build g).configurations (.agency agency) =
      (build g).all.filter fun c => c.block.agency = agency :=
  Table.listAt_group (fun c : Configuration R => c.block.agency) (build g).all agency

theorem partitions_build (hg : Consistent g) : Partitions g (build g) := by
  constructor
  · exact hg.members_all_perm
  · intro id t stored
    obtain ⟨c, ht, honly⟩ := hg.configuration_of_trip stored
    have hc : c ∈ (build g).all := List.mem_of_mem_filter (honly ▸ List.mem_singleton_self c)
    have hkey {K : Type} [DecidableEq K] (key : Configuration R → K) (k : K) :
        (((build g).all.filter fun c => key c = k).filter fun c => c.hasTrip id) =
          if key c = k then [c] else [] := by
      have honly : (build g).all.filter (fun c => c.hasTrip id) = [c] := honly
      rw [List.filter_comm, honly, List.filter_cons, List.filter_nil]
      simp only [decide_eq_true_eq]
    refine ⟨c, ht, ((hg.block_eq hc).2 t ht).symm, honly, fun block => ?_, fun agency => ?_⟩
    · rw [configurations_block]
      exact hkey (fun c => c.block) block
    · rw [configurations_agency]
      exact hkey (fun c => c.block.agency) agency
  · exact configurations_block g
  · exact configurations_agency g
  · intro collection
    have hlisted : (build g).configurations (.collection collection) =
        (build g).all.filter fun c =>
          c.members.any fun t => g.collectionOf? t.route = some collection := by
      have hgroup := Table.listAt_group_keys (collectionsOf g.routes)
        (fun c (_ : c ∈ (build g).all) => Ident.nodup_distinct _) collection
      refine hgroup.trans (List.filter_congr fun c hc => ?_)
      rw [Bool.eq_iff_iff, decide_eq_true_eq, mem_collectionsOf hg hc, List.any_eq_true]
      simp only [decide_eq_true_eq]
    refine ⟨?_, hlisted⟩
    rw [hlisted]
    exact (nodup_all hg).filter _

end BlockIndex

namespace Engine

open BlockIndex Schedule

variable [Geometry R]

/-- A new index of a reachable schedule shares out the stored trips: each is in one configuration,
which is listed once under its block, once under its block's agency and nowhere else there, and the
list of a collection has, once and in the order of all configurations, those with a trip whose
route is filed there. Whatever was edited and asked before, every query of the engine's index is
answered by the list that a new index has, but for shapes. -/
theorem index_partitions (settings : Settings) (calendar : Calendar) (now : Instant)
    {g : Schedule R} (h : g.Reachable) (uses : List (Use R)) :
    let e := (start settings calendar now g).useAll uses
    Partitions e.schedule (build e.schedule) ∧
    ∀ q, (e.refresh.index.configurations q).map Configuration.unshaped =
      ((build e.schedule).configurations q).map Configuration.unshaped := by
  intro e
  have hstart : (start settings calendar now g).Indexed := ⟨h.consistent, .build g⟩
  have he : e.Indexed := hstart.useAll uses
  have hindex : e.refresh.index.unshaped = (build e.schedule).unshaped := he.fresh.refresh
  refine ⟨partitions_build he.consistent, fun q => ?_⟩
  rw [← configurations_unshaped, hindex, configurations_unshaped]

/-- Trips of two routes of one collection and of a third route in one configuration. -/
def sharedBlockDay : List (Edit Float) :=
  let call : Call Float :=
    { stop := ⟨"A", "X"⟩, published := none, arrival := 0, departure := 0, distance := 0 }
  let trip (id route service : String) : Trip Float :=
    .ofCalls ⟨"A", id⟩ ⟨"A", route⟩ (some ⟨"P", "B"⟩) ⟨"A", service⟩ [call]
  [.addAgency "A" "UTC", .addRoute ⟨"A", "R1"⟩ ⟨"A", "C"⟩, .addRoute ⟨"A", "R2"⟩ ⟨"A", "C"⟩,
    .addTrip (trip "T1" "R1" "S") none, .addTrip (trip "T2" "R2" "S") none,
    .addTrip (trip "T3" "R3" "S") none, .addTrip (trip "T4" "R1" "L") none]

theorem index_partitions_sharedBlockDay :
    let uses := [.ask, .edit (.setTripShape ⟨"A", "T2"⟩ (some ⟨"A", "P"⟩))]
    let e := (start default ⟨∅⟩ default (Schedule.empty.run sharedBlockDay)).useAll uses
    (Schedule.empty.run sharedBlockDay).Reachable ∧
    e.schedule.trips.keys.length = 4 ∧
    e.schedule.collectionOf? ⟨"A", "R2"⟩ = some ⟨"A", "C"⟩ ∧
    Partitions e.schedule (build e.schedule) ∧
    ∀ q, (e.refresh.index.configurations q).map Configuration.unshaped =
      ((build e.schedule).configurations q).map Configuration.unshaped := by
  intro uses e
  have hreachable : (Schedule.empty.run sharedBlockDay).Reachable := ⟨sharedBlockDay, rfl⟩
  exact ⟨hreachable, by decide +kernel, by decide +kernel,
    index_partitions default ⟨∅⟩ default hreachable uses⟩

end Engine

end Timetable
