import Timetable.Geo.Sphere
import Timetable.Proofs.Schedule.Consistency

namespace Timetable.Schedule

variable {R : Type}

section Consistent

variable [Zero R] {g : Schedule R} {block : Ident}

theorem Consistent.mem_blocks (hg : Consistent g) :
    block ∈ g.blocks ↔
      ∃ (id : Ident) (t : Trip R), g.trips[id]? = some t ∧ t.block = block := by
  have hreflects := hg.blocks block
  constructor
  · intro h
    obtain ⟨b, hb⟩ := Table.exists_of_mem h
    rw [hb] at hreflects
    obtain ⟨t, ht⟩ := List.exists_mem_of_ne_nil _ hreflects.1
    obtain ⟨hstored, hblock⟩ := (mem_tripsOf hg.keyed).1 ht
    exact ⟨t.id, t, hstored, hblock⟩
  · rintro ⟨id, t, hstored, hblock⟩
    have ht : t ∈ g.tripsOf block := by
      rw [mem_tripsOf hg.keyed, hg.keyed id t hstored]
      exact ⟨hstored, hblock⟩
    cases hb : g.blocks[block]? with
    | some b => exact Table.mem_of_getElem? hb
    | none =>
      rw [hb, Block.Reflects] at hreflects
      rw [hreflects] at ht
      cases ht

theorem Consistent.groups (hg : Consistent g) {b : Block R} (hb : g.blocks[block]? = some b) :
    b.Groups block (g.tripsOf block) := by
  have hreflects := hg.blocks block
  rw [hb] at hreflects
  exact hreflects.2

theorem Consistent.members_perm (hg : Consistent g) :
    (g.blocks.values.flatMap fun b => b.configurations.flatMap (·.members)).Perm
      g.trips.values := by
  have hmembers : (g.blocks.values.flatMap fun b => b.configurations.flatMap (·.members)).Perm
      (g.blocks.keys.flatMap g.tripsOf) := by
    rw [Table.values_eq_map, List.flatMap_map, ← Std.ExtTreeMap.map_fst_toList_eq_keys,
      List.flatMap_map]
    apply List.Perm.flatMap_left
    rintro ⟨block, b⟩ hb
    exact (hg.groups (Std.ExtTreeMap.mem_toList_iff_getElem?_eq_some.1 hb)).members_perm
  refine hmembers.trans (Table.flatMap_filter_perm Trip.block Std.ExtTreeMap.nodup_keys ?_)
  intro t ht
  rw [Std.ExtTreeMap.mem_keys, hg.mem_blocks]
  exact ⟨t.id, t, hg.keyed.mem_values.1 ht, rfl⟩

end Consistent

/-- However a schedule came about, its blocks are those that its trips determine: a block is there
if a stored trip names it, its configurations are for each service of its trips the one that the
trips under that service form without gaps, and the configurations of all blocks together have
every stored trip once and nothing else. -/
theorem Reachable.blocks_determined [Geometry R] {g : Schedule R} (h : g.Reachable) :
    (∀ block, block ∈ g.blocks ↔
      ∃ (id : Ident) (t : Trip R), g.trips[id]? = some t ∧ t.block = block) ∧
    (∀ block, ∀ b : Block R, g.blocks[block]? = some b → b.id = block ∧
      (b.configurations.map some).Perm ((g.servicesOf block).map fun service =>
        Configuration.build? block (.single service) [] (g.tripsUnder block service))) ∧
    (g.trips.values.map (·.id)).Nodup ∧
    (g.blocks.values.flatMap fun b => b.configurations.flatMap (·.members)).Perm
      g.trips.values := by
  have hg := h.consistent
  refine ⟨fun block => hg.mem_blocks, fun block b hb => ?_, hg.keyed.nodup_values, hg.members_perm⟩
  have hgroups := hg.groups hb
  exact ⟨hgroups.id_eq, hgroups.configurations_perm⟩

/-- Two trips of one block, the first of which then loses its first call. -/
def shortenedDay : List (Edit Float) :=
  let call (stop : String) (time : Int) : Call Float :=
    { stop := ⟨"A", stop⟩, published := none, arrival := time, departure := time, distance := 0 }
  let trip (id : String) (calls : List (Call Float)) : Trip Float :=
    .ofCalls ⟨"A", id⟩ ⟨"A", "R"⟩ (some ⟨"A", "B"⟩) ⟨"A", "S"⟩ calls
  [.addAgency "A" "UTC", .addTrip (trip "T1" [call "X" 0, call "Y" 60]) none,
    .addTrip (trip "T2" [call "X" 30]) none, .deleteStopTime ⟨"A", "T1"⟩ ⟨"A", "X"⟩]

theorem blocks_determined_shortenedDay :
    let g := empty.run shortenedDay
    g.Reachable ∧
    (∀ block, block ∈ g.blocks ↔
      ∃ (id : Ident) (t : Trip Float), g.trips[id]? = some t ∧ t.block = block) ∧
    (∀ block, ∀ b : Block Float, g.blocks[block]? = some b → b.id = block ∧
      (b.configurations.map some).Perm ((g.servicesOf block).map fun service =>
        Configuration.build? block (.single service) [] (g.tripsUnder block service))) ∧
    (g.trips.values.map (·.id)).Nodup ∧
    (g.blocks.values.flatMap fun b => b.configurations.flatMap (·.members)).Perm g.trips.values :=
  ⟨⟨shortenedDay, rfl⟩, Reachable.blocks_determined ⟨shortenedDay, rfl⟩⟩

end Timetable.Schedule
