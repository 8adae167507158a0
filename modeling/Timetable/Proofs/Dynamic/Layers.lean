import Timetable.Proofs.Dynamic.Registration
import Timetable.Proofs.Schedule.Blocks

namespace Timetable

variable {R : Type}

namespace Schedule.Consistent

variable [Zero R] {g : Schedule R} {id block : Ident}

theorem exists_block (hg : Consistent g) {t : Trip R} (ht : g.trips[id]? = some t) :
    ∃ b, g.blocks[t.block]? = some b ∧ ∃ c ∈ b.configurations, t ∈ c.members := by
  obtain ⟨b, hb⟩ := Table.exists_of_mem (hg.mem_blocks.2 ⟨id, t, ht, rfl⟩)
  have htrip : t ∈ g.tripsOf t.block := by
    rw [mem_tripsOf hg.keyed, hg.keyed id t ht]
    exact ⟨ht, rfl⟩
  have hmem := (hg.groups hb).members_perm.mem_iff.2 htrip
  exact ⟨b, hb, List.mem_flatMap.1 hmem⟩

theorem mem_trips_of_hasTrip (hg : Consistent g) {b : Block R} (hb : g.blocks[block]? = some b)
    {c : Configuration R} (hc : c ∈ b.configurations) (h : c.hasTrip id) : id ∈ g.trips := by
  obtain ⟨t, ht, rfl⟩ := Configuration.hasTrip_iff.1 h
  have hmem := (hg.groups hb).members_perm.mem_iff.1 (List.mem_flatMap.2 ⟨c, hc, ht⟩)
  exact Table.mem_of_getElem? ((mem_tripsOf hg.keyed).1 hmem).1

end Schedule.Consistent

namespace Dynamic

open Registration

section Registered

variable [Zero R] [Add R]

/-- The trips of a registration belong to its block. -/
def Labelled (r : Registration R) : Prop := ∀ t ∈ r.configuration.members, t.block = r.block

theorem exists_registration {rs : List (Registration R)} (hrs : ∀ r ∈ rs, Labelled r) {id : Ident}
    {t : Trip R} (ht : (registerAll rs).trips[id]? = some t) :
    t.id = id ∧ ∃ r, latest? rs t.block = some r ∧
      ((∃ s ∈ r.configuration.members, s.id = id) → t ∈ r.configuration.members) := by
  induction rs using List.reverseRecOn with
  | nil =>
    have hnone : (registerAll ([] : List (Registration R))).trips[id]? = none :=
      Std.ExtTreeMap.getElem?_empty
    rw [hnone] at ht
    cases ht
  | append_singleton rs r ih =>
    rw [registerAll_append, trips_accept, Table.getElem?_foldl_insert Trip.id] at ht
    cases hfind : r.configuration.members.reverse.find? fun s => s.id = id with
    | some s =>
      rw [hfind, Option.some_or, Option.some.injEq] at ht
      subst ht
      have hmem : s ∈ r.configuration.members :=
        List.mem_reverse.1 (List.mem_of_find?_eq_some hfind)
      have hblock : r.block = s.block := (hrs r (by simp) s hmem).symm
      refine ⟨by simpa using List.find?_some hfind, r, ?_, fun _ => hmem⟩
      rw [latest?_append, if_pos hblock]
    | none =>
      rw [hfind, Option.none_or] at ht
      obtain ⟨hid, q, hq, hmem⟩ := ih (fun q hq => hrs q (by simp [hq])) ht
      refine ⟨hid, ?_⟩
      rw [latest?_append]
      split
      · refine ⟨r, rfl, fun ⟨s, hs, he⟩ => ?_⟩
        -- the trip is an earlier one, since this registration has none of its id
        rw [List.find?_eq_none] at hfind
        exact (hfind s (List.mem_reverse.2 hs) (decide_eq_true he)).elim
      · exact ⟨q, hq, hmem⟩

theorem block?_over (g : Schedule R) (rs : List (Registration R)) (block : Ident) :
    (g.view.over (registerAll rs).view).block? block = (g.blocks[block]?).or
      ((latest? rs block).map fun r => { id := block, configurations := [r.configuration] }) := by
  rw [← blocks_registerAll]
  rfl

end Registered

section Reachable

variable [Geometry R]

/-- A trip that is found leads to a block that is found. If the trip is scheduled, one of the
block's configurations has that very trip. If it is not, a scheduled block of its block's id lacks
it; and where no block of that id is scheduled, one of the configurations has that very trip if
the block was last registered with a trip of that id. -/
theorem trip_leads_to_block {g : Schedule R} (h : g.Reachable) {rs : List (Registration R)}
    (hrs : ∀ r ∈ rs, Labelled r) {id : Ident} {t : Trip R}
    (ht : (g.view.over (registerAll rs).view).trip? id = some t) :
    t.id = id ∧ ∃ b, (g.view.over (registerAll rs).view).block? t.block = some b ∧
      (id ∈ g.trips → ∃ c ∈ b.configurations, t ∈ c.members) ∧
      (id ∉ g.trips → t.block ∈ g.blocks → ∀ c ∈ b.configurations, ¬c.hasTrip id) ∧
      (t.block ∉ g.blocks → ∃ r, latest? rs t.block = some r ∧
        ((∃ s ∈ r.configuration.members, s.id = id) →
          ∃ c ∈ b.configurations, t ∈ c.members)) := by
  have hg := h.consistent
  have htrip : (g.trips[id]?).or (registerAll rs).trips[id]? = some t := ht
  rw [block?_over]
  cases hstored : g.trips[id]? with
  | some u =>
    rw [hstored, Option.some_or, Option.some.injEq] at htrip
    subst htrip
    obtain ⟨b, hb, hc⟩ := hg.exists_block hstored
    rw [hb, Option.some_or]
    exact ⟨hg.keyed id u hstored, b, rfl, fun _ => hc,
      fun hnew => (hnew (Table.mem_of_getElem? hstored)).elim,
      fun hnew => (hnew (Table.mem_of_getElem? hb)).elim⟩
  | none =>
    rw [hstored, Option.none_or] at htrip
    obtain ⟨hid, r, hr, hmem⟩ := exists_registration hrs htrip
    have hnew : id ∉ g.trips := (getElem?_eq_none_iff _ _).1 hstored
    refine ⟨hid, ?_⟩
    cases hb : g.blocks[t.block]? with
    | some b =>
      exact ⟨b, rfl, fun hin => (hnew hin).elim,
        fun _ _ c hc htrip => hnew (hg.mem_trips_of_hasTrip hb hc htrip),
        fun hout => (hout (Table.mem_of_getElem? hb)).elim⟩
    | none =>
      have hout : t.block ∉ g.blocks := (getElem?_eq_none_iff _ _).1 hb
      rw [Option.none_or, hr, Option.map_some]
      exact ⟨_, rfl, fun hin => (hnew hin).elim, fun _ hin => (hout hin).elim, fun _ =>
        ⟨r, rfl, fun hs => ⟨r.configuration, List.mem_singleton_self _, hmem hs⟩⟩⟩

end Reachable

/-- A block of one trip is scheduled, and three are registered: one of the scheduled block's id, and
one twice, each time with another trip. -/
def scheduledDay : List (Edit Float) :=
  [.addAgency "A" "UTC", .addTrip (shuttle "T1" "B" "X" 0) none]

def registeredDay : List (Registration Float) :=
  [.ofTrips "B" [shuttle "T2" "B" "X" 60], .ofTrips "D" [shuttle "T3" "D" "X" 90],
    .ofTrips "D" [shuttle "T4" "D" "X" 120]]

theorem trip_leads_to_block_registeredDay :
    let g := Schedule.empty.run scheduledDay
    let v := g.view.over (registerAll registeredDay).view
    let id : Ident := ⟨"A", "T4"⟩
    g.Reachable ∧ (∀ r ∈ registeredDay, Labelled r) ∧
    ∃ t, v.trip? id = some t ∧
    t.id = id ∧ ∃ b, v.block? t.block = some b ∧
      (id ∈ g.trips → ∃ c ∈ b.configurations, t ∈ c.members) ∧
      (id ∉ g.trips → t.block ∈ g.blocks → ∀ c ∈ b.configurations, ¬c.hasTrip id) ∧
      (t.block ∉ g.blocks → ∃ r, latest? registeredDay t.block = some r ∧
        ((∃ s ∈ r.configuration.members, s.id = id) →
          ∃ c ∈ b.configurations, t ∈ c.members)) := by
  intro g v id
  have hlabelled : ∀ r ∈ registeredDay, Labelled r := by
    unfold Labelled
    decide +kernel
  have hfound : (v.trip? id).isSome := by decide +kernel
  obtain ⟨t, ht⟩ := Option.isSome_iff_exists.1 hfound
  have hreach : g.Reachable := ⟨scheduledDay, rfl⟩
  exact ⟨hreach, hlabelled, t, ht, trip_leads_to_block hreach hlabelled ht⟩

/-- A registered trip of a scheduled block's id leads to the scheduled block, and one that its
block is registered without later leads to the later block: neither has the trip. -/
theorem trip_leads_astray_registeredDay :
    let g := Schedule.empty.run scheduledDay
    let v := g.view.over (registerAll registeredDay).view
    g.Reachable ∧ (∀ r ∈ registeredDay, Labelled r) ∧
    ∀ id ∈ [⟨"A", "T2"⟩, ⟨"A", "T3"⟩], ∃ t b, v.trip? id = some t ∧ v.block? t.block = some b ∧
      ∀ c ∈ b.configurations, ¬c.hasTrip id := by
  intro g v
  have hlabelled : ∀ r ∈ registeredDay, Labelled r := by
    unfold Labelled
    decide +kernel
  have hfound : ∀ id ∈ [(⟨"A", "T2"⟩ : Ident), ⟨"A", "T3"⟩],
      ((v.trip? id).bind fun t => v.block? t.block).any fun b =>
        b.configurations.all fun c => !c.hasTrip id := by
    decide +kernel
  refine ⟨⟨scheduledDay, rfl⟩, hlabelled, fun id hid => ?_⟩
  obtain ⟨b, hb, hlacks⟩ := Option.any_eq_true _ _ |>.1 (hfound id hid)
  obtain ⟨t, ht, hb⟩ := Option.bind_eq_some_iff.1 hb
  refine ⟨t, b, ht, hb, fun c hc => ?_⟩
  simpa using List.all_eq_true.1 hlacks c hc

end Dynamic

end Timetable
