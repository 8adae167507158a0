import Timetable.Proofs.Block.Grouping
import Timetable.Proofs.Schedule.Step

namespace Timetable.Schedule

variable {R : Type}

section Parts

variable (g : Schedule R) (block service : Ident)

def tripsOf : List (Trip R) := g.trips.values.filter fun t => t.block = block

def tripsUnder : List (Trip R) := (g.tripsOf block).filter fun t => t.service = service

def servicesOf : List Ident := ((g.tripsOf block).map (·.service)).dedup

end Parts

/-- Schedules whose trips are filed under their own ids, with blocks that reflect the trips and
with the routes that the trips name. -/
structure Consistent [Zero R] (g : Schedule R) : Prop where
  keyed : g.trips.KeyedBy Trip.id
  blocks (block : Ident) : Block.Reflects block (g.tripsOf block) g.blocks[block]?
  routed (id : Ident) (t : Trip R) : g.trips[id]? = some t → t.route ∈ g.routes

section Listing

variable {g h : Schedule R} {id block : Ident} {s t : Trip R}

theorem nodup_tripsOf (hg : g.trips.KeyedBy Trip.id) (block : Ident) :
    ((g.tripsOf block).map (·.id)).Nodup :=
  hg.nodup_values.sublist (List.filter_sublist.map _)

theorem mem_tripsOf (hg : g.trips.KeyedBy Trip.id) :
    t ∈ g.tripsOf block ↔ g.trips[t.id]? = some t ∧ t.block = block := by
  rw [tripsOf, List.mem_filter, hg.mem_values, decide_eq_true_eq]

theorem tripsOf_congr (htrips : h.trips = g.trips) : h.tripsOf block = g.tripsOf block := by
  rw [tripsOf, htrips, tripsOf]

theorem tripsOf_insert (block : Ident) (hnew : g.trips[t.id]? = none)
    (htrips : h.trips = g.trips.insert t.id t) :
    (h.tripsOf block).Perm
      (if t.block = block then g.tripsOf block ++ [t] else g.tripsOf block) := by
  have hperm := (Table.values_insert_perm t hnew).filter fun t => t.block = block
  rw [tripsOf, htrips]
  rw [List.filter_cons] at hperm
  split
  · next hb =>
    rw [if_pos (decide_eq_true hb)] at hperm
    exact hperm.trans (List.perm_append_singleton _ _).symm
  · next hb => rwa [if_neg (by simp [hb])] at hperm

theorem tripsOf_erase (block : Ident) (hg : g.trips.KeyedBy Trip.id)
    (htrips : h.trips = g.trips.erase id) :
    (h.tripsOf block).Perm ((g.tripsOf block).filter fun t => t.id ≠ id) := by
  rw [tripsOf, htrips, tripsOf, List.filter_comm]
  exact (hg.values_erase_perm id).filter _

theorem values_insert_perm_replaceIn (hg : g.trips.KeyedBy Trip.id)
    (hs : g.trips[t.id]? = some s) :
    (g.trips.insert t.id t).values.Perm (t.replaceIn g.trips.values) := by
  have hothers : t.replaceIn (g.trips.erase t.id).values = (g.trips.erase t.id).values := by
    apply Trip.replaceIn_eq_self
    intro u hu he
    rw [hg.erase.mem_values, Std.ExtTreeMap.getElem?_erase] at hu
    simp [he] at hu
  have hperm := (Table.values_perm_erase hs).map fun u => if u.id = t.id then t else u
  rw [List.map_cons, if_pos (hg t.id s hs)] at hperm
  rw [Trip.replaceIn] at hothers ⊢
  rw [hothers] at hperm
  exact (Table.values_insert_perm_erase g.trips t.id t).trans hperm.symm

theorem tripsOf_replace (block : Ident) (hg : g.trips.KeyedBy Trip.id)
    (hs : g.trips[t.id]? = some s) (hblock : t.block = s.block)
    (htrips : h.trips = g.trips.insert t.id t) :
    (h.tripsOf block).Perm (t.replaceIn (g.tripsOf block)) := by
  have hfilter : (t.replaceIn g.trips.values).filter (fun u => u.block = block) =
      t.replaceIn (g.tripsOf block) := by
    apply Trip.filter_replaceIn
    intro u hu he
    rw [hg.mem_values, he, hs, Option.some.injEq] at hu
    rw [← hu, hblock]
  rw [tripsOf, htrips, ← hfilter]
  exact (values_insert_perm_replaceIn hg hs).filter _

theorem reflects_tripsOf [Zero R] (hh : h.trips.KeyedBy Trip.id) {ts : List (Trip R)}
    (hperm : (h.tripsOf block).Perm ts) {o : Option (Block R)}
    (hts : (ts.map (·.id)).Nodup → Block.Reflects block ts o) :
    Block.Reflects block (h.tripsOf block) o := by
  have hnodup := (hperm.map (·.id)).nodup_iff.1 (nodup_tripsOf hh block)
  exact (hts hnodup).perm hperm.symm hnodup

end Listing

@[simp] theorem mem_routes_editRouteTrips {g : Schedule R} {f : List Ident → List Ident}
    {route r : Ident} : r ∈ (g.editRouteTrips route f).routes ↔ r ∈ g.routes := by
  rw [editRouteTrips, Table.adjust]
  cases h : g.routes[route]? with
  | none => rfl
  | some v => exact Table.mem_insert_of_mem (Table.mem_of_getElem? h)

section Places

variable [Zero R] {g : Schedule R} {t : Trip R}

theorem blocks_enter (g : Schedule R) (t : Trip R) : (g.enter t).blocks =
    g.blocks.insert t.block (g.blocks[t.block]?.elim (.ofTrip t) (·.join t)) := by
  have henter : (g.enter t).blocks = (attach g t).blocks := rfl
  rw [henter, attach]
  cases g.blocks[t.block]? <;> rfl

@[simp] theorem mem_routes_enter {r : Ident} : r ∈ (g.enter t).routes ↔ r ∈ g.routes := by
  have henter : (g.enter t).routes = (g.editRouteTrips t.route (· ++ [t.id])).routes := rfl
  simp [henter]

/-- Detaching a trip touches nothing but its block. -/
theorem detach_eq (g : Schedule R) (t : Trip R) : ∃ blocks, detach g t = { g with blocks } ∧
    ∀ block, blocks[block]? =
      if t.block = block then g.blocks[block]?.bind (·.leave? t.id) else g.blocks[block]? := by
  cases hb : g.blocks[t.block]? with
  | none =>
    refine ⟨g.blocks, by simp only [detach, hb], fun block => ?_⟩
    split
    · next he =>
      rw [← he, hb]
      rfl
    · rfl
  | some b =>
    cases hl : b.leave? t.id with
    | none =>
      refine ⟨g.blocks.erase t.block, by simp only [detach, hb, hl], fun block => ?_⟩
      rw [Table.getElem?_erase]
      split
      · next he => rw [← he, hb, Option.bind_some, hl]
      · rfl
    | some c =>
      refine ⟨g.blocks.insert t.block c, by simp only [detach, hb, hl], fun block => ?_⟩
      rw [Table.getElem?_insert]
      split
      · next he => rw [← he, hb, Option.bind_some, hl]
      · rfl

@[simp] theorem trips_withdraw (g : Schedule R) (id : Ident) (t : Trip R) :
    (g.withdraw id t).trips = g.trips.erase id := by
  obtain ⟨blocks, hd, _⟩ := detach_eq { g with trips := g.trips.erase id } t
  rw [withdraw, hd]
  rfl

theorem blocks_withdraw (g : Schedule R) (id : Ident) (t : Trip R) (block : Ident) :
    (g.withdraw id t).blocks[block]? =
      if t.block = block then g.blocks[block]?.bind (·.leave? t.id) else g.blocks[block]? := by
  obtain ⟨blocks, hd, hblocks⟩ := detach_eq { g with trips := g.trips.erase id } t
  rw [withdraw, hd]
  exact hblocks block

@[simp] theorem mem_routes_withdraw {id r : Ident} :
    r ∈ (g.withdraw id t).routes ↔ r ∈ g.routes := by
  obtain ⟨blocks, hd, _⟩ := detach_eq { g with trips := g.trips.erase id } t
  rw [withdraw, hd]
  exact mem_routes_editRouteTrips

@[simp] theorem getElem?_trips_revise (g : Schedule R) (id : Ident) (t : Trip R) (k : Ident) :
    (g.revise id t).bump.trips[k]? = if id = k then some t else g.trips[k]? :=
  Table.getElem?_insert g.trips id k t

theorem blocks_revise (g : Schedule R) (id : Ident) (t : Trip R) (block : Ident) :
    (g.revise id t).blocks[block]? =
      if t.block = block then g.blocks[block]?.map (·.replace t) else g.blocks[block]? := by
  have hreattach : (g.revise id t).blocks = g.blocks.adjust t.block (·.replace t) := rfl
  simp [hreattach]

end Places

namespace Consistent

variable [Zero R] {g h : Schedule R} {id : Ident} {s t : Trip R}

theorem empty : Consistent (empty : Schedule R) where
  keyed := .empty
  blocks block := by
    have hnone : (Schedule.empty : Schedule R).blocks[block]? = none :=
      Std.ExtTreeMap.getElem?_empty
    rw [hnone]
    rfl
  routed id t h := by
    have hnone : (Schedule.empty : Schedule R).trips[id]? = none := Std.ExtTreeMap.getElem?_empty
    rw [hnone] at h
    cases h

theorem congr (hg : Consistent g) (trips : h.trips = g.trips) (blocks : h.blocks = g.blocks)
    (routes : ∀ r ∈ g.routes, r ∈ h.routes) : Consistent h where
  keyed := trips ▸ hg.keyed
  blocks block := by
    rw [tripsOf_congr trips, blocks]
    exact hg.blocks block
  routed id t ht := routes _ (hg.routed id t (trips ▸ ht))

theorem enter (hg : Consistent g) (routed : t.route ∈ g.routes) (new : g.trips[t.id]? = none) :
    Consistent (g.enter t) := by
  have hkeyed : (g.enter t).trips.KeyedBy Trip.id := hg.keyed.insert rfl
  refine ⟨hkeyed, fun block => ?_, fun id u hu => ?_⟩
  · refine reflects_tripsOf hkeyed (tripsOf_insert block new rfl) fun hnodup => ?_
    rw [blocks_enter, Std.ExtTreeMap.getElem?_insert]
    by_cases hb : t.block = block
    · subst hb
      rw [if_pos rfl] at hnodup ⊢
      rw [Std.compare_self, if_pos rfl]
      exact (hg.blocks t.block).join rfl hnodup
    · rw [if_neg hb, if_neg (by rwa [Std.LawfulEqCmp.compare_eq_iff_eq])]
      exact hg.blocks block
  · rw [mem_routes_enter]
    have hinsert : (g.enter t).trips[id]? = (g.trips.insert t.id t)[id]? := rfl
    rw [hinsert, Std.ExtTreeMap.getElem?_insert] at hu
    split at hu
    · cases hu
      exact routed
    · exact hg.routed id u hu

theorem reflects_withdraw (hg : Consistent g) (stored : g.trips[id]? = some t) (block : Ident) :
    Block.Reflects block ((g.tripsOf block).filter fun t => t.id ≠ id)
      (g.withdraw id t).blocks[block]? := by
  have hid : t.id = id := hg.keyed id t stored
  have hreflects := hg.blocks block
  rw [blocks_withdraw]
  split
  · next hb =>
    cases hblock : g.blocks[block]? with
    | none =>
      rw [hblock, Block.Reflects] at hreflects
      have hmem := (mem_tripsOf hg.keyed).2 ⟨hid.symm ▸ stored, hb⟩
      rw [hreflects] at hmem
      cases hmem
    | some b =>
      rw [hblock] at hreflects
      rw [Option.bind_some, hid]
      exact hreflects.2.leave (nodup_tripsOf hg.keyed block) id
  · next hb =>
    rw [List.filter_eq_self.2]
    · exact hreflects
    · intro u hu
      rw [mem_tripsOf hg.keyed] at hu
      refine decide_eq_true fun he => hb ?_
      rw [he, stored, Option.some.injEq] at hu
      rw [hu.1, hu.2]

theorem withdraw (hg : Consistent g) (stored : g.trips[id]? = some t) :
    Consistent (g.withdraw id t) := by
  have htrips := trips_withdraw g id t
  have hkeyed : (g.withdraw id t).trips.KeyedBy Trip.id := htrips ▸ hg.keyed.erase
  refine ⟨hkeyed, fun block => ?_, fun i u hu => ?_⟩
  · exact reflects_tripsOf hkeyed (tripsOf_erase block hg.keyed htrips) fun _ =>
      hg.reflects_withdraw stored block
  · rw [mem_routes_withdraw]
    rw [htrips, Std.ExtTreeMap.getElem?_erase] at hu
    split at hu
    · cases hu
    · exact hg.routed i u hu

theorem revise (hg : Consistent g) (stored : g.trips[id]? = some s) (hid : t.id = s.id)
    (hroute : t.route = s.route) (hblock : t.block = s.block) (hservice : t.service = s.service) :
    Consistent (g.revise id t) := by
  obtain rfl : t.id = id := hid.trans (hg.keyed id s stored)
  have htrips : (g.revise t.id t).trips = g.trips.insert t.id t := rfl
  have hkeyed : (g.revise t.id t).trips.KeyedBy Trip.id := hg.keyed.insert rfl
  have hstored : ∀ block, ∀ u ∈ g.tripsOf block, u.id = t.id → u = s := by
    intro block u hu he
    rw [mem_tripsOf hg.keyed, he, stored, Option.some.injEq] at hu
    exact hu.1.symm
  refine ⟨hkeyed, fun block => ?_, fun i u hu => ?_⟩
  · refine reflects_tripsOf hkeyed (tripsOf_replace block hg.keyed stored hblock htrips) fun _ => ?_
    rw [blocks_revise]
    split
    · refine (hg.blocks block).replace (nodup_tripsOf hg.keyed block) fun u hu he => ?_
      rw [hstored block u hu he, hservice]
    · next hb =>
      rw [Trip.replaceIn_eq_self]
      · exact hg.blocks block
      · intro u hu he
        refine hb ?_
        rw [hblock, ← hstored block u hu he]
        exact ((mem_tripsOf hg.keyed).1 hu).2
  · have hroutes : (g.revise t.id t).routes = g.routes := rfl
    rw [hroutes]
    rw [htrips, Std.ExtTreeMap.getElem?_insert] at hu
    split at hu
    · cases hu
      rw [hroute]
      exact hg.routed t.id s stored
    · exact hg.routed i u hu

theorem step (hg : Consistent g) (hs : Step g h) : Consistent h := by
  cases hs with
  | aside same _ => exact hg.congr same.trips same.blocks fun r hr => same.routes ▸ hr
  | agency id timezone _ => exact hg.congr rfl rfl fun _ hr => hr
  | route route collection _ _ =>
    rw [fileRoute_eq]
    exact hg.congr rfl rfl fun r hr => Std.ExtTreeMap.mem_insert.2 (.inr hr)
  | enter t _ _ routed new => exact hg.enter routed new
  | withdraw id t stored => exact hg.withdraw stored
  | replan id t calls stored =>
    have hrevise := hg.revise (t := t.withCalls calls) stored rfl rfl rfl rfl
    exact hrevise.congr rfl rfl fun _ hr => hr
  | reshape id t shape stored => exact hg.revise stored rfl rfl rfl rfl

theorem steps (hg : Consistent g) (hs : Steps g h) : Consistent h :=
  hs.induction (fun _ _ hf hs => hf.step hs) hg

end Consistent

theorem Reachable.consistent [Geometry R] {g : Schedule R} (h : g.Reachable) : Consistent g :=
  h.of_step .empty fun _ _ => Consistent.step

end Timetable.Schedule
