import Timetable.Proofs.Dynamic.Registration

namespace Timetable.Dynamic

open Registration

variable {R : Type}

section Routes

/-- No route lists a trip twice. -/
def Unrepeated (routes : Table Ident Route) : Prop :=
  ∀ (id : Ident) (r : Route), routes[id]? = some r → r.trips.Nodup

variable {routes : Table Ident Route}

theorem Unrepeated.addToRoute (h : Unrepeated routes) (route collection trip : Ident) :
    Unrepeated (addToRoute routes route collection trip) := by
  have hold : (routes[route]?.getD { id := route, collection, trips := [] }).trips.Nodup := by
    cases hr : routes[route]? with
    | none => exact List.nodup_nil
    | some r => exact h route r hr
  intro id r hr
  rw [Dynamic.addToRoute, Table.getElem?_insert] at hr
  split at hr
  · cases hr
    split
    · exact hold
    · next hnew =>
      rw [← List.concat_eq_append, List.nodup_concat]
      exact ⟨hnew, hold⟩
  · exact h id r hr

theorem Unrepeated.foldl (h : Unrepeated routes) {α : Type} (route collection trip : α → Ident)
    (as : List α) : Unrepeated
      (as.foldl (fun rs a => Dynamic.addToRoute rs (route a) (collection a) (trip a)) routes) := by
  induction as generalizing routes with
  | nil => exact h
  | cons a as ih => exact ih (h.addToRoute (route a) (collection a) (trip a))

end Routes

section Lists

/-- A list with a configuration at its end, in place of those of its block. -/
def renewed (c : Configuration R) (cs : List (Configuration R)) : List (Configuration R) :=
  cs.filter (fun d => d.block ≠ c.block) ++ [c]

variable (c : Configuration R) (cs : List (Configuration R))

theorem filter_renewed (block : Ident) : (renewed c cs).filter (fun d => d.block = block) =
    if c.block = block then [c] else cs.filter fun d => d.block = block := by
  rw [renewed, List.filter_append, List.filter_filter]
  split
  · next he =>
    subst he
    simp
  · next hne =>
    rw [List.filter_singleton, decide_eq_false hne, cond_false, List.append_nil]
    apply List.filter_congr
    intro d _
    by_cases hd : d.block = block
    · simp [hd, Ne.symm hne]
    · simp [hd]

@[simp] theorem renewed_renewed : renewed c (renewed c cs) = renewed c cs := by
  rw [renewed, renewed, List.filter_append, List.filter_filter]
  simp

variable {c cs}

theorem nodup_renewed (h : (cs.map (·.block)).Nodup) : ((renewed c cs).map (·.block)).Nodup := by
  rw [renewed, List.map_append, List.map_singleton, ← List.concat_eq_append, List.nodup_concat]
  refine ⟨fun hmem => ?_, h.sublist (List.filter_sublist.map _)⟩
  obtain ⟨d, hd, he⟩ := List.mem_map.1 hmem
  exact of_decide_eq_true (List.mem_filter.1 hd).2 he

variable (c)

theorem listAt_foldl_relist {α : Type} (key : α → Ident) (as : List α)
    (t : Table Ident (List (Configuration R))) (k : Ident) :
    (as.foldl (fun t a => relist t (key a) c) t).listAt k =
      if k ∈ as.map key then renewed c (t.listAt k) else t.listAt k := by
  induction as using List.reverseRecOn with
  | nil => rfl
  | append_singleton as a ih =>
    have hlist (t : Table Ident (List (Configuration R))) : (relist t (key a) c).listAt k =
        if key a = k then renewed c (t.listAt k) else t.listAt k := by
      rw [relist, Table.listAt, Table.getElem?_insert]
      split
      · next he => rw [he, Option.getD_some, renewed]
      · rfl
    rw [List.foldl_append, List.foldl_cons, List.foldl_nil, hlist, ih, List.map_append]
    by_cases ha : key a = k
    · simp [ha, apply_ite (renewed c), renewed_renewed]
    · simp [ha, Ne.symm ha]

end Lists

variable [Zero R] [Add R]

def collections (r : Registration R) : List Ident :=
  r.configuration.members.map fun t => BlockIndex.collectionOf r.schedule.routes t.route

theorem listAt_accept (d : Dynamic R) (r : Registration R) (collection : Ident) :
    (d.accept r).byCollection.listAt collection =
      if collection ∈ collections r then
        renewed r.configuration (d.byCollection.listAt collection)
      else d.byCollection.listAt collection := by
  rw [byCollection_accept]
  exact listAt_foldl_relist r.configuration _ _ _ _

theorem unrepeated_registerAll (rs : List (Registration R)) :
    Unrepeated (registerAll rs).routes := by
  induction rs using List.reverseRecOn with
  | nil =>
    intro id r hr
    have hnone : (registerAll ([] : List (Registration R))).routes[id]? = none :=
      Std.ExtTreeMap.getElem?_empty
    rw [hnone] at hr
    cases hr
  | append_singleton rs r ih =>
    rw [registerAll_append, routes_accept]
    exact ih.foldl _ _ _ _

theorem nodup_registerAll (rs : List (Registration R)) (collection : Ident) :
    (((registerAll rs).byCollection.listAt collection).map (·.block)).Nodup := by
  induction rs using List.reverseRecOn with
  | nil =>
    have hnone : (registerAll ([] : List (Registration R))).byCollection[collection]? = none :=
      Std.ExtTreeMap.getElem?_empty
    rw [Table.listAt, hnone]
    exact List.nodup_nil
  | append_singleton rs r ih =>
    rw [registerAll_append, listAt_accept]
    split
    · exact nodup_renewed ih
    · exact ih

/-- A list under which a block was filed at its latest registration has of the block what was
registered then. -/
theorem filter_registerAll {rs : List (Registration R)} {r : Registration R} {block : Ident}
    (hr : latest? rs block = some r) {collection : Ident} (hmem : collection ∈ collections r) :
    ((registerAll rs).byCollection.listAt collection).filter (fun c => c.block = block) =
      [r.configuration] := by
  induction rs using List.reverseRecOn with
  | nil => cases hr
  | append_singleton rs s ih =>
    rw [latest?_append] at hr
    rw [registerAll_append, listAt_accept]
    by_cases hs : s.block = block
    · rw [if_pos hs, Option.some.injEq] at hr
      subst hr
      rw [if_pos hmem, filter_renewed]
      exact if_pos hs
    · rw [if_neg hs] at hr
      have hother : ¬s.configuration.block = block := hs
      rw [apply_ite (List.filter _), filter_renewed, if_neg hother, ite_self]
      exact ih hr

/-- After any registrations, each block is shown as it was registered last, alone under its id and
as the only configuration of the block under the collection of each of its trips, as the collections
were then. No collection lists a block twice and no route a trip. -/
theorem latest_listed (rs : List (Registration R)) :
    let d := registerAll rs
    (∀ block, let latest := latest? rs block
      d.runs[block]? = latest.map (·.run) ∧
      d.byBlock[block]? = latest.map (fun r => [r.configuration]) ∧
      ∀ r ∈ latest, ∀ t ∈ r.configuration.members,
        (d.byCollection.listAt (BlockIndex.collectionOf r.schedule.routes t.route)).filter
          (fun c => c.block = block) = [r.configuration]) ∧
    (∀ collection, ((d.byCollection.listAt collection).map (·.block)).Nodup) ∧
    ∀ (id : Ident) (route : Route), d.routes[id]? = some route → route.trips.Nodup := by
  intro d
  refine ⟨fun block => ⟨runs_registerAll rs block, byBlock_registerAll rs block,
    fun r hr t ht => ?_⟩, nodup_registerAll rs, unrepeated_registerAll rs⟩
  exact filter_registerAll hr (List.mem_map_of_mem ht)

/-- A block of two trips is registered, another one of the same collection, and the first one again
with one of its trips. -/
def reducedDay : List (Registration Float) :=
  [.ofTrips "B" [shuttle "T1" "B" "X" 0, shuttle "T2" "B" "X" 60],
    .ofTrips "C" [shuttle "T3" "C" "X" 30], .ofTrips "B" [shuttle "T2" "B" "X" 90]]

theorem latest_listed_reducedDay :
    let d := registerAll reducedDay
    let r : Registration Float := .ofTrips "B" [shuttle "T2" "B" "X" 90]
    let route : Ident := ⟨"A", "R"⟩
    latest? reducedDay r.block = some r ∧ d.byBlock[r.block]? = some [r.configuration] ∧
      (d.byCollection.listAt route).filter (fun c => c.block = r.block) = [r.configuration] ∧
      (d.byCollection.listAt route).map (·.block.name) = ["C", "B"] ∧
      ∃ listed, d.routes[route]? = some listed ∧ listed.trips.Nodup ∧
        listed.trips.map (·.name) = ["T1", "T2", "T3"] := by
  intro d r route
  have hlatest : latest? reducedDay r.block = some r :=
    (latest?_append [.ofTrips "B" [shuttle "T1" "B" "X" 0, shuttle "T2" "B" "X" 60],
      .ofTrips "C" [shuttle "T3" "C" "X" 30]] r r.block).trans (if_pos rfl)
  have hcollection : BlockIndex.collectionOf r.schedule.routes route = route := by
    decide +kernel
  have htrips : d.routes[route]?.map (·.trips.map (·.name)) = some ["T1", "T2", "T3"] := by
    decide +kernel
  obtain ⟨hblocks, -, hroutes⟩ := latest_listed reducedDay
  obtain ⟨-, hblock, hlisted⟩ := hblocks r.block
  have hfilter := hlisted r hlatest _ (List.mem_singleton_self (shuttle "T2" "B" "X" 90))
  obtain ⟨listed, hroute, hnames⟩ := Option.map_eq_some_iff.1 htrips
  exact ⟨hlatest, hblock.trans (congrArg _ hlatest), hcollection ▸ hfilter, by decide +kernel,
    listed, hroute, hroutes route listed hroute, hnames⟩

end Timetable.Dynamic
