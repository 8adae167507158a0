import Mathlib.Data.List.Dedup
import Timetable.Proofs.Block.RunningOrder
import Timetable.Proofs.Table

namespace Timetable

variable {R : Type}

namespace Trip

variable {t : Trip R} {ts us : List (Trip R)}

/-- Puts a version of a trip in place of the trips of its id. -/
def replaceIn (t : Trip R) (ts : List (Trip R)) : List (Trip R) :=
  ts.map fun s => if s.id = t.id then t else s

theorem map_replaceIn {α : Type} {f : Trip R → α} (h : ∀ s ∈ ts, s.id = t.id → f s = f t) :
    (t.replaceIn ts).map f = ts.map f := by
  rw [replaceIn, List.map_map]
  apply List.map_congr_left
  intro s hs
  by_cases he : s.id = t.id
  · simp [he, h s hs he]
  · simp [he]

theorem replaceIn_eq_self (h : ∀ s ∈ ts, s.id ≠ t.id) : t.replaceIn ts = ts := by
  rw [replaceIn, List.map_congr_left fun s hs => if_neg (h s hs), List.map_id']

theorem mem_replaceIn {u : Trip R} :
    u ∈ t.replaceIn ts ↔ (u = t ∧ ∃ s ∈ ts, s.id = t.id) ∨ (u ∈ ts ∧ u.id ≠ t.id) := by
  rw [replaceIn, List.mem_map]
  constructor
  · rintro ⟨s, hs, rfl⟩
    by_cases h : s.id = t.id
    · exact .inl ⟨if_pos h, s, hs, h⟩
    · rw [if_neg h]
      exact .inr ⟨hs, h⟩
  · rintro (⟨rfl, s, hs, h⟩ | ⟨hu, h⟩)
    · exact ⟨s, hs, if_pos h⟩
    · exact ⟨u, hu, if_neg h⟩

theorem filter_replaceIn {p : Trip R → Bool} (h : ∀ s ∈ ts, s.id = t.id → p s = p t) :
    (t.replaceIn ts).filter p = t.replaceIn (ts.filter p) := by
  rw [replaceIn, List.filter_map, replaceIn]
  congr 1
  apply List.filter_congr
  intro s hs
  by_cases he : s.id = t.id
  · simp [he, h s hs he]
  · simp [he]

end Trip

namespace ServiceSet

@[simp] theorem search_nil (i : Ident) : search i [] = false := by
  rw [search]
  rfl

@[simp] theorem search_singleton (i s : Ident) : search i [s] = decide (i = s) := by
  rw [search]
  split
  · next h => simp at h
  · next middle upper h =>
    simp only [List.length_singleton, Nat.reduceDiv, List.drop_zero, List.cons.injEq] at h
    obtain ⟨rfl, rfl⟩ := h
    simp only [List.length_singleton, Nat.reduceDiv, List.take_zero, search_nil]
    cases hc : compare i s with
    | eq => simp [Std.LawfulEqOrd.eq_of_compare hc]
    | lt =>
      have hne : i ≠ s := fun he => by simp [he] at hc
      simp [hne]
    | gt =>
      have hne : i ≠ s := fun he => by simp [he] at hc
      simp [hne]

@[simp] theorem contains_single {i s : Ident} : (single s).contains i ↔ i = s := by
  simp [contains, single]

theorem single_injective {i s : Ident} (h : single i = single s) : i = s := by
  cases h
  rfl

end ServiceSet

namespace Configuration

variable {block service i : Ident} {ts us : List (Trip R)} {t : Trip R} {c : Configuration R}

theorem hasTrip_iff : c.hasTrip i ↔ ∃ t ∈ c.members, t.id = i := by
  simp [hasTrip, members]

variable [Zero R]

/-- The configuration that those of a block's trips form that run under a service. -/
def under? (block : Ident) (ts : List (Trip R)) (service : Ident) : Option (Configuration R) :=
  build? block (.single service) [] (ts.filter fun t => t.service = service)

@[simp] theorem under?_eq_none :
    under? block ts service = none ↔ ∀ t ∈ ts, t.service ≠ service := by
  simp [under?, build?_eq_none, List.filter_eq_nil_iff]

theorem under?_perm (h : ts.Perm us) (hn : (ts.map (·.id)).Nodup) :
    under? block ts service = under? block us service :=
  build?_perm (h.filter _) (hn.sublist (List.filter_sublist.map _))

theorem services_of_under? (h : under? block ts service = some c) :
    c.services = .single service :=
  services_of_build? h

theorem mem_members_under? (h : under? block ts service = some c) :
    t ∈ c.members ↔ t ∈ ts ∧ t.service = service := by
  rw [(members_perm h).mem_iff, List.mem_filter, decide_eq_true_eq]

theorem withTrips?_under? (h : under? block ts service = some c) (us : List (Trip R)) :
    c.withTrips? us = build? block (.single service) [] us := by
  rw [(ungapped_of_build? h).withTrips?, block_of_build? h, services_of_build? h]

theorem adding_under? (h : under? block ts service = some c) (ht : t.service = service)
    (hn : ((ts ++ [t]).map (·.id)).Nodup) :
    under? block (ts ++ [t]) service = some (c.adding t) := by
  have hfilter : (ts ++ [t]).filter (fun t => t.service = service) =
      ts.filter (fun t => t.service = service) ++ [t] := by
    simp [List.filter_append, ht]
  have hperm : ((ts ++ [t]).filter fun t => t.service = service).Perm (c.members ++ [t]) := by
    rw [hfilter]
    exact (members_perm h).symm.append_right [t]
  have hnodup := hn.sublist ((List.filter_sublist (p := fun t : Trip R => t.service = service)).map
    (·.id))
  rw [adding, withTrips?_under? h, under?, build?_perm hperm hnodup]
  exact (some_getD_build? (by simp) c).symm

theorem removing?_under? (h : under? block ts service = some c) (hn : (ts.map (·.id)).Nodup)
    (i : Ident) :
    c.removing? i = under? block (ts.filter fun t => t.id ≠ i) service := by
  rw [removing?, withTrips?_under? h, under?, List.filter_comm]
  apply build?_perm ((members_perm h).filter _)
  have hmembers := ((members_perm h).map (·.id)).nodup_iff.2
    (hn.sublist (List.filter_sublist.map _))
  exact hmembers.sublist (List.filter_sublist.map _)

theorem replacing_under? (h : under? block ts service = some c) (hn : (ts.map (·.id)).Nodup)
    (ht : ∀ s ∈ ts, s.id = t.id → s.service = t.service) :
    under? block (t.replaceIn ts) service = some (c.replacing t) := by
  have hfilter : (t.replaceIn ts).filter (fun t => t.service = service) =
      t.replaceIn (ts.filter fun t => t.service = service) := by
    apply Trip.filter_replaceIn
    intro s hs he
    rw [ht s hs he]
  have hperm : ((t.replaceIn ts).filter fun t => t.service = service).Perm
      (t.replaceIn c.members) := by
    rw [hfilter]
    exact ((members_perm h).symm.map _)
  have hnodup : (((t.replaceIn ts).filter fun t => t.service = service).map (·.id)).Nodup := by
    rw [hfilter, Trip.map_replaceIn fun _ _ he => he]
    exact hn.sublist (List.filter_sublist.map _)
  rw [replacing, withTrips?_under? h, under?, build?_perm hperm hnodup]
  refine (some_getD_build? (fun hnil => ?_) c).symm
  exact members_ne_nil h (List.map_eq_nil_iff.1 hnil)

@[simp] theorem services_replacing (c : Configuration R) (t : Trip R) :
    (c.replacing t).services = c.services := by
  rw [replacing]
  cases h : c.withTrips? (c.members.map fun s => if s.id = t.id then t else s) with
  | none => rfl
  | some d => exact services_of_build? h

theorem under?_append_of_ne (h : t.service ≠ service) :
    under? block (ts ++ [t]) service = under? block ts service := by
  simp [under?, List.filter_append, h]

@[simp] theorem under?_singleton (t : Trip R) :
    under? t.block [t] t.service = some (.ofTrip t) := by
  simp [under?, build?, ofTrip, gapOf]

theorem leave_under? (hn : (ts.map (·.id)).Nodup) (i service : Ident) :
    ((under? block ts service).bind fun c => if c.hasTrip i then c.removing? i else some c) =
      under? block (ts.filter fun t => t.id ≠ i) service := by
  cases h : under? block ts service with
  | none =>
    rw [under?_eq_none] at h
    exact (under?_eq_none.2 fun t ht => h t (List.mem_filter.1 ht).1).symm
  | some c =>
    rw [Option.bind_some]
    split
    · exact removing?_under? h hn i
    · next hi =>
      rw [hasTrip_iff] at hi
      rw [← h, under?, under?, List.filter_comm]
      congr 1
      refine (List.filter_eq_self.2 fun t ht => ?_).symm
      rw [List.mem_filter, decide_eq_true_eq] at ht
      exact decide_eq_true fun he => hi ⟨t, (mem_members_under? h).2 ht, he⟩

theorem replace_under? (hn : (ts.map (·.id)).Nodup)
    (ht : ∀ s ∈ ts, s.id = t.id → s.service = t.service) (service : Ident) :
    ((under? block ts service).map fun c => if c.hasTrip t.id then c.replacing t else c) =
      under? block (t.replaceIn ts) service := by
  cases h : under? block ts service with
  | none =>
    rw [under?_eq_none] at h
    refine (under?_eq_none.2 fun u hu => ?_).symm
    rcases Trip.mem_replaceIn.1 hu with ⟨rfl, s, hs, he⟩ | ⟨hu, _⟩
    · rw [← ht s hs he]
      exact h s hs
    · exact h u hu
  | some c =>
    rw [Option.map_some]
    split
    · exact (replacing_under? h hn ht).symm
    · next hi =>
      rw [hasTrip_iff] at hi
      rw [← h, under?, under?, Trip.filter_replaceIn fun s hs he => by rw [ht s hs he]]
      rw [Trip.replaceIn_eq_self]
      intro s hs he
      rw [List.mem_filter, decide_eq_true_eq] at hs
      exact hi ⟨s, (mem_members_under? h).2 hs, he⟩

end Configuration

namespace Block

variable [Zero R] {id : Ident} {services : List Ident} {ts us : List (Trip R)} {t : Trip R}
  {b : Block R}

/-- The block of some trips: for each listed service the configuration of the trips under it. -/
def grouped (id : Ident) (services : List Ident) (ts : List (Trip R)) : Block R :=
  { id, configurations := services.filterMap (Configuration.under? id ts) }

theorem grouped_perm (h : ts.Perm us) (hn : (ts.map (·.id)).Nodup) :
    grouped id services ts = grouped id services us := by
  have hunder : Configuration.under? id ts = Configuration.under? id us :=
    funext fun _ => Configuration.under?_perm h hn
  rw [grouped, grouped, hunder]

theorem grouped_filter (id : Ident) (services : List Ident) (ts : List (Trip R)) :
    grouped id (services.filter fun s => s ∈ ts.map (·.service)) ts = grouped id services ts := by
  rw [grouped, List.filterMap_filter, grouped]
  congr 1
  apply List.filterMap_congr
  intro s _
  split
  · rfl
  · next h =>
    refine (Configuration.under?_eq_none.2 fun t ht he => h ?_).symm
    exact decide_eq_true (List.mem_map.2 ⟨t, ht, he⟩)

theorem any_grouped {service : Ident}
    (hs : ∀ s, s ∈ services ↔ ∃ t ∈ ts, t.service = s) :
    ((grouped id services ts).configurations.any fun c => c.services.contains service) ↔
      service ∈ services := by
  rw [List.any_eq_true]
  constructor
  · rintro ⟨c, hc, hservice⟩
    obtain ⟨s, hmem, hu⟩ := List.mem_filterMap.1 hc
    rw [Configuration.services_of_under? hu, ServiceSet.contains_single] at hservice
    rwa [hservice]
  · intro hmem
    cases hu : Configuration.under? id ts service with
    | none =>
      obtain ⟨t, ht, he⟩ := (hs service).1 hmem
      exact (Configuration.under?_eq_none.1 hu t ht he).elim
    | some c =>
      refine ⟨c, List.mem_filterMap.2 ⟨service, hmem, hu⟩, ?_⟩
      simp [Configuration.services_of_under? hu]

theorem join_grouped (hs : ∀ s, s ∈ services ↔ ∃ t ∈ ts, t.service = s)
    (hn : ((ts ++ [t]).map (·.id)).Nodup) (ht : t.service ∈ services) :
    (grouped id services ts).join t = grouped id services (ts ++ [t]) := by
  rw [join, if_pos ((any_grouped hs).2 ht), grouped, grouped]
  congr 1
  rw [List.map_filterMap]
  apply List.filterMap_congr
  intro s hmem
  cases hu : Configuration.under? id ts s with
  | none =>
    obtain ⟨u, hu', he⟩ := (hs s).1 hmem
    exact (Configuration.under?_eq_none.1 hu u hu' he).elim
  | some c =>
    rw [Option.map_some]
    by_cases he : t.service = s
    · rw [if_pos, Configuration.adding_under? hu he hn]
      simp [Configuration.services_of_under? hu, he]
    · rw [if_neg, Configuration.under?_append_of_ne he, hu]
      rw [Configuration.services_of_under? hu, ServiceSet.contains_single]
      exact he

theorem join_grouped_new (hs : ∀ s, s ∈ services ↔ ∃ t ∈ ts, t.service = s)
    (hb : t.block = id) (ht : t.service ∉ services) :
    (grouped id services ts).join t = grouped id (services ++ [t.service]) (ts ++ [t]) := by
  have hnone : ts.filter (fun u => u.service = t.service) = [] := by
    rw [List.filter_eq_nil_iff]
    intro u hu he
    exact ht ((hs t.service).2 ⟨u, hu, of_decide_eq_true he⟩)
  have hnew : Configuration.under? id (ts ++ [t]) t.service = some (.ofTrip t) := by
    rw [← Configuration.under?_singleton, hb, Configuration.under?, List.filter_append, hnone]
    rfl
  rw [join, if_neg (fun h => ht ((any_grouped hs).1 h)), grouped, grouped]
  congr 1
  rw [List.filterMap_append, List.filterMap_cons, hnew]
  congr 1
  apply List.filterMap_congr
  intro s hmem
  exact (Configuration.under?_append_of_ne fun he => ht (he ▸ hmem)).symm

/-- Blocks that keep exactly the given trips, in one configuration for each of their services. -/
def Groups (id : Ident) (ts : List (Trip R)) (b : Block R) : Prop :=
  ∃ services : List Ident, services.Nodup ∧ (∀ s, s ∈ services ↔ ∃ t ∈ ts, t.service = s) ∧
    b = grouped id services ts

/-- What has to stand under the id of a block with the given trips: no block without trips. -/
def Reflects (id : Ident) (ts : List (Trip R)) : Option (Block R) → Prop
  | none => ts = []
  | some b => ts ≠ [] ∧ b.Groups id ts

theorem Reflects.perm {o : Option (Block R)} (h : Reflects id ts o) (hp : ts.Perm us)
    (hn : (ts.map (·.id)).Nodup) : Reflects id us o := by
  cases o with
  | none =>
    rw [Reflects] at h
    rw [h] at hp
    exact hp.nil_eq.symm
  | some b =>
    obtain ⟨hne, services, hnodup, hs, he⟩ := h
    have hnil : us ≠ [] := fun hus => hne (hus ▸ hp).eq_nil
    refine ⟨hnil, services, hnodup, fun s => ?_, ?_⟩
    · rw [hs]
      exact exists_congr fun t => and_congr_left fun _ => hp.mem_iff
    · rw [he, grouped_perm hp hn]

theorem Reflects.join {o : Option (Block R)} (h : Reflects id ts o) (hb : t.block = id)
    (hn : ((ts ++ [t]).map (·.id)).Nodup) :
    Reflects id (ts ++ [t]) (some (o.elim (.ofTrip t) (·.join t))) := by
  refine ⟨by simp, ?_⟩
  cases o with
  | none =>
    rw [Reflects] at h
    subst h
    refine ⟨[t.service], List.nodup_singleton _, by simp [eq_comm], ?_⟩
    rw [grouped, List.nil_append, List.filterMap_cons, ← hb, Configuration.under?_singleton]
    rfl
  | some b =>
    obtain ⟨_, services, hnodup, hs, rfl⟩ := h
    have hs' (s : Ident) :
        (∃ u ∈ ts ++ [t], u.service = s) ↔ s ∈ services ∨ t.service = s := by
      simp [hs, or_and_right, exists_or]
    by_cases ht : t.service ∈ services
    · refine ⟨services, hnodup, fun s => ?_, join_grouped hs hn ht⟩
      rw [hs']
      exact ⟨.inl, fun h => h.elim (fun hmem => hmem) fun he => he ▸ ht⟩
    · refine ⟨services ++ [t.service], ?_, fun s => ?_, join_grouped_new hs hb ht⟩
      · exact List.nodup_append.2 ⟨hnodup, List.nodup_singleton _, by
          intro s hs s' hs' he
          rw [List.mem_singleton] at hs'
          exact ht (hs' ▸ he ▸ hs)⟩
      · rw [hs', List.mem_append, List.mem_singleton, eq_comm (a := s)]

theorem leave?_grouped (hn : (ts.map (·.id)).Nodup) (i : Ident) :
    (grouped id services ts).leave? i =
      match (grouped id services (ts.filter fun t => t.id ≠ i)).configurations with
      | [] => none
      | cs => some { id, configurations := cs } := by
  have hcs : ((grouped id services ts).configurations.filterMap fun c =>
      if c.hasTrip i then c.removing? i else some c) =
      (grouped id services (ts.filter fun t => t.id ≠ i)).configurations := by
    rw [grouped, List.filterMap_filterMap, grouped]
    exact List.filterMap_congr fun s _ => Configuration.leave_under? hn i s
  rw [leave?, hcs]
  rfl

theorem Groups.leave (h : b.Groups id ts) (hn : (ts.map (·.id)).Nodup) (i : Ident) :
    Reflects id (ts.filter fun t => t.id ≠ i) (b.leave? i) := by
  obtain ⟨services, hnodup, hs, rfl⟩ := h
  rw [leave?_grouped hn]
  cases hcs : (grouped id services (ts.filter fun t => t.id ≠ i)).configurations with
  | nil =>
    -- no configuration is left, and every trip that stays would have one
    rw [grouped, List.filterMap_eq_nil_iff] at hcs
    rw [Reflects, List.eq_nil_iff_forall_not_mem]
    intro t ht
    have hservice := (hs t.service).2 ⟨t, (List.mem_filter.1 ht).1, rfl⟩
    exact Configuration.under?_eq_none.1 (hcs _ hservice) t ht rfl
  | cons c cs =>
    refine ⟨fun hnil => ?_, services.filter fun s =>
      s ∈ (ts.filter fun t => t.id ≠ i).map (·.service), hnodup.filter _, fun s => ?_, ?_⟩
    · have hnone : services.filterMap (Configuration.under? id ([] : List (Trip R))) = [] :=
        List.filterMap_eq_nil_iff.2 fun _ _ => rfl
      rw [hnil, grouped, hnone] at hcs
      cases hcs
    · rw [List.mem_filter, hs, decide_eq_true_eq, List.mem_map]
      refine and_iff_right_of_imp ?_
      rintro ⟨t, ht, he⟩
      exact ⟨t, (List.mem_filter.1 ht).1, he⟩
    · rw [grouped_filter, ← hcs]
      rfl

theorem replace_grouped (hn : (ts.map (·.id)).Nodup)
    (ht : ∀ s ∈ ts, s.id = t.id → s.service = t.service) :
    (grouped id services ts).replace t = grouped id services (t.replaceIn ts) := by
  rw [replace, grouped, grouped, List.map_filterMap]
  congr 1
  exact List.filterMap_congr fun s _ => Configuration.replace_under? hn ht s

theorem Reflects.replace {o : Option (Block R)} (h : Reflects id ts o)
    (hn : (ts.map (·.id)).Nodup) (ht : ∀ s ∈ ts, s.id = t.id → s.service = t.service) :
    Reflects id (t.replaceIn ts) (o.map (·.replace t)) := by
  cases o with
  | none =>
    rw [Reflects] at h
    rw [h]
    rfl
  | some b =>
    obtain ⟨hne, services, hnodup, hs, rfl⟩ := h
    rw [Option.map_some]
    refine ⟨fun hnil => hne (List.map_eq_nil_iff.1 hnil), services, hnodup, fun s => ?_,
      replace_grouped hn ht⟩
    rw [hs, ← List.mem_map, ← List.mem_map, Trip.map_replaceIn fun u hu he => ht u hu he]

theorem Groups.id_eq (h : b.Groups id ts) : b.id = id := by
  obtain ⟨_, _, _, rfl⟩ := h
  rfl

theorem some_configurations_grouped (hs : ∀ s ∈ services, ∃ t ∈ ts, t.service = s) :
    (grouped id services ts).configurations.map some =
      services.map (Configuration.under? id ts) := by
  rw [grouped]
  induction services with
  | nil => rfl
  | cons s services ih =>
    obtain ⟨hfirst, hrest⟩ := List.forall_mem_cons.1 hs
    have hne : Configuration.under? id ts s ≠ none := by
      intro hnone
      obtain ⟨t, ht, he⟩ := hfirst
      exact Configuration.under?_eq_none.1 hnone t ht he
    obtain ⟨c, hc⟩ := Option.ne_none_iff_exists'.1 hne
    rw [List.filterMap_cons_some hc, List.map_cons, ih hrest, List.map_cons, hc]

theorem Groups.configurations_perm (h : b.Groups id ts) :
    (b.configurations.map some).Perm
      ((ts.map (·.service)).dedup.map (Configuration.under? id ts)) := by
  obtain ⟨services, hnodup, hs, rfl⟩ := h
  rw [some_configurations_grouped fun s hmem => (hs s).1 hmem]
  apply List.Perm.map
  apply (List.perm_ext_iff_of_nodup hnodup (List.nodup_dedup _)).2
  intro s
  rw [hs, List.mem_dedup, List.mem_map]

/-- The configurations of a block have its trips among them, each in one place. -/
theorem Groups.members_perm (h : b.Groups id ts) :
    (b.configurations.flatMap (·.members)).Perm ts := by
  obtain ⟨services, hnodup, hs, rfl⟩ := h
  have hsplit : ((grouped id services ts).configurations.flatMap (·.members)).Perm
      (services.flatMap fun s => ts.filter fun t => t.service = s) := by
    clear hnodup hs
    rw [grouped]
    induction services with
    | nil => exact .refl _
    | cons s services ih =>
      cases hu : Configuration.under? id ts s with
      | none =>
        have hnil : ts.filter (fun t => t.service = s) = [] := Configuration.build?_eq_none.1 hu
        rw [List.filterMap_cons_none hu, List.flatMap_cons, hnil]
        exact ih
      | some c =>
        rw [List.filterMap_cons_some hu, List.flatMap_cons, List.flatMap_cons]
        exact (Configuration.members_perm hu).append ih
  exact hsplit.trans
    (Table.flatMap_filter_perm (·.service) hnodup fun t ht => (hs t.service).2 ⟨t, ht, rfl⟩)

def outline (b : Block R) : List ServiceSet := b.configurations.map (·.services)

@[simp] theorem outline_replace (b : Block R) (t : Trip R) : (b.replace t).outline = b.outline := by
  rw [outline, replace, List.map_map, outline]
  apply List.map_congr_left
  intro c _
  rw [Function.comp_apply]
  split
  · exact Configuration.services_replacing c t
  · rfl

theorem outline_grouped (hs : ∀ s ∈ services, ∃ t ∈ ts, t.service = s) :
    (grouped id services ts).outline = services.map .single := by
  rw [outline, grouped, List.map_filterMap, ← List.filterMap_eq_map]
  apply List.filterMap_congr
  intro s hmem
  obtain ⟨t, ht, he⟩ := hs s hmem
  cases hu : Configuration.under? id ts s with
  | none => exact (Configuration.under?_eq_none.1 hu t ht he).elim
  | some c =>
    rw [Option.map_some, Configuration.services_of_under? hu]
    rfl

/-- The trips of a block and the order of their services determine the block. -/
theorem Groups.eq_of_outline {c : Block R} (hb : b.Groups id ts) (hc : c.Groups id ts)
    (h : b.outline = c.outline) : b = c := by
  obtain ⟨services, _, hs, rfl⟩ := hb
  obtain ⟨services', _, hs', rfl⟩ := hc
  rw [outline_grouped fun s => (hs s).1, outline_grouped fun s => (hs' s).1] at h
  have hservices : services = services' :=
    List.map_injective_iff.2 (fun _ _ => ServiceSet.single_injective) h
  rw [hservices]

end Block

end Timetable
