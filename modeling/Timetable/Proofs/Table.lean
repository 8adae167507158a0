import Mathlib.Data.List.Induction
import Mathlib.Data.List.Nodup
import Mathlib.Data.List.Perm.Basic
import Timetable.Table

namespace Timetable.Table

variable {K V W : Type} [Ord K] [Std.TransOrd K]

theorem values_eq_map (t : Table K V) : t.values = t.toList.map (·.2) := by
  have hfold : t.values = t.foldr (fun _ v vs => v :: vs) [] := by
    obtain ⟨⟨q⟩⟩ := t
    induction q using Quotient.inductionOn with
    | h => rfl
  rw [hfold, Std.ExtTreeMap.foldr_eq_foldr_toList]
  induction t.toList with
  | nil => rfl
  | cons e es ih => rw [List.foldr_cons, ih, List.map_cons]

@[simp] theorem values_map (f : V → W) (t : Table K V) :
    (t.map fun _ => f).values = t.values.map f := by
  simp only [values_eq_map, Std.ExtTreeMap.toList_map, List.map_map]
  rfl

theorem ofEntries_concat (entries : List (K × V)) (e : K × V) :
    ofEntries (entries ++ [e]) = (ofEntries entries).insert e.1 e.2 := by
  rw [ofEntries, List.foldl_append]
  rfl

variable {t : Table K V} {k : K} {v : V}

theorem mem_of_getElem? (h : t[k]? = some v) : k ∈ t := (getElem?_eq_some_iff.1 h).1

theorem exists_of_mem (h : k ∈ t) : ∃ v, t[k]? = some v := ⟨t[k], getElem?_pos t k h⟩

/-- Every entry is filed under the key that it names itself. -/
def KeyedBy (key : V → K) (t : Table K V) : Prop := ∀ k v, t[k]? = some v → key v = k

theorem KeyedBy.empty {key : V → K} : KeyedBy key (∅ : Table K V) := by
  intro k v h
  simp at h

theorem KeyedBy.erase {key : V → K} (ht : KeyedBy key t) : KeyedBy key (t.erase k) := by
  intro l w h
  rw [Std.ExtTreeMap.getElem?_erase] at h
  split at h
  · cases h
  · exact ht l w h

variable [Std.LawfulEqOrd K]

@[simp] theorem getElem?_insert [DecidableEq K] (t : Table K V) (k l : K) (v : V) :
    (t.insert k v)[l]? = if k = l then some v else t[l]? := by
  rw [Std.ExtTreeMap.getElem?_insert]
  simp only [Std.LawfulEqCmp.compare_eq_iff_eq]

@[simp] theorem getElem?_erase [DecidableEq K] (t : Table K V) (k l : K) :
    (t.erase k)[l]? = if k = l then none else t[l]? := by
  rw [Std.ExtTreeMap.getElem?_erase]
  simp only [Std.LawfulEqCmp.compare_eq_iff_eq]

@[simp] theorem mem_insert_iff {l : K} : l ∈ t.insert k v ↔ k = l ∨ l ∈ t := by
  rw [Std.ExtTreeMap.mem_insert, Std.LawfulEqCmp.compare_eq_iff_eq]

theorem mem_insert_of_mem {l : K} (h : k ∈ t) : l ∈ t.insert k v ↔ l ∈ t := by
  rw [mem_insert_iff]
  apply or_iff_right_of_imp
  rintro rfl
  exact h

theorem mem_ofEntries {entries : List (K × V)} :
    k ∈ ofEntries entries ↔ ∃ e ∈ entries, e.1 = k := by
  induction entries using List.reverseRecOn with
  | nil => simp [ofEntries]
  | append_singleton entries e ih =>
    rw [ofEntries_concat, mem_insert_iff, ih]
    simp [or_comm]

@[simp] theorem mem_values : v ∈ t.values ↔ ∃ k : K, t[k]? = some v := by
  rw [values_eq_map, List.mem_map]
  constructor
  · rintro ⟨⟨k, v⟩, he, rfl⟩
    exact ⟨k, Std.ExtTreeMap.mem_toList_iff_getElem?_eq_some.1 he⟩
  · rintro ⟨k, h⟩
    exact ⟨(k, v), Std.ExtTreeMap.mem_toList_iff_getElem?_eq_some.2 h, rfl⟩

theorem nodup_toList (t : Table K V) : t.toList.Nodup :=
  (Std.ExtTreeMap.distinct_keys_toList (t := t)).imp fun hne he => by
    subst he
    exact hne Std.compare_self

theorem values_insert_perm (v : V) (h : t[k]? = none) :
    (t.insert k v).values.Perm (v :: t.values) := by
  have hnew : (k, v) ∉ t.toList := by
    rw [Std.ExtTreeMap.mem_toList_iff_getElem?_eq_some, h]
    simp
  have hlist : (t.insert k v).toList.Perm ((k, v) :: t.toList) := by
    apply (List.perm_ext_iff_of_nodup (nodup_toList _) (List.nodup_cons.2 ⟨hnew, nodup_toList _⟩)).2
    rintro ⟨l, w⟩
    rw [List.mem_cons, Std.ExtTreeMap.mem_toList_iff_getElem?_eq_some,
      Std.ExtTreeMap.mem_toList_iff_getElem?_eq_some, Std.ExtTreeMap.getElem?_insert]
    by_cases he : k = l
    · subst he
      simp [h, eq_comm]
    · simp [he, Ne.symm he]
  simpa only [values_eq_map, List.map_cons] using hlist.map (·.2)

@[simp] theorem insert_erase (t : Table K V) (k : K) (v : V) :
    (t.erase k).insert k v = t.insert k v := by
  apply Std.ExtTreeMap.ext_getElem?
  intro l
  by_cases h : k = l <;> simp [Std.ExtTreeMap.getElem?_insert, Std.ExtTreeMap.getElem?_erase, h]

@[simp] theorem insert_insert (t : Table K V) (k : K) (v w : V) :
    (t.insert k v).insert k w = t.insert k w := by
  apply Std.ExtTreeMap.ext_getElem?
  intro l
  by_cases h : k = l <;> simp [Std.ExtTreeMap.getElem?_insert, h]

theorem erase_eq_self (h : t[k]? = none) : t.erase k = t := by
  apply Std.ExtTreeMap.ext_getElem?
  intro l
  rw [Std.ExtTreeMap.getElem?_erase]
  by_cases he : k = l
  · subst he
    simp [h]
  · simp [he]

theorem insert_self (h : t[k]? = some v) : t.insert k v = t := by
  apply Std.ExtTreeMap.ext_getElem?
  intro l
  rw [Std.ExtTreeMap.getElem?_insert]
  by_cases he : k = l
  · subst he
    simp [h]
  · simp [he]

theorem values_insert_perm_erase (t : Table K V) (k : K) (v : V) :
    (t.insert k v).values.Perm (v :: (t.erase k).values) := by
  rw [← insert_erase]
  exact values_insert_perm v (by simp)

theorem values_perm_erase (h : t[k]? = some v) : t.values.Perm (v :: (t.erase k).values) := by
  conv => lhs; rw [← insert_self h]
  exact values_insert_perm_erase t k v

namespace KeyedBy

variable {key : V → K}

theorem insert (ht : KeyedBy key t) (hv : key v = k) : KeyedBy key (t.insert k v) := by
  intro l w h
  rw [Std.ExtTreeMap.getElem?_insert] at h
  by_cases he : k = l
  · simp only [he, Std.compare_self, if_true, Option.some.injEq] at h
    rw [← h, hv, he]
  · exact ht l w (by simpa [he] using h)

theorem map (ht : KeyedBy key t) {f : V → V} (hf : ∀ v, key (f v) = key v) :
    KeyedBy key (t.map fun _ => f) := by
  intro l w h
  rw [Std.ExtTreeMap.getElem?_map, Option.map_eq_some_iff] at h
  obtain ⟨v, hv, rfl⟩ := h
  rw [hf]
  exact ht l v hv

theorem mem_values (ht : KeyedBy key t) : v ∈ t.values ↔ t[key v]? = some v := by
  rw [Table.mem_values]
  constructor
  · rintro ⟨k, h⟩
    rwa [ht k v h]
  · exact fun h => ⟨_, h⟩

theorem map_values (ht : KeyedBy key t) : t.values.map key = t.keys := by
  rw [values_eq_map, List.map_map, ← Std.ExtTreeMap.map_fst_toList_eq_keys]
  apply List.map_congr_left
  rintro ⟨k, v⟩ h
  exact ht k v (Std.ExtTreeMap.mem_toList_iff_getElem?_eq_some.1 h)

theorem nodup_values (ht : KeyedBy key t) : (t.values.map key).Nodup := by
  rw [ht.map_values]
  exact Std.ExtTreeMap.nodup_keys

theorem values_erase_perm [DecidableEq K] (ht : KeyedBy key t) (k : K) :
    (t.erase k).values.Perm (t.values.filter fun v => key v ≠ k) := by
  have hkeep : (t.erase k).values.filter (fun v => key v ≠ k) = (t.erase k).values := by
    rw [List.filter_eq_self]
    intro v hv
    rw [ht.erase.mem_values, Std.ExtTreeMap.getElem?_erase] at hv
    exact decide_eq_true fun he => by simp [he] at hv
  cases h : t[k]? with
  | none =>
    rw [erase_eq_self h] at hkeep ⊢
    rw [hkeep]
  | some v =>
    have hperm := (values_perm_erase h).filter fun v => key v ≠ k
    rw [List.filter_cons_of_neg (by simp [ht k v h]), hkeep] at hperm
    exact hperm.symm

end KeyedBy

@[simp] theorem listAt_map (f : V → W) (t : Table K (List V)) (k : K) :
    listAt (t.map fun _ => List.map f) k = (t.listAt k).map f := by
  simp only [listAt, Std.ExtTreeMap.getElem?_map]
  cases t[k]? <;> rfl

theorem map_push (f : V → W) (t : Table K (List V)) (k : K) (v : V) :
    (t.push k v).map (fun _ => List.map f) = push (t.map fun _ => List.map f) k (f v) := by
  apply Std.ExtTreeMap.ext_getElem?
  intro l
  simp only [push, Std.ExtTreeMap.getElem?_map, Std.ExtTreeMap.getElem?_insert, listAt_map]
  split
  · simp
  · rfl

theorem map_group (f : V → W) (keys : V → List K) (keys' : W → List K) {vs : List V}
    (h : ∀ v ∈ vs, keys' (f v) = keys v) :
    (group keys vs).map (fun _ => List.map f) = group keys' (vs.map f) := by
  have hpushes (ks : List K) (v : V) (t : Table K (List V)) :
      (ks.foldl (fun t k => t.push k v) t).map (fun _ => List.map f) =
        ks.foldl (fun t k => push t k (f v)) (t.map fun _ => List.map f) := by
    induction ks generalizing t with
    | nil => rfl
    | cons k ks ih => rw [List.foldl_cons, ih, map_push, List.foldl_cons]
  have hfold (t : Table K (List V)) :
      (vs.foldl (fun t v => (keys v).foldl (fun t k => t.push k v) t) t).map
          (fun _ => List.map f) =
        (vs.map f).foldl (fun t w => (keys' w).foldl (fun t k => push t k w) t)
          (t.map fun _ => List.map f) := by
    induction vs generalizing t with
    | nil => rfl
    | cons v vs ih =>
      rw [List.foldl_cons, ih fun w hw => h w (List.mem_cons_of_mem v hw), hpushes, List.map_cons,
        List.foldl_cons, h v List.mem_cons_self]
  have hempty : (∅ : Table K (List V)).map (fun _ => List.map f) = ∅ := by
    apply Std.ExtTreeMap.ext_getElem?
    intro k
    simp
  rw [group, hfold, hempty, group]

/-- Sorting by keys that differ gives the one list in which the keys increase. -/
theorem mergeSort_eq_of_perm (key : V → K) {vs ws : List V} (hperm : vs.Perm ws)
    (hws : ws.Pairwise fun v w => compare (key v) (key w) = .lt) :
    vs.mergeSort (fun v w => (compare (key v) (key w)).isLE) = ws := by
  have hnodup : (ws.map key).Nodup := by
    rw [List.nodup_iff_pairwise_ne, List.pairwise_map]
    apply hws.imp
    intro v w hlt he
    rw [he, Std.compare_self] at hlt
    cases hlt
  have hsorted : (vs.mergeSort fun v w => (compare (key v) (key w)).isLE).Pairwise
      fun v w => (compare (key v) (key w)).isLE := by
    apply List.pairwise_mergeSort
    · exact fun _ _ _ => Std.TransOrd.isLE_trans
    · intro v w
      rw [Std.OrientedOrd.eq_swap (a := key w) (b := key v)]
      cases compare (key v) (key w) <;> rfl
  have hsort := (List.mergeSort_perm vs fun v w => (compare (key v) (key w)).isLE).trans hperm
  apply hsort.eq_of_pairwise _ hsorted (hws.imp fun hlt => by rw [hlt]; rfl)
  intro v w hv hw hvw hwv
  apply List.inj_on_of_nodup_map hnodup (hsort.mem_iff.1 hv) hw
  exact Std.LawfulEqOrd.eq_of_compare (Std.OrientedCmp.isLE_antisymm hvw hwv)

omit [Std.LawfulEqOrd K] in
theorem group_concat (key : V → K) (vs : List V) (v : V) :
    group (fun v => [key v]) (vs ++ [v]) = (group (fun v => [key v]) vs).push (key v) v := by
  rw [group, List.foldl_append, ← group]
  rfl

section Groups

variable [DecidableEq K]

theorem listAt_group_keys (keys : V → List K) {vs : List V} (h : ∀ v ∈ vs, (keys v).Nodup)
    (k : K) : (group keys vs).listAt k = vs.filter fun v => k ∈ keys v := by
  have hpushes (v : V) (ks : List K) (hks : ks.Nodup) (t : Table K (List V)) :
      (ks.foldl (fun t k => t.push k v) t).listAt k =
        t.listAt k ++ if k ∈ ks then [v] else [] := by
    induction ks generalizing t with
    | nil => exact (List.append_nil _).symm
    | cons l ks ih =>
      obtain ⟨hl, hks⟩ := List.nodup_cons.1 hks
      rw [List.foldl_cons, ih hks, listAt_push]
      by_cases he : l = k
      · subst he
        simp [hl]
      · simp [he, Ne.symm he]
  induction vs using List.reverseRecOn with
  | nil =>
    rw [group, List.foldl_nil, listAt, Std.ExtTreeMap.getElem?_empty]
    rfl
  | append_singleton vs v ih =>
    have hgroup : group keys (vs ++ [v]) =
        (keys v).foldl (fun t k => t.push k v) (group keys vs) := by
      rw [group, List.foldl_append, ← group]
      rfl
    rw [hgroup, hpushes v (keys v) (h v (by simp)), ih fun w hw => h w (by simp [hw]),
      List.filter_append]
    by_cases hk : k ∈ keys v <;> simp [hk]

theorem listAt_group (key : V → K) (vs : List V) (k : K) :
    (group (fun v => [key v]) vs).listAt k = vs.filter fun v => key v = k := by
  rw [listAt_group_keys (fun v => [key v]) fun v _ => List.nodup_singleton (key v)]
  simp only [List.mem_singleton, eq_comm]

theorem getElem?_group (key : V → K) (vs : List V) (k : K) (ws : List V) :
    (group (fun v => [key v]) vs)[k]? = some ws ↔
      ws ≠ [] ∧ (vs.filter fun v => key v = k) = ws := by
  have hne : (group (fun v => [key v]) vs)[k]? ≠ some [] := by
    induction vs using List.reverseRecOn with
    | nil => simp [group]
    | append_singleton vs v ih =>
      rw [group_concat, push, getElem?_insert]
      split
      · simp
      · exact ih
  rw [← listAt_group, listAt]
  cases h : (group (fun v => [key v]) vs)[k]? with
  | none =>
    simp only [reduceCtorEq, Option.getD_none, false_iff, not_and]
    exact fun hnil he => hnil he.symm
  | some us =>
    rw [h] at hne
    rw [Option.some.injEq, Option.getD_some]
    constructor
    · rintro rfl
      exact ⟨fun hnil => hne (congrArg some hnil), rfl⟩
    · exact fun h => h.2

end Groups

section Merges

variable [DecidableEq K]

theorem getElem?_foldl_insert (key : V → K) (vs : List V) (t : Table K V) (k : K) :
    (vs.foldl (fun t v => t.insert (key v) v) t)[k]? =
      (vs.reverse.find? fun v => key v = k).or t[k]? := by
  induction vs using List.reverseRecOn with
  | nil => rfl
  | append_singleton vs v ih =>
    rw [List.foldl_append, List.foldl_cons, List.foldl_nil, getElem?_insert, ih,
      List.reverse_append, List.reverse_singleton, List.singleton_append, List.find?_cons]
    by_cases h : key v = k <;> simp [h]

/-- Replacing some of the values one by one replaces each of them once. -/
theorem KeyedBy.foldl_insert {key : V → K} (ht : KeyedBy key t) {f : V → V}
    (hf : ∀ v, key (f v) = key v) (p : V → Bool) :
    (t.values.filter p).foldl (fun t v => t.insert (key v) (f v)) t =
      t.map fun _ v => if p v then f v else v := by
  have hfold : (t.values.filter p).foldl (fun t v => t.insert (key v) (f v)) t =
      ((t.values.filter p).map f).foldl (fun t v => t.insert (key v) v) t := by
    rw [List.foldl_map]
    simp only [hf]
  apply Std.ExtTreeMap.ext_getElem?
  intro k
  rw [hfold, getElem?_foldl_insert, Std.ExtTreeMap.getElem?_map]
  cases hfind : ((t.values.filter p).map f).reverse.find? fun v => key v = k with
  | some w =>
    have hw := List.mem_of_find?_eq_some hfind
    obtain ⟨v, hv, rfl⟩ := List.mem_map.1 (List.mem_reverse.1 hw)
    obtain ⟨hv, hp⟩ := List.mem_filter.1 hv
    have hk : key (f v) = k := by simpa using List.find?_some hfind
    rw [hf] at hk
    rw [← hk, ht.mem_values.1 hv, Option.map_some, if_pos hp, Option.some_or]
  | none =>
    cases hv : t[k]? with
    | none => rfl
    | some v =>
      have hp : ¬p v := by
        intro hp
        have hv' : v ∈ t.values.filter p := List.mem_filter.2 ⟨Table.mem_values.2 ⟨k, hv⟩, hp⟩
        have hmem : f v ∈ ((t.values.filter p).map f).reverse :=
          List.mem_reverse.2 (List.mem_map_of_mem hv')
        exact List.find?_eq_none.1 hfind (f v) hmem (decide_eq_true ((hf v).trans (ht k v hv)))
      rw [Option.map_some, if_neg hp, Option.none_or]

theorem listAt_merge (f : List V → List W → List V) (hf : ∀ vs, f vs [] = vs)
    (t : Table K (List V)) (u : Table K (List W)) (k : K) :
    (u.toList.foldl (fun t e => t.insert e.1 (f (t.listAt e.1) e.2)) t).listAt k =
      f (t.listAt k) (u.listAt k) := by
  have hmerge (es : List (K × List W)) (hes : es.Pairwise fun e e' => e.1 ≠ e'.1)
      (t : Table K (List V)) :
      (es.foldl (fun t e => t.insert e.1 (f (t.listAt e.1) e.2)) t).listAt k =
        f (t.listAt k) (((es.find? fun e => e.1 = k).map (·.2)).getD []) := by
    induction es generalizing t with
    | nil => exact (hf _).symm
    | cons e es ih =>
      obtain ⟨hne, hes⟩ := List.pairwise_cons.1 hes
      rw [List.foldl_cons, ih hes, List.find?_cons]
      by_cases h : e.1 = k
      · have hnone : es.find? (fun e => e.1 = k) = none := by
          rw [List.find?_eq_none]
          intro e' he' hk
          exact hne e' he' (h.trans (of_decide_eq_true hk).symm)
        simp [h, hnone, hf, listAt]
      · simp [h, listAt, getElem?_insert]
  have hkeys : u.toList.Pairwise fun e e' => e.1 ≠ e'.1 := by
    apply (Std.ExtTreeMap.distinct_keys_toList (t := u)).imp
    intro e e' hne he
    rw [he] at hne
    exact hne Std.compare_self
  have hfind : (u.toList.find? fun e => e.1 = k).map (·.2) = u[k]? := by
    cases h : u.toList.find? fun e => e.1 = k with
    | none =>
      rw [List.find?_eq_none] at h
      cases hk : u[k]? with
      | none => rfl
      | some vs =>
        have hmem := Std.ExtTreeMap.mem_toList_iff_getElem?_eq_some.2 hk
        exact (h _ hmem (decide_eq_true rfl)).elim
    | some e =>
      have hk : e.1 = k := by simpa using List.find?_some h
      have hmem := Std.ExtTreeMap.mem_toList_iff_getElem?_eq_some.1 (List.mem_of_find?_eq_some h)
      rw [Option.map_some, ← hk, hmem]
  rw [hmerge _ hkeys, hfind, listAt, listAt]

end Merges

omit [Ord K] [Std.TransOrd K] [Std.LawfulEqOrd K] in
/-- Splitting a list by the keys of its members loses none of them and doubles none. -/
theorem flatMap_filter_perm [DecidableEq K] (key : V → K) {ks : List K} {vs : List V}
    (hks : ks.Nodup) (h : ∀ v ∈ vs, key v ∈ ks) :
    (ks.flatMap fun k => vs.filter fun v => key v = k).Perm vs := by
  induction ks generalizing vs with
  | nil =>
    cases vs with
    | nil => exact .refl _
    | cons v vs => exact (List.not_mem_nil (h v List.mem_cons_self)).elim
  | cons k ks ih =>
    obtain ⟨hk, hks⟩ := List.nodup_cons.1 hks
    have hkeep : ∀ v ∈ vs.filter fun v => !decide (key v = k), key v ∈ ks := by
      intro v hv
      rw [List.mem_filter, Bool.not_eq_true', decide_eq_false_iff_not] at hv
      exact (List.mem_cons.1 (h v hv.1)).resolve_left hv.2
    have hrest := ih hks hkeep
    have hsame : (ks.flatMap fun l => vs.filter fun v => key v = l) =
        ks.flatMap fun l => (vs.filter fun v => !decide (key v = k)).filter
          fun v => key v = l := by
      apply List.flatMap_congr
      intro l hl
      rw [List.filter_filter]
      apply List.filter_congr
      intro v _
      by_cases he : key v = l
      · have hne : l ≠ k := fun hk' => hk (hk' ▸ hl)
        simp [he, hne]
      · simp [he]
    rw [List.flatMap_cons, hsame]
    exact (hrest.append_left _).trans (List.filter_append_perm _ vs)

end Timetable.Table
