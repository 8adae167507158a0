import Timetable.Proofs.Block.StopIndex
import Timetable.Proofs.Ident
import Timetable.Proofs.Text.Bytes

namespace Timetable

namespace Ident

/-- The bytes of the agency come earlier, or it is one agency and the bytes of the name do. -/
def Precedes (i j : Ident) : Prop :=
  Text.bytes i.agency < Text.bytes j.agency ∨
    i.agency = j.agency ∧ Text.bytes i.name < Text.bytes j.name

theorem compare_eq_lt_iff {i j : Ident} : compare i j = .lt ↔ i.Precedes j := by
  have hlex : compare i j = (compare i.agency j.agency).then (compare i.name j.name) := rfl
  rw [hlex, Ordering.then_eq_lt, Std.compare_eq_iff_eq, Text.compare_eq_lt_iff,
    Text.compare_eq_lt_iff, Precedes]

theorem eq_of_increasing {is js : List Ident} (hi : is.Pairwise fun i j => compare i j = .lt)
    (hj : js.Pairwise fun i j => compare i j = .lt) (h : ∀ i, i ∈ is ↔ i ∈ js) : is = js := by
  have hnodup {ks : List Ident} (hk : ks.Pairwise fun i j => compare i j = .lt) : ks.Nodup :=
    hk.imp fun hlt he => by
      rw [he, Std.compare_self] at hlt
      cases hlt
  apply List.Perm.eq_of_pairwise _ hi hj
    ((List.perm_ext_iff_of_nodup (hnodup hi) (hnodup hj)).2 h)
  intro i j _ _ hij hji
  exact (Std.OrientedCmp.not_lt_of_lt hij hji).elim

theorem distinct_eq_iff {is js : List Ident} :
    distinct is = distinct js ↔ ∀ i, i ∈ is ↔ i ∈ js := by
  constructor
  · intro h i
    rw [← mem_distinct, h, mem_distinct]
  · intro h
    apply eq_of_increasing (increasing_distinct is) (increasing_distinct js)
    intro i
    simp [h]

end Ident

namespace ServiceSet

variable {i : Ident} {ids is js : List Ident} {s t : ServiceSet}

theorem mem_iff_of_drop {k : Nat} {middle : Ident} {upper : List Ident}
    (h : ids.drop k = middle :: upper) : i ∈ ids ↔ i ∈ ids.take k ∨ i = middle ∨ i ∈ upper := by
  conv => lhs; rw [← List.take_append_drop k ids, h, List.mem_append, List.mem_cons]

theorem pairwise_of_drop {k : Nat} {middle : Ident} {upper : List Ident} {r : Ident → Ident → Prop}
    (hdrop : ids.drop k = middle :: upper) (h : ids.Pairwise r) :
    (ids.take k).Pairwise r ∧ upper.Pairwise r ∧ (∀ j ∈ ids.take k, r j middle) ∧
      ∀ j ∈ upper, r middle j := by
  rw [← List.take_append_drop k ids, hdrop, List.pairwise_append, List.pairwise_cons] at h
  obtain ⟨hlower, ⟨hmiddle, hupper⟩, hless⟩ := h
  exact ⟨hlower, hupper, fun j hj => hless j hj middle List.mem_cons_self, hmiddle⟩

/-- Halving finds what an increasing list holds. -/
theorem search_iff (h : ids.Pairwise fun i j => compare i j = .lt) :
    search i ids ↔ i ∈ ids := by
  fun_induction search i ids with
  | case1 ids hdrop =>
    have hlength := congrArg List.length hdrop
    rw [List.length_drop, List.length_nil] at hlength
    have hnil : ids = [] := List.eq_nil_of_length_eq_zero (by omega)
    simp [hnil]
  | case2 ids middle upper hdrop hcompare =>
    have hi : i = middle := Std.LawfulEqOrd.eq_of_compare hcompare
    exact iff_of_true rfl ((mem_iff_of_drop hdrop).2 (.inr (.inl hi)))
  | case3 ids middle upper hdrop hcompare ih =>
    obtain ⟨hlower, -, -, hmore⟩ := pairwise_of_drop hdrop h
    rw [ih hlower, mem_iff_of_drop hdrop]
    apply (or_iff_left _).symm
    rintro (rfl | hupper)
    · simp at hcompare
    · exact Std.OrientedCmp.not_lt_of_lt hcompare (hmore i hupper)
  | case4 ids middle upper hdrop hcompare ih =>
    obtain ⟨-, hupper, hless, -⟩ := pairwise_of_drop hdrop h
    rw [ih hupper, mem_iff_of_drop hdrop, ← or_assoc]
    apply (or_iff_right _).symm
    rintro (hlower | rfl)
    · exact Std.OrientedCmp.not_lt_of_lt (Std.OrientedCmp.lt_of_gt hcompare) (hless i hlower)
    · simp at hcompare

@[simp] theorem contains_ofList : (ofList is).contains i ↔ i ∈ is := by
  simp [contains, ofList, search_iff (Ident.increasing_distinct is)]

theorem ofList_eq_iff : ofList is = ofList js ↔ ∀ i, i ∈ is ↔ i ∈ js := by
  rw [ofList, ofList, mk.injEq, Ident.distinct_eq_iff]

theorem compareLex_eq_lt_iff :
    List.compareLex compare is js = .lt ↔ List.Lex Ident.Precedes is js := by
  induction is generalizing js with
  | nil =>
    cases js with
    | nil => exact iff_of_false nofun nofun
    | cons j js => exact iff_of_true rfl .nil
  | cons i is ih =>
    cases js with
    | nil => exact iff_of_false nofun nofun
    | cons j js =>
      rw [List.compareLex_cons_cons, Ordering.then_eq_lt, Ident.compare_eq_lt_iff,
        Std.compare_eq_iff_eq, ih, List.cons_lex_cons_iff]

theorem compare_eq_lt_iff : compare s t = .lt ↔ List.Lex Ident.Precedes s.ids t.ids :=
  compareLex_eq_lt_iff

theorem precedes_ofList (is : List Ident) : (ofList is).ids.Pairwise Ident.Precedes :=
  (Ident.increasing_distinct is).imp Ident.compare_eq_lt_iff.1

section Departures

variable {R : Type} {ds : List (Departure R)} {d e : Departure R} {stop : Ident}

theorem listed_together_iff (hd : d ∈ ds) (he : e ∈ ds) :
    (∃ i ∈ StopIndex.ofDepartures stop ds, d ∈ i.departures ∧ e ∈ i.departures) ↔
      d.services = e.services := by
  constructor
  · rintro ⟨i, hi, hdi, hei⟩
    obtain ⟨services, -, rfl⟩ := StopIndex.mem_ofDepartures.1 hi
    have hd := (List.mem_filter.1 (List.mem_mergeSort.1 hdi)).2
    have he := (List.mem_filter.1 (List.mem_mergeSort.1 hei)).2
    exact (of_decide_eq_true hd).trans (of_decide_eq_true he).symm
  · intro hsame
    have hd : d ∈ ds.filter fun f => f.services = d.services :=
      List.mem_filter.2 ⟨hd, decide_eq_true rfl⟩
    have he : e ∈ ds.filter fun f => f.services = d.services :=
      List.mem_filter.2 ⟨he, decide_eq_true hsame.symm⟩
    refine ⟨_, StopIndex.mem_ofDepartures.2 ⟨d.services, List.ne_nil_of_mem hd, rfl⟩, ?_, ?_⟩
    · exact List.mem_mergeSort.2 hd
    · exact List.mem_mergeSort.2 he

end Departures

/-- A set is determined by its members, which are listed in increasing order of their bytes, and
holds exactly the ids of the list it was made of. Sets are ordered as the lists of their members,
and only equal ones are tied, so groups of departures by stop and services come out in one order,
whichever they came up in, and departures from a stop are in one group if and only if their services
have the same members. -/
theorem determined_by_members (R : Type) :
    (∀ is js, ofList is = ofList js ↔ ∀ i, i ∈ is ↔ i ∈ js) ∧
    (∀ is i, (ofList is).contains i ↔ i ∈ is) ∧
    (∀ is, (ofList is).ids.Pairwise Ident.Precedes) ∧
    (∀ s t : ServiceSet, (compare s t = .lt ↔ List.Lex Ident.Precedes s.ids t.ids) ∧
      (compare s t = .eq ↔ s = t) ∧ compare t s = (compare s t).swap) ∧
    (∀ s t u : ServiceSet, compare s t = .lt → compare t u = .lt → compare s u = .lt) ∧
    ∀ (ds : List (Departure R)) (groups : List ((Ident × ServiceSet) × List (Departure R))),
      groups.Perm (StopIndex.groupsOf ds) → ∀ stop,
      let leaving := ds.filter fun d => d.stop = stop
      let indices := StopIndex.ofDepartures stop leaving
      StopIndex.assemble stop groups = indices ∧
      (indices.Pairwise fun i j => compare i.services j.services = .lt) ∧
      ∀ d ∈ leaving, ∀ e ∈ leaving, ∀ is js, d.services = ofList is → e.services = ofList js →
        ((∃ i ∈ indices, d ∈ i.departures ∧ e ∈ i.departures) ↔ ∀ i, i ∈ is ↔ i ∈ js) := by
  refine ⟨fun is js => ofList_eq_iff, fun is i => contains_ofList, precedes_ofList, ?_,
    fun s t u => Std.TransCmp.lt_trans, ?_⟩
  · intro s t
    exact ⟨compare_eq_lt_iff, Std.compare_eq_iff_eq, Std.OrientedCmp.eq_swap⟩
  · intro ds groups hgroups stop leaving indices
    refine ⟨StopIndex.assemble_eq hgroups stop, StopIndex.increasing_ofDepartures stop leaving, ?_⟩
    intro d hd e he is js hds hes
    rw [listed_together_iff hd he, hds, hes, ofList_eq_iff]

section Winter

/-- What a trip that calls at one stop leaves there under services that are listed so. -/
def departuresUnder (trip : String) (services : List Ident) : List (Departure Float) :=
  let call : Call Float :=
    { stop := ⟨"A", "X"⟩, published := none, arrival := 0, departure := 0, distance := 0 }
  let trip : Trip Float := .ofCalls ⟨"A", trip⟩ ⟨"A", "R"⟩ (some ⟨"A", "B"⟩) ⟨"A", "S"⟩ [call]
  StopIndex.departuresOf ⟨⟨"A", "B"⟩, .ofList services, [⟨trip, 0⟩]⟩

def winter : Ident := ⟨"A", "Winter"⟩

/-- The first letter takes two bytes, both of them larger than any that takes one. -/
def summer : Ident := ⟨"A", "Été"⟩

theorem determined_by_members_winter :
    let year := ofList [summer, winter, summer]
    let ds := departuresUnder "T1" [summer, winter, summer] ++
      departuresUnder "T2" [winter, summer] ++ departuresUnder "T3" [winter]
    let groups := (StopIndex.groupsOf ds).reverse
    let stop : Ident := ⟨"A", "X"⟩
    let leaving := ds.filter fun d => d.stop = stop
    let indices := StopIndex.ofDepartures stop leaving
    year = ofList [winter, summer] ∧ year.contains summer ∧ year.ids = [winter, summer] ∧
    winter.Precedes summer ∧
    groups.Perm (StopIndex.groupsOf ds) ∧ StopIndex.assemble stop groups = indices ∧
    ∃ d e f, leaving = [d, e, f] ∧ (∃ i ∈ indices, d ∈ i.departures ∧ e ∈ i.departures) ∧
      ¬∃ i ∈ indices, d ∈ i.departures ∧ f ∈ i.departures := by
  intro year ds groups stop leaving indices
  obtain ⟨heq, hcontains, hincreasing, -, -, hdepartures⟩ := determined_by_members Float
  obtain ⟨hassemble, -, htogether⟩ := hdepartures ds groups (List.reverse_perm _) stop
  have hsame : ∀ i, i ∈ [summer, winter, summer] ↔ i ∈ [winter, summer] := by
    intro i
    simp only [List.mem_cons, List.not_mem_nil, or_false]
    tauto
  have hids : year.ids = [winter, summer] :=
    Ident.eq_of_increasing (Ident.increasing_distinct _) (by decide +kernel) fun i =>
      Ident.mem_distinct.trans (hsame i)
  have hprecedes : year.ids.Pairwise Ident.Precedes := hincreasing _
  rw [hids] at hprecedes
  have hother : ¬∀ i, i ∈ [summer, winter, summer] ↔ i ∈ [winter] := by
    intro h
    exact absurd ((h summer).1 (by decide)) (by decide)
  have hleaving : ∃ d e f, leaving = [d, e, f] ∧ d.services = year ∧
      e.services = ofList [winter, summer] ∧ f.services = ofList [winter] :=
    ⟨_, _, _, rfl, rfl, rfl, rfl⟩
  obtain ⟨d, e, f, hlist, hd, he, hf⟩ := hleaving
  have hmem : d ∈ leaving ∧ e ∈ leaving ∧ f ∈ leaving := by simp [hlist]
  refine ⟨(heq _ _).2 hsame, (hcontains _ _).2 (by decide), hids,
    List.rel_of_pairwise_cons hprecedes List.mem_cons_self, List.reverse_perm _, hassemble,
    d, e, f, hlist, ?_, ?_⟩
  · exact (htogether d hmem.1 e hmem.2.1 _ _ hd he).2 hsame
  · exact fun h => hother ((htogether d hmem.1 f hmem.2.2 _ _ hd hf).1 h)

end Winter

end ServiceSet

end Timetable
