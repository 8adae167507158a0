import Mathlib.Data.List.Nodup
import Mathlib.Data.List.Perm.Basic
import Timetable.Block.Basic

namespace Timetable

variable {R : Type}

namespace Ident

variable {i j k : Ident}

theorem isAtMost_trans (hij : i.isAtMost j) (hjk : j.isAtMost k) : i.isAtMost k :=
  Std.TransOrd.isLE_trans hij hjk

theorem isAtMost_antisymm (hij : i.isAtMost j) (hji : j.isAtMost i) : i = j :=
  Std.LawfulEqOrd.eq_of_compare (Std.OrientedCmp.isLE_antisymm hij hji)

theorem isAtMost_total (i j : Ident) : i.isAtMost j ∨ j.isAtMost i := by
  simp only [isAtMost, Std.OrientedOrd.eq_swap (a := j) (b := i)]
  cases compare i j <;> simp

variable {x y z : Int}

theorem timed_trans (hxy : x < y ∨ x = y ∧ i.isAtMost j) (hyz : y < z ∨ y = z ∧ j.isAtMost k) :
    x < z ∨ x = z ∧ i.isAtMost k := by
  rcases hxy with hxy | ⟨rfl, hij⟩
  · rcases hyz with hyz | ⟨rfl, _⟩
    · exact .inl (Int.lt_trans hxy hyz)
    · exact .inl hxy
  · rcases hyz with hyz | ⟨rfl, hjk⟩
    · exact .inl hyz
    · exact .inr ⟨rfl, isAtMost_trans hij hjk⟩

theorem timed_total (x y : Int) (i j : Ident) :
    (x < y ∨ x = y ∧ i.isAtMost j) ∨ y < x ∨ y = x ∧ j.isAtMost i := by
  rcases Int.lt_trichotomy x y with h | h | h
  · exact .inl (.inl h)
  · rcases isAtMost_total i j with hi | hi
    · exact .inl (.inr ⟨h, hi⟩)
    · exact .inr (.inr ⟨h.symm, hi⟩)
  · exact .inr (.inl h)

end Ident

namespace Trip

variable {s t u : Trip R}

def due (t : Trip R) : Int := t.firstDeparture?.getD 2147483647

theorem runsBefore_iff :
    s.runsBefore t ↔ s.due < t.due ∨ s.due = t.due ∧ s.id.isAtMost t.id := by
  simp only [runsBefore, Bool.or_eq_true, Bool.and_eq_true, decide_eq_true_eq]
  rfl

theorem runsBefore_trans (hst : s.runsBefore t) (htu : t.runsBefore u) : s.runsBefore u := by
  rw [runsBefore_iff] at hst htu ⊢
  exact Ident.timed_trans hst htu

theorem runsBefore_total (s t : Trip R) : s.runsBefore t || t.runsBefore s := by
  rw [Bool.or_eq_true, runsBefore_iff, runsBefore_iff]
  exact Ident.timed_total s.due t.due s.id t.id

theorem runsBefore_antisymm (hst : s.runsBefore t) (hts : t.runsBefore s) : s.id = t.id := by
  rw [runsBefore_iff] at hst hts
  rcases hst with hst | ⟨hst, hi⟩
  · rcases hts with hts | ⟨hts, _⟩ <;> omega
  · rcases hts with hts | ⟨_, hj⟩
    · omega
    · exact Ident.isAtMost_antisymm hi hj

theorem runsBefore_congr {s' t' : Trip R} (hs : s'.id = s.id) (hsc : s'.calls = s.calls)
    (ht : t'.id = t.id) (htc : t'.calls = t.calls) : s'.runsBefore t' = s.runsBefore t := by
  rw [Bool.eq_iff_iff, runsBefore_iff, runsBefore_iff]
  simp only [due, firstDeparture?, hs, hsc, ht, htc]

theorem pairwise_mergeSort (ts : List (Trip R)) :
    (ts.mergeSort runsBefore).Pairwise fun s t => s.runsBefore t :=
  List.pairwise_mergeSort (fun a b c => runsBefore_trans (s := a) (t := b) (u := c))
    runsBefore_total ts

/-- Trips of different ids have one running order, however they are listed. -/
theorem mergeSort_eq_of_perm {ts us : List (Trip R)} (h : ts.Perm us)
    (hn : (ts.map (·.id)).Nodup) : ts.mergeSort runsBefore = us.mergeSort runsBefore := by
  refine List.Perm.eq_of_pairwise ?_ (pairwise_mergeSort ts) (pairwise_mergeSort us)
    ((List.mergeSort_perm ts _).trans (h.trans (List.mergeSort_perm us _).symm))
  intro a b ha hb hab hba
  have ha' : a ∈ ts := List.mem_mergeSort.1 ha
  have hb' : b ∈ ts := h.mem_iff.2 (List.mem_mergeSort.1 hb)
  exact List.inj_on_of_nodup_map hn ha' hb' (runsBefore_antisymm hab hba)

end Trip

namespace Configuration

variable [Zero R] {block : Ident} {services : ServiceSet} {gaps : List (Ident × R)}
  {ts us : List (Trip R)} {c : Configuration R}

theorem build?_eq_some : build? block services gaps ts = some c ↔
    ts ≠ [] ∧ c = { block, services, legs :=
      (ts.mergeSort Trip.runsBefore).map fun t => ⟨t, gapOf gaps t.id⟩ } := by
  rw [build?, Option.ite_none_left_eq_some, List.isEmpty_iff, Option.some.injEq]
  exact and_congr_right fun _ => eq_comm

@[simp] theorem build?_eq_none : build? block services gaps ts = none ↔ ts = [] := by
  cases ts with
  | nil => simp [build?]
  | cons t ts => simp [build?]

theorem some_getD_build? (h : ts ≠ []) (c : Configuration R) :
    some ((build? block services gaps ts).getD c) = build? block services gaps ts := by
  cases hb : build? block services gaps ts with
  | none => exact (h (build?_eq_none.1 hb)).elim
  | some d => rfl

theorem build?_perm (h : ts.Perm us) (hn : (ts.map (·.id)).Nodup) :
    build? block services gaps ts = build? block services gaps us := by
  simp only [build?, h.isEmpty_eq, Trip.mergeSort_eq_of_perm h hn]

theorem block_of_build? (h : build? block services gaps ts = some c) : c.block = block := by
  obtain ⟨_, rfl⟩ := build?_eq_some.1 h
  rfl

theorem services_of_build? (h : build? block services gaps ts = some c) :
    c.services = services := by
  obtain ⟨_, rfl⟩ := build?_eq_some.1 h
  rfl

theorem members_of_build? (h : build? block services gaps ts = some c) :
    c.members = ts.mergeSort Trip.runsBefore := by
  obtain ⟨_, rfl⟩ := build?_eq_some.1 h
  simp [members, Function.comp_def]

theorem pairwise_members (h : build? block services gaps ts = some c) :
    c.members.Pairwise fun s t => s.runsBefore t := by
  rw [members_of_build? h]
  exact Trip.pairwise_mergeSort ts

theorem members_perm (h : build? block services gaps ts = some c) : c.members.Perm ts := by
  rw [members_of_build? h]
  exact List.mergeSort_perm ts _

theorem members_ne_nil (h : build? block services gaps ts = some c) : c.members ≠ [] := by
  intro hnil
  have hperm := members_perm h
  rw [hnil] at hperm
  exact (build?_eq_some.1 h).1 hperm.nil_eq.symm

/-- Configurations in which no empty distance is driven. -/
def Ungapped (c : Configuration R) : Prop := ∀ leg ∈ c.legs, leg.gap = 0

theorem gapOf_eq_zero {trip : Ident} (h : ∀ g ∈ gaps, g.2 = 0) : gapOf gaps trip = 0 := by
  rw [gapOf]
  split
  · next g hg => exact h g (List.mem_reverse.1 (List.mem_of_find?_eq_some hg))
  · rfl

theorem ungapped_of_build? (h : build? block services [] ts = some c) : c.Ungapped := by
  obtain ⟨_, rfl⟩ := build?_eq_some.1 h
  intro leg hleg
  obtain ⟨t, _, rfl⟩ := List.mem_map.1 hleg
  rfl

theorem Ungapped.withTrips? (hc : c.Ungapped) (ts : List (Trip R)) :
    c.withTrips? ts = build? c.block c.services [] ts := by
  have hgaps : ∀ g ∈ c.legs.map fun leg => (leg.trip.id, leg.gap), g.2 = 0 := by
    intro g hg
    obtain ⟨leg, hleg, rfl⟩ := List.mem_map.1 hg
    exact hc leg hleg
  simp only [Configuration.withTrips?, build?, gapOf_eq_zero hgaps]
  rfl

end Configuration

end Timetable
