import Timetable.Calendar.Service
import Timetable.Proofs.Table

namespace Timetable

namespace Date

def first : Date := ⟨daysBeforeYear firstYear⟩

def Known (d : Date) : Prop := first ≤ d ∧ d ≤ last

instance (d : Date) : Decidable d.Known := inferInstanceAs (Decidable (_ ∧ _))

theorem le_iff {d e : Date} : d ≤ e ↔ d.number ≤ e.number := Iff.rfl

theorem lt_iff {d e : Date} : d < e ↔ d.number < e.number := Iff.rfl

section Known

variable {year : Int} {month day : Nat}

theorem daysBeforeYear_succ (year : Int) : daysBeforeYear (year + 1) =
    daysBeforeYear year + ((monthLengths year).foldl Nat.add 0 : Nat) := by
  have hleap : (monthLengths year).foldl Nat.add 0 = if isLeap year then 366 else 365 := by
    unfold monthLengths
    split <;> rfl
  rw [hleap]
  simp only [daysBeforeYear, isLeap, Bool.and_eq_true, Bool.or_eq_true, decide_eq_true_eq]
  split <;> omega

theorem daysBeforeYear_mono {year later : Int} (h : year ≤ later) :
    daysBeforeYear year ≤ daysBeforeYear later := by
  unfold daysBeforeYear
  omega

theorem foldl_take_add_le {lengths : List Nat} {i length : Nat} (h : lengths[i]? = some length)
    (n : Nat) : (lengths.take i).foldl Nat.add n + length ≤ lengths.foldl Nat.add n := by
  induction lengths generalizing i n with
  | nil => cases h
  | cons l ls ih =>
    cases i with
    | zero =>
      obtain rfl : l = length := by simpa using h
      have hle (ls : List Nat) (n : Nat) : n ≤ ls.foldl Nat.add n := by
        induction ls generalizing n with
        | nil => exact n.le_refl
        | cons l ls ih => exact Nat.le_trans (Nat.le_add_right n l) (ih _)
      exact hle ls (n + l)
    | succ i => exact ih (by simpa using h) (n + l)

/-- Every date that can be written lies within the calendar. -/
theorem known_ofYearMonthDay? {d : Date} (h : ofYearMonthDay? year month day = some d) :
    d.Known := by
  unfold ofYearMonthDay? at h
  split at h
  · next hin =>
    obtain ⟨hfirst, hlast, -, hday⟩ := hin
    split at h
    · next length hlength =>
      split at h
      · next hle =>
        cases h
        have hroom := foldl_take_add_le hlength 0
        have hsucc := daysBeforeYear_succ year
        have hbelow := daysBeforeYear_mono hfirst
        have habove : daysBeforeYear (year + 1) ≤ daysBeforeYear (lastYear + 1) :=
          daysBeforeYear_mono (by omega)
        rw [Known, le_iff, le_iff, first, last, daysBeforeMonth]
        dsimp only
        omega
      · cases h
    · cases h
  · cases h

end Known

end Date

namespace Weekdays

theorem contains_of_isEmpty {w : Weekdays} (h : w.isEmpty) (d : Weekday) :
    w.contains d = false := by
  have hbits : w.bits = 0 := of_decide_eq_true h
  rw [contains, hbits]
  exact BitVec.getLsbD_zero

end Weekdays

namespace Service

section Walk

variable {p : Date → Bool} {d first last : Date} {count : Nat}

theorem anyDate_iff : anyDate p d count ↔ ∃ i < count, p ⟨d.number + (i : Nat)⟩ := by
  induction count generalizing d with
  | zero => simp [anyDate]
  | succ count ih =>
    rw [anyDate, Bool.or_eq_true, ih]
    have hnext (i : Nat) : d.number + 1 + (i : Int) = d.number + ((i + 1 : Nat) : Int) := by omega
    constructor
    · rintro (h | ⟨i, hi, h⟩)
      · exact ⟨0, by omega, by simpa using h⟩
      · exact ⟨i + 1, by omega, hnext i ▸ h⟩
    · rintro ⟨i, hi, h⟩
      cases i with
      | zero => exact .inl (by simpa using h)
      | succ i => exact .inr ⟨i, by omega, (hnext i).symm ▸ h⟩

/-- The walk through a range comes to each of its dates, but not to the very last of the calendar;
an inverted range has none. -/
theorem anyDate_daysBetween : anyDate p first (daysBetween first last) ↔
    ∃ d, (first ≤ d ∧ d ≤ last) ∧ d < Date.last ∧ p d := by
  simp only [Date.le_iff, Date.lt_iff]
  rw [anyDate_iff]
  constructor
  · rintro ⟨i, hi, h⟩
    refine ⟨_, ⟨?_, ?_⟩, ?_, h⟩ <;> dsimp only <;> unfold daysBetween at hi <;> omega
  · rintro ⟨d, ⟨hfirst, hlast⟩, hend, h⟩
    refine ⟨(d.number - first.number).toNat, by unfold daysBetween; omega, ?_⟩
    have hd : first.number + ((d.number - first.number).toNat : Int) = d.number := by omega
    rwa [hd]

end Walk

variable {s : Service} {d : Date}

theorem covers_iff : s.covers d ↔ ∃ first last, s.range = some (first, last) ∧
    (first ≤ d ∧ d ≤ last) ∧ s.weekdays.contains d.weekday := by
  unfold covers
  split
  · next first last h =>
    simp only [h, Option.some.injEq, Prod.mk.injEq, Bool.and_eq_true, decide_eq_true_eq]
    constructor
    · exact fun hd => ⟨first, last, ⟨rfl, rfl⟩, hd⟩
    · rintro ⟨_, _, ⟨rfl, rfl⟩, hd⟩
      exact hd
  · next h => simp [h]

theorem runsOn_iff :
    s.runsOn d ↔ s.exceptions[d]? = some .added ∨ s.exceptions[d]? = none ∧ s.covers d := by
  unfold runsOn
  split
  · next h => simp [h]
  · next h => simp [h]
  · next h => simp [h]

/-- A service has a date if one is added to its pattern, or if the pattern keeps one that is not the
calendar's very last. -/
theorem hasAnyDate_iff : s.hasAnyDate ↔ (∃ d : Date, s.exceptions[d]? = some .added) ∨
    ∃ d, d < Date.last ∧ s.exceptions[d]? = none ∧ s.covers d := by
  have hadded : (s.exceptions.toList.any fun e => e.2 = .added) ↔
      ∃ d : Date, s.exceptions[d]? = some .added := by
    rw [List.any_eq_true]
    constructor
    · rintro ⟨⟨d, e⟩, hmem, he⟩
      obtain rfl : e = .added := of_decide_eq_true he
      exact ⟨d, Std.ExtTreeMap.mem_toList_iff_getElem?_eq_some.1 hmem⟩
    · rintro ⟨d, h⟩
      exact ⟨(d, .added), Std.ExtTreeMap.mem_toList_iff_getElem?_eq_some.2 h, decide_eq_true rfl⟩
  unfold hasAnyDate
  split
  · next h => exact iff_of_true rfl (.inl (hadded.1 h))
  · next h =>
    rw [hadded] at h
    rw [or_iff_right h]
    split
    · next hrange => simp [covers_iff, hrange]
    · next first last hrange =>
      split
      · next hempty => simp [covers_iff, Weekdays.contains_of_isEmpty hempty]
      · rw [anyDate_daysBetween]
        apply exists_congr
        intro d
        have hnot : s.exceptions[d]? ≠ some .added := fun hd => h ⟨d, hd⟩
        rw [Bool.and_eq_true, runsOn_iff, or_iff_right hnot, covers_iff]
        simp only [hrange, Option.some.injEq, Prod.mk.injEq]
        constructor
        · rintro ⟨hin, hlast, hday, hkept, -⟩
          exact ⟨hlast, hkept, first, last, ⟨rfl, rfl⟩, hin, hday⟩
        · rintro ⟨hlast, hkept, _, _, ⟨rfl, rfl⟩, hin, hday⟩
          exact ⟨hin, hlast, hday, hkept, _, _, ⟨rfl, rfl⟩, hin, hday⟩

/-- A service of dates within the calendar, whose range ends before the calendar does. -/
structure Dated (s : Service) : Prop where
  exceptions : ∀ d ∈ s.exceptions, d.Known
  range : ∀ first last, s.range = some (first, last) → Date.first ≤ first ∧ last < Date.last

namespace Dated

theorem weekly (id : Ident) {first last : Date} (hfirst : Date.first ≤ first)
    (hlast : last < Date.last) (weekdays : Weekdays) :
    (Service.weekly id first last weekdays).Dated where
  exceptions d hd := (Std.ExtTreeMap.not_mem_empty hd).elim
  range _ _ h := by
    cases h
    exact ⟨hfirst, hlast⟩

theorem withException (h : s.Dated) (hd : d.Known) (e : DateException) :
    (s.withException d e).Dated where
  exceptions d' hd' := by
    rw [Service.withException, Table.mem_insert_iff] at hd'
    rcases hd' with rfl | hd'
    · exact hd
    · exact h.exceptions d' hd'
  range := h.range

theorem onDates (id : Ident) {dates : List Date} (h : ∀ d ∈ dates, d.Known) :
    (Service.onDates id dates).Dated where
  exceptions d hd := by
    obtain ⟨e, he, rfl⟩ := Table.mem_ofEntries.1 hd
    obtain ⟨date, hdate, rfl⟩ := List.mem_map.1 he
    exact h date hdate
  range _ _ h := by cases h

theorem known (h : s.Dated) (hd : s.runsOn d) : d.Known := by
  rcases runsOn_iff.1 hd with hadded | ⟨-, hcovers⟩
  · apply h.exceptions
    rw [Std.ExtTreeMap.mem_iff_isSome_getElem?, hadded]
    rfl
  · obtain ⟨first, last, hrange, ⟨hfirst, hlast⟩, -⟩ := covers_iff.1 hcovers
    obtain ⟨hbegin, hend⟩ := h.range first last hrange
    simp only [Date.Known, Date.le_iff, Date.lt_iff] at *
    omega

theorem hasAnyDate_iff (h : s.Dated) : s.hasAnyDate ↔ ∃ d, d.Known ∧ s.runsOn d := by
  rw [Service.hasAnyDate_iff]
  constructor
  · rintro (⟨d, hd⟩ | ⟨d, -, hd⟩)
    · have hruns := runsOn_iff.2 (.inl hd)
      exact ⟨d, h.known hruns, hruns⟩
    · have hruns := runsOn_iff.2 (.inr hd)
      exact ⟨d, h.known hruns, hruns⟩
  · rintro ⟨d, -, hruns⟩
    apply (runsOn_iff.1 hruns).imp (fun hd => ⟨d, hd⟩)
    rintro ⟨hkept, hcovers⟩
    obtain ⟨first, last, hrange, ⟨-, hlast⟩, -⟩ := covers_iff.1 hcovers
    have hend := (h.range first last hrange).2
    refine ⟨d, ?_, hkept, hcovers⟩
    simp only [Date.le_iff, Date.lt_iff] at *
    omega

end Dated

end Service

end Timetable
