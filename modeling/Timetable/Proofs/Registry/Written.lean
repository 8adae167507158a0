import Timetable.Proofs.Ident.Written
import Timetable.Proofs.Json.Written
import Timetable.Record.Decode
import Timetable.Registry.Cancelled

namespace Timetable

namespace Decode

variable {i : Ident} {j : Json}

theorem ident_eq_some_iff : ident j = some i ↔ i.toJson = j ∧ '_' ∉ i.agency.toList := by
  rw [ident, Option.bind_eq_some_iff]
  constructor
  · rintro ⟨s, hs, hi⟩
    obtain ⟨rfl, hagency⟩ := Ident.parse?_eq_some_iff.1 hi
    cases j with
    | string w =>
      rw [text] at hs
      exact ⟨by rw [Ident.toJson, hs], hagency⟩
    | null | bool | number | array | object => cases hs
  · rintro ⟨rfl, hagency⟩
    exact ⟨i.text, rfl, Ident.parse?_text_iff.2 hagency⟩

theorem parse?_jsonText (i : Ident) : Json.parse? i.jsonText = some i.toJson :=
  Json.parse?_quoted i.text

end Decode

namespace Registry

variable {V : Type} {t : Registry V}

theorem hasText_text {i : Ident} (h : '_' ∉ i.agency.toList) : hasText t i.text = has t i := by
  rw [hasText, Ident.parse?_text_iff.2 h]

theorem hasText_of_malformed {s : String} (h : '_' ∉ s.toList) : hasText t s = false := by
  rw [hasText, Ident.parse?_eq_none_iff.2 h]

end Registry

namespace Ident

theorem read_cases (s : String) :
    (∃ i, read s = .ok i ∧ parse? s = some i) ∨
      read s = .error (.malformedId s) ∧ parse? s = none := by
  rw [read]
  cases parse? s with
  | none => exact .inr ⟨rfl, rfl⟩
  | some i => exact .inl ⟨i, rfl, rfl⟩

/-- A text with an underscore is read as an identifier that is written like it, and any other is
refused. An identifier is read back from its text, and from its JSON form, exactly if its agency has
no underscore; so identifiers without one there have texts of their own. Of those a registry, be it
of cancelled trips or of vehicles, says the same whether it is asked for the identifier or for its
text, and a text without an underscore is in none. -/
theorem text_reads_back :
    (∀ s, (∃ i, read s = .ok i ∧ parse? s = some i ∧ i.text = s) ∨
      read s = .error (.malformedId s) ∧ parse? s = none ∧ '_' ∉ s.toList) ∧
    (∀ i, parse? i.text = some i ↔ '_' ∉ i.agency.toList) ∧
    (∀ j i, Decode.ident j = some i → i.toJson = j) ∧
    (∀ i, (Json.parse? i.jsonText).bind Decode.ident = some i ↔ '_' ∉ i.agency.toList) ∧
    (∀ i j : Ident, '_' ∉ i.agency.toList → '_' ∉ j.agency.toList → (i.text = j.text ↔ i = j)) ∧
    ∀ {V : Type} (t : Registry V),
      (∀ i, '_' ∉ i.agency.toList → t.hasText i.text = t.has i) ∧
      ∀ s, '_' ∉ s.toList → t.hasText s = false := by
  refine ⟨fun s => ?_, fun i => parse?_text_iff, fun j i h => (Decode.ident_eq_some_iff.1 h).1,
    fun i => ?_, fun i j => text_inj, fun t => ⟨fun i => Registry.hasText_text,
      fun s => Registry.hasText_of_malformed⟩⟩
  · rcases read_cases s with ⟨i, hread, hi⟩ | ⟨hread, hnone⟩
    · exact .inl ⟨i, hread, hi, (parse?_eq_some_iff.1 hi).1⟩
    · exact .inr ⟨hread, hnone, parse?_eq_none_iff.1 hnone⟩
  · rw [Decode.parse?_jsonText, Option.bind_some, Decode.ident_eq_some_iff]
    exact and_iff_right rfl

/-- A trip with an underscore in its name, which is cancelled, and one of no agency. -/
theorem text_reads_back_cancelledTrip :
    let i : Ident := ⟨"A", "T_1"⟩
    let j : Ident := ⟨"", "A_T_1"⟩
    let t := CancelledTrips.ofList [{ trip := i }]
    '_' ∉ i.agency.toList ∧ '_' ∉ j.agency.toList ∧ i.text ≠ j.text ∧
    Decode.ident (.string (some "A_T_1")) = some i ∧ i.toJson = .string (some "A_T_1") ∧
    (Json.parse? i.jsonText).bind Decode.ident = some i ∧ t.hasText i.text = t.has i ∧
    t.hasText "A_T_1" ∧ '_' ∉ "T".toList ∧ t.hasText "T" = false := by
  intro i j t
  have hi : '_' ∉ i.agency.toList := by decide
  have hj : '_' ∉ j.agency.toList := by decide
  have hnone : '_' ∉ "T".toList := by decide
  have hdecoded : Decode.ident (.string (some "A_T_1")) = some i := by decide +kernel
  obtain ⟨-, -, hwritten, hjson, hinj, hregistry⟩ := text_reads_back
  obtain ⟨htext, hmalformed⟩ := hregistry t
  have hhas : t.has i := by decide +kernel
  have hmember : t.hasText "A_T_1" := (htext i hi).trans hhas
  exact ⟨hi, hj, (hinj i j hi hj).not.2 (by decide), hdecoded, hwritten _ i hdecoded,
    (hjson i).2 hi, htext i hi, hmember, hnone, hmalformed "T" hnone⟩

/-- An identifier with an underscore in its agency has the text of another one. -/
example : parse? (text ⟨"A_B", "C"⟩) = some ⟨"A", "B_C"⟩ := by decide +kernel

end Ident

end Timetable
