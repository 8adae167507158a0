import Timetable.Json.Read
import Timetable.Json.Write

namespace Timetable.Json

section Scanning

variable {c e : Char}

theorem escaped?_of_escapeLetter? (h : escapeLetter? c = some e) :
    escaped? e = some c ∧ e ≠ 'u' := by
  unfold escapeLetter? at h
  split at h <;> cases h
  all_goals exact ⟨rfl, by decide⟩

theorem ne_of_escapeLetter?_none (h : escapeLetter? c = none) : c ≠ '"' ∧ c ≠ '\\' := by
  constructor
  · rintro rfl
    cases h
  · rintro rfl
    cases h

theorem hexDigit?_digitChar : ∀ d < 16, hexDigit? (Nat.digitChar d) = some d := by
  decide

theorem scan_escaped (c : Char) (read : List Nat) (tokens : List Token) :
    (escaped c).foldlM Scanner.step ⟨.string read, tokens⟩ =
      some ⟨.string (c.toNat :: read), tokens⟩ := by
  rw [escaped]
  split
  · next e h =>
    obtain ⟨hread, hu⟩ := escaped?_of_escapeLetter? h
    simp [Scanner.step, hu, hread]
  · next h =>
    obtain ⟨hquote, hbackslash⟩ := ne_of_escapeLetter?_none h
    split
    · next hcontrol =>
      have hhigh := hexDigit?_digitChar (c.toNat / 16) (by omega)
      have hlow := hexDigit?_digitChar (c.toNat % 16) (by omega)
      have hzero : hexDigit? '0' = some 0 := by decide
      have hsum : 16 * (c.toNat / 16) + c.toNat % 16 = c.toNat := Nat.div_add_mod _ _
      simp [Scanner.step, hzero, hhigh, hlow, hsum]
    · next hplain => simp [Scanner.step, hquote, hbackslash, hplain]

theorem scan_text (cs : List Char) (read : List Nat) (tokens : List Token) :
    (cs.flatMap escaped).foldlM Scanner.step ⟨.string read, tokens⟩ =
      some ⟨.string ((cs.map Char.toNat).reverse ++ read), tokens⟩ := by
  induction cs generalizing read with
  | nil => rfl
  | cons c cs ih =>
    rw [List.flatMap_cons, List.foldlM_append, scan_escaped, Option.bind_eq_bind, Option.bind_some,
      ih, List.map_cons, List.reverse_cons, List.append_assoc]
    rfl

end Scanning

theorem toNat_not_surrogate (c : Char) : c.toNat < 0xD800 ∨ 0xDFFF < c.toNat := by
  rcases c.valid with h | ⟨h, -⟩
  · exact .inl h
  · exact .inr h

@[simp] theorem joinPairs_toNat (cs : List Char) : joinPairs (cs.map Char.toNat) = some cs := by
  induction cs with
  | nil => rfl
  | cons c cs ih =>
    have hc := toNat_not_surrogate c
    cases cs with
    | nil =>
      have hwhole : c.toNat < 0xD800 || 0xDFFF < c.toNat := by simpa using hc
      simp only [List.map_cons, List.map_nil, joinPairs, hwhole, if_true, Char.ofNat_toNat]
    | cons d cs =>
      have hout {least greatest : Nat} (hleast : 0xD800 ≤ least) (hgreatest : greatest ≤ 0xDFFF) :
          ¬(least ≤ c.toNat && c.toNat ≤ greatest) := by
        rw [Bool.and_eq_true, decide_eq_true_eq, decide_eq_true_eq]
        omega
      rw [List.map_cons, List.map_cons, joinPairs, if_neg (hout (by decide) (by decide)),
        if_neg (hout (by decide) (by decide)), ← List.map_cons, ih, Char.ofNat_toNat]
      rfl

theorem tokens?_quoted (s : String) : tokens? (quoted s).toList = some [.string (some s)] := by
  have hread : textOf ((s.toList.map Char.toNat).reverse ++ []) = some s := by
    simp [textOf]
  have hopen : Scanner.step Scanner.start '"' = some ⟨.string [], []⟩ := rfl
  have hclose (read : List Nat) :
      Scanner.step ⟨.string read, []⟩ '"' = some ⟨.between, [.string (textOf read)]⟩ := rfl
  rw [tokens?, quoted, String.toList_ofList, List.foldlM_cons, hopen, Option.bind_eq_bind,
    Option.bind_some, List.foldlM_append, scan_text, Option.bind_eq_bind, Option.bind_some,
    List.foldlM_cons, hclose, hread]
  rfl

/-- Every text is read as it was written. -/
theorem parse?_quoted (s : String) : parse? (quoted s) = some (.string (some s)) := by
  rw [parse?, tokens?_quoted]
  rfl

end Timetable.Json
