import Timetable.Proofs.Record.Kind

namespace Timetable

open Decode

namespace RecordKind

/-- Two JSON values of which one is the other, reworded as a record of a kind. -/
inductive Reworded : RecordKind → Json → Json → Prop
  | refl (kind : RecordKind) (j : Json) : Reworded kind j j
  | symm {kind : RecordKind} {i j : Json} (h : Reworded kind i j) : Reworded kind j i
  | trans {kind : RecordKind} {i j k : Json} (hij : Reworded kind i j) (hjk : Reworded kind j k) :
      Reworded kind i k
  /-- The members stand in another order. -/
  | permuted {kind : RecordKind} {ms ms' : List (WrittenText × Json)} (h : ms.Perm ms') :
      Reworded kind (.object ms) (.object ms')
  /-- There is one more member, of a name that the record does not know. -/
  | extended {kind : RecordKind} {name : String} (unknown : name ∉ kind.fieldNames)
      (before after : List (WrittenText × Json)) (value : Json) :
      Reworded kind (.object (before ++ after)) (.object (before ++ (some name, value) :: after))
  /-- An optional field is null instead of absent. -/
  | nulled {kind : RecordKind} {name : String} (isOptional : name ∈ kind.optionalNames)
      (before after : List (WrittenText × Json))
      (absent : ∀ m ∈ before ++ after, m.1 ≠ some name) :
      Reworded kind (.object (before ++ after)) (.object (before ++ (some name, .null) :: after))
  /-- One of the records that a field lists is reworded. -/
  | within {kind inner : RecordKind} {name : String} (lists : kind.listed name = some inner)
      (before after : List (WrittenText × Json)) (front back : List Json) {i j : Json}
      (h : Reworded inner i j) :
      Reworded kind (.object (before ++ (some name, .array (front ++ i :: back)) :: after))
        (.object (before ++ (some name, .array (front ++ j :: back)) :: after))
  /-- One of the records that a field lists is reworded, in a record that is written as a row. -/
  | withinRow {kind inner : RecordKind} {name : String} (lists : kind.listed name = some inner)
      {before : List Json} (place : kind.fieldNames[before.length]? = some name)
      (after front back : List Json) {i j : Json} (h : Reworded inner i j) :
      Reworded kind (.array (before ++ .array (front ++ i :: back) :: after))
        (.array (before ++ .array (front ++ j :: back) :: after))

section Objects

variable {kind inner : RecordKind} {name : String} {ms ms' : List (WrittenText × Json)}

/-- Objects whose names are texts and are not repeated at once give the fields alike if they do so
name by name. -/
theorem decode_object (texts : ms.all (·.1.isSome) = ms'.all (·.1.isSome))
    (counts : ∀ name ∈ kind.fieldNames, occurrences name ms ≤ 1 ↔ occurrences name ms' ≤ 1)
    (alike : ∀ name ∈ kind.fieldNames, occurrences name ms ≤ 1 →
      Alike kind name (member name ms) (member name ms')) :
    kind.decode (.object ms) = kind.decode (.object ms') := by
  apply decode_congr
  rw [fields, fields, texts]
  have hcounts : (kind.fieldNames.all fun name => decide (occurrences name ms ≤ 1)) =
      kind.fieldNames.all fun name => decide (occurrences name ms' ≤ 1) := by
    rw [Bool.eq_iff_iff, List.all_eq_true, List.all_eq_true]
    simp only [decide_eq_true_eq]
    exact forall₂_congr counts
  rw [← hcounts]
  split
  · next h =>
    rw [Bool.and_eq_true, List.all_eq_true, List.all_eq_true] at h
    exact .some fun name known => alike name known (of_decide_eq_true (h.2 name known))
  · exact .none

theorem decode_null {ms : List (WrittenText × Json)} (needed : name ∈ kind.neededNames)
    (h : (some name, .null) ∈ ms) : kind.decode (.object ms) = none := by
  rw [decode_eq, fields]
  split
  · next hfields =>
    rw [Bool.and_eq_true, List.all_eq_true, List.all_eq_true] at hfields
    have hcount := hfields.2 name (List.mem_filter.1 needed).1
    exact ofFields_null needed ((member_eq_some_iff (of_decide_eq_true hcount)).2 h)
  · rfl

theorem decode_permuted (h : ms.Perm ms') :
    kind.decode (.object ms) = kind.decode (.object ms') := by
  apply decode_object h.all_eq
  · intro name _
    rw [occurrences_perm h]
  · intro name _ hcount
    rw [member_perm h hcount]
    exact .same _

variable (before after : List (WrittenText × Json))

theorem all_isSome_insert (j : Json) :
    (before ++ after).all (·.1.isSome) =
      (before ++ (some name, j) :: after).all (·.1.isSome) := by
  simp

theorem decode_extended (unknown : name ∉ kind.fieldNames) (value : Json) :
    kind.decode (.object (before ++ after)) =
      kind.decode (.object (before ++ (some name, value) :: after)) := by
  have hne : ∀ other ∈ kind.fieldNames, some name ≠ some other := by
    rintro other known heq
    cases heq
    exact unknown known
  apply decode_object (all_isSome_insert before after value)
  · intro other known
    rw [occurrences_insert, if_neg (hne other known), Nat.add_zero]
  · intro other known _
    rw [member_insert_of_ne before after (hne other known)]
    exact .same _

theorem decode_nulled (isOptional : name ∈ kind.optionalNames)
    (absent : ∀ m ∈ before ++ after, m.1 ≠ some name) :
    kind.decode (.object (before ++ after)) =
      kind.decode (.object (before ++ (some name, .null) :: after)) := by
  apply decode_object (all_isSome_insert before after .null)
  · intro other _
    rw [occurrences_insert]
    split
    · next heq =>
      cases heq
      rw [occurrences_eq_zero_iff.2 absent]
      decide
    · rw [Nat.add_zero]
  · intro other _ _
    by_cases heq : some name = some other
    · cases heq
      have hbefore : member name before = none :=
        member_eq_none fun m hm => absent m (List.mem_append_left _ hm)
      rw [member_eq_none absent, member_append, hbefore, Option.none_or, member_cons_self]
      exact .nulled isOptional
    · rw [member_insert_of_ne before after heq]
      exact .same _

variable (lists : kind.listed name = some inner) (front back : List Json) {i j : Json}

include lists in
theorem decode_within (h : inner.decode i = inner.decode j) :
    kind.decode (.object (before ++ (some name, .array (front ++ i :: back)) :: after)) =
      kind.decode (.object (before ++ (some name, .array (front ++ j :: back)) :: after)) := by
  apply decode_object
  · rw [← all_isSome_insert, ← all_isSome_insert]
  · intro other _
    rw [occurrences_insert, occurrences_insert]
  · intro other _ _
    by_cases heq : some name = some other
    · cases heq
      rw [member_append, member_append, member_cons_self, member_cons_self]
      cases member name before with
      | some given => exact .same _
      | none => exact .within lists front back h
    · rw [member_insert_of_ne before after heq, member_insert_of_ne before after heq]
      exact .same _

include lists in
theorem decode_withinRow {before : List Json} (place : kind.fieldNames[before.length]? = some name)
    (after : List Json) (h : inner.decode i = inner.decode j) :
    kind.decode (.array (before ++ .array (front ++ i :: back) :: after)) =
      kind.decode (.array (before ++ .array (front ++ j :: back) :: after)) := by
  apply decode_congr
  rw [fields, fields]
  simp only [List.length_append, List.length_cons]
  split
  · apply Option.Rel.some
    intro other _
    beta_reduce
    rcases lookup_zip_item other kind.fieldNames before after (.array (front ++ i :: back))
      (.array (front ++ j :: back)) with hsame | ⟨hplace, hi, hj⟩
    · rw [hsame]
      exact .same _
    · rw [place] at hplace
      cases hplace
      rw [hi, hj]
      exact .within lists front back h
  · exact .none

end Objects

theorem Reworded.decode_eq {kind : RecordKind} {i j : Json} (h : Reworded kind i j) :
    kind.decode i = kind.decode j := by
  induction h with
  | refl kind j => rfl
  | symm _ ih => exact ih.symm
  | trans _ _ ihij ihjk => exact ihij.trans ihjk
  | permuted h => exact decode_permuted h
  | extended unknown before after value => exact decode_extended before after unknown value
  | nulled isOptional before after absent => exact decode_nulled before after isOptional absent
  | within lists before after front back _ ih =>
    exact decode_within before after lists front back ih
  | withinRow lists place after front back _ ih =>
    exact decode_withinRow lists front back place after ih

/-- What is decoded from a value, or that nothing is, does not change when the value is reworded:
when members change places, when members of unknown names come in with any values, when optional
fields are null or absent, and when this happens in a record that is listed in the value. Null
stands for the absence of optional fields only. -/
theorem decoded_alike (kind : RecordKind) :
    (∀ i j, Reworded kind i j → kind.decode i = kind.decode j) ∧
    ∀ name ∈ kind.fieldNames, name ∉ kind.optionalNames → ∀ ms : List (WrittenText × Json),
      (some name, .null) ∈ ms → kind.decode (.object ms) = none := by
  constructor
  · intro i j h
    exact h.decode_eq
  · intro name known needed ms hnull
    exact decode_null (List.mem_filter.2 ⟨known, decide_eq_true needed⟩) hnull

section Growth

def written (name value : String) : WrittenText × Json := (some name, .string (some value))

def listing (name : String) (items : List Json) : WrittenText × Json := (some name, .array items)

def timestamp : WrittenText × Json := (some "timestamp", .number ⟨false, 7, 0, true⟩)

def call : Json := .object [written "trip_id" "T", written "stop_id" "X"]

def day : Json := .object [written "date" "2024-03-04"]

def deletion (calls days : List Json) : List (WrittenText × Json) :=
  [written "table" "STOP_TIMES", written "service_change_type" "DELETE",
    listing "affected_entity" calls, listing "affected_dates" days]

def single (change : Json) : List (WrittenText × Json) :=
  [timestamp, listing "service_changes" [change]]

def nulledCall : Json :=
  .object [written "stop_id" "X", (some "route_id", .null), written "trip_id" "T"]

def nulledDay : Json := .object [(some "to", .null), written "date" "2024-03-04"]

/-- The deletion from its end, with a text that is none in between. -/
def notedDeletion : Json :=
  .object [listing "affected_dates" [nulledDay], listing "affected_entity" [nulledCall],
    (some "note", .string none), written "service_change_type" "DELETE",
    written "table" "STOP_TIMES"]

/-- The feed from its end, behind a number that is too large to be read. -/
def sourcedFeed : Json :=
  .object [(some "source", .number ⟨false, 1, 999, false⟩),
    listing "service_changes" [notedDeletion], timestamp]

theorem reworded_call : Reworded entity call nulledCall :=
  .trans (.permuted (List.reverse_perm _).symm)
    (.nulled (by decide) [written "stop_id" "X"] [written "trip_id" "T"] (by decide))

theorem reworded_day : Reworded date day nulledDay :=
  .nulled (by decide) [] [written "date" "2024-03-04"] (by decide)

theorem reworded_deletion : Reworded change (.object (deletion [call] [day])) notedDeletion := by
  have hcall : Reworded change (.object (deletion [call] [day]))
      (.object (deletion [nulledCall] [day])) :=
    .within rfl [written "table" "STOP_TIMES", written "service_change_type" "DELETE"]
      [listing "affected_dates" [day]] [] [] reworded_call
  have hday : Reworded change (.object (deletion [nulledCall] [day]))
      (.object (deletion [nulledCall] [nulledDay])) :=
    .within rfl [written "table" "STOP_TIMES", written "service_change_type" "DELETE",
      listing "affected_entity" [nulledCall]] [] [] [] reworded_day
  have hreverse : Reworded change (.object (deletion [nulledCall] [nulledDay]))
      (.object (deletion [nulledCall] [nulledDay]).reverse) :=
    .permuted (List.reverse_perm _).symm
  have hnote : Reworded change (.object (deletion [nulledCall] [nulledDay]).reverse)
      notedDeletion :=
    .extended (by decide)
      [listing "affected_dates" [nulledDay], listing "affected_entity" [nulledCall]]
      [written "service_change_type" "DELETE", written "table" "STOP_TIMES"] (.string none)
  exact .trans hcall (.trans hday (.trans hreverse hnote))

theorem reworded_feed :
    Reworded feed (.object (single (.object (deletion [call] [day])))) sourcedFeed := by
  have hchange : Reworded feed (.object (single (.object (deletion [call] [day]))))
      (.object (single notedDeletion)) :=
    .within rfl [timestamp] [] [] [] reworded_deletion
  have hreverse : Reworded feed (.object (single notedDeletion))
      (.object (single notedDeletion).reverse) :=
    .permuted (List.reverse_perm _).symm
  exact .trans hchange (.trans hreverse (.extended (by decide) [] _ _))

theorem decoded_alike_sourcedFeed :
    let plain := Json.object (single (.object (deletion [call] [day])))
    Reworded feed plain sourcedFeed ∧ feed.decode plain = feed.decode sourcedFeed ∧
    (ChangeFeed.decode sourcedFeed).map (fun f => (f.timestamp, f.changes.map (·.entities))) =
      some (7, [[{ trip := some "T", stop := some "X" }]]) ∧
    "timestamp" ∈ feed.fieldNames ∧ "timestamp" ∉ feed.optionalNames ∧
    feed.decode (.object [(some "timestamp", .null)]) = none := by
  intro plain
  obtain ⟨halike, hnull⟩ := decoded_alike feed
  have hknown : "timestamp" ∈ feed.fieldNames := by decide
  have hneeded : "timestamp" ∉ feed.optionalNames := by decide
  have hdecoded : (ChangeFeed.decode sourcedFeed).map
      (fun f => (f.timestamp, f.changes.map (·.entities))) =
      some (7, [[{ trip := some "T", stop := some "X" }]]) := by
    decide +kernel
  exact ⟨reworded_feed, halike plain sourcedFeed reworded_feed, hdecoded, hknown, hneeded,
    hnull "timestamp" hknown hneeded _ List.mem_cons_self⟩

end Growth

end RecordKind

end Timetable
