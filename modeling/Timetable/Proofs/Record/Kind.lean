import Timetable.Change.Record
import Timetable.Proofs.Record.Fields
import Timetable.Registry.Cancelled
import Timetable.Settings
import Timetable.Vehicle.Record

namespace Timetable

open Decode

inductive RecordKind where
  | settings | feed | change | entity | field | date | vehicle | occupancy | cancelled
  deriving DecidableEq

namespace RecordKind

def Record : RecordKind → Type
  | settings => Settings
  | feed => ChangeFeed
  | change => ServiceChange
  | entity => EntityDescriptor
  | field => FieldDescriptor
  | date => DateDescriptor
  | vehicle => VehicleReport
  | occupancy => OccupancyReport
  | cancelled => CancelledTrip

def decode : (kind : RecordKind) → Decoder kind.Record
  | settings => Settings.decode
  | feed => ChangeFeed.decode
  | change => ServiceChange.decode
  | entity => EntityDescriptor.decode
  | field => FieldDescriptor.decode
  | date => DateDescriptor.decode
  | vehicle => VehicleReport.decode
  | occupancy => OccupancyReport.decode
  | cancelled => CancelledTrip.decode

def ofFields : (kind : RecordKind) → Fields → Option kind.Record
  | settings => Settings.ofFields
  | feed => ChangeFeed.ofFields
  | change => ServiceChange.ofFields
  | entity => EntityDescriptor.ofFields
  | field => FieldDescriptor.ofFields
  | date => DateDescriptor.ofFields
  | vehicle => VehicleReport.ofFields
  | occupancy => OccupancyReport.ofFields
  | cancelled => CancelledTrip.ofFields

def fieldNames : RecordKind → List String
  | settings => Settings.fieldNames
  | feed => ChangeFeed.fieldNames
  | change => ServiceChange.fieldNames
  | entity => EntityDescriptor.fieldNames
  | field => FieldDescriptor.fieldNames
  | date => DateDescriptor.fieldNames
  | vehicle => VehicleReport.fieldNames
  | occupancy => OccupancyReport.fieldNames
  | cancelled => CancelledTrip.fieldNames

/-- The fields that a record may do without. Those with a default are not among them, since they
have a value in any case. -/
def optionalNames : RecordKind → List String
  | settings => []
  | feed => []
  | change => []
  | entity => EntityDescriptor.fieldNames
  | field => FieldDescriptor.fieldNames
  | date => DateDescriptor.fieldNames
  | vehicle => VehicleReport.fieldNames.erase "time_of_record"
  | occupancy => ["route_id", "direction_id"]
  | cancelled => CancelledTrip.fieldNames.erase "trip_id"

/-- The kind of the records that a field lists, if it lists records. -/
def listed : RecordKind → String → Option RecordKind
  | feed, "service_changes" => some change
  | change, "affected_entity" => some entity
  | change, "affected_field" => some field
  | change, "affected_dates" => some date
  | _, _ => none

theorem decode_eq (kind : RecordKind) (j : Json) :
    kind.decode j = (fields kind.fieldNames j).bind kind.ofFields := by
  cases kind <;> rfl

/-- What is given for a field in two ways that are decoded alike. -/
inductive Alike (kind : RecordKind) (name : String) : Option Json → Option Json → Prop
  | same (given : Option Json) : Alike kind name given given
  | nulled (isOptional : name ∈ kind.optionalNames) : Alike kind name none (some .null)
  | within {inner : RecordKind} (lists : kind.listed name = some inner) (front back : List Json)
      {i j : Json} (h : inner.decode i = inner.decode j) :
      Alike kind name (some (.array (front ++ i :: back))) (some (.array (front ++ j :: back)))

def FieldsAlike (kind : RecordKind) (f g : Fields) : Prop :=
  ∀ name ∈ kind.fieldNames, Alike kind name (f name) (g name)

section Fields

variable {kind : RecordKind} {name : String} {f g : Fields} {α : Type}

theorem Alike.eq {given given' : Option Json} (h : Alike kind name given given')
    (needed : name ∉ kind.optionalNames) (plain : kind.listed name = none) : given = given' := by
  cases h with
  | same => rfl
  | nulled isOptional => exact (needed isOptional).elim
  | within lists => rw [plain] at lists; cases lists

namespace FieldsAlike

variable (h : FieldsAlike kind f g) (known : name ∈ kind.fieldNames)

include h known

theorem required_eq (decode : Decoder α) (needed : name ∉ kind.optionalNames)
    (plain : kind.listed name = none) : required name decode f = required name decode g := by
  rw [required, required, (h name known).eq needed plain]

theorem defaulted_eq (value : α) (decode : Decoder α) (needed : name ∉ kind.optionalNames)
    (plain : kind.listed name = none) :
    defaulted name value decode f = defaulted name value decode g := by
  rw [defaulted, defaulted, (h name known).eq needed plain]

theorem optional_eq (decode : Decoder α) (plain : kind.listed name = none) :
    Decode.optional name decode f = Decode.optional name decode g := by
  have hname := h name known
  unfold Decode.optional
  generalize f name = given at hname ⊢
  generalize g name = given' at hname ⊢
  cases hname with
  | same => rfl
  | nulled => rfl
  | within lists => rw [plain] at lists; cases lists

theorem listing_eq (inner : RecordKind) (value : List inner.Record)
    (needed : name ∉ kind.optionalNames) (lists : kind.listed name = some inner) :
    defaulted name value (list inner.decode) f = defaulted name value (list inner.decode) g := by
  have hname := h name known
  unfold defaulted
  generalize f name = given at hname ⊢
  generalize g name = given' at hname ⊢
  cases hname with
  | same => rfl
  | nulled isOptional => exact (needed isOptional).elim
  | within lists' front back hitem =>
    rw [lists] at lists'
    cases lists'
    simp only [list, List.mapM_append, List.mapM_cons, hitem]

end FieldsAlike

theorem ofFields_congr (h : FieldsAlike kind f g) : kind.ofFields f = kind.ofFields g := by
  cases kind with
  | settings =>
    change Settings.ofFields f = Settings.ofFields g
    simp (disch := decide) only [Settings.ofFields, h.defaulted_eq]
  | feed =>
    change ChangeFeed.ofFields f = ChangeFeed.ofFields g
    have hchanges : defaulted "service_changes" [] (list ServiceChange.decode) f =
        defaulted "service_changes" [] (list ServiceChange.decode) g :=
      h.listing_eq (by decide) change [] (by decide) rfl
    simp (disch := decide) only [ChangeFeed.ofFields, h.defaulted_eq, hchanges]
  | change =>
    change ServiceChange.ofFields f = ServiceChange.ofFields g
    have hentities : defaulted "affected_entity" [] (list EntityDescriptor.decode) f =
        defaulted "affected_entity" [] (list EntityDescriptor.decode) g :=
      h.listing_eq (by decide) entity [] (by decide) rfl
    have hfields : defaulted "affected_field" [] (list FieldDescriptor.decode) f =
        defaulted "affected_field" [] (list FieldDescriptor.decode) g :=
      h.listing_eq (by decide) field [] (by decide) rfl
    have hdates : defaulted "affected_dates" [] (list DateDescriptor.decode) f =
        defaulted "affected_dates" [] (list DateDescriptor.decode) g :=
      h.listing_eq (by decide) date [] (by decide) rfl
    simp (disch := decide) only [ServiceChange.ofFields, h.required_eq, hentities, hfields, hdates]
  | entity =>
    change EntityDescriptor.ofFields f = EntityDescriptor.ofFields g
    simp (disch := decide) only [EntityDescriptor.ofFields, h.optional_eq]
  | field =>
    change FieldDescriptor.ofFields f = FieldDescriptor.ofFields g
    simp (disch := decide) only [FieldDescriptor.ofFields, h.optional_eq]
  | date =>
    change DateDescriptor.ofFields f = DateDescriptor.ofFields g
    simp (disch := decide) only [DateDescriptor.ofFields, h.optional_eq]
  | vehicle =>
    change VehicleReport.ofFields f = VehicleReport.ofFields g
    simp (disch := decide) only [VehicleReport.ofFields, h.optional_eq, h.defaulted_eq]
  | occupancy =>
    change OccupancyReport.ofFields f = OccupancyReport.ofFields g
    simp (disch := decide) only [OccupancyReport.ofFields, h.optional_eq, h.required_eq]
  | cancelled =>
    change CancelledTrip.ofFields f = CancelledTrip.ofFields g
    simp (disch := decide) only [CancelledTrip.ofFields, h.optional_eq, h.required_eq]

theorem decode_congr {i j : Json}
    (h : Option.Rel (FieldsAlike kind) (fields kind.fieldNames i) (fields kind.fieldNames j)) :
    kind.decode i = kind.decode j := by
  rw [decode_eq, decode_eq]
  generalize fields kind.fieldNames i = f at h ⊢
  generalize fields kind.fieldNames j = g at h ⊢
  cases h with
  | none => rfl
  | some h => exact ofFields_congr h

end Fields

section Refusal

variable {kind : RecordKind} {name : String} {f : Fields}

theorem required_of_null {α : Type} {decode : Decoder α} (hf : f name = some .null) :
    required name decode f = decode .null := by
  rw [required, hf, Option.bind_some]

theorem defaulted_of_null {α : Type} {value : α} {decode : Decoder α} (hf : f name = some .null) :
    defaulted name value decode f = decode .null := by
  rw [defaulted, hf]

@[simp] theorem list_null {α : Type} (item : Decoder α) : list item .null = none := rfl

@[simp] theorem unsigned_null (bits : Nat) : unsigned bits .null = none := rfl

@[simp] theorem signed64_null : signed64 .null = none := rfl

@[simp] theorem ident_null : ident .null = none := rfl

@[simp] theorem choice_null {α : Type} (named : List (String × α)) :
    choice named .null = none := rfl

def neededNames (kind : RecordKind) : List String :=
  kind.fieldNames.filter fun name => name ∉ kind.optionalNames

theorem ofFields_null (needed : name ∈ kind.neededNames) (hf : f name = some .null) :
    kind.ofFields f = none := by
  have hnames (names : List String) (hkind : kind.neededNames = names) : name ∈ names :=
    hkind ▸ needed
  cases kind with
  | settings =>
    change Settings.ofFields f = none
    have hname := hnames Settings.fieldNames (by decide)
    simp only [Settings.fieldNames, List.mem_cons, List.not_mem_nil, or_false] at hname
    rcases hname with rfl | rfl | rfl | rfl | rfl <;>
    simp [Settings.ofFields, defaulted_of_null hf]
  | feed =>
    change ChangeFeed.ofFields f = none
    have hname := hnames ChangeFeed.fieldNames (by decide)
    simp only [ChangeFeed.fieldNames, List.mem_cons, List.not_mem_nil, or_false] at hname
    rcases hname with rfl | rfl <;>
    simp [ChangeFeed.ofFields, defaulted_of_null hf]
  | change =>
    change ServiceChange.ofFields f = none
    have hname := hnames ServiceChange.fieldNames (by decide)
    simp only [ServiceChange.fieldNames, List.mem_cons, List.not_mem_nil, or_false] at hname
    rcases hname with rfl | rfl | rfl | rfl | rfl <;>
    simp [ServiceChange.ofFields, required_of_null hf, defaulted_of_null hf, FeedTable.decode,
      ChangeKind.decode]
  | entity => exact (List.not_mem_nil (hnames [] (by decide))).elim
  | field => exact (List.not_mem_nil (hnames [] (by decide))).elim
  | date => exact (List.not_mem_nil (hnames [] (by decide))).elim
  | vehicle =>
    change VehicleReport.ofFields f = none
    have hname := hnames ["time_of_record"] (by decide)
    obtain rfl := List.mem_singleton.1 hname
    simp [VehicleReport.ofFields, defaulted_of_null hf]
  | occupancy =>
    change OccupancyReport.ofFields f = none
    have hname := hnames ["vehicle_id", "status", "timestamp"] (by decide)
    simp only [List.mem_cons, List.not_mem_nil, or_false] at hname
    rcases hname with rfl | rfl | rfl <;>
    simp [OccupancyReport.ofFields, required_of_null hf, OccupancyStatus.decode]
  | cancelled =>
    change CancelledTrip.ofFields f = none
    have hname := hnames ["trip_id"] (by decide)
    obtain rfl := List.mem_singleton.1 hname
    simp [CancelledTrip.ofFields, required_of_null hf]

end Refusal

end RecordKind

end Timetable
