import CourseAdmission.Document.Decoder

/-!
Decoders of records.

A record is written as an object with a member for each field, in any order, or as an array of the
fields in the order of their declaration. Members are taken from left to right: a member without a
field is refused or passed over at once, a second one for the same field is refused, and only at the
end the first field without a value is missed.

Records are put together from single fields with `<$>` and `<*>`.
-/

namespace CourseAdmission.Document

/-- What a field without a value becomes. -/
inductive Absent (α : Type) where
  /-- It is missed. -/
  | missed
  /-- It has a value by default in an object; an array has to name it. -/
  | optional (value : α)
  /-- It has a value by default, and an array may end before it. -/
  | defaulted (value : α)

/-- What becomes of members without a field. -/
inductive Unknown where
  | refused
  | passedOver
  deriving DecidableEq

/-- Whether an array may have items beyond the last field. -/
inductive Surplus where
  | refused
  | ignored
  deriving DecidableEq

/-- A decoder of records: what has been read so far is held in `Slots`. -/
structure Record (α : Type) where
  Slots : Type
  start : Slots
  /-- Takes a member, if there is a field of its name. -/
  take : Slots → String → Node → Option (Except DecodeError Slots)
  /-- Takes the items of an array for all fields, and gives back those left over. -/
  takeItems : Slots → List Node → Except DecodeError (Slots × List Node)
  finish : Slots → Except DecodeError α

namespace Record

variable {α β : Type}

/-- A single field; it is also found under its other names, and errors name it by the first. -/
def field (name : String) (otherNames : List String) (absent : Absent α) (decode : Decoder α) :
    Record α where
  Slots := Option α
  start := none
  take slot given node :=
    if given = name ∨ given ∈ otherNames then
      match slot with
      | some _ => some (.error (.duplicateField name))
      | none => some (some <$> decode node)
    else none
  takeItems slot items :=
    match items, absent with
    | item :: items, _ => (fun value => (some value, items)) <$> decode item
    | [], .defaulted _ => .ok (slot, [])
    | [], _ => .error .unreadable
  finish slot :=
    match slot, absent with
    | some value, _ => .ok value
    | none, .missed => .error (.missingField name)
    | none, .optional value => .ok value
    | none, .defaulted value => .ok value

/-- A field that has to be there. -/
def required (name : String) (decode : Decoder α) : Record α := field name [] .missed decode

/-- A field that may be absent or `null`. -/
def optional (name : String) (otherNames : List String) (decode : Decoder α) : Record (Option α) :=
  field name otherNames (.optional none) decode.nullable

/-- A field that has a value by default. -/
def defaulted (name : String) (otherNames : List String) (value : α) (decode : Decoder α) :
    Record α :=
  field name otherNames (.defaulted value) decode

/-- A record without fields. -/
def none (value : α) : Record α where
  Slots := Unit
  start := ()
  take _ _ _ := Option.none
  takeItems slot items := .ok (slot, items)
  finish _ := .ok value

def map (f : α → β) (record : Record α) : Record β :=
  { record with finish := fun slots => f <$> record.finish slots }

/-- The fields of one record, then those of another. -/
def both (first : Record α) (second : Record β) : Record (α × β) where
  Slots := first.Slots × second.Slots
  start := (first.start, second.start)
  take slots name node :=
    match first.take slots.1 name node with
    | some taken => some ((·, slots.2) <$> taken)
    | Option.none => (second.take slots.2 name node).map fun taken => (slots.1, ·) <$> taken
  takeItems slots items := do
    let (firstSlots, items) ← first.takeItems slots.1 items
    let (secondSlots, items) ← second.takeItems slots.2 items
    return ((firstSlots, secondSlots), items)
  finish slots := do
    let a ← first.finish slots.1
    let b ← second.finish slots.2
    return (a, b)

instance : Functor Record where
  map := map

instance : Seq Record where
  seq functions arguments := (both functions (arguments ())).map fun (f, a) => f a

/-- Takes members from left to right. -/
def takeMembers (record : Record α) (unknown : Unknown) :
    record.Slots → List (Text × Node) → Except DecodeError record.Slots
  | slots, [] => .ok slots
  | slots, (.whole name, value) :: members =>
    match record.take slots name value with
    | some taken => do record.takeMembers unknown (← taken) members
    | Option.none =>
      match unknown with
      | .refused => .error (.unknownField name)
      | .passedOver =>
        if value.sound then record.takeMembers unknown slots members else .error .unreadable
  | _, _ => .error .unreadable

/-- The decoder of a record. -/
def decode (record : Record α) (unknown : Unknown) (surplus : Surplus) : Decoder α
  | .object members => do record.finish (← record.takeMembers unknown record.start members)
  | .array items => do
    let (slots, left) ← record.takeItems record.start items
    if left.isEmpty ∨ surplus = .ignored then record.finish slots else throw .unreadable
  | _ => .error .unreadable

/-- The decoder of a record whose further members are passed over. -/
def lenient (record : Record α) : Decoder α := record.decode .passedOver .refused

end Record

end CourseAdmission.Document
