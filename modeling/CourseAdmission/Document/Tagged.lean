import CourseAdmission.Document.Record

/-!
Decoders of values whose member `type` says which of several records they are.

The tag may stand anywhere in the object, so the other members are set aside until the end; the
array form begins with the tag.
-/

namespace CourseAdmission.Document

/-- One of the records under its tag, with the decoder of what is written besides the tag. -/
structure Variant (α : Type) where
  tag : String
  decodeRest : Decoder α

/-- Where a tag stands: in a value that is set aside a tag may also be given by its place. -/
inductive TagForm where
  | nameOnly
  | nameOrPlace
  deriving DecidableEq

namespace Variant

variable {α : Type}

/-- The name of the member that holds the tag. -/
def tagName : String := "type"

/-- The variant of a record whose further members are passed over. -/
def ofRecord (tag : String) (record : Record α) : Variant α := ⟨tag, record.lenient⟩

/-- The variant that a tag asks for. -/
def ofTag (variants : List (Variant α)) (form : TagForm) : Decoder (Variant α)
  | .text (.whole tag) =>
    match variants.find? (·.tag == tag) with
    | some variant => .ok variant
    | none => .error (.unknownVariant tag)
  | .number (.integer place) =>
    match form, variants[place.toNat]? with
    | .nameOrPlace, some variant => if 0 ≤ place then .ok variant else .error .unreadable
    | _, _ => .error .unreadable
  | _ => .error .unreadable

/-- Takes members from left to right: reads the tag, and sets all others aside with their order. -/
def takeMembers (variants : List (Variant α)) (form : TagForm) (room : Nat) :
    Option (Variant α) → List (Text × Node) → Except DecodeError (Variant α × List (Text × Node))
  | some variant, [] => .ok (variant, [])
  | none, [] => .error (.missingField tagName)
  | found, (.whole name, value) :: members =>
    if name = tagName then
      match found with
      | some _ => .error (.duplicateField tagName)
      | none => do takeMembers variants form room (some (← ofTag variants form value)) members
    else do
      let value ← Decoder.setAside room value
      let (variant, rest) ← takeMembers variants form room found members
      return (variant, (.whole name, value) :: rest)
  | _, _ => .error .unreadable

/-- The decoder of a tagged value inside which `room` brackets may still be opened. -/
def decode (variants : List (Variant α)) (form : TagForm) (room : Nat) : Decoder α
  | .object members => do
    let (variant, rest) ← takeMembers variants form (room - 1) none members
    variant.decodeRest (.object rest)
  | .array [] => .error (.missingField tagName)
  | .array (tag :: items) => do
    let variant ← ofTag variants form tag
    let rest ← items.mapM (Decoder.setAside (room - 1))
    variant.decodeRest (.array rest)
  | _ => .error .unreadable

end Variant

end CourseAdmission.Document
