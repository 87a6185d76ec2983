import CourseAdmission.Document.Decoder
import CourseAdmission.Json.Reader

/-!
Decoding whole texts.
-/

namespace CourseAdmission

open Document (Decoder)

/-- The value of a document; nothing but blanks may follow it. A fault of the value itself is the
    first one met. -/
def Document.value {α : Type} (document : Document) (decode : Decoder α) :
    Except DecodeError α := do
  let value ← decode document.root
  if document.complete then return value else throw .unreadable

/-- The value that a JSON text holds. -/
def Json.decode {α : Type} (decode : Decoder α) (text : String) : Except DecodeError α :=
  (Json.read text).value decode

end CourseAdmission
