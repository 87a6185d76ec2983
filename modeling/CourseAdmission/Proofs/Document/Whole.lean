import CourseAdmission.Document.Whole
import CourseAdmission.Proofs.Except

/-!
Whole documents: they are decoded if their value is, and nothing follows it.
-/

namespace CourseAdmission

open Document (Decoder)

variable {α : Type} {decode : Decoder α}

theorem Document.value_complete (root : Document.Node) :
    Document.value ⟨root, true⟩ decode = decode root := by
  rw [Document.value]
  cases decode root <;> rfl

theorem Json.decode_eq_ok_iff {text : String} {a : α} :
    Json.decode decode text = .ok a ↔
      decode (Json.read text).root = .ok a ∧ (Json.read text).complete = true := by
  rw [Json.decode, Document.value, bind_eq_ok_iff]
  constructor
  · rintro ⟨read, hread, hcomplete⟩
    split at hcomplete
    case isTrue h =>
      cases hcomplete
      exact ⟨hread, h⟩
    case isFalse => cases hcomplete
  · rintro ⟨hread, hcomplete⟩
    exact ⟨a, hread, if_pos hcomplete⟩

end CourseAdmission
