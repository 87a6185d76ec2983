import CourseAdmission.Document.Encoder
import CourseAdmission.Document.Tagged

/-!
Rounding policies in documents.
-/

namespace CourseAdmission.RoundingPolicy

open Document

def toNode (policy : RoundingPolicy) : Node :=
  .ofMembers (("type", .ofText policy.tag) ::
    match policy with
    | .decimals places => [("decimals", .ofNat places)]
    | _ => [])

/-- The policies under their tags; a number of places takes eight bits. -/
def variants : List (Variant RoundingPolicy) :=
  [.ofRecord "NONE" (.none .none),
    .ofRecord "UP_NEAREST_INTEGER" (.none .up),
    .ofRecord "DOWN_NEAREST_INTEGER" (.none .down),
    .ofRecord "DECIMALS" (.decimals <$> .required "decimals" (Decoder.natural 8))]

def decoder (form : TagForm) (room : Nat) : Decoder RoundingPolicy :=
  Variant.decode variants form room

end CourseAdmission.RoundingPolicy
