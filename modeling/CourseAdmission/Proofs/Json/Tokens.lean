import CourseAdmission.Json.Reader

/-!
The tokens of a document, and the document that is read from them.
-/

namespace CourseAdmission

open Document (Node Text)

namespace Json

/-- The tokens of parts one after the other, with commas between them. -/
def separated : List (List Token) → List Token
  | [] => []
  | part :: parts => part ++ parts.flatMap (.comma :: ·)

mutual

/-- The tokens that a document consists of. -/
def tokens : Node → List Token
  | .null => [.null]
  | .bool b => [.bool b]
  | .number n => [.number n]
  | .text t => [.text t]
  | .array items => .openArray :: (separated (tokensOfItems items) ++ [.closeArray])
  | .object members => .openObject :: (separated (tokensOfMembers members) ++ [.closeObject])
  | .broken => [.invalid]

def tokensOfItems : List Node → List (List Token)
  | [] => []
  | item :: items => tokens item :: tokensOfItems items

def tokensOfMembers : List (Text × Node) → List (List Token)
  | [] => []
  | (name, value) :: members => (.text name :: .colon :: tokens value) :: tokensOfMembers members

end

theorem tokens_eq_cons {node : Node} (hsound : node.sound = true) :
    ∃ first rest, tokens node = first :: rest ∧ first ≠ .closeArray := by
  cases node with
  | broken => cases hsound
  | _ => exact ⟨_, _, rfl, nofun⟩

namespace Reading

open Document.Node (soundItems soundMembers)

theorem step_itemOrEnd {token : Token} (htoken : token ≠ .closeArray) (stack : List Frame) :
    step (.inside .itemOrEnd stack) token = step (.inside .value stack) token := by
  cases token with
  | closeArray => exact absurd rfl htoken
  | _ => rfl

/-- Where an item or the end may come, the tokens of a document are those of an item. -/
theorem foldl_itemOrEnd {node : Node} (hsound : node.sound = true) (stack : List Frame) :
    (tokens node).foldl step (.inside .itemOrEnd stack) =
      (tokens node).foldl step (.inside .value stack) := by
  obtain ⟨first, rest, htokens, hfirst⟩ := tokens_eq_cons hsound
  rw [htokens, List.foldl_cons, List.foldl_cons, step_itemOrEnd hfirst]

mutual

/-- The tokens of a document put it where a value is expected. -/
theorem foldl_tokens : ∀ (node : Node), node.sound = true → ∀ stack : List Frame,
    (tokens node).foldl step (.inside .value stack) = place node stack
  | .null, _, _ => rfl
  | .bool _, _, _ => rfl
  | .number _, _, _ => rfl
  | .text _, _, _ => rfl
  | .array [], _, _ => rfl
  | .array (item :: items), hsound, stack => by
    rw [Node.sound, soundItems, Bool.and_eq_true] at hsound
    have hitem := foldl_tokens item hsound.1 (.array [] :: stack)
    have hitems := foldl_tokensOfItems items hsound.2 [item] stack
    rw [tokens, tokensOfItems, separated, List.foldl_cons, List.append_assoc, List.foldl_append]
    change ((tokensOfItems items).flatMap (.comma :: ·) ++ [Token.closeArray]).foldl step
      ((tokens item).foldl step (.inside .itemOrEnd (.array [] :: stack))) = _
    rw [foldl_itemOrEnd hsound.1, hitem, List.foldl_append]
    change [Token.closeArray].foldl step (((tokensOfItems items).flatMap (.comma :: ·)).foldl step
      (.inside .afterItem (.array [item] :: stack))) = _
    rw [hitems]
    simp [step]
  | .object [], _, _ => rfl
  | .object ((name, value) :: members), hsound, stack => by
    rw [Node.sound, soundMembers, Bool.and_eq_true] at hsound
    have hvalue := foldl_tokens value hsound.1 (.object [] name :: stack)
    have hmembers := foldl_tokensOfMembers members hsound.2 [(name, value)] stack
    rw [tokens, tokensOfMembers, separated, List.foldl_cons, List.append_assoc, List.foldl_append,
      List.foldl_cons, List.foldl_cons]
    change ((tokensOfMembers members).flatMap (.comma :: ·) ++ [Token.closeObject]).foldl step
      ((tokens value).foldl step (.inside .value (.object [] name :: stack))) = _
    rw [hvalue, List.foldl_append]
    change [Token.closeObject].foldl step (((tokensOfMembers members).flatMap (.comma :: ·)).foldl
      step (.inside .afterMember (.object [(name, value)] .cut :: stack))) = _
    rw [hmembers]
    simp [step]

theorem foldl_tokensOfItems : ∀ (items : List Node), soundItems items = true →
    ∀ (taken : List Node) (stack : List Frame),
    ((tokensOfItems items).flatMap (.comma :: ·)).foldl step
        (.inside .afterItem (.array taken :: stack)) =
      .inside .afterItem (.array (items.reverse ++ taken) :: stack)
  | [], _, _, _ => rfl
  | item :: items, hsound, taken, stack => by
    rw [soundItems, Bool.and_eq_true] at hsound
    have hitem := foldl_tokens item hsound.1 (.array taken :: stack)
    have hitems := foldl_tokensOfItems items hsound.2 (item :: taken) stack
    rw [tokensOfItems, List.flatMap_cons, List.cons_append, List.foldl_cons, List.foldl_append]
    change ((tokensOfItems items).flatMap (.comma :: ·)).foldl step
      ((tokens item).foldl step (.inside .value (.array taken :: stack))) = _
    rw [hitem, place, hitems]
    simp

theorem foldl_tokensOfMembers : ∀ (members : List (Text × Node)), soundMembers members = true →
    ∀ (taken : List (Text × Node)) (stack : List Frame),
    ((tokensOfMembers members).flatMap (.comma :: ·)).foldl step
        (.inside .afterMember (.object taken .cut :: stack)) =
      .inside .afterMember (.object (members.reverse ++ taken) .cut :: stack)
  | [], _, _, _ => rfl
  | (name, value) :: members, hsound, taken, stack => by
    rw [soundMembers, Bool.and_eq_true] at hsound
    have hvalue := foldl_tokens value hsound.1 (.object taken name :: stack)
    have hmembers := foldl_tokensOfMembers members hsound.2 ((name, value) :: taken) stack
    rw [tokensOfMembers, List.flatMap_cons, List.cons_append, List.foldl_cons, List.foldl_append,
      List.foldl_cons, List.foldl_cons]
    change ((tokensOfMembers members).flatMap (.comma :: ·)).foldl step
      ((tokens value).foldl step (.inside .value (.object taken name :: stack))) = _
    rw [hvalue, place, hmembers]
    simp

end

end Reading

/-- A document is read from its tokens. -/
theorem ofTokens_tokens {node : Node} (hsound : node.sound = true) :
    ofTokens (tokens node) = ⟨node, true⟩ := by
  rw [ofTokens, Reading.start, Reading.foldl_tokens node hsound []]
  rfl

end Json

end CourseAdmission
