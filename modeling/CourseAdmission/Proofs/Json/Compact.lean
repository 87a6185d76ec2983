import CourseAdmission.Proofs.Json.Pretty

/-!
A document written in one line is read back like one written with one part a line.
-/

namespace CourseAdmission.Json

open Document (Node Text)
open Document.Node (writableItems writableMembers rereadItems rereadMembers)
open Token (scan)

/-- Parts between brackets are scanned as the tokens between those of the brackets. -/
theorem scannedAs_enclose (opening closing : Char) {first last : Token}
    (hopening : ∀ rest, scan .between (opening :: rest) = first :: scan .between rest)
    (hclosing : ∀ rest, scan .between (closing :: rest) = last :: scan .between rest)
    (hends : closing ∈ ['\n', ',', ']', '\x7d']) {parts : List String}
    {tokenParts : List (List Token)}
    (hparts : List.Forall₂ ScannedAs (parts.map String.toList) tokenParts) :
    ScannedAs (enclose opening.toString closing.toString parts).toList
      (first :: (separated tokenParts ++ [last])) := by
  intro rest _
  have hcomma : ",".toList = [','] := rfl
  unfold enclose
  simp only [String.toList_append, String.toList_intercalate, List.append_assoc,
    Char.toString_eq_singleton, String.toList_singleton, List.cons_append, List.nil_append, hcomma]
  rw [hopening, scan_parts (fun _ => rfl) hparts (ended_cons rest hends), hclosing]

/-- A member is scanned as its name, a colon, and its value. -/
theorem scannedAs_member (name : String) {value : String} {tokens : List Token}
    (hvalue : ScannedAs value.toList tokens) :
    ScannedAs (quote name ++ ":" ++ value).toList (.text (.whole name) :: .colon :: tokens) := by
  intro rest hrest
  rw [String.toList_append, String.toList_append, List.append_assoc, List.append_assoc,
    Token.scan_quote]
  change Token.text (.whole name) :: .colon :: scan .between (value.toList ++ rest) = _
  rw [hvalue rest hrest]
  rfl

mutual

/-- A document in one line is scanned as the tokens of what it is read as. -/
theorem scannedAs_compact : ∀ {node : Node}, node.isWritable = true →
    ScannedAs (compact node).toList (tokens node.reread)
  | .null, _ => fun rest _ => by
    rw [compact]
    rfl
  | .bool b, _ => fun rest _ => by
    rw [compact]
    cases b <;> rfl
  | .number n, h => fun _ hrest => scan_writeNumber h hrest
  | .text (.whole s), _ => fun rest _ => Token.scan_quote s rest
  | .array items, h => by
    rw [compact, Node.reread, tokens]
    exact scannedAs_enclose '[' ']' (fun _ => rfl) (fun _ => rfl) (by decide)
      (scannedAs_compactItems h)
  | .object members, h => by
    rw [compact, Node.reread, tokens]
    exact scannedAs_enclose '\x7b' '\x7d' (fun _ => rfl) (fun _ => rfl) (by decide)
      (scannedAs_compactMembers h)

theorem scannedAs_compactItems : ∀ {items : List Node}, writableItems items = true →
    List.Forall₂ ScannedAs ((compactItems items).map String.toList)
      (tokensOfItems (rereadItems items))
  | [], _ => .nil
  | item :: items, h => by
    rw [writableItems, Bool.and_eq_true] at h
    exact .cons (scannedAs_compact h.1) (scannedAs_compactItems h.2)

theorem scannedAs_compactMembers : ∀ {members : List (Text × Node)},
    writableMembers members = true →
    List.Forall₂ ScannedAs ((compactMembers members).map String.toList)
      (tokensOfMembers (rereadMembers members))
  | [], _ => .nil
  | (.whole name, value) :: members, h => by
    rw [writableMembers, Bool.and_eq_true, Bool.and_eq_true] at h
    exact .cons (scannedAs_member name (scannedAs_compact h.2.1)) (scannedAs_compactMembers h.2.2)

end

/-- A text that is scanned as the tokens of a sound document is read as the document. -/
theorem read_of_scannedAs {text : String} {node : Node} (hsound : node.sound = true)
    (hscanned : ScannedAs text.toList (tokens node)) : read text = ⟨node, true⟩ := by
  have hscan := hscanned [] ended_nil
  rw [List.append_nil] at hscan
  rw [read, Token.ofText, hscan]
  change ofTokens (tokens node ++ []) = _
  rw [List.append_nil, ofTokens_tokens hsound]

theorem read_compact {node : Node} (h : node.isWritable = true) :
    read (compact node) = ⟨node.reread, true⟩ :=
  read_of_scannedAs (Node.sound_reread h) (scannedAs_compact h)

theorem decode_compact {α : Type} (decode : Document.Decoder α) {node : Node}
    (h : node.isWritable = true) : Json.decode decode (compact node) = decode node.reread := by
  rw [Json.decode, read_compact h, Document.value_complete]

end CourseAdmission.Json
