import CourseAdmission.Proofs.Document.Whole
import CourseAdmission.Proofs.Json.Number
import CourseAdmission.Proofs.Json.Quoted
import CourseAdmission.Proofs.Json.Tokens

/-!
A document written with one part a line is read back, but for its numbers: these become what their
own texts are read as.
-/

namespace CourseAdmission

open Document (Node Text)

namespace Document.Node

mutual

/-- A document that has a text: it does not break off, and its texts and numbers can be written. -/
def isWritable : Node → Bool
  | .null => true
  | .bool _ => true
  | .number n => n.isWritable
  | .text t => readableName t
  | .array items => writableItems items
  | .object members => writableMembers members
  | .broken => false

def writableItems : List Node → Bool
  | [] => true
  | item :: items => item.isWritable && writableItems items

def writableMembers : List (Text × Node) → Bool
  | [] => true
  | (name, value) :: members => readableName name && (value.isWritable && writableMembers members)

end

mutual

/-- The document with each number as its text is read. -/
def reread : Node → Node
  | .number n => .number n.reread
  | .array items => .array (rereadItems items)
  | .object members => .object (rereadMembers members)
  | node => node

def rereadItems : List Node → List Node
  | [] => []
  | item :: items => item.reread :: rereadItems items

def rereadMembers : List (Text × Node) → List (Text × Node)
  | [] => []
  | (name, value) :: members => (name, value.reread) :: rereadMembers members

end

mutual

theorem sound_reread : ∀ {node : Node}, node.isWritable = true → node.reread.sound = true
  | .null, _ => rfl
  | .bool _, _ => rfl
  | .number _, _ => rfl
  | .text _, _ => rfl
  | .array items, h => soundItems_reread (show writableItems items = true from h)
  | .object members, h => soundMembers_reread (show writableMembers members = true from h)

theorem soundItems_reread : ∀ {items : List Node}, writableItems items = true →
    soundItems (rereadItems items) = true
  | [], _ => rfl
  | item :: items, h => by
    rw [writableItems, Bool.and_eq_true] at h
    rw [rereadItems, soundItems, sound_reread h.1, soundItems_reread h.2]
    rfl

theorem soundMembers_reread : ∀ {members : List (Text × Node)}, writableMembers members = true →
    soundMembers (rereadMembers members) = true
  | [], _ => rfl
  | (_, value) :: members, h => by
    rw [writableMembers, Bool.and_eq_true, Bool.and_eq_true] at h
    rw [rereadMembers, soundMembers, sound_reread h.2.1, soundMembers_reread h.2.2]
    rfl

end

end Document.Node

namespace Json

open Token (scan)
open Document.Node (writableItems writableMembers rereadItems rereadMembers)

/-- At the end of a part the characters are scanned as the tokens. -/
def ScannedAs (cs : List Char) (tokens : List Token) : Prop :=
  ∀ rest, Ended rest → scan .between (cs ++ rest) = tokens ++ scan .between rest

theorem newLine_append (depth : Nat) (rest : List Char) :
    (newLine depth).toList ++ rest = '\n' :: (List.replicate (2 * depth) ' ' ++ rest) := by
  simp [newLine]

theorem ended_newLine (depth : Nat) (rest : List Char) :
    Ended ((newLine depth).toList ++ rest) := by
  rw [newLine_append]
  exact ended_cons _ (by simp)

theorem scan_newLine (depth : Nat) (rest : List Char) :
    scan .between ((newLine depth).toList ++ rest) = scan .between rest := by
  have hblanks (n : Nat) : scan .between (List.replicate n ' ' ++ rest) = scan .between rest := by
    induction n with
    | zero => rfl
    | succ n ih => exact ih
  rw [newLine_append]
  exact hblanks (2 * depth)

/-- Parts with commas and gaps between them are scanned one after the other, with the commas between
    them. -/
theorem scan_parts {gap : List Char}
    (hgap : ∀ rest, scan .between (gap ++ rest) = scan .between rest)
    {parts : List (List Char)} {tokenParts : List (List Token)}
    (hparts : List.Forall₂ ScannedAs parts tokenParts) {rest : List Char} (hrest : Ended rest) :
    scan .between ((',' :: gap).intercalate parts ++ rest) =
      separated tokenParts ++ scan .between rest := by
  induction hparts with
  | nil => rfl
  | @cons part tokens parts tokenParts hpart hparts ih =>
    cases hparts with
    | nil =>
      rw [List.intercalate_singleton, hpart rest hrest]
      simp [separated]
    | @cons second secondTokens parts tokenParts _ _ =>
      rw [List.intercalate_cons_cons, List.append_assoc, List.append_assoc, List.cons_append,
        hpart _ (ended_cons _ (by simp))]
      change tokens ++ .comma :: scan .between (gap ++ _) = _
      rw [hgap, ih]
      simp [separated]

/-- Lines between brackets are scanned as the tokens between those of the brackets. -/
theorem scannedAs_encloseLines (depth : Nat) (opening closing : Char) {first last : Token}
    (hopening : ∀ rest, scan .between (opening :: rest) = first :: scan .between rest)
    (hclosing : ∀ rest, scan .between (closing :: rest) = last :: scan .between rest)
    {parts : List String} {tokenParts : List (List Token)}
    (hparts : List.Forall₂ ScannedAs (parts.map String.toList) tokenParts) :
    ScannedAs (encloseLines depth opening.toString closing.toString parts).toList
      (first :: (separated tokenParts ++ [last])) := by
  intro rest hrest
  unfold encloseLines
  split
  case isTrue hempty =>
    obtain rfl := List.isEmpty_iff.1 hempty
    cases hparts
    simp [hopening, hclosing, separated]
  case isFalse hne =>
    have hline := ended_newLine depth (closing :: rest)
    have hcomma : ("," ++ newLine (depth + 1)).toList = ',' :: (newLine (depth + 1)).toList := by
      rw [String.toList_append]
      rfl
    simp only [String.toList_append, String.toList_intercalate, List.append_assoc,
      Char.toString_eq_singleton, String.toList_singleton, List.cons_append, List.nil_append]
    rw [hopening, scan_newLine, ← String.toList_append, hcomma,
      scan_parts (scan_newLine (depth + 1)) hparts hline, scan_newLine, hclosing]

mutual

/-- A written document is scanned as the tokens of what it is read as. -/
theorem scannedAs_indented : ∀ {node : Node}, node.isWritable = true → ∀ depth : Nat,
    ScannedAs (indented depth node).toList (tokens node.reread)
  | .null, _, depth => fun rest _ => by
    rw [indented]
    rfl
  | .bool b, _, depth => fun rest _ => by
    rw [indented]
    cases b <;> rfl
  | .number n, h, _ => fun _ hrest => scan_writeNumber h hrest
  | .text (.whole s), _, _ => fun rest _ => Token.scan_quote s rest
  | .array items, h, depth => by
    rw [indented, Node.reread, tokens]
    exact scannedAs_encloseLines depth '[' ']' (fun _ => rfl) (fun _ => rfl)
      (scannedAs_indentedItems h (depth + 1))
  | .object members, h, depth => by
    rw [indented, Node.reread, tokens]
    exact scannedAs_encloseLines depth '\x7b' '\x7d' (fun _ => rfl) (fun _ => rfl)
      (scannedAs_indentedMembers h (depth + 1))

theorem scannedAs_indentedItems : ∀ {items : List Node}, writableItems items = true →
    ∀ depth : Nat, List.Forall₂ ScannedAs ((indentedItems depth items).map String.toList)
      (tokensOfItems (rereadItems items))
  | [], _, _ => .nil
  | item :: items, h, depth => by
    rw [writableItems, Bool.and_eq_true] at h
    exact .cons (scannedAs_indented h.1 depth) (scannedAs_indentedItems h.2 depth)

theorem scannedAs_indentedMembers : ∀ {members : List (Text × Node)},
    writableMembers members = true → ∀ depth : Nat,
    List.Forall₂ ScannedAs ((indentedMembers depth members).map String.toList)
      (tokensOfMembers (rereadMembers members))
  | [], _, _ => .nil
  | (.whole name, value) :: members, h, depth => by
    rw [writableMembers, Bool.and_eq_true, Bool.and_eq_true] at h
    refine .cons ?_ (scannedAs_indentedMembers h.2.2 depth)
    intro rest hrest
    rw [String.toList_append, String.toList_append, List.append_assoc, List.append_assoc]
    rw [writeText, Token.scan_quote]
    change Token.text (.whole name) :: .colon ::
      scan .between ((indented depth value).toList ++ rest) = _
    rw [scannedAs_indented h.2.1 depth rest hrest]
    rfl

end

/-- A written document is read back, with each number as its text is read. -/
theorem read_pretty {node : Node} (h : node.isWritable = true) :
    read (pretty node) = ⟨node.reread, true⟩ := by
  have hscan := scannedAs_indented h 0 [] ended_nil
  rw [List.append_nil] at hscan
  rw [read, Token.ofText, pretty, hscan]
  change ofTokens (tokens node.reread ++ []) = _
  rw [List.append_nil, ofTokens_tokens (Node.sound_reread h)]

theorem decode_pretty {α : Type} (decode : Document.Decoder α) {node : Node}
    (h : node.isWritable = true) : Json.decode decode (pretty node) = decode node.reread := by
  rw [Json.decode, read_pretty h, Document.value_complete]

end Json

end CourseAdmission
