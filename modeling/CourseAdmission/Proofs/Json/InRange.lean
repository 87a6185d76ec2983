import CourseAdmission.Json.Reader
import CourseAdmission.Proofs.Binary64.Scale
import CourseAdmission.Proofs.Results.Mean

/-!
The numbers of a document that is read are finite.

A literal beyond the finite numbers stands for no double, so nothing that is read holds an infinity,
whatever the text is.
-/

namespace CourseAdmission

open Document

/-- An integer of 64 bits, a finite double, or a number that cannot be read. -/
def Document.Number.InRange : Number → Prop
  | .integer n => n.natAbs < Word.limit 64
  | .double x => x.isFinite
  | .outOfRange => True

/-- All numbers of a part of a document are in range. -/
inductive Document.Node.InRange : Node → Prop
  | null : InRange .null
  | bool (b : Bool) : InRange (.bool b)
  | number (n : Number) (hn : n.InRange) : InRange (.number n)
  | text (t : Text) : InRange (.text t)
  | array (items : List Node) (hitems : ∀ item ∈ items, InRange item) : InRange (.array items)
  | object (members : List (Text × Node)) (hmembers : ∀ m ∈ members, InRange m.2) :
    InRange (.object members)
  | broken : InRange .broken

namespace Json

namespace Numeral

open Binary64

/-- Digits are taken only while they fit into 64 bits. -/
theorem gather_le {n : Nat} (hn : n ≤ maxWord) (cs : List Char) : (gather n cs).1 ≤ maxWord := by
  induction cs generalizing n with
  | nil => exact hn
  | cons c cs ih =>
    rw [gather]
    split
    case isTrue hnext => exact ih hnext
    case isFalse => exact hn

theorem leading_le (n : Numeral) : n.leading.1 ≤ maxWord :=
  gather_le (gather_le (Nat.zero_le _) _) _

theorem isFinite_shrink {x : Binary64} (hx : x.isFinite) (power : Nat) :
    (shrink x power).isFinite = true := by
  unfold shrink
  split
  case isTrue hpower => exact isFinite_div_powTen hx hpower
  case isFalse =>
    split
    case isTrue hpower =>
      have hrest : power - maxPower ≤ maxPower := by omega
      exact isFinite_div_powTen (isFinite_div_powTen hx le_rfl) hrest
    case isFalse => exact isFinite_zero

theorem isFinite_scale {significand : Nat} (hword : significand ≤ maxWord) {power : Int}
    {x : Binary64} (hscale : scale significand power = some x) : x.isFinite = true := by
  have hfinite : (ofNat significand).isFinite :=
    (ofNat_count_spec (hword.trans_lt (by decide))).1
  unfold scale at hscale
  dsimp only at hscale
  split at hscale
  case isTrue =>
    rw [← Option.some.inj hscale]
    exact isFinite_shrink hfinite _
  case isFalse =>
    split at hscale
    case isTrue =>
      rw [← Option.some.inj hscale]
      exact hfinite
    case isFalse =>
      split at hscale
      case isTrue =>
        split at hscale
        case isTrue hproduct =>
          rw [← Option.some.inj hscale]
          exact hproduct
        case isFalse => cases hscale
      case isFalse => cases hscale

theorem isFinite_magnitude {n : Numeral} {x : Binary64} (hx : n.magnitude = some x) :
    x.isFinite = true := by
  have hword := n.leading_le
  unfold magnitude at hx
  dsimp only at hx
  split at hx
  case h_1 => exact isFinite_scale hword hx
  case h_2 =>
    split at hx
    case isTrue =>
      split at hx
      case isTrue =>
        rw [← Option.some.inj hx]
        exact isFinite_zero
      case isFalse => cases hx
    case isFalse => exact isFinite_scale hword hx

/-- What a literal stands for is in range. -/
theorem inRange_number (n : Numeral) : n.number.InRange := by
  unfold number
  cases hinteger : n.integer? with
  | some value =>
    change value.natAbs < Word.limit 64
    have hbits : Word.limit 63 < Word.limit 64 := by decide
    have hword : maxWord < Word.limit 64 := by decide
    unfold integer? at hinteger
    dsimp only at hinteger
    generalize Decimal.ofDigits n.whole = digits at hinteger
    generalize Word.limit 63 = bits, Word.limit 64 = limit, maxWord = word at *
    split at hinteger
    case isTrue =>
      split at hinteger
      case isTrue =>
        split at hinteger
        case isTrue => cases hinteger; omega
        case isFalse => cases hinteger
      case isFalse =>
        split at hinteger
        case isTrue => cases hinteger; omega
        case isFalse => cases hinteger
    case isFalse => cases hinteger
  | none =>
    cases hmagnitude : n.magnitude with
    | none => trivial
    | some x =>
      have hfinite := isFinite_magnitude hmagnitude
      change (if n.negative then -x else x).isFinite = true
      split
      case isTrue => rwa [isFinite_neg]
      case isFalse => exact hfinite

end Numeral

namespace Token

/-- A number that a token stands for is in range. -/
def InRange : Token → Prop
  | .number n => n.InRange
  | _ => True

/-- The token that a literal name completes is in range. -/
def Scan.InRange : Scan → Prop
  | .word _ _ token => token.InRange
  | _ => True

/-- Tokens that are completed, and what is in progress after them. -/
def Emits (taken : List Token × Scan) : Prop := (∀ token ∈ taken.1, token.InRange) ∧ taken.2.InRange

theorem emits_begin (c : Char) : Emits (begin c) := by
  unfold begin
  split
  · exact ⟨by simp, trivial⟩
  · split <;> try exact ⟨by simp [InRange], trivial⟩
    split <;> exact ⟨by simp [InRange], trivial⟩

theorem emits_stepQuoted (q : Quoted) (c : Char) : Emits (stepQuoted q c) := by
  unfold stepQuoted
  split
  · split
    · exact ⟨by simp [InRange], trivial⟩
    · split
      · exact ⟨by simp, trivial⟩
      · split <;> exact ⟨by simp [InRange], trivial⟩
  · split
    · exact ⟨by simp, trivial⟩
    · split <;> exact ⟨by simp [InRange], trivial⟩
  · split
    · dsimp only
      split <;> exact ⟨by simp, trivial⟩
    · exact ⟨by simp [InRange], trivial⟩

theorem emits_step {state : Scan} (hstate : state.InRange) (c : Char) : Emits (step state c) := by
  cases state with
  | between => exact emits_begin c
  | word next left token =>
    unfold step
    dsimp only
    split
    · split
      · exact ⟨List.forall_mem_singleton.2 hstate, trivial⟩
      · exact ⟨by simp, hstate⟩
    · exact ⟨by simp [InRange], trivial⟩
  | number draft =>
    unfold step
    dsimp only
    split
    · exact ⟨by simp, trivial⟩
    · split
      case h_1 numeral _ =>
        split
        · exact ⟨by simp [InRange], trivial⟩
        · obtain ⟨htokens, hscan⟩ := emits_begin c
          exact ⟨List.forall_mem_cons.2 ⟨numeral.inRange_number, htokens⟩, hscan⟩
      case h_2 => exact ⟨by simp [InRange], trivial⟩
  | quoted q => exact emits_stepQuoted q c
  | stopped => exact ⟨by simp [step], trivial⟩

theorem inRange_finish (state : Scan) : ∀ token ∈ finish state, token.InRange := by
  cases state with
  | number draft =>
    rw [finish]
    split
    case h_1 numeral _ => exact List.forall_mem_singleton.2 numeral.inRange_number
    case h_2 => simp [InRange]
  | _ => simp [finish, InRange]

/-- All tokens of a text are in range. -/
theorem inRange_scan {state : Scan} (hstate : state.InRange) (cs : List Char) :
    ∀ token ∈ scan state cs, token.InRange := by
  induction cs generalizing state with
  | nil => exact inRange_finish state
  | cons c cs ih =>
    obtain ⟨htokens, hnext⟩ := emits_step hstate c
    rw [scan]
    exact List.forall_mem_append.2 ⟨htokens, ih hnext⟩

end Token

/-- What has been read of the parts of an open array or object is in range. -/
def Frame.InRange : Frame → Prop
  | .array items => ∀ item ∈ items, item.InRange
  | .object members _ => ∀ m ∈ members, m.2.InRange

theorem inRange_closeAround {node : Node} (hnode : node.InRange) {stack : List Frame}
    (hstack : ∀ frame ∈ stack, frame.InRange) : (closeAround node stack).InRange := by
  induction stack generalizing node with
  | nil => exact hnode
  | cons frame stack ih =>
    obtain ⟨hframe, hrest⟩ := List.forall_mem_cons.1 hstack
    cases frame with
    | array items =>
      have hitems : ∀ item ∈ node :: items, item.InRange := List.forall_mem_cons.2 ⟨hnode, hframe⟩
      exact ih (.array _ fun item hitem => hitems item (List.mem_reverse.1 hitem)) hrest
    | object members name =>
      have hmembers : ∀ m ∈ (name, node) :: members, m.2.InRange :=
        List.forall_mem_cons.2 ⟨hnode, hframe⟩
      exact ih (.object _ fun m hm => hmembers m (List.mem_reverse.1 hm)) hrest

namespace Reading

/-- What has been read so far is in range. -/
def InRange : Reading → Prop
  | .inside _ stack => ∀ frame ∈ stack, frame.InRange
  | .done root _ => root.InRange

variable {stack : List Frame}

theorem inRange_breakOff (hstack : ∀ frame ∈ stack, frame.InRange) :
    (breakOff stack).InRange := inRange_closeAround .broken hstack

theorem inRange_place {node : Node} (hnode : node.InRange)
    (hstack : ∀ frame ∈ stack, frame.InRange) : (place node stack).InRange := by
  cases stack with
  | nil => exact hnode
  | cons frame stack =>
    obtain ⟨hframe, hrest⟩ := List.forall_mem_cons.1 hstack
    cases frame with
    | array items =>
      exact List.forall_mem_cons.2 ⟨List.forall_mem_cons.2 ⟨hnode, hframe⟩, hrest⟩
    | object members name =>
      exact List.forall_mem_cons.2 ⟨List.forall_mem_cons.2 ⟨hnode, hframe⟩, hrest⟩

theorem inRange_placeToken (hstack : ∀ frame ∈ stack, frame.InRange) {token : Token}
    (htoken : token.InRange) : (placeToken stack token).InRange := by
  cases token with
  | null => exact inRange_place .null hstack
  | bool b => exact inRange_place (.bool b) hstack
  | number n => exact inRange_place (.number n htoken) hstack
  | text t => exact inRange_place (.text t) hstack
  | openArray => exact List.forall_mem_cons.2 ⟨by simp [Frame.InRange], hstack⟩
  | openObject => exact List.forall_mem_cons.2 ⟨by simp [Frame.InRange], hstack⟩
  | _ => exact inRange_breakOff hstack

theorem inRange_closeArray {items : List Node}
    (hstack : ∀ frame ∈ .array items :: stack, frame.InRange) :
    (place (.array items.reverse) stack).InRange := by
  obtain ⟨hitems, hrest⟩ := List.forall_mem_cons.1 hstack
  exact inRange_place (.array _ fun item hitem => hitems item (List.mem_reverse.1 hitem)) hrest

theorem inRange_closeObject {members : List (Text × Node)} {name : Text}
    (hstack : ∀ frame ∈ .object members name :: stack, frame.InRange) :
    (place (.object members.reverse) stack).InRange := by
  obtain ⟨hmembers, hrest⟩ := List.forall_mem_cons.1 hstack
  exact inRange_place (.object _ fun m hm => hmembers m (List.mem_reverse.1 hm)) hrest

/-- Naming the next member changes none of those that are read. -/
theorem inRange_name {members : List (Text × Node)} {name : Text} (next : Text)
    (hstack : ∀ frame ∈ .object members name :: stack, frame.InRange) :
    (inside .colon (.object members next :: stack)).InRange := by
  obtain ⟨hmembers, hrest⟩ := List.forall_mem_cons.1 hstack
  exact List.forall_mem_cons.2 ⟨hmembers, hrest⟩

theorem inRange_step {reading : Reading} (hreading : reading.InRange) {token : Token}
    (htoken : token.InRange) : (step reading token).InRange := by
  cases reading with
  | done root trailing => exact hreading
  | inside expect stack =>
    unfold step
    dsimp only
    split
    case h_1 => exact inRange_placeToken hreading htoken
    case h_2 => exact inRange_closeArray hreading
    case h_3 => exact inRange_placeToken hreading htoken
    case h_4 => exact hreading
    case h_5 => exact inRange_closeArray hreading
    case h_6 => exact inRange_name _ hreading
    case h_7 => exact inRange_closeObject hreading
    case h_8 => exact inRange_name _ hreading
    case h_9 => exact hreading
    case h_10 => exact hreading
    case h_11 => exact inRange_closeObject hreading
    case h_12 => exact inRange_breakOff hreading

theorem inRange_foldl {reading : Reading} (hreading : reading.InRange) {tokens : List Token}
    (htokens : ∀ token ∈ tokens, token.InRange) : (tokens.foldl step reading).InRange := by
  induction tokens generalizing reading with
  | nil => exact hreading
  | cons token tokens ih =>
    obtain ⟨htoken, hrest⟩ := List.forall_mem_cons.1 htokens
    exact ih (inRange_step hreading htoken) hrest

theorem inRange_root_finish {reading : Reading} (hreading : reading.InRange) :
    reading.finish.root.InRange := by
  cases reading with
  | done root trailing => exact hreading
  | inside expect stack => exact inRange_closeAround .broken hreading

end Reading

/-- All numbers of a text that is read are in range. -/
theorem inRange_read (text : String) : (read text).root.InRange := by
  have hstart : Reading.start.InRange := by simp [Reading.start, Reading.InRange]
  have hbetween : Token.Scan.between.InRange := trivial
  have htokens := Token.inRange_scan hbetween text.toList
  exact Reading.inRange_root_finish (Reading.inRange_foldl hstart htokens)

end Json

end CourseAdmission
