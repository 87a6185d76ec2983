import CourseAdmission.Proofs.Json.Quoted
import CourseAdmission.Proofs.Toml.Scanner
import CourseAdmission.Toml.Text

/-!
Texts in double quotes are scanned as the texts that they quote.
-/

namespace CourseAdmission.Toml

open Scanner

/-- The escapes of JSON are escapes here too, but the control character behind the ASCII letters has
    to be escaped as well. -/
def escape (c : Char) : List Char :=
  if c = '\x7f' then ['\\', 'u', '0', '0', '7', 'f'] else Json.escape c

/-- The text in double quotes. -/
def quote (s : String) : List Char := '"' :: (s.toList.flatMap escape ++ ['"'])

/-- A character of a text in double quotes, or an escape. -/
def quotedChar : Scanner Char :=
  satisfy (fun c => isPlain c && c != '"' && c != '\\') <|> (do char '\\'; escapeRest)

theorem quotedChar_of_plain {c : Char} (hplain : isPlain c = true) (hquote : c ≠ '"')
    (hbackslash : c ≠ '\\') (rest : List Char) : quotedChar (c :: rest) = some (c, rest) :=
  orElse_of_eq_some (satisfy_of_pos (by simp [hplain, hquote, hbackslash]) rest)

/-- An escape of four digits is scanned as the character of that number. -/
theorem quotedChar_hex {c : Char} (hc : c.toNat < 0x100) (rest : List Char) :
    quotedChar ('\\' :: 'u' :: '0' :: '0' :: Json.hexDigit (c.toNat / 16) ::
      Json.hexDigit (c.toNat % 16) :: rest) = some (c, rest) := by
  have htop := Json.Token.hexDigit?_hexDigit (n := c.toNat / 16) (by omega)
  have hlow := Json.Token.hexDigit?_hexDigit (n := c.toNat % 16) (by omega)
  have hvalue : c.toNat / 16 * 16 + c.toNat % 16 = c.toNat := by omega
  have hzero : Json.Token.hexDigit? '0' = some 0 := rfl
  have hcode : hexChar.hexDigits 4 0 ('0' :: '0' :: Json.hexDigit (c.toNat / 16) ::
      Json.hexDigit (c.toNat % 16) :: rest) = some (c.toNat, rest) := by
    have hdigit {digit : Char} {n : Nat} (hn : Json.Token.hexDigit? digit = some n)
        (left code : Nat) (cs : List Char) : hexChar.hexDigits (left + 1) code (digit :: cs) =
          hexChar.hexDigits left (code * 16 + n) cs := by
      rw [hexChar.hexDigits, bind_of_eq_some (satisfy_of_pos rfl cs), hn]
    rw [hdigit hzero, hdigit hzero, hdigit htop, hdigit hlow]
    simp only [Nat.zero_mul, Nat.zero_add, hvalue]
    rfl
  have hvalid : c.toNat < 0xD800 ∨ (0xDFFF < c.toNat ∧ c.toNat < 0x110000) := .inl (by omega)
  refine (orElse_of_eq_none (satisfy_of_neg rfl _)).trans ?_
  refine (bind_of_eq_some (char_self _ _)).trans ?_
  change hexChar 4 _ = _
  refine (bind_of_eq_some hcode).trans ?_
  rw [decide_eq_true hvalid, Char.ofNat_toNat]
  rfl

/-- An escaped character is scanned as the character. -/
theorem quotedChar_escape (c : Char) (rest : List Char) :
    quotedChar (escape c ++ rest) = some (c, rest) := by
  unfold escape
  split
  case isTrue hdelete =>
    subst hdelete
    rfl
  case isFalse hdelete =>
    unfold Json.escape
    split
    case h_8 hquote hbackslash _ _ _ _ _ =>
      split
      case isTrue hcontrol => exact quotedChar_hex (by omega) rest
      case isFalse hprintable =>
        have hcode : c.toNat ≠ 0x7F := fun h => hdelete (Char.toNat_inj.1 h)
        have hplain : isPlain c = true := by
          simp [isPlain, hcode, Nat.not_lt.1 hprintable]
        exact quotedChar_of_plain hplain hquote hbackslash rest
    all_goals rfl

theorem escape_ne_nil (c : Char) : escape c ≠ [] := by
  unfold escape
  split
  · exact nofun
  · unfold Json.escape
    split
    case h_8 => split <;> exact List.cons_ne_nil _ _
    all_goals exact List.cons_ne_nil _ _

/-- A text in double quotes is scanned as the text that it quotes. -/
theorem basicText_quote (s : String) (rest : List Char) :
    basicText (quote s ++ rest) = some (s, rest) := by
  have hstop : quotedChar ('"' :: rest) = none := rfl
  have hrun : Run quotedChar (s.toList.flatMap escape ++ '"' :: rest) (s.toList.map id)
      ('"' :: rest) :=
    run_flatMap escape id (fun _ => True) (fun c _ rest _ => quotedChar_escape c rest)
      (fun c _ => escape_ne_nil c) (fun _ _ _ => trivial) trivial hstop
  rw [List.map_id] at hrun
  rw [quote, List.cons_append, List.append_assoc, basicText, bind_of_eq_some (char_self _ _)]
  refine (bind_of_eq_some (many_of_run hrun)).trans ?_
  refine (bind_of_eq_some (char_self '"' rest)).trans ?_
  rw [String.ofList_toList]
  rfl

/-- No escape begins with a quote. -/
theorem exists_escape_eq_cons (c : Char) : ∃ first others, escape c = first :: others ∧
    first ≠ '"' := by
  unfold escape
  split
  · exact ⟨_, _, rfl, by decide⟩
  · unfold Json.escape
    split
    case h_8 hquote _ _ _ _ _ _ =>
      split
      · exact ⟨_, _, rfl, by decide⟩
      · exact ⟨_, _, rfl, hquote⟩
    all_goals exact ⟨_, _, rfl, by decide⟩

/-- A text on one line does not begin with three quotes, unless a quote follows it. -/
theorem word_quote (s : String) {rest : List Char} (hrest : '"' ∉ rest.head?) :
    word ['"', '"', '"'] (quote s ++ rest) = none := by
  refine (bind_of_eq_some (char_self _ _)).trans ?_
  cases hchars : s.toList with
  | nil =>
    refine (bind_of_eq_some (char_self _ _)).trans (bind_of_eq_none ?_)
    cases rest with
    | nil => rfl
    | cons c rest => exact char_of_ne (by simpa using hrest) rest
  | cons c cs =>
    obtain ⟨first, others, hescape, hfirst⟩ := exists_escape_eq_cons c
    rw [List.flatMap_cons, hescape]
    exact bind_of_eq_none (char_of_ne hfirst _)

theorem text_quote (s : String) {rest : List Char} (hrest : '"' ∉ rest.head?) :
    text (quote s ++ rest) = some (s, rest) := by
  refine (orElse_of_eq_none (bind_of_eq_none (word_quote s hrest))).trans ?_
  have hother : word ['\'', '\'', '\''] (quote s ++ rest) = none := rfl
  refine (orElse_of_eq_none (bind_of_eq_none hother)).trans ?_
  exact orElse_of_eq_some (basicText_quote s rest)

/-! Keys -/

theorem blanks_append {blank rest : List Char} (hblank : ∀ c ∈ blank, isBlank c = true)
    (hrest : ∀ c ∈ rest.head?, isBlank c = false) : blanks (blank ++ rest) = some ((), rest) :=
  discard_of_eq_some (takeWhile_append hblank hrest)

theorem blanks_of_head {rest : List Char} (hrest : ∀ c ∈ rest.head?, isBlank c = false) :
    blanks rest = some ((), rest) := blanks_append (List.forall_mem_nil _) hrest

/-- A name that needs no quotes. -/
def IsBare (name : String) : Prop := name.toList ≠ [] ∧ name.toList.all isBareKey = true

instance (name : String) : Decidable (IsBare name) := inferInstanceAs (Decidable (_ ∧ _))

/-- What may follow a key: none of the characters that would belong to it. -/
def EndsKey (rest : List Char) : Prop :=
  ∀ c ∈ rest.head?, isBlank c = false ∧ isBareKey c = false ∧ c ≠ '.'

theorem isBlank_of_isBareKey {c : Char} (hc : isBareKey c = true) : isBlank c = false := by
  rw [isBlank, Bool.or_eq_false_iff, beq_eq_false_iff_ne, beq_eq_false_iff_ne]
  constructor <;> rintro rfl <;> exact absurd hc (by decide)

theorem isBareKey_of_isBlank {c : Char} (hc : isBlank c = true) : isBareKey c = false := by
  rw [Bool.eq_false_iff]
  intro hbare
  rw [isBlank_of_isBareKey hbare] at hc
  cases hc

theorem keyPart_bare {name : String} (hname : IsBare name) {blank rest : List Char}
    (hblank : ∀ c ∈ blank, isBlank c = true) (hrest : EndsKey rest) :
    keyPart (name.toList ++ (blank ++ rest)) = some (name, rest) := by
  obtain ⟨hsome, hbare⟩ := hname
  obtain ⟨c, cs, hchars⟩ := List.exists_cons_of_ne_nil hsome
  rw [hchars, List.all_eq_true, List.forall_mem_cons] at hbare
  have hstop : ∀ d ∈ (blank ++ rest).head?, isBareKey d = false := by
    cases blank with
    | nil => exact fun d hd => (hrest d hd).2.1
    | cons d blank =>
      rintro _ ⟨⟩
      exact isBareKey_of_isBlank (hblank d (by simp))
  have hquote : c ≠ '"' ∧ c ≠ '\'' := by
    constructor <;> rintro rfl <;> exact absurd hbare.1 (by decide)
  have hfirst : basicText (c :: (cs ++ (blank ++ rest))) = none :=
    bind_of_eq_none (char_of_ne hquote.1 _)
  have hsecond : literalText (c :: (cs ++ (blank ++ rest))) = none :=
    bind_of_eq_none (char_of_ne hquote.2 _)
  have htake : takeWhile1 isBareKey (c :: (cs ++ (blank ++ rest))) =
      some (c :: cs, blank ++ rest) :=
    (bind_of_eq_some (satisfy_of_pos hbare.1 _)).trans
      (bind_of_eq_some (takeWhile_append hbare.2 hstop))
  rw [hchars, List.cons_append]
  refine (bind_of_eq_some (blanks_of_head (by simpa using isBlank_of_isBareKey hbare.1))).trans ?_
  refine (bind_of_eq_some ((orElse_of_eq_none hfirst).trans ((orElse_of_eq_none hsecond).trans
    (bind_of_eq_some htake)))).trans ?_
  refine (bind_of_eq_some (blanks_append hblank fun d hd => (hrest d hd).1)).trans ?_
  rw [← hchars, String.ofList_toList]
  rfl

/-- A bare key, with blanks behind it, is scanned as its name alone. -/
theorem key_bare {name : String} (hname : IsBare name) {blank rest : List Char}
    (hblank : ∀ c ∈ blank, isBlank c = true) (hrest : EndsKey rest) :
    key (name.toList ++ (blank ++ rest)) = some (([], name), rest) := by
  have hdot : (char '.') rest = none := by
    cases rest with
    | nil => rfl
    | cons c rest => exact char_of_ne (hrest c rfl).2.2 rest
  refine (bind_of_eq_some (keyPart_bare hname hblank hrest)).trans ?_
  exact bind_of_eq_some (many_of_eq_none (bind_of_eq_none hdot))

end CourseAdmission.Toml
