import CourseAdmission.Proofs.Toml.Number
import CourseAdmission.Proofs.Toml.Text
import CourseAdmission.Toml.Reader

/-!
Lines of a TOML document: values, tables in braces, and headers of arrays of tables.
-/

namespace CourseAdmission.Toml

open Scanner Document

/-! Values -/

/-- The text is scanned as the node, whatever ends it. -/
def ScannedAs (depth : Nat) (text : List Char) (node : Node) : Prop :=
  ∀ rest, EndsValue rest → value depth (text ++ rest) = some (node, rest)

theorem scannedAs_quote (depth : Nat) (s : String) : ScannedAs depth (quote s) (.ofText s) := by
  intro rest hrest
  have hquote : '"' ∉ rest.head? := fun hmem => by simpa using hrest _ hmem
  have hpeek : peek (quote s ++ rest) = some (some '"', quote s ++ rest) := rfl
  unfold value
  refine (bind_of_eq_some hpeek).trans ?_
  exact bind_of_eq_some (text_quote s hquote)

theorem value_of_numberStart (depth : Nat) {c : Char} (hc : c.isDigit = true ∨ c = '-')
    (cs : List Char) : value depth (c :: cs) = number (c :: cs) := by
  have hpeek : peek (c :: cs) = some (some c, c :: cs) := rfl
  unfold value
  refine (bind_of_eq_some hpeek).trans (congrFun ?_ _)
  have hother {d : Char} (hd : d.isDigit = false) (hminus : d ≠ '-') : c ≠ d := by
    rintro rfl
    rcases hc with hc | hc
    · rw [hd] at hc
      cases hc
    · exact hminus hc
  split
  case h_1 heq => exact absurd (Option.some.inj heq) (hother rfl (by decide))
  case h_2 heq => exact absurd (Option.some.inj heq) (hother rfl (by decide))
  case h_3 heq => exact absurd (Option.some.inj heq) (hother rfl (by decide))
  case h_4 heq => exact absurd (Option.some.inj heq) (hother rfl (by decide))
  case h_5 d _ _ _ _ heq =>
    obtain rfl := Option.some.inj heq
    have hquote : ¬(c == '"' || c == '\'') = true := by
      simp [hother (d := '"') rfl (by decide), hother (d := '\'') rfl (by decide)]
    have hstart : isNumberStart c = true := by
      rcases hc with hc | rfl
      · simp [isNumberStart, hc]
      · rfl
    rw [if_neg hquote, if_pos hstart]
  case h_6 heq => cases heq

theorem scannedAs_text (depth : Nat) {n : PlainNumber} (hrange : n.InRange) :
    ScannedAs depth n.text (.number (scannedNumber n)) := by
  intro rest hrest
  rw [← number_text hrange hrest, text_append, PlainNumber.signText]
  split
  · exact value_of_numberStart depth (.inr rfl) _
  · obtain ⟨c, cs, hwhole, hc⟩ := PlainNumber.exists_whole_eq_cons (n := n)
    rw [hwhole]
    exact value_of_numberStart depth (.inl hc) _

/-! Names and values -/

/-- A name, and the text of its value with the node that it is scanned as. -/
structure Assignment where
  name : String
  text : List Char
  node : Node

namespace Assignment

def spelled (a : Assignment) : List Char := a.name.toList ++ ([' ', '=', ' '] ++ a.text)

/-- The name needs no quotes, and the value is scanned where so many brackets may be opened. -/
structure Sound (depth : Nat) (a : Assignment) : Prop where
  bare : IsBare a.name
  scanned : ScannedAs depth a.text a.node

/-- What the assignment is scanned as: a key without a path, and the value. -/
def keyed (a : Assignment) : (List String × String) × Node := (([], a.name), a.node)

/-- The entry of a table that it adds. -/
def entry (a : Assignment) : String × Entry := (a.name, .value a.node)

end Assignment

variable {a : Assignment} {depth : Nat} {rest : List Char}

theorem endsKey_cons (rest : List Char) {c : Char} (hc : c ∈ ['=', ']']) :
    EndsKey (c :: rest) := by
  rintro d ⟨⟩
  simp only [List.mem_cons, List.not_mem_nil, or_false] at hc
  rcases hc with rfl | rfl <;> exact ⟨rfl, rfl, by decide⟩

/-- A name is scanned with the blank behind it, up to the mark before the value. -/
theorem key_spelled (hname : IsBare a.name) (rest : List Char) :
    key (a.spelled ++ rest) = some (([], a.name), '=' :: ' ' :: (a.text ++ rest)) := by
  have hblank : ∀ c ∈ [' '], isBlank c = true := List.all_eq_true.1 rfl
  have hspelled : a.spelled ++ rest =
      a.name.toList ++ ([' '] ++ '=' :: ' ' :: (a.text ++ rest)) := by
    simp [Assignment.spelled]
  rw [hspelled]
  exact key_bare hname hblank (endsKey_cons _ (by decide))

/-- No value begins with a blank. -/
theorem ScannedAs.isBlank_head {text : List Char} {node : Node} (h : ScannedAs depth text node)
    (rest : List Char) : ∀ c ∈ (text ++ rest).head?, isBlank c = false := by
  have hvalue := h [] (by simp [EndsValue])
  rw [List.append_nil] at hvalue
  cases text with
  | nil =>
    unfold value at hvalue
    cases hvalue
  | cons c text =>
    rintro _ ⟨⟩
    rw [Bool.eq_false_iff]
    intro hblank
    rw [isBlank, Bool.or_eq_true, beq_iff_eq, beq_iff_eq] at hblank
    unfold value at hvalue
    rcases hblank with rfl | rfl <;> cases hvalue

/-! Tables in braces -/

/-- One of the entries between braces. -/
def entryIn (depth : Nat) : Scanner ((List String × String) × Node) := do
  let key ← key
  char '='
  blanks
  let node ← value depth
  blanks
  return (key, node)

theorem isBlank_of_endsValue (hrest : EndsValue rest) : ∀ c ∈ rest.head?, isBlank c = false := by
  intro c hc
  have hmark := hrest c hc
  simp only [List.mem_cons, List.not_mem_nil, or_false] at hmark
  rcases hmark with rfl | rfl | rfl <;> rfl

/-- Behind the mark, the blank before the value is passed over. -/
theorem blanks_assigned (ha : a.Sound depth) (rest : List Char) :
    blanks (' ' :: (a.text ++ rest)) = some ((), a.text ++ rest) := by
  have hblank : ∀ c ∈ [' '], isBlank c = true := List.all_eq_true.1 rfl
  exact blanks_append hblank (ha.scanned.isBlank_head rest)

theorem entryIn_spelled (ha : a.Sound depth) (hrest : EndsValue rest) :
    entryIn depth (a.spelled ++ rest) = some (a.keyed, rest) := by
  refine (bind_of_eq_some (key_spelled ha.bare rest)).trans ?_
  refine (bind_of_eq_some (char_self '=' _)).trans ?_
  refine (bind_of_eq_some (blanks_assigned ha rest)).trans ?_
  refine (bind_of_eq_some (ha.scanned rest hrest)).trans ?_
  exact bind_of_eq_some (blanks_of_head (isBlank_of_endsValue hrest))

/-- The table with these entries. -/
def braces (entries : List Assignment) : List Char :=
  '\x7b' :: ([','].intercalate (entries.map Assignment.spelled) ++ ['\x7d'])

/-- Parts with separators between them: each part but the first comes after a separator. -/
theorem intercalate_cons (separator part : List Char) (parts : List (List Char)) :
    separator.intercalate (part :: parts) = part ++ parts.flatMap (separator ++ ·) := by
  induction parts generalizing part with
  | nil => rw [List.intercalate_singleton, List.flatMap_nil, List.append_nil]
  | cons next parts ih =>
    rw [List.intercalate_cons_cons, ih, List.flatMap_cons, List.append_assoc, List.append_assoc]

theorem endsValue_cons (rest : List Char) {c : Char} (hc : c ∈ ['\n', ',', '\x7d']) :
    EndsValue (c :: rest) := by
  rintro d ⟨⟩
  exact hc

/-- The entries between braces are scanned up to the closing one. -/
theorem separated_entryIn {entries : List Assignment} (hsound : ∀ a ∈ entries, a.Sound depth)
    (rest : List Char) : separated (entryIn depth) (char ',')
        ([','].intercalate (entries.map Assignment.spelled) ++ '\x7d' :: rest) =
      some (entries.map Assignment.keyed, '\x7d' :: rest) := by
  have hends : EndsValue ('\x7d' :: rest) := endsValue_cons rest (by decide)
  cases entries with
  | nil => exact separated_of_eq_none rfl
  | cons a entries =>
    rw [List.forall_mem_cons] at hsound
    have hmore : Run (do let _ ← char ','; entryIn depth)
        (entries.flatMap (fun a => ',' :: a.spelled) ++ '\x7d' :: rest)
        (entries.map Assignment.keyed) ('\x7d' :: rest) :=
      run_flatMap (fun a => ',' :: Assignment.spelled a) Assignment.keyed EndsValue
        (fun a ha _ hrest => (bind_of_eq_some (char_self ',' _)).trans
          (entryIn_spelled (hsound.2 a ha) hrest))
        (fun _ _ => List.cons_ne_nil _ _) (fun _ _ _ => endsValue_cons _ (by decide)) hends rfl
    have hfollows : EndsValue (entries.flatMap (fun a => ',' :: a.spelled) ++ '\x7d' :: rest) := by
      cases entries with
      | nil => exact hends
      | cons b entries => exact endsValue_cons _ (by decide)
    rw [List.map_cons, intercalate_cons, List.append_assoc, List.flatMap_map]
    exact separated_of_run (entryIn_spelled hsound.1 hfollows) hmore

/-- A value under a new name is added behind the others. -/
theorem add_entry {before : List Assignment} (hnew : a.name ∉ before.map Assignment.name) :
    Entries.add (before.map Assignment.entry) ([], a.name) a.node =
      some ((before ++ [a]).map Assignment.entry) := by
  have hhas : Entries.has (before.map Assignment.entry) a.name = false := by
    rw [Entries.has, List.any_map, List.any_eq_false]
    intro b hb heq
    exact hnew (List.mem_map.2 ⟨b, hb, by simpa [Assignment.entry] using heq⟩)
  rw [List.map_append]
  exact if_neg (by simp [hhas])

/-- Adds a value under its key. -/
def addKeyed (added : Entries) (keyed : (List String × String) × Node) : Option Entries :=
  added.add keyed.1 keyed.2

/-- Values under names of their own are added one after the other. -/
theorem foldlM_add (before : List Assignment) {entries : List Assignment}
    (hnames : ((before ++ entries).map Assignment.name).Nodup) :
    (entries.map Assignment.keyed).foldlM addKeyed (before.map Assignment.entry) =
      some ((before ++ entries).map Assignment.entry) := by
  induction entries generalizing before with
  | nil => simp
  | cons a entries ih =>
    have hnew : a.name ∉ before.map Assignment.name := by
      rw [List.map_append, List.map_cons] at hnames
      exact fun hmem => (List.nodup_append.1 hnames).2.2 _ hmem _ List.mem_cons_self rfl
    rw [List.append_cons] at hnames ⊢
    rw [List.map_cons, List.foldlM_cons]
    change (Entries.add (before.map Assignment.entry) ([], a.name) a.node).bind _ = _
    rw [add_entry hnew]
    exact ih _ hnames

theorem toMembers_entries (entries : List Assignment) :
    Entry.toMembers (entries.map Assignment.entry) =
      entries.map fun a => (.whole a.name, a.node) := by
  induction entries with
  | nil => rfl
  | cons a entries ih =>
    rw [List.map_cons, List.map_cons, Assignment.entry, Entry.toMembers, Entry.toNode, ih]

/-- The object that assignments are read as. -/
def objectOf (entries : List Assignment) : Node :=
  .ofMembers (entries.map fun a => (a.name, a.node))

theorem object_toMembers (entries : List Assignment) :
    Node.object (Entry.toMembers (entries.map Assignment.entry)) = objectOf entries := by
  rw [toMembers_entries, objectOf, Node.ofMembers, List.map_map]
  rfl

/-- A table in braces is scanned as the object of its entries. -/
theorem scannedAs_braces {entries : List Assignment} (hsound : ∀ a ∈ entries, a.Sound depth)
    (hnames : (entries.map Assignment.name).Nodup) :
    ScannedAs (depth + 1) (braces entries) (objectOf entries) := by
  intro rest hrest
  have htext : braces entries ++ rest =
      '\x7b' :: ([','].intercalate (entries.map Assignment.spelled) ++ '\x7d' :: rest) := by
    simp [braces]
  have hpeek (cs : List Char) : peek ('\x7b' :: cs) = some (some '\x7b', '\x7b' :: cs) := rfl
  have hadded : (StateT.lift ((entries.map Assignment.keyed).foldlM addKeyed []) : Scanner Entries)
      rest = some (entries.map Assignment.entry, rest) := by
    have hentries := foldlM_add [] hnames
    rw [List.map_nil, List.nil_append] at hentries
    rw [hentries]
    rfl
  rw [htext]
  unfold value
  refine (bind_of_eq_some (hpeek _)).trans ?_
  change value.bracket (depth + 1) inlineTable _ = _
  rw [value.bracket]
  refine (bind_of_eq_some (char_self '\x7b' _)).trans ?_
  refine (bind_of_eq_some (separated_entryIn hsound rest)).trans ?_
  refine (bind_of_eq_some (blanks_of_head (by rintro c ⟨⟩; rfl))).trans ?_
  refine (bind_of_eq_some (char_self '\x7d' rest)).trans ?_
  refine (bind_of_eq_some hadded).trans ?_
  rw [← object_toMembers]
  rfl

/-! Lines -/

/-- Nothing is passed over before a character that is no blank, comment or line end. -/
theorem spacing_cons {c : Char} (hc : c ∉ [' ', '\t', '#', '\n', '\r']) (cs : List Char) :
    spacing (c :: cs) = some ((), c :: cs) := by
  simp only [List.mem_cons, List.not_mem_nil, or_false, not_or] at hc
  obtain ⟨hblank, htab, hcomment, hnewline, hreturn⟩ := hc
  have hhead : ∀ d ∈ (c :: cs).head?, isBlank d = false := by
    rintro d ⟨⟩
    simp [isBlank, hblank, htab]
  have hnone : (do discard (optional comment); newline; blanks : Scanner Unit) (c :: cs) =
      none := by
    have hoptional := optional_of_eq_none (p := comment)
      (bind_of_eq_none (char_of_ne hcomment cs))
    refine (bind_of_eq_some (discard_of_eq_some hoptional)).trans (bind_of_eq_none ?_)
    exact (orElse_of_eq_none (char_of_ne hnewline cs)).trans
      (bind_of_eq_none (char_of_ne hreturn cs))
  refine (bind_of_eq_some (blanks_of_head hhead)).trans ?_
  exact discard_of_eq_some (many_of_eq_none hnone)

theorem lineEnd_newline (rest : List Char) : lineEnd ('\n' :: rest) = some ((), rest) := rfl

/-- The header of another element of an array of tables. -/
def elementHeader (name : String) : List Char := ['[', '['] ++ (name.toList ++ [']', ']', '\n'])

theorem line_elementHeader {name : String} (hname : IsBare name) (rest : List Char) :
    line (elementHeader name ++ rest) = some (.element ([], name), rest) := by
  have hblank : ∀ c ∈ ([] : List Char), isBlank c = true := List.forall_mem_nil _
  have hends : EndsKey (']' :: ']' :: '\n' :: rest) := endsKey_cons _ (by decide)
  have hkey := key_bare hname hblank hends
  have hheader : header ['[', '['] [']', ']'] (elementHeader name ++ rest) =
      some (([], name), '\n' :: rest) := by
    rw [elementHeader, List.append_assoc, List.append_assoc]
    refine (bind_of_eq_some (word_append ['[', '['] _)).trans ?_
    refine (bind_of_eq_some hkey).trans ?_
    exact bind_of_eq_some (word_append [']', ']'] _)
  refine (bind_of_eq_some (spacing_cons (by decide) _)).trans ?_
  refine (bind_of_eq_some (orElse_of_eq_some (bind_of_eq_some hheader))).trans ?_
  exact bind_of_eq_some (lineEnd_newline rest)

/-- A line with a name and its value. -/
def Assignment.line (a : Assignment) : List Char := a.spelled ++ ['\n']

theorem IsBare.exists_eq_cons {name : String} (hname : IsBare name) :
    ∃ c cs, name.toList = c :: cs ∧ c ∉ ['[', ' ', '\t', '#', '\n', '\r'] := by
  obtain ⟨c, cs, hchars⟩ := List.exists_cons_of_ne_nil hname.1
  refine ⟨c, cs, hchars, fun hmem => ?_⟩
  have hbare : isBareKey c = true := List.all_eq_true.1 hname.2 c (by simp [hchars])
  simp only [List.mem_cons, List.not_mem_nil, or_false] at hmem
  rcases hmem with rfl | rfl | rfl | rfl | rfl | rfl <;> cases hbare

theorem line_assignment (ha : a.Sound depthLimit) (rest : List Char) :
    line (a.line ++ rest) = some (.entry ([], a.name) a.node, rest) := by
  obtain ⟨c, cs, hchars, hc⟩ := ha.bare.exists_eq_cons
  rw [List.mem_cons, not_or] at hc
  have htext : a.line ++ rest = a.spelled ++ '\n' :: rest := by simp [Assignment.line]
  have hfirst : a.spelled ++ '\n' :: rest =
      c :: (cs ++ [' ', '=', ' '] ++ a.text ++ '\n' :: rest) := by
    simp [Assignment.spelled, hchars]
  have hheader (opening closing : List Char) :
      header ('[' :: opening) closing (a.spelled ++ '\n' :: rest) = none := by
    rw [hfirst]
    exact bind_of_eq_none (bind_of_eq_none (char_of_ne hc.1 _))
  have hspacing : spacing (a.spelled ++ '\n' :: rest) = some ((), a.spelled ++ '\n' :: rest) := by
    rw [hfirst]
    exact spacing_cons hc.2 _
  have hends : EndsValue ('\n' :: rest) := endsValue_cons rest (by decide)
  have hentry : (do
        let key ← key
        char '='
        blanks
        return .entry key (← value depthLimit) : Scanner Line) (a.spelled ++ '\n' :: rest) =
      some (.entry ([], a.name) a.node, '\n' :: rest) := by
    refine (bind_of_eq_some (key_spelled ha.bare _)).trans ?_
    refine (bind_of_eq_some (char_self '=' _)).trans ?_
    refine (bind_of_eq_some (blanks_assigned ha _)).trans ?_
    exact bind_of_eq_some (ha.scanned _ hends)
  rw [htext]
  refine (bind_of_eq_some hspacing).trans ?_
  refine (bind_of_eq_some ((orElse_of_eq_none (bind_of_eq_none (hheader _ _))).trans
    ((orElse_of_eq_none (bind_of_eq_none (hheader _ _))).trans hentry))).trans ?_
  exact bind_of_eq_some (lineEnd_newline rest)

theorem line_nil : line [] = none := rfl

end CourseAdmission.Toml
