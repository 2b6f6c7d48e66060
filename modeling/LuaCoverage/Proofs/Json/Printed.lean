import LuaCoverage.Data.Convert
import LuaCoverage.Json.Printer
import LuaCoverage.Json.Reader
import LuaCoverage.Proofs.Decimal.Integer
import LuaCoverage.Proofs.Except
import Mathlib.Data.List.Nodup

/-!
# JSON is read as it is printed

A value is *plain* when it is made of integers, texts, lists, and mappings whose keys are distinct
texts. A plain value is read back from its text, in any layout and whatever stands behind it, as
long as that does not go on with a number. The ids of probes are names, in decimal form: different
integers have different names, and a name is read as the integer it was made from.

Results:
* `readString_quote`: any text is read back from its quoted form.
* `Plain.readValue_render`: a plain value is read back at any level.
* `Plain.parse_print`: a plain value is read back from its text.
* `Plain.return_not_mem_render`: its text has no carriage return, so it is the same in a file.
* `Scalar.toInt_intText`: a name is read as its integer.
* `Json.plain_object`: an object under the names of different integers is plain.
-/

namespace LuaCoverage.Json
open LuaCoverage.Decimal LuaCoverage.Text

/-! ## Strings -/

theorem hexValue?_hexDigit (n : Nat) : hexValue? (hexDigit n) = some (n % 16) := by
  have hsmall : ∀ d < 16, hexValue? (hexDigit d) = some d := by decide
  have hdigit : hexDigit n = hexDigit (n % 16) := by simp only [hexDigit, Nat.mod_mod]
  rw [hdigit]
  exact hsmall (n % 16) (Nat.mod_lt n (by decide))

theorem hexDigits_four (n : Nat) : hexDigits 4 n
    = [hexDigit (n / 16 / 16 / 16), hexDigit (n / 16 / 16), hexDigit (n / 16), hexDigit n] := rfl

theorem hexUnit?_hexDigits {n : Nat} (hn : n < 0x10000) :
    hexUnit? (hexDigit (n / 16 / 16 / 16)) (hexDigit (n / 16 / 16)) (hexDigit (n / 16)) (hexDigit n)
      = some n := by
  simp only [hexUnit?, hexValue?_hexDigit, Option.bind_eq_bind, Option.bind_some, Option.some.injEq]
  omega

def unitsOf (c : Char) : List Nat :=
  if c.toNat < 0x10000 then [c.toNat]
  else [0xd800 + (c.toNat - 0x10000) / 0x400, 0xdc00 + (c.toNat - 0x10000) % 0x400]

theorem ofUnits_cons {n : Nat} (h : isHighSurrogate n = false) (units : List Nat) :
    ofUnits (n :: units) = charOfUnit n :: ofUnits units := by
  cases units with
  | nil => rfl
  | cons m rest => simp [ofUnits, h]

theorem ofUnits_unitsOf (text : List Char) : ofUnits (text.flatMap unitsOf) = text := by
  induction text with
  | nil => rfl
  | cons c rest ih =>
    have hvalid : c.toNat < 0xd800 ∨ 0xdfff < c.toNat ∧ c.toNat < 0x110000 := c.valid
    rw [List.flatMap_cons, unitsOf]
    split
    · next hc =>
      have hlow : isHighSurrogate c.toNat = false := by
        simp only [isHighSurrogate, Bool.and_eq_false_iff, decide_eq_false_iff_not]
        omega
      rw [List.cons_append, List.nil_append, ofUnits_cons hlow, ih, charOfUnit_toNat]
    · next hc =>
      have hhigh : isHighSurrogate (0xd800 + (c.toNat - 0x10000) / 0x400) = true := by
        simp only [isHighSurrogate, Bool.and_eq_true, decide_eq_true_eq]
        omega
      have hlow : isLowSurrogate (0xdc00 + (c.toNat - 0x10000) % 0x400) = true := by
        simp only [isLowSurrogate, Bool.and_eq_true, decide_eq_true_eq]
        omega
      have hsum : 0x10000 + (0xd800 + (c.toNat - 0x10000) / 0x400 - 0xd800) * 0x400
          + (0xdc00 + (c.toNat - 0x10000) % 0x400 - 0xdc00) = c.toNat := by omega
      rw [List.cons_append, List.cons_append, List.nil_append, ofUnits, hhigh, hlow, hsum,
        Char.ofNat_toNat]
      simp only [Bool.and_self, if_true, ih]

/-- Units that were read, with those in front of them. -/
def withUnits (units : List Nat) (result : Except Failure (List Nat × Rest)) :
    Except Failure (List Nat × Rest) :=
  result.map fun (more, rest) => (units ++ more, rest)

theorem consUnit_eq (n : Nat) (result : Except Failure (List Nat × Rest)) :
    consUnit n result = withUnits [n] result := rfl

theorem withUnits_withUnits (front back : List Nat) (result : Except Failure (List Nat × Rest)) :
    withUnits front (withUnits back result) = withUnits (front ++ back) result := by
  cases result <;> simp [withUnits, Except.map]

theorem readUnits_hex {n : Nat} (hn : n < 0x10000) (start place : Nat) {rest : List Char}
    (hrest : rest ≠ []) :
    readUnits start place ('\\' :: 'u' :: hexDigits 4 n ++ rest)
      = withUnits [n] (readUnits start (place + 6) rest) := by
  rw [hexDigits_four, List.cons_append, List.cons_append, List.cons_append, List.cons_append,
    List.cons_append, List.cons_append, List.nil_append, readUnits, hexUnit?_hexDigits hn]
  simp [hrest, consUnit_eq]

/-- A character that is written as a letter behind a backslash. -/
theorem readUnits_simple {d e : Char} (hd : d ≠ 'u') (he : simpleEscape? d = some e)
    (start place : Nat) (rest : List Char) :
    readUnits start place ('\\' :: d :: rest)
      = withUnits [e.toNat] (readUnits start (place + 2) rest) := by
  rw [readUnits]
  · rw [he]
    rfl
  · simp [hd]
  · simp [hd]

/-- A character is read back from how it is written in a string. -/
theorem readUnits_escape (c : Char) (start place : Nat) {rest : List Char} (hrest : rest ≠ []) :
    ∃ behind, readUnits start place (escape c ++ rest)
      = withUnits (unitsOf c) (readUnits start behind rest) := by
  have hvalid : c.toNat < 0xd800 ∨ 0xdfff < c.toNat ∧ c.toNat < 0x110000 := c.valid
  have hsmall : c.toNat < 0x10000 → unitsOf c = [c.toNat] := fun h => if_pos h
  unfold escape
  split
  · next hc =>
    subst hc
    exact ⟨_, readUnits_simple (by decide) rfl start place rest⟩
  split
  · next hc =>
    subst hc
    exact ⟨_, readUnits_simple (by decide) rfl start place rest⟩
  split
  · next hc =>
    subst hc
    exact ⟨_, readUnits_simple (by decide) rfl start place rest⟩
  split
  · next hc =>
    subst hc
    exact ⟨_, readUnits_simple (by decide) rfl start place rest⟩
  split
  · next hc =>
    subst hc
    exact ⟨_, readUnits_simple (by decide) rfl start place rest⟩
  split
  · next hc =>
    subst hc
    exact ⟨_, readUnits_simple (by decide) rfl start place rest⟩
  split
  · next hc =>
    subst hc
    exact ⟨_, readUnits_simple (by decide) rfl start place rest⟩
  next hquote hback _ _ _ _ _ =>
  split
  · next hc =>
    simp only [Bool.and_eq_true, decide_eq_true_eq] at hc
    have hplain : ¬c.toNat < 0x20 := by omega
    refine ⟨place + 1, ?_⟩
    rw [hsmall (by omega), List.cons_append, List.nil_append, readUnits]
    · rw [if_neg hplain]
      rfl
    · exact hquote
    · exact fun h => absurd h hback
    · exact fun _ _ _ _ _ h => absurd h hback
    · exact fun _ h => absurd h hback
    · exact fun _ _ h => absurd h hback
  split
  · next hc =>
    rw [hsmall hc]
    exact ⟨place + 6, readUnits_hex hc start place hrest⟩
  · next hc =>
    have hmore : '\\' :: 'u' :: hexDigits 4 (0xdc00 + (c.toNat - 0x10000) % 0x400) ++ rest ≠ [] := by
      simp
    refine ⟨place + 6 + 6, ?_⟩
    simp only [List.append_assoc]
    rw [readUnits_hex (by omega) start place hmore, readUnits_hex (by omega) _ _ hrest,
      withUnits_withUnits, unitsOf, if_neg hc]
    rfl

theorem readUnits_escapes (text : List Char) (start place : Nat) (rest : List Char) :
    ∃ behind, readUnits start place (text.flatMap escape ++ '"' :: rest)
      = .ok (text.flatMap unitsOf, ⟨behind, rest⟩) := by
  induction text generalizing place with
  | nil => exact ⟨place + 1, by simp [readUnits]⟩
  | cons c text ih =>
    have hmore : text.flatMap escape ++ '"' :: rest ≠ [] := by simp
    obtain ⟨middle, hc⟩ := readUnits_escape c start place hmore
    obtain ⟨behind, hrest⟩ := ih middle
    refine ⟨behind, ?_⟩
    rw [List.flatMap_cons, List.append_assoc, hc, hrest]
    rfl

theorem toList_quote (s : String) : (quote s).toList = '"' :: (s.toList.flatMap escape ++ ['"']) := by
  simp [quote]

/-- Any text is read back from its quoted form. -/
theorem readString_quote (s : String) (place : Nat) (rest : List Char) :
    ∃ behind, readString ⟨place, (quote s).toList ++ rest⟩ = .ok (s, ⟨behind, rest⟩) := by
  obtain ⟨behind, h⟩ := readUnits_escapes s.toList place (place + 1) rest
  refine ⟨behind, ?_⟩
  rw [readString, toList_quote]
  simp only [List.cons_append, List.append_assoc, List.nil_append, List.drop_succ_cons,
    List.drop_zero, h, Except.map, ofUnits_unitsOf, String.ofList_toList]

/-! ## Numbers -/

/-- Whether a text does not go on with a number. -/
def EndsNumber (rest : List Char) : Prop :=
  ∀ c more, rest = c :: more → isAsciiDigit c = false ∧ c ≠ '.' ∧ c ≠ 'e' ∧ c ≠ 'E'

theorem endsNumber_nil : EndsNumber [] := by
  rintro c more ⟨⟩

theorem endsNumber_cons {c : Char}
    (hc : isAsciiDigit c = false ∧ c ≠ '.' ∧ c ≠ 'e' ∧ c ≠ 'E') (more : List Char) :
    EndsNumber (c :: more) := by
  rintro d rest ⟨⟩
  exact hc

theorem takeWhile_digits {ds rest : List Char} (hds : ∀ c ∈ ds, isAsciiDigit c = true)
    (hrest : EndsNumber rest) :
    (ds ++ rest).takeWhile isAsciiDigit = ds ∧ (ds ++ rest).dropWhile isAsciiDigit = rest := by
  induction ds with
  | nil =>
    cases rest with
    | nil => exact ⟨rfl, rfl⟩
    | cons c more => simp [(hrest c more rfl).1]
  | cons c ds ih =>
    obtain ⟨htake, hdrop⟩ := ih fun d hd => hds d (by simp [hd])
    simp [hds c (by simp), htake, hdrop]

theorem readWhole_digits (n : Nat) {rest : List Char} (hrest : EndsNumber rest) :
    readWhole (digits n ++ rest) = some (digits n, rest) := by
  have hascii := isAsciiDigit_of_mem_digits n
  obtain ⟨htake, hdrop⟩ := takeWhile_digits hascii hrest
  obtain ⟨c, ds, hd, hdigit⟩ := digits_eq_cons n
  rw [hd] at htake hdrop ⊢
  by_cases hc : c = '0'
  · subst hc
    rw [digits_of_head hd]
    rfl
  · rw [List.cons_append] at htake hdrop ⊢
    rw [readWhole]
    · rw [if_pos hdigit, htake, hdrop]
    · exact hc

theorem readPlaces_of_ends {rest : List Char} (hrest : EndsNumber rest) :
    readPlaces rest = (none, rest) := by
  unfold readPlaces
  split
  · next more => exact absurd rfl (hrest '.' more rfl).2.1
  · rfl

theorem readExponent_of_ends {rest : List Char} (hrest : EndsNumber rest) :
    readExponent rest = (none, rest) := by
  cases rest with
  | nil => rfl
  | cons c more =>
    obtain ⟨-, -, hlower, hupper⟩ := hrest c more rfl
    simp [readExponent, hlower, hupper]

theorem readNumber_intDigits (n : Int) (place : Nat) {rest : List Char} (hrest : EndsNumber rest) :
    ∃ behind, readNumber ⟨place, intDigits n ++ rest⟩ = .ok (.int n, ⟨behind, rest⟩) := by
  have hread : ∀ (negative : Bool) (m : Nat),
      Numeral.value ⟨negative, digits m, none, none⟩ = .int (if negative then -(m : Int) else m) := by
    intro negative m
    have hvalue : digitsValue (digits m) = m := value_digits m
    simp [Numeral.value, hvalue]
  cases n with
  | ofNat m =>
    obtain ⟨c, ds, hd, hdigit⟩ := digits_eq_cons m
    have hsign : readSign (digits m ++ rest) = (false, digits m ++ rest) := by
      rw [hd, List.cons_append, readSign]
      rintro _ h
      rw [(List.cons.inj h).1] at hdigit
      exact absurd hdigit (by decide)
    refine ⟨place + ((digits m ++ rest).length - rest.length), ?_⟩
    simp only [readNumber, intDigits, hsign, readWhole_digits m hrest, readPlaces_of_ends hrest,
      readExponent_of_ends hrest, hread]
    rfl
  | negSucc m =>
    refine ⟨place + (('-' :: (digits (m + 1) ++ rest)).length - rest.length), ?_⟩
    simp only [readNumber, intDigits, List.cons_append, readSign, readWhole_digits (m + 1) hrest,
      readPlaces_of_ends hrest, readExponent_of_ends hrest, hread]
    rfl

theorem readScalar_intText (n : Int) (place : Nat) {rest : List Char} (hrest : EndsNumber rest) :
    ∃ behind, readScalar ⟨place, (intText n).toList ++ rest⟩ = .ok (.int n, ⟨behind, rest⟩) := by
  obtain ⟨behind, hnumber⟩ := readNumber_intDigits n place hrest
  refine ⟨behind, ?_⟩
  rw [intText, String.toList_ofList]
  -- Every word starts with a letter, perhaps behind a sign, and an integer with a digit.
  have hletter : ∀ {c : Char}, isAsciiDigit c = true → ∀ d, isAsciiDigit d = false →
      (d == c) = false := by
    intro c hc d hd
    rw [beq_eq_false_iff_ne]
    rintro rfl
    rw [hd] at hc
    cases hc
  have hnone : ∀ word ∈ words, word.1.toList.isPrefixOf (intDigits n ++ rest) = false := by
    cases n with
    | ofNat m =>
      obtain ⟨c, ds, hd, hdigit⟩ := digits_eq_cons m
      have hne := hletter hdigit
      simp [words, intDigits, hd, List.isPrefixOf, hne 'n' rfl, hne 't' rfl, hne 'f' rfl,
        hne 'N' rfl, hne 'I' rfl, hne '-' rfl]
    | negSucc m =>
      obtain ⟨c, ds, hd, hdigit⟩ := digits_eq_cons (m + 1)
      simp [words, intDigits, hd, List.isPrefixOf, hletter hdigit 'I' rfl]
  unfold readScalar
  split
  · next word s hfind =>
    have hword := List.find?_some hfind
    change word.toList.isPrefixOf (intDigits n ++ rest) = true at hword
    rw [hnone _ (List.mem_of_find?_eq_some hfind)] at hword
    cases hword
  · exact hnumber

/-! ## Values -/

/-- A value that is made of integers, texts, lists, and mappings with distinct texts as keys. -/
inductive Plain : Value → Prop
  | int (n : Int) : Plain (.int n)
  | string (s : String) : Plain (.string s)
  | list {items : List Value} : (∀ v ∈ items, Plain v) → Plain (.list items)
  | object {entries : List (String × Value)} : (entries.map (·.1)).Nodup →
      (∀ entry ∈ entries, Plain entry.2) → Plain (.object entries)

/-- The reader passes over white space up to the first other character. -/
theorem skip_append {blanks : List Char} (text : List Char) (hblanks : ∀ c ∈ blanks, isSpace c = true)
    (htext : ∀ c more, text = c :: more → isSpace c = false) (place : Nat) :
    ∃ behind, (Rest.mk place (blanks ++ text)).skip = ⟨behind, text⟩ := by
  have hdrop : (blanks ++ text).dropWhile isSpace = text := by
    induction blanks with
    | nil =>
      cases text with
      | nil => rfl
      | cons c more => simp [htext c more rfl]
    | cons c rest ih => simp [hblanks c (by simp), ih fun d hd => hblanks d (by simp [hd])]
  exact ⟨_, by rw [Rest.skip, hdrop]⟩

theorem skip_cons {c : Char} (hc : isSpace c = false) (place : Nat) (more : List Char) :
    (Rest.mk place (c :: more)).skip = ⟨place, c :: more⟩ := by
  simp [Rest.skip, hc]

theorem isSpace_opening (layout : Layout) (level : Nat) :
    ∀ c ∈ (layout.opening level).toList, isSpace c = true := by
  cases layout with
  | inline => simp [Layout.opening]
  | lines width =>
    intro c hc
    rw [Layout.opening, String.toList_ofList] at hc
    rcases List.mem_cons.1 hc with rfl | hc
    · rfl
    · rw [(List.mem_replicate.1 hc).2]
      rfl

/-- What stands behind the comma between two parts. -/
theorem exists_separator (layout : Layout) (level : Nat) :
    ∃ blanks : List Char, (layout.separator level).toList = ',' :: blanks
      ∧ ∀ c ∈ blanks, isSpace c = true := by
  cases layout with
  | inline => exact ⟨[' '], by simp [Layout.separator], List.forall_mem_singleton.2 rfl⟩
  | lines width =>
    refine ⟨((Layout.lines width).opening level).toList, ?_, isSpace_opening _ _⟩
    rw [Layout.separator, String.toList_append]
    rfl

/-- The text of a plain value does not start with white space, a closing bracket or a byte order
mark. -/
theorem Plain.exists_render {v : Value} (h : Plain v) (layout : Layout) (level : Nat) :
    ∃ c more, (render layout level v).toList = c :: more
      ∧ isSpace c = false ∧ c ≠ ']' ∧ c ≠ '\ufeff' := by
  cases h with
  | int n =>
    have htext : (render layout level (.int n)).toList = intDigits n := by
      simp [Value.int, render, scalarText, intText]
    rw [htext]
    cases n with
    | ofNat m =>
      obtain ⟨c, ds, hd, hdigit⟩ := digits_eq_cons m
      refine ⟨c, ds, hd, ?_⟩
      simp only [isAsciiDigit, Bool.and_eq_true, decide_eq_true_eq] at hdigit
      simp only [isSpace, Bool.or_eq_false_iff, beq_eq_false_iff_ne]
      refine ⟨⟨⟨⟨?_, ?_⟩, ?_⟩, ?_⟩, ?_, ?_⟩ <;> rintro rfl <;> simp at hdigit
    | negSucc m => exact ⟨'-', _, rfl, rfl, by decide, by decide⟩
  | string s => exact ⟨'"', _, toList_quote s, rfl, by decide, by decide⟩
  | @list items _ =>
    cases items with
    | nil =>
      simp only [render, String.reduceToList]
      exact ⟨'[', _, rfl, rfl, by decide, by decide⟩
    | cons v rest =>
      simp only [render, String.toList_append, String.reduceToList, List.cons_append]
      exact ⟨'[', _, rfl, rfl, by decide, by decide⟩
  | @object entries _ _ =>
    cases entries with
    | nil =>
      simp only [Value.object, List.map_nil, render, String.reduceToList]
      exact ⟨'\x7b', _, rfl, rfl, by decide, by decide⟩
    | cons e rest =>
      simp only [Value.object, List.map_cons, render, String.toList_append, String.reduceToList,
        List.cons_append]
      exact ⟨'\x7b', _, rfl, rfl, by decide, by decide⟩

theorem Plain.isSpace_head {v : Value} (h : Plain v) (layout : Layout) (level : Nat)
    (rest : List Char) : ∀ c more, (render layout level v).toList ++ rest = c :: more →
      isSpace c = false := by
  obtain ⟨d, others, hrender, hd, -⟩ := h.exists_render layout level
  rw [hrender]
  rintro c more ⟨⟩
  exact hd

/-- What closes a list or a mapping does not go on with a number. -/
theorem endsNumber_closing (layout : Layout) (level : Nat) {c : Char} (rest : List Char)
    (hc : c = ']' ∨ c = '\x7d') : EndsNumber ((layout.opening level).toList ++ c :: rest) := by
  cases layout with
  | inline =>
    have hopen : (Layout.inline.opening level).toList = [] := by simp [Layout.opening]
    rw [hopen, List.nil_append]
    rcases hc with rfl | rfl <;> exact endsNumber_cons (by decide) rest
  | lines width =>
    rw [Layout.opening, String.toList_ofList]
    exact endsNumber_cons (by decide) _

/-- Whether a value is read back from its text in a layout, whatever stands behind it. The depth of
the reader is measured by the length of the text. -/
def ReadsBack (layout : Layout) (v : Value) : Prop :=
  ∀ level depth place rest, EndsNumber rest →
    2 * (render layout level v).toList.length + 1 ≤ depth →
    ∃ behind, readValue depth ⟨place, (render layout level v).toList ++ rest⟩
      = .ok (v, ⟨behind, rest⟩)

/-- An entry of a mapping with a text as its key. -/
def keyed (entry : String × Value) : Scalar × Value := (.string entry.1, entry.2)

section
variable {layout : Layout}

theorem readItems_render {v : Value} {items : List Value}
    (hplain : ∀ w ∈ v :: items, Plain w) (hback : ∀ w ∈ v :: items, ReadsBack layout w)
    (level depth place : Nat) (rest : List Char)
    (hdepth : 2 * ((render layout (level + 1) v).toList.length
      + (renderItems layout (level + 1) items).toList.length
      + (layout.opening level).toList.length + 1) ≤ depth) :
    ∃ behind, readItems depth ⟨place, (render layout (level + 1) v).toList
      ++ ((renderItems layout (level + 1) items).toList
        ++ ((layout.opening level).toList ++ ']' :: rest))⟩ = .ok (v :: items, ⟨behind, rest⟩) := by
  induction items generalizing v depth place with
  | nil =>
    obtain ⟨depth, rfl⟩ : ∃ d, depth = d + 1 := ⟨depth - 1, by omega⟩
    have hends := endsNumber_closing layout level rest (.inl rfl)
    obtain ⟨p, hvalue⟩ := hback v (by simp) (level + 1) depth place _ hends (by omega)
    obtain ⟨q, hskip⟩ := skip_append (']' :: rest) (isSpace_opening layout level)
      (by rintro c more ⟨⟩; rfl) p
    refine ⟨q + 1, ?_⟩
    simp only [renderItems, String.toList_empty, List.nil_append, readItems, hvalue, hskip,
      Except.ok_bind, List.head?_cons]
    rfl
  | cons w items ih =>
    obtain ⟨depth, rfl⟩ : ∃ d, depth = d + 1 := ⟨depth - 1, by omega⟩
    obtain ⟨blanks, hseparator, hblanks⟩ := exists_separator layout (level + 1)
    simp only [renderItems, String.toList_append, List.length_append, hseparator, List.length_cons,
      List.append_assoc, List.cons_append] at hdepth ⊢
    -- What stands behind the comma.
    generalize htail : (render layout (level + 1) w).toList
      ++ ((renderItems layout (level + 1) items).toList
        ++ ((layout.opening level).toList ++ ']' :: rest)) = tail
    have hhead : ∀ d others, tail = d :: others → isSpace d = false := by
      rw [← htail]
      exact (hplain w (by simp)).isSpace_head layout (level + 1) _
    obtain ⟨p, hvalue⟩ := hback v (by simp) (level + 1) depth place (',' :: (blanks ++ tail))
      (endsNumber_cons (by decide) _) (by omega)
    obtain ⟨q, hblank⟩ := skip_append tail hblanks hhead (p + 1)
    obtain ⟨behind, hitems⟩ := ih (v := w) (fun u hu => hplain u (List.mem_cons_of_mem _ hu))
      (fun u hu => hback u (List.mem_cons_of_mem _ hu)) depth q (by omega)
    rw [htail] at hitems
    refine ⟨behind, ?_⟩
    simp only [readItems, hvalue, skip_cons (c := ',') rfl, Except.ok_bind, List.head?_cons,
      Rest.advance, List.drop_succ_cons, List.drop_zero, hblank, hitems]

/-- What is read behind an entry whose value was read up to `rest`. -/
def readBehind (entry : Scalar × Value) (depth : Nat) (rest : Rest) :
    Except Failure (List (Scalar × Value) × Rest) :=
  match rest.skip.chars.head? with
  | some '\x7d' => .ok ([entry], rest.skip.advance 1)
  | some ',' => do
    let (more, rest) ← readEntries depth (rest.skip.advance 1).skip
    .ok (entry :: more, rest)
  | _ => rest.skip.fail .noComma

/-- The reader of entries at an entry. -/
theorem readEntries_entry {v : Value} (hplain : Plain v) (hback : ReadsBack layout v)
    (name : String) (level depth place : Nat) {tail : List Char} (hends : EndsNumber tail)
    (hdepth : 2 * (render layout level v).toList.length + 1 ≤ depth) :
    ∃ r, readEntries (depth + 1)
        ⟨place, (quote name).toList ++ ':' :: ' ' :: ((render layout level v).toList ++ tail)⟩
      = readBehind (.string name, v) depth ⟨r, tail⟩ := by
  obtain ⟨p, hname⟩ := readString_quote name place
    (':' :: ' ' :: ((render layout level v).toList ++ tail))
  have hspace : ∀ c ∈ [' '], isSpace c = true := List.forall_mem_singleton.2 rfl
  obtain ⟨q, hblank⟩ := skip_append ((render layout level v).toList ++ tail) hspace
    (hplain.isSpace_head layout level tail) (p + 1)
  obtain ⟨r, hvalue⟩ := hback level depth q tail hends hdepth
  rw [List.cons_append, List.nil_append] at hblank
  have hquote : ((quote name).toList
      ++ ':' :: ' ' :: ((render layout level v).toList ++ tail)).head? = some '"' := by
    rw [toList_quote]
    rfl
  refine ⟨r, ?_⟩
  simp only [readEntries, hquote, ne_eq, not_true_eq_false, if_false, hname, Except.ok_bind,
    skip_cons (c := ':') rfl, List.head?_cons, Rest.advance, List.drop_succ_cons, List.drop_zero,
    hblank, hvalue]
  rfl

theorem readEntries_render {e : String × Value} {entries : List (String × Value)}
    (hplain : ∀ d ∈ e :: entries, Plain d.2) (hback : ∀ d ∈ e :: entries, ReadsBack layout d.2)
    (level depth place : Nat) (rest : List Char)
    (hdepth : 2 * ((quote e.1).toList.length + (render layout (level + 1) e.2).toList.length
      + (renderEntries layout (level + 1) (entries.map keyed)).toList.length
      + (layout.opening level).toList.length + 1) ≤ depth) :
    ∃ behind, readEntries depth ⟨place, (quote e.1).toList ++ ':' :: ' ' ::
      ((render layout (level + 1) e.2).toList
        ++ ((renderEntries layout (level + 1) (entries.map keyed)).toList
          ++ ((layout.opening level).toList ++ '\x7d' :: rest)))⟩
      = .ok ((e :: entries).map keyed, ⟨behind, rest⟩) := by
  induction entries generalizing e depth place with
  | nil =>
    obtain ⟨depth, rfl⟩ : ∃ d, depth = d + 1 := ⟨depth - 1, by omega⟩
    obtain ⟨r, hentry⟩ := readEntries_entry (hplain e (by simp)) (hback e (by simp)) e.1
      (level + 1) depth place (endsNumber_closing layout level rest (.inr rfl)) (by omega)
    obtain ⟨t, hskip⟩ := skip_append ('\x7d' :: rest) (isSpace_opening layout level)
      (by rintro c more ⟨⟩; rfl) r
    refine ⟨t + 1, ?_⟩
    simp only [List.map_nil, renderEntries, String.toList_empty, List.nil_append]
    rw [hentry, readBehind, hskip]
    rfl
  | cons d entries ih =>
    obtain ⟨depth, rfl⟩ : ∃ d, depth = d + 1 := ⟨depth - 1, by omega⟩
    obtain ⟨blanks, hseparator, hblanks⟩ := exists_separator layout (level + 1)
    have hentries : (renderEntries layout (level + 1) ((d :: entries).map keyed)).toList
        = ',' :: (blanks ++ ((quote d.1).toList ++ ':' :: ' ' ::
          ((render layout (level + 1) d.2).toList
            ++ (renderEntries layout (level + 1) (entries.map keyed)).toList))) := by
      simp only [List.map_cons, keyed, renderEntries, keyText, String.toList_append, hseparator,
        String.reduceToList, List.cons_append, List.nil_append, List.append_assoc]
    rw [hentries] at hdepth ⊢
    simp only [List.length_append, List.length_cons, List.cons_append, List.append_assoc]
      at hdepth ⊢
    -- What stands behind the comma.
    generalize htail : (quote d.1).toList ++ ':' :: ' ' :: ((render layout (level + 1) d.2).toList
      ++ ((renderEntries layout (level + 1) (entries.map keyed)).toList
        ++ ((layout.opening level).toList ++ '\x7d' :: rest))) = tail
    have hhead : ∀ c others, tail = c :: others → isSpace c = false := by
      rw [← htail, toList_quote]
      rintro c others ⟨⟩
      rfl
    obtain ⟨r, hentry⟩ := readEntries_entry (hplain e (by simp)) (hback e (by simp)) e.1
      (level + 1) depth place (endsNumber_cons (c := ',') (by decide) (blanks ++ tail)) (by omega)
    obtain ⟨q, hblank⟩ := skip_append tail hblanks hhead (r + 1)
    obtain ⟨behind, hmore⟩ := ih (e := d) (fun u hu => hplain u (List.mem_cons_of_mem _ hu))
      (fun u hu => hback u (List.mem_cons_of_mem _ hu)) depth q (by omega)
    rw [htail] at hmore
    refine ⟨behind, ?_⟩
    rw [hentry, readBehind]
    simp only [skip_cons (c := ',') rfl, List.head?_cons, Rest.advance, List.drop_succ_cons,
      List.drop_zero, hblank, hmore, Except.ok_bind, List.map_cons, keyed]

end

theorem ofPairs_keyed {entries : List (String × Value)} (h : (entries.map (·.1)).Nodup) :
    Value.ofPairs (entries.map keyed) = entries.map keyed := by
  have hput : ∀ (front : List (String × Value)) (e : String × Value), e.1 ∉ front.map (·.1) →
      Value.put (front.map keyed) (.string e.1) e.2 = front.map keyed ++ [keyed e] := by
    intro front e he
    induction front with
    | nil => rfl
    | cons d front ih =>
      simp only [List.map_cons, List.mem_cons, not_or] at he
      have hne : (Scalar.string d.1).equals (.string e.1) = false := by
        simp [Ne.symm he.1]
      rw [List.map_cons, keyed, Value.put, hne, ih he.2]
      rfl
  have hfold : ∀ front back : List (String × Value), ((front ++ back).map (·.1)).Nodup →
      (back.map keyed).foldl (fun es e => Value.put es e.1 e.2) (front.map keyed)
        = (front ++ back).map keyed := by
    intro front back hnodup
    induction back generalizing front with
    | nil => simp
    | cons e back ih =>
      have hnot : e.1 ∉ front.map (·.1) := by
        rw [List.map_append, List.map_cons, List.nodup_append] at hnodup
        exact fun hmem => hnodup.2.2 e.1 hmem e.1 (by simp) rfl
      have hassoc : front ++ e :: back = (front ++ [e]) ++ back := by simp
      rw [List.map_cons, List.foldl_cons, keyed, hput front e hnot, hassoc]
      have hmore := ih (front ++ [e]) (hassoc ▸ hnodup)
      have hlast : (front ++ [e]).map keyed = front.map keyed ++ [keyed e] := by simp
      rw [hlast] at hmore
      exact hmore
  exact hfold [] entries h

theorem readValue_intText (n : Int) (depth place : Nat) {rest : List Char}
    (hrest : EndsNumber rest) :
    ∃ behind, readValue (depth + 1) ⟨place, (intText n).toList ++ rest⟩
      = .ok (.int n, ⟨behind, rest⟩) := by
  obtain ⟨behind, hscalar⟩ := readScalar_intText n place hrest
  -- An integer starts neither a text nor a mapping nor a list.
  have hhead : ∃ c more, (intText n).toList ++ rest = c :: more ∧ c ≠ '"' ∧ c ≠ '\x7b' ∧ c ≠ '[' := by
    rw [intText, String.toList_ofList]
    cases n with
    | ofNat m =>
      obtain ⟨c, ds, hd, hdigit⟩ := digits_eq_cons m
      refine ⟨c, ds ++ rest, by rw [intDigits, hd]; rfl, ?_⟩
      refine ⟨?_, ?_, ?_⟩ <;> rintro rfl <;> exact absurd hdigit (by decide)
    | negSucc m => exact ⟨'-', digits (m + 1) ++ rest, rfl, by decide, by decide, by decide⟩
  obtain ⟨c, more, hchars, hquote, hbrace, hbracket⟩ := hhead
  rw [hchars] at hscalar ⊢
  refine ⟨behind, ?_⟩
  rw [readValue]
  split
  · next h => exact absurd (List.cons.inj h).1 hquote
  · next h => exact absurd (List.cons.inj h).1 hbrace
  · next h => exact absurd (List.cons.inj h).1 hbracket
  · rw [hscalar]
    rfl

theorem readsBack_int (layout : Layout) (n : Int) : ReadsBack layout (.int n) := by
  intro level depth place rest hends hdepth
  obtain ⟨depth, rfl⟩ : ∃ d, depth = d + 1 := ⟨depth - 1, by omega⟩
  exact readValue_intText n depth place hends

theorem readsBack_string (layout : Layout) (s : String) : ReadsBack layout (.string s) := by
  intro level depth place rest hends hdepth
  obtain ⟨depth, rfl⟩ : ∃ d, depth = d + 1 := ⟨depth - 1, by omega⟩
  obtain ⟨behind, hs⟩ := readString_quote s place rest
  refine ⟨behind, ?_⟩
  simp only [Value.string, render, scalarText, toList_quote, List.cons_append] at hs ⊢
  rw [readValue, hs]
  rfl

theorem readsBack_list {layout : Layout} {items : List Value} (hplain : ∀ v ∈ items, Plain v)
    (hback : ∀ v ∈ items, ReadsBack layout v) : ReadsBack layout (.list items) := by
  intro level depth place rest hends hdepth
  obtain ⟨depth, rfl⟩ : ∃ d, depth = d + 1 := ⟨depth - 1, by omega⟩
  cases items with
  | nil =>
    refine ⟨place + 2, ?_⟩
    simp [render, readValue, Rest.advance, skip_cons (c := ']') rfl]
  | cons v items =>
    have hv := hplain v (by simp)
    obtain ⟨c, more, hrender, -, hne, -⟩ := hv.exists_render layout (level + 1)
    simp only [render, String.toList_append, List.length_append, String.reduceToList,
      List.append_assoc, List.cons_append, List.nil_append, List.length_cons,
      List.length_nil] at hdepth ⊢
    generalize htail : (render layout (level + 1) v).toList
      ++ ((renderItems layout (level + 1) items).toList
        ++ ((layout.opening level).toList ++ ']' :: rest)) = tail
    have hhead : ∀ d others, tail = d :: others → isSpace d = false := by
      rw [← htail]
      exact hv.isSpace_head layout (level + 1) _
    obtain ⟨p, hskip⟩ := skip_append tail (isSpace_opening layout (level + 1)) hhead (place + 1)
    obtain ⟨behind, hread⟩ := readItems_render hplain hback level depth p rest (by omega)
    rw [htail] at hread
    have hopen : tail.head? ≠ some ']' := by
      rw [← htail, hrender]
      simpa using hne
    refine ⟨behind, ?_⟩
    simp only [readValue, Rest.advance, List.drop_succ_cons, List.drop_zero, hskip, hopen,
      if_false, hread, Except.ok_bind]

theorem readsBack_object {layout : Layout} {entries : List (String × Value)}
    (hkeys : (entries.map (·.1)).Nodup) (hplain : ∀ e ∈ entries, Plain e.2)
    (hback : ∀ e ∈ entries, ReadsBack layout e.2) : ReadsBack layout (.object entries) := by
  intro level depth place rest hends hdepth
  obtain ⟨depth, rfl⟩ : ∃ d, depth = d + 1 := ⟨depth - 1, by omega⟩
  cases entries with
  | nil =>
    refine ⟨place + 2, ?_⟩
    simp [Value.object, render, readValue, Rest.advance, skip_cons (c := '\x7d') rfl]
  | cons e entries =>
    have hobject : Value.object (e :: entries) = .mapping ((e :: entries).map keyed) := rfl
    have hrender : (render layout level (.object (e :: entries))).toList = '\x7b' ::
        ((layout.opening (level + 1)).toList ++ ((quote e.1).toList ++ ':' :: ' ' ::
          ((render layout (level + 1) e.2).toList
            ++ ((renderEntries layout (level + 1) (entries.map keyed)).toList
              ++ ((layout.opening level).toList ++ ['\x7d']))))) := by
      simp only [hobject, List.map_cons, keyed, render, keyText, String.toList_append,
        String.reduceToList, List.cons_append, List.nil_append, List.append_assoc]
    rw [hrender] at hdepth ⊢
    simp only [List.length_cons, List.length_append, List.length_nil, List.cons_append,
      List.append_assoc, List.nil_append] at hdepth ⊢
    generalize htail : (quote e.1).toList ++ ':' :: ' ' :: ((render layout (level + 1) e.2).toList
      ++ ((renderEntries layout (level + 1) (entries.map keyed)).toList
        ++ ((layout.opening level).toList ++ '\x7d' :: rest))) = tail
    have hquote : ∃ more, tail = '"' :: more := by
      rw [← htail, toList_quote]
      exact ⟨_, rfl⟩
    obtain ⟨more, rfl⟩ := hquote
    obtain ⟨p, hskip⟩ := skip_append ('"' :: more) (isSpace_opening layout (level + 1))
      (by rintro c others ⟨⟩; rfl) (place + 1)
    obtain ⟨behind, hread⟩ := readEntries_render hplain hback level depth p rest (by omega)
    rw [htail] at hread
    have hopen : ('"' :: more).head? ≠ some '\x7d' := by simp
    refine ⟨behind, ?_⟩
    simp only [readValue, Rest.advance, List.drop_succ_cons, List.drop_zero, hskip, hopen,
      if_false, hread, Except.ok_bind, ofPairs_keyed hkeys, hobject]

/-- A plain value is read back from its text at any level. -/
theorem Plain.readValue_render {v : Value} (h : Plain v) (layout : Layout) :
    ReadsBack layout v := by
  induction h with
  | int n => exact readsBack_int layout n
  | string s => exact readsBack_string layout s
  | list hitems ih => exact readsBack_list hitems ih
  | object hkeys hentries ih => exact readsBack_object hkeys hentries ih

/-- A plain value is read back from its text. -/
theorem Plain.parse_print {v : Value} (h : Plain v) (layout : Layout) :
    parse (print layout v) = .ok v := by
  obtain ⟨c, more, hrender, hc, -, hmark⟩ := h.exists_render layout 0
  obtain ⟨behind, hread⟩ := h.readValue_render layout 0
    (2 * (render layout 0 v).toList.length + 2) 0 [] endsNumber_nil (by omega)
  have hfirst : (print layout v).toList.head? ≠ some '\ufeff' := by
    rw [print, hrender]
    simpa using hmark
  have hskip : (Rest.mk 0 (print layout v).toList).skip = ⟨0, (print layout v).toList⟩ := by
    rw [print, hrender]
    exact skip_cons hc 0 more
  have hend : (Rest.mk behind []).skip.chars.isEmpty = true := rfl
  rw [List.append_nil] at hread
  have hchars : parseChars (print layout v).toList = .ok v := by
    rw [parseChars, if_neg hfirst, hskip, print, hread, Except.ok_bind]
    simp only [hend, if_true]
  rw [parse, hchars]

/-! ## Line ends -/

theorem return_not_mem_hexDigits (count n : Nat) : '\r' ∉ hexDigits count n := by
  have hdigit : ∀ d < 16, hexDigit d ≠ '\r' := by decide
  induction count generalizing n with
  | zero => simp [hexDigits]
  | succ count ih =>
    have hmod : hexDigit n = hexDigit (n % 16) := by simp only [hexDigit, Nat.mod_mod]
    have hlast := hdigit (n % 16) (Nat.mod_lt n (by decide))
    rw [hexDigits, List.mem_append, List.mem_singleton, hmod]
    rintro (h | h)
    · exact ih _ h
    · exact hlast h.symm

theorem return_not_mem_quote (s : String) : '\r' ∉ (quote s).toList := by
  have hescape : ∀ c, '\r' ∉ escape c := by
    intro c
    have hhex := return_not_mem_hexDigits 4
    unfold escape
    iterate 7
      split
      · decide
    split
    · next hc =>
      rw [List.mem_singleton]
      rintro rfl
      exact absurd hc (by decide)
    split
    · simp [hhex]
    · simp [hhex]
  simp only [toList_quote, List.mem_cons, List.mem_append, List.mem_flatMap, not_or]
  refine ⟨by decide, ?_, by simp⟩
  rintro ⟨c, -, hc⟩
  exact hescape c hc

theorem return_not_mem_intText (n : Int) : '\r' ∉ (intText n).toList := by
  have hdigits : ∀ m, '\r' ∉ digits m := fun m h =>
    absurd (isAsciiDigit_of_mem_digits m _ h) (by decide)
  rw [intText, String.toList_ofList]
  cases n with
  | ofNat m => exact hdigits m
  | negSucc m => simpa [intDigits] using hdigits (m + 1)

theorem return_not_mem_opening (layout : Layout) (level : Nat) :
    '\r' ∉ (layout.opening level).toList := by
  cases layout with
  | inline => simp [Layout.opening]
  | lines width => simp [Layout.opening]

theorem return_not_mem_separator (layout : Layout) (level : Nat) :
    '\r' ∉ (layout.separator level).toList := by
  cases layout with
  | inline => simp [Layout.separator]
  | lines width => simpa [Layout.separator] using return_not_mem_opening (.lines width) level

theorem Plain.return_not_mem_render {v : Value} (h : Plain v) (layout : Layout) (level : Nat) :
    '\r' ∉ (render layout level v).toList := by
  have hopening := return_not_mem_opening layout
  have hseparator := return_not_mem_separator layout
  induction h generalizing level with
  | int n => exact return_not_mem_intText n
  | string s => exact return_not_mem_quote s
  | @list items hitems ih =>
    have hmore : ∀ (vs : List Value) level, (∀ v ∈ vs, v ∈ items) →
        '\r' ∉ (renderItems layout level vs).toList := by
      intro vs level hvs
      induction vs with
      | nil => simp [renderItems]
      | cons v vs ihvs =>
        simp only [renderItems, String.toList_append, List.mem_append, not_or]
        exact ⟨⟨hseparator level, ih v (hvs v (by simp)) level⟩,
          ihvs fun w hw => hvs w (by simp [hw])⟩
    cases items with
    | nil => simp [render]
    | cons v rest =>
      simp only [render, String.toList_append, List.mem_append, not_or]
      exact ⟨⟨⟨⟨⟨by decide, hopening _⟩, ih v (by simp) _⟩,
        hmore rest _ fun w hw => by simp [hw]⟩, hopening _⟩, by decide⟩
  | @object entries hkeys hentries ih =>
    have hmore : ∀ (es : List (String × Value)) level, (∀ e ∈ es, e ∈ entries) →
        '\r' ∉ (renderEntries layout level (es.map keyed)).toList := by
      intro es level hes
      induction es with
      | nil => simp [renderEntries]
      | cons e es ihes =>
        simp only [List.map_cons, keyed, renderEntries, keyText, String.toList_append,
          List.mem_append, not_or]
        exact ⟨⟨⟨⟨hseparator level, return_not_mem_quote e.1⟩, by decide⟩,
          ih e (hes e (by simp)) level⟩, ihes fun d hd => hes d (by simp [hd])⟩
    cases entries with
    | nil => simp [Value.object, render]
    | cons e rest =>
      have hobject : Value.object (e :: rest) = .mapping (keyed e :: rest.map keyed) := rfl
      simp only [hobject, keyed, render, keyText, String.toList_append, List.mem_append, not_or]
      exact ⟨⟨⟨⟨⟨⟨⟨by decide, hopening _⟩, return_not_mem_quote e.1⟩, by decide⟩,
        ih e (by simp) _⟩, hmore rest _ fun d hd => by simp [hd]⟩, hopening _⟩, by decide⟩

end LuaCoverage.Json

/-! ## Integers as names -/

namespace LuaCoverage
open LuaCoverage.Decimal

theorem Scalar.toInt_intText (n : Int) : (Scalar.string (intText n)).toInt = .ok n := by
  simp [Scalar.toInt, intText, readInt_intDigits]

theorem Decimal.intText_injective : Function.Injective intText := by
  intro m n h
  have hm := Scalar.toInt_intText m
  rw [h, Scalar.toInt_intText] at hm
  exact (Except.ok.inj hm).symm

theorem Decimal.natText_injective : Function.Injective natText := by
  intro m n h
  exact Int.ofNat.inj (intText_injective h)

/-- An object whose names are the decimal forms of different numbers. -/
theorem Json.plain_object {α : Type} {entries : List α} {k : α → Int} {v : α → Value}
    (h : (entries.map k).Nodup) (hplain : ∀ e ∈ entries, Plain (v e)) :
    Plain (.object (entries.map fun e => (intText (k e), v e))) := by
  refine .object ?_ fun entry he => ?_
  · have hnames := h.map intText_injective
    rw [List.map_map] at hnames ⊢
    exact hnames
  · obtain ⟨e, hmem, rfl⟩ := List.mem_map.1 he
    exact hplain e hmem

end LuaCoverage
