import LuaCoverage.Proofs.Decimal.Integer
import LuaCoverage.Proofs.Instrument.Literal
import LuaCoverage.Proofs.Instrument.Woven.Draft
import Mathlib.Tactic.IntervalCases

/-!
# Calls that were written

What is written at a site is read as a call of the probe whose arguments are literals; at an opener
the operand is the last of them. All that is read of what was written is erased, so of the call
around an operand the operand is left.

Results:
* `reads_literal`: a literal is read as an expression.
* `expressionStatement_literals`: a call of literals is read as a statement.
* `block_literals`: so it is in a block, where its semicolon is the next statement.
-/

namespace LuaCoverage.Instrument
open LuaCoverage.Lua LuaCoverage.Text LuaCoverage.Lua.Cursor LuaCoverage.Lua.Grammar
open LuaCoverage.Analysis LuaCoverage.Decimal

/-- A comma or a closing parenthesis comes next: whatever stands in front of it ends there. -/
def IsStop (rest : List Glyph) : Prop :=
  ∃ c more, rest = .ofChar c :: more ∧ (c = ',' ∨ c = ')')

/-- A node of what was written is erased. -/
def Erases (o e : Nat) (nodes : List Node) : Prop := ∀ (result : Bytes) (written : List Span),
  (∃ span ∈ written, span.1 ≤ o ∧ e ≤ span.2) → Node.erasedIn result written nodes = []

variable {rest : List Glyph} {depth level : Nat} {left : Node} {o : Nat}

theorem operators_of_isStop (depth level : Nat) (left : Node) (h : IsStop rest) :
    rules .lua (depth + 1) (.operators level left) ⟨o, rest⟩ = some ([left], ⟨o, rest⟩) := by
  obtain ⟨c, more, rfl, rfl | rfl⟩ := h
  · rfl
  · rfl

/-! ## What starts an expression -/

/-- Whether what stands at a cursor may start an expression. -/
def isStart (c : Cursor) : Bool :=
  seesString .lua c || c.sees "\x7b" || c.sees "(" || c.sees "..." || seesNumber c
    || Dialect.lua.unaryMarks.any (fun text => c.sees text) || (Lexeme.word? .lua c).isSome

theorem isSome_word?_of_wordAt {c : Cursor} (h : Lexeme.wordAt .lua c ≠ "") :
    (Lexeme.word? .lua c).isSome = true := by
  unfold Lexeme.wordAt at h
  cases hword : Lexeme.word? .lua c with
  | none => simp [hword] at h
  | some word => rfl

theorem isStart_of_word {c : Cursor} (h : (Lexeme.word? .lua c).isSome = true) :
    isStart c = true := by
  rw [isStart, h, Bool.or_true]

theorem isStart_of_expression {table : Rules} {c n : Cursor} {nodes : List Node}
    (hc : Lexeme.trivia? c = some ([], c))
    (h : expression .lua table level c = some (nodes, n)) : isStart c = true := by
  unfold expression at h
  split at h
  · next operator hunary =>
    unfold unaryAt? at hunary
    split at hunary
    · next hnot => exact isStart_of_word (isSome_word?_of_wordAt (by rw [hnot]; decide))
    · obtain ⟨text, htext, -⟩ := Option.map_eq_some_iff.1 hunary
      have hany : Dialect.lua.unaryMarks.any (fun text => c.sees text) = true :=
        by
        have hsees := List.find?_some htext
        exact List.any_eq_true.2 ⟨text, List.mem_of_find?_eq_some htext, hsees⟩
      simp [isStart, hany]
  · obtain ⟨⟨simple, next⟩, hsimple, -⟩ := Option.bind_eq_some_iff.1 h
    unfold simpleExpression at hsimple
    by_cases hmarks : (seesString .lua c || c.sees "\x7b" || c.sees "(" || c.sees "..."
        || seesNumber c) = true
    · rw [isStart, hmarks, Bool.true_or, Bool.true_or]
    · refine isStart_of_word ?_
      by_cases hword : Lexeme.wordAt .lua c = ""
      · simp only [Bool.or_eq_true, not_or, Bool.not_eq_true] at hmarks
        obtain ⟨⟨⟨⟨hstring, htable⟩, hparen⟩, hvararg⟩, hnumber⟩ := hmarks
        simp only [hstring, htable, hvararg, hnumber, hword] at hsimple
        simp only [prefixExpression, hparen] at hsimple
        obtain ⟨draft, hdraft, -⟩ := Option.bind_eq_some_iff.1 hsimple
        obtain ⟨comments, u, names, n, htrivia, hread, -⟩ := take_eq_some hdraft
        obtain ⟨-, rfl⟩ : [] = comments ∧ c = u := by simpa [Draft.start, hc] using htrivia
        obtain ⟨next, hnext, -⟩ := Option.map_eq_some_iff.1 hread
        obtain ⟨word, hword, -⟩ := Option.map_eq_some_iff.1 hnext
        rw [hword]
        rfl
      · exact isSome_word?_of_wordAt hword

theorem char?_of_sees {c : Cursor} {text : String} {t : Char} {more : List Char}
    (htext : text.toList = t :: more) (h : c.sees text = true) : c.char? = some t := by
  by_cases hchar : c.char? = some t
  · exact hchar
  · rw [sees_eq_false _ htext hchar] at h
    cases h

theorem char?_of_isStart {c : Cursor} (h : isStart c = true) : ∃ ch, c.char? = some ch
    ∧ ch ∉ [')', ']', '\x7d', ',', ';', '=', ':'] := by
  simp only [isStart, seesString, Lexeme.startsString, Bool.or_eq_true, beq_iff_eq, seesNumber,
    List.any_eq_true, reduceCtorEq, decide_false, Bool.false_and, Bool.false_eq_true, or_false]
    at h
  rcases h with (((((((h | h) | h) | h) | h) | h) | h) | ⟨text, htext, h⟩) | h
  · exact ⟨_, h, by decide⟩
  · exact ⟨_, h, by decide⟩
  · rw [Lexeme.longOpen?_eq] at h
    obtain ⟨inner, hinner, -⟩ := Option.bind_eq_some_iff.1 (Option.isSome_iff_exists.1 h).choose_spec
    have hsees : c.sees "[" = true := by
      rw [Cursor.sees, hinner]
      rfl
    exact ⟨_, char?_of_sees rfl hsees, by decide⟩
  · exact ⟨_, char?_of_sees rfl h, by decide⟩
  · exact ⟨_, char?_of_sees rfl h, by decide⟩
  · exact ⟨_, char?_of_sees rfl h, by decide⟩
  · rcases h with h | h
    · cases hchar : c.char? with
      | none => simp [hchar] at h
      | some ch =>
        rw [hchar] at h
        refine ⟨ch, rfl, fun hmem => ?_⟩
        simp only [List.mem_cons, List.not_mem_nil, or_false] at hmem
        rcases hmem with rfl | rfl | rfl | rfl | rfl | rfl | rfl <;> cases h
    · obtain ⟨inner, hinner, -⟩ :=
        Option.bind_eq_some_iff.1 (Option.isSome_iff_exists.1 h).choose_spec
      have hsees : c.sees "." = true := by
        rw [Cursor.sees, hinner]
        rfl
      exact ⟨_, char?_of_sees rfl hsees, by decide⟩
  · simp only [Dialect.unaryMarks, List.mem_cons, List.not_mem_nil, or_false] at htext
    rcases htext with rfl | rfl | rfl
    · exact ⟨_, char?_of_sees rfl h, by decide⟩
    · exact ⟨_, char?_of_sees rfl h, by decide⟩
    · exact ⟨_, char?_of_sees rfl h, by decide⟩
  · cases hchar : c.char?.any Dialect.lua.isNameStart with
    | false =>
      rw [Lexeme.word?_eq_none_iff.2 (by simp [hchar])] at h
      cases h
    | true =>
      cases hc : c.char? with
      | none => simp [hc] at hchar
      | some ch =>
        rw [hc] at hchar
        refine ⟨ch, rfl, fun hmem => ?_⟩
        simp only [List.mem_cons, List.not_mem_nil, or_false] at hmem
        rcases hmem with rfl | rfl | rfl | rfl | rfl | rfl | rfl <;> revert hchar <;> decide

/-- A list starts with an expression. -/
theorem isStart_of_separated {c n : Cursor} {nodes : List Node}
    (hc : Lexeme.trivia? c = some ([], c))
    (h : rules .lua depth (.separated .expression) c = some (nodes, n)) : isStart c = true := by
  cases depth with
  | zero => cases h
  | succ depth =>
    obtain ⟨draft, hdraft, -⟩ := Option.bind_eq_some_iff.1 h
    obtain ⟨comments, u, first, next, htrivia, hread, -⟩ := take_eq_some hdraft
    obtain ⟨-, rfl⟩ : [] = comments ∧ c = u := by simpa [Draft.start, hc] using htrivia
    cases depth with
    | zero => cases hread
    | succ depth => exact isStart_of_expression hc hread

theorem sees_of_isStart {c : Cursor} (h : isStart c = true) (text : String) {t : Char}
    {more : List Char} (htext : text.toList = t :: more)
    (ht : t ∈ [')', ']', '\x7d', ',', ';', '=', ':']) : c.sees text = false := by
  obtain ⟨ch, hch, hnot⟩ := char?_of_isStart h
  refine sees_eq_false _ htext ?_
  rw [hch]
  rintro heq
  cases heq
  exact hnot ht

/-! ## Strings -/

theorem one?_ofChar {p : Glyph → Bool} {c : Char} (h : p (.ofChar c) = true) :
    Cursor.one? p ⟨o, .ofChar c :: rest⟩ = some ⟨o + (Glyph.ofChar c).width, rest⟩ := by
  simp [Cursor.one?, h]

/-- Three digits are read as one escape. -/
theorem luaEscape?_digits (rest : List Glyph) {a b c : Char} (ha : isAsciiDigit a = true)
    (hb : isAsciiDigit b = true) (hc : isAsciiDigit c = true) :
    Lexeme.luaEscape? ⟨o, [a, b, c].map .ofChar ++ rest⟩
      = some ⟨o + width ([a, b, c].map .ofChar), rest⟩ := by
  have hdigit {d : Char} (hd : isAsciiDigit d = true) : Lexeme.isDigit (.ofChar d) = true := hd
  have hchar : Cursor.char? ⟨o, [a, b, c].map .ofChar ++ rest⟩ = some a := rfl
  have hthree : Cursor.upTo Lexeme.isDigit 3 ⟨o, [a, b, c].map .ofChar ++ rest⟩
      = ⟨o + width ([a, b, c].map .ofChar), rest⟩ := by
    simp only [List.map_cons, List.map_nil, List.cons_append, List.nil_append, Cursor.upTo,
      one?_ofChar (hdigit ha), one?_ofChar (hdigit hb), one?_ofChar (hdigit hc), width_cons,
      width_nil, Nat.add_assoc, Nat.add_zero]
  unfold Lexeme.luaEscape?
  rw [hchar]
  split
  · next heq =>
    cases heq
    cases ha
  · next heq =>
    cases heq
    cases ha
  · next heq =>
    cases heq
    cases ha
  · next ch heq =>
    cases heq
    rw [if_pos ha, hthree]
  · next heq => cases heq

/-- What is written for a character of a text is read as one character or escape. -/
theorem quotedRest?_quoteChar (c : Char) (b : Glyph) (bound : List Glyph) :
    Lexeme.quotedRest? .lua '"' (b :: bound) ⟨o, (quoteChar c).map .ofChar ++ rest⟩
      = Lexeme.quotedRest? .lua '"' bound ⟨o + width ((quoteChar c).map .ofChar), rest⟩ := by
  have hslash : (Glyph.ofChar '\\').char ≠ some '"' := by decide
  unfold quoteChar
  split
  · next hmark =>
    have hmark : c = '"' ∨ c = '\\' := by simpa using hmark
    rcases hmark with rfl | rfl
    · rfl
    · rfl
  · next hmark =>
    simp only [Bool.or_eq_true, beq_iff_eq, not_or] at hmark
    split
    · next hcontrol =>
      simp only [Bool.or_eq_true, decide_eq_true_eq, beq_iff_eq] at hcontrol
      have hread := luaEscape?_digits (o := o + 1) rest
        (isAsciiDigit_digitChar (c.toNat / 100)) (isAsciiDigit_digitChar (c.toNat / 10))
        (isAsciiDigit_digitChar c.toNat)
      rw [padded_three (by omega), Lexeme.quotedRest?]
      simp only [List.map_cons, List.cons_append, if_neg hslash] at hread ⊢
      rw [if_pos (by rfl), one?_ofChar (by rfl)]
      simp only [Option.bind_some]
      rw [show o + (Glyph.ofChar '\\').width = o + 1 from rfl, Lexeme.escape?, hread]
      simp [Nat.add_assoc, show (Glyph.ofChar '\\').width = 1 from rfl]
    · next hcontrol =>
      have hquote : (Glyph.ofChar c).char ≠ some '"' := fun h => hmark.1 (Option.some.inj h)
      have hescape : (Glyph.ofChar c).char ≠ some '\\' := fun h => hmark.2 (Option.some.inj h)
      simp only [List.map_cons, List.map_nil, List.cons_append, List.nil_append, Lexeme.quotedRest?,
        if_neg hquote, if_neg hescape, one?_ofChar, Option.bind_some, width_cons, width_nil,
        Nat.add_zero]

theorem quotedRest?_quote (text : List Char) {bound : List Glyph} (hbound : text.length < bound.length) :
    Lexeme.quotedRest? .lua '"' bound
      ⟨o, (text.flatMap quoteChar ++ ['"']).map .ofChar ++ rest⟩
      = some ⟨o + width ((text.flatMap quoteChar ++ ['"']).map .ofChar), rest⟩ := by
  induction text generalizing o bound with
  | nil =>
    obtain ⟨b, bound, rfl⟩ := List.exists_cons_of_length_pos (show 0 < bound.length by
      simpa using hbound)
    rfl
  | cons c text ih =>
    obtain ⟨b, bound, rfl⟩ := List.exists_cons_of_length_pos (show 0 < bound.length by omega)
    simp only [List.length_cons] at hbound
    have hrest := ih (o := o + width ((quoteChar c).map .ofChar)) (show text.length < bound.length by
      omega)
    rw [List.flatMap_cons, List.append_assoc, List.map_append, List.append_assoc,
      quotedRest?_quoteChar, hrest, width_append, Nat.add_assoc]

theorem quoted?_quote (text : String) (rest : List Glyph) :
    Lexeme.quoted? .lua ⟨o, glyphsOf (quote text) ++ rest⟩
    = some ⟨o + width (glyphsOf (quote text)), rest⟩ := by
  have hglyphs : glyphsOf (quote text) = .ofChar '"'
      :: (text.toList.flatMap quoteChar ++ ['"']).map .ofChar := by
    rw [glyphsOf, quote, String.toList_ofList]
    rfl
  have hlength : text.toList.length
      < ((text.toList.flatMap quoteChar ++ ['"']).map Glyph.ofChar ++ rest).length := by
    have hchars (chars : List Char) : chars.length ≤ (chars.flatMap quoteChar).length := by
      induction chars with
      | nil => exact Nat.le_refl _
      | cons c chars ih =>
        have hc := List.length_pos_iff.2 (quoteChar_ne_nil c)
        simp only [List.flatMap_cons, List.length_append, List.length_cons]
        omega
    have htext := hchars text.toList
    simp only [List.length_append, List.length_map, List.length_cons]
    omega
  rw [hglyphs, List.cons_append, Lexeme.quoted?]
  have hchar : Cursor.char? ⟨o, .ofChar '"'
      :: ((text.toList.flatMap quoteChar ++ ['"']).map .ofChar ++ rest)⟩ = some '"' := rfl
  simp only [hchar, beq_self_eq_true, Bool.true_or, if_true, one?_ofChar, Option.bind_some]
  rw [quotedRest?_quote text.toList hlength, width_cons, Nat.add_assoc]

/-! ## Numbers -/

/-- Digits are read as a number. -/
theorem read?_digits {d : Char} {ds : List Char} (hd : isAsciiDigit d = true)
    (hds : ∀ c ∈ ds, isAsciiDigit c = true) (h : IsStop rest) :
    Lexeme.LuaNumber.read? ⟨o, (d :: ds).map .ofChar ++ rest⟩
      = some ⟨o + width ((d :: ds).map .ofChar), rest⟩ := by
  obtain ⟨stop, more, rfl, hstop⟩ := h
  have hwhole : Cursor.some? Lexeme.isDigit ⟨o, (d :: ds).map .ofChar ++ .ofChar stop :: more⟩
      = some ⟨o + width ((d :: ds).map .ofChar), .ofChar stop :: more⟩ := by
    have hone : Lexeme.isDigit (.ofChar d) = true := hd
    have hall : ∀ g ∈ ds.map Glyph.ofChar, Lexeme.isDigit g = true := by
      intro g hg
      obtain ⟨c, hc, rfl⟩ := List.mem_map.1 hg
      exact hds c hc
    have hends : (Glyph.ofChar stop :: more).head?.all (fun g => !Lexeme.isDigit g) = true := by
      rcases hstop with rfl | rfl
      · rfl
      · rfl
    rw [Cursor.some?, List.map_cons, List.cons_append, one?_ofChar hone, Option.map_some,
      dropWhile_append hall hends, width_cons, Nat.add_assoc]
  have hhex (x : Char) (hx : isAsciiDigit x = false ∧ x ≠ ',' ∧ x ≠ ')') :
      textFrom? ['0', x] o ((d :: ds).map .ofChar ++ .ofChar stop :: more) = none := by
    have hsecond : ∃ c rest, ds.map Glyph.ofChar ++ .ofChar stop :: more = .ofChar c :: rest
        ∧ c ≠ x := by
      cases ds with
      | nil =>
        refine ⟨stop, more, rfl, ?_⟩
        rcases hstop with rfl | rfl
        · exact hx.2.1.symm
        · exact hx.2.2.symm
      | cons c ds =>
        refine ⟨c, _, rfl, ?_⟩
        rintro rfl
        have hc := hds c List.mem_cons_self
        rw [hx.1] at hc
        cases hc
    obtain ⟨c, behind, hrest, hc⟩ := hsecond
    have hne : (Glyph.ofChar c).char ≠ some x := fun h => hc (Option.some.inj h)
    rw [List.map_cons, List.cons_append, hrest, textFrom?, textFrom?, if_neg hne, ite_self]
  have hlower : Cursor.text? "0x" ⟨o, (d :: ds).map .ofChar ++ .ofChar stop :: more⟩ = none :=
    hhex 'x' (by decide)
  have hupper : Cursor.text? "0X" ⟨o, (d :: ds).map .ofChar ++ .ofChar stop :: more⟩ = none :=
    hhex 'X' (by decide)
  simp only [Lexeme.LuaNumber.read?, hlower, hupper, Lexeme.LuaNumber.based?,
    Lexeme.LuaNumber.mantissa?, hwhole, Option.bind_some]
  rcases hstop with rfl | rfl
  · rfl
  · rfl

/-! ## Literals -/

/-- The arguments of the calls that are written. -/
inductive Literal : String → Prop
  | quoted (text : String) : Literal (quote text)
  | number (n : Int) : Literal (intText n)
  | word (text : String) : text = "nil" ∨ text = "None" → Literal text

theorem erases_leaf (kind : NodeKind) {e : Nat} : Erases o e [.mk kind none o e []] := by
  rintro result written ⟨span, hspan, hle, hle'⟩
  rw [Node.erasedIn_cons, Node.erased_of_within, Node.erasedIn_nil]
  · rfl
  · exact List.any_eq_true.2 ⟨span, hspan, by simp [hle, hle']⟩

theorem mem_digits {c : Char} (h : isAsciiDigit c = true) : c ∈ "0123456789".toList := by
  simp only [isAsciiDigit, Bool.and_eq_true, decide_eq_true_eq] at h
  obtain ⟨hlow, hhigh⟩ := h
  have hc : c = Char.ofNat c.toNat := (Char.ofNat_toNat c).symm
  generalize c.toNat = n at hc hlow hhigh
  subst hc
  interval_cases n <;> decide

/-- A simple expression in front of a stop is an expression. -/
theorem expression_of_simple {c next : Cursor} {x : Node} (hunary : unaryAt? .lua c = none)
    (hread : simpleExpression .lua (rules .lua (depth + 1)) c = some ([x], next))
    (hstop : IsStop next.rest) :
    rules .lua (depth + 2) (.expression level) c = some ([x], next) := by
  have hoperators : rules .lua (depth + 1) (.operators level x) next = some ([x], next) :=
    operators_of_isStop depth level x hstop
  simp only [rules, rule, expression, hunary] at hread hoperators ⊢
  simp [hread, hoperators]

theorem reads_quoted (depth : Nat) {text : String} (hrest : IsStop rest) :
    rules .lua (depth + 2) (.expression level) ⟨o, glyphsOf (quote text) ++ rest⟩
      = some ([.mk .string none o (o + width (glyphsOf (quote text))) []],
        ⟨o + width (glyphsOf (quote text)), rest⟩) := by
  have hquoted := quoted?_quote (o := o) text rest
  obtain ⟨more, hmore⟩ : ∃ more, glyphsOf (quote text) ++ rest = .ofChar '"' :: more := by
    rw [glyphsOf, quote, String.toList_ofList]
    exact ⟨_, rfl⟩
  rw [hmore] at hquoted ⊢
  refine expression_of_simple rfl ?_ hrest
  have hsees : seesString .lua ⟨o, .ofChar '"' :: more⟩ = true := rfl
  have hlong : (Lexeme.longOpen? ⟨o, .ofChar '"' :: more⟩).isSome = false := rfl
  have hstring : Lexeme.string? .lua ⟨o, .ofChar '"' :: more⟩
      = some ⟨o + width (glyphsOf (quote text)), rest⟩ := by
    rw [Lexeme.string?, hlong, ← hquoted]
    rfl
  simp [simpleExpression, hsees, string, leaf, hstring]

/-- No white space and no comment stands in front of a digit, or of a minus sign in front of one. -/
theorem trivia?_digit {d : Char} (hd : isAsciiDigit d = true) (more : List Glyph) :
    Lexeme.trivia? ⟨o, .ofChar d :: more⟩ = some ([], ⟨o, .ofChar d :: more⟩)
      ∧ Lexeme.trivia? ⟨o, .ofChar '-' :: .ofChar d :: more⟩
        = some ([], ⟨o, .ofChar '-' :: .ofChar d :: more⟩) := by
  have hmem := mem_digits hd
  simp only [String.reduceToList, List.mem_cons, List.not_mem_nil, or_false] at hmem
  rcases hmem with rfl | rfl | rfl | rfl | rfl | rfl | rfl | rfl | rfl | rfl <;> exact ⟨rfl, rfl⟩

theorem reads_digits (depth level n : Nat) (hrest : IsStop rest) :
    rules .lua (depth + 2) (.expression level) ⟨o, (digits n).map .ofChar ++ rest⟩
      = some ([.mk .number none o (o + width ((digits n).map .ofChar)) []],
        ⟨o + width ((digits n).map .ofChar), rest⟩) := by
  obtain ⟨d, ds, hdigits, hd⟩ := digits_eq_cons n
  have hds : ∀ c ∈ ds, isAsciiDigit c = true := fun c hc =>
    isAsciiDigit_of_mem_digits n c (by rw [hdigits]; exact List.mem_cons_of_mem _ hc)
  have hread := read?_digits (o := o) hd hds hrest
  rw [hdigits]
  rw [List.map_cons, List.cons_append] at hread ⊢
  generalize ds.map Glyph.ofChar ++ rest = more at hread ⊢
  have hfront : unaryAt? .lua ⟨o, .ofChar d :: more⟩ = none
      ∧ seesString .lua ⟨o, .ofChar d :: more⟩ = false
      ∧ Cursor.sees "\x7b" ⟨o, .ofChar d :: more⟩ = false
      ∧ Cursor.sees "..." ⟨o, .ofChar d :: more⟩ = false
      ∧ seesNumber ⟨o, .ofChar d :: more⟩ = true := by
    have hmem := mem_digits hd
    simp only [String.reduceToList, List.mem_cons, List.not_mem_nil, or_false] at hmem
    rcases hmem with rfl | rfl | rfl | rfl | rfl | rfl | rfl | rfl | rfl | rfl <;>
      exact ⟨rfl, rfl, rfl, rfl, rfl⟩
  obtain ⟨hunary, hstring, htable, hvararg, hnumber⟩ := hfront
  refine expression_of_simple hunary ?_ hrest
  simp [simpleExpression, hstring, htable, hvararg, hnumber, leaf, Lexeme.number?, hread]

theorem reads_negative (n : Nat) (hrest : IsStop rest) :
    rules .lua (depth + 3) (.expression 0) ⟨o, .ofChar '-' :: ((digits n).map .ofChar ++ rest)⟩
      = some ([.mk .unaryExpression none o (o + 1 + width ((digits n).map .ofChar))
          [.mk (.token "-") none o (o + 1) [],
            .mk .number none (o + 1) (o + 1 + width ((digits n).map .ofChar)) []]],
        ⟨o + 1 + width ((digits n).map .ofChar), rest⟩) := by
  have hread := reads_digits depth (Dialect.lua.unaryLevel + 1) (o := o + 1) n hrest
  obtain ⟨d, ds, hdigits, hd⟩ := digits_eq_cons n
  rw [hdigits] at hread ⊢
  rw [List.map_cons, List.cons_append] at hread ⊢
  generalize ds.map Glyph.ofChar ++ rest = more at hread ⊢
  have hunary : unaryAt? .lua ⟨o, .ofChar '-' :: .ofChar d :: more⟩ = some (mark "-") := rfl
  have hmark : mark "-" ⟨o, .ofChar '-' :: .ofChar d :: more⟩
      = some ([.mk (.token "-") none o (o + 1) []], ⟨o + 1, .ofChar d :: more⟩) := rfl
  have htake : (Draft.start ⟨o, .ofChar '-' :: .ofChar d :: more⟩).take (mark "-")
      = some ⟨⟨o + 1, .ofChar d :: more⟩, [.mk (.token "-") none o (o + 1) []]⟩ :=
    Draft.take_eq (.start _) (trivia?_digit hd more).2 hmark
  have htake' := Draft.take_eq ⟨⟨o + 1, .ofChar d :: more⟩, [.mk (.token "-") none o (o + 1) []]⟩
    (trivia?_digit hd more).1 hread
  have hoperators := fun left => operators_of_isStop (depth + 1) 0 left
    (o := o + 1 + width (.ofChar d :: ds.map .ofChar)) hrest
  have hexpression : rules .lua (depth + 3) (.expression 0) ⟨o, .ofChar '-' :: .ofChar d :: more⟩
      = expression .lua (rules .lua (depth + 2)) 0 ⟨o, .ofChar '-' :: .ofChar d :: more⟩ := rfl
  simp only [hexpression, expression, hunary, htake, htake', Option.bind_eq_bind, Option.bind_some,
    hoperators]
  rfl

/-- A literal is read as an expression that is erased. -/
theorem reads_literal (depth o : Nat) {text : String} (h : Literal text) (hrest : IsStop rest) :
    ∃ x, rules .lua (depth + 3) (.expression 0) ⟨o, glyphsOf text ++ rest⟩
        = some ([x], ⟨o + width (glyphsOf text), rest⟩)
      ∧ Erases o (o + width (glyphsOf text)) [x] := by
  cases h with
  | quoted text => exact ⟨_, reads_quoted (depth + 1) hrest, erases_leaf _⟩
  | number n =>
    cases n with
    | ofNat n =>
      have hglyphs : glyphsOf (intText (.ofNat n)) = (digits n).map .ofChar := by
        rw [glyphsOf, intText, String.toList_ofList, intDigits]
      rw [hglyphs]
      exact ⟨_, reads_digits (depth + 1) 0 n hrest, erases_leaf _⟩
    | negSucc n =>
      have hglyphs : glyphsOf (intText (.negSucc n))
          = .ofChar '-' :: (digits (n + 1)).map .ofChar := by
        rw [glyphsOf, intText, String.toList_ofList, intDigits, List.map_cons]
      have hwidth : o + width (.ofChar '-' :: (digits (n + 1)).map .ofChar)
          = o + 1 + width ((digits (n + 1)).map .ofChar) := by
        rw [width_cons, ← Nat.add_assoc]
        rfl
      rw [hglyphs, List.cons_append, hwidth]
      refine ⟨_, reads_negative (n + 1) hrest, ?_⟩
      rintro result written ⟨span, hspan, hle, hle'⟩
      have hminus := erases_leaf (.token "-") result written
        ⟨span, hspan, hle, show o + 1 ≤ span.2 by omega⟩
      have hnumber := erases_leaf .number (o := o + 1) result written
        ⟨span, hspan, by omega, hle'⟩
      rw [Node.erasedIn_cons, Node.erased_of_written (by simp), Node.erasedIn_nil]
      · rfl
      · rw [Node.erasedIn_cons, Node.erasedIn_nil, List.append_nil] at hminus
        rw [Node.erasedIn_cons, hminus, hnumber]
        rfl
  | word text h =>
    obtain ⟨c, more, rfl, hc⟩ := hrest
    rcases h with rfl | rfl
    · refine ⟨.mk .nilValue none o (o + width (glyphsOf "nil")) [], ?_, erases_leaf _⟩
      rcases hc with rfl | rfl
      · rfl
      · rfl
    · refine ⟨.mk .identifier none o (o + width (glyphsOf "None")) [], ?_, erases_leaf _⟩
      rcases hc with rfl | rfl
      · rfl
      · rfl

/-- No white space and no comment stands in front of a literal. -/
theorem trivia?_literal {text : String} (h : Literal text) (rest : List Glyph) :
    Lexeme.trivia? ⟨o, glyphsOf text ++ rest⟩ = some ([], ⟨o, glyphsOf text ++ rest⟩) := by
  cases h with
  | quoted text =>
    rw [glyphsOf, quote, String.toList_ofList]
    rfl
  | number n =>
    cases n with
    | ofNat n =>
      obtain ⟨d, ds, hdigits, hd⟩ := digits_eq_cons n
      rw [glyphsOf, intText, String.toList_ofList, intDigits, hdigits]
      exact (trivia?_digit hd _).1
    | negSucc n =>
      obtain ⟨d, ds, hdigits, hd⟩ := digits_eq_cons (n + 1)
      rw [glyphsOf, intText, String.toList_ofList, intDigits, hdigits]
      exact (trivia?_digit hd _).2
  | word text h =>
    rcases h with rfl | rfl
    · rfl
    · rfl

/-- A blank is passed over. -/
theorem trivia?_blank {u : Cursor} (h : Lexeme.trivia? ⟨o + 1, rest⟩ = some ([], u)) :
    Lexeme.trivia? ⟨o, .ofChar ' ' :: rest⟩ = some ([], u) := by
  have hdrop : Cursor.dropWhile Lexeme.isSpace ⟨o, .ofChar ' ' :: rest⟩
      = Cursor.dropWhile Lexeme.isSpace ⟨o + 1, rest⟩ := rfl
  unfold Lexeme.trivia? at h ⊢
  simp only [Lexeme.triviaWithin, hdrop]
  cases rest with
  | nil =>
    cases h
    rfl
  | cons g rest =>
    simp only [Lexeme.triviaWithin] at h
    split at h
    · exact h
    · cases h
    · next behind hcomment =>
      obtain ⟨⟨more, next⟩, -, h⟩ := Option.bind_eq_some_iff.1 h
      cases h

/-! ## Lists of literals -/

theorem Erases.append {e : Nat} {a b : List Node} (ha : Erases o e a) (hb : Erases o e b) :
    Erases o e (a ++ b) := fun result written h => by
  rw [Node.erasedIn_append, ha result written h, hb result written h]
  rfl

theorem Erases.mono {o' e e' : Nat} {a : List Node} (h : Erases o e a) (ho : o' ≤ o) (he : e ≤ e') :
    Erases o' e' a := fun result written ⟨span, hspan, hle, hle'⟩ =>
  h result written ⟨span, hspan, by omega, by omega⟩

/-- A list goes on behind a comma. -/
theorem separated_of_more {table : Rules} {c m m' e n : Cursor} {x comma : Node} {xs : List Node}
    (htrivia : Lexeme.trivia? c = some ([], c)) (hitem : table (.expression 0) c = some ([x], m))
    (hm : Lexeme.trivia? m = some ([], m)) (hcomma : mark "," m = some ([comma], m'))
    (hgap : Lexeme.trivia? m' = some ([], e)) (hrest : table (.separated .expression) e = some (xs, n)) :
    separated .lua table .expression c = some ([x, comma] ++ xs, n) := by
  have htake := Draft.take_eq (.start c) htrivia hitem
  have hupcoming : upcoming? m = some m := by
    rw [upcoming?, hm]
    rfl
  let more : Reader := fun c => do
    let draft ← (Draft.start c).take (mark ",")
    let draft ← draft.take (table (.separated .expression))
    draft.spill
  have hmore : more m = some (comma :: xs, n) := by
    have hfirst := Draft.take_eq (.start m) hm hcomma
    have hsecond := Draft.take_eq ⟨m', [comma]⟩ hgap hrest
    simp only [more, hfirst, Option.bind_eq_bind, Option.bind_some]
    simp only [Draft.start, List.nil_append, hsecond, Option.bind_some]
    rfl
  have hlast := Draft.take_eq ⟨m, [x]⟩ hm hmore
  have hstart : separated .lua table .expression c
      = ((Draft.mk m [x]).takeIf (Cursor.sees ",") more).bind Draft.spill := by
    simp only [separated, item, htake]
    rfl
  rw [hstart, Draft.takeIf, hupcoming, Option.bind_eq_bind, Option.bind_some,
    if_pos (mark_sees hcomma), hlast]
  rfl

/-- A list ends where no comma follows. -/
theorem separated_of_last (table : Rules) {c m : Cursor} {x : Node}
    (htrivia : Lexeme.trivia? c = some ([], c)) (hitem : table (.expression 0) c = some ([x], m))
    (hm : upcoming? m = some m) (hlast : m.sees "," = false) :
    separated .lua table .expression c = some ([x], m) := by
  have htake := Draft.take_eq (.start c) htrivia hitem
  simp only [separated, item, htake, Option.bind_eq_bind, Option.bind_some, Draft.takeIf, hm, goesOn,
    hlast]
  rfl

/-- A literal with a comma behind it is read as the first of a list. -/
theorem separated_cons (depth : Nat) {a : String} {e n : Cursor} {xs : List Node} (ha : Literal a)
    (htrivia : Lexeme.trivia? ⟨o + width (glyphsOf a) + 1, .ofChar ' ' :: rest⟩ = some ([], e))
    (hmore : rules .lua (depth + 3) (.separated .expression) e = some (xs, n)) :
    ∃ nodes, Erases o (o + width (glyphsOf a) + 1) nodes
      ∧ rules .lua (depth + 4) (.separated .expression)
          ⟨o, glyphsOf a ++ (.ofChar ',' :: .ofChar ' ' :: rest)⟩ = some (nodes ++ xs, n) := by
  have hstop : IsStop (.ofChar ',' :: .ofChar ' ' :: rest) := ⟨_, _, rfl, .inl rfl⟩
  obtain ⟨x, hread, hx⟩ := reads_literal depth o ha hstop
  refine ⟨[x, .mk (.token ",") none (o + width (glyphsOf a)) (o + width (glyphsOf a) + 1) []],
    (hx.mono (Nat.le_refl _) (by omega)).append ((erases_leaf _).mono (by omega) (Nat.le_refl _)),
    separated_of_more (trivia?_literal ha _) hread rfl rfl htrivia hmore⟩

/-- A literal with a parenthesis behind it is read as a list. -/
theorem separated_single {a : String} (ha : Literal a) (more : List Glyph) :
    ∃ nodes, Erases o (o + width (glyphsOf a)) nodes
      ∧ rules .lua (depth + 4) (.separated .expression) ⟨o, glyphsOf a ++ .ofChar ')' :: more⟩
        = some (nodes, ⟨o + width (glyphsOf a), .ofChar ')' :: more⟩) := by
  obtain ⟨x, hread, hx⟩ := reads_literal depth o ha ⟨_, more, rfl, .inr rfl⟩
  exact ⟨[x], hx, separated_of_last _ (trivia?_literal ha _) hread rfl rfl⟩

namespace Writing

theorem joined_cons (a b : String) (args : List String) : joined (a :: b :: args)
    = glyphsOf a ++ (.ofChar ',' :: .ofChar ' ' :: joined (b :: args)) := by
  rw [joined, List.append_assoc]
  · rfl
  · exact List.cons_ne_nil b args

end Writing

open Writing in
theorem width_joined_cons (a b : String) (args : List String) :
    o + width (joined (a :: b :: args))
      = o + width (glyphsOf a) + 2 + width (joined (b :: args)) := by
  rw [joined_cons, width_append, width_cons, width_cons]
  have hone : (Glyph.ofChar ',').width = 1 ∧ (Glyph.ofChar ' ').width = 1 := by decide
  omega

open Writing in
theorem trivia?_joined {args : List String} (hargs : ∀ a ∈ args, Literal a) (hne : args ≠ [])
    (rest : List Glyph) : Lexeme.trivia? ⟨o, joined args ++ rest⟩
      = some ([], ⟨o, joined args ++ rest⟩) := by
  obtain ⟨a, args, rfl⟩ := List.exists_cons_of_ne_nil hne
  have ha := (List.forall_mem_cons.1 hargs).1
  obtain ⟨text, hjoined⟩ : ∃ text, joined (a :: args) ++ rest = glyphsOf a ++ text := by
    cases args with
    | nil => exact ⟨_, rfl⟩
    | cons b args => exact ⟨_, by rw [joined_cons, List.append_assoc]⟩
  rw [hjoined]
  exact trivia?_literal ha _

open Writing in
/-- Literals with a parenthesis behind them are read as a list. -/
theorem separated_literals (depth : Nat) {args : List String} (hargs : ∀ a ∈ args, Literal a)
    (hne : args ≠ []) (more : List Glyph) : ∃ nodes, Erases o (o + width (joined args)) nodes
      ∧ rules .lua (depth + args.length + 3) (.separated .expression)
          ⟨o, joined args ++ .ofChar ')' :: more⟩
        = some (nodes, ⟨o + width (joined args), .ofChar ')' :: more⟩) := by
  induction args generalizing o with
  | nil => exact absurd rfl hne
  | cons a args ih =>
    obtain ⟨ha, hargs⟩ := List.forall_mem_cons.1 hargs
    cases args with
    | nil => exact separated_single ha more
    | cons b args =>
      have hb := (List.forall_mem_cons.1 hargs).1
      obtain ⟨nodes, hnodes, hread⟩ := ih (o := o + width (glyphsOf a) + 2) hargs (by simp)
      have hsplit : joined (a :: b :: args) ++ .ofChar ')' :: more = glyphsOf a
          ++ (.ofChar ',' :: .ofChar ' ' :: (joined (b :: args) ++ .ofChar ')' :: more)) := by
        rw [joined_cons, List.append_assoc]
        rfl
      have hwidth : o + width (joined (a :: b :: args))
          = o + width (glyphsOf a) + 2 + width (joined (b :: args)) := width_joined_cons a b args
      obtain ⟨front, hfront, hlist⟩ := separated_cons (depth + args.length + 1) ha
        (trivia?_blank (trivia?_joined hargs (by simp) _)) hread
      rw [hsplit, hwidth]
      exact ⟨front ++ nodes, (hfront.mono (Nat.le_refl _) (by omega)).append
        (hnodes.mono (by omega) (Nat.le_refl _)), hlist⟩

open Writing in
/-- Literals with a comma behind them are read as the first of a list. -/
theorem separated_before (depth : Nat) {args : List String} (hargs : ∀ a ∈ args, Literal a)
    (hne : args ≠ []) {e n : Cursor} {xs : List Node}
    (htrivia : Lexeme.trivia? ⟨o + width (joined args) + 1, .ofChar ' ' :: rest⟩ = some ([], e))
    (hmore : rules .lua (depth + 3) (.separated .expression) e = some (xs, n)) :
    ∃ nodes, Erases o (o + width (joined args) + 1) nodes
      ∧ rules .lua (depth + args.length + 3) (.separated .expression)
          ⟨o, joined args ++ (.ofChar ',' :: .ofChar ' ' :: rest)⟩ = some (nodes ++ xs, n) := by
  induction args generalizing o with
  | nil => exact absurd rfl hne
  | cons a args ih =>
    obtain ⟨ha, hargs⟩ := List.forall_mem_cons.1 hargs
    cases args with
    | nil => exact separated_cons depth ha htrivia hmore
    | cons b args =>
      have hwidth : o + width (joined (a :: b :: args))
          = o + width (glyphsOf a) + 2 + width (joined (b :: args)) := width_joined_cons a b args
      rw [hwidth] at htrivia
      obtain ⟨nodes, hnodes, hread⟩ := ih (o := o + width (glyphsOf a) + 2) hargs (by simp) htrivia
      have hsplit : joined (a :: b :: args) ++ (.ofChar ',' :: .ofChar ' ' :: rest) = glyphsOf a
          ++ (.ofChar ',' :: .ofChar ' ' :: (joined (b :: args)
            ++ (.ofChar ',' :: .ofChar ' ' :: rest))) := by
        rw [joined_cons, List.append_assoc]
        rfl
      obtain ⟨front, hfront, hlist⟩ := separated_cons (depth + args.length + 1) ha
        (trivia?_blank (trivia?_joined hargs (by simp) _)) hread
      rw [hsplit, hwidth]
      refine ⟨front ++ nodes, (hfront.mono (Nat.le_refl _) (by omega)).append
        (hnodes.mono (by omega) (Nat.le_refl _)), ?_⟩
      rw [List.append_assoc]
      exact hlist

/-! ## Calls -/

/-- The arguments that stand from one offset on up to a parenthesis at another. -/
def argumentsOf (nodes : List Node) (o e : Nat) : Node :=
  .mk .arguments none o (e + 1)
    (.mk (.token "(") none o (o + 1) [] :: nodes ++ [.mk (.token ")") none e (e + 1) []])

/-- A call whose arguments stand there. -/
def callOf (head : Node) (nodes : List Node) (o e : Nat) : Node :=
  .mk .functionCall none head.start (e + 1) [head, argumentsOf nodes o e]

/-- What stands right behind white space is taken from there. -/
theorem take_of_trivia? (draft : Draft) {read : Reader} {u n : Cursor} {nodes : List Node}
    (htrivia : Lexeme.trivia? draft.cursor = some ([], u)) (hread : read u = some (nodes, n)) :
    draft.take read = some ⟨n, draft.children ++ nodes⟩ := by
  rw [Draft.take_eq draft htrivia hread, List.append_nil]

/-- Arguments behind a prefix expression are read as a call of it. -/
theorem suffixes_call (head : Node) {e n : Cursor} {nodes : List Node} {more : List Glyph}
    (htrivia : Lexeme.trivia? ⟨o + 1, rest⟩ = some ([], e)) (hfirst : e.sees ")" = false)
    (hread : rules .lua depth (.separated .expression) e = some (nodes, n))
    (hn : n.rest = .ofChar ')' :: more) :
    rules .lua (depth + 1) (.suffixes head) ⟨o, .ofChar '(' :: rest⟩
      = rules .lua depth (.suffixes (callOf head nodes o n.offset)) ⟨n.offset + 1, more⟩ := by
  obtain ⟨offset, rest'⟩ := n
  cases hn
  let c : Cursor := ⟨o, .ofChar '(' :: rest⟩
  let opening : Node := .mk (.token "(") none o (o + 1) []
  have hopen : (Draft.start c).take (mark "(") = some ⟨⟨o + 1, rest⟩, [opening]⟩ := rfl
  have hlist : (Draft.mk ⟨o + 1, rest⟩ [opening]).takeIf (fun c => !c.sees ")")
      (rules .lua depth (.separated .expression))
      = some ⟨⟨offset, .ofChar ')' :: more⟩, opening :: nodes⟩ := by
    have hupcoming : upcoming? ⟨o + 1, rest⟩ = some e := by
      rw [upcoming?, htrivia]
      rfl
    rw [Draft.takeIf, hupcoming, Option.bind_eq_bind, Option.bind_some, hfirst]
    exact take_of_trivia? ⟨_, [opening]⟩ htrivia hread
  have hclose : (Draft.mk ⟨offset, .ofChar ')' :: more⟩ (opening :: nodes)).take (mark ")")
      = some ⟨⟨offset + 1, more⟩, opening :: nodes ++ [.mk (.token ")") none offset (offset + 1) []]⟩ :=
    take_of_trivia? ⟨_, opening :: nodes⟩ rfl rfl
  have harguments : arguments .lua (rules .lua depth) c
      = some ([argumentsOf nodes o offset], ⟨offset + 1, more⟩) := by
    have hsees : c.sees "(" = true := rfl
    simp only [arguments, hsees, if_true, hopen, Option.bind_eq_bind, Option.bind_some, hlist, hclose]
    rfl
  have htake : (Draft.ofNode head c).take (arguments .lua (rules .lua depth))
      = some ⟨⟨offset + 1, more⟩, [head, argumentsOf nodes o offset]⟩ :=
    take_of_trivia? (.ofNode head c) rfl harguments
  have hsuffixes : rules .lua (depth + 1) (.suffixes head) c
      = ((Draft.ofNode head c).take (arguments .lua (rules .lua depth))).bind fun draft =>
        rules .lua depth (.suffixes (draft.toNode .functionCall)) draft.cursor := rfl
  rw [hsuffixes, htake]
  rfl

section
variable (w : Writing)

/-- The name of the probe, read as a prefix expression. -/
def nameNode (o : Nat) : Node := .mk .identifier none o (o + width (glyphsOf w.name.text)) []

theorem front_name (hrest : Lexeme.EndsWord rest) :
    Joint.Front w .statement ⟨o, glyphsOf w.name.text ++ rest⟩ := .call nofun nofun hrest

theorem trivia?_name (hrest : Lexeme.EndsWord rest) :
    Lexeme.trivia? ⟨o, glyphsOf w.name.text ++ rest⟩
      = some ([], ⟨o, glyphsOf w.name.text ++ rest⟩) := by
  obtain ⟨hspace, hcomment⟩ := (front_name w hrest).lands
  exact trivia?_of_lands hspace hcomment

theorem word?_name (hrest : Lexeme.EndsWord rest) :
    Lexeme.word? .lua ⟨o, glyphsOf w.name.text ++ rest⟩
      = some (w.name.text, ⟨o + width (glyphsOf w.name.text), rest⟩) :=
  (Joint.isWord_name w).word? hrest o

theorem prefixExpression_name (table : Rules) (hrest : Lexeme.EndsWord rest) :
    prefixExpression .lua table ⟨o, glyphsOf w.name.text ++ rest⟩
      = table (.suffixes (nameNode w o)) ⟨o + width (glyphsOf w.name.text), rest⟩ := by
  have hsees := (front_name (o := o) w hrest).sees "(" rfl (by decide)
  have hname : name .lua ⟨o, glyphsOf w.name.text ++ rest⟩
      = some ([nameNode w o], ⟨o + width (glyphsOf w.name.text), rest⟩) := by
    rw [name, leaf, word?_name w hrest]
    rfl
  have htake := take_of_trivia? (.start _) (trivia?_name w hrest) hname
  simp only [prefixExpression, hsees, htake]
  rfl

theorem name_notMem_reservedWords : w.name.text ∉ reservedWords := by
  have h := (isName_iff.1 w.isName).2.2
  rwa [String.ofList_toList] at h

/-- The name of the probe starts no expression but a prefix expression. -/
theorem unaryAt?_name (hrest : Lexeme.EndsWord rest) :
    unaryAt? .lua ⟨o, glyphsOf w.name.text ++ rest⟩ = none := by
  have hfront := front_name (o := o) w hrest
  have hnot : w.name.text ≠ "not" := fun h => name_notMem_reservedWords w (by rw [h]; decide)
  have hword : Lexeme.wordAt .lua ⟨o, glyphsOf w.name.text ++ rest⟩ = w.name.text := hfront.wordAt
  have hnone : Dialect.lua.unaryMarks.find? (fun text =>
      Cursor.sees text ⟨o, glyphsOf w.name.text ++ rest⟩) = none := by
    simp [Dialect.unaryMarks, hfront.sees "-" rfl (by decide),
      hfront.sees "#" rfl (by decide), hfront.sees "~" rfl (by decide)]
  rw [unaryAt?, hword, if_neg hnot, hnone]
  rfl

theorem simpleExpression_name {table : Rules} (hrest : Lexeme.EndsWord rest) :
    simpleExpression .lua table ⟨o, glyphsOf w.name.text ++ rest⟩
      = prefixExpression .lua table ⟨o, glyphsOf w.name.text ++ rest⟩ := by
  have hfront := front_name (o := o) w hrest
  have hreserved (word : String) (h : word ∈ reservedWords) : w.name.text ≠ word :=
    fun heq => name_notMem_reservedWords w (by rwa [heq])
  have hword : Lexeme.wordAt .lua ⟨o, glyphsOf w.name.text ++ rest⟩ = w.name.text := hfront.wordAt
  have htable := hfront.sees "\x7b" rfl (by decide)
  have hvararg := hfront.sees "..." rfl (by decide)
  simp only [simpleExpression, hfront.seesString, htable, hvararg, hfront.seesNumber, hword,
    hreserved "nil" (by decide), hreserved "true" (by decide), hreserved "false" (by decide),
    hreserved "function" (by decide), if_false]
  rfl

theorem literal_of_mem_arguments {s : Site} : ∀ a ∈ w.arguments s, Literal a := by
  have hcode (code : String) (h : code ∈ ["s", "f", "b", "c"]) :
      Literal ("\"" ++ code ++ "\"") := by
    have hquote : ∀ code ∈ ["s", "f", "b", "c"], quote code = "\"" ++ code ++ "\"" := by decide
    rw [← hquote code h]
    exact .quoted code
  have hkind : Literal ("\"" ++ s.kind.code ++ "\"") := by
    refine hcode _ ?_
    cases s.kind <;> decide
  have harm : Literal (Call.armText s.arm) := by
    cases harm : s.arm with
    | none => exact .word "None" (.inr rfl)
    | some arm => exact .number arm
  intro a ha
  unfold Writing.arguments at ha
  split at ha
  · simp only [List.mem_cons, List.not_mem_nil, or_false] at ha
    rcases ha with rfl | rfl | rfl | rfl
    · exact .quoted _
    · exact hkind
    · exact .number _
    · exact harm
  · simp only [List.mem_cons, List.not_mem_nil, or_false] at ha
    rcases ha with rfl | rfl | rfl | rfl
    · exact .quoted _
    · exact hcode _ (by decide)
    · exact .number _
    · exact .word _ (.inl rfl)
  · rcases List.mem_append.1 ha with ha | ha
    · simp only [List.mem_cons, List.not_mem_nil, or_false] at ha
      rcases ha with rfl | rfl | rfl
      · exact .quoted _
      · exact hkind
      · exact .number _
    · split at ha
      · rw [List.mem_singleton.1 ha]
        exact harm
      · cases ha

theorem arguments_ne_nil (s : Site) : w.arguments s ≠ [] ∧ (w.arguments s).length ≤ 4 := by
  unfold Writing.arguments
  split
  · exact ⟨by simp, by simp⟩
  · exact ⟨by simp, by simp⟩
  · split
    · exact ⟨by simp, by simp⟩
    · exact ⟨by simp, by simp⟩

theorem endsWord_paren (rest : List Glyph) : Lexeme.EndsWord (.ofChar '(' :: rest) :=
  Joint.endsWord_cons (by decide) rest

theorem erases_node {kind : NodeKind} {e start stop : Nat} {role : Option Role} {nodes : List Node}
    (h : Erases o e nodes) (hne : nodes ≠ []) : Erases o e [.mk kind role start stop nodes] :=
  fun result written hspan => by
    rw [Node.erasedIn_cons, Node.erased_of_written hne (h result written hspan), Node.erasedIn_nil]
    rfl

theorem erases_arguments {p e : Nat} {nodes : List Node} (h : Erases o (e + 1) nodes) (hp : o ≤ p)
    (he : p ≤ e) : Erases o (e + 1) [argumentsOf nodes p e] := by
  refine erases_node ?_ (by simp)
  have hopen : Erases o (e + 1) [.mk (.token "(") none p (p + 1) []] :=
    (erases_leaf _).mono hp (by omega)
  have hclose : Erases o (e + 1) [.mk (.token ")") none e (e + 1) []] :=
    (erases_leaf _).mono (by omega) (Nat.le_refl _)
  exact (hopen.append h).append hclose

end

/-- A call of literals with a semicolon behind it is a statement. -/
theorem expressionStatement_literals (w : Writing) (depth o : Nat) {args : List String}
    (hargs : ∀ a ∈ args, Literal a) (hne : args ≠ []) (rest : List Glyph) :
    ∃ call e, e = o + width (glyphsOf w.name.text) + 1 + width (Writing.joined args) + 1
      ∧ Erases o e [call]
      ∧ expressionStatement .lua (rules .lua (depth + args.length + 4)) ⟨o, glyphsOf w.name.text
          ++ .ofChar '(' :: (Writing.joined args ++ .ofChar ')' :: .ofChar ';' :: rest)⟩
        = some ([call], ⟨e, .ofChar ';' :: rest⟩) := by
  obtain ⟨nodes, hnodes, hread⟩ := separated_literals depth
    (o := o + width (glyphsOf w.name.text) + 1) hargs hne (.ofChar ';' :: rest)
  have hprefixed := prefixExpression_name (o := o) w (rules .lua (depth + args.length + 4))
    (endsWord_paren (Writing.joined args ++ .ofChar ')' :: .ofChar ';' :: rest))
  have htrivia := trivia?_joined (o := o + width (glyphsOf w.name.text) + 1) hargs hne
    (.ofChar ')' :: .ofChar ';' :: rest)
  have hfirst := sees_of_isStart (isStart_of_separated htrivia hread) ")" rfl (by decide)
  have hsuffixes := suffixes_call (nameNode w o) htrivia hfirst hread rfl
  refine ⟨callOf (nameNode w o) nodes (o + width (glyphsOf w.name.text))
    (o + width (glyphsOf w.name.text) + 1 + width (Writing.joined args)), _, rfl, ?_, ?_⟩
  · have hname : Erases o (o + width (glyphsOf w.name.text)) [nameNode w o] := erases_leaf _
    exact erases_node ((hname.mono (Nat.le_refl _) (by omega)).append
      (erases_arguments (hnodes.mono (by omega) (by omega)) (by omega) (by omega))) (by simp)
  · rw [expressionStatement, hprefixed]
    rw [show depth + args.length + 4 = depth + args.length + 3 + 1 from rfl, hsuffixes]
    rfl

/-! ## Statements that were written -/

/-- A statement is the first of a block. -/
theorem block_of_statement {table : Rules} {closers : List String} {c m next behind : Cursor}
    {statements comments more : List Node} (hsees : seesStatement .lua closers c = true)
    (hreturn : Lexeme.wordAt .lua c ≠ "return") (hc : Lexeme.trivia? c = some ([], c))
    (hstatement : table .statement c = some (statements, m))
    (htrivia : Lexeme.trivia? m = some (comments, next))
    (hmore : table (.block closers) next = some (more, behind)) :
    block .lua table closers c = some (if more.isEmpty then (statements, m)
      else (statements ++ comments ++ more, behind)) := by
  have htake : (Draft.start c).take (table .statement) = some ⟨m, statements⟩ :=
    take_of_trivia? (.start c) hc hstatement
  simp only [block, hsees, hreturn, htake, htrivia, hmore, Option.bind_eq_bind, Option.bind_some]
  cases more with
  | nil => rfl
  | cons n more => rfl

/-- The semicolon behind a call is a statement as well. -/
def semicolonAt (o : Nat) : Node :=
  .mk .emptyStatement none o (o + 1) [.mk (.token ";") none o (o + 1) []]

theorem block_semicolon {table : Rules} {closers : List String} {next behind : Cursor}
    {comments more : List Node}
    (hstatement : table .statement ⟨o, .ofChar ';' :: rest⟩ = some ([semicolonAt o], ⟨o + 1, rest⟩))
    (htrivia : Lexeme.trivia? ⟨o + 1, rest⟩ = some (comments, next))
    (hmore : table (.block closers) next = some (more, behind)) :
    block .lua table closers ⟨o, .ofChar ';' :: rest⟩
      = some (if more.isEmpty then ([semicolonAt o], ⟨o + 1, rest⟩)
        else (semicolonAt o :: comments ++ more, behind)) := by
  have hreturn : Lexeme.wordAt .lua ⟨o, .ofChar ';' :: rest⟩ ≠ "return" := by
    rw [show Lexeme.wordAt .lua ⟨o, .ofChar ';' :: rest⟩ = "" from rfl]
    decide
  exact block_of_statement rfl hreturn rfl hstatement htrivia hmore

/-- A call of literals in a block is followed by what the block goes on with. -/
theorem block_literals (w : Writing) {args closers : List String} (hargs : ∀ a ∈ args, Literal a)
    (hne : args ≠ []) (hclosers : ∀ word ∈ closers, word ∈ reservedWords) {comments more : List Node}
    {next behind : Cursor} {e : Nat} (hdepth : args.length + 4 ≤ depth)
    (he : e = o + width (glyphsOf w.name.text) + 1 + width (Writing.joined args) + 2)
    (htrivia : Lexeme.trivia? ⟨e, rest⟩ = some (comments, next))
    (hmore : rules .lua depth (.block closers) next = some (more, behind)) :
    ∃ statements, Erases o e statements ∧ statements ≠ []
      ∧ rules .lua (depth + 2) (.block closers) ⟨o, glyphsOf w.name.text
          ++ .ofChar '(' :: (Writing.joined args ++ .ofChar ')' :: .ofChar ';' :: rest)⟩
        = some (if more.isEmpty then (statements, ⟨e, rest⟩)
          else (statements ++ comments ++ more, behind)) := by
  obtain ⟨k, rfl⟩ : ∃ k, depth = k + args.length + 4 := ⟨depth - (args.length + 4), by omega⟩
  obtain ⟨call, o', ho', hcall, hread⟩ := expressionStatement_literals w k o hargs hne rest
  generalize k + args.length + 4 = depth at *
  obtain rfl : e = o' + 1 := by omega
  have hends := endsWord_paren (Writing.joined args ++ .ofChar ')' :: .ofChar ';' :: rest)
  have htrivia' := trivia?_name (o := o) w hends
  have hword' := word?_name (o := o) w hends
  have hword : Lexeme.wordAt .lua _ = w.name.text := (front_name (o := o) w hends).wordAt
  have hempty := (front_name (o := o) w hends).sees ";" rfl (by decide)
  have hlabel := (front_name (o := o) w hends).sees "::" rfl (by decide)
  generalize (⟨o, glyphsOf w.name.text ++ .ofChar '(' :: (Writing.joined args
    ++ .ofChar ')' :: .ofChar ';' :: rest)⟩ : Cursor) = c at *
  have hreserved := name_notMem_reservedWords w
  have hsees : seesStatement .lua closers c = true := by
    have hnot : w.name.text ∉ closers := fun h => hreserved (hclosers _ h)
    simp [seesStatement, hword', hnot]
  have hreturn : Lexeme.wordAt .lua c ≠ "return" := by
    rw [hword]
    rintro heq
    exact hreserved (by rw [heq]; decide)
  have hstatement : rules .lua (depth + 1) .statement c = some ([call], ⟨o', .ofChar ';' :: rest⟩) := by
    have hnone : w.name.text ∉ Dialect.lua.statementWords := by
      intro h
      have hwords : ∀ word ∈ Dialect.lua.statementWords, word ∈ reservedWords := by decide
      exact hreserved (hwords _ h)
    rw [rules, rule, Grammar.statement, hempty, hlabel]
    simp [hword, hread, hnone]
  have hsemicolon : rules .lua (depth + 1) (.block closers) ⟨o', .ofChar ';' :: rest⟩
      = some (if more.isEmpty then ([semicolonAt o'], ⟨o' + 1, rest⟩)
        else (semicolonAt o' :: comments ++ more, behind)) := by
    obtain ⟨d, rfl⟩ : ∃ d, depth = d + 1 := ⟨depth - 1, by omega⟩
    exact block_semicolon rfl htrivia hmore
  have herases : Erases o' (o' + 1) [semicolonAt o'] := erases_node (erases_leaf _) (by simp)
  have hwhole : rules .lua (depth + 2) (.block closers) c
      = block .lua (rules .lua (depth + 1)) closers c := rfl
  have hmark : Lexeme.trivia? ⟨o', .ofChar ';' :: rest⟩ = some ([], ⟨o', .ofChar ';' :: rest⟩) := rfl
  refine ⟨[call, semicolonAt o'], (hcall.mono (Nat.le_refl _) (by omega)).append
    (herases.mono (by omega) (Nat.le_refl _)), by simp, ?_⟩
  have hblock := block_of_statement hsees hreturn htrivia' hstatement hmark hsemicolon
  rw [hwhole, hblock]
  cases more with
  | nil => rfl
  | cons n more => rfl

end LuaCoverage.Instrument
