import LuaCoverage.Proofs.Lua.Moved.Reader
import LuaCoverage.Proofs.Lua.Name
import LuaCoverage.Proofs.Text.Utf8

/-!
# A word at the front of a source

What is read of a source that starts with an identifier: the word, and then what stands behind it.
A word that starts no statement of its own starts a call or an assignment, and what stands behind it
decides which.

Results:
* `glyphs_encode`: the glyphs of a text are its characters.
* `Fronts.word?`, `Fronts.prefixExpression`: what is read of the word.
* `Fronts.ofSource?`: the tree of a source, from that of its first statement.
* `Fronts.assignment`: the tree of an assignment, from that of its values.
* `wellFormed_iff`: a source is well-formed if the word is a name of Lua.
-/

namespace LuaCoverage.Lua
open LuaCoverage.Text

/-! ## Words -/

def Glyph.ofChar (c : Char) : Glyph := ⟨some c, (Utf8.encodeChar c).length⟩

theorem glyphsFrom_append (skipped rest : Bytes) :
    glyphsFrom skipped.length (skipped ++ rest) = glyphsFrom 0 rest := by
  induction skipped with
  | nil => rfl
  | cons b skipped ih => exact ih

/-- The glyphs of a text are its characters. -/
theorem glyphs_encode (text : List Char) : glyphs (Utf8.encode text) = text.map Glyph.ofChar := by
  induction text with
  | nil => rfl
  | cons c rest ih =>
    obtain ⟨b, tail, hencode, hpart⟩ := Utf8.part_encodeChar c
    have hcons : Utf8.encode (c :: rest) = b :: (tail ++ Utf8.encode rest) := by
      rw [Utf8.encode, List.flatMap_cons, hencode]
      rfl
    rw [hcons, glyphs, glyphsFrom, hpart]
    simp only [Nat.add_sub_cancel, glyphsFrom_append, List.map_cons, Glyph.ofChar, hencode,
      List.length_cons]
    exact congrArg _ ih

/-- The cursor in front of a text. -/
def Cursor.before (offset : Nat) (text : List Char) : Cursor := ⟨offset, text.map Glyph.ofChar⟩

/-- A source is read from its first character. -/
theorem Cursor.ofSource_encode {text : List Char} (h : text.head? ≠ some '\ufeff') :
    ofSource (Utf8.encode text) = before 0 text := by
  rw [ofSource, glyphs_encode]
  split
  · next width rest heq =>
    cases text with
    | nil => cases heq
    | cons c text =>
      cases heq
      exact absurd rfl h
  · rfl

theorem wordChars_append {word tail : List Char}
    (hword : ∀ c ∈ word, Dialect.lua.isNamePart c = true)
    (htail : ∀ c ∈ tail.head?, Dialect.lua.isNamePart c = false) :
    Lexeme.wordChars .lua ((word ++ tail).map Glyph.ofChar) = word := by
  induction word with
  | nil =>
    cases tail with
    | nil => rfl
    | cons c rest => simp [Lexeme.wordChars, Glyph.ofChar, htail c rfl]
  | cons c rest ih =>
    obtain ⟨hc, hrest⟩ := List.forall_mem_cons.1 hword
    rw [List.cons_append, List.map_cons, Lexeme.wordChars, ih hrest]
    simp [Glyph.ofChar, hc]

theorem dropFrom_append {word tail : List Char} (offset : Nat)
    (hword : ∀ c ∈ word, Dialect.lua.isNamePart c = true)
    (htail : ∀ c ∈ tail.head?, Dialect.lua.isNamePart c = false) :
    Cursor.dropFrom (Glyph.isIn Dialect.lua.isNamePart) offset ((word ++ tail).map Glyph.ofChar)
      = .before (offset + (Utf8.encode word).length) tail := by
  induction word generalizing offset with
  | nil =>
    cases tail with
    | nil => rfl
    | cons c rest =>
      have hc : Glyph.isIn Dialect.lua.isNamePart (Glyph.ofChar c) = false := htail c rfl
      rw [List.nil_append, List.map_cons, Cursor.dropFrom, hc]
      rfl
  | cons c rest ih =>
    obtain ⟨hpart, hrest⟩ := List.forall_mem_cons.1 hword
    have hc : Glyph.isIn Dialect.lua.isNamePart (Glyph.ofChar c) = true := hpart
    have hlength : (Utf8.encode (c :: rest)).length
        = (Glyph.ofChar c).width + (Utf8.encode rest).length := List.length_append
    rw [List.cons_append, List.map_cons, Cursor.dropFrom, if_pos hc, ih _ hrest, hlength,
      Nat.add_assoc]

/-- An identifier stands at the front of a text: what follows it cannot go on with a name. -/
structure Fronts (word tail : List Char) : Prop where
  isIdentifier : Text.isIdentifier word = true
  ends : ∀ c ∈ tail.head?, Dialect.lua.isNamePart c = false

namespace Fronts
variable {word tail : List Char} (h : Fronts word tail) (offset : Nat)
include h

theorem exists_head : ∃ c rest, word = c :: rest ∧ isIdentifierStart c = true
    ∧ rest.all isIdentifierPart = true := by
  have hword := h.isIdentifier
  cases word with
  | nil => cases hword
  | cons c rest =>
    rw [Text.isIdentifier, Bool.and_eq_true] at hword
    exact ⟨c, rest, rfl, hword⟩

theorem isNamePart_of_mem : ∀ c ∈ word, Dialect.lua.isNamePart c = true := by
  obtain ⟨first, rest, rfl, hstart, hrest⟩ := h.exists_head
  have hname := isNameStart_of_isIdentifierStart hstart
  rw [Dialect.isNameStart, Bool.and_eq_true] at hname
  exact List.forall_mem_cons.2 ⟨hname.1, fun c hc =>
    isNamePart_of_isIdentifierPart (List.all_eq_true.1 hrest c hc)⟩

/-- The word is read up to its end. -/
theorem word? : Lexeme.word? .lua (.before offset (word ++ tail))
    = some (String.ofList word, .before (offset + (Utf8.encode word).length) tail) := by
  have hchars := wordChars_append h.isNamePart_of_mem h.ends
  have hdrop := dropFrom_append offset h.isNamePart_of_mem h.ends
  obtain ⟨c, rest, rfl, hstart, -⟩ := h.exists_head
  have hchar : (Cursor.before offset (c :: rest ++ tail)).char? = some c := rfl
  rw [Lexeme.word?, hchar]
  simp only [isNameStart_of_isIdentifierStart hstart, if_true]
  rw [Cursor.dropWhile, Cursor.before, hchars, hdrop]

theorem wordAt :
    Lexeme.wordAt .lua (.before offset (word ++ tail)) = String.ofList word := by
  rw [Lexeme.wordAt, h.word?]
  rfl

/-- No text stands at the word that starts with what no name may hold. -/
theorem sees_eq_false (text : String) {mark : Char} {more : List Char}
    (htext : text.toList = mark :: more) (hmark : Dialect.lua.isNamePart mark = false) :
    (Cursor.before offset (word ++ tail)).sees text = false := by
  have hpart := h.isNamePart_of_mem
  obtain ⟨c, rest, rfl, -⟩ := h.exists_head
  have hne : c ≠ mark := by
    rintro rfl
    rw [hpart c (by simp)] at hmark
    cases hmark
  simp [Cursor.sees, Cursor.text?, Cursor.before, htext, Cursor.textFrom?, Glyph.ofChar, hne]

/-- No white space and no comment stands in front of the word. -/
theorem trivia? : Lexeme.trivia? (.before offset (word ++ tail))
    = some ([], .before offset (word ++ tail)) := by
  have hcomment : (Cursor.before offset (word ++ tail)).text? "--" = none := by
    have hsees := h.sees_eq_false offset "--" rfl (by decide)
    simpa [Cursor.sees] using hsees
  have hpart := h.isNamePart_of_mem
  obtain ⟨c, rest, rfl, -⟩ := h.exists_head
  have hspace : Lexeme.isSpace (Glyph.ofChar c) = false := by
    have hc := hpart c (by simp)
    simp only [Dialect.isNamePart, Bool.and_eq_true, Bool.not_eq_true'] at hc
    exact hc.1.2
  have hfront : (Cursor.before offset (c :: rest ++ tail)).dropWhile Lexeme.isSpace
      = .before offset (c :: rest ++ tail) := by
    simp [Cursor.dropWhile, Cursor.before, Cursor.dropFrom, hspace]
  have hrest : (Cursor.before offset (c :: rest ++ tail)).rest
      = Glyph.ofChar c :: (rest ++ tail).map Glyph.ofChar := rfl
  rw [Lexeme.trivia?, hrest, Lexeme.triviaWithin]
  simp only [hfront, Lexeme.comment?, hcomment, Option.map_none]

open Grammar

theorem upcoming? :
    upcoming? (.before offset (word ++ tail)) = some (.before offset (word ++ tail)) := by
  rw [Grammar.upcoming?, h.trivia?]
  rfl

/-- The identifier that the word is read as. -/
def node (word : List Char) (offset : Nat) : Node :=
  .mk .identifier none offset (offset + (Utf8.encode word).length) []

/-- A word is the prefix of what it stands in front of. -/
theorem prefixExpression (rules : Rules) :
    Grammar.prefixExpression .lua rules (.before offset (word ++ tail))
      = rules (.suffixes (node word offset))
        (.before (offset + (Utf8.encode word).length) tail) := by
  have hsees := h.sees_eq_false offset "(" rfl (by decide)
  have hname : name .lua (.before offset (word ++ tail)) = some ([node word offset],
      .before (offset + (Utf8.encode word).length) tail) := by
    rw [name, leaf, h.word?]
    rfl
  have htake := (Draft.start (.before offset (word ++ tail))).take_eq (h.trivia? offset) hname
  simp only [Grammar.prefixExpression, hsees, htake]
  rfl

/-- A word that starts no statement of its own starts a call or an assignment. -/
theorem statement (rules : Rules) (hword : String.ofList word ∉ Dialect.lua.statementWords) :
    Grammar.statement .lua rules (.before offset (word ++ tail))
      = expressionStatement .lua rules (.before offset (word ++ tail)) := by
  have hempty := h.sees_eq_false offset ";" rfl (by decide)
  have hlabel := h.sees_eq_false offset "::" rfl (by decide)
  simp [Grammar.statement, hempty, hlabel, h.wordAt, hword]

theorem seesStatement : seesStatement .lua [] (.before offset (word ++ tail)) = true := by
  simp [Grammar.seesStatement, h.word?]

/-- A statement that starts with the word is the first of a block. -/
theorem block {rules : Rules} {n : Node} {more : List Node} {c next behind : Cursor}
    (hreturn : String.ofList word ≠ "return")
    (hstatement : rules .statement (.before 0 (word ++ tail)) = some ([n], c))
    (htrivia : Lexeme.trivia? c = some ([], next))
    (hmore : rules (.block []) next = some (more, behind)) :
    Grammar.block .lua rules [] (.before 0 (word ++ tail))
      = some (n :: more, if more.isEmpty then c else behind) := by
  have htake := (Draft.start (.before 0 (word ++ tail))).take_eq (h.trivia? 0) hstatement
  simp only [Grammar.block, h.seesStatement, h.wordAt, hreturn, htake, htrivia, hmore,
    Option.bind_eq_bind, Option.bind_some]
  cases more with
  | nil => rfl
  | cons m more => rfl

/-- A source that starts with the word is the statement that starts with it, and what is read
behind that. -/
theorem ofSource? {depth : Nat} {n : Node} {more : List Node} {c next behind : Cursor}
    (hword : String.ofList word ∉ Dialect.lua.statementWords)
    (hdepth : depthFor (word ++ tail).length = depth + 2)
    (hread : expressionStatement .lua (rules .lua depth) (.before 0 (word ++ tail)) = some ([n], c))
    (htrivia : Lexeme.trivia? c = some ([], next))
    (hmore : rules .lua (depth + 1) (.block []) next = some (more, behind))
    (hend : behind.rest = []) (hlast : more = [] → behind = next) :
    Node.ofSource? .lua (Utf8.encode (word ++ tail))
      = some (.mk .chunk none 0 (Utf8.encode (word ++ tail)).length (n :: more)) := by
  have hreturn : String.ofList word ≠ "return" := by
    rintro heq
    simp [heq, Dialect.statementWords] at hword
  have hblock : rules .lua (depth + 2) (.block []) (.before 0 (word ++ tail))
      = some (n :: more, if more.isEmpty then c else behind) :=
    h.block hreturn ((h.statement 0 _ hword).trans hread) htrivia hmore
  have htake := (Draft.start (.before 0 (word ++ tail))).take_eq (h.trivia? 0) hblock
  have hrest : Lexeme.trivia? (if more.isEmpty then c else behind) = some ([], behind) := by
    cases more with
    | nil => rw [hlast rfl]; exact htrivia
    | cons m more =>
      obtain ⟨offset, rest⟩ := behind
      cases hend
      rfl
  -- A byte order mark would be passed over, but no identifier starts with one.
  have hmark : (word ++ tail).head? ≠ some '\ufeff' := by
    obtain ⟨c, rest, rfl, hstart, -⟩ := h.exists_head
    rintro heq
    cases heq
    revert hstart
    decide +kernel
  have hhash := h.sees_eq_false 0 "#" rfl (by decide)
  have hlength : (Cursor.before 0 (word ++ tail)).rest.length = (word ++ tail).length :=
    List.length_map ..
  rw [Node.ofSource?, Cursor.ofSource_encode hmark, chunk, hlength, hdepth,
    Draft.takeIf_eq (Draft.start (.before 0 (word ++ tail))) (h.upcoming? 0) hhash]
  simp only [Option.bind_eq_bind, Option.bind_some, htake, hrest]
  simp [Cursor.atEnd, hend, Draft.start]

end Fronts

/-! ## Well-formed sources -/

section
variable {word tail : List Char}

/-- A word at the front of a source spells a name if it is one. -/
theorem Fronts.spellsName_node :
    (node word 0).spellsName (Utf8.encode (word ++ tail)) = isName word := by
  have hspan : ((Utf8.encode (word ++ tail)).take (0 + (Utf8.encode word).length)).drop 0
      = Utf8.encode word := by
    rw [Nat.zero_add, List.drop_zero, Utf8.encode_append, List.take_left]
  simp only [node, Node.spellsName, Node.stop, Node.start, hspan, Utf8.decode_encode]

/-- If all other identifiers of a source are names, it is well-formed if and only if the word that
it starts with is one. -/
theorem wellFormed_iff {first : Node} {rest others : List Node}
    (htree : Node.ofSource? .lua (Utf8.encode (word ++ tail))
      = some (.mk .chunk none 0 (Utf8.encode (word ++ tail)).length (first :: rest)))
    (hidentifiers : Node.identifiersIn (first :: rest) = Fronts.node word 0 :: others)
    (hothers : ∀ n ∈ others, n.spellsName (Utf8.encode (word ++ tail)) = true) :
    WellFormed first.kind (Utf8.encode (word ++ tail)) ↔ isName word = true := by
  constructor
  · rintro ⟨first', rest', htree', -, hnames⟩
    cases htree.symm.trans htree'
    rw [← Fronts.spellsName_node]
    exact hnames _ (by simp [hidentifiers])
  · intro hname
    refine ⟨first, rest, htree, rfl, ?_⟩
    rw [hidentifiers]
    exact List.forall_mem_cons.2 ⟨Fronts.spellsName_node.trans hname, hothers⟩

theorem wellFormed_iff_of_isNone {kind : NodeKind} {source : Bytes}
    (hsource : (Node.ofSource? .lua source).isNone = true)
    (hword : String.ofList word ∈ Dialect.lua.statementWords) :
    WellFormed kind source ↔ isName word = true := by
  rw [isName_eq_false hword]
  constructor
  · rintro ⟨first, rest, htree, -⟩
    rw [htree] at hsource
    cases hsource
  · nofun

end

/-! ## Assignments to a word -/

section
variable {word value : List Char}

/-- The cursor behind a word at the front of a source. -/
def Cursor.behind (word text : List Char) : Cursor := before (Utf8.encode word).length text

/-- An equals sign between blanks, and a text behind it. -/
def equalsThen (value : List Char) : List Char := ' ' :: '=' :: ' ' :: value

/-- The target that a word at the front of a source is read as. -/
def targetNode (word : List Char) : Node :=
  .mk .variableList none 0 (Utf8.encode word).length [Fronts.node word 0]

/-- The equals sign behind a word and a blank. -/
def equalsNode (word : List Char) : Node :=
  .mk (.token "=") none ((Utf8.encode word).length + 1) ((Utf8.encode word).length + 2) []

open Grammar

/-- A word with an equals sign and values behind it is an assignment. -/
theorem Fronts.assignment {depth : Nat} {values : Node} {behind : Cursor}
    (h : Fronts word (equalsThen value))
    (htrivia : ∀ offset, Lexeme.trivia? (.before offset (' ' :: value))
      = some ([], .before (offset + 1) value))
    (hvalue : expressionList (rules .lua (depth + 1))
      ((Cursor.before 3 value).move (Utf8.encode word).length) = some ([values], behind)) :
    expressionStatement .lua (rules .lua (depth + 1)) (.before 0 (word ++ equalsThen value))
      = some ([.mk .assignmentStatement none 0 behind.offset
        [targetNode word, equalsNode word, values]], behind) := by
  -- What stands in front of the values is read without a look at them.
  have hsuffixes : rules .lua (depth + 1) (.suffixes (node word 0))
      (.behind word (equalsThen value))
      = some ([node word 0], .behind word (equalsThen value)) := rfl
  have htargets : targets (rules .lua (depth + 1))
      (.ofNode (node word 0) (.behind word (equalsThen value)))
      = some (.ofNode (targetNode word) (.behind word (equalsThen value))) := rfl
  have hupcoming : (Grammar.upcoming? (.behind word (equalsThen value))).isSome = true := rfl
  have hmark : (Draft.ofNode (targetNode word) (.behind word (equalsThen value))).take (mark "=")
      = some ⟨.before ((Utf8.encode word).length + 2) (' ' :: value),
        [targetNode word, equalsNode word]⟩ := rfl
  have htake := Draft.take_eq ⟨.before ((Utf8.encode word).length + 2) (' ' :: value),
    [targetNode word, equalsNode word]⟩ (htrivia _) hvalue
  have hprefixed : Grammar.prefixExpression .lua (rules .lua (depth + 1))
      (.before 0 (word ++ equalsThen value))
      = some ([node word 0], .behind word (equalsThen value)) := by
    rw [h.prefixExpression, Nat.zero_add]
    exact hsuffixes
  obtain ⟨next, hnext⟩ := Option.isSome_iff_exists.1 hupcoming
  have hisTarget : isTarget (node word 0) = true := rfl
  rw [expressionStatement, hprefixed]
  simp only [Option.bind_eq_bind, Option.bind_some, hisTarget, if_true, htargets]
  simp only [Draft.ofNode] at hmark ⊢
  simp only [hnext, Option.bind_some, Dialect.updateMarks, List.find?_nil, hmark, htake]
  rfl

end

end LuaCoverage.Lua
