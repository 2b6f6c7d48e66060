import LuaCoverage.Lua.Chunk
import LuaCoverage.Proofs.Lua.Moved.Lexeme
import LuaCoverage.Text.Class.Identifier

/-!
# Names of Lua

The grammar is lenient with names. It takes a word for a keyword only where one is expected, and a
name may hold any character beyond ASCII but the controls. A name of Lua holds nothing but ASCII
characters, and is no reserved word. So a source that the grammar reads is taken for well-formed if
all its identifiers are names of Lua.

Results:
* `isName_iff`: a name is an identifier of ASCII characters that is not reserved.
* `isNamePart_of_isIdentifierPart`, `isNameStart_of_isIdentifierStart`: to the grammar every
  identifier is a name.
-/

namespace LuaCoverage.Lua
open LuaCoverage.Text

/-! ## Names of Lua -/

def reservedWords : List String :=
  ["and", "break", "do", "else", "elseif", "end", "false", "for", "function", "goto", "if", "in",
    "local", "nil", "not", "or", "repeat", "return", "then", "true", "until", "while"]

/-- Whether a character may start a name of Lua. -/
def isWordStart (c : Char) : Bool := isAsciiLetter c || c == '_'

/-- Whether a character may stand in a name of Lua. -/
def isWordPart (c : Char) : Bool := isWordStart c || isAsciiDigit c

/-- Whether a text is a name of Lua. -/
def isName : List Char → Bool
  | [] => false
  | c :: rest =>
    isWordStart c && rest.all isWordPart && !reservedWords.contains (String.ofList (c :: rest))

theorem bounds_of_isWordPart {c : Char} (h : isWordPart c = true) :
    0x30 ≤ c.toNat ∧ c.toNat ≤ 0x7a := by
  simp only [isWordPart, isWordStart, isAsciiLetter, isAsciiDigit, Bool.or_eq_true,
    Bool.and_eq_true, decide_eq_true_eq, beq_iff_eq] at h
  rcases h with ((h | h) | rfl) | h
  · omega
  · omega
  · decide
  · omega

theorem isAscii_of_isWordPart {c : Char} (h : isWordPart c = true) : isAscii c = true := by
  have := bounds_of_isWordPart h
  exact decide_eq_true (by omega)

theorem isWordStart_iff {c : Char} :
    isWordStart c = true ↔ isIdentifierStart c = true ∧ isAscii c = true := by
  constructor
  · intro h
    have hascii := isAscii_of_isWordPart (c := c) (by simp [isWordPart, h])
    exact ⟨by rwa [isIdentifierStart, if_pos hascii], hascii⟩
  · rintro ⟨h, hascii⟩
    rwa [isIdentifierStart, if_pos hascii] at h

theorem isWordPart_iff {c : Char} :
    isWordPart c = true ↔ isIdentifierPart c = true ∧ isAscii c = true := by
  have hpart : isWordPart c = (isAsciiLetter c || isAsciiDigit c || c == '_') := by
    simp only [isWordPart, isWordStart, Bool.or_assoc, Bool.or_comm (isAsciiDigit c)]
  rw [hpart]
  constructor
  · intro h
    have hascii := isAscii_of_isWordPart (hpart.trans h)
    exact ⟨by rwa [isIdentifierPart, if_pos hascii], hascii⟩
  · rintro ⟨h, hascii⟩
    rwa [isIdentifierPart, if_pos hascii] at h

/-- A name of Lua is an identifier of ASCII characters that is not reserved. -/
theorem isName_iff {text : List Char} : isName text = true ↔ isIdentifier text = true
    ∧ text.all isAscii = true ∧ String.ofList text ∉ reservedWords := by
  cases text with
  | nil => simp [isName]
  | cons c rest =>
    simp only [isName, isIdentifier, Bool.and_eq_true, isWordStart_iff, List.all_eq_true,
      isWordPart_iff, Bool.not_eq_true', List.contains_eq_mem, decide_eq_false_iff_not,
      List.forall_mem_cons]
    constructor
    · rintro ⟨⟨⟨hstart, hascii⟩, hrest⟩, hreserved⟩
      exact ⟨⟨hstart, fun x hx => (hrest x hx).1⟩, ⟨hascii, fun x hx => (hrest x hx).2⟩, hreserved⟩
    · rintro ⟨⟨hstart, hparts⟩, ⟨hascii, hall⟩, hreserved⟩
      exact ⟨⟨⟨hstart, hascii⟩, fun x hx => ⟨hparts x hx, hall x hx⟩⟩, hreserved⟩

/-! ## Identifiers of a tree -/

namespace Node

mutual
def identifiers : Node → List Node
  | mk kind role start stop children =>
    if kind = .identifier then mk kind role start stop children :: identifiersIn children
    else identifiersIn children
def identifiersIn : List Node → List Node
  | [] => []
  | n :: rest => n.identifiers ++ identifiersIn rest
end

mutual
theorem identifiers_move {k : Nat} (n : Node) :
    (n.move k).identifiers = n.identifiers.map (move k) := by
  cases n with
  | mk kind role start stop children =>
    simp only [move, identifiers, identifiersIn_move children]
    split
    · rfl
    · rfl
theorem identifiersIn_move {k : Nat} (nodes : List Node) :
    identifiersIn (moveAll k nodes) = (identifiersIn nodes).map (move k) := by
  cases nodes with
  | nil => rfl
  | cons n rest =>
    rw [moveAll, identifiersIn, identifiers_move n, identifiersIn_move rest, identifiersIn,
      List.map_append]
end

/-- Whether what a node spans in a source is a name of Lua. -/
def spellsName (source : Bytes) (n : Node) : Bool :=
  match Utf8.decode ((source.take n.stop).drop n.start) with
  | .ok text => isName text
  | .error _ => false

theorem spellsName_move (front source : Bytes) (n : Node) :
    (n.move front.length).spellsName (front ++ source) = n.spellsName source := by
  have hspan : (List.take (front.length + n.stop) (front ++ source)).drop (front.length + n.start)
      = (source.take n.stop).drop n.start := by
    rw [List.take_length_add_append, List.drop_length_add_append]
  simp only [spellsName, stop_move, start_move, hspan]

end Node

/-- A source is well-formed if it is read, and all its identifiers are names of Lua. Its first
statement is of the given kind. -/
def WellFormed (kind : NodeKind) (source : Bytes) : Prop := ∃ first rest,
  Node.ofSource? .lua source = some (.mk .chunk none 0 source.length (first :: rest))
    ∧ first.kind = kind
    ∧ ∀ n ∈ Node.identifiersIn (first :: rest), n.spellsName source = true

/-! ## Identifiers as words -/

/-- A word that starts a statement of its own is no name. -/
theorem isName_eq_false {word : List Char}
    (hword : String.ofList word ∈ Dialect.lua.statementWords) :
    isName word = false := by
  have hreserved : ∀ w ∈ Dialect.lua.statementWords, w ∈ reservedWords := by decide
  rw [Bool.eq_false_iff]
  intro h
  exact (isName_iff.1 h).2.2 (hreserved _ hword)

theorem le_of_isIn {table : Ranges} {bound : Nat} {c : Char}
    (htable : table.all (bound ≤ ·.1) = true) (h : isIn table c = true) : bound ≤ c.toNat := by
  obtain ⟨range, hrange, hin⟩ := List.any_eq_true.1 h
  have hbound := List.all_eq_true.1 htable range hrange
  simp only [Bool.and_eq_true, decide_eq_true_eq] at hin hbound
  exact Nat.le_trans hbound hin.1

/-- The grammar lets a name hold every character that is no control, no white space and no mark. -/
theorem isNamePart_iff {c : Char} : Dialect.lua.isNamePart c = true ↔
    (0x20 < c.toNat ∧ c.toNat < 0x7f ∨ 0xa0 ≤ c.toNat) ∧ c ∉ Dialect.lua.marks := by
  have hblank : c = ' ' ↔ c.toNat = 0x20 := by
    rw [← Char.toNat_inj]
    rfl
  simp only [Dialect.isNamePart, isControl, isAsciiSpace, Bool.and_eq_true, Bool.not_eq_true',
    Bool.or_eq_false_iff, Bool.and_eq_false_iff, decide_eq_false_iff_not, beq_eq_false_iff_ne,
    List.contains_eq_mem, ne_eq, hblank]
  constructor
  · rintro ⟨⟨hcontrol, hspace⟩, hmark⟩
    exact ⟨by omega, hmark⟩
  · rintro ⟨hrange, hmark⟩
    exact ⟨by omega, hmark⟩

theorem isNamePart_of {c : Char} (hword : isAscii c = true → isWordPart c = true)
    (hbeyond : isAscii c = false → 0xa0 ≤ c.toNat) : Dialect.lua.isNamePart c = true := by
  have hmarks : ∀ mark ∈ Dialect.lua.marks, isAscii mark = true ∧ isWordPart mark = false := by
    have hall : Dialect.lua.marks.all (fun mark => isAscii mark && !isWordPart mark) = true := by
      decide +kernel
    simpa using hall
  rw [isNamePart_iff]
  cases hascii : isAscii c with
  | true =>
    have hpart := hword hascii
    have hbounds := bounds_of_isWordPart hpart
    refine ⟨by omega, fun hmark => ?_⟩
    rw [(hmarks c hmark).2] at hpart
    cases hpart
  | false =>
    refine ⟨.inr (hbeyond hascii), fun hmark => ?_⟩
    rw [(hmarks c hmark).1] at hascii
    cases hascii

theorem isNamePart_of_isIdentifierPart {c : Char} (h : isIdentifierPart c = true) :
    Dialect.lua.isNamePart c = true := by
  refine isNamePart_of (fun hascii => isWordPart_iff.2 ⟨h, hascii⟩) fun hascii => ?_
  rw [isIdentifierPart, if_neg (by simp [hascii])] at h
  exact le_of_isIn (by decide +kernel) h

theorem isNameStart_of_isIdentifierStart {c : Char} (h : isIdentifierStart c = true) :
    Dialect.lua.isNameStart c = true := by
  have hbeyond (hascii : isAscii c = false) : 0xa0 ≤ c.toNat := by
    rw [isIdentifierStart, if_neg (by simp [hascii])] at h
    exact le_of_isIn (by decide +kernel) h
  have hword (hascii : isAscii c = true) : isWordStart c = true := isWordStart_iff.2 ⟨h, hascii⟩
  have hdigit : isAsciiDigit c = false := by
    cases hascii : isAscii c with
    | true =>
      have hstart := hword hascii
      simp only [isWordStart, isAsciiLetter, isAsciiDigit, Bool.or_eq_true, Bool.and_eq_true,
        decide_eq_true_eq, beq_iff_eq, Bool.and_eq_false_iff, decide_eq_false_iff_not] at hstart ⊢
      rcases hstart with (hstart | hstart) | rfl
      · omega
      · omega
      · decide
    | false =>
      have hle := hbeyond hascii
      simp only [isAsciiDigit, Bool.and_eq_false_iff, decide_eq_false_iff_not]
      omega
  rw [Dialect.isNameStart, hdigit, isNamePart_of (fun hascii => ?_) hbeyond]
  · rfl
  · rw [isWordPart, hword hascii, Bool.true_or]

end LuaCoverage.Lua
