import LuaCoverage.Lua.Lexeme

/-!
# Lexemes at another place

How many bytes lie in front of a cursor does not matter to what is read from it. A lexeme that
stands further on is read to the same cursor further on, or it is not read in either place.

Results:
* `Lexeme.trivia?_move`: white space and comments.
* `Lexeme.word?_move`: words.
* `Lexeme.steady_number?`, `Lexeme.steady_string?`: numbers and strings.
-/

namespace LuaCoverage.Lua
open LuaCoverage.Text

variable {k : Nat}

/-- The same cursor with more bytes in front of it. -/
def Cursor.move (k : Nat) (c : Cursor) : Cursor := ⟨k + c.offset, c.rest⟩

namespace Node

mutual
/-- The same node with more bytes in front of it. -/
def move (k : Nat) : Node → Node
  | mk kind role start stop children => mk kind role (k + start) (k + stop) (moveAll k children)
/-- The same nodes with more bytes in front of them. -/
def moveAll (k : Nat) : List Node → List Node
  | [] => []
  | n :: rest => n.move k :: moveAll k rest
end

theorem moveAll_eq_map (nodes : List Node) : moveAll k nodes = nodes.map (move k) := by
  induction nodes with
  | nil => rfl
  | cons n rest ih => rw [moveAll, ih, List.map_cons]

@[simp] theorem kind_move (n : Node) : (n.move k).kind = n.kind := by
  cases n
  rfl

@[simp] theorem start_move (n : Node) : (n.move k).start = k + n.start := by
  cases n
  rfl

@[simp] theorem stop_move (n : Node) : (n.move k).stop = k + n.stop := by
  cases n
  rfl

@[simp] theorem children_move (n : Node) : (n.move k).children = n.children.map (move k) := by
  cases n
  exact moveAll_eq_map _

theorem move_withRole (role : Role) (n : Node) :
    (n.withRole role).move k = (n.move k).withRole role := by
  cases n
  rfl

end Node

/-! ## Cursors -/

namespace Cursor
variable {p : Glyph → Bool}

@[simp] theorem char?_move (c : Cursor) : (c.move k).char? = c.char? := rfl

@[simp] theorem rest_move (c : Cursor) : (c.move k).rest = c.rest := rfl

@[simp] theorem offset_move (c : Cursor) : (c.move k).offset = k + c.offset := rfl

theorem dropFrom_move (offset : Nat) (rest : List Glyph) :
    dropFrom p (k + offset) rest = (dropFrom p offset rest).move k := by
  induction rest generalizing offset with
  | nil => rfl
  | cons g rest ih =>
    simp only [dropFrom, Nat.add_assoc, ih]
    split
    · rfl
    · rfl

theorem textFrom?_move (text : List Char) (offset : Nat) (rest : List Glyph) :
    textFrom? text (k + offset) rest = (textFrom? text offset rest).map (move k) := by
  induction text generalizing offset rest with
  | nil => rfl
  | cons t text ih =>
    cases rest with
    | nil => rfl
    | cons g rest =>
      simp only [textFrom?, Nat.add_assoc, ih]
      split
      · rfl
      · rfl

/-- A cursor further on is passed to the same cursor further on. -/
def Still (pass : Cursor → Cursor) : Prop := ∀ k c, pass (c.move k) = (pass c).move k

/-- What is read from a cursor further on is the same cursor further on. -/
def Steady (read : Cursor → Option Cursor) : Prop :=
  ∀ k c, read (c.move k) = (read c).map (move k)

theorem dropWhile_move (c : Cursor) : (c.move k).dropWhile p = (c.dropWhile p).move k :=
  dropFrom_move ..

@[simp] theorem text?_move (text : String) (c : Cursor) :
    (c.move k).text? text = (c.text? text).map (move k) :=
  textFrom?_move ..

@[simp] theorem sees_move (text : String) (c : Cursor) : (c.move k).sees text = c.sees text := by
  simp [sees]

theorem one?_move (c : Cursor) : (c.move k).one? p = (c.one? p).map (move k) := by
  obtain ⟨offset, rest⟩ := c
  cases rest with
  | nil => rfl
  | cons g rest =>
    simp only [one?, move, Nat.add_assoc]
    split
    · rfl
    · rfl

theorem upTo_move (n : Nat) (c : Cursor) : (c.move k).upTo p n = (c.upTo p n).move k := by
  induction n generalizing c with
  | zero => rfl
  | succ n ih =>
    simp only [upTo, one?_move]
    cases c.one? p with
    | none => rfl
    | some next => exact ih next

theorem beyondFrom?_move (text : String) (offset : Nat) (rest : List Glyph) :
    beyondFrom? text (k + offset) rest = (beyondFrom? text offset rest).map (move k) := by
  induction rest generalizing offset with
  | nil => rfl
  | cons g rest ih =>
    have htext : text? text ⟨k + offset, g :: rest⟩
        = (text? text ⟨offset, g :: rest⟩).map (move k) := text?_move text ⟨offset, g :: rest⟩
    simp only [beyondFrom?, htext, Nat.add_assoc, ih]
    cases text? text ⟨offset, g :: rest⟩ with
    | none => rfl
    | some next => rfl

theorem Still.dropWhile (p : Glyph → Bool) : Still (dropWhile p) := fun _ => dropWhile_move

theorem Still.optional {f : Cursor → Option Cursor} (h : Steady f) : Still (Lexeme.optional f) :=
  fun k c => by
    simp only [Lexeme.optional, h k c]
    cases f c with
    | none => rfl
    | some next => rfl

theorem Still.comp {f g : Cursor → Cursor} (hf : Still f) (hg : Still g) :
    Still fun c => f (g c) := fun k c =>
  (congrArg f (hg k c)).trans (hf k (g c))

namespace Steady
variable {f g : Cursor → Option Cursor}

theorem text (text : String) : Steady (text? text) := fun _ => text?_move text

theorem one (p : Glyph → Bool) : Steady (one? p) := fun _ => one?_move

theorem beyond (text : String) : Steady (beyond? text) := fun _ _ => beyondFrom?_move ..

theorem bind (hf : Steady f) (hg : Steady g) : Steady fun c => (f c).bind g := fun k c => by
  simp only [hf k c]
  cases f c with
  | none => rfl
  | some next => exact hg k next

theorem map {pass : Cursor → Cursor} (hf : Steady f) (h : Still pass) :
    Steady fun c => (f c).map pass := fun k c => by
  simp only [hf k c]
  cases f c with
  | none => rfl
  | some next => exact congrArg Option.some (h k next)

theorem orElse (hf : Steady f) (hg : Steady g) : Steady fun c => f c <|> g c := fun k c => by
  simp only [hf k c, hg k c]
  cases f c with
  | none => rfl
  | some next => rfl

theorem some (p : Glyph → Bool) : Steady (some? p) := .map (.one p) (.dropWhile p)

theorem exactly (n : Nat) : Steady (exactly? p n) := by
  induction n with
  | zero => exact fun _ _ => rfl
  | succ n ih => exact (one p).bind ih

end Steady

end Cursor

open Cursor (Steady Still)

/-! ## Lexemes -/

namespace Lexeme
variable {d : Dialect} {read : Cursor → Option Cursor} {digit : Glyph → Bool}

theorem longOpen?_move (c : Cursor) :
    longOpen? (c.move k) = (longOpen? c).map (Prod.map id (Cursor.move k)) := by
  simp only [longOpen?, Cursor.text?_move]
  cases c.text? "[" with
  | none => rfl
  | some inner =>
    simp only [Option.map_some, Option.bind_eq_bind, Option.bind_some, Cursor.dropWhile_move,
      Cursor.text?_move, Cursor.offset_move, Nat.add_sub_add_left]
    cases (inner.dropWhile fun g => g.char == some '=').text? "[" with
    | none => rfl
    | some inside => rfl

theorem steady_longBracket? : Steady longBracket? := fun k c => by
  simp only [longBracket?, longOpen?_move]
  cases longOpen? c with
  | none => rfl
  | some opened => exact Steady.beyond _ k opened.2

theorem comment?_move (c : Cursor) :
    comment? (c.move k) = (comment? c).map (Option.map (Cursor.move k)) := by
  simp only [comment?, Cursor.text?_move]
  cases c.text? "--" with
  | none => rfl
  | some body =>
    simp only [Option.map_some, longOpen?_move, Option.some.injEq]
    cases longOpen? body with
    | none => exact congrArg some (Cursor.dropWhile_move body)
    | some _ => exact steady_longBracket? k body

theorem triviaWithin_move (bound : List Glyph) (c : Cursor) : triviaWithin bound (c.move k)
    = (triviaWithin bound c).map (Prod.map (List.map (Node.move k)) (Cursor.move k)) := by
  induction bound generalizing c with
  | nil => rfl
  | cons g bound ih =>
    simp only [triviaWithin, Cursor.dropWhile_move, comment?_move]
    cases comment? (c.dropWhile isSpace) with
    | none => rfl
    | some comment =>
      cases comment with
      | none => rfl
      | some behind =>
        simp only [Option.map_some, ih]
        cases triviaWithin bound behind with
        | none => rfl
        | some read => rfl

theorem trivia?_move (c : Cursor) : trivia? (c.move k)
    = (trivia? c).map (Prod.map (List.map (Node.move k)) (Cursor.move k)) :=
  triviaWithin_move ..

theorem word?_move (c : Cursor) :
    word? d (c.move k) = (word? d c).map (Prod.map id (Cursor.move k)) := by
  simp only [word?, Cursor.char?_move, Cursor.dropWhile_move, Cursor.rest_move]
  cases c.char? with
  | none => rfl
  | some ch =>
    dsimp only
    split
    · rfl
    · rfl

@[simp] theorem wordAt_move (c : Cursor) : wordAt d (c.move k) = wordAt d c := by
  rw [wordAt, word?_move, Option.map_map]
  rfl

theorem steady_word? : Steady fun c => (word? d c).map (·.2) := fun k c => by
  simp only [word?_move, Option.map_map]
  rfl

theorem steady_exponent? {lower upper : Char} (h : Steady read) :
    Steady (exponent? lower upper read) :=
  .bind (.one _) fun k sign => by
    simp only [Still.optional (f := letter? '+' '-') (.one _) k sign]
    exact h k _

namespace LuaNumber

theorem steady_mantissa? : Steady (mantissa? digit) := fun k c => by
  simp only [mantissa?, Steady.some digit k c]
  cases c.some? digit with
  | none => exact Steady.bind (.text ".") (.some digit) k c
  | some whole =>
    simp only [Option.map_some, Cursor.text?_move]
    cases whole.text? "." with
    | none => rfl
    | some point => exact congrArg some (Cursor.dropWhile_move point)

theorem steady_based? {lower upper : Char} : Steady (based? digit lower upper) :=
  .orElse (.bind (.some _) (.orElse (.text _) (.text _)))
    (.map steady_mantissa? (.comp (.optional (.one _)) (.optional (steady_exponent? (.some _)))))

theorem steady_read? : Steady read? :=
  .orElse (.bind (.orElse (.text _) (.text _)) steady_based?) steady_based?

end LuaNumber

namespace LuauNumber

theorem steady_run? : Steady (run? digit) := .map (.one _) (.dropWhile _)

theorem still_exponent {lower upper : Char} :
    Still (optional (exponent? lower upper decimal?)) :=
  .optional (steady_exponent? steady_run?)

theorem steady_decimalNumber? : Steady decimalNumber? := fun k c => by
  simp only [decimalNumber?, decimal?, steady_run? k c]
  cases run? isDigit c with
  | none => exact Steady.map (.bind (.text ".") steady_run?) still_exponent k c
  | some whole =>
    simp only [Option.map_some, Cursor.text?_move]
    cases whole.text? "." with
    | none => exact congrArg some (still_exponent k whole)
    | some point =>
      exact congrArg some (Still.comp still_exponent (.optional steady_run?) k point)

theorem steady_hexNumber? : Steady hexNumber? :=
  .map steady_run? (.comp still_exponent (.optional (.bind (.text ".") steady_run?)))

theorem steady_read? : Steady read? :=
  .orElse (.bind (.orElse (.text _) (.text _)) steady_hexNumber?)
    (.orElse (.bind (.orElse (.text _) (.text _)) steady_run?) steady_decimalNumber?)

end LuauNumber

theorem steady_number? : Steady (number? d) := by
  cases d with
  | lua => exact LuaNumber.steady_read?
  | luau => exact LuauNumber.steady_read?

theorem steady_bracedHex? : Steady bracedHex? :=
  .bind (.bind (.text _) (.some _)) (.text _)

/-- What is read by the character that comes next is steady if each way to read it is. -/
theorem steady_luaEscape? : Steady luaEscape? := fun k c => by
  simp only [luaEscape?, Cursor.char?_move]
  split
  · exact Steady.map (.one _) (.dropWhile _) k c
  · exact Steady.bind (.one _) (.exactly 2) k c
  · exact Steady.bind (.one _) steady_bracedHex? k c
  · split
    · exact congrArg some (Cursor.upTo_move 3 c)
    · split
      · exact Cursor.one?_move c
      · rfl
  · rfl

theorem steady_luauEscape? : Steady luauEscape? := fun k c => by
  simp only [luauEscape?, Cursor.char?_move]
  split
  · exact Steady.bind (.one _) (.exactly 2) k c
  · exact Steady.bind (.one _) (.orElse (.exactly 4) steady_bracedHex?) k c
  · exact Steady.map (.one _) (.optional (.exactly 8)) k c
  · rw [Cursor.one?_move]
    cases c.one? isOctal with
    | none => exact Cursor.one?_move c
    | some next => exact congrArg some (Cursor.upTo_move 2 next)

theorem steady_escape? : Steady (escape? d) := by
  cases d with
  | lua => exact steady_luaEscape?
  | luau => exact steady_luauEscape?

theorem steady_quotedRest? (quote : Char) (bound : List Glyph) :
    Steady (quotedRest? d quote bound) := by
  induction bound with
  | nil => exact fun _ _ => rfl
  | cons g bound ih =>
    intro k c
    simp only [quotedRest?, Cursor.rest_move]
    split
    · rfl
    · split
      · exact Cursor.one?_move c
      · split
        · exact Steady.bind (.bind (.one _) steady_escape?) ih k c
        · exact Steady.bind (.one _) ih k c

theorem steady_quoted? : Steady (quoted? d) := fun k c => by
  simp only [quoted?, Cursor.char?_move]
  split
  · split
    · rw [Cursor.one?_move]
      cases c.one? fun _ => true with
      | none => rfl
      | some inside => exact steady_quotedRest? _ inside.rest k inside
    · rfl
  · rfl

@[simp] theorem startsString_move (c : Cursor) : startsString (c.move k) = startsString c := by
  simp [startsString, longOpen?_move]

theorem steady_string? : Steady (string? d) := fun k c => by
  simp only [string?, longOpen?_move, Option.isSome_map]
  split
  · exact steady_longBracket? k c
  · exact steady_quoted? k c

end Lexeme

end LuaCoverage.Lua
