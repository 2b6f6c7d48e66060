import LuaCoverage.Decimal.Integer
import LuaCoverage.Yaml.Kind
import LuaCoverage.Yaml.Place

/-!
# How strings are written

A string is written plain if it then reads back as a string; between single quotes if it holds
nothing but printable ASCII and newlines; otherwise between double quotes, with escapes. Behind the
80th column a single blank becomes a line end.

Results:
* `Style.ofText_empty`: an empty string needs quotes.
-/

namespace LuaCoverage.Yaml
open LuaCoverage.Text

/-- How a string is written. -/
inductive Style
  | plain
  | single
  | double
  deriving DecidableEq, Repr

namespace Style

/-- A character with its neighbours. -/
structure Seen where
  before : Option Char
  char : Char
  after : Option Char

/-- The characters of a text with their neighbours. -/
def neighbours : (before : Option Char) → List Char → List Seen
  | _, [] => []
  | before, c :: rest => ⟨before, c, rest.head?⟩ :: neighbours (some c) rest

/-- Whether a character has a meaning of its own where it stands. -/
def isMark (s : Seen) : Bool :=
  if s.before.isNone then
    [',', '[', ']', '\x7b', '\x7d', '#', '&', '*', '!', '|', '>', '\'', '"', '%', '@',
      '\x60'].contains s.char
      || (['?', ':', '-'].contains s.char && isGap s.after)
  else (s.char == ':' && isGap s.after) || (s.char == '#' && isGap s.before)

/-- Whether a character has to be escaped. -/
def isSpecial (c : Char) : Bool := !(c == '\n' || (' '.toNat ≤ c.toNat && c.toNat ≤ '~'.toNat))

/-- Whether blanks and line ends meet, in this order or in the other. -/
def meets (first second : Char → Bool) (s : Seen) : Bool :=
  first s.char && s.after.any second

def isSpace (c : Char) : Bool := c == ' '

/-- Whether a string may stand between single quotes. -/
def allowsSingle (seen : List Seen) : Bool :=
  !seen.any fun s => isSpecial s.char || meets isSpace isLineEnd s || meets isLineEnd isSpace s

/-- Whether a string reads back without quotes. -/
def allowsPlain (text : List Char) (seen : List Seen) : Bool :=
  let isEdge := fun (c : Option Char) => c.any fun c => c == ' ' || isLineEnd c
  allowsSingle seen && !isEdge text.head? && !isEdge text.getLast? && !text.any isLineEnd
    && !"---".toList.isPrefixOf text && !"...".toList.isPrefixOf text && !seen.any isMark
    && Kind.ofText (String.ofList text) == .string

def ofText (text : List Char) : Style :=
  let seen := neighbours none text
  if allowsPlain text seen then .plain else if allowsSingle seen then .single else .double

theorem ofText_empty : ofText [] = .single := by decide +kernel

/-- The letter of the escape of a character. -/
def escapeLetter? : Char → Option Char
  | '\x00' => some '0'
  | '\x07' => some 'a'
  | '\x08' => some 'b'
  | '\t' => some 't'
  | '\n' => some 'n'
  | '\x0b' => some 'v'
  | '\x0c' => some 'f'
  | '\r' => some 'r'
  | '\x1b' => some 'e'
  | '"' => some '"'
  | '\\' => some '\\'
  | '\x85' => some 'N'
  | '\xa0' => some '_'
  | '\u2028' => some 'L'
  | '\u2029' => some 'P'
  | _ => none

def escape (c : Char) : List Char :=
  let hex := fun (width : Nat) => (hexDigits width c.toNat).map Char.toUpper
  match escapeLetter? c with
  | some letter => ['\\', letter]
  | none =>
    if c.toNat ≤ 0xff then '\\' :: 'x' :: hex 2
    else if c.toNat ≤ 0xffff then '\\' :: 'u' :: hex 4
    else '\\' :: 'U' :: hex 8

end Style

/-- Where text is written: how far a line may go, how far further lines are indented, and whether
lines may be broken. -/
structure Margin where
  width : Nat
  indent : Nat
  breaks : Bool

namespace Margin

def newLine (m : Margin) : List Char := '\n' :: List.replicate m.indent ' '

/-- Writes a text without quotes from a column on. A single blank may become a line end. -/
def plain (m : Margin) : (column : Nat) → (before : Option Char) → List Char → List Char
  | _, _, [] => []
  | column, before, c :: rest =>
    let isSingle := c == ' ' && before != some ' ' && rest.head? != some ' '
    if isSingle && column > m.width && m.breaks then
      m.newLine ++ m.plain m.indent (some c) rest
    else c :: m.plain (column + 1) (some c) rest

/-- Writes a text between single quotes from a column on. A line end is written as one more than
there are. -/
def single (m : Margin) : (column : Nat) → (before : Option Char) → List Char → List Char
  | _, _, [] => []
  | column, before, c :: rest =>
    let isInner := before.isSome && !rest.isEmpty
    let isSingle := c == ' ' && before != some ' ' && rest.head? != some ' '
    if isSingle && isInner && column > m.width && m.breaks then
      m.newLine ++ m.single m.indent (some c) rest
    else if c = '\n' then
      let first := if before = some '\n' then [] else ['\n']
      if rest.head? = some '\n' then first ++ '\n' :: m.single 0 (some c) rest
      else first ++ m.newLine ++ m.single m.indent (some c) rest
    else if c = '\'' then '\'' :: '\'' :: m.single (column + 2) (some c) rest
    else c :: m.single (column + 1) (some c) rest

/-- Writes a text between double quotes from a column on; `pending` are the characters, from the
last to the first, in front of which a line may still be broken. -/
def double (m : Margin) (length : Nat) : (index column : Nat) → (pending : List Char) →
    List Char → List Char
  | _, _, pending, [] => pending.reverse
  | index, column, pending, c :: rest =>
    let isEscaped := Style.isSpecial c || c == '\n' || c == '"' || c == '\\'
    let written := if isEscaped then pending.reverse ++ Style.escape c else []
    let column := column + written.length
    let pending := if isEscaped then [] else pending
    let isInner := 0 < index && index + 1 < length
    let reached := if isEscaped then column - 1 else column + pending.length
    if isInner && (c == ' ' || pending.isEmpty) && reached > m.width && m.breaks then
      let next := if isEscaped then rest.head? else some c
      let mark := if next = some ' ' then ['\\'] else []
      written ++ pending.reverse ++ '\\' :: m.newLine ++ mark
        ++ m.double length (index + 1) (m.indent + mark.length) (if isEscaped then [] else [c]) rest
    else
      written ++ m.double length (index + 1) column (if isEscaped then [] else c :: pending) rest

/-- Writes a string from a column on. -/
def string (m : Margin) (column : Nat) (text : List Char) : List Char :=
  match Style.ofText text with
  | .plain => m.plain column none text
  | .single => '\'' :: m.single (column + 1) none text ++ ['\'']
  | .double => '"' :: m.double text.length 0 (column + 1) [] text ++ ['"']

end Margin

end LuaCoverage.Yaml
