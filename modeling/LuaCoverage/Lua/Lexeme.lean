import LuaCoverage.Lua.Cursor
import LuaCoverage.Lua.Dialect
import LuaCoverage.Lua.Node

/-!
# Lexemes

The smallest pieces of a source: white space and comments, words, marks, numbers and strings.
Every reader takes the cursor in front of a lexeme to the cursor behind it, and takes the longest
lexeme of its kind.

Whether a word is a keyword depends on where it stands, so `word?` only cuts words out; the
grammar decides which of them it takes for keywords.
-/

namespace LuaCoverage.Lua
open LuaCoverage.Text

namespace Lexeme

def isSpace (g : Glyph) : Bool := g.isIn isAsciiSpace

/-- Whether a glyph is an ASCII digit. -/
def isDigit (g : Glyph) : Bool := g.isIn isAsciiDigit

/-- Whether a glyph is a hexadecimal digit. -/
def isHex (g : Glyph) : Bool := g.isIn isHexDigit

/-- The opening of a long bracket: `[`, any number of `=`, `[`. Gives their number. -/
def longOpen? (c : Cursor) : Option (Nat × Cursor) := do
  let inner ← c.text? "["
  let behind := inner.dropWhile fun g => g.char == some '='
  let inside ← behind.text? "["
  some (behind.offset - inner.offset, inside)

def longCloser (level : Nat) : String := String.ofList (']' :: List.replicate level '=' ++ [']'])

/-- A long bracket with all it holds. -/
def longBracket? (c : Cursor) : Option Cursor := do
  let (level, inside) ← longOpen? c
  inside.beyond? (longCloser level)

/-- A comment: two dashes, then a long bracket or the rest of the line. -/
def comment? (c : Cursor) : Option (Option Cursor) :=
  (c.text? "--").map fun body =>
    match longOpen? body with
    | some _ => longBracket? body
    | none => some (body.dropWhile (Glyph.avoids ['\r', '\n']))

/-- White space and comments, at most as many comments as `bound` has glyphs. -/
def triviaWithin : (bound : List Glyph) → Cursor → Option (List Node × Cursor)
  | [], c => some ([], c)
  | _ :: bound, c =>
    let front := c.dropWhile isSpace
    match comment? front with
    | none => some ([], front)
    | some none => none
    | some (some behind) => do
      let (more, next) ← triviaWithin bound behind
      some (.mk .comment none front.offset behind.offset [] :: more, next)

/-- The comments in front of the next lexeme, and the cursor at that lexeme. There is none if a
comment is not closed. The glyphs that are left bound the number of comments among them. -/
def trivia? (c : Cursor) : Option (List Node × Cursor) := triviaWithin c.rest c

/-- The characters of a word at the front of the glyphs. -/
def wordChars (d : Dialect) : List Glyph → List Char
  | [] => []
  | g :: rest =>
    match g.char with
    | some ch => if d.isNamePart ch then ch :: wordChars d rest else []
    | none => []

/-- A word: a name or a keyword. -/
def word? (d : Dialect) (c : Cursor) : Option (String × Cursor) :=
  match c.char? with
  | some ch =>
    if d.isNameStart ch then
      some (String.ofList (wordChars d c.rest), c.dropWhile (Glyph.isIn d.isNamePart))
    else none
  | none => none

/-- The word at the cursor, empty if there is none. -/
def wordAt (d : Dialect) (c : Cursor) : String := ((word? d c).map (·.1)).getD ""

/-- Passes over a lexeme if it is there. -/
def optional (read : Cursor → Option Cursor) (c : Cursor) : Cursor := (read c).getD c

def letter? (a b : Char) (c : Cursor) : Option Cursor :=
  c.one? fun g => g.char == some a || g.char == some b

/-- The exponent of a number: a letter, a sign perhaps, digits. -/
def exponent? (lower upper : Char) (digits : Cursor → Option Cursor) (c : Cursor) :
    Option Cursor :=
  (letter? lower upper c).bind fun sign => digits (optional (letter? '+' '-') sign)

namespace LuaNumber

/-- Digits with a point before, inside or behind them. -/
def mantissa? (digit : Glyph → Bool) (c : Cursor) : Option Cursor :=
  match c.some? digit with
  | some whole =>
    match whole.text? "." with
    | some point => some (point.dropWhile digit)
    | none => some whole
  | none => (c.text? ".").bind (Cursor.some? digit)

def longSuffix? (c : Cursor) : Option Cursor := c.text? "ULL" <|> c.text? "LL"

/-- A number of one base: a long integer, or a mantissa with exponent and imaginary mark. -/
def based? (digit : Glyph → Bool) (lower upper : Char) (c : Cursor) : Option Cursor :=
  ((c.some? digit).bind longSuffix?) <|>
    (mantissa? digit c).map fun behind =>
      optional (letter? 'i' 'I') (optional (exponent? lower upper (Cursor.some? isDigit)) behind)

def read? (c : Cursor) : Option Cursor :=
  (((c.text? "0x") <|> (c.text? "0X")).bind (based? isHex 'p' 'P')) <|> based? isDigit 'e' 'E' c

end LuaNumber

namespace LuauNumber

def run? (digit : Glyph → Bool) (c : Cursor) : Option Cursor :=
  (c.one? digit).map (Cursor.dropWhile fun g => digit g || g.char == some '_')

def decimal? (c : Cursor) : Option Cursor := run? isDigit c

def decimalNumber? (c : Cursor) : Option Cursor :=
  let mantissa :=
    match decimal? c with
    | some whole =>
      match whole.text? "." with
      | some point => some (optional decimal? point)
      | none => some whole
    | none => (c.text? ".").bind decimal?
  mantissa.map (optional (exponent? 'e' 'E' decimal?))

def hexNumber? (c : Cursor) : Option Cursor :=
  (run? isHex c).map fun whole =>
    let behind := optional (fun p => (p.text? ".").bind (run? isHex)) whole
    optional (exponent? 'p' 'P' decimal?) behind

def read? (c : Cursor) : Option Cursor :=
  (((c.text? "0x") <|> (c.text? "0X")).bind hexNumber?) <|>
    (((c.text? "0b") <|> (c.text? "0B")).bind
      (run? fun g => g.char == some '0' || g.char == some '1')) <|>
    decimalNumber? c

end LuauNumber

def number? : Dialect → Cursor → Option Cursor
  | .lua => LuaNumber.read?
  | .luau => LuauNumber.read?

def bracedHex? (c : Cursor) : Option Cursor :=
  ((c.text? "\x7b").bind (Cursor.some? isHex)).bind (Cursor.text? "\x7d")

/-- What may follow the backslash of an escape of Lua. -/
def luaEscape? (c : Cursor) : Option Cursor :=
  match c.char? with
  | some 'z' => (c.one? fun _ => true).map (Cursor.dropWhile isSpace)
  | some 'x' => (c.one? fun _ => true).bind (Cursor.exactly? isHex 2)
  | some 'u' => (c.one? fun _ => true).bind bracedHex?
  | some ch =>
    if isAsciiDigit ch then some (c.upTo isDigit 3)
    else if "\nabfnrtv\\'\"".toList.contains ch then c.one? fun _ => true
    else none
  | none => none

/-- Whether a glyph is an octal digit. -/
def isOctal (g : Glyph) : Bool := g.isIn fun ch => 0x30 ≤ ch.toNat && ch.toNat ≤ 0x37

/-- What may follow the backslash of an escape of Luau. -/
def luauEscape? (c : Cursor) : Option Cursor :=
  match c.char? with
  | some 'x' => (c.one? fun _ => true).bind (Cursor.exactly? isHex 2)
  | some 'u' => (c.one? fun _ => true).bind fun n => n.exactly? isHex 4 <|> bracedHex? n
  | some 'U' => (c.one? fun _ => true).map (optional (Cursor.exactly? isHex 8))
  | _ =>
    match c.one? isOctal with
    | some next => some (next.upTo isOctal 2)
    | none => c.one? fun _ => true

/-- What may follow a backslash in a quoted string. -/
def escape? : Dialect → Cursor → Option Cursor
  | .lua => luaEscape?
  | .luau => luauEscape?

/-- The rest of a quoted string, of at most as many characters and escapes as `bound` has
glyphs. -/
def quotedRest? (d : Dialect) (quote : Char) : (bound : List Glyph) → Cursor → Option Cursor
  | [], _ => none
  | _ :: bound, c =>
    match c.rest with
    | [] => none
    | g :: _ =>
      if g.char = some quote then c.one? fun _ => true
      else if g.char = some '\\' then
        ((c.one? fun _ => true).bind (escape? d)).bind (quotedRest? d quote bound)
      else (c.one? fun _ => true).bind (quotedRest? d quote bound)

def quoted? (d : Dialect) (c : Cursor) : Option Cursor :=
  match c.char? with
  | some quote =>
    if quote == '"' || quote == '\'' then
      (c.one? fun _ => true).bind fun inside =>
        quotedRest? d quote inside.rest inside
    else none
  | none => none

/-- Whether a string that is no template starts at the cursor. -/
def startsString (c : Cursor) : Bool :=
  c.char? == some '"' || c.char? == some '\'' || (longOpen? c).isSome

/-- A string in quotes or long brackets. -/
def string? (d : Dialect) (c : Cursor) : Option Cursor :=
  if (longOpen? c).isSome then longBracket? c else quoted? d c

end Lexeme

end LuaCoverage.Lua
