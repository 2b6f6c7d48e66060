import LuaCoverage.Yaml.Block
import LuaCoverage.Yaml.Property
import LuaCoverage.Yaml.Quoted

/-!
# The layout of a text

Turning a text into tokens. The column at which a token starts tells which block collections end
there; a dash or a key further in starts a new one. Whether something is a key shows only when a
colon follows, so the places where a key may have started are kept, at most one for each level of
brackets. A key has to end on the line on which it started, within 1024 characters.

Results:
* `Layout.unwind_of_flow`: inside brackets the indentation does not count.
-/

namespace LuaCoverage.Yaml

/-- A place where a key may have started: the level of brackets, the number of tokens in front of
it, and whether it has to be a key, because nothing else may stand there. -/
structure KeyStart where
  level : Nat
  position : Nat
  isRequired : Bool
  place : Place

/-- What is known in the middle of a text. The indentations of the open block collections are kept
from the inside out; outside of all it is -1. -/
structure Layout where
  place : Place
  tokens : Array Token
  level : Nat
  indents : List Int
  allowsKey : Bool
  keys : List KeyStart

namespace Layout

/-- The layout at the start of a text. -/
def start (text : List Char) : Layout := ⟨Place.start text, #[], 0, [], true, []⟩

def inFlow (l : Layout) : Bool := l.level != 0

/-- The indentation of the innermost block collection. -/
def indent (l : Layout) : Int := l.indents.head?.getD (-1)

def push (l : Layout) (t : Token) : Layout := { l with tokens := l.tokens.push t }

def moveTo (l : Layout) (p : Place) : Layout := { l with place := p }

/-- Takes the indentations beyond a column off a list, and tells how many there are. -/
def closed (column : Int) : List Int → Nat × List Int
  | [] => (0, [])
  | i :: rest =>
    if i > column then
      let (n, rest) := closed column rest
      (n + 1, rest)
    else (0, i :: rest)

/-- Ends the block collections that are indented beyond a column. -/
def unwind (l : Layout) (column : Int) : Layout :=
  if l.inFlow then l
  else
    let (n, indents) := closed column l.indents
    { l with indents, tokens := l.tokens ++ Array.replicate n Token.blockEnd }

theorem unwind_of_flow {l : Layout} (h : l.inFlow = true) (column : Int) :
    l.unwind column = l := by
  simp [unwind, h]

/-- Starts a block collection at a column, if it lies further in. The token for its start goes to
a position. -/
def indentTo (l : Layout) (column : Nat) (position : Nat) (t : Token) : Layout :=
  if l.indent < Int.ofNat column then
    { l with
      indents := Int.ofNat column :: l.indents
      tokens := l.tokens.insertIdxIfInBounds position t }
  else l

/-- The place where a key may have started at the level of the brackets. -/
def key? (l : Layout) : Option KeyStart := l.keys.find? fun k => k.level == l.level

/-- Forgets the key at the level of the brackets; one that is required may not be forgotten. -/
def dropKey (l : Layout) : Except Fault Layout := do
  demand (!l.key?.any KeyStart.isRequired)
  .ok { l with keys := l.keys.filter fun k => k.level != l.level }

/-- Notes that a key may start here. -/
def markKey (l : Layout) : Except Fault Layout :=
  if !l.allowsKey then .ok l
  else do
    let isRequired := !l.inFlow && l.indent == Int.ofNat l.place.column
    let l ← l.dropKey
    .ok { l with keys := ⟨l.level, l.tokens.size, isRequired, l.place⟩ :: l.keys }

/-- Forgets the keys that are too far away. -/
def dropStale (l : Layout) : Except Fault Layout := do
  let isStale := fun (k : KeyStart) =>
    k.place.line != l.place.line || l.place.index - k.place.index > 1024
  demand (!l.keys.any fun k => isStale k && k.isRequired)
  .ok { l with keys := l.keys.filter fun k => !isStale k }

/-- Passes over blanks, comments and line ends. A new line outside of brackets allows a key. -/
def skipGap : (bound : Nat) → Layout → Layout
  | 0, l => l
  | bound + 1, l =>
    let p := l.place.dropWhile (· == ' ')
    let p := if p.sees '#' then p.dropWhile fun c => !isLineEnd c else p
    match p.lineEnd? with
    | some (_, p) => skipGap bound { l with place := p, allowsKey := l.allowsKey || !l.inFlow }
    | none => l.moveTo p

/-- Takes a token that starts or separates documents. -/
def documentToken (l : Layout) (t : Token) (p : Place) : Except Fault Layout := do
  let l ← (l.unwind (-1)).dropKey
  .ok (({ l with allowsKey := false }.push t).moveTo p)

def openFlow (l : Layout) (t : Token) : Except Fault Layout := do
  let l ← l.markKey
  .ok (({ l with level := l.level + 1, allowsKey := true }.push t).moveTo l.place.next)

def closeFlow (l : Layout) (t : Token) : Except Fault Layout := do
  demand l.inFlow
  let l ← l.dropKey
  .ok (({ l with level := l.level - 1, allowsKey := false }.push t).moveTo l.place.next)

def comma (l : Layout) : Except Fault Layout := do
  let l ← l.dropKey
  .ok (({ l with allowsKey := true }.push .comma).moveTo l.place.next)

def item (l : Layout) : Except Fault Layout := do
  demand (l.inFlow || l.allowsKey)
  let l := if l.inFlow then l else l.indentTo l.place.column l.tokens.size .blockListStart
  let l ← l.dropKey
  .ok (({ l with allowsKey := true }.push .item).moveTo l.place.next)

/-- Takes the question mark of a key. -/
def explicitKey (l : Layout) : Except Fault Layout := do
  demand (l.inFlow || l.allowsKey)
  let l := if l.inFlow then l else l.indentTo l.place.column l.tokens.size .blockMappingStart
  let l ← l.dropKey
  .ok (({ l with allowsKey := !l.inFlow }.push .key).moveTo l.place.next)

/-- Puts the tokens of a key in where it started. -/
def confirmKey (l : Layout) (k : KeyStart) : Layout :=
  let l := { l with
    keys := l.keys.filter fun other => other.level != l.level
    tokens := l.tokens.insertIdxIfInBounds k.position .key
    allowsKey := false }
  if l.inFlow then l else l.indentTo k.place.column k.position .blockMappingStart

def value (l : Layout) : Except Fault Layout := do
  let l ←
    match l.key? with
    | some k => .ok (l.confirmKey k)
    | none => do
      demand (l.inFlow || l.allowsKey)
      let l := if l.inFlow then l else l.indentTo l.place.column l.tokens.size .blockMappingStart
      let l ← l.dropKey
      .ok { l with allowsKey := !l.inFlow }
  .ok ((l.push .value).moveTo l.place.next)

/-- Takes a token with which a key may start. -/
def keyToken (l : Layout) (read : Place → Except Fault (Token × Place)) : Except Fault Layout := do
  let l ← l.markKey
  let (t, p) ← read l.place
  .ok (({ l with allowsKey := false }.push t).moveTo p)

def block (l : Layout) (folded : Bool) : Except Fault Layout := do
  let l ← l.dropKey
  let (text, p) ← readBlock folded l.indent l.place
  .ok (({ l with allowsKey := true }.push (.scalar (String.ofList text) false)).moveTo p)

def plain (l : Layout) : Except Fault Layout := do
  let l ← l.markKey
  let read := readPlain l.inFlow (l.indent + 1) l.place
  let l := { l with allowsKey := read.endedLine }
  .ok ((l.push (.scalar (String.ofList read.text) true)).moveTo read.place)

/-- The characters with which no plain scalar starts. -/
def indicators : List Char :=
  ['-', '?', ':', ',', '[', ']', '\x7b', '\x7d', '#', '&', '*', '!', '|', '>', '\'', '"', '%',
    '@', '\x60']

def startsPlain (l : Layout) (c : Char) : Bool :=
  let isFree := !isGap l.place.next.char?
  (!isGap (some c) && !indicators.contains c)
    || (isFree && (c == '-' || (!l.inFlow && (c == '?' || c == ':'))))

/-- Takes the token that starts with a character. -/
def takeToken (l : Layout) (c : Char) : Except Fault Layout :=
  let p := l.place
  let atMargin := p.column == 0
  let isApart := isGap p.next.char?
  if atMargin && c == '%' then do
    let l ← (l.unwind (-1)).dropKey
    let (d, p) ← readDirective p
    .ok (({ l with allowsKey := false }.push (.directive d)).moveTo p)
  else if atMargin && p.seesMarker "---" then l.documentToken .documentStart (p.advance 3)
  else if atMargin && p.seesMarker "..." then l.documentToken .documentEnd (p.advance 3)
  else if c == '[' then l.openFlow .flowListStart
  else if c == '\x7b' then l.openFlow .flowMappingStart
  else if c == ']' then l.closeFlow .flowListEnd
  else if c == '\x7d' then l.closeFlow .flowMappingEnd
  else if c == ',' then l.comma
  else if c == '-' && isApart then l.item
  else if c == '?' && (l.inFlow || isApart) then l.explicitKey
  else if c == ':' && (l.inFlow || isApart) then l.value
  else if c == '*' then l.keyToken fun p => (readAnchor p).map fun (name, p) => (.alias name, p)
  else if c == '&' then l.keyToken fun p => (readAnchor p).map fun (name, p) => (.anchor name, p)
  else if c == '!' then l.keyToken readTag
  else if c == '|' && !l.inFlow then l.block false
  else if c == '>' && !l.inFlow then l.block true
  else if c == '\'' || c == '"' then
    l.keyToken fun p =>
      (readQuoted c p).map fun (text, p) => (.scalar (String.ofList text) false, p)
  else if l.startsPlain c then l.plain
  else .error .malformed

/-- Takes tokens up to the end of the text. -/
def takeTokens : (bound : Nat) → Layout → Except Fault Layout
  | 0, _ => .error .malformed
  | bound + 1, l => do
    let l ← (skipGap (l.place.rest.length + 1) l).dropStale
    let l := l.unwind (Int.ofNat l.place.column)
    match l.place.char? with
    | none => (l.unwind (-1)).dropKey
    | some c => takeTokens bound (← l.takeToken c)

end Layout

/-- The tokens of a text. A byte order mark in front of it is passed over. -/
def tokens (text : List Char) : Except Fault (List Token) := do
  let l := Layout.start text
  let l := if l.place.sees '\ufeff' then l.moveTo l.place.next else l
  let l ← Layout.takeTokens (text.length + 1) l
  .ok l.tokens.toList

end LuaCoverage.Yaml
