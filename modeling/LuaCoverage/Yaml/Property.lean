import LuaCoverage.Text.Class.Basic
import LuaCoverage.Text.Utf8
import LuaCoverage.Yaml.Fault
import LuaCoverage.Yaml.Node
import LuaCoverage.Yaml.Place

/-!
# Anchors, tags and directives

What may stand in front of a node or of a document.

Results:
* `length_readName`: a name lies within the text.
-/

namespace LuaCoverage.Yaml
open LuaCoverage.Text

/-- The characters of names: ASCII letters and digits, dashes and low lines. -/
def isNameChar (c : Char) : Bool := isAsciiLetter c || isAsciiDigit c || c == '-' || c == '_'

/-- Reads a name that is not empty. -/
def readName (p : Place) : Except Fault (String × Place) :=
  let name := p.takeWhile isNameChar
  if name.isEmpty then .error .malformed
  else .ok (String.ofList name, p.dropWhile isNameChar)

theorem length_readName {p q : Place} {name : String} (h : readName p = .ok (name, q)) :
    q.rest.length ≤ p.rest.length := by
  simp only [readName] at h
  split at h
  · cases h
  · cases h
    exact Place.length_dropWhile_le isNameChar p

def demand (holds : Bool) : Except Fault Unit := if holds then .ok () else .error .malformed

/-- Reads the name of an anchor or of an alias behind its mark. -/
def readAnchor (p : Place) : Except Fault (String × Place) := do
  let (name, p) ← readName p.next
  let enders := ['?', ':', ',', ']', '\x7d', '%', '@', '\x60']
  demand (isGap p.char? || p.char?.any enders.contains)
  .ok (name, p)

/-- The characters of a tag that stand for themselves. -/
def isTagChar (c : Char) : Bool :=
  isAsciiLetter c || isAsciiDigit c || "-;/?:@&=+$,_.!~*'()[]".toList.contains c

/-- Reads bytes that are each written behind a percent sign. -/
def escapedBytes : (bound : Nat) → Place → Except Fault (Bytes × Place)
  | 0, p => .ok ([], p)
  | bound + 1, p =>
    if !p.sees '%' then .ok ([], p)
    else
      match (p.rest.drop 1).take 2 |>.mapM hexValue? with
      | some [high, low] => do
        let (more, q) ← escapedBytes bound (p.advance 3)
        .ok (UInt8.ofNat (high * 16 + low) :: more, q)
      | _ => .error .malformed

def tagPieces : (bound : Nat) → Place → Except Fault (List Char × Place)
  | 0, p => .ok ([], p)
  | bound + 1, p =>
    match p.char? with
    | none => .ok ([], p)
    | some c =>
      if c = '%' then do
        let (bytes, p) ← escapedBytes (p.rest.length + 1) p
        match Utf8.decode bytes with
        | .ok piece =>
          let (more, p) ← tagPieces bound p
          .ok (piece ++ more, p)
        | .error _ => .error .malformed
      else if isTagChar c then do
        let (more, p) ← tagPieces bound p.next
        .ok (c :: more, p)
      else .ok ([], p)

/-- Reads the text of a tag, which is not empty. -/
def readTagText (p : Place) : Except Fault (String × Place) := do
  let (text, q) ← tagPieces (p.rest.length + 1) p
  demand (!text.isEmpty)
  .ok (String.ofList text, q)

/-- Reads a handle: an exclamation mark, or a name between two of them. In front of a blank a
single mark is enough. -/
def readHandle (p : Place) : Except Fault (String × Place) := do
  demand (p.sees '!')
  let q := p.next
  if q.sees ' ' then .ok ("!", q)
  else
    let name := q.takeWhile isNameChar
    let q := q.dropWhile isNameChar
    demand (q.sees '!')
    .ok (String.ofList ('!' :: name ++ ['!']), q.next)

/-- Whether a tag has a second exclamation mark, and so a handle. -/
def hasHandle (p : Place) : Bool :=
  ((p.next.takeWhile fun c => !(c == ' ' || isLineEnd c))).contains '!'

def readTag (p : Place) : Except Fault (Token × Place) := do
  let (token, q) ←
    if p.next.sees '<' then do
      let (text, q) ← readTagText (p.advance 2)
      demand (q.sees '>')
      .ok (Token.tag none text, q.next)
    else if isGap p.next.char? then .ok (Token.tag none "!", p.next)
    else if hasHandle p then do
      let (handle, q) ← readHandle p
      let (text, q) ← readTagText q
      .ok (Token.tag (some handle) text, q)
    else do
      let (text, q) ← readTagText p.next
      .ok (Token.tag (some "!") text, q)
  demand (endsWord q.char?)
  .ok (token, q)

def readVersionNumber (p : Place) : Except Fault (Nat × Place) := do
  let digits := p.takeWhile isAsciiDigit
  demand (!digits.isEmpty)
  .ok (digits.foldl (fun n c => n * 10 + (c.toNat - 0x30)) 0, p.dropWhile isAsciiDigit)

/-- Reads what a directive of a name says. -/
def readDirectiveBody (name : String) (p : Place) : Except Fault (Directive × Place) := do
  let q := p.dropWhile (· == ' ')
  if name = "YAML" then
    let (major, q) ← readVersionNumber q
    demand (q.sees '.')
    let (_, q) ← readVersionNumber q.next
    demand (endsWord q.char?)
    .ok (.version major, q)
  else if name = "TAG" then
    let (handle, q) ← readHandle q
    demand (q.sees ' ')
    let (expansion, q) ← readTagText (q.dropWhile (· == ' '))
    demand (endsWord q.char?)
    .ok (.handle handle expansion, q)
  else .ok (.other, p.dropWhile fun c => !isLineEnd c)

/-- Reads a directive and the rest of its line. -/
def readDirective (p : Place) : Except Fault (Directive × Place) := do
  let (name, p) ← readName p.next
  demand (endsWord p.char?)
  let (directive, p) ← readDirectiveBody name p
  let p := p.dropWhile (· == ' ')
  let p := if p.sees '#' then p.dropWhile fun c => !isLineEnd c else p
  demand (endsLine p.char?)
  match p.lineEnd? with
  | some (_, p) => .ok (directive, p)
  | none => .ok (directive, p)

end LuaCoverage.Yaml
