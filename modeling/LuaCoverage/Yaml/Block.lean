import LuaCoverage.Text.Class.Basic
import LuaCoverage.Yaml.Fault
import LuaCoverage.Yaml.Place

/-!
# Block scalars

A bar or an angle bracket, behind which the lines of the scalar stand, all indented. Behind a bar
they are kept as they are; behind an angle bracket a single line end between two lines of text is
a blank. The line ends behind the last line are kept, clipped to one, or stripped.

Results:
* `Chomp.text_strip`: stripping leaves no line ends.
-/

namespace LuaCoverage.Yaml
open LuaCoverage.Text

/-- What becomes of the line ends behind a block scalar. -/
inductive Chomp
  | keep
  | clip
  | strip
  deriving DecidableEq, Repr

/-- The line ends that are left: the one behind the last line, and those of empty lines. -/
def Chomp.text (c : Chomp) (last empty : List Char) : List Char :=
  match c with
  | .keep => last ++ empty
  | .clip => last
  | .strip => []

@[simp] theorem Chomp.text_strip (last empty : List Char) : Chomp.strip.text last empty = [] := rfl

/-- What is written behind the mark of a block scalar. -/
structure BlockHead where
  chomp : Chomp
  indent : Option Nat
  place : Place

/-- Reads a sign for the line ends. -/
def readChomp (p : Place) : Option (Chomp × Place) :=
  if p.sees '+' then some (.keep, p.next)
  else if p.sees '-' then some (.strip, p.next)
  else none

/-- Reads a digit for the indentation, which is not zero. -/
def readIndent (p : Place) : Except Fault (Option (Nat × Place)) :=
  match p.char? with
  | some c =>
    if c = '0' then .error .malformed
    else if isAsciiDigit c then .ok (some (c.toNat - 0x30, p.next))
    else .ok none
  | none => .ok none

/-- Reads the signs behind the mark, in either order, and the rest of the line. -/
def readHead (p : Place) : Except Fault BlockHead := do
  let (chomp, indent, p) ←
    match readChomp p with
    | some (chomp, p) => do
      match ← readIndent p with
      | some (n, p) => .ok (chomp, some n, p)
      | none => .ok (chomp, none, p)
    | none => do
      match ← readIndent p with
      | some (n, p) =>
        match readChomp p with
        | some (chomp, p) => .ok (chomp, some n, p)
        | none => .ok (.clip, some n, p)
      | none => .ok (.clip, none, p)
  if !endsWord p.char? then .error .malformed
  let p := p.dropWhile (· == ' ')
  let p := if p.sees '#' then p.dropWhile fun c => !isLineEnd c else p
  match p.lineEnd? with
  | some (_, p) => .ok ⟨chomp, indent, p⟩
  | none => if p.rest.isEmpty then .ok ⟨chomp, indent, p⟩ else .error .malformed

/-- Passes over empty lines in front of the first line of text, and tells how far the deepest of
them is indented. -/
def leadingLines : (bound : Nat) → (deepest : Nat) → Place → List Char × Nat × Place
  | 0, deepest, p => ([], deepest, p)
  | bound + 1, deepest, p =>
    if p.sees ' ' then leadingLines bound (max deepest p.next.column) p.next
    else
      match p.lineEnd? with
      | none => ([], deepest, p)
      | some (c, p) =>
        let (ends, deepest, p) := leadingLines bound deepest p
        (c :: ends, deepest, p)

/-- Passes over blanks up to a column. -/
def skipIndent : (bound : Nat) → (indent : Nat) → Place → Place
  | 0, _, p => p
  | bound + 1, indent, p =>
    if p.column < indent && p.sees ' ' then skipIndent bound indent p.next else p

/-- Passes over the indentation and the empty lines behind a line. -/
def emptyBlockLines : (bound : Nat) → (indent : Nat) → Place → List Char × Place
  | 0, _, p => ([], p)
  | bound + 1, indent, p =>
    let p := skipIndent indent indent p
    match p.lineEnd? with
    | none => ([], p)
    | some (c, p) =>
      let (ends, p) := emptyBlockLines bound indent p
      (c :: ends, p)

/-- Lines of a block scalar: their text, the line end behind the last one, the ends of the empty
lines behind it, and the place behind them. -/
structure BlockLines where
  text : List Char
  last : List Char
  empty : List Char
  place : Place

/-- Reads the lines from the one here, behind empty lines. -/
def blockLines (folded : Bool) (indent : Nat) :
    (bound : Nat) → (empty : List Char) → Place → BlockLines
  | 0, empty, p => ⟨[], [], empty, p⟩
  | bound + 1, empty, p =>
    if p.column = indent && !p.rest.isEmpty then
      let line := p.takeWhile fun c => !isLineEnd c
      let q := p.dropWhile fun c => !isLineEnd c
      let (last, q) :=
        match q.lineEnd? with
        | some (c, q) => ([c], q)
        | none => ([], q)
      let (ends, q) := emptyBlockLines (q.rest.length + 1) indent q
      let text := empty ++ line
      if q.column = indent && !q.rest.isEmpty then
        let isFolded := folded && last == ['\n'] && !p.char?.any isIndent && !q.char?.any isIndent
        let joint := if isFolded then (if ends.isEmpty then [' '] else []) else last
        let more := blockLines folded indent bound ends q
        { more with text := text ++ joint ++ more.text }
      else ⟨text, last, ends, q⟩
    else ⟨[], [], empty, p⟩

/-- Reads a block scalar inside a collection that is indented so far. -/
def readBlock (folded : Bool) (outer : Int) (p : Place) : Except Fault (List Char × Place) := do
  let head ← readHead p.next
  let least := max (outer + 1).toNat 1
  let p := head.place
  let (indent, empty, p) :=
    match head.indent with
    | some n =>
      let indent := least + n - 1
      let (ends, p) := emptyBlockLines (p.rest.length + 1) indent p
      (indent, ends, p)
    | none =>
      let (ends, deepest, p) := leadingLines (p.rest.length + 1) 0 p
      (max least deepest, ends, p)
  let lines := blockLines folded indent (p.rest.length + 1) empty p
  .ok (lines.text ++ head.chomp.text lines.last lines.empty, lines.place)

end LuaCoverage.Yaml
