import LuaCoverage.Yaml.Place

/-!
# Plain scalars

A scalar without quotes ends at a colon with a gap behind it and at a comment; inside brackets it
ends at brackets, commas and question marks too. It may go on over several lines, as long as they
are indented: a single line end is a blank, further ones stay.

Results:
* `plainLength_le`: a piece lies within the text.
-/

namespace LuaCoverage.Yaml

/-- The characters that stand for themselves inside brackets. -/
def flowMarks : List Char := [',', '[', ']', '\x7b', '\x7d']

/-- How many characters a piece of a plain scalar has. -/
def plainLength (inFlow : Bool) : List Char → Nat
  | [] => 0
  | c :: rest =>
    let follower := rest.head?
    if isGap (some c) then 0
    else if c = ':' && (isGap follower || (inFlow && follower.any flowMarks.contains)) then 0
    else if inFlow && (c == '?' || flowMarks.contains c) then 0
    else plainLength inFlow rest + 1

theorem plainLength_le (inFlow : Bool) (cs : List Char) : plainLength inFlow cs ≤ cs.length := by
  induction cs with
  | nil => exact Nat.le_refl 0
  | cons c rest ih =>
    simp only [plainLength, List.length_cons]
    split
    · omega
    · split
      · omega
      · split <;> omega

/-- The line ends of empty lines, up to a line with text, or to the mark of a document. -/
structure EmptyLines where
  ends : List Char
  place : Place
  atDocument : Bool

/-- Passes over empty lines; the bound is the length of the text. -/
def emptyLines : (bound : Nat) → Place → EmptyLines
  | 0, p => ⟨[], p, false⟩
  | bound + 1, p =>
    if p.sees ' ' then emptyLines bound p.next
    else
      match p.lineEnd? with
      | none => ⟨[], p, false⟩
      | some (c, p) =>
        if p.atDocument then ⟨[c], p, true⟩
        else
          let more := emptyLines bound p
          { more with ends := c :: more.ends }

/-- What stands between two pieces of a scalar: a text, the place behind it, and whether a line
ended. -/
structure Between where
  text : List Char
  place : Place
  endedLine : Bool

/-- The text that a line end and the empty lines behind it stand for. -/
def foldedEnds (first : Char) (more : List Char) : List Char :=
  (if first ≠ '\n' then [first] else if more.isEmpty then [' '] else []) ++ more

/-- What stands behind a piece of a plain scalar. -/
def plainBetween (p : Place) : Between :=
  let q := p.dropWhile (· == ' ')
  match q.lineEnd? with
  | none => ⟨p.takeWhile (· == ' '), q, false⟩
  | some (c, q) =>
    if q.atDocument then ⟨[], q, true⟩
    else
      let more := emptyLines q.rest.length q
      ⟨if more.atDocument then [] else foldedEnds c more.ends, more.place, true⟩

/-- Reads the pieces of a plain scalar from the one here, behind what stands before it. -/
def plainPieces (inFlow : Bool) (indent : Int) : (bound : Nat) → (before : Between) → Between
  | 0, before => { before with text := [] }
  | bound + 1, before =>
    let p := before.place
    let length := if p.sees '#' then 0 else plainLength inFlow p.rest
    if length = 0 then { before with text := [] }
    else
      let text := before.text ++ p.rest.take length
      let behind := plainBetween (p.advance length)
      if behind.text.isEmpty || behind.place.sees '#'
          || (!inFlow && Int.ofNat behind.place.column < indent) then { behind with text }
      else
        let more := plainPieces inFlow indent bound behind
        { more with text := text ++ more.text }

/-- Reads a plain scalar whose further lines are indented at least so far. -/
def readPlain (inFlow : Bool) (indent : Int) (p : Place) : Between :=
  plainPieces inFlow indent (p.rest.length + 1) ⟨[], p, false⟩

end LuaCoverage.Yaml
