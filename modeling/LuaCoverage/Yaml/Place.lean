/-!
# Places in a YAML text

A place knows how many characters lie before it, its line and its column. A line ends at a
newline, a carriage return, or one of the three line ends beyond ASCII.

Results:
* `Place.length_next`: a step uses up one character.
* `Place.length_dropWhile_le`: passing characters over never adds any.
-/

namespace LuaCoverage.Yaml

def lineEnds : List Char := ['\r', '\n', '\x85', '\u2028', '\u2029']

def isLineEnd (c : Char) : Bool := lineEnds.contains c

/-- Whether a character is a blank or a tab. -/
def isIndent (c : Char) : Bool := c == ' ' || c == '\t'

/-- Whether a line ends here; it does at the end of the text. -/
def endsLine (c : Option Char) : Bool := c.all isLineEnd

/-- Whether a word ends here: at a blank or at the end of the line. -/
def endsWord (c : Option Char) : Bool := c.all fun c => c == ' ' || isLineEnd c

/-- Whether there is white space here, or nothing. -/
def isGap (c : Option Char) : Bool := c.all fun c => isIndent c || isLineEnd c

/-- A place in a text. -/
structure Place where
  index : Nat
  line : Nat
  column : Nat
  rest : List Char
  deriving Repr

namespace Place

def start (text : List Char) : Place := ⟨0, 0, 0, text⟩

def char? (p : Place) : Option Char := p.rest.head?

def sees (p : Place) (c : Char) : Bool := p.char? == some c

/-- The place behind the character here. A byte order mark has no width. -/
def next (p : Place) : Place :=
  match p.rest with
  | [] => p
  | c :: rest =>
    let startsLine := isLineEnd c && !(c == '\r' && rest.head? == some '\n')
    if startsLine then ⟨p.index + 1, p.line + 1, 0, rest⟩
    else if c = '\ufeff' then ⟨p.index + 1, p.line, p.column, rest⟩
    else ⟨p.index + 1, p.line, p.column + 1, rest⟩

theorem length_next (p : Place) : p.next.rest.length = p.rest.length - 1 := by
  unfold next
  split
  · next h => simp [h]
  · next h =>
    simp only [h, List.length_cons, Nat.add_sub_cancel]
    split
    · rfl
    · split <;> rfl

/-- The place a number of characters further on. -/
def advance : Nat → Place → Place
  | 0, p => p
  | n + 1, p => advance n p.next

/-- Passes over the characters of a list that satisfy `q`, up to the first that does not. -/
def dropFrom (q : Char → Bool) : List Char → Place → Place
  | [], p => p
  | c :: rest, p => if q c then dropFrom q rest p.next else p

/-- Passes over the characters here that satisfy `q`. -/
def dropWhile (q : Char → Bool) (p : Place) : Place := dropFrom q p.rest p

def takeWhile (q : Char → Bool) (p : Place) : List Char := p.rest.takeWhile q

theorem length_dropFrom_le (q : Char → Bool) (cs : List Char) (p : Place) :
    (dropFrom q cs p).rest.length ≤ p.rest.length := by
  induction cs generalizing p with
  | nil => exact Nat.le_refl _
  | cons c rest ih =>
    simp only [dropFrom]
    split
    · have h := ih p.next
      rw [length_next] at h
      omega
    · exact Nat.le_refl _

theorem length_dropWhile_le (q : Char → Bool) (p : Place) :
    (p.dropWhile q).rest.length ≤ p.rest.length := length_dropFrom_le ..

/-- Passes over a line end, and gives it as a newline unless it is one of the separators beyond
ASCII. -/
def lineEnd? (p : Place) : Option (Char × Place) :=
  match p.rest with
  | '\r' :: '\n' :: _ => some ('\n', p.next.next)
  | c :: _ =>
    if c = '\u2028' || c = '\u2029' then some (c, p.next)
    else if isLineEnd c then some ('\n', p.next)
    else none
  | [] => none

/-- Whether a text stands here with a gap behind it. -/
def seesMarker (p : Place) (marker : String) : Bool :=
  let cs := marker.toList
  cs.isPrefixOf p.rest && isGap (p.rest.drop cs.length).head?

/-- Whether the mark of the start or the end of a document stands here. -/
def atDocument (p : Place) : Bool := p.seesMarker "---" || p.seesMarker "..."

end Place

end LuaCoverage.Yaml
