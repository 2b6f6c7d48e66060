/-!
# Wildcards

A pattern of characters in which `*` stands for any text, slashes included, `?` for any one
character, and brackets for one character of a set, or not of it after `!`. A bracket that is
never closed stands for itself.

In a set a dash between two characters makes a range. A range that runs backwards is empty: it
takes its ends out of the set. What is then left of the set may begin with `!`, which negates it.

Results:
* `matches_chars`: a pattern of plain characters matches itself alone.
* `matches_star_nil`: a star alone matches every text.
-/

namespace LuaCoverage.Glob

/-- A part of a set: a character, or the dash between the ends of a range. -/
inductive Symbol
  | char (c : Char)
  | dash
  deriving DecidableEq, Repr

/-- A range of a set, with both ends. -/
structure Range where
  low : Char
  high : Char
  deriving DecidableEq, Repr

/-- A part of a pattern. -/
inductive Part
  | star
  | one
  | char (c : Char)
  | set (negated : Bool) (ranges : List Range)
  deriving DecidableEq, Repr

/-- The chunks of a set: its text cut at every dash that may make a range. `skip` counts the
characters at the front that cannot be such a dash. -/
def chunks : (skip : Nat) → List Char → List (List Char)
  | _, [] => [[]]
  | 0, '-' :: rest => [] :: chunks 2 rest
  | 0, c :: rest =>
    match chunks 0 rest with
    | [] => [[c]]
    | first :: more => (c :: first) :: more
  | skip + 1, c :: rest =>
    match chunks skip rest with
    | [] => [[c]]
    | first :: more => (c :: first) :: more

/-- A dash at the end of a set makes no range. -/
def closeChunks : List (List Char) → List (List Char)
  | [] => []
  | [last] => [last]
  | [chunk, []] => [chunk ++ ['-']]
  | chunk :: rest => chunk :: closeChunks rest

/-- Puts a chunk in front of others; the ends of a range that runs backwards are dropped. -/
def joinChunk (chunk : List Char) : List (List Char) → List (List Char)
  | [] => [chunk]
  | next :: rest =>
    match chunk.getLast?, next.head? with
    | some low, some high =>
      if high < low then (chunk.dropLast ++ next.drop 1) :: rest else chunk :: next :: rest
    | _, _ => chunk :: next :: rest

/-- The symbols of chunks, with a dash between every two of them. -/
def symbols : List (List Char) → List Symbol
  | [] => []
  | [chunk] => chunk.map .char
  | chunk :: rest => chunk.map .char ++ .dash :: symbols rest

def ranges : List Symbol → List Range
  | [] => []
  | .char low :: .dash :: .char high :: rest => ⟨low, high⟩ :: ranges rest
  | .char c :: rest => ⟨c, c⟩ :: ranges rest
  | .dash :: rest => ⟨'-', '-'⟩ :: ranges rest

/-- The part that a set between brackets stands for. -/
def setPart (inside : List Char) : Part :=
  let skip := if inside.head? = some '!' then 2 else 1
  let cut :=
    if inside.contains '-' then (closeChunks (chunks skip inside)).foldr joinChunk [] else [inside]
  match symbols cut with
  | .char '!' :: rest => .set true (ranges rest)
  | all => .set false (ranges all)

/-- The text of a set up to the first closing bracket behind `front` characters, and what follows
that bracket. -/
def closeBehind (front : Nat) (text : List Char) : Option (List Char × List Char) :=
  let back := text.drop front
  let inside := back.takeWhile (· ≠ ']')
  if inside.length < back.length then
    some (text.take front ++ inside, back.drop (inside.length + 1))
  else none

/-- The text of a set up to its closing bracket, and what follows the bracket. A bracket right at
the front, or behind a `!` at the front, does not close. -/
def closeSet (text : List Char) : Option (List Char × List Char) :=
  let front := if text.head? = some '!' then 1 else 0
  closeBehind (if text[front]? = some ']' then front + 1 else front) text

theorem length_closeBehind {front : Nat} {text inside rest : List Char}
    (h : closeBehind front text = some (inside, rest)) : rest.length < text.length + 1 := by
  unfold closeBehind at h
  dsimp only at h
  split at h
  · simp only [Option.some.injEq, Prod.mk.injEq] at h
    rw [← h.2]
    simp only [List.length_drop]
    omega
  · simp at h

def parts : List Char → List Part
  | [] => []
  | c :: rest =>
    if c = '*' then .star :: parts rest
    else if c = '?' then .one :: parts rest
    else if c = '[' then
      match _h : closeSet rest with
      | some (inside, behind) => setPart inside :: parts behind
      | none => .char '[' :: parts rest
    else .char c :: parts rest
termination_by text => text.length
decreasing_by
  all_goals simp only [List.length_cons]
  all_goals first
    | exact Nat.lt_succ_self _
    | exact length_closeBehind (by assumption)

/-- Whether a part that stands for one character stands for this one. -/
def Part.accepts (c : Char) : Part → Bool
  | .star => false
  | .one => true
  | .char d => c == d
  | .set negated ranges => ranges.any (fun r => r.low ≤ c && c ≤ r.high) != negated

/-- Whether the parts of a pattern stand for a text. -/
def matchesParts : List Part → List Char → Bool
  | [], text => text.isEmpty
  | .star :: rest, [] => matchesParts rest []
  | .star :: rest, c :: text => matchesParts rest (c :: text) || matchesParts (.star :: rest) text
  | _ :: _, [] => false
  | part :: rest, c :: text => part.accepts c && matchesParts rest text
termination_by pattern text => (pattern.length, text.length)

theorem matches_star_nil (text : List Char) : matchesParts [.star] text = true := by
  induction text with
  | nil => simp [matchesParts]
  | cons c text ih => simp [matchesParts, ih]

theorem matches_chars (chars text : List Char) :
    matchesParts (chars.map .char) text = true ↔ text = chars := by
  induction chars generalizing text with
  | nil => cases text <;> simp [matchesParts]
  | cons c chars ih =>
    cases text with
    | nil => simp [matchesParts]
    | cons d text => simp [matchesParts, Part.accepts, ih]

/-- Whether a pattern stands for a text. -/
def isMatch (pattern text : String) : Bool := matchesParts (parts pattern.toList) text.toList

end LuaCoverage.Glob
