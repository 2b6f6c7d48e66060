/-!
# Paths

A path is a root and the names behind it. Empty names and single dots are no names, so `a//b/.` is
`a/b`; two dots are a name like any other. Exactly two slashes in front are a root of their own.

Results:
* `Path.text_ofNames`: the text of names without a root.
-/

namespace LuaCoverage

/-- A path: its root, which is empty for a relative one, and its names. -/
structure Path where
  root : String
  names : List String
  deriving DecidableEq, Repr

namespace Path

/-- The pieces of a text between the slashes. -/
def pieces : List Char → List (List Char)
  | [] => [[]]
  | c :: rest =>
    if c = '/' then [] :: pieces rest
    else
      match pieces rest with
      | [] => [[c]]
      | piece :: more => (c :: piece) :: more

def rootOf : List Char → String
  | '/' :: '/' :: '/' :: _ => "/"
  | '/' :: '/' :: _ => "//"
  | '/' :: _ => "/"
  | _ => ""

def ofString (text : String) : Path :=
  let names := (pieces text.toList).filter fun name => name ≠ [] && name ≠ ['.']
  ⟨rootOf text.toList, names.map String.ofList⟩

def ofNames (names : List String) : Path := ⟨"", names⟩

/-- Whether a path starts at a root. -/
def isAbsolute (p : Path) : Bool := p.root ≠ ""

def text (p : Path) : String :=
  if p.root = "" && p.names.isEmpty then "." else p.root ++ "/".intercalate p.names

theorem text_ofNames {names : List String} (h : names ≠ []) :
    (ofNames names).text = "/".intercalate names := by
  simp [text, ofNames, h]

/-- A path behind another one; an absolute path stands for itself. -/
def join (p q : Path) : Path := if q.isAbsolute then q else ⟨p.root, p.names ++ q.names⟩

def parent (p : Path) : Path := ⟨p.root, p.names.dropLast⟩

def name (p : Path) : String := p.names.getLast?.getD ""

/-- What follows the last dot of a name, with that dot, if there is text on both of its sides. -/
def suffixOf (name : List Char) : List Char :=
  let back := name.reverse.takeWhile (· ≠ '.')
  let front := name.dropLast.length - back.length
  if back.isEmpty || front = 0 || name.length = back.length then [] else '.' :: back.reverse

/-- The suffix of the last name of a path. -/
def suffix (p : Path) : String := String.ofList (suffixOf p.name.toList)

/-- Takes dots out of a list of names, given the names in front of it from the last to the first:
two dots go back one name. -/
def resolveNames (front : List String) : List String → List String
  | [] => front.reverse
  | name :: rest =>
    if name = ".." then resolveNames (front.drop 1) rest else resolveNames (name :: front) rest

/-- The absolute path without dots, seen from a directory. -/
def resolve (directory p : Path) : Path :=
  let whole := directory.join p
  ⟨whole.root, resolveNames [] whole.names⟩

/-- Whether a path lies strictly below a directory. -/
def isBelow (p directory : Path) : Bool :=
  p.root = directory.root && p.names.length > directory.names.length
    && p.names.take directory.names.length = directory.names

end Path

end LuaCoverage
