import LuaCoverage.Text.Class.Width

/-!
# Tables on a console

A table has a title, columns with a heading each, and rows in sections. It is drawn with heavy
lines around its headings and light ones around its rows; sections are set apart by a rule. Every
column is as wide as its widest cell, with a blank on both sides.

A cell may hold several lines; its row is as high as its highest cell.

Results:
* `cells_fit`: a text is filled up to the width of its column.
-/

namespace LuaCoverage.Console
open LuaCoverage.Text

/-- The side to which the text of a column is moved. -/
inductive Side
  | left
  | right
  deriving DecidableEq, Repr

/-- A column: its heading, and the side to which its text is moved. -/
structure Column where
  heading : String
  side : Side
  deriving DecidableEq, Repr

/-- A table. -/
structure Table where
  title : String
  columns : List Column
  sections : List (List (List String))
  deriving Repr

def linesOf : List Char → List (List Char)
  | [] => [[]]
  | c :: rest =>
    if c = '\n' then [] :: linesOf rest
    else
      match linesOf rest with
      | [] => [[c]]
      | line :: more => (c :: line) :: more

/-- Characters that move the cursor and are not printed. -/
def isCursorControl (c : Char) : Bool :=
  [0x7, 0x8, 0xb, 0xc, 0xd].contains c.toNat

def cellLines (text : String) : List (List Char) :=
  linesOf (text.toList.filter fun c => !isCursorControl c)

/-- A text filled up with blanks to a width. -/
def fit (side : Side) (width : Nat) (text : List Char) : List Char :=
  let blanks := List.replicate (width - cells text) ' '
  match side with
  | .left => text ++ blanks
  | .right => blanks ++ text

theorem cells_replicate_blank (n : Nat) : cells (List.replicate n ' ') = n := by
  have h : cellWidth ' ' = 1 := by decide +kernel
  induction n with
  | zero => rfl
  | succ n ih => rw [List.replicate_succ, cells, h, ih, Nat.add_comm]

theorem cells_fit (side : Side) {width : Nat} {text : List Char} (h : cells text ≤ width) :
    cells (fit side width text) = width := by
  cases side <;> simp only [fit, cells_append, cells_replicate_blank] <;> omega

/-- A text in the middle of a width; a blank that is left over goes to the right. -/
def center (width : Nat) (text : List Char) : List Char :=
  let blanks := width - cells text
  let left := blanks / 2
  List.replicate left ' ' ++ text ++ List.replicate (blanks - left) ' '

/-- The lines that draw a rule: its left end, its dash, its crossings, its right end. -/
structure Rule where
  left : Char
  dash : Char
  cross : Char
  right : Char

/-- Joins the parts of a line with a separator, between two ends. -/
def frame (left separator right : Char) (parts : List (List Char)) : List Char :=
  left :: [separator].intercalate parts ++ [right]

/-- A rule over columns of given widths. -/
def Rule.draw (r : Rule) (widths : List Nat) : List Char :=
  frame r.left r.cross r.right (widths.map fun w => List.replicate (w + 2) r.dash)

namespace Table

def cellWidthOf (text : String) : Nat := ((cellLines text).map cells).foldl max 0

def widths (t : Table) : List Nat :=
  let rows := t.columns.map Column.heading :: t.sections.flatten
  (List.range t.columns.length).map fun i =>
    (rows.map fun row => cellWidthOf (row[i]?.getD "")).foldl max 0

def row (bar : Char) (columns : List Column) (widths : List Nat) (texts : List String) :
    List (List Char) :=
  let parts := texts.map cellLines
  let height := (parts.map List.length).foldl max 1
  (List.range height).map fun i =>
    let filled := (columns.zip (widths.zip parts)).map fun (column, width, lines) =>
      ' ' :: fit column.side width (lines[i]?.getD []) ++ [' ']
    frame bar bar bar filled

/-- The lines of sections, with a rule between every two of them. -/
def sectionLines (columns : List Column) (widths : List Nat) :
    List (List (List String)) → List (List Char)
  | [] => []
  | [rows] => rows.flatMap (row '│' columns widths)
  | rows :: rest =>
    rows.flatMap (row '│' columns widths)
      ++ (Rule.mk '├' '─' '┼' '┤').draw widths :: sectionLines columns widths rest

def lines (t : Table) : List (List Char) :=
  let ws := t.widths
  let top := (Rule.mk '┏' '━' '┳' '┓').draw ws
  center (cells top) t.title.toList :: top
    :: row '┃' t.columns ws (t.columns.map Column.heading)
    ++ (Rule.mk '┡' '━' '╇' '┩').draw ws
    :: sectionLines t.columns ws (t.sections.filter fun rows => !rows.isEmpty)
    ++ [(Rule.mk '└' '─' '┴' '┘').draw ws]

def text (t : Table) : String := String.ofList (t.lines.flatMap fun line => line ++ ['\n'])

end Table

end LuaCoverage.Console
