import LuaCoverage.Lua.Grammar.Statements

/-!
# Sources and their trees

`Grammar.rules` ties the rules of all goals together, and `Node.ofSource?` reads a whole module.
The number of nested goals is bounded by the length of the source, so the bound that `ofSource?`
hands to the rules is never what makes it fail.

A tree spans the whole source; a source that does not fit the grammar has none.

A parser takes a source of a dialect to its syntax tree. A source that does not fit has a tree as
well, in which nodes are marked as flaws: what was passed over, and what would have to be there.
All that is used of such a tree are the lines of its flaws. The program gets its parser from
outside; `Parser.ofGrammar` is the one that reads by the grammar.

Results:
* `Parser.ofGrammar_eq_ok_iff`: it accepts what the grammar reads.
-/

namespace LuaCoverage.Lua
open LuaCoverage.Text

namespace Grammar

/-- The rule of a goal, in terms of rules for other goals. -/
def rule (d : Dialect) (rules : Rules) : Goal → Reader
  | .block closers => block d rules closers
  | .statement => statement d rules
  | .alternatives => alternatives d rules
  | .functionName head => functionName d rules head
  | .separated which => separated d rules which
  | .expression level => expression d rules level
  | .operators level left => operators d rules level left
  | .suffixes head => suffixes d rules head
  | .fields => fields d rules
  | .template => template rules
  | .clauses => clauses d rules
  | .type => type d rules
  | .typeSuffixes left => typeSuffixes d rules left
  | .typeParameters => typeParameters d rules

/-- The rules, up to a depth of goals within goals. -/
def rules (d : Dialect) : (depth : Nat) → Rules
  | 0, _, _ => none
  | depth + 1, goal, c => rule d (rules d depth) goal c

/-- A depth that no source with so many glyphs exceeds. -/
def depthFor (glyphs : Nat) : Nat := 16 * (glyphs + 2)

/-- A whole module: a first line for the shell perhaps, then statements. -/
def chunk (d : Dialect) (c : Cursor) : Option (List Node) := do
  let table := rules d (depthFor c.rest.length)
  let draft ← (Draft.start c).takeIf (Cursor.sees "#")
    (leaf .hashBangLine fun c => some (c.dropWhile (Glyph.avoids ['\n'])))
  let draft ← draft.take (table (.block []))
  let (comments, behind) ← Lexeme.trivia? draft.cursor
  if behind.atEnd then some (draft.children ++ comments) else none

end Grammar

def Node.ofSource? (d : Dialect) (source : Bytes) : Option Node :=
  (Grammar.chunk d (Cursor.ofSource source)).map (.mk .chunk none 0 source.length)

/-! ## Parsers -/

/-- A node of the tree of a source that does not fit: whether it is a flaw, the rows of its first
and its last byte, counted from zero, and its children. -/
inductive Flawed
  | mk (isFlaw : Bool) (firstRow lastRow : Nat) (children : List Flawed)
  deriving Repr

namespace Flawed

mutual
/-- The lines of the flaws in a tree, each node before its children. -/
def ranges : Flawed → List (Nat × Nat)
  | mk isFlaw firstRow lastRow children =>
    (if isFlaw then [(firstRow + 1, lastRow + 1)] else []) ++ rangesAll children
/-- The lines of the flaws in trees. -/
def rangesAll : List Flawed → List (Nat × Nat)
  | [] => []
  | n :: rest => n.ranges ++ rangesAll rest
end

end Flawed

/-- A parser: the tree of a source, or a tree with flaws. -/
abbrev Parser := Dialect → Bytes → Except Flawed Node

/-- The parser that reads by the grammar. It does not look for the place of a flaw: the flaw is
the whole source. -/
def Parser.ofGrammar : Parser := fun dialect source =>
  match Node.ofSource? dialect source with
  | some root => .ok root
  | none => .error (.mk true 0 (source.count 0x0a) [])

theorem Parser.ofGrammar_eq_ok_iff {dialect : Dialect} {source : Bytes} {root : Node} :
    ofGrammar dialect source = .ok root ↔ Node.ofSource? dialect source = some root := by
  unfold ofGrammar
  split <;> simp_all

end LuaCoverage.Lua
