import LuaCoverage.Lua.Lexeme

/-!
# Goals, readers and drafts

The grammar is a set of rules, one per *goal*. A rule is not recursive: where it needs another
goal it asks the table of rules that it is handed, and `Grammar.rules` ties the knot.

A rule is entered at the first lexeme of what it reads, and stops right behind the last one, so
white space and comments around a node belong to its parent. The goals that continue a node
already read (`operators`, `suffixes`, `typeSuffixes`, `functionName`) are entered right behind it.

A *draft* is a node under construction: the children so far and the cursor behind them.
-/

namespace LuaCoverage.Lua

namespace Grammar

/-- What a list separated by commas is made of. -/
inductive Item
  | expression
  | target
  | name
  | attributedName
  | binding
  | parameter
  | type
  | typeArgument
  | typeField
  | typeName
  deriving DecidableEq, Repr

/-- What can be read from a place in the source. -/
inductive Goal
  | block (closers : List String)
  | statement
  | alternatives
  | functionName (head : Node)
  | separated (item : Item)
  | expression (level : Nat)
  | operators (level : Nat) (left : Node)
  | suffixes (head : Node)
  | fields
  | template
  | clauses
  | type
  | typeSuffixes (left : Node)
  | typeParameters

/-- Reads nodes: the nodes and the cursor behind them, or nothing if the source does not fit. -/
abbrev Reader := Cursor → Option (List Node × Cursor)

abbrev Rules := Goal → Reader

def leaf (kind : NodeKind) (read : Cursor → Option Cursor) : Reader := fun c =>
  (read c).map fun next => ([.mk kind none c.offset next.offset []], next)

def mark (text : String) : Reader := leaf (.token text) (Cursor.text? text)

/-- Reads a given word as a keyword. -/
def keyword (d : Dialect) (text : String) : Reader := fun c =>
  match Lexeme.word? d c with
  | some (word, next) =>
    if word = text then some ([.mk (.token text) none c.offset next.offset []], next) else none
  | none => none

def name (d : Dialect) : Reader :=
  leaf .identifier fun c => (Lexeme.word? d c).map (·.2)

/-- Gives the nodes that a reader reads a role. -/
def inRole (role : Role) (read : Reader) : Reader := fun c =>
  (read c).map fun (nodes, next) => (nodes.map (Node.withRole role), next)

def upcoming? (c : Cursor) : Option Cursor := (Lexeme.trivia? c).map (·.2)

/-- Whether the text of a mark comes next. -/
def isNext (text : String) (c : Cursor) : Bool := (upcoming? c).any (Cursor.sees text)

/-- A node under construction. -/
structure Draft where
  cursor : Cursor
  children : List Node

namespace Draft

/-- An empty draft in front of the first lexeme of a node. -/
def start (c : Cursor) : Draft := ⟨c, []⟩

/-- A draft whose first child is a node already read. -/
def ofNode (n : Node) (c : Cursor) : Draft := ⟨c, [n]⟩

/-- Passes over white space, keeps the comments, and reads more children. -/
def take (read : Reader) (draft : Draft) : Option Draft := do
  let (comments, c) ← Lexeme.trivia? draft.cursor
  let (nodes, next) ← read c
  some ⟨next, draft.children ++ comments ++ nodes⟩

/-- Reads more children if the next lexeme calls for them. -/
def takeIf (test : Cursor → Bool) (read : Reader) (draft : Draft) : Option Draft := do
  let c ← upcoming? draft.cursor
  if test c then draft.take read else some draft

def first (draft : Draft) : Nat := (draft.children.head?.map Node.start).getD draft.cursor.offset

def toNode (kind : NodeKind) (draft : Draft) : Node :=
  .mk kind none draft.first draft.cursor.offset draft.children

/-- The finished node as what a reader has read. -/
def finish (kind : NodeKind) (draft : Draft) : Option (List Node × Cursor) :=
  some ([draft.toNode kind], draft.cursor)

/-- The children as what a reader has read. -/
def spill (draft : Draft) : Option (List Node × Cursor) := some (draft.children, draft.cursor)

/-- Reads a body: a block if there is a statement, nothing otherwise. -/
def body (rules : Rules) (closers : List String) (draft : Draft) : Option Draft := do
  let (comments, c) ← Lexeme.trivia? draft.cursor
  let (statements, next) ← rules (.block closers) c
  if statements.isEmpty then some draft
  else
    let block := (Draft.mk next statements).toNode .block
    some ⟨next, draft.children ++ comments ++ [block.withRole .body]⟩

end Draft

end Grammar

end LuaCoverage.Lua
