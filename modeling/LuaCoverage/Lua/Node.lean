/-!
# Nodes of a syntax tree

A module's source becomes a tree of nodes. A node has a kind, the role it plays in its parent if
it has one, the bytes it spans, and its children in source order. Keywords, operators and marks
are nodes too, of kind `token`; all other nodes are *named*. Comments are named nodes that stand
wherever they were written.

Results:
* `Node.size_pos`: every node counts itself.
* `Node.size_lt_of_mem`: a child is smaller than its parent.
-/

namespace LuaCoverage.Lua

/-- What a node is. -/
inductive NodeKind
  | token (text : String)
  | chunk
  | block
  | comment
  | hashBangLine
  | emptyStatement
  | assignmentStatement
  | updateStatement
  | labelStatement
  | breakStatement
  | continueStatement
  | gotoStatement
  | doStatement
  | whileStatement
  | repeatStatement
  | ifStatement
  | elseifStatement
  | elseStatement
  | forStatement
  | forGenericClause
  | forNumericClause
  | functionDeclaration
  | variableDeclaration
  | typeDefinition
  | returnStatement
  | variableList
  | expressionList
  | variableAttribute
  | nilValue
  | trueValue
  | falseValue
  | number
  | string
  | interpolation
  | vararg
  | functionDefinition
  | parameters
  | parameter
  | genericTypeList
  | identifier
  | bracketIndex
  | dotIndex
  | methodIndex
  | functionCall
  | arguments
  | parenthesized
  | tableConstructor
  | field
  | binaryExpression
  | unaryExpression
  | castExpression
  | ifExpression
  | elseifClause
  | elseClause
  | builtinType
  | tupleType
  | functionType
  | genericType
  | objectType
  | objectFieldType
  | emptyType
  | fieldType
  | unionType
  | intersectionType
  | optionalType
  | literalType
  | variadicType
  deriving DecidableEq, Repr

/-- The role of a node in its parent. -/
inductive Role
  | name
  | parameters
  | body
  | condition
  | left
  | right
  deriving DecidableEq, Repr

/-- A node: what it is, its role, its first byte, the byte behind its last, its children. -/
inductive Node
  | mk (kind : NodeKind) (role : Option Role) (start stop : Nat) (children : List Node)
  deriving Repr

namespace Node

def kind : Node → NodeKind
  | mk kind _ _ _ _ => kind

/-- The role of the node in its parent. -/
def role : Node → Option Role
  | mk _ role _ _ _ => role

/-- The offset of the first byte of the node. -/
def start : Node → Nat
  | mk _ _ start _ _ => start

/-- The offset behind the last byte of the node. -/
def stop : Node → Nat
  | mk _ _ _ stop _ => stop

/-- The nodes that the node is made of, in source order. -/
def children : Node → List Node
  | mk _ _ _ _ children => children

def withRole (role : Role) : Node → Node
  | mk kind _ start stop children => mk kind (some role) start stop children

/-- Whether a node is more than a keyword, an operator or a mark. -/
def isNamed (n : Node) : Bool :=
  match n.kind with
  | .token _ => false
  | _ => true

def namedChildren (n : Node) : List Node := n.children.filter isNamed

def childInRole? (n : Node) (role : Role) : Option Node :=
  n.children.find? (·.role == some role)

def childOfKind? (n : Node) (kind : NodeKind) : Option Node :=
  n.namedChildren.find? (·.kind == kind)

/-- The first token child with a text. -/
def firstToken? (n : Node) (text : String) : Option Node :=
  n.children.find? (·.kind == .token text)

/-- The last token child with a text. -/
def lastToken? (n : Node) (text : String) : Option Node :=
  n.children.reverse.find? (·.kind == .token text)

/-- The text of the first token child: the operator, if the node is a binary expression. -/
def operator? (n : Node) : Option String :=
  n.children.findSome? fun child =>
    match child.kind with
    | .token text => some text
    | _ => none

mutual
/-- The number of nodes in a tree. -/
def size : Node → Nat
  | mk _ _ _ _ children => sizeAll children + 1
/-- The number of nodes in a list of trees. -/
def sizeAll : List Node → Nat
  | [] => 0
  | n :: rest => n.size + sizeAll rest
end

theorem size_pos (n : Node) : 0 < n.size := by
  cases n
  simp [size]

theorem size_le_of_mem {n : Node} {nodes : List Node} (h : n ∈ nodes) :
    n.size ≤ sizeAll nodes := by
  induction nodes with
  | nil => simp at h
  | cons first rest ih =>
    simp only [sizeAll]
    rcases List.mem_cons.1 h with rfl | h
    · omega
    · have := ih h
      omega

theorem size_lt_of_mem {n parent : Node} (h : n ∈ parent.children) : n.size < parent.size := by
  cases parent
  have := size_le_of_mem h
  simp only [children] at this
  simp only [size]
  omega

end Node

end LuaCoverage.Lua
