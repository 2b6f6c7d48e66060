import LuaCoverage.Lua.Grammar.Expressions

/-!
# Statements

A word that starts a statement is a keyword wherever a statement may stand, and a word that may
close the block at hand is a keyword there; every other word is a name. A block ends in front of
the first lexeme that starts no statement, and behind a `return`.
-/

namespace LuaCoverage.Lua

namespace Grammar

/-- Whether a statement starts at the cursor, in a block with the given closers. -/
def seesStatement (d : Dialect) (closers : List String) (c : Cursor) : Bool :=
  c.sees ";" || c.sees "(" || (d = .lua && c.sees "::")
    || ((Lexeme.word? d c).any fun (word, _) => !closers.contains word)

def returnStatement (d : Dialect) (rules : Rules) : Reader := fun c => do
  let draft ← (Draft.start c).take (keyword d "return")
  let draft ← draft.takeIf (seesExpression d) fun c => do
    let draft ← (Draft.start c).take (rules (.separated .expression))
    draft.finish .expressionList
  let draft ← draft.takeIf (Cursor.sees ";") (mark ";")
  draft.finish .returnStatement

/-- The statements of a block, with the comments between them. -/
def block (d : Dialect) (rules : Rules) (closers : List String) : Reader := fun c => do
  if !seesStatement d closers c then some ([], c)
  else if Lexeme.wordAt d c = "return" then returnStatement d rules c
  else
    let draft ← (Draft.start c).take (rules .statement)
    let (comments, next) ← Lexeme.trivia? draft.cursor
    let (more, behind) ← rules (.block closers) next
    if more.isEmpty then draft.spill else some (draft.children ++ comments ++ more, behind)

def expressionList (rules : Rules) : Reader := fun c => do
  let draft ← (Draft.start c).take (rules (.separated .expression))
  draft.finish .expressionList

def labelStatement (d : Dialect) : Reader := fun c => do
  let draft ← (Draft.start c).take (mark "::")
  let draft ← draft.take (name d)
  let draft ← draft.take (mark "::")
  draft.finish .labelStatement

def wordStatement (d : Dialect) (kind : NodeKind) (word : String) : Reader := fun c => do
  let draft ← (Draft.start c).take (keyword d word)
  draft.finish kind

def gotoStatement (d : Dialect) : Reader := fun c => do
  let draft ← (Draft.start c).take (keyword d "goto")
  let draft ← draft.take (name d)
  draft.finish .gotoStatement

def doStatement (d : Dialect) (rules : Rules) : Reader := fun c => do
  let draft ← (Draft.start c).take (keyword d "do")
  let draft ← draft.body rules ["end"]
  let draft ← draft.take (keyword d "end")
  draft.finish .doStatement

def whileStatement (d : Dialect) (rules : Rules) : Reader := fun c => do
  let draft ← (Draft.start c).take (keyword d "while")
  let draft ← draft.take (inRole .condition (rules (.expression 0)))
  let draft ← draft.take (keyword d "do")
  let draft ← draft.body rules ["end"]
  let draft ← draft.take (keyword d "end")
  draft.finish .whileStatement

def repeatStatement (d : Dialect) (rules : Rules) : Reader := fun c => do
  let draft ← (Draft.start c).take (keyword d "repeat")
  let draft ← draft.body rules ["until"]
  let draft ← draft.take (keyword d "until")
  let draft ← draft.take (inRole .condition (rules (.expression 0)))
  draft.finish .repeatStatement

/-- The words that close an arm of an if statement. -/
def armClosers : List String := ["elseif", "else", "end"]

/-- Whether another arm of an if statement starts at the cursor. -/
def seesAlternative (d : Dialect) (c : Cursor) : Bool :=
  ["elseif", "else"].contains (Lexeme.wordAt d c)

/-- The arms of an if statement behind its first. -/
def alternatives (d : Dialect) (rules : Rules) : Reader := fun c => do
  if Lexeme.wordAt d c = "elseif" then
    let draft ← (Draft.start c).take (keyword d "elseif")
    let draft ← draft.take (rules (.expression 0))
    let draft ← draft.take (keyword d "then")
    let draft ← draft.body rules armClosers
    let rest := Draft.ofNode (draft.toNode .elseifStatement) draft.cursor
    let rest ← rest.takeIf (seesAlternative d) (rules .alternatives)
    rest.spill
  else
    let draft ← (Draft.start c).take (keyword d "else")
    let draft ← draft.body rules ["end"]
    draft.finish .elseStatement

def ifStatement (d : Dialect) (rules : Rules) : Reader := fun c => do
  let draft ← (Draft.start c).take (keyword d "if")
  let draft ← draft.take (rules (.expression 0))
  let draft ← draft.take (keyword d "then")
  let draft ← draft.body rules armClosers
  let draft ← draft.takeIf (seesAlternative d) (rules .alternatives)
  let draft ← draft.take (keyword d "end")
  draft.finish .ifStatement

/-- The clause of a numeric for loop. -/
def numericClause (d : Dialect) (rules : Rules) : Reader := fun c => do
  let draft ← (Draft.start c).take (name d)
  let draft ← draft.take (mark "=")
  let draft ← draft.take (rules (.expression 0))
  let draft ← draft.take (mark ",")
  let draft ← draft.take (rules (.expression 0))
  let draft ← draft.takeIf (Cursor.sees ",") fun c => do
    let draft ← (Draft.start c).take (mark ",")
    let draft ← draft.take (rules (.expression 0))
    draft.spill
  draft.finish .forNumericClause

/-- The clause of a generic for loop. -/
def genericClause (d : Dialect) (rules : Rules) : Reader := fun c => do
  let draft ← (Draft.start c).take fun c => do
    let draft ← (Draft.start c).take (rules (.separated .binding))
    draft.finish .variableList
  let draft ← draft.take (keyword d "in")
  let draft ← draft.take (expressionList rules)
  draft.finish .forGenericClause

def forStatement (d : Dialect) (rules : Rules) : Reader := fun c => do
  let draft ← (Draft.start c).take (keyword d "for")
  let draft ← draft.take fun c =>
    let isNumeric := (Lexeme.word? d c).any fun (_, next) => isNext "=" next
    if isNumeric then numericClause d rules c else genericClause d rules c
  let draft ← draft.take (keyword d "do")
  let draft ← draft.body rules ["end"]
  let draft ← draft.take (keyword d "end")
  draft.finish .forStatement

/-- What may follow the first name in the name of a function: fields, then a method. -/
def functionName (d : Dialect) (rules : Rules) (head : Node) : Reader := fun c => do
  let next ← upcoming? c
  if next.sees "." then
    let draft ← (Draft.ofNode head c).take (mark ".")
    let draft ← draft.take (name d)
    rules (.functionName (draft.toNode .dotIndex)) draft.cursor
  else if next.sees ":" then
    let draft ← (Draft.ofNode head c).take (mark ":")
    let draft ← draft.take (name d)
    draft.finish .methodIndex
  else some ([head], c)

def functionDeclaration (d : Dialect) (rules : Rules) : Reader := fun c => do
  let draft ← (Draft.start c).take (keyword d "function")
  let draft ← draft.take fun c => do
    let (nodes, next) ← name d c
    match nodes with
    | [head] => inRole .name (rules (.functionName head)) next
    | _ => none
  let draft ← functionBody d rules draft
  draft.finish .functionDeclaration

def localFunction (d : Dialect) (rules : Rules) : Reader := fun c => do
  let draft ← (Draft.start c).take (keyword d "local")
  let draft ← draft.take (keyword d "function")
  let draft ← draft.take (inRole .name (name d))
  let draft ← functionBody d rules draft
  draft.finish .functionDeclaration

/-- The declaration of local variables, with their values perhaps. -/
def localVariables (d : Dialect) (rules : Rules) : Reader := fun c => do
  let draft ← (Draft.start c).take (keyword d "local")
  let draft ← draft.take fun c => do
    let names ← (Draft.start c).take (rules (.separated .attributedName))
    let list := Draft.ofNode (names.toNode .variableList) names.cursor
    if isNext "=" list.cursor then
      let draft ← list.take (mark "=")
      let draft ← draft.take (expressionList rules)
      draft.finish .assignmentStatement
    else list.spill
  draft.finish .variableDeclaration

def localDeclaration (d : Dialect) (rules : Rules) : Reader := fun c => do
  let isFunction := (Lexeme.word? d c).any fun (_, next) =>
    (upcoming? next).any fun c => Lexeme.wordAt d c = "function"
  if isFunction then localFunction d rules c else localVariables d rules c

def typeDefinition (d : Dialect) (rules : Rules) : Reader := fun c => do
  let draft ← (Draft.start c).takeIf (fun c => Lexeme.wordAt d c = "export") (keyword d "export")
  let draft ← draft.take (keyword d "type")
  let draft ← draft.take (rules .type)
  let draft ← draft.take (mark "=")
  let draft ← draft.take fun c => do
    if Lexeme.wordAt d c = "typeof" then
      let draft ← (Draft.start c).take (keyword d "typeof")
      let draft ← draft.take (mark "(")
      let draft ← draft.take (rules (.expression 0))
      let draft ← draft.take (mark ")")
      draft.spill
    else rules .type c
  draft.finish .typeDefinition

/-- Whether a prefix expression can be assigned to. -/
def isTarget (n : Node) : Bool :=
  match n.kind with
  | .identifier | .dotIndex | .bracketIndex => true
  | _ => false

/-- What can be assigned to: a name or an index. -/
def target (d : Dialect) (rules : Rules) : Reader := fun c => do
  let (nodes, next) ← prefixExpression d rules c
  if nodes.all isTarget then some (nodes, next) else none

/-- The targets of an assignment whose first is already read. -/
def targets (rules : Rules) (first : Draft) : Option Draft := do
  let draft ← first.takeIf (Cursor.sees ",") fun c => do
    let draft ← (Draft.start c).take (mark ",")
    let draft ← draft.take (rules (.separated .target))
    draft.spill
  some (Draft.ofNode (draft.toNode .variableList) draft.cursor)

/-- A call, an assignment, or a compound assignment. -/
def expressionStatement (d : Dialect) (rules : Rules) : Reader := fun c => do
  let (nodes, next) ← prefixExpression d rules c
  match nodes with
  | [head] =>
    if isTarget head then
      let list ← targets rules (Draft.ofNode head next)
      let behind ← upcoming? list.cursor
      match d.updateMarks.find? fun text => behind.sees text with
      | some text =>
        let draft ← list.take (mark text)
        let draft ← draft.take (expressionList rules)
        draft.finish .updateStatement
      | none =>
        let draft ← list.take (mark "=")
        let draft ← draft.take (expressionList rules)
        draft.finish .assignmentStatement
    else if head.kind = .functionCall then some ([head], next)
    else none
  | _ => none

def statement (d : Dialect) (rules : Rules) : Reader := fun c =>
  if c.sees ";" then do
    let draft ← (Draft.start c).take (mark ";")
    draft.finish .emptyStatement
  else if d = .lua && c.sees "::" then labelStatement d c
  else
    let word := Lexeme.wordAt d c
    if !d.statementWords.contains word then expressionStatement d rules c
    else if word = "break" then wordStatement d .breakStatement word c
    else if word = "continue" then wordStatement d .continueStatement word c
    else if word = "goto" then gotoStatement d c
    else if word = "do" then doStatement d rules c
    else if word = "while" then whileStatement d rules c
    else if word = "repeat" then repeatStatement d rules c
    else if word = "if" then ifStatement d rules c
    else if word = "for" then forStatement d rules c
    else if word = "function" then functionDeclaration d rules c
    else if word = "local" then localDeclaration d rules c
    else typeDefinition d rules c

/-- A name, with its type perhaps in Luau. -/
def binding (d : Dialect) (rules : Rules) : Reader := fun c => do
  let draft ← (Draft.start c).take (name d)
  let draft ← draft.takeIf (fun c => d = .luau && c.sees ":") fun c => do
    let draft ← (Draft.start c).take (mark ":")
    let draft ← draft.take (rules .type)
    draft.spill
  draft.spill

/-- The name of a local variable, with its type and its attribute perhaps. -/
def attributedName (d : Dialect) (rules : Rules) : Reader := fun c => do
  let draft ← (Draft.start c).take (binding d rules)
  let draft ← draft.takeIf (Cursor.sees "<") fun c => do
    let draft ← (Draft.start c).take (mark "<")
    let draft ← draft.take (name d)
    let draft ← draft.take (mark ">")
    draft.finish .variableAttribute
  draft.spill

def item (d : Dialect) (rules : Rules) : Item → Reader
  | .expression => rules (.expression 0)
  | .target => target d rules
  | .name => name d
  | .attributedName => attributedName d rules
  | .binding => binding d rules
  | .parameter => parameter d rules
  | .type => rules .type
  | .typeArgument => typeArgument rules
  | .typeField => typeField d rules
  | .typeName => typeName d

/-- Whether a comma goes on with a list. The three dots end the parameters of a Lua function, and
a comma in front of a closing brace belongs to the brace. -/
def goesOn (d : Dialect) (which : Item) (read : List Node) (c : Cursor) : Bool :=
  match which with
  | .parameter => c.sees "," && !(d = .lua && read.any fun n => n.kind == .vararg)
  | .type | .typeField =>
    c.sees "," && !(((c.text? ",").bind upcoming?).any (Cursor.sees "\x7d"))
  | _ => c.sees ","

def separated (d : Dialect) (rules : Rules) (which : Item) : Reader := fun c => do
  let draft ← (Draft.start c).take (item d rules which)
  let draft ← draft.takeIf (goesOn d which draft.children) fun c => do
    let draft ← (Draft.start c).take (mark ",")
    let draft ← draft.take (rules (.separated which))
    draft.spill
  draft.spill

end Grammar

end LuaCoverage.Lua
