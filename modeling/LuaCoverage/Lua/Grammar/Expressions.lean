import LuaCoverage.Lua.Grammar.Types

/-!
# Expressions

Operators are grouped by their levels: `expression level` reads an expression whose operators
have at least that level, and `operators level left` extends an expression already read. A prefix
expression is a name or a parenthesis with indices and calls behind it; an opening `[[` behind it
is always a string, hence an argument.
-/

namespace LuaCoverage.Lua

namespace Grammar

/-- The binary operator at the cursor, and the cursor behind it. -/
def operatorAt? (d : Dialect) (c : Cursor) : Option (Dialect.Infix × Cursor) :=
  match Lexeme.word? d c with
  | some (word, next) => (Dialect.wordOperators.find? (·.text == word)).map fun op => (op, next)
  | none => d.markOperators.findSome? fun op => (c.text? op.text).map fun next => (op, next)

/-- Extends an expression by the operators of at least a level that follow it. -/
def operators (d : Dialect) (rules : Rules) (level : Nat) (left : Node) : Reader := fun c => do
  let next ← upcoming? c
  match operatorAt? d next with
  | some (op, _) =>
    if level ≤ op.level then
      let draft ← (Draft.ofNode (left.withRole .left) c).take fun c =>
        if Lexeme.wordAt d c = op.text then keyword d op.text c else mark op.text c
      let floor := if op.rightward then op.level else op.level + 1
      let draft ← draft.take (inRole .right (rules (.expression floor)))
      rules (.operators level (draft.toNode .binaryExpression)) draft.cursor
    else some ([left], c)
  | none =>
    if d = .luau && level ≤ Dialect.castLevel && next.sees "::" then
      let draft ← (Draft.ofNode left c).take (mark "::")
      let draft ← draft.take (rules .type)
      rules (.operators level (draft.toNode .castExpression)) draft.cursor
    else some ([left], c)

def templateString (rules : Rules) : Reader := fun c => do
  let inside ← c.text? "\x60"
  let (parts, next) ← rules .template inside
  some ([.mk .string none c.offset next.offset parts], next)

/-- The rest of a template string: text, escapes and interpolated expressions. -/
def template (rules : Rules) : Reader := fun c => do
  let c := c.dropWhile (Glyph.avoids ['\x60', '\x7b', '\\'])
  if c.sees "\x60" then (c.text? "\x60").map ([], ·)
  else if c.sees "\\" then
    let next ← (c.text? "\\").bind Lexeme.luauEscape?
    rules .template next
  else
    let draft ← (Draft.start c).take (mark "\x7b")
    let draft ← draft.take (rules (.expression 0))
    let draft ← draft.take (mark "\x7d")
    let (more, next) ← rules .template draft.cursor
    some (draft.toNode .interpolation :: more, next)

/-- Whether a string starts at the cursor. -/
def seesString (d : Dialect) (c : Cursor) : Bool :=
  Lexeme.startsString c || (d = .luau && c.sees "\x60")

def string (d : Dialect) (rules : Rules) : Reader := fun c =>
  if d = .luau && c.sees "\x60" then templateString rules c
  else leaf .string (Lexeme.string? d) c

/-- A field of a table: a key in brackets, a name or no key, and a value. -/
def field (d : Dialect) (rules : Rules) : Reader := fun c => do
  if c.sees "[" && !(Lexeme.longOpen? c).isSome then
    let draft ← (Draft.start c).take (mark "[")
    let draft ← draft.take (rules (.expression 0))
    let draft ← draft.take (mark "]")
    let draft ← draft.take (mark "=")
    let draft ← draft.take (rules (.expression 0))
    draft.finish .field
  else
    let hasName :=
      match Lexeme.word? d c with
      | some (word, next) =>
        !d.expressionWords.contains word && isNext "=" next && !isNext "==" next
      | none => false
    let draft ←
      if hasName then do
        let draft ← (Draft.start c).take (name d)
        draft.take (mark "=")
      else some (Draft.start c)
    let draft ← draft.take (rules (.expression 0))
    draft.finish .field

/-- The fields of a table, a separator perhaps behind the last. -/
def fields (d : Dialect) (rules : Rules) : Reader := fun c => do
  let draft ← (Draft.start c).take (field d rules)
  let next ← upcoming? draft.cursor
  if next.sees "," || next.sees ";" then
    let draft ← draft.take (mark (if next.sees "," then "," else ";"))
    let draft ← draft.takeIf (fun c => !c.sees "\x7d") (rules .fields)
    draft.spill
  else draft.spill

def table (rules : Rules) : Reader := fun c => do
  let draft ← (Draft.start c).take (mark "\x7b")
  let draft ← draft.takeIf (fun c => !c.sees "\x7d") (rules .fields)
  let draft ← draft.take (mark "\x7d")
  draft.finish .tableConstructor

/-- Whether the arguments of a call start at the cursor. -/
def seesArguments (d : Dialect) (c : Cursor) : Bool :=
  c.sees "(" || c.sees "\x7b" || seesString d c

/-- The arguments of a call: a list in parentheses, a table, or a string. -/
def arguments (d : Dialect) (rules : Rules) : Reader := fun c => do
  if c.sees "(" then
    let draft ← (Draft.start c).take (mark "(")
    let draft ← draft.takeIf (fun c => !c.sees ")") (rules (.separated .expression))
    let draft ← draft.take (mark ")")
    draft.finish .arguments
  else
    let draft ← (Draft.start c).take (if c.sees "\x7b" then table rules else string d rules)
    draft.finish .arguments

/-- What may follow a prefix expression: indices, methods and calls. -/
def suffixes (d : Dialect) (rules : Rules) (head : Node) : Reader := fun c => do
  let next ← upcoming? c
  if next.sees "." && !next.sees ".." then
    let draft ← (Draft.ofNode head c).take (mark ".")
    let draft ← draft.take (name d)
    rules (.suffixes (draft.toNode .dotIndex)) draft.cursor
  else if next.sees ":" && !next.sees "::" then
    let draft ← (Draft.ofNode head c).take (mark ":")
    let draft ← draft.take (name d)
    let draft ← (Draft.ofNode (draft.toNode .methodIndex) draft.cursor).take (arguments d rules)
    rules (.suffixes (draft.toNode .functionCall)) draft.cursor
  else if seesArguments d next then
    let draft ← (Draft.ofNode head c).take (arguments d rules)
    rules (.suffixes (draft.toNode .functionCall)) draft.cursor
  else if next.sees "[" then
    let draft ← (Draft.ofNode head c).take (mark "[")
    let draft ← draft.take (rules (.expression 0))
    let draft ← draft.take (mark "]")
    rules (.suffixes (draft.toNode .bracketIndex)) draft.cursor
  else some ([head], c)

/-- A prefix expression: a name or a parenthesis, with all that follows it. -/
def prefixExpression (d : Dialect) (rules : Rules) : Reader := fun c => do
  if c.sees "(" then
    let draft ← (Draft.start c).take (mark "(")
    let draft ← draft.take (rules (.expression 0))
    let draft ← draft.take (mark ")")
    rules (.suffixes (draft.toNode .parenthesized)) draft.cursor
  else
    let draft ← (Draft.start c).take (name d)
    match draft.children with
    | [head] => rules (.suffixes head) draft.cursor
    | _ => none

/-- A parameter: a name or three dots, with a type perhaps in Luau. -/
def parameter (d : Dialect) (rules : Rules) : Reader := fun c => do
  let draft ← (Draft.start c).take fun c =>
    if c.sees "..." then leaf .vararg (Cursor.text? "...") c else name d c
  match d with
  | .lua => draft.spill
  | .luau =>
    let draft ← draft.takeIf (Cursor.sees ":") fun c => do
      let draft ← (Draft.start c).take (mark ":")
      let draft ← draft.take (rules .type)
      draft.spill
    draft.finish .parameter

def parameters (rules : Rules) : Reader := fun c => do
  let draft ← (Draft.start c).take (mark "(")
  let draft ← draft.takeIf (fun c => !c.sees ")") (rules (.separated .parameter))
  let draft ← draft.take (mark ")")
  draft.finish .parameters

/-- A function from its parameters to its end. -/
def functionBody (d : Dialect) (rules : Rules) (draft : Draft) : Option Draft := do
  let draft ← draft.takeIf (fun c => d = .luau && c.sees "<") (genericTypeList rules)
  let draft ← draft.take (inRole .parameters (parameters rules))
  let draft ← draft.takeIf (fun c => d = .luau && c.sees ":") fun c => do
    let draft ← (Draft.start c).take (mark ":")
    let draft ← draft.take (rules .type)
    draft.spill
  let draft ← draft.body rules ["end"]
  draft.take (keyword d "end")

/-- The clauses of an if expression behind its first value. -/
def clauses (d : Dialect) (rules : Rules) : Reader := fun c => do
  let word := Lexeme.wordAt d c
  if word = "elseif" then
    let draft ← (Draft.start c).take (keyword d "elseif")
    let draft ← draft.take (rules (.expression 0))
    let draft ← draft.take (keyword d "then")
    let draft ← draft.take (rules (.expression 0))
    let rest := Draft.ofNode (draft.toNode .elseifClause) draft.cursor
    let rest ← rest.takeIf (fun c => ["elseif", "else"].contains (Lexeme.wordAt d c))
      (rules .clauses)
    rest.spill
  else
    let draft ← (Draft.start c).take (keyword d "else")
    let draft ← draft.take (rules (.expression 0))
    draft.finish .elseClause

def ifExpression (d : Dialect) (rules : Rules) : Reader := fun c => do
  let draft ← (Draft.start c).take (keyword d "if")
  let draft ← draft.take (rules (.expression 0))
  let draft ← draft.take (keyword d "then")
  let draft ← draft.take (rules (.expression 0))
  let draft ← draft.takeIf (fun c => ["elseif", "else"].contains (Lexeme.wordAt d c))
    (rules .clauses)
  draft.finish .ifExpression

/-- Whether a number starts at the cursor. -/
def seesNumber (c : Cursor) : Bool :=
  c.char?.any Text.isAsciiDigit || ((c.text? ".").bind (Cursor.one? Lexeme.isDigit)).isSome

def simpleExpression (d : Dialect) (rules : Rules) : Reader := fun c => do
  if seesString d c then string d rules c
  else if c.sees "\x7b" then table rules c
  else if c.sees "..." then leaf .vararg (Cursor.text? "...") c
  else if seesNumber c then leaf .number (Lexeme.number? d) c
  else
    let word := Lexeme.wordAt d c
    let constant := fun kind => leaf kind (fun c => (Lexeme.word? d c).map (·.2)) c
    if word = "nil" then constant .nilValue
    else if word = "true" then constant .trueValue
    else if word = "false" then constant .falseValue
    else if word = "function" then
      let draft ← (Draft.start c).take (keyword d "function")
      let draft ← functionBody d rules draft
      draft.finish .functionDefinition
    else if d = .luau && word = "if" then ifExpression d rules c
    else prefixExpression d rules c

def unaryAt? (d : Dialect) (c : Cursor) : Option Reader :=
  if Lexeme.wordAt d c = "not" then some (keyword d "not")
  else (d.unaryMarks.find? fun text => c.sees text).map mark

/-- An expression whose operators have at least a level. -/
def expression (d : Dialect) (rules : Rules) (level : Nat) : Reader := fun c => do
  match unaryAt? d c with
  | some operator =>
    let draft ← (Draft.start c).take operator
    let draft ← draft.take (rules (.expression (d.unaryLevel + 1)))
    rules (.operators level (draft.toNode .unaryExpression)) draft.cursor
  | none =>
    let (nodes, next) ← simpleExpression d rules c
    match nodes with
    | [left] => rules (.operators level left) next
    | _ => none

/-- Whether an expression starts at the cursor. The words that may close a block do not. -/
def seesExpression (d : Dialect) (c : Cursor) : Bool :=
  seesString d c || c.sees "\x7b" || c.sees "(" || c.sees "..." || seesNumber c
    || d.unaryMarks.any (fun text => c.sees text)
    || ((Lexeme.word? d c).any fun (word, _) => !(["end", "elseif", "else", "until"].contains word))

end Grammar

end LuaCoverage.Lua
