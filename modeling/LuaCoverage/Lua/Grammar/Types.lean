import LuaCoverage.Lua.Grammar.Basic

/-!
# Types

The types of Luau: named, built-in and literal types, tuples, functions, tables, type arguments,
optionals, unions and intersections. A type takes all that can belong to it, so `T < U` is the
start of a list of type arguments.
-/

namespace LuaCoverage.Lua

namespace Grammar

/-- The words that are no names where a type is expected. -/
def isTypeKeyword (word : String) : Bool :=
  Dialect.typeWords.contains word || word == "true" || word == "false"

/-- Whether a name with a colon behind it stands at the cursor. -/
def seesTypedName (d : Dialect) (c : Cursor) : Bool :=
  match Lexeme.word? d c with
  | some (word, next) => !isTypeKeyword word && isNext ":" next
  | none => false

/-- A name, a colon and a type. -/
def typedName (d : Dialect) (rules : Rules) : Reader := fun c => do
  let draft ← (Draft.start c).take (name d)
  let draft ← draft.take (mark ":")
  let draft ← draft.take (rules .type)
  draft.finish .parameter

/-- What stands between the parentheses of a function type: named parameters, then types. -/
def typeParameters (d : Dialect) (rules : Rules) : Reader := fun c => do
  if c.sees ")" then some ([], c)
  else if seesTypedName d c then
    let draft ← (Draft.start c).take (typedName d rules)
    let draft ← draft.takeIf (Cursor.sees ",") fun c => do
      let draft ← (Draft.start c).take (mark ",")
      let draft ← draft.take (rules .typeParameters)
      draft.spill
    draft.spill
  else rules (.separated .type) c

/-- A lone comma in front of the types of a function type. -/
def leadingComma (rules : Rules) : Reader := fun c => do
  let draft ← (Draft.start c).take (mark ",")
  let draft ← draft.takeIf (fun c => !c.sees ")") (rules (.separated .type))
  draft.spill

/-- Whether the children of a parenthesis are types separated by commas, and no parameters. -/
def isTypeList (children : List Node) : Bool :=
  let parts := children.filter fun n => n.kind != .comment
  let isComma := fun (n : Node) => n.kind == .token ","
  !parts.any (fun n => n.kind == .parameter) && !parts.head?.any isComma
    && !parts.getLast?.any isComma

/-- A parenthesis in a type: a function type, a tuple, or the empty type. -/
def parenthesizedType (rules : Rules) : Reader := fun c => do
  let draft ← (Draft.start c).take (mark "(")
  let inside ← upcoming? draft.cursor
  let draft ← draft.take (if inside.sees "," then leadingComma rules else rules .typeParameters)
  let held := draft.children.drop 1
  let draft ← draft.take (mark ")")
  if isNext "->" draft.cursor then
    let draft ← draft.take (mark "->")
    let draft ← draft.take (rules .type)
    draft.finish .functionType
  else if held.all (fun n => n.kind == .comment) then draft.finish .emptyType
  else if isTypeList held then draft.finish .tupleType
  else none

/-- A field of a table type, with a name or a type as its key. -/
def typeField (d : Dialect) (rules : Rules) : Reader := fun c => do
  let draft ←
    if c.sees "[" then (Draft.start c).take fun c => do
      let draft ← (Draft.start c).take (mark "[")
      let draft ← draft.take (rules .type)
      let draft ← draft.take (mark "]")
      draft.finish .objectFieldType
    else (Draft.start c).take (name d)
  let draft ← draft.take (mark ":")
  let draft ← draft.take (rules .type)
  draft.spill

/-- A table type: fields or types, a comma perhaps behind the last. -/
def objectType (d : Dialect) (rules : Rules) : Reader := fun c => do
  let draft ← (Draft.start c).take (mark "\x7b")
  let draft ← draft.takeIf (fun c => !c.sees "\x7d" && !c.sees ",") fun c =>
    rules (.separated (if c.sees "[" || seesTypedName d c then .typeField else .type)) c
  let draft ← draft.takeIf (Cursor.sees ",") (mark ",")
  let draft ← draft.take (mark "\x7d")
  draft.finish .objectType

/-- A type argument: a type, three dots perhaps behind it. -/
def typeArgument (rules : Rules) : Reader := fun c => do
  let draft ← (Draft.start c).take (rules .type)
  let draft ← draft.takeIf (Cursor.sees "...") (leaf .vararg (Cursor.text? "..."))
  draft.spill

/-- A name in a list of type parameters, three dots perhaps behind it. -/
def typeName (d : Dialect) : Reader := fun c => do
  let draft ← (Draft.start c).take (name d)
  let draft ← draft.takeIf (Cursor.sees "...") (leaf .vararg (Cursor.text? "..."))
  draft.spill

def genericTypeList (rules : Rules) : Reader := fun c => do
  let draft ← (Draft.start c).take (mark "<")
  let draft ← draft.take (rules (.separated .typeName))
  let draft ← draft.take (mark ">")
  draft.finish .genericTypeList

/-- A type without what may follow it. -/
def simpleType (d : Dialect) (rules : Rules) : Reader := fun c => do
  if c.sees "(" then parenthesizedType rules c
  else if c.sees "\x7b" then objectType d rules c
  else if c.sees "..." then
    let draft ← (Draft.start c).take (mark "...")
    let draft ← draft.take (rules .type)
    draft.finish .variadicType
  else if Lexeme.startsString c then
    let draft ← (Draft.start c).take (leaf .string (Lexeme.string? d))
    draft.finish .literalType
  else
    let word := Lexeme.wordAt d c
    if Dialect.typeWords.contains word then
      leaf .builtinType (fun c => (Lexeme.word? d c).map (·.2)) c
    else if word == "true" || word == "false" then
      let draft ← (Draft.start c).take (keyword d word)
      draft.finish .literalType
    else name d c

/-- A type with all that belongs to it. -/
def type (d : Dialect) (rules : Rules) : Reader := fun c => do
  let (nodes, next) ← simpleType d rules c
  match nodes with
  | [left] => rules (.typeSuffixes left) next
  | _ => none

/-- Joins two types by a mark and goes on. -/
def joinTypes (d : Dialect) (rules : Rules) (kind : NodeKind) (text : String) (left : Node) :
    Reader := fun c => do
  let draft ← (Draft.ofNode left c).take (mark text)
  let draft ← draft.take (simpleType d rules)
  rules (.typeSuffixes (draft.toNode kind)) draft.cursor

/-- What may follow a type: a field name, type arguments, a question mark, another type. -/
def typeSuffixes (d : Dialect) (rules : Rules) (left : Node) : Reader := fun c => do
  let next ← upcoming? c
  if next.sees "<" then
    let draft ← (Draft.ofNode left c).take (mark "<")
    let draft ← draft.takeIf (fun c => !c.sees ">") (rules (.separated .typeArgument))
    let draft ← draft.take (mark ">")
    rules (.typeSuffixes (draft.toNode .genericType)) draft.cursor
  else if next.sees "?" then
    let draft ← (Draft.ofNode left c).take (mark "?")
    rules (.typeSuffixes (draft.toNode .optionalType)) draft.cursor
  else if next.sees "|" then joinTypes d rules .unionType "|" left c
  else if next.sees "&" then joinTypes d rules .intersectionType "&" left c
  else if next.sees "." && !next.sees ".."
      && (left.kind == .identifier || left.kind == .fieldType) then
    let draft ← (Draft.ofNode left c).take (mark ".")
    let draft ← draft.take (name d)
    rules (.typeSuffixes (draft.toNode .fieldType)) draft.cursor
  else some ([left], c)

end Grammar

end LuaCoverage.Lua
