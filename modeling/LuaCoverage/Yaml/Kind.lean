import LuaCoverage.Yaml.Node
import LuaCoverage.Yaml.Number
import LuaCoverage.Yaml.Timestamp

/-!
# Kinds of nodes

What a node is: its tag names the kind, or else its text decides. A plain scalar that is nothing
else is a string.

Results:
* `Kind.ofText_empty`: an empty plain scalar is null.
-/

namespace LuaCoverage.Yaml

/-- The kinds of nodes that are known. -/
inductive Kind
  | null
  | bool
  | int
  | float
  | timestamp
  | string
  | binary
  | list
  | mapping
  | set
  | pairs
  | merge
  | content
  | unknown
  deriving DecidableEq, Repr

namespace Kind

/-- The kinds that a tag may name. -/
def named : List (String × Kind) :=
  [("null", .null), ("bool", .bool), ("int", .int), ("float", .float), ("timestamp", .timestamp),
    ("str", .string), ("binary", .binary), ("seq", .list), ("map", .mapping), ("set", .set),
    ("pairs", .pairs), ("omap", .pairs), ("merge", .merge), ("value", .content)]

def ofTag (name : String) : Kind :=
  ((named.find? fun entry => "tag:yaml.org,2002:" ++ entry.1 == name).map (·.2)).getD .unknown

/-- Whether the nodes of a kind have parts. -/
def isCollection : Kind → Bool
  | .list | .mapping | .set | .pairs => true
  | _ => false

def boolWords : List String :=
  ["yes", "Yes", "YES", "no", "No", "NO", "true", "True", "TRUE", "false", "False", "FALSE", "on",
    "On", "ON", "off", "Off", "OFF"]

def nullWords : List String := ["~", "null", "Null", "NULL", ""]

/-- The kind of a scalar that is known by its text. A line end behind the text does not count. -/
def ofText (text : String) : Kind :=
  let cs := dropLineEnd text.toList
  let text := String.ofList cs
  if boolWords.contains text then .bool
  else if isFloat cs then .float
  else if isInteger cs then .int
  else if text = "<<" then .merge
  else if nullWords.contains text then .null
  else if isTimestamp cs then .timestamp
  else if text = "=" then .content
  else if ["!", "&", "*"].contains text then .unknown
  else .string

theorem ofText_empty : ofText "" = .null := by decide +kernel

/-- The kind of a node with a tag, if the tag names one; `default` is the kind of a node of its
form without a tag. -/
def ofGiven (tag : GivenTag) (default : Kind) : Kind :=
  match tag with
  | .named name => ofTag name
  | _ => default

end Kind

def Node.kind : Node → Kind
  | .scalar .implicit text => Kind.ofText text
  | .scalar tag _ => Kind.ofGiven tag .string
  | .list tag _ => Kind.ofGiven tag .list
  | .mapping tag _ => Kind.ofGiven tag .mapping
  | .loop => .unknown

end LuaCoverage.Yaml
