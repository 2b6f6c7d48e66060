import LuaCoverage.Yaml.Fault

/-!
# Tokens and nodes

A text is a list of tokens. Blocks have tokens for their starts and ends, which stand in the text
as indentation only; a key has a token in front of it, whether a question mark is written or not.

A node is a scalar, a list or a mapping with its tag. The tag is what was written in front of it,
or nothing; a scalar without a tag remembers whether it was plain, because then its text decides
what it is. An alias is the node of its anchor, and inside that very node it is a loop.

Nodes are built from tokens by the grammar of block and flow collections. The builder carries a
bound on its depth, which `Node.ofTokens?` takes from the number of tokens.

Results:
* `Node.ofTokens?_nil`: a text without tokens has no node.
-/

namespace LuaCoverage.Yaml

/-! ## Tokens -/

/-- What a directive says about the document behind it. -/
inductive Directive
  | version (major : Nat)
  | handle (name expansion : String)
  | other
  deriving DecidableEq, Repr

/-- A token. -/
inductive Token
  | directive (d : Directive)
  | documentStart
  | documentEnd
  | blockListStart
  | blockMappingStart
  | blockEnd
  | flowListStart
  | flowListEnd
  | flowMappingStart
  | flowMappingEnd
  | item
  | comma
  | key
  | value
  | alias (name : String)
  | anchor (name : String)
  | tag (handle : Option String) (suffix : String)
  | scalar (text : String) (isPlain : Bool)
  deriving DecidableEq, Repr

/-! ## Nodes -/

/-- The tag of a node as it was given. -/
inductive GivenTag
  | none
  | implicit
  | named (name : String)
  deriving DecidableEq, Repr

/-- A node. -/
inductive Node
  | scalar (tag : GivenTag) (text : String)
  | list (tag : GivenTag) (items : List Node)
  | mapping (tag : GivenTag) (entries : List (Node × Node))
  | loop
  deriving Repr

namespace Node

/-- What stands for a node that is left out. -/
def absent : Node := .scalar .implicit ""

end Node

/-- The tokens that are left, the anchors so far with their nodes if these are complete, and what
the handles of tags stand for. -/
structure Stream where
  tokens : List Token
  anchors : List (String × Option Node)
  handles : List (String × String)

namespace Stream

def next? (s : Stream) : Option Token := s.tokens.head?

/-- Whether the next token is one of a list. -/
def sees (s : Stream) (ts : List Token) : Bool := s.next?.any ts.contains

def skip (s : Stream) : Stream := { s with tokens := s.tokens.drop 1 }

def setAnchor (s : Stream) (name : Option String) (n : Option Node) : Stream :=
  match name with
  | some name => { s with anchors := (name, n) :: s.anchors }
  | none => s

/-- The node of an anchor, a loop if it is not complete. -/
def anchored (s : Stream) (name : String) : Except Fault Node :=
  match s.anchors.find? fun a => a.1 == name with
  | some (_, n) => .ok (n.getD .loop)
  | none => .error .malformed

/-- The tag that a handle and a suffix make. -/
def tagOf (s : Stream) (handle : Option String) (suffix : String) : Except Fault GivenTag :=
  let named := fun (name : String) => if name = "!" then GivenTag.implicit else .named name
  match handle with
  | none => .ok (named suffix)
  | some h =>
    match s.handles.find? fun entry => entry.1 == h with
    | some (_, expansion) => .ok (named (expansion ++ suffix))
    | none => .error .malformed

end Stream

/-- What stands in front of a node: an anchor and a tag, in either order. -/
structure Properties where
  anchor : Option String
  tag : GivenTag

namespace Properties

/-- Whether nothing stands in front of a node. -/
def isEmpty (p : Properties) : Bool := p.anchor.isNone && p.tag == .none

/-- Reads what stands in front of a node. -/
def read (s : Stream) : Except Fault (Properties × Stream) := do
  match s.tokens with
  | .anchor a :: .tag h t :: rest => .ok (⟨some a, ← s.tagOf h t⟩, { s with tokens := rest })
  | .anchor a :: rest => .ok (⟨some a, .none⟩, { s with tokens := rest })
  | .tag h t :: .anchor a :: rest => .ok (⟨some a, ← s.tagOf h t⟩, { s with tokens := rest })
  | .tag h t :: rest => .ok (⟨none, ← s.tagOf h t⟩, { s with tokens := rest })
  | _ => .ok (⟨none, .none⟩, s)

end Properties

/-- Where a node stands: whether block collections may start, and whether a list may stand
without further indentation. -/
structure Position where
  inBlock : Bool
  allowsFlatList : Bool

namespace Node

/-- The tag of a scalar: a plain one without a tag is known by its text. -/
def scalarTag (tag : GivenTag) (isPlain : Bool) : GivenTag :=
  if tag = .none && isPlain then .implicit else tag

mutual
def build : (bound : Nat) → Position → Stream → Except Fault (Node × Stream)
  | 0, _, _ => .error .malformed
  | bound + 1, position, s =>
    match s.tokens with
    | .alias name :: rest => do .ok (← s.anchored name, { s with tokens := rest })
    | _ => do
      let (properties, s) ← Properties.read s
      if properties.anchor.any fun a => s.anchors.any fun entry => entry.1 == a then
        .error .malformed
      else
        let s := s.setAnchor properties.anchor none
        let (n, s) ← content bound position properties s
        .ok (n, s.setAnchor properties.anchor (some n))
/-- Builds what stands behind the properties of a node. -/
def content : (bound : Nat) → Position → Properties → Stream → Except Fault (Node × Stream)
  | 0, _, _, _ => .error .malformed
  | bound + 1, position, properties, s =>
    let tag := properties.tag
    let rest := s.skip
    let asList := fun (built : Except Fault (List Node × Stream)) =>
      built.map fun (items, s) => (Node.list tag items, s)
    let asMapping := fun (built : Except Fault (List (Node × Node) × Stream)) =>
      built.map fun (entries, s) => (Node.mapping tag entries, s)
    let empty : Except Fault (Node × Stream) :=
      if properties.isEmpty then .error .malformed
      else .ok (.scalar (scalarTag tag true) "", s)
    match s.next? with
    | some .item => if position.allowsFlatList then asList (flatItems bound s) else empty
    | some (.scalar text isPlain) => .ok (.scalar (scalarTag tag isPlain) text, rest)
    | some .flowListStart => asList (flowItems bound true rest)
    | some .flowMappingStart => asMapping (flowEntries bound true rest)
    | some .blockListStart => if position.inBlock then asList (blockItems bound rest) else empty
    | some .blockMappingStart =>
      if position.inBlock then asMapping (blockEntries bound rest) else empty
    | _ => empty
/-- Builds a node unless one of the given tokens follows, where it is left out. -/
def buildUnless : (bound : Nat) → List Token → Position → Stream → Except Fault (Node × Stream)
  | 0, _, _, _ => .error .malformed
  | bound + 1, stops, position, s =>
    if s.sees stops then .ok (absent, s) else build bound position s
/-- Builds the items of a block list, up to its end. -/
def blockItems : (bound : Nat) → Stream → Except Fault (List Node × Stream)
  | 0, _ => .error .malformed
  | bound + 1, s =>
    match s.next? with
    | some .item => do
      let (n, s) ← buildUnless bound [.item, .blockEnd] ⟨true, false⟩ s.skip
      let (more, s) ← blockItems bound s
      .ok (n :: more, s)
    | some .blockEnd => .ok ([], s.skip)
    | _ => .error .malformed
/-- Builds the items of a list that has no end of its own. -/
def flatItems : (bound : Nat) → Stream → Except Fault (List Node × Stream)
  | 0, _ => .error .malformed
  | bound + 1, s =>
    match s.next? with
    | some .item => do
      let (n, s) ← buildUnless bound [.item, .key, .value, .blockEnd] ⟨true, false⟩ s.skip
      let (more, s) ← flatItems bound s
      .ok (n :: more, s)
    | _ => .ok ([], s)
/-- Builds a value, if a colon follows. -/
def valueUnless : (bound : Nat) → List Token → Position → Stream → Except Fault (Node × Stream)
  | 0, _, _, _ => .error .malformed
  | bound + 1, stops, position, s =>
    if s.sees [.value] then buildUnless bound stops position s.skip else .ok (absent, s)
/-- Builds the entries of a block mapping, up to its end. -/
def blockEntries : (bound : Nat) → Stream → Except Fault (List (Node × Node) × Stream)
  | 0, _ => .error .malformed
  | bound + 1, s =>
    match s.next? with
    | some .key => do
      let stops : List Token := [.key, .value, .blockEnd]
      let (k, s) ← buildUnless bound stops ⟨true, true⟩ s.skip
      let (v, s) ← valueUnless bound stops ⟨true, true⟩ s
      let (more, s) ← blockEntries bound s
      .ok ((k, v) :: more, s)
    | some .blockEnd => .ok ([], s.skip)
    | _ => .error .malformed
/-- Builds an item of a list in brackets, which may be a mapping of one entry without brackets. -/
def flowItem : (bound : Nat) → Stream → Except Fault (Node × Stream)
  | 0, _ => .error .malformed
  | bound + 1, s =>
    if s.sees [.key] then do
      let (k, s) ← buildUnless bound [.value, .comma, .flowListEnd] ⟨false, false⟩ s.skip
      let (v, s) ← valueUnless bound [.comma, .flowListEnd] ⟨false, false⟩ s
      .ok (.mapping .none [(k, v)], s)
    else build bound ⟨false, false⟩ s
/-- Builds the items of a list in brackets, with a comma in front of each but the first. -/
def flowItems : (bound : Nat) → (isFirst : Bool) → Stream → Except Fault (List Node × Stream)
  | 0, _, _ => .error .malformed
  | bound + 1, isFirst, s =>
    if s.sees [.flowListEnd] then .ok ([], s.skip)
    else if !isFirst && !s.sees [.comma] then .error .malformed
    else
      let s := if isFirst then s else s.skip
      if s.sees [.flowListEnd] then .ok ([], s.skip)
      else do
        let (n, s) ← flowItem bound s
        let (more, s) ← flowItems bound false s
        .ok (n :: more, s)
/-- Builds an entry of a mapping in brackets. -/
def flowEntry : (bound : Nat) → Stream → Except Fault ((Node × Node) × Stream)
  | 0, _ => .error .malformed
  | bound + 1, s =>
    if s.sees [.key] then do
      let (k, s) ← buildUnless bound [.value, .comma, .flowMappingEnd] ⟨false, false⟩ s.skip
      let (v, s) ← valueUnless bound [.comma, .flowMappingEnd] ⟨false, false⟩ s
      .ok ((k, v), s)
    else do
      let (k, s) ← build bound ⟨false, false⟩ s
      .ok ((k, absent), s)
/-- Builds the entries of a mapping in brackets, with a comma in front of each but the first. -/
def flowEntries : (bound : Nat) → (isFirst : Bool) → Stream →
    Except Fault (List (Node × Node) × Stream)
  | 0, _, _ => .error .malformed
  | bound + 1, isFirst, s =>
    if s.sees [.flowMappingEnd] then .ok ([], s.skip)
    else if !isFirst && !s.sees [.comma] then .error .malformed
    else
      let s := if isFirst then s else s.skip
      if s.sees [.flowMappingEnd] then .ok ([], s.skip)
      else do
        let (e, s) ← flowEntry bound s
        let (more, s) ← flowEntries bound false s
        .ok (e :: more, s)
end

/-- The handles of tags that need no directive. -/
def standardHandles : List (String × String) := [("!", "!"), ("!!", "tag:yaml.org,2002:")]

/-- Reads the directives in front of a document: at most one version, of YAML 1, and handles of
which no two have the same name. -/
def directives : (seenVersion : Bool) → (handles : List (String × String)) → List Token →
    Except Fault (List (String × String) × List Token)
  | seenVersion, handles, .directive d :: rest =>
    match d with
    | .version major =>
      if seenVersion || major != 1 then .error .malformed else directives true handles rest
    | .handle name expansion =>
      if handles.any fun h => h.1 == name then .error .malformed
      else directives seenVersion ((name, expansion) :: handles) rest
    | .other => directives seenVersion handles rest
  | _, handles, rest => .ok (handles ++ standardHandles, rest)

/-- Demands that nothing follows but marks of the end of a document. -/
def finish (n : Node) (s : Stream) : Except Fault Node :=
  if (s.tokens.dropWhile fun t => t == .documentEnd).isEmpty then .ok n else .error .malformed

/-- The node of a document without a mark of its start. -/
def bare (tokens : List Token) : Except Fault Node := do
  let (n, s) ← build (tokens.length * 4 + 4) ⟨true, false⟩ ⟨tokens, [], standardHandles⟩
  finish n s

/-- Whether a document has no node: nothing follows, or another document. -/
def isEmptyDocument : List Token → Bool
  | [] => true
  | .directive _ :: _ => true
  | .documentStart :: _ => true
  | .documentEnd :: _ => true
  | _ => false

/-- The node of the only document that tokens hold, if there is one. -/
def ofTokens? (tokens : List Token) : Except Fault (Option Node) :=
  match tokens with
  | [] => .ok none
  | t :: _ =>
    if !isEmptyDocument tokens || t == .documentEnd then do .ok (some (← bare tokens))
    else do
      let (handles, rest) ← directives false [] tokens
      match rest with
      | .documentStart :: rest =>
        if isEmptyDocument rest then do
          .ok (some (← finish absent ⟨rest, [], handles⟩))
        else do
          let (n, s) ← build (rest.length * 4 + 4) ⟨true, false⟩ ⟨rest, [], handles⟩
          .ok (some (← finish n s))
      | _ => .error .malformed

theorem ofTokens?_nil : ofTokens? [] = .ok none := rfl

end Node

end LuaCoverage.Yaml
