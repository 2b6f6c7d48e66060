import LuaCoverage.Lua.Chunk
import LuaCoverage.Proofs.Lua.Moved.Reader

/-!
# The grammar at another place

Every reader of a type, an expression or a statement reads alike wherever that stands, and so does
the rule of every goal. What the rules read within a depth they read within every greater one.

Results:
* `moves_rule`: the rule of a goal reads alike if the rules that it asks do.
* `moves_rules`: what is read does not depend on the place, nor on a depth that is greater.
-/

namespace LuaCoverage.Lua

open Cursor (Steady)

namespace Grammar
variable {k : Nat} {d : Dialect}

/-! ## Types -/

theorem seesTypedName_move (c : Cursor) : seesTypedName d (c.move k) = seesTypedName d c := by
  simp only [seesTypedName, Lexeme.word?_move]
  cases Lexeme.word? d c with
  | none => rfl
  | some read => exact congrArg (_ && ·) (isNext_move ":" read.2)

theorem isTypeList_move (children : List Node) :
    isTypeList (children.map (Node.move k)) = isTypeList children := by
  simp [isTypeList, List.filter_map, Function.comp_def, List.any_map, List.head?_map,
    List.getLast?_map, Option.any_map]

section
variable {rules rules' : Rules} (h : rules.Moves k rules')
include h

theorem moves_typedName : Moves k (typedName d rules) (typedName d rules') := fun c =>
  .bind ((Draft.start c).follows_take moves_name) fun draft =>
  .bind (draft.follows_take (moves_mark _)) fun draft =>
  .bind (draft.follows_take (h .type)) fun draft => draft.follows_finish _

theorem moves_typeParameters :
    Moves k (typeParameters d rules) (typeParameters d rules') := fun c =>
  .ite (by simp) (.some _) <| .ite (by rw [seesTypedName_move])
    (.bind ((Draft.start c).follows_take (moves_typedName h)) fun draft =>
      .bind (draft.follows_takeIf (by simp) fun c =>
        .bind ((Draft.start c).follows_take (moves_mark _)) fun draft =>
        .bind (draft.follows_take (h .typeParameters)) fun draft => draft.follows_spill)
      fun draft => draft.follows_spill)
    (h (.separated .type) c)

theorem moves_leadingComma : Moves k (leadingComma rules) (leadingComma rules') := fun c =>
  .bind ((Draft.start c).follows_take (moves_mark _)) fun draft =>
  .bind (draft.follows_takeIf (by simp) (h (.separated .type))) fun draft => draft.follows_spill

theorem moves_parenthesizedType : Moves k (parenthesizedType rules) (parenthesizedType rules') := by
  refine fun c => .bind ((Draft.start c).follows_take (moves_mark _)) fun draft =>
    .bind (f := Cursor.move k) (.of_eq (upcoming?_move _)) fun inside =>
    .bind (draft.follows_take ?_) fun inner =>
    .bind (inner.follows_take (moves_mark _)) fun draft =>
    .ite ?_ (.bind (draft.follows_take (moves_mark _)) fun draft =>
      .bind (draft.follows_take (h .type)) fun draft => draft.follows_finish _)
    (.ite ?_ (draft.follows_finish _) (.ite ?_ (draft.follows_finish _) .none))
  · rw [Cursor.sees_move]
    split
    · exact moves_leadingComma h
    · exact h .typeParameters
  · exact Bool.eq_iff_iff.1 (isNext_move "->" draft.cursor)
  · simp [Draft.move, ← List.map_tail]
  · simp [Draft.move, ← List.map_tail, isTypeList_move]

theorem moves_typeField : Moves k (typeField d rules) (typeField d rules') := by
  intro c
  have hrest (draft : Draft) : Follows (moveRead k)
      (do
        let draft ← draft.take (mark ":")
        let draft ← draft.take (rules .type)
        draft.spill)
      (do
        let draft ← (draft.move k).take (mark ":")
        let draft ← draft.take (rules' .type)
        draft.spill) :=
    .bind (draft.follows_take (moves_mark _)) fun draft =>
    .bind (draft.follows_take (h .type)) fun draft => draft.follows_spill
  refine .ite (by simp) (.bind ((Draft.start c).follows_take fun c => ?_) hrest)
    (.bind ((Draft.start c).follows_take moves_name) hrest)
  exact .bind ((Draft.start c).follows_take (moves_mark _)) fun draft =>
    .bind (draft.follows_take (h .type)) fun draft =>
    .bind (draft.follows_take (moves_mark _)) fun draft => draft.follows_finish _

theorem moves_objectType : Moves k (objectType d rules) (objectType d rules') := by
  refine fun c => .bind ((Draft.start c).follows_take (moves_mark _)) fun draft =>
    .bind (draft.follows_takeIf (by simp) fun c => ?_) fun draft =>
    .bind (draft.follows_takeIf (by simp) (moves_mark _)) fun draft =>
    .bind (draft.follows_take (moves_mark _)) fun draft => draft.follows_finish _
  rw [Cursor.sees_move, seesTypedName_move]
  exact h (.separated _) c

theorem moves_typeArgument : Moves k (typeArgument rules) (typeArgument rules') := fun c =>
  .bind ((Draft.start c).follows_take (h .type)) fun draft =>
  .bind (draft.follows_takeIf (by simp) (moves_leaf (.text _))) fun draft => draft.follows_spill

omit h in
theorem moves_typeName : Moves k (typeName d) (typeName d) := fun c =>
  .bind ((Draft.start c).follows_take moves_name) fun draft =>
  .bind (draft.follows_takeIf (by simp) (moves_leaf (.text _))) fun draft => draft.follows_spill

theorem moves_genericTypeList : Moves k (genericTypeList rules) (genericTypeList rules') := fun c =>
  .bind ((Draft.start c).follows_take (moves_mark _)) fun draft =>
  .bind (draft.follows_take (h (.separated .typeName))) fun draft =>
  .bind (draft.follows_take (moves_mark _)) fun draft => draft.follows_finish _

theorem moves_simpleType : Moves k (simpleType d rules) (simpleType d rules') := fun c =>
  .ite (by simp) (moves_parenthesizedType h c) <| .ite (by simp) (moves_objectType h c) <|
  .ite (by simp)
    (.bind ((Draft.start c).follows_take (moves_mark _)) fun draft =>
      .bind (draft.follows_take (h .type)) fun draft => draft.follows_finish _) <|
  .ite (by simp)
    (.bind ((Draft.start c).follows_take (moves_leaf Lexeme.steady_string?)) fun draft =>
      draft.follows_finish _) <|
  .ite (by simp) (moves_word _ c) <| .ite (by simp)
    (.bind ((Draft.start c).follows_take
        (by rw [Lexeme.wordAt_move]; exact moves_keyword _)) fun draft => draft.follows_finish _)
    (moves_name c)

theorem moves_type : Moves k (type d rules) (type d rules') := by
  refine fun c => .bind (moves_simpleType h c) fun read => ?_
  obtain ⟨_ | ⟨left, _ | ⟨_, _⟩⟩, next⟩ := read
  · exact .none
  · exact h (.typeSuffixes left) next
  · exact .none

theorem moves_joinTypes (kind : NodeKind) (text : String) (left : Node) :
    Moves k (joinTypes d rules kind text left)
      (joinTypes d rules' kind text (left.move k)) := fun c =>
  .bind ((Draft.ofNode left c).follows_take (moves_mark _)) fun draft =>
  .bind (draft.follows_take (moves_simpleType h)) fun draft =>
  h.behind draft .typeSuffixes (fun _ => rfl) _

theorem moves_typeSuffixes (left : Node) :
    Moves k (typeSuffixes d rules left) (typeSuffixes d rules' (left.move k)) := fun c =>
  .bind (f := Cursor.move k) (.of_eq (upcoming?_move _)) fun next =>
  .ite (by simp)
    (.bind ((Draft.ofNode left c).follows_take (moves_mark _)) fun draft =>
      .bind (draft.follows_takeIf (by simp) (h (.separated .typeArgument))) fun draft =>
      .bind (draft.follows_take (moves_mark _)) fun draft =>
      h.behind draft .typeSuffixes (fun _ => rfl) _) <|
  .ite (by simp)
    (.bind ((Draft.ofNode left c).follows_take (moves_mark _)) fun draft =>
      h.behind draft .typeSuffixes (fun _ => rfl) _) <|
  .ite (by simp) (moves_joinTypes h _ _ left c) <| .ite (by simp) (moves_joinTypes h _ _ left c) <|
  .ite (by simp)
    (.bind ((Draft.ofNode left c).follows_take (moves_mark _)) fun draft =>
      .bind (draft.follows_take moves_name) fun draft =>
      h.behind draft .typeSuffixes (fun _ => rfl) _)
    (.some _)

end

/-! ## Expressions -/

theorem operatorAt?_move (c : Cursor) :
    operatorAt? d (c.move k) = (operatorAt? d c).map (Prod.map id (Cursor.move k)) := by
  simp only [operatorAt?, Lexeme.word?_move]
  cases Lexeme.word? d c with
  | some read =>
    simp only [Option.map_some, Option.map_map]
    rfl
  | none =>
    simp only [Option.map_none, Cursor.text?_move]
    induction d.markOperators with
    | nil => rfl
    | cons op rest ih =>
      simp only [List.findSome?_cons]
      cases c.text? op.text with
      | none => exact ih
      | some next => rfl

@[simp] theorem seesString_move (c : Cursor) : seesString d (c.move k) = seesString d c := by
  simp [seesString]

@[simp] theorem seesArguments_move (c : Cursor) :
    seesArguments d (c.move k) = seesArguments d c := by
  simp [seesArguments]

@[simp] theorem seesNumber_move (c : Cursor) : seesNumber (c.move k) = seesNumber c := by
  have hpoint := Steady.bind (.text ".") (.one Lexeme.isDigit) k c
  simp only [seesNumber, Cursor.char?_move, hpoint, Option.isSome_map]

theorem unaryAt?_move (c : Cursor) : unaryAt? d (c.move k) = unaryAt? d c := by
  simp [unaryAt?]

theorem moves_of_unaryAt? {operator : Reader} {c : Cursor} (h : unaryAt? d c = some operator) :
    Moves k operator operator := by
  simp only [unaryAt?] at h
  split at h
  · cases h
    exact moves_keyword _
  · obtain ⟨text, -, rfl⟩ := Option.map_eq_some_iff.1 h
    exact moves_mark text

theorem seesExpression_move (c : Cursor) : seesExpression d (c.move k) = seesExpression d c := by
  simp [seesExpression, Lexeme.word?_move, Option.any_map]

section
variable {rules rules' : Rules} (h : rules.Moves k rules')
include h

theorem moves_operators (level : Nat) (left : Node) :
    Moves k (operators d rules level left) (operators d rules' level (left.move k)) := by
  refine fun c => .bind (f := Cursor.move k) (.of_eq (upcoming?_move _)) fun next => ?_
  rw [operatorAt?_move]
  cases operatorAt? d next with
  | some found =>
    obtain ⟨op, behind⟩ := found
    refine .ite .rfl ?_ (.some _)
    rw [← Node.move_withRole]
    refine .bind ((Draft.ofNode _ c).follows_take fun c =>
        .ite (by simp) (moves_keyword _ c) (moves_mark _ c)) fun draft =>
      .bind (draft.follows_take (h (.expression _)).inRole) fun draft =>
      h.behind draft (.operators level) (fun _ => rfl) _
  | none =>
    exact .ite (by simp)
      (.bind ((Draft.ofNode left c).follows_take (moves_mark _)) fun draft =>
        .bind (draft.follows_take (h .type)) fun draft =>
        h.behind draft (.operators level) (fun _ => rfl) _)
      (.some _)

theorem moves_templateString : Moves k (templateString rules) (templateString rules') := fun c =>
  .bind (f := Cursor.move k) (.of_eq (Cursor.text?_move _ _)) fun inside =>
  .bind (f := moveRead k) (h .template inside) fun read => .of_eq <| by
    simp [moveRead, Node.move, Node.moveAll_eq_map]

theorem moves_template : Moves k (template rules) (template rules') := by
  intro c
  simp only [template, Cursor.dropWhile_move]
  refine .ite (by simp) (.of_eq ?_) <| .ite (by simp)
    (.bind (f := Cursor.move k) (.of_eq (Steady.bind (.text _) Lexeme.steady_luauEscape? k _))
      fun next => h .template next) <|
    .bind ((Draft.start _).follows_take (moves_mark _)) fun draft =>
    .bind (draft.follows_take (h (.expression 0))) fun draft =>
    .bind (draft.follows_take (moves_mark _)) fun draft =>
    .bind (f := moveRead k) (h .template draft.cursor) fun read => .of_eq ?_
  · simp only [Cursor.text?_move, Option.map_map]
    rfl
  · rw [Draft.toNode_move]
    rfl

theorem moves_string : Moves k (string d rules) (string d rules') := fun c =>
  .ite (by simp) (moves_templateString h c) (moves_leaf Lexeme.steady_string? c)

theorem moves_field : Moves k (field d rules) (field d rules') := by
  intro c
  have hvalue (draft : Draft) : Follows (moveRead k)
      (do
        let draft ← draft.take (rules (.expression 0))
        draft.finish .field)
      (do
        let draft ← (draft.move k).take (rules' (.expression 0))
        draft.finish .field) :=
    .bind (draft.follows_take (h (.expression 0))) fun draft => draft.follows_finish _
  refine .ite ?_
    (.bind ((Draft.start c).follows_take (moves_mark _)) fun draft =>
      .bind (draft.follows_take (h (.expression 0))) fun draft =>
      .bind (draft.follows_take (moves_mark _)) fun draft =>
      .bind (draft.follows_take (moves_mark _)) hvalue) <|
    .ite ?_
      (.bind ((Draft.start c).follows_take moves_name) fun draft =>
        .bind (draft.follows_take (moves_mark _)) hvalue)
      (.bind (.some _) hvalue)
  · simp [Lexeme.longOpen?_move]
  · rw [Lexeme.word?_move]
    cases Lexeme.word? d c with
    | none => rfl
    | some read => simp

theorem moves_fields : Moves k (fields d rules) (fields d rules') := by
  refine fun c => .bind ((Draft.start c).follows_take (moves_field h)) fun draft =>
    .bind (f := Cursor.move k) (.of_eq (upcoming?_move _)) fun next => .ite ?_
      (.bind (draft.follows_take ?_) fun draft =>
        .bind (draft.follows_takeIf (by simp) (h .fields)) fun draft => draft.follows_spill)
      draft.follows_spill
  · simp
  · rw [Cursor.sees_move]
    exact moves_mark _

theorem moves_table : Moves k (table rules) (table rules') := fun c =>
  .bind ((Draft.start c).follows_take (moves_mark _)) fun draft =>
  .bind (draft.follows_takeIf (by simp) (h .fields)) fun draft =>
  .bind (draft.follows_take (moves_mark _)) fun draft => draft.follows_finish _

theorem moves_arguments : Moves k (arguments d rules) (arguments d rules') := by
  refine fun c => .ite (by simp)
    (.bind ((Draft.start c).follows_take (moves_mark _)) fun draft =>
      .bind (draft.follows_takeIf (by simp) (h (.separated .expression))) fun draft =>
      .bind (draft.follows_take (moves_mark _)) fun draft => draft.follows_finish _) <|
    .bind ((Draft.start c).follows_take ?_) fun draft => draft.follows_finish _
  rw [Cursor.sees_move]
  split
  · exact moves_table h
  · exact moves_string h

theorem moves_suffixes (head : Node) :
    Moves k (suffixes d rules head) (suffixes d rules' (head.move k)) := by
  refine fun c => .bind (f := Cursor.move k) (.of_eq (upcoming?_move _)) fun next =>
    .ite (by simp)
      (.bind ((Draft.ofNode head c).follows_take (moves_mark _)) fun draft =>
        .bind (draft.follows_take moves_name) fun draft =>
        h.behind draft .suffixes (fun _ => rfl) _) <|
    .ite (by simp)
      (.bind ((Draft.ofNode head c).follows_take (moves_mark _)) fun draft =>
        .bind (draft.follows_take moves_name) fun draft => ?_) <|
    .ite (by simp)
      (.bind ((Draft.ofNode head c).follows_take (moves_arguments h)) fun draft =>
        h.behind draft .suffixes (fun _ => rfl) _) <|
    .ite (by simp)
      (.bind ((Draft.ofNode head c).follows_take (moves_mark _)) fun draft =>
        .bind (draft.follows_take (h (.expression 0))) fun draft =>
        .bind (draft.follows_take (moves_mark _)) fun draft =>
        h.behind draft .suffixes (fun _ => rfl) _)
      (.some _)
  rw [Draft.ofNode_move]
  exact .bind ((Draft.ofNode _ _).follows_take (moves_arguments h)) fun draft =>
    h.behind draft .suffixes (fun _ => rfl) _

theorem moves_prefixExpression :
    Moves k (prefixExpression d rules) (prefixExpression d rules') := by
  refine fun c => .ite (by simp)
    (.bind ((Draft.start c).follows_take (moves_mark _)) fun draft =>
      .bind (draft.follows_take (h (.expression 0))) fun draft =>
      .bind (draft.follows_take (moves_mark _)) fun draft =>
      h.behind draft .suffixes (fun _ => rfl) _) <|
    .bind ((Draft.start c).follows_take moves_name) fun draft => ?_
  obtain ⟨next, _ | ⟨head, _ | ⟨_, _⟩⟩⟩ := draft
  · exact .none
  · exact h (.suffixes head) next
  · exact .none

theorem moves_parameter : Moves k (parameter d rules) (parameter d rules') := by
  refine fun c => .bind ((Draft.start c).follows_take fun c =>
    .ite (by simp) (moves_leaf (.text _) c) (moves_name c)) fun draft => ?_
  cases d with
  | lua => exact draft.follows_spill
  | luau =>
    exact .bind (draft.follows_takeIf (by simp) fun c =>
        .bind ((Draft.start c).follows_take (moves_mark _)) fun draft =>
        .bind (draft.follows_take (h .type)) fun draft => draft.follows_spill)
      fun draft => draft.follows_finish _

theorem moves_parameters : Moves k (parameters rules) (parameters rules') := fun c =>
  .bind ((Draft.start c).follows_take (moves_mark _)) fun draft =>
  .bind (draft.follows_takeIf (by simp) (h (.separated .parameter))) fun draft =>
  .bind (draft.follows_take (moves_mark _)) fun draft => draft.follows_finish _

theorem follows_functionBody (draft : Draft) :
    Follows (Draft.move k) (functionBody d rules draft) (functionBody d rules' (draft.move k)) :=
  .bind (draft.follows_takeIf (by simp) (moves_genericTypeList h)) fun draft =>
  .bind (draft.follows_take (moves_parameters h).inRole) fun draft =>
  .bind (draft.follows_takeIf (by simp) fun c =>
    .bind ((Draft.start c).follows_take (moves_mark _)) fun draft =>
    .bind (draft.follows_take (h .type)) fun draft => draft.follows_spill) fun draft =>
  .bind (draft.follows_body h _) fun draft => draft.follows_take (moves_keyword _)

theorem moves_clauses : Moves k (clauses d rules) (clauses d rules') := by
  refine fun c => .ite (by simp)
    (.bind ((Draft.start c).follows_take (moves_keyword _)) fun draft =>
      .bind (draft.follows_take (h (.expression 0))) fun draft =>
      .bind (draft.follows_take (moves_keyword _)) fun draft =>
      .bind (draft.follows_take (h (.expression 0))) fun draft => ?_) <|
    .bind ((Draft.start c).follows_take (moves_keyword _)) fun draft =>
    .bind (draft.follows_take (h (.expression 0))) fun draft => draft.follows_finish _
  rw [Draft.ofNode_move]
  exact .bind ((Draft.ofNode _ _).follows_takeIf (by simp) (h .clauses)) fun draft =>
    draft.follows_spill

theorem moves_ifExpression : Moves k (ifExpression d rules) (ifExpression d rules') := fun c =>
  .bind ((Draft.start c).follows_take (moves_keyword _)) fun draft =>
  .bind (draft.follows_take (h (.expression 0))) fun draft =>
  .bind (draft.follows_take (moves_keyword _)) fun draft =>
  .bind (draft.follows_take (h (.expression 0))) fun draft =>
  .bind (draft.follows_takeIf (by simp) (h .clauses)) fun draft => draft.follows_finish _

theorem moves_simpleExpression :
    Moves k (simpleExpression d rules) (simpleExpression d rules') := fun c =>
  .ite (by simp) (moves_string h c) <| .ite (by simp) (moves_table h c) <|
  .ite (by simp) (moves_leaf (.text _) c) <| .ite (by simp) (moves_leaf Lexeme.steady_number? c) <|
  .ite (by simp) (moves_word _ c) <| .ite (by simp) (moves_word _ c) <|
  .ite (by simp) (moves_word _ c) <| .ite (by simp)
    (.bind ((Draft.start c).follows_take (moves_keyword _)) fun draft =>
      .bind (follows_functionBody h draft) fun draft => draft.follows_finish _) <|
  .ite (by simp) (moves_ifExpression h c) (moves_prefixExpression h c)

theorem moves_expression (level : Nat) :
    Moves k (expression d rules level) (expression d rules' level) := by
  intro c
  simp only [expression, unaryAt?_move]
  split
  · next hoperator =>
    exact .bind ((Draft.start c).follows_take (moves_of_unaryAt? hoperator)) fun draft =>
      .bind (draft.follows_take (h (.expression _))) fun draft =>
      h.behind draft (.operators level) (fun _ => rfl) _
  · refine .bind (moves_simpleExpression h c) fun read => ?_
    obtain ⟨_ | ⟨left, _ | ⟨_, _⟩⟩, next⟩ := read
    · exact .none
    · exact h (.operators level left) next
    · exact .none

end

/-! ## Statements -/

theorem seesStatement_move (closers : List String) (c : Cursor) :
    seesStatement d closers (c.move k) = seesStatement d closers c := by
  simp [seesStatement, Lexeme.word?_move, Option.any_map]

theorem seesAlternative_move (c : Cursor) : seesAlternative d (c.move k) = seesAlternative d c := by
  simp [seesAlternative]

@[simp] theorem isTarget_move (n : Node) : isTarget (n.move k) = isTarget n := by
  simp [isTarget]

section
variable {rules rules' : Rules} (h : rules.Moves k rules')
include h

theorem moves_returnStatement :
    Moves k (returnStatement d rules) (returnStatement d rules') := fun c =>
  .bind ((Draft.start c).follows_take (moves_keyword _)) fun draft =>
  .bind (draft.follows_takeIf seesExpression_move fun c =>
    .bind ((Draft.start c).follows_take (h (.separated .expression))) fun draft =>
    draft.follows_finish _) fun draft =>
  .bind (draft.follows_takeIf (by simp) (moves_mark _)) fun draft => draft.follows_finish _

theorem moves_block (closers : List String) :
    Moves k (block d rules closers) (block d rules' closers) := by
  refine fun c => .ite (by rw [seesStatement_move]) (.some _) <|
    .ite (by simp) (moves_returnStatement h c) <|
    .bind ((Draft.start c).follows_take (h .statement)) fun draft =>
    .bind (f := moveRead k) (.of_eq (Lexeme.trivia?_move _)) fun trivia =>
    .bind (f := moveRead k) (h (.block closers) trivia.2) fun more =>
    .ite ?_ draft.follows_spill (.of_eq ?_)
  · simp
  · simp [moveRead, Draft.move]

theorem moves_expressionList : Moves k (expressionList rules) (expressionList rules') := fun c =>
  .bind ((Draft.start c).follows_take (h (.separated .expression))) fun draft =>
  draft.follows_finish _

omit h in
theorem moves_labelStatement : Moves k (labelStatement d) (labelStatement d) := fun c =>
  .bind ((Draft.start c).follows_take (moves_mark _)) fun draft =>
  .bind (draft.follows_take moves_name) fun draft =>
  .bind (draft.follows_take (moves_mark _)) fun draft => draft.follows_finish _

omit h in
theorem moves_wordStatement (kind : NodeKind) (word : String) :
    Moves k (wordStatement d kind word) (wordStatement d kind word) := fun c =>
  .bind ((Draft.start c).follows_take (moves_keyword _)) fun draft => draft.follows_finish _

omit h in
theorem moves_gotoStatement : Moves k (gotoStatement d) (gotoStatement d) := fun c =>
  .bind ((Draft.start c).follows_take (moves_keyword _)) fun draft =>
  .bind (draft.follows_take moves_name) fun draft => draft.follows_finish _

theorem moves_doStatement : Moves k (doStatement d rules) (doStatement d rules') := fun c =>
  .bind ((Draft.start c).follows_take (moves_keyword _)) fun draft =>
  .bind (draft.follows_body h _) fun draft =>
  .bind (draft.follows_take (moves_keyword _)) fun draft => draft.follows_finish _

theorem moves_whileStatement :
    Moves k (whileStatement d rules) (whileStatement d rules') := fun c =>
  .bind ((Draft.start c).follows_take (moves_keyword _)) fun draft =>
  .bind (draft.follows_take (h (.expression 0)).inRole) fun draft =>
  .bind (draft.follows_take (moves_keyword _)) fun draft =>
  .bind (draft.follows_body h _) fun draft =>
  .bind (draft.follows_take (moves_keyword _)) fun draft => draft.follows_finish _

theorem moves_repeatStatement :
    Moves k (repeatStatement d rules) (repeatStatement d rules') := fun c =>
  .bind ((Draft.start c).follows_take (moves_keyword _)) fun draft =>
  .bind (draft.follows_body h _) fun draft =>
  .bind (draft.follows_take (moves_keyword _)) fun draft =>
  .bind (draft.follows_take (h (.expression 0)).inRole) fun draft => draft.follows_finish _

theorem moves_alternatives : Moves k (alternatives d rules) (alternatives d rules') := by
  refine fun c => .ite (by simp)
    (.bind ((Draft.start c).follows_take (moves_keyword _)) fun draft =>
      .bind (draft.follows_take (h (.expression 0))) fun draft =>
      .bind (draft.follows_take (moves_keyword _)) fun draft =>
      .bind (draft.follows_body h _) fun draft => ?_) <|
    .bind ((Draft.start c).follows_take (moves_keyword _)) fun draft =>
    .bind (draft.follows_body h _) fun draft => draft.follows_finish _
  rw [Draft.ofNode_move]
  exact .bind ((Draft.ofNode _ _).follows_takeIf seesAlternative_move (h .alternatives))
    fun draft => draft.follows_spill

theorem moves_ifStatement : Moves k (ifStatement d rules) (ifStatement d rules') := fun c =>
  .bind ((Draft.start c).follows_take (moves_keyword _)) fun draft =>
  .bind (draft.follows_take (h (.expression 0))) fun draft =>
  .bind (draft.follows_take (moves_keyword _)) fun draft =>
  .bind (draft.follows_body h _) fun draft =>
  .bind (draft.follows_takeIf seesAlternative_move (h .alternatives)) fun draft =>
  .bind (draft.follows_take (moves_keyword _)) fun draft => draft.follows_finish _

theorem moves_numericClause : Moves k (numericClause d rules) (numericClause d rules') := fun c =>
  .bind ((Draft.start c).follows_take moves_name) fun draft =>
  .bind (draft.follows_take (moves_mark _)) fun draft =>
  .bind (draft.follows_take (h (.expression 0))) fun draft =>
  .bind (draft.follows_take (moves_mark _)) fun draft =>
  .bind (draft.follows_take (h (.expression 0))) fun draft =>
  .bind (draft.follows_takeIf (by simp) fun c =>
    .bind ((Draft.start c).follows_take (moves_mark _)) fun draft =>
    .bind (draft.follows_take (h (.expression 0))) fun draft => draft.follows_spill) fun draft =>
  draft.follows_finish _

theorem moves_genericClause : Moves k (genericClause d rules) (genericClause d rules') := fun c =>
  .bind ((Draft.start c).follows_take fun c =>
    .bind ((Draft.start c).follows_take (h (.separated .binding))) fun draft =>
    draft.follows_finish _) fun draft =>
  .bind (draft.follows_take (moves_keyword _)) fun draft =>
  .bind (draft.follows_take (moves_expressionList h)) fun draft => draft.follows_finish _

theorem moves_forStatement : Moves k (forStatement d rules) (forStatement d rules') := fun c =>
  .bind ((Draft.start c).follows_take (moves_keyword _)) fun draft =>
  .bind (draft.follows_take fun c =>
    .ite (by simp [Lexeme.word?_move, Option.any_map]) (moves_numericClause h c)
      (moves_genericClause h c)) fun draft =>
  .bind (draft.follows_take (moves_keyword _)) fun draft =>
  .bind (draft.follows_body h _) fun draft =>
  .bind (draft.follows_take (moves_keyword _)) fun draft => draft.follows_finish _

theorem moves_functionName (head : Node) :
    Moves k (functionName d rules head) (functionName d rules' (head.move k)) := fun c =>
  .bind (f := Cursor.move k) (.of_eq (upcoming?_move _)) fun next =>
  .ite (by simp)
    (.bind ((Draft.ofNode head c).follows_take (moves_mark _)) fun draft =>
      .bind (draft.follows_take moves_name) fun draft =>
      h.behind draft .functionName (fun _ => rfl) _) <|
  .ite (by simp)
    (.bind ((Draft.ofNode head c).follows_take (moves_mark _)) fun draft =>
      .bind (draft.follows_take moves_name) fun draft => draft.follows_finish _)
    (.some _)

theorem moves_functionDeclaration :
    Moves k (functionDeclaration d rules) (functionDeclaration d rules') := by
  refine fun c => .bind ((Draft.start c).follows_take (moves_keyword _)) fun draft =>
    .bind (draft.follows_take fun c => .bind (moves_name c) fun read => ?_) fun draft =>
    .bind (follows_functionBody h draft) fun draft => draft.follows_finish _
  obtain ⟨_ | ⟨head, _ | ⟨_, _⟩⟩, next⟩ := read
  · exact .none
  · exact (h (.functionName head)).inRole next
  · exact .none

theorem moves_localFunction : Moves k (localFunction d rules) (localFunction d rules') := fun c =>
  .bind ((Draft.start c).follows_take (moves_keyword _)) fun draft =>
  .bind (draft.follows_take (moves_keyword _)) fun draft =>
  .bind (draft.follows_take moves_name.inRole) fun draft =>
  .bind (follows_functionBody h draft) fun draft => draft.follows_finish _

theorem moves_localVariables : Moves k (localVariables d rules) (localVariables d rules') := by
  refine fun c => .bind ((Draft.start c).follows_take (moves_keyword _)) fun draft =>
    .bind (draft.follows_take fun c =>
      .bind ((Draft.start c).follows_take (h (.separated .attributedName))) fun names => ?_)
    fun draft => draft.follows_finish _
  dsimp only
  rw [Draft.ofNode_move]
  exact .ite (Bool.eq_iff_iff.1 (isNext_move "=" _))
    (.bind ((Draft.ofNode _ _).follows_take (moves_mark _)) fun draft =>
      .bind (draft.follows_take (moves_expressionList h)) fun draft => draft.follows_finish _)
    (Draft.follows_spill _)

theorem moves_localDeclaration :
    Moves k (localDeclaration d rules) (localDeclaration d rules') := fun c =>
  .ite (by simp [Lexeme.word?_move, upcoming?_move, Option.any_map]) (moves_localFunction h c)
    (moves_localVariables h c)

theorem moves_typeDefinition :
    Moves k (typeDefinition d rules) (typeDefinition d rules') := fun c =>
  .bind ((Draft.start c).follows_takeIf (by simp) (moves_keyword _)) fun draft =>
  .bind (draft.follows_take (moves_keyword _)) fun draft =>
  .bind (draft.follows_take (h .type)) fun draft =>
  .bind (draft.follows_take (moves_mark _)) fun draft =>
  .bind (draft.follows_take fun c => .ite (by simp)
    (.bind ((Draft.start c).follows_take (moves_keyword _)) fun draft =>
      .bind (draft.follows_take (moves_mark _)) fun draft =>
      .bind (draft.follows_take (h (.expression 0))) fun draft =>
      .bind (draft.follows_take (moves_mark _)) fun draft => draft.follows_spill)
    (h .type c)) fun draft => draft.follows_finish _

theorem moves_target : Moves k (target d rules) (target d rules') := fun c =>
  .bind (moves_prefixExpression h c) fun read => .ite (by simp) (.some _) .none

theorem follows_targets (draft : Draft) :
    Follows (Draft.move k) (targets rules draft) (targets rules' (draft.move k)) :=
  .bind (draft.follows_takeIf (by simp) fun c =>
    .bind ((Draft.start c).follows_take (moves_mark _)) fun draft =>
    .bind (draft.follows_take (h (.separated .target))) fun draft => draft.follows_spill)
    fun draft => .of_eq (congrArg some (draft.ofNode_move _))

theorem moves_expressionStatement :
    Moves k (expressionStatement d rules) (expressionStatement d rules') := by
  refine fun c => .bind (moves_prefixExpression h c) fun read => ?_
  obtain ⟨_ | ⟨head, _ | ⟨_, _⟩⟩, next⟩ := read
  · exact .none
  · refine .ite (by simp) (.bind (follows_targets h (Draft.ofNode head next)) fun list =>
      .bind (f := Cursor.move k) (.of_eq (upcoming?_move _)) fun behind => ?_)
      (.ite (by simp) (.some _) .none)
    simp only [Cursor.sees_move]
    split
    · exact .bind (list.follows_take (moves_mark _)) fun draft =>
        .bind (draft.follows_take (moves_expressionList h)) fun draft => draft.follows_finish _
    · exact .bind (list.follows_take (moves_mark _)) fun draft =>
        .bind (draft.follows_take (moves_expressionList h)) fun draft => draft.follows_finish _
  · exact .none

theorem moves_statement : Moves k (statement d rules) (statement d rules') := by
  refine fun c => .ite (by simp)
    (.bind ((Draft.start c).follows_take (moves_mark _)) fun draft => draft.follows_finish _) <|
    .ite (by simp) (moves_labelStatement c) ?_
  dsimp only
  rw [Lexeme.wordAt_move]
  exact .ite .rfl (moves_expressionStatement h c) <| .ite .rfl (moves_wordStatement _ _ c) <|
    .ite .rfl (moves_wordStatement _ _ c) <| .ite .rfl (moves_gotoStatement c) <|
    .ite .rfl (moves_doStatement h c) <| .ite .rfl (moves_whileStatement h c) <|
    .ite .rfl (moves_repeatStatement h c) <| .ite .rfl (moves_ifStatement h c) <|
    .ite .rfl (moves_forStatement h c) <| .ite .rfl (moves_functionDeclaration h c) <|
    .ite .rfl (moves_localDeclaration h c) (moves_typeDefinition h c)

theorem moves_binding : Moves k (binding d rules) (binding d rules') := fun c =>
  .bind ((Draft.start c).follows_take moves_name) fun draft =>
  .bind (draft.follows_takeIf (by simp) fun c =>
    .bind ((Draft.start c).follows_take (moves_mark _)) fun draft =>
    .bind (draft.follows_take (h .type)) fun draft => draft.follows_spill) fun draft =>
  draft.follows_spill

theorem moves_attributedName :
    Moves k (attributedName d rules) (attributedName d rules') := fun c =>
  .bind ((Draft.start c).follows_take (moves_binding h)) fun draft =>
  .bind (draft.follows_takeIf (by simp) fun c =>
    .bind ((Draft.start c).follows_take (moves_mark _)) fun draft =>
    .bind (draft.follows_take moves_name) fun draft =>
    .bind (draft.follows_take (moves_mark _)) fun draft => draft.follows_finish _) fun draft =>
  draft.follows_spill

theorem moves_item (which : Item) : Moves k (item d rules which) (item d rules' which) := by
  cases which with
  | expression => exact h (.expression 0)
  | target => exact moves_target h
  | name => exact moves_name
  | attributedName => exact moves_attributedName h
  | binding => exact moves_binding h
  | parameter => exact moves_parameter h
  | type => exact h .type
  | typeArgument => exact moves_typeArgument h
  | typeField => exact moves_typeField h
  | typeName => exact moves_typeName

omit h in
theorem goesOn_move (which : Item) (read : List Node) (c : Cursor) :
    goesOn d which (read.map (Node.move k)) (c.move k) = goesOn d which read c := by
  have hclosed : ((c.move k).text? ",").bind upcoming?
      = (((c.text? ",").bind upcoming?).map (Cursor.move k)) :=
    Steady.bind (.text ",") (fun _ => upcoming?_move) k c
  cases which with
  | parameter => simp [goesOn, List.any_map, Function.comp_def]
  | type | typeField => simp only [goesOn, hclosed, Cursor.sees_move, Option.any_map]
  | _ => exact Cursor.sees_move "," c

theorem moves_separated (which : Item) :
    Moves k (separated d rules which) (separated d rules' which) := fun c =>
  .bind ((Draft.start c).follows_take (moves_item h which)) fun draft =>
  .bind (draft.follows_takeIf (goesOn_move which draft.children) fun c =>
    .bind ((Draft.start c).follows_take (moves_mark _)) fun draft =>
    .bind (draft.follows_take (h (.separated which))) fun draft => draft.follows_spill) fun draft =>
  draft.follows_spill

/-- The rule of a goal reads alike if the rules that it asks do. -/
theorem moves_rule (goal : Goal) : Moves k (rule d rules goal) (rule d rules' (goal.move k)) := by
  cases goal with
  | block closers => exact moves_block h closers
  | statement => exact moves_statement h
  | alternatives => exact moves_alternatives h
  | functionName head => exact moves_functionName h head
  | separated which => exact moves_separated h which
  | expression level => exact moves_expression h level
  | operators level left => exact moves_operators h level left
  | suffixes head => exact moves_suffixes h head
  | fields => exact moves_fields h
  | template => exact moves_template h
  | clauses => exact moves_clauses h
  | type => exact moves_type h
  | typeSuffixes left => exact moves_typeSuffixes h left
  | typeParameters => exact moves_typeParameters h

end

/-- What is read within a depth is read within every greater depth, and further on. -/
theorem moves_rules {depth depth' : Nat} (hdepth : depth ≤ depth') :
    (rules d depth).Moves k (rules d depth') := by
  induction depth generalizing depth' with
  | zero => exact fun _ _ => .none
  | succ depth ih =>
    obtain ⟨larger, rfl⟩ := Nat.exists_eq_add_of_lt (Nat.lt_of_succ_le hdepth)
    exact moves_rule (ih (Nat.le_add_right depth larger))

end Grammar

end LuaCoverage.Lua
