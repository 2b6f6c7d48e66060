import LuaCoverage.Proofs.Instrument.Woven.Lists

/-!
# Statements in a woven source

The rules for statements weave if the rules for blocks and expressions do. A rule that decides by
what comes next, such as the two kinds of `for` or a declaration with or without values, decides the
same in the result, for the sites that may stand there look like neither.

Results:
* `weaves_whileStatement`, `weaves_repeatStatement`, `weaves_forStatement`: loops.
* `weaves_functionDeclaration`, `weaves_localDeclaration`: declarations.
* `weaves_expressionStatement`, `weaves_returnStatement`: all others.
-/

namespace LuaCoverage.Instrument
open LuaCoverage.Lua LuaCoverage.Text LuaCoverage.Lua.Cursor LuaCoverage.Lua.Grammar
open LuaCoverage.Analysis

variable {w : Writing} {depth : Nat}

/-! ## Statements that are nodes -/

/-- A node may stand where a statement does. -/
theorem Weaves.statement {read : Reader} {read' : Nat → Reader} {follow : Sight}
    (h : Weaves w (.node none (none, false) follow) read read') :
    Weaves w { Manner.statement with follow := follow } read read' := by
  refine h.mono (fun _ => id) nofun (Sight.within_refl _) rfl (fun c nodes n _ hspans => ?_)
    fun _ _ _ => trivial
  obtain ⟨x, rfl, hstart, -, -, hkind⟩ := hspans
  exact ⟨x, rfl, hstart, ne_comment_of_isOrdinary hkind, .inl (isWalked_of_isOrdinary hkind)⟩

theorem placesIn_leaf {kind : NodeKind} {role : Option Role} {start stop : Nat}
    (h : isPlain kind = true) : placesIn false [.mk kind role start stop []] = [] := by
  simp [placesIn_cons, places_of_isPlain h]

/-- A statement that the walk passes over may stand where it starts with a blunt lexeme. -/
theorem continues_passed {c0 : Cursor} {draft : Draft} {same : List Node → List Node → Prop}
    {kind : NodeKind} (hkind : kind = .labelStatement ∨ kind = .emptyStatement)
    (hblunt : isBlunt c0 = true) (hplaces : placesIn false draft.children = []) :
    Continues w .statement c0 (.behind true) [] same draft (Draft.finish kind)
      fun _ => Draft.finish kind := by
  have hcomment : kind ≠ .comment := by rcases hkind with rfl | rfl <;> simp
  refine .result (p := .statement)
    (fun hbegun => ⟨⟨_, rfl, hbegun.first, hcomment, .inr hblunt⟩, _, [], rfl, hbegun.first⟩) ?_
    fun _ halike _ => ⟨halike.node hcomment .., trivial⟩
  have hwalked : isWalked (draft.toNode kind) = false := by rcases hkind with rfl | rfl <;> rfl
  rw [hplaces, placesIn_cons, hwalked]
  exact .refl _

theorem isBlunt_of_sees {c : Cursor} {text : String} (hsees : c.sees text = true)
    (h : isBluntText text = true) : isBlunt c = true := by
  obtain ⟨n, hn⟩ := Option.isSome_iff_exists.1 hsees
  exact isBlunt_of_text? hn h

theorem weaves_emptyStatement : WeavesIf w (fun c => c.sees ";" = true) .statement
    (fun c => (Draft.start c).take (mark ";") >>= Draft.finish .emptyStatement)
    fun _ c => (Draft.start c).take (mark ";") >>= Draft.finish .emptyStatement := by
  refine .start ((weaves_mark (by decide)).weaken _) (Sight.within_all _) rfl nofun
    fun c nodes next hsees hpost _ => continues_passed (.inr rfl) ?_ ?_
  · exact isBlunt_of_sees hsees (by decide)
  · rw [hpost]
    exact placesIn_leaf rfl

theorem labelStatement_eq : labelStatement .lua = fun c =>
    (Draft.start c).take (mark "::") >>= fun draft => draft.take (name .lua) >>= fun draft =>
      draft.take (mark "::") >>= Draft.finish .labelStatement := rfl

theorem weaves_labelStatement : WeavesIf w (fun c => c.sees "::" = true) .statement
    (labelStatement .lua) fun _ => labelStatement .lua := by
  rw [labelStatement_eq]
  refine .start ((weaves_mark (by decide)).weaken _) (Sight.within_all _) rfl nofun
    fun c nodes next hsees hpost _ => .take weaves_name (Sight.within_all _)
      fun comments u nodes' next' hcomments hpost' _ _ => .take (weaves_mark (by decide))
        (Sight.within_all _) fun comments' u' nodes'' next'' hcomments' hpost'' _ _ =>
          continues_passed (.inl rfl) ?_ ?_
  · exact isBlunt_of_sees hsees (by decide)
  · have hmark (o e : Nat) : placesIn false [.mk (.token "::") none o e []] = [] := placesIn_leaf rfl
    have hname (o e : Nat) : placesIn false [.mk .identifier none o e []] = [] := placesIn_leaf rfl
    obtain rfl : nodes = _ := hpost
    obtain rfl : nodes' = _ := hpost'
    obtain rfl : nodes'' = _ := hpost''
    simp only [placesIn_append, placesIn_comments hcomments, placesIn_comments hcomments', hmark,
      hname, List.append_nil]

theorem weaves_wordStatement {kind : NodeKind} (word : String)
    (hkind : isOrdinary kind = true ∧ isPlain kind = true) :
    Weaves w .statement (wordStatement .lua kind word) fun _ => wordStatement .lua kind word :=
  Weaves.statement (.start (weaves_keyword word) (Sight.within_all _) rfl nofun fun _ _ _ _ _ =>
    .finish hkind)

theorem weaves_gotoStatement : Weaves w .statement (gotoStatement .lua) fun _ => gotoStatement .lua :=
  Weaves.statement (.start (weaves_keyword "goto") (Sight.within_all _) rfl nofun fun _ _ _ _ _ =>
    .take weaves_name (Sight.within_all _) fun _ _ _ _ _ _ _ _ => .finish (by decide))

/-! ## Loops -/

theorem weaves_doStatement (hblock : BlockWeaves w depth ["end"]) :
    Weaves w .statement (doStatement .lua (rules .lua depth))
      fun b => doStatement .lua (rules .lua (depth + b)) :=
  Weaves.statement (.start (weaves_keyword "do") (Sight.within_refl _) rfl nofun fun _ _ _ _ _ =>
    .body false hblock (by decide) (weaves_keyword "end") rfl (Sight.within_all _)
      fun _ _ _ _ _ _ _ _ _ _ => .finish (by decide))

/-- The condition of a loop, with a call around it. -/
theorem weaves_condition (henters : Enters w depth) :
    Weaves w (.expression (some .condition) 0 true true)
      (inRole .condition (rules .lua depth (.expression 0)))
      fun b => inRole .condition (rules .lua (depth + b) (.expression 0)) :=
  weaves_expression_inRole .condition (henters.weaves_wrapped 0)

/-- The places of a condition: of the one child in that role. -/
theorem conditionPlaces_of_children {n x : Node} (word : String) (hx : x.role = some .condition)
    (hmem : x ∈ n.children) (h : ∀ a ∈ n.children, a = x ∨ a.role ≠ some .condition) :
    conditionPlaces word n = wraps true [x] := by
  have hfind : n.childInRole? .condition = some x := by
    cases hfound : n.childInRole? .condition with
    | none => exact absurd (List.find?_eq_none.1 hfound x hmem) (by simp [hx])
    | some a =>
      have hrole : a.role = some .condition := by simpa using List.find?_some hfound
      rw [(h a (List.mem_of_find?_eq_some hfound)).resolve_right (not_not_intro hrole)]
  rw [conditionPlaces, hfind]
  simp [wraps]

theorem role_ne_of_comments {comments : List Node} (h : Lexeme.AreComments comments) (role : Role)
    (x : Node) : ∀ a ∈ comments, a = x ∨ a.role ≠ some role :=
  fun a ha => .inr (by simp [(h a ha).2])

theorem IsBody.role_ne {start stop : Nat} {body : List Node} (h : IsBody start stop body)
    {role : Role} (hrole : role ≠ .body) (x : Node) : ∀ a ∈ body, a = x ∨ a.role ≠ some role := by
  rcases h with rfl | ⟨comments, y, rfl, hcomments, -, hy, -⟩
  · simp
  · refine List.forall_mem_append.2 ⟨role_ne_of_comments hcomments role x, fun a ha => .inr ?_⟩
    rw [List.mem_singleton.1 ha, hy]
    exact fun heq => hrole (Option.some.inj heq).symm

theorem role_ne_of_leaf {c n : Cursor} {nodes : List Node} {kind : NodeKind}
    (h : nodes = [.mk kind none c.offset n.offset []]) (role : Role) (x : Node) :
    ∀ a ∈ nodes, a = x ∨ a.role ≠ some role := by
  rw [h]
  simp [Node.role]

theorem whileStatement_eq (table : Rules) : whileStatement .lua table = fun c =>
    (Draft.start c).take (keyword .lua "while") >>= fun draft =>
      draft.take (inRole .condition (table (.expression 0))) >>= fun draft =>
        draft.take (keyword .lua "do") >>= fun draft => draft.body table ["end"] >>= fun draft =>
          draft.take (keyword .lua "end") >>= Draft.finish .whileStatement := rfl

theorem weaves_whileStatement (henters : Enters w depth) (hblock : BlockWeaves w depth ["end"]) :
    Weaves w .statement (whileStatement .lua (rules .lua depth))
      fun b => whileStatement .lua (rules .lua (depth + b)) := by
  simp only [whileStatement_eq]
  refine Weaves.statement (.start (weaves_keyword "while") (Sight.within_all _) rfl nofun
    fun _ _ _ hwhile _ => .take (weaves_condition henters) (Sight.blunt_within _)
      fun _ _ _ _ hcomments hcondition _ _ => .take (weaves_keyword "do") (Sight.within_refl _)
        fun _ _ _ _ hmore hdo _ _ => .body false hblock (by decide) (weaves_keyword "end") rfl
          (Sight.within_all _) fun _ _ _ _ _ hbody hlast hend _ _ => .finishOf rfl ?_)
  obtain ⟨⟨x, rfl, -, -, hrole, -⟩, -⟩ := hcondition
  refine .of_eq (Eq.trans ?_ (conditionPlaces_of_children "while" hrole ?_ ?_).symm)
  · simp [markPlaces, Manner.expression, Manner.leaf]
  · simp [Draft.toNode, Node.children]
  · simp only [Draft.toNode, Node.children, List.forall_mem_append]
    exact ⟨⟨⟨⟨⟨⟨⟨role_ne_of_leaf hwhile _ _, role_ne_of_comments hcomments _ _⟩, by simp⟩,
      role_ne_of_comments hmore _ _⟩, role_ne_of_leaf hdo _ _⟩, hbody.role_ne (by simp) _⟩,
      role_ne_of_comments hlast _ _⟩, role_ne_of_leaf hend _ _⟩

theorem repeatStatement_eq (table : Rules) : repeatStatement .lua table = fun c =>
    (Draft.start c).take (keyword .lua "repeat") >>= fun draft =>
      draft.body table ["until"] >>= fun draft => draft.take (keyword .lua "until") >>= fun draft =>
        draft.take (inRole .condition (table (.expression 0))) >>=
          Draft.finish .repeatStatement := rfl

theorem weaves_repeatStatement (henters : Enters w depth) (hblock : BlockWeaves w depth ["until"]) :
    Weaves w .statement (repeatStatement .lua (rules .lua depth))
      fun b => repeatStatement .lua (rules .lua (depth + b)) := by
  simp only [repeatStatement_eq]
  refine Weaves.statement (.start (weaves_keyword "repeat") (Sight.within_refl _) rfl nofun
    fun _ _ _ hrepeat _ => .body false hblock (by decide) (weaves_keyword "until") rfl
      (Sight.within_all _) fun _ _ _ _ _ hbody hlast huntil _ _ =>
        .take (weaves_condition henters) (Sight.within_refl _)
          fun _ _ _ _ hcomments hcondition _ _ => .finishOf rfl ?_)
  obtain ⟨⟨x, rfl, -, -, hrole, -⟩, -⟩ := hcondition
  refine .of_eq (Eq.trans ?_ (conditionPlaces_of_children "until" hrole ?_ ?_).symm)
  · simp [markPlaces, Manner.expression, Manner.leaf]
  · simp [Draft.toNode, Node.children]
  · simp only [Draft.toNode, Node.children, List.forall_mem_append]
    exact ⟨⟨⟨⟨⟨role_ne_of_leaf hrepeat _ _, hbody.role_ne (by simp) _⟩,
      role_ne_of_comments hlast _ _⟩, role_ne_of_leaf huntil _ _⟩, role_ne_of_comments hcomments _ _⟩,
      by simp⟩

/-- Whether a name with an equals sign behind it stands where a loop has its clause. -/
def isNumeric (c : Cursor) : Bool := (Lexeme.word? .lua c).any fun (_, next) => isNext "=" next

def bindings (table : Rules) : Reader := fun c =>
  (Draft.start c).take (table (.separated .binding)) >>= Draft.finish .variableList

theorem genericClause_eq (table : Rules) : genericClause .lua table = fun c =>
    (Draft.start c).take (bindings table) >>= fun draft => draft.take (keyword .lua "in") >>=
      fun draft => draft.take (expressionList table) >>= Draft.finish .forGenericClause := rfl

/-- The last value of a numeric clause. -/
def stepValue (table : Rules) : Reader := fun c =>
  (Draft.start c).take (mark ",") >>= fun draft => draft.take (table (.expression 0)) >>= Draft.spill

theorem numericClause_eq (table : Rules) : numericClause .lua table = fun c =>
    (Draft.start c).take (name .lua) >>= fun draft => draft.take (mark "=") >>= fun draft =>
      draft.take (table (.expression 0)) >>= fun draft => draft.take (mark ",") >>= fun draft =>
        draft.take (table (.expression 0)) >>= fun draft =>
          draft.takeIf (Cursor.sees ",") (stepValue table) >>= Draft.finish .forNumericClause := rfl

theorem forStatement_eq (table : Rules) : forStatement .lua table = fun c =>
    (Draft.start c).take (keyword .lua "for") >>= fun draft =>
      draft.take (fun c => if isNumeric c then numericClause .lua table c
        else genericClause .lua table c) >>= fun draft =>
          draft.take (keyword .lua "do") >>= fun draft => draft.body table ["end"] >>= fun draft =>
            draft.take (keyword .lua "end") >>= Draft.finish .forStatement := rfl

theorem weaves_expressionList (hitems : GoalWeaves w depth .items (.separated .expression)) :
    Weaves w (.node none (some .opener, false) (.behind true)) (expressionList (rules .lua depth))
      fun b => expressionList (rules .lua (depth + b)) :=
  .start hitems (Sight.within_refl _) rfl nofun fun _ _ _ _ _ => .finish (by decide)

theorem weaves_numericClause (hexpression : GoalWeaves w depth .value (.expression 0)) :
    Weaves w (.node none (none, false) (.behind true)) (numericClause .lua (rules .lua depth))
      fun b => numericClause .lua (rules .lua (depth + b)) := by
  have hstep : Weaves w (.list (none, true) (.behind true)) (stepValue (rules .lua depth))
      fun b => stepValue (rules .lua (depth + b)) :=
    .start (weaves_mark (by decide)) (Sight.within_all _) rfl (fun _ => rfl) fun _ _ _ _ _ =>
      .take hexpression (Sight.within_refl _) fun _ _ _ _ _ _ _ _ => .spill
  simp only [numericClause_eq]
  exact .start weaves_name (Sight.within_all _) rfl nofun fun _ _ _ _ _ =>
    .assign (readsValue_expression depth 0) (Sight.within_all _) fun _ _ _ _ _ _ _ _ =>
      .take hexpression (Sight.blunt_within _) fun _ _ _ _ _ _ _ _ =>
        .take (weaves_mark (by decide)) (Sight.within_all _) fun _ _ _ _ _ _ _ _ =>
          .take hexpression (Sight.or_within (Sight.blunt_within _) (Sight.within_refl _))
            fun _ _ _ _ _ _ _ _ => .takeIf hstep (fails_sees rfl (by decide) (by decide))
              (holds_of_intact (sees_intact rfl)) (Sight.within_refl _) (.finish (by decide))
              fun _ _ _ _ _ _ _ _ => .finish (by decide)

theorem weaves_genericClause
    (hbindings : GoalWeaves w depth (.list (none, false) .all) (.separated .binding))
    (hitems : GoalWeaves w depth .items (.separated .expression)) :
    Weaves w (.node none (none, false) (.behind true)) (genericClause .lua (rules .lua depth))
      fun b => genericClause .lua (rules .lua (depth + b)) := by
  have hlist : Weaves w (.node none (none, false) .all) (bindings (rules .lua depth))
      fun b => bindings (rules .lua (depth + b)) :=
    .start hbindings (Sight.within_refl _) rfl nofun fun _ _ _ _ _ => .finish (by decide)
  simp only [genericClause_eq]
  exact .start hlist (Sight.within_all _) rfl nofun fun _ _ _ _ _ =>
    .take (weaves_keyword "in") (Sight.within_all _) fun _ _ _ _ _ _ _ _ =>
      .take (weaves_expressionList hitems) (Sight.within_refl _) fun _ _ _ _ _ _ _ _ =>
        .finish (by decide)

/-- A numeric clause is one in the result. -/
theorem isNumeric_of_numericClause {table : Rules} {e : Cursor} {r : List Node × Cursor}
    (he : Lexeme.trivia? e = some ([], e)) (h : numericClause .lua table e = some r) :
    isNumeric e = true := by
  rw [numericClause_eq] at h
  obtain ⟨nodes, n, hname, hrest⟩ := take_start he h
  obtain ⟨next, hnext, heq⟩ := Option.map_eq_some_iff.1 hname
  obtain ⟨-, rfl⟩ := Prod.mk.inj heq
  obtain ⟨word, hword, rfl⟩ := Option.map_eq_some_iff.1 hnext
  obtain ⟨draft, htake, -⟩ := Option.bind_eq_some_iff.1 hrest
  obtain ⟨comments, u, token, m, htrivia, hmark, -⟩ := take_eq_some htake
  have hupcoming : upcoming? word.2 = some u := Option.map_eq_some_iff.2 ⟨_, htrivia, rfl⟩
  simp [isNumeric, hword, isNext, hupcoming, mark_sees hmark]

/-- No generic clause starts with a name and an equals sign. -/
theorem isNumeric_of_genericClause {e : Cursor} {r : List Node × Cursor}
    (he : Lexeme.trivia? e = some ([], e))
    (h : genericClause .lua (rules .lua depth) e = some r) : isNumeric e = false := by
  rw [genericClause_eq] at h
  obtain ⟨lists, n, hbindings, hrest⟩ := take_start he h
  obtain ⟨items, n', hitems, hfinish⟩ := take_start he hbindings
  obtain ⟨-, rfl⟩ : _ ∧ n' = n := by simpa [Draft.finish] using hfinish
  cases depth with
  | zero => cases hitems
  | succ depth =>
    obtain ⟨first, m, hfirst, hmore⟩ := take_start he hitems
    obtain ⟨names, m', hname, hspill⟩ := take_start he hfirst
    obtain ⟨next, hnext, heq⟩ := Option.map_eq_some_iff.1 hname
    obtain ⟨-, rfl⟩ := Prod.mk.inj heq
    obtain ⟨⟨word, next⟩, hword, rfl⟩ := Option.map_eq_some_iff.1 hnext
    by_contra hnumeric
    have hnext : isNext "=" next = true := by simpa [isNumeric, hword] using hnumeric
    cases hu : upcoming? next with
    | none => simp [isNext, hu] at hnext
    | some u =>
      have hsees : u.sees "=" = true := by simpa [isNext, hu] using hnext
      have hchar : u.char? = some '=' := char?_of_sees rfl hsees
      have hcomma : u.sees "," = false := sees_eq_false _ (t := ',') rfl (by simp [hchar])
      obtain ⟨rfl, rfl⟩ : names = first ∧ next = m := by
        simpa [Draft.takeIf, Draft.spill, hu] using hspill
      obtain ⟨-, rfl⟩ : _ ∧ next = n' := by
        simpa [Draft.takeIf, Draft.spill, hu, goesOn, hcomma] using hmore
      obtain ⟨draft, htake, -⟩ := Option.bind_eq_some_iff.1 hrest
      obtain ⟨comments, u', token, n, htrivia, hkeyword, -⟩ := take_eq_some htake
      have hu' : upcoming? next = some u' := Option.map_eq_some_iff.2 ⟨_, htrivia, rfl⟩
      obtain rfl : u = u' := Option.some.inj (hu.symm.trans hu')
      have hnone : Lexeme.word? .lua u = none := by
        rw [Lexeme.word?_eq_none_iff, hchar]
        decide
      rw [keyword, hnone] at hkeyword
      cases hkeyword

theorem weaves_forStatement (hexpression : GoalWeaves w depth .value (.expression 0))
    (hbindings : GoalWeaves w depth (.list (none, false) .all) (.separated .binding))
    (hitems : GoalWeaves w depth .items (.separated .expression))
    (hblock : BlockWeaves w depth ["end"]) :
    Weaves w .statement (forStatement .lua (rules .lua depth))
      fun b => forStatement .lua (rules .lua (depth + b)) := by
  have hclause : Weaves w (.node none (none, false) (.behind true)) (fun c =>
      if isNumeric c then numericClause .lua (rules .lua depth) c
      else genericClause .lua (rules .lua depth) c) fun b c =>
      if isNumeric c then numericClause .lua (rules .lua (depth + b)) c
      else genericClause .lua (rules .lua (depth + b)) c := by
    refine .ite (fun j l b nodes hstarts _ _ hread => ?_) (fun j l b nodes hstarts _ _ hread => ?_)
      ((weaves_numericClause hexpression).weaken _) ((weaves_genericClause hbindings hitems).weaken _)
    · exact isNumeric_of_numericClause hstarts.trivia?_entry hread
    · rw [Bool.not_eq_true']
      exact isNumeric_of_genericClause hstarts.trivia?_entry hread
  simp only [forStatement_eq]
  exact Weaves.statement (.start (weaves_keyword "for") (Sight.within_all _) rfl nofun
    fun _ _ _ _ _ => .take hclause (Sight.blunt_within _) fun _ _ _ _ _ _ _ _ =>
      .take (weaves_keyword "do") (Sight.within_refl _) fun _ _ _ _ _ _ _ _ =>
        .body false hblock (by decide) (weaves_keyword "end") rfl (Sight.within_all _)
          fun _ _ _ _ _ _ _ _ _ _ => .finish (by decide))

/-! ## Functions -/

section
variable {p : Manner} {c0 : Cursor} {follow : Sight} {extra : List Spot}
  {same : List Node → List Node → Prop} {draft : Draft} {k : Draft → Read} {k' : Nat → Draft → Read}

/-- A rule continues with a mark and a name. -/
theorem Continues.markName {text : String} {t : Char} (htext : text.toList = [t])
    (ht : Dialect.lua.isNameStart t = false)
    (hk : ∀ nodes next, Continues w p c0 follow extra AnyKinds ⟨next, draft.children ++ nodes⟩ k k') :
    Continues w p c0 ⟨[], false⟩ extra same draft
      (fun draft => draft.take (mark text) >>= fun draft => draft.take (name .lua) >>= k)
      fun b draft => draft.take (mark text) >>= fun draft => draft.take (name .lua) >>= k' b := by
  refine .takeOf (weavesIf_mark htext ht) (fun u r hu hr => ?_) (Sight.within_all ⟨[], true⟩)
    fun comments u nodes next _ _ _ _ => .take weaves_name (Sight.within_all follow)
      fun comments' u' nodes' next' _ _ _ _ => ?_
  · obtain ⟨draft', htake, hrest⟩ := Option.bind_eq_some_iff.1 hr
    obtain ⟨comments, u', token, next, htrivia, hmark, rfl⟩ := take_eq_some htake
    obtain rfl : u = u' := by
      rw [upcoming?, htrivia] at hu
      exact (Option.some.inj hu).symm
    obtain ⟨draft'', htake', -⟩ := Option.bind_eq_some_iff.1 hrest
    obtain ⟨comments', e, names, n, htrivia', hname, -⟩ := take_eq_some htake'
    obtain ⟨n', hn', -⟩ := Option.map_eq_some_iff.1 hname
    obtain ⟨word, hword, -⟩ := Option.map_eq_some_iff.1 hn'
    refine sees_pairs_of_char? htext hmark htrivia' fun second hsecond hchar => ?_
    have hstart : Dialect.lua.isNameStart second = false := by
      simp only [List.mem_cons, List.not_mem_nil, or_false] at hsecond
      rcases hsecond with rfl | rfl | rfl <;> decide
    rw [Lexeme.word?_eq_none_iff.2 (by simp [hchar, hstart])] at hword
    cases hword
  · have h := hk (comments ++ nodes ++ comments' ++ nodes') next'
    simpa only [List.append_assoc, Manner.leaf, List.append_nil] using h

end

/-- Goes on with what may follow the first name in the name of a function. -/
def functionNamed (table : Rules) (draft : Draft) : Read :=
  match draft.children with
  | [head] => table (.functionName head) draft.cursor
  | _ => none

def fieldNamed (table : Rules) (draft : Draft) : Read :=
  draft.take (mark ".") >>= fun draft => draft.take (name .lua) >>= fun draft =>
    functionNamed table (.ofNode (draft.toNode .dotIndex) draft.cursor)

def methodNamed (draft : Draft) : Read :=
  draft.take (mark ":") >>= fun draft => draft.take (name .lua) >>= Draft.finish .methodIndex

def methodNamedOr (draft : Draft) : Read :=
  upcoming? draft.cursor >>= fun u => if u.sees ":" then methodNamed draft else draft.spill

def fieldNamedOr (table : Rules) (draft : Draft) : Read :=
  upcoming? draft.cursor >>= fun u =>
    if u.sees "." then fieldNamed table draft else methodNamedOr draft

theorem functionNamed_rule (draft : Draft) {head : Node} (h : draft.children = [head]) :
    functionNamed (rules .lua (depth + 1)) draft = fieldNamedOr (rules .lua depth) draft := by
  obtain ⟨c, children⟩ := draft
  obtain rfl := h
  have hrule : functionNamed (rules .lua (depth + 1)) ⟨c, [head]⟩
      = functionName .lua (rules .lua depth) head c := rfl
  rw [hrule, functionName, fieldNamedOr]
  simp only [methodNamedOr]
  cases upcoming? c with
  | none => rfl
  | some u => rfl

/-- The name of a function. -/
def Manner.functionName : Manner := .node none (none, false) ⟨[], false⟩

/-- What may follow the first name in the name of a function continues. -/
def FunctionNameWeaves (w : Writing) (depth : Nat) : Prop := ∀ (c0 : Cursor) (draft : Draft),
  Spans none c0 draft.children draft.cursor →
    Continues w .functionName c0 ⟨[], false⟩ [] SameKinds draft (functionNamed (rules .lua depth))
      fun b => functionNamed (rules .lua (depth + b))

theorem functionNameWeaves_rule (hname : FunctionNameWeaves w depth) :
    FunctionNameWeaves w (depth + 1) := by
  intro c0 draft hspans
  have hmethod : Continues w .functionName c0 ⟨[], false⟩ [] SameKinds draft methodNamedOr
      fun _ => methodNamedOr :=
    .branch (fails_sees rfl (by decide) (by decide)) (holds_of_intact (sees_intact rfl))
      (fun _ => .markName rfl (by decide) fun _ _ => .finish (by decide)) fun _ => .keep hspans
  have hchain : Continues w .functionName c0 ⟨[], false⟩ [] SameKinds draft
      (fieldNamedOr (rules .lua depth)) fun b => fieldNamedOr (rules .lua (depth + b)) :=
    .branch (fails_sees rfl (by decide) (by decide)) (holds_of_intact (sees_intact rfl))
      (fun _ => .markName rfl (by decide) fun _ _ => .node _ _ (by decide) fun hbegun =>
        hname c0 _ (hbegun.spans rfl)) fun _ => hmethod
  obtain ⟨head, hchildren, -⟩ := hspans
  refine hchain.congr (functionNamed_rule _ hchildren) fun b cursor children' hsame => ?_
  obtain ⟨head', hhead'⟩ : ∃ head', children' = [head'] := by
    have hlength := congrArg List.length hsame
    rw [List.length_map, List.length_map, hchildren] at hlength
    exact List.length_eq_one_iff.1 hlength
  have hdepth : depth + 1 + b = depth + b + 1 := by omega
  rw [hdepth]
  exact functionNamed_rule ⟨cursor, children'⟩ hhead'

/-- The name of a function that is declared. -/
def declaredName (table : Rules) : Reader := fun c =>
  (Draft.start c).take (name .lua) >>= functionNamed table

/-- The same, as the grammar has it. -/
def namedHead (table : Rules) : Reader := fun c => do
  let (nodes, next) ← name .lua c
  match nodes with
  | [head] => inRole .name (table (.functionName head)) next
  | _ => none

theorem namedHead_eq {table : Rules} {c : Cursor} (hc : Lexeme.trivia? c = some ([], c)) :
    namedHead table c = inRole .name (declaredName table) c := by
  unfold namedHead declaredName inRole
  cases hname : name .lua c with
  | none => simp [Draft.take, Draft.start, hc, hname]
  | some found =>
    obtain ⟨nodes, n⟩ := found
    obtain ⟨next, -, heq⟩ := Option.map_eq_some_iff.1 hname
    cases heq
    simp [Draft.take, Draft.start, hc, hname, functionNamed]

theorem functionDeclaration_eq (table : Rules) : functionDeclaration .lua table = fun c =>
    (Draft.start c).take (keyword .lua "function") >>= fun draft =>
      draft.take (namedHead table) >>= fun draft =>
        functionBody .lua table draft >>= Draft.finish .functionDeclaration := rfl

theorem weaves_namedHead (hname : FunctionNameWeaves w depth) :
    Weaves w (.node (some .name) (none, false) ⟨[], false⟩) (namedHead (rules .lua depth))
      fun b => namedHead (rules .lua (depth + b)) := by
  have hplain : Weaves w .functionName (declaredName (rules .lua depth))
      fun b => declaredName (rules .lua (depth + b)) :=
    .start weaves_name (Sight.within_all _) rfl nofun fun c nodes next hpost _ =>
      hname c ⟨next, nodes⟩ ⟨_, hpost, rfl, rfl, rfl, rfl⟩
  refine WeavesIf.of_reads (hplain.nodeInRole .name) (fun c r hc _ h => ?_) fun b e r he h => ?_
  · rwa [← namedHead_eq hc.trivia?]
  · rwa [namedHead_eq he]

theorem isHead_of_leaf {c n : Cursor} {nodes : List Node} {text : String} {stop : Nat}
    (h : nodes = [.mk (.token text) none c.offset n.offset []]) (hle : n.offset ≤ stop) :
    IsHead stop nodes := by
  rw [h]
  intro x hx
  rw [List.mem_singleton.1 hx]
  exact ⟨.inr hle, by simp [Node.role], by simp [Node.role], by simp [Node.kind]⟩

theorem isHead_of_name {c n : Cursor} {nodes : List Node} (h : Spans (some .name) c nodes n) :
    IsHead n.offset nodes := by
  obtain ⟨x, rfl, -, hstop, hrole, hkind⟩ := h
  intro y hy
  rw [List.mem_singleton.1 hy]
  refine ⟨.inr (Nat.le_of_eq hstop), by simp [hrole], by simp [hrole], ?_⟩
  intro hblock
  rw [hblock] at hkind
  cases hkind

theorem weaves_functionDeclaration (hname : FunctionNameWeaves w depth)
    (hblock : BlockWeaves w depth ["end"])
    (hitems : GoalWeaves w depth .items (.separated .parameter)) :
    Weaves w .statement (functionDeclaration .lua (rules .lua depth))
      fun b => functionDeclaration .lua (rules .lua (depth + b)) := by
  simp only [functionDeclaration_eq]
  exact Weaves.statement (.start (weaves_keyword "function") (Sight.within_all _) rfl nofun
    fun _ _ _ hfunction _ => .take (weaves_namedHead hname) (Sight.within_refl _)
      fun _ _ _ _ hcomments hspans hle hlt => continues_functionBody (.inr rfl) hblock hitems
        (isHead_append (isHead_append (isHead_of_leaf hfunction (hle.trans hlt.le))
          (isHead_comments hcomments)) (isHead_of_name hspans)))

/-! ## Local variables -/

section
variable {p : Manner} {c0 : Cursor} {lead : Sight} {extra : List Spot}
  {same : List Node → List Node → Prop} {draft : Draft} {k : Draft → Read} {k' : Nat → Draft → Read}

/-- A rule may go on in two ways, which a mark tells apart that comes next or does not. -/
theorem Continues.branchNext {text : String} {leadA leadB : Sight} {read : Reader}
    {read' : Nat → Reader} {kA kB : Draft → Read} {kA' kB' : Nat → Draft → Read}
    (hfails : Fails w leadB.slots (Cursor.sees text))
    (hholds : Holds w leadA.slots (Cursor.sees text) read')
    (hA : Continues w p c0 leadA extra same draft (fun draft => draft.take read >>= kA)
        (fun b draft => draft.take (read' b) >>= kA' b))
    (hB : Continues w p c0 leadB extra same draft kB kB') :
    Continues w p c0 (leadA.or leadB) extra same draft
      (fun draft => if isNext text draft.cursor then draft.take read >>= kA else kB draft)
      (fun b draft => if isNext text draft.cursor then draft.take (read' b) >>= kA' b
        else kB' b draft) := by
  intro hbegun nodes n hsource
  dsimp only at hsource
  by_cases hnext : isNext text draft.cursor = true
  · rw [if_pos hnext] at hsource
    obtain ⟨u, hu, hsees⟩ : ∃ u, upcoming? draft.cursor = some u ∧ u.sees text = true := by
      cases hu : upcoming? draft.cursor with
      | none => simp [isNext, hu] at hnext
      | some u => exact ⟨u, rfl, by simpa [isNext, hu] using hnext⟩
    obtain ⟨hp, hbegins, outline, hresumes⟩ := hA hbegun nodes n hsource
    refine ⟨hp, hbegins, outline, hresumes.passes,
      fun slot rest h => List.mem_append_left _ (hresumes.first slot rest h), hresumes.tidy,
      hresumes.places,
      fun j l hj hgoes hl => (hresumes.ready j l hj hgoes hl).mono (Sight.within_or_left _ _), ?_⟩
    intro j l hj hgoes hl b hb children' halike hkinds
    obtain ⟨nodes', hnodes', hresult⟩ := hresumes.reads j l hj hgoes hl b hb children' halike hkinds
    refine ⟨nodes', ?_, hresult⟩
    obtain ⟨draft', htaken, -⟩ := Option.bind_eq_some_iff.1 hnodes'
    obtain ⟨comments', e, new', next', htrivia', hnew', -⟩ := take_eq_some htaken
    have hupcoming : upcoming? j.woven = some e := Option.map_eq_some_iff.2 ⟨_, htrivia', rfl⟩
    have he := hholds.ready (hresumes.ready j l hj hgoes hl) (by rw [hj]; exact hu) hsees hupcoming
      hnew'
    have hnext' : isNext text j.woven = true := by simp [isNext, hupcoming, he]
    rw [if_pos hnext', hnodes']
  · rw [if_neg hnext] at hsource
    obtain ⟨hp, hbegins, outline, hresumes⟩ := hB hbegun nodes n hsource
    refine ⟨hp, hbegins, outline, hresumes.passes,
      fun slot rest h => List.mem_append_right _ (hresumes.first slot rest h), hresumes.tidy,
      hresumes.places,
      fun j l hj hgoes hl => (hresumes.ready j l hj hgoes hl).mono (Sight.within_or_right _ _), ?_⟩
    intro j l hj hgoes hl b hb children' halike hkinds
    obtain ⟨nodes', hnodes', hresult⟩ := hresumes.reads j l hj hgoes hl b hb children' halike hkinds
    refine ⟨nodes', ?_, hresult⟩
    have hnext' : isNext text j.woven = false := by
      obtain ⟨i, hi, ⟨hsource', hintact, -⟩ | ⟨s, rest, hpieces, hslot⟩⟩ := hresumes.ready j l hj hgoes hl
      · have hsees : i.source.sees text = false := by
          rw [hj] at hsource'
          simpa [isNext, hsource'] using hnext
        have hwoven := hfails.intact i hintact hsees
        simp [isNext, hi, hintact.entry, hwoven]
      · have hentry := hfails.mark i s rest hpieces hslot
        simp [isNext, hi, hentry]
    rw [hnext', if_neg Bool.false_ne_true]
    exact hnodes'

end

/-- The values of the local variables, if there are any. -/
def assigned (table : Rules) (draft : Draft) : Read :=
  draft.take (mark "=") >>= fun draft =>
    draft.take (expressionList table) >>= Draft.finish .assignmentStatement

def assignedOr (table : Rules) (draft : Draft) : Read :=
  if isNext "=" draft.cursor then assigned table draft else draft.spill

/-- The names of local variables, with their values perhaps. -/
def declaredVariables (table : Rules) : Reader := fun c =>
  (Draft.start c).take (table (.separated .attributedName)) >>= fun names =>
    assignedOr table (.ofNode (names.toNode .variableList) names.cursor)

theorem localVariables_eq (table : Rules) : localVariables .lua table = fun c =>
    (Draft.start c).take (keyword .lua "local") >>= fun draft =>
      draft.take (declaredVariables table) >>= Draft.finish .variableDeclaration := rfl

theorem localFunction_eq (table : Rules) : localFunction .lua table = fun c =>
    (Draft.start c).take (keyword .lua "local") >>= fun draft =>
      draft.take (keyword .lua "function") >>= fun draft =>
        draft.take (inRole .name (name .lua)) >>= fun draft =>
          functionBody .lua table draft >>= Draft.finish .functionDeclaration := rfl

theorem readsValue_expressionList (depth : Nat) : ReadsValue (expressionList (rules .lua depth)) := by
  intro c nodes n hc hread
  obtain ⟨items, m, hitems, -⟩ := take_start hc hread
  exact isStart_of_separated hc hitems

/-- The manner of a list of names. -/
def Manner.names : Manner := .list (none, false) (.behind false)

theorem continues_assigned {c0 : Cursor} {draft : Draft} {same : List Node → List Node → Prop}
    (hitems : GoalWeaves w depth .items (.separated .expression)) :
    Continues w (.node none (none, false) (.behind true)) c0 ⟨[], false⟩ [] same draft
      (assigned (rules .lua depth)) fun b => assigned (rules .lua (depth + b)) :=
  .assign (readsValue_expressionList depth) (Sight.within_all ⟨[.opener], false⟩)
    fun _ _ _ _ _ _ _ _ => .take (weaves_expressionList hitems) (Sight.within_refl _)
      fun _ _ _ _ _ _ _ _ => .finish (by decide)

theorem weaves_declaredVariables (hnames : GoalWeaves w depth .names (.separated .attributedName))
    (hitems : GoalWeaves w depth .items (.separated .expression)) :
    Weaves w (.node none (none, false) (.behind true)) (declaredVariables (rules .lua depth))
      fun b => declaredVariables (rules .lua (depth + b)) := by
  have hfollow : (Sight.or ⟨[], false⟩ (.behind true)).Within (.behind false) :=
    Sight.or_within ⟨nofun, nofun⟩ ⟨fun _ => id, nofun⟩
  exact .start hnames hfollow rfl nofun fun c nodes next _ _ =>
    .node (assignedOr _) (fun b => assignedOr (rules .lua (depth + b))) (by decide)
      fun hbegun => .branchNext (fails_sees rfl (by decide) (by decide))
        (holds_of_intact (sees_intact rfl)) (continues_assigned hitems) (.keep (hbegun.spans rfl))

/-- A declaration behind its keyword. -/
def localDeclared (table : Rules) (draft : Draft) : Read :=
  upcoming? draft.cursor >>= fun u =>
    if decide (Lexeme.wordAt .lua u = "function") then
      draft.take (keyword .lua "function") >>= fun draft =>
        draft.take (inRole .name (name .lua)) >>= fun draft =>
          functionBody .lua table draft >>= Draft.finish .functionDeclaration
    else draft.take (declaredVariables table) >>= Draft.finish .variableDeclaration

theorem localDeclaration_eq {table : Rules} {c : Cursor} {r : List Node × Cursor}
    (hc : Lexeme.trivia? c = some ([], c)) : localDeclaration .lua table c = some r ↔
      (Draft.start c).take (keyword .lua "local") >>= localDeclared table = some r := by
  cases hword : Lexeme.word? .lua c with
  | none =>
    have hkeyword (text : String) : (Draft.start c).take (keyword .lua text) = none := by
      simp [Draft.take, Draft.start, hc, keyword, hword]
    simp [localDeclaration, hword, localVariables_eq, hkeyword]
  | some found =>
    obtain ⟨word, next⟩ := found
    by_cases hlocal : word = "local"
    · subst hlocal
      have hkeyword : (Draft.start c).take (keyword .lua "local")
          = some ⟨next, [.mk (.token "local") none c.offset next.offset []]⟩ := by
        simp [Draft.take, Draft.start, hc, keyword, hword]
      simp only [localDeclaration, hword, localVariables_eq, localFunction_eq, hkeyword, localDeclared,
        Option.bind_eq_bind, Option.bind_some, Option.any_some]
      cases hu : upcoming? next with
      | none =>
        have htrivia : Lexeme.trivia? next = none := by simpa [upcoming?] using hu
        simp [Draft.take, htrivia]
      | some u => simp only [Option.any_some, Option.bind_some, decide_eq_true_eq]
    · have hkeyword : (Draft.start c).take (keyword .lua "local") = none := by
        simp [Draft.take, Draft.start, hc, keyword, hword, hlocal]
      simp [localDeclaration, localVariables_eq, localFunction_eq, hkeyword]

theorem weaves_localDeclaration (hnames : GoalWeaves w depth .names (.separated .attributedName))
    (hitems : GoalWeaves w depth .items (.separated .expression))
    (hblock : BlockWeaves w depth ["end"])
    (hparameters : GoalWeaves w depth .items (.separated .parameter)) :
    Weaves w .statement (localDeclaration .lua (rules .lua depth))
      fun b => localDeclaration .lua (rules .lua (depth + b)) := by
  have hdeclared : Weaves w (.node none (none, false) (.behind true))
      (fun c => (Draft.start c).take (keyword .lua "local") >>= localDeclared (rules .lua depth))
      fun b c => (Draft.start c).take (keyword .lua "local")
        >>= localDeclared (rules .lua (depth + b)) := by
    have hword (j : Joint w) (h : j.Intact) : decide (Lexeme.wordAt .lua j.woven = "function")
        = decide (Lexeme.wordAt .lua j.source = "function") := by rw [h.word]
    have hname : Weaves w (.node (some .name) (none, true) .all) (inRole .name (name .lua))
        fun _ => inRole .name (name .lua) := Weaves.nodeInRole .name (weaves_name.leafNode rfl)
    exact .start (weaves_keyword "local") (Sight.within_all (.or ⟨[], true⟩ ⟨[], false⟩)) rfl nofun
      fun c nodes next hlocal _ => .branch (fails_of_intact hword fun _ _ hslot => by cases hslot)
        (holds_of_intact hword)
        (fun _ => .take (weaves_keyword "function") (Sight.within_all ⟨[], true⟩)
          fun _ _ _ _ hcomments hfunction hle hlt => .take hname (Sight.within_all ⟨[], false⟩)
            fun _ _ _ _ hcomments' hspans hle' hlt' => continues_functionBody (.inr rfl) hblock
              hparameters (isHead_append (isHead_append (isHead_append (isHead_append
                (isHead_of_leaf hlocal (hle.trans (hlt.le.trans (hle'.trans hlt'.le))))
                (isHead_comments hcomments)) (isHead_of_leaf hfunction (hle'.trans hlt'.le)))
                (isHead_comments hcomments')) (isHead_of_name hspans)))
        fun _ => .take (weaves_declaredVariables hnames hitems) (Sight.within_refl _)
          fun _ _ _ _ _ _ _ _ => .finish (by decide)
  exact Weaves.statement (hdeclared.of_reads (fun c r hc _ => (localDeclaration_eq hc.trivia?).1)
    fun b e r he => (localDeclaration_eq he).2)

/-! ## Calls and assignments -/

/-- An assignment behind its first target. -/
def assignedTo (table : Rules) (draft : Draft) : Read :=
  draft.takeIf (Cursor.sees ",") (moreItems table .target) >>= fun draft =>
    assigned table (.ofNode (draft.toNode .variableList) draft.cursor)

/-- Goes on with a prefix expression, if a statement may start with it. -/
def concluded (table : Rules) (draft : Draft) : Read :=
  match draft.children with
  | [head] =>
    if isTarget head then assignedTo table draft
    else if head.kind = .functionCall then draft.spill else none
  | _ => none

theorem expressionStatement_eq {table : Rules} {c : Cursor} (hc : Lexeme.trivia? c = some ([], c)) :
    expressionStatement .lua table c
      = (Draft.start c).take (prefixExpression .lua table) >>= concluded table := by
  have hassigned (draft : Draft) : (upcoming? draft.cursor >>= fun _ => assigned table draft)
      = assigned table draft := by
    cases htrivia : Lexeme.trivia? draft.cursor with
    | none => simp [upcoming?, htrivia, assigned, Draft.take]
    | some found => simp [upcoming?, htrivia]
  unfold expressionStatement
  cases hprefixed : prefixExpression .lua table c with
  | none => simp [Draft.take, Draft.start, hc, hprefixed]
  | some found =>
    obtain ⟨nodes, n⟩ := found
    have htake : (Draft.start c).take (prefixExpression .lua table) = some ⟨n, nodes⟩ := by
      simp [Draft.take, Draft.start, hc, hprefixed]
    rw [htake]
    have htargets (draft : Draft) : targets table draft
        = (draft.takeIf (Cursor.sees ",") (moreItems table .target)).map fun draft =>
          Draft.ofNode (draft.toNode .variableList) draft.cursor := by
      rw [Option.map_eq_bind]
      rfl
    rcases nodes with _ | ⟨head, _ | ⟨second, rest⟩⟩
    · rfl
    · simp only [Option.bind_eq_bind, Option.bind_some, concluded]
      split
      · rw [htargets, Option.bind_map, assignedTo]
        refine congrArg (Option.bind _) (funext fun draft => ?_)
        exact hassigned (.ofNode (draft.toNode .variableList) draft.cursor)
      · rfl
    · rfl

theorem isTarget_congr {x x' : Node} (h : x'.kind = x.kind) : isTarget x' = isTarget x := by
  have hall : [x'].all isTarget = [x].all isTarget := all_isTarget (congrArg ([·]) h)
  simpa using hall

theorem weaves_expressionStatement
    (hprefixed : Weaves w .prefixed (prefixExpression .lua (rules .lua depth))
      fun b => prefixExpression .lua (rules .lua (depth + b)))
    (htargets : GoalWeaves w depth (.list (none, false) (.behind false)) (.separated .target))
    (hitems : GoalWeaves w depth .items (.separated .expression)) :
    Weaves w .statement (expressionStatement .lua (rules .lua depth))
      fun b => expressionStatement .lua (rules .lua (depth + b)) := by
  have hconcluded : Weaves w (.node none (none, false) (.behind true))
      (fun c => (Draft.start c).take (prefixExpression .lua (rules .lua depth))
        >>= concluded (rules .lua depth))
      fun b c => (Draft.start c).take (prefixExpression .lua (rules .lua (depth + b)))
        >>= concluded (rules .lua (depth + b)) := by
    refine .start hprefixed (Sight.within_refl _) rfl nofun fun c nodes next hspans _ => ?_
    obtain ⟨x, rfl, -⟩ := id hspans
    have hhead {children' : List Node} (h : SameKinds children' [x]) :
        ∃ x', children' = [x'] ∧ x'.kind = x.kind := by
      obtain ⟨x', rest, rfl, hkind, hrest⟩ := List.map_eq_cons_iff.1 h
      obtain rfl := List.map_eq_nil_iff.1 hrest
      exact ⟨x', rfl, hkind⟩
    by_cases htarget : isTarget x = true
    · have hassigned {draft : Draft} {same : List Node → List Node → Prop} :
          Continues w (.node none (none, false) (.behind true)) c ⟨[], false⟩ [] same draft
            (fun draft => assigned (rules .lua depth)
              (.ofNode (draft.toNode .variableList) draft.cursor))
            fun b draft => assigned (rules .lua (depth + b))
              (.ofNode (draft.toNode .variableList) draft.cursor) :=
        .node _ _ (by decide) fun _ => continues_assigned hitems
      have hnone : Sight.Within ⟨[], false⟩ (.behind false) := ⟨nofun, nofun⟩
      have hall : Continues w (.node none (none, false) (.behind true)) c (.behind false) []
          SameKinds ⟨next, [x]⟩ (assignedTo (rules .lua depth))
          fun b => assignedTo (rules .lua (depth + b)) :=
        .mono (.takeIf (weaves_moreItems htargets) (fails_sees rfl (by decide) (by decide))
          (holds_of_intact (sees_intact rfl)) hnone hassigned fun _ _ _ _ _ _ _ _ => hassigned)
          (Sight.or_within (Sight.blunt_within _) ⟨nofun, nofun⟩)
      refine hall.congr ?_ fun b cursor children' h => ?_
      · simp only [concluded, htarget, if_true]
      · obtain ⟨x', rfl, hkind⟩ := hhead h
        simp only [concluded, isTarget_congr hkind, htarget, if_true]
    · by_cases hcall : x.kind = .functionCall
      · have hkeep : Continues w (.node none (none, false) (.behind true)) c (.behind false) []
            SameKinds ⟨next, [x]⟩ Draft.spill fun _ => Draft.spill :=
          .mono (.keep hspans) ⟨fun _ => id, nofun⟩
        refine hkeep.congr ?_ fun b cursor children' h => ?_
        · simp only [concluded, htarget, if_false, hcall, if_true, Bool.false_eq_true]
        · obtain ⟨x', rfl, hkind⟩ := hhead h
          simp only [concluded, isTarget_congr hkind, htarget, if_false, hkind, hcall, if_true,
            Bool.false_eq_true]
      · intro _ nodes n hsource
        simp only [concluded, htarget, if_false, hcall, Bool.false_eq_true] at hsource
        cases hsource
  exact Weaves.statement (hconcluded.of_reads
    (fun c r hc _ h => by rwa [← expressionStatement_eq hc.trivia?])
    fun b e r he h => by rwa [expressionStatement_eq he])

/-! ## Returning -/

/-- The words that close a block start no value. -/
def endWords : List String := ["end", "elseif", "else", "until"]

theorem seesExpression_eq (c : Cursor) : seesExpression .lua c
    = (seesString .lua c || c.sees "\x7b" || c.sees "(" || c.sees "..." || seesNumber c
      || Dialect.lua.unaryMarks.any (fun text => c.sees text)
      || ((Lexeme.word? .lua c).isSome && !endWords.contains (Lexeme.wordAt .lua c))) := by
  exact congrArg (_ || ·) (word?_any fun word => !endWords.contains word)

theorem seesExpression_of_isStart {c : Cursor} (h : isStart c = true)
    (hword : Lexeme.wordAt .lua c ∉ endWords) : seesExpression .lua c = true := by
  have hnot : (!endWords.contains (Lexeme.wordAt .lua c)) = true := by simpa using hword
  rw [seesExpression_eq, hnot, Bool.and_true]
  exact h

/-- Where a word starts, only the word tells whether an expression does. -/
theorem seesExpression_of_word? {c : Cursor} (h : (Lexeme.word? .lua c).isSome = true) :
    seesExpression .lua c = !endWords.contains (Lexeme.wordAt .lua c) := by
  obtain ⟨⟨word, next⟩, hword⟩ := Option.isSome_iff_exists.1 h
  simp [seesExpression_eq, seesString_of_word? hword, seesNumber_of_word? hword, hword,
    sees_of_word? hword "\x7b" rfl (by decide), Dialect.unaryMarks,
    sees_of_word? hword "(" rfl (by decide),
    sees_of_word? hword "..." rfl (by decide),
    sees_of_word? hword "-" rfl (by decide),
    sees_of_word? hword "#" rfl (by decide),
    sees_of_word? hword "~" rfl (by decide)]

theorem wordAt_notMem_endWords {c : Cursor} (h : seesExpression .lua c = true) :
    Lexeme.wordAt .lua c ∉ endWords := by
  intro hmem
  have hword : (Lexeme.word? .lua c).isSome = true :=
    isSome_word?_of_wordAt fun heq => absurd (heq ▸ hmem) (by decide)
  rw [seesExpression_of_word? hword] at h
  simp [hmem] at h

theorem fails_seesExpression : Fails w Sight.ending.slots (seesExpression .lua) where
  intact j hintact htest := by
    simp only [seesExpression_eq, Bool.or_eq_false_iff, Dialect.unaryMarks, List.any_cons,
      List.any_nil] at htest ⊢
    obtain ⟨⟨⟨⟨⟨⟨hstring, hbrace⟩, hparen⟩, hdots⟩, hnumber⟩, hminus, hlength, hnot, -⟩, hword⟩ := htest
    have hstringFails : Fails w [] (seesString .lua) := fails_seesString
    have hdotsFails : Fails w [] (Cursor.sees "...") := fails_sees rfl (by decide) (by decide)
    rw [hintact.sees "\x7b" rfl, hintact.sees "(" rfl,
      hintact.sees "-" rfl, hintact.sees "#" rfl, hintact.sees "~" rfl,
      hintact.word?_isSome, hintact.word]
    exact ⟨⟨⟨⟨⟨⟨hstringFails.intact j hintact hstring, hbrace⟩, hparen⟩,
      hdotsFails.intact j hintact hdots⟩,
      shy_seesNumber hintact hnumber⟩, hminus, hlength, hnot, trivial⟩, hword⟩
  mark j s rest hpieces hslot := by
    have hslot : s.slot = .elseArm := List.mem_singleton.1 hslot
    have hfront : Joint.Front w .elseArm j.entry := hslot ▸ Joint.entry_mark hpieces
    obtain ⟨next, hnext⟩ := hfront.word? (by simp)
    rw [seesExpression_of_word? (by rw [hnext]; rfl), hfront.wordAt]
    rfl

theorem holds_seesExpression {read' : Nat → Reader} (h : ∀ b, ReadsValue (read' b)) :
    Holds w [.opener] (seesExpression .lua) read' where
  intact j b nodes n hintact htest hread := by
    have htrivia := trivia?_of_lands hintact.lands.1 hintact.lands.2
    refine seesExpression_of_isStart (h b _ _ _ htrivia hread) ?_
    rw [hintact.word]
    exact wordAt_notMem_endWords htest
  mark j s rest b nodes n hpieces hslot _ := by
    have hslot : s.slot = .opener := List.mem_singleton.1 hslot
    have hfront : Joint.Front w .opener j.entry := hslot ▸ Joint.entry_mark hpieces
    obtain ⟨next, hnext⟩ := hfront.word? nofun
    have hreserved : ∀ word ∈ endWords, word ∈ reservedWords := by decide
    have hnot : w.name.text ∉ endWords := fun h => name_notMem_reservedWords w (hreserved _ h)
    rw [seesExpression_of_word? (by rw [hnext]; rfl), hfront.wordAt]
    simpa using hnot

theorem returnStatement_eq (table : Rules) : returnStatement .lua table = fun c =>
    (Draft.start c).take (keyword .lua "return") >>= fun draft =>
      draft.takeIf (seesExpression .lua) (expressionList table) >>= fun draft =>
        draft.takeIf (Cursor.sees ";") (mark ";") >>= Draft.finish .returnStatement := rfl

theorem weaves_returnStatement (hitems : GoalWeaves w depth .items (.separated .expression)) :
    Weaves w .last (returnStatement .lua (rules .lua depth))
      fun b => returnStatement .lua (rules .lua (depth + b)) := by
  have hsemicolon {c0 : Cursor} {draft : Draft} {same : List Node → List Node → Prop} :
      Continues w (.node none (none, false) .ending) c0 .ending [] same draft
        (fun draft => draft.takeIf (Cursor.sees ";") (mark ";") >>= Draft.finish .returnStatement)
        fun _ draft => draft.takeIf (Cursor.sees ";") (mark ";") >>= Draft.finish .returnStatement :=
    .mono (.takeIf (weaves_mark (by decide)) (fails_sees rfl (by decide) (by decide))
      (holds_of_intact (sees_intact rfl)) (Sight.within_all _) (.finish (by decide))
      fun _ _ _ _ _ _ _ _ => .finish (by decide))
      (Sight.or_within (Sight.blunt_within _) (Sight.within_refl _))
  simp only [returnStatement_eq]
  exact Weaves.statement (.start (weaves_keyword "return") (Sight.within_all _) rfl nofun
    fun _ _ _ _ _ => .takeIf (weaves_expressionList hitems) fails_seesExpression
      (holds_seesExpression fun b => readsValue_expressionList (depth + b)) Sight.ending_within
      hsemicolon fun _ _ _ _ _ _ _ _ => hsemicolon)

end LuaCoverage.Instrument
