import LuaCoverage.Proofs.Instrument.Woven.Arms

/-!
# Sources with calls written into them

All rules of the grammar read in a woven source what they read in the source, by induction on the
depth. So a whole module does.

Results:
* `rulesWeave`: the rules within any depth.
* `exists_chunk`: a whole module.
-/

namespace LuaCoverage.Instrument
open LuaCoverage.Lua LuaCoverage.Text LuaCoverage.Lua.Cursor LuaCoverage.Lua.Grammar
open LuaCoverage.Analysis

variable {w : Writing} {depth : Nat}

/-! ## Statements by their first word -/

/-- A statement that starts with a keyword. -/
def keywordStatement (table : Rules) : Reader := fun c =>
  if Lexeme.wordAt .lua c = "break" then wordStatement .lua .breakStatement "break" c
  else if Lexeme.wordAt .lua c = "goto" then gotoStatement .lua c
  else if Lexeme.wordAt .lua c = "do" then doStatement .lua table c
  else if Lexeme.wordAt .lua c = "while" then Grammar.whileStatement .lua table c
  else if Lexeme.wordAt .lua c = "repeat" then Grammar.repeatStatement .lua table c
  else if Lexeme.wordAt .lua c = "if" then Grammar.ifStatement .lua table c
  else if Lexeme.wordAt .lua c = "for" then forStatement .lua table c
  else if Lexeme.wordAt .lua c = "function" then Grammar.functionDeclaration .lua table c
  else if Lexeme.wordAt .lua c = "local" then localDeclaration .lua table c
  else none

def isKeyword (c : Cursor) : Bool := Dialect.lua.statementWords.contains (Lexeme.wordAt .lua c)

def emptyStatement : Reader := fun c =>
  (Draft.start c).take (mark ";") >>= Draft.finish .emptyStatement

/-- A type definition starts with another word than a `return`. -/
theorem typeDefinition_eq_none (table : Rules) {c : Cursor} (hc : Lexeme.trivia? c = some ([], c))
    (h : Lexeme.wordAt .lua c = "return") : typeDefinition .lua table c = none := by
  obtain ⟨⟨word, next⟩, hword⟩ := Option.isSome_iff_exists.1
    (isSome_word?_of_wordAt (c := c) (by rw [h]; decide))
  obtain rfl : word = "return" := (Joint.wordAt_of_word? hword).symm.trans h
  have hkeyword : keyword .lua "type" c = none := by simp [keyword, hword]
  have htake : (Draft.start c).take (keyword .lua "type") = none := by
    simp [Draft.take, Draft.start, hc, hkeyword]
  have htakeIf : (Draft.start c).takeIf (fun c => decide (Lexeme.wordAt .lua c = "export"))
      (keyword .lua "export") = some (Draft.start c) := by
    simp [Draft.takeIf, upcoming?, Draft.start, hc, h]
  simp only [typeDefinition, htakeIf, Option.bind_eq_bind, Option.bind_some, htake, Option.bind_none]

/-- A `return` is no statement of its own, and there are no type definitions. -/
theorem statement_eq {table : Rules} {c : Cursor} (hc : Lexeme.trivia? c = some ([], c)) :
    Grammar.statement .lua table c = if c.sees ";" then emptyStatement c
      else if c.sees "::" then labelStatement .lua c
      else if isKeyword c then keywordStatement table c else expressionStatement .lua table c := by
  have hreturn (h : Lexeme.wordAt .lua c = "return") := typeDefinition_eq_none table hc h
  unfold Grammar.statement
  by_cases hempty : c.sees ";" = true
  · simp only [hempty, if_true]
    rfl
  by_cases hlabel : c.sees "::" = true
  · simp [hempty, hlabel]
  by_cases hkeyword : isKeyword c = true
  · have hmem := hkeyword
    simp only [isKeyword, Dialect.statementWords, List.contains_eq_mem, decide_eq_true_eq, List.mem_cons,
      List.not_mem_nil, or_false] at hmem
    rcases hmem with h | h | h | h | h | h | h | h | h | h <;>
      simp [hempty, hlabel, hkeyword, keywordStatement, Dialect.statementWords, h, hreturn]
  · have hnot := hkeyword
    rw [isKeyword, List.contains_eq_mem, decide_eq_true_eq] at hnot
    simp [hempty, hlabel, hkeyword, hnot]

/-- The rules within a depth weave. -/
structure RulesWeave (w : Writing) (depth : Nat) : Prop where
  enters : Enters w depth
  suffixes : SuffixesWeave w depth
  fields : GoalWeaves w depth .enclosed .fields
  expressions : GoalWeaves w depth .items (.separated .expression)
  parameters : GoalWeaves w depth .items (.separated .parameter)
  targets : GoalWeaves w depth .names (.separated .target)
  names : GoalWeaves w depth .names (.separated .attributedName)
  bindings : GoalWeaves w depth (.list (none, false) .all) (.separated .binding)
  functionName : FunctionNameWeaves w depth
  statement : GoalWeaves w depth .statement .statement
  block : ∀ closers, (∀ word ∈ closers, word ∈ reservedWords) → BlockWeaves w depth closers
  alternatives : ArmsWeave w depth

namespace RulesWeave

theorem expression (h : RulesWeave w depth) : GoalWeaves w depth .value (.expression 0) :=
  h.enters.weaves 0

theorem prefixExpression (h : RulesWeave w depth) :
    Weaves w .prefixed (Grammar.prefixExpression .lua (rules .lua depth))
      fun b => Grammar.prefixExpression .lua (rules .lua (depth + b)) :=
  weaves_prefixExpression h.suffixes h.expression

theorem keywordStatement (h : RulesWeave w depth) :
    Weaves w .statement (Instrument.keywordStatement (rules .lua depth))
      fun b => Instrument.keywordStatement (rules .lua (depth + b)) := by
  have hend := h.block ["end"] (by decide)
  have hnone : Weaves w .statement (fun _ => none) fun _ _ => none := fun _ _ _ _ _ hread => by
    cases hread
  exact .iteWord "break" rfl (weaves_wordStatement "break" (by decide)) <|
    .iteWord "goto" rfl weaves_gotoStatement <|
    .iteWord "do" rfl (weaves_doStatement hend) <|
    .iteWord "while" rfl (weaves_whileStatement h.enters hend) <|
    .iteWord "repeat" rfl (weaves_repeatStatement h.enters (h.block ["until"] (by decide))) <|
    .iteWord "if" rfl (weaves_ifStatement h.expression (h.block armClosers (by decide))
      h.alternatives) <|
    .iteWord "for" rfl (weaves_forStatement h.expression h.bindings h.expressions hend) <|
    .iteWord "function" rfl (weaves_functionDeclaration h.functionName hend h.parameters) <|
    .iteWord "local" rfl (weaves_localDeclaration h.names h.expressions hend h.parameters) hnone

theorem statement_rule (h : RulesWeave w depth) :
    GoalWeaves w (depth + 1) .statement .statement := by
  refine goalWeaves_succ ?_
  have hword (j : Joint w) (hj : j.Intact) : isKeyword j.woven = isKeyword j.source := by
    rw [isKeyword, isKeyword, hj.word]
  have hworded : Weaves w .statement (fun c => if isKeyword c then
      Instrument.keywordStatement (rules .lua depth) c else expressionStatement .lua (rules .lua depth) c)
      fun b c => if isKeyword c then Instrument.keywordStatement (rules .lua (depth + b)) c
        else expressionStatement .lua (rules .lua (depth + b)) c :=
    .ite (tells_of_intact rfl hword) (tells_of_intact rfl fun j hj => congrArg _ (hword j hj))
      (h.keywordStatement.weaken _)
      (Weaves.weaken (weaves_expressionStatement h.prefixExpression h.targets h.expressions) _)
  have hlabel (j : Joint w) (hj : j.Intact) : j.woven.sees "::" = j.source.sees "::" :=
    hj.pairs "::" (by decide)
  have hmarked : WeavesIf w (fun c => c.sees ";" = false) .statement (fun c =>
      if c.sees "::" then labelStatement .lua c else if isKeyword c then
        Instrument.keywordStatement (rules .lua depth) c
      else expressionStatement .lua (rules .lua depth) c)
      fun b c => if c.sees "::" then labelStatement .lua c else if isKeyword c then
        Instrument.keywordStatement (rules .lua (depth + b)) c
      else expressionStatement .lua (rules .lua (depth + b)) c :=
    .ite (tells_of_intact rfl hlabel) (tells_of_intact rfl fun j hj => congrArg _ (hlabel j hj))
      (fun c nodes n hc hpre => weaves_labelStatement c nodes n hc hpre.2) (hworded.weaken _)
  have hall : Weaves w .statement (fun c => if c.sees ";" then emptyStatement c
      else if c.sees "::" then labelStatement .lua c else if isKeyword c then
        Instrument.keywordStatement (rules .lua depth) c
      else expressionStatement .lua (rules .lua depth) c)
      fun b c => if c.sees ";" then emptyStatement c
        else if c.sees "::" then labelStatement .lua c else if isKeyword c then
          Instrument.keywordStatement (rules .lua (depth + b)) c
        else expressionStatement .lua (rules .lua (depth + b)) c :=
    .iteSees _ rfl rfl (fun c nodes n hc hpre => weaves_emptyStatement c nodes n hc hpre.2)
      fun c nodes n hc hpre => hmarked c nodes n hc hpre.2
  exact hall.of_reads (fun c r hc _ hread => (statement_eq hc.trivia?).symm.trans hread)
    fun b e r he hread => (statement_eq he).trans hread

end RulesWeave

theorem goalWeaves_zero (q : Manner) (goal : Goal) : GoalWeaves w 0 q goal :=
  fun _ _ _ _ _ hread => by cases hread

/-- No rule reads anything within no depth. -/
theorem rulesWeave_zero (w : Writing) : RulesWeave w 0 where
  enters := fun _ _ _ _ _ hread => by cases hread
  suffixes := fun c0 draft hspans _ nodes n hread => by
    obtain ⟨x, hchildren, -⟩ := hspans
    simp [suffixed, hchildren, rules] at hread
  fields := goalWeaves_zero _ _
  expressions := goalWeaves_zero _ _
  parameters := goalWeaves_zero _ _
  targets := goalWeaves_zero _ _
  names := goalWeaves_zero _ _
  bindings := goalWeaves_zero _ _
  functionName := fun c0 draft hspans _ nodes n hread => by
    obtain ⟨x, hchildren, -⟩ := hspans
    simp [functionNamed, hchildren, rules] at hread
  statement := goalWeaves_zero _ _
  block := fun _ _ _ _ _ _ hread => by cases hread
  alternatives := fun _ _ _ _ hread => by cases hread

/-- The rules within every depth weave. -/
theorem rulesWeave (w : Writing) (depth : Nat) : RulesWeave w depth := by
  induction depth using Nat.strongRecOn with
  | ind depth ih =>
    cases depth with
    | zero => exact rulesWeave_zero w
    | succ depth =>
      have h := ih depth (Nat.lt_succ_self depth)
      have hoperands : Operands w depth :=
        ⟨fun d hd => (ih d (Nat.lt_succ_of_le hd)).enters, h.suffixes, h.fields, h.parameters,
          h.block ["end"] (by decide)⟩
      have hnames : GoalWeaves w (depth + 1) .names (.separated .attributedName) :=
        separated_rule (q := .list (none, true) (.behind false)) rfl (Sight.within_refl _) (fun _ => rfl)
          (isCounted_of_ne (by simp)) weaves_attributedName h.names
      have hbindings : GoalWeaves w (depth + 1) (.list (none, false) .all) (.separated .binding) :=
        separated_rule (q := .list (none, true) .all) rfl (Sight.within_refl _) (fun _ => rfl)
          (isCounted_of_ne (by simp)) weaves_binding h.bindings
      exact {
        enters := enters_rule hoperands
        suffixes := suffixesWeave_rule h.suffixes h.expression h.fields h.expressions
        fields := fields_rule h.expression h.fields
        expressions := expressions_rule h.expression h.expressions
        parameters := parameters_rule h.parameters
        targets := targets_rule h.prefixExpression h.targets
        names := hnames
        bindings := hbindings
        functionName := functionNameWeaves_rule h.functionName
        statement := h.statement_rule
        block := fun closers hclosers => blockWeaves_rule hclosers h.statement
          (weaves_returnStatement h.expressions) (h.block closers hclosers)
        alternatives := armsWeave_rule h.expression (h.block armClosers (by decide))
          (h.block ["end"] (by decide)) h.alternatives }

/-! ## The end of a source -/

namespace Joint
variable {l : Joint w}

/-- At the end there is nothing in the source and nothing in the result. -/
theorem intact_of_pieces (h : l.pieces = []) : l.Intact := by
  have hsource : l.source.rest = [] := by rw [source, h]; rfl
  have hwoven : l.woven.rest = [] := by rw [woven, h]; rfl
  have hword (c : Cursor) (hc : c.rest = []) : Lexeme.wordAt .lua c = "" := by
    simp [Lexeme.wordAt, Lexeme.word?, Cursor.char?, hc]
  have hsees (c : Cursor) (hc : c.rest = []) : ∀ text ∈ pairMarks, c.sees text = false := by
    intro text htext
    simp only [pairMarks, List.mem_cons, List.not_mem_nil, or_false] at htext
    rcases htext with rfl | rfl | rfl | rfl <;>
      exact sees_eq_false _ rfl (by simp [Cursor.char?, hc])
  refine ⟨⟨by rw [hsource]; rfl, ?_, by simp [hsource]⟩, by rw [hsource, hwoven],
    (hword _ hwoven).trans (hword _ hsource).symm,
    fun text htext => (hsees _ hwoven text htext).trans (hsees _ hsource text htext).symm⟩
  have hdash : l.source.sees "--" = false := sees_eq_false _ rfl (by simp [Cursor.char?, hsource])
  rw [Cursor.sees, Option.isSome_eq_false_iff, Option.isNone_iff_eq_none] at hdash
  rw [Lexeme.comment?, hdash]
  rfl

end Joint

theorem isBlunt_of_rest {c : Cursor} (h : c.rest = []) : isBlunt c = true := by
  simp [isBlunt, Cursor.char?, h]

/-- The statements of a module, up to the end. -/
def ended (table : Rules) (draft : Draft) : Option (List Node) :=
  (draft.take (table (.block []))).bind fun draft =>
    (Lexeme.trivia? draft.cursor).bind fun (comments, c) =>
      if c.atEnd then some (draft.children ++ comments) else none

/-- What was read up to the end is of an outline, over which the result is read up to its end. -/
structure Ended (w : Writing) (depth : Nat) (c : Cursor) (nodes : List Node) (outline : Outline) :
    Prop where
  rest : c.rest = plain outline
  places : (outline.places c.offset).Perm (placesIn true nodes)
  tidy : outline.isTidy none = true
  first : c.rest.head?.all Lexeme.isSpace = true → ∀ slot rest, outline ≠ .mark slot :: rest
  ready : ∀ j l : Joint w, j.source = c → j.Goes outline l → l.pieces = [] →
    j.Ready ⟨[.statement], false⟩
  reads : ∀ j l : Joint w, j.source = c → j.Goes outline l → l.pieces = [] →
    ∀ b, 16 * outline.count ≤ b → ∃ new,
      Node.erasedIn w.result w.written new = Node.treesIn w.source nodes
      ∧ ∀ start, ended (rules .lua (depth + b)) ⟨j.woven, start⟩ = some (start ++ new)

/-- There may be no statement. -/
theorem Ended.empty {c e : Cursor} {comments : List Node} {gap : List Glyph} (hdepth : 0 < depth)
    (hgap : Gap c e comments gap) (hrest : e.rest = [])
    (hnone : Grammar.seesStatement .lua [] e = false) : Ended w depth c comments (bare gap) := by
  have hgoesTo {j l : Joint w} (hj : j.source = c) (hgoes : j.Goes (bare gap) l) (hl : l.pieces = []) :
      l.source = e ∧ l.Intact ∧ ∃ comments', Lexeme.trivia? j.woven = some (comments', l.entry)
        ∧ Lexeme.AreComments comments' := by
    have hintact := Joint.intact_of_pieces hl
    exact ⟨hgoes.source_eq hj (by simpa using hgap.passes), hintact,
      hgap.goes hj hgoes (show l.Starts (· ∈ []) from .inl hintact)⟩
  refine ⟨by simpa [hrest] using hgap.passes.rest, ?_, Outline.isTidy_bare gap, fun _ slot rest heq => ?_,
    fun j l hj hgoes hl => ?_, fun j l hj hgoes hl b _ => ?_⟩
  · rw [Outline.places_bare, placesIn_comments hgap.areComments]
  · cases gap <;> cases heq
  · obtain ⟨hl', hintact, comments', htrivia, -⟩ := hgoesTo hj hgoes hl
    exact .of_trivia? hgap.trivia hj hl' htrivia (.inl hintact) nofun
  · obtain ⟨hl', hintact, comments', htrivia, hcomments'⟩ := hgoesTo hj hgoes hl
    have hentry : Lexeme.trivia? l.entry = some ([], l.entry) := Joint.trivia?_trivia? htrivia
    have hend : l.entry.atEnd = true := by
      rw [hintact.entry, Joint.woven, hl]
      rfl
    have hblock : rules .lua (depth + b) (.block []) l.entry = some ([], l.entry) := by
      obtain ⟨d, hd⟩ : ∃ d, depth + b = d + 1 := ⟨depth + b - 1, by omega⟩
      rw [hd, rules, rule, block, hintact.entry, hintact.seesStatement, hl', hnone]
      rfl
    refine ⟨comments', ?_, fun start => ?_⟩
    · rw [erasedIn_comments hcomments', treesIn_comments hgap.areComments]
    · simp [ended, Draft.take, htrivia, hblock, hentry, hend]

/-- Or there are some, and white space behind them. -/
theorem Ended.of_blocks {c v n e : Cursor} {comments comments' statements : List Node}
    {gap gap' : List Glyph} {front : Outline} (hgap : Gap c v comments gap)
    (hfront : Blocks w [] v n statements front fun b => rules .lua (depth + b) (.block []))
    (hgap' : Gap n e comments' gap') (hrest : e.rest = []) :
    Ended w depth c (comments ++ statements ++ comments') (bare gap ++ (front ++ bare gap')) := by
  have hgoesTo {j l : Joint w} (hj : j.source = c)
      (hgoes : j.Goes (bare gap ++ (front ++ bare gap')) l) (hl : l.pieces = []) :
      ∃ i k : Joint w, i.source = v ∧ i.Goes front k ∧ k.Ready (.closing [])
        ∧ i.Starts (· ∈ [.statement])
        ∧ (∃ new, Lexeme.trivia? j.woven = some (new, i.entry) ∧ Lexeme.AreComments new)
        ∧ (∃ new, Lexeme.trivia? k.woven = some (new, l.woven) ∧ Lexeme.AreComments new) := by
    obtain ⟨i, hji, hil⟩ := Joint.goes_append.1 hgoes
    obtain ⟨k, hik, hkl⟩ := Joint.goes_append.1 hil
    have hi : i.source = v := hji.source_eq hj (by simpa using hgap.passes)
    have hk : k.source = n := hik.source_eq hi hfront.passes
    have hl' : l.source = e := hkl.source_eq hk (by simpa using hgap'.passes)
    have hintact := Joint.intact_of_pieces hl
    obtain ⟨new, hnew, hcomments⟩ := hgap'.goes hk hkl (show l.Starts (· ∈ []) from .inl hintact)
    have hready : k.Ready (.closing []) := .of_trivia? hgap'.trivia hk hl' hnew (.inl hintact)
      fun _ => isBlunt_of_rest hrest
    have hstarts := hfront.starts i k hi hik hready
    rw [hintact.entry] at hnew
    exact ⟨i, k, hi, hik, hready, hstarts, hgap.goes hj hji hstarts, new, hnew, hcomments⟩
  refine ⟨?_, ?_, ?_, fun hspace slot rest heq => ?_, fun j l hj hgoes hl => ?_,
    fun j l hj hgoes hl b hb => ?_⟩
  · have hpass := hgap.passes.trans (hfront.passes.trans hgap'.passes)
    simpa [hrest] using hpass.rest
  · have hv : v.offset = c.offset + width gap := hgap.passes.offset
    simp only [Outline.places_append, Outline.places_bare, plain_bare, List.nil_append, ← hv,
      List.append_nil, placesIn_append, placesIn_comments hgap.areComments,
      placesIn_comments hgap'.areComments]
    exact hfront.places
  · exact Outline.isTidy_append (Outline.isTidy_bare gap)
      (Outline.isTidy_append hfront.tidy (Outline.isTidy_bare gap'))
  · cases gap with
    | cons g gap => cases heq
    | nil =>
      have hc : c.rest = v.rest := hgap.passes.rest
      have hland := hgap.landed.space
      rw [← hc] at hland
      cases hcase : c.rest with
      | nil =>
        have hv := hfront.passes.rest
        rw [← hc, hcase] at hv
        exact hfront.nonempty (List.append_eq_nil_iff.1 hv.symm).1
      | cons g more =>
        rw [hcase] at hspace hland
        simp only [List.head?_cons, Option.all_some, Bool.not_eq_true'] at hspace hland
        rw [hspace] at hland
        cases hland
  · obtain ⟨i, k, hi, -, -, hstarts, ⟨new, hnew, -⟩, -⟩ := hgoesTo hj hgoes hl
    exact .of_trivia? hgap.trivia hj hi hnew hstarts nofun
  · obtain ⟨i, k, hi, hik, hready, hstarts, ⟨new, hnew, hcomments⟩, last, hlast, hcomments'⟩ :=
      hgoesTo hj hgoes hl
    simp only [Outline.count_append, Outline.count_bare] at hb
    obtain ⟨nodes', hnodes', herased, -⟩ := hfront.reads i k hi hik hready b (by omega)
    have hend : l.woven.atEnd = true := by
      rw [Joint.woven, hl]
      rfl
    refine ⟨new ++ nodes' ++ last, ?_, fun start => ?_⟩
    · simp only [Node.erasedIn_append, Node.treesIn_append, erasedIn_comments hcomments,
        erasedIn_comments hcomments', treesIn_comments hgap.areComments,
        treesIn_comments hgap'.areComments, herased]
    · simp [ended, Draft.take, hnew, hnodes', hlast, hend]

theorem exists_ended {draft : Draft} {nodes : List Node} (hsolid : Solid draft.cursor)
    (h : ended (rules .lua depth) draft = some nodes) : ∃ new outline,
      nodes = draft.children ++ new ∧ Ended w depth draft.cursor new outline := by
  obtain ⟨draft', htake, h⟩ := Option.bind_eq_some_iff.1 h
  obtain ⟨⟨comments', e⟩, htrivia', h⟩ := Option.bind_eq_some_iff.1 h
  obtain ⟨comments, v, statements, n, htrivia, hread, rfl⟩ := take_eq_some htake
  obtain ⟨gap, hgap⟩ := exists_gap hsolid htrivia
  dsimp only at h
  split at h
  swap
  · cases h
  next hend =>
  cases h
  have hrest : e.rest = [] := List.isEmpty_iff.1 hend
  have hdepth : 0 < depth := by
    cases depth with
    | zero => cases hread
    | succ depth => omega
  rcases (rulesWeave w depth).block [] nofun v statements n hgap.landed hread
    with ⟨rfl, rfl, hnone⟩ | ⟨front, hfront⟩
  · obtain ⟨rfl, rfl⟩ : [] = comments' ∧ n = e := by simpa [hgap.landed.trivia?] using htrivia'
    exact ⟨comments, _, by simp, .empty hdepth hgap hrest hnone⟩
  · have hsolid' : Solid n := (hsolid.passes hgap.passes).passes hfront.passes
    obtain ⟨gap', hgap'⟩ := exists_gap hsolid' htrivia'
    exact ⟨comments ++ statements ++ comments', _, by simp, .of_blocks hgap hfront hgap' hrest⟩

/-! ## Whole sources -/

/-- The first line of a module for the shell. -/
def firstLine : Reader := leaf .hashBangLine fun c => some (c.dropWhile (Glyph.avoids ['\n']))

theorem chunk_eq (c : Cursor) : chunk .lua c = ((Draft.start c).takeIf (Cursor.sees "#") firstLine).bind
    (ended (rules .lua (depthFor c.rest.length))) := by
  simp only [chunk, ended, Option.bind_eq_bind]
  rfl

/-- Where white space comes next, no call does. -/
theorem Ended.head {c : Cursor} {nodes : List Node} {outline : Outline} {j l : Joint w}
    (h : Ended w depth c nodes outline) (hspace : c.rest.head?.all Lexeme.isSpace = true)
    (hj : j.source = c) (hgoes : j.Goes outline l) (hl : l.pieces = []) :
    j.woven.rest.head? = c.rest.head? := by
  have hfirst := h.first hspace
  obtain ⟨front, rfl, hpieces, -, -⟩ := hgoes
  rw [hl, List.append_nil] at hpieces
  rw [← hj, Joint.source, Joint.woven, hpieces]
  cases front with
  | nil => rfl
  | cons p front =>
    cases p with
    | glyph g => rfl
    | mark s => exact absurd rfl (hfirst s.slot (front.map (.map Site.slot)))

/-- The first line for the shell is read in the result, where white space or nothing follows it. -/
theorem firstLine_goes {u m : Cursor} {line : List Node} (hu : Landed u) (hsees : u.sees "#" = true)
    (h : firstLine u = some (line, m)) : ∃ front, Passes u m front
      ∧ m.rest.head?.all Lexeme.isSpace = true ∧ placesIn true line = []
      ∧ ∀ {w : Writing} {i k : Joint w}, i.source = u → i.Goes (bare front) k →
        k.woven.rest.head? = m.rest.head? → i.Intact ∧ ∃ line',
          firstLine i.woven = some (line', k.woven)
            ∧ Node.erasedIn w.result w.written line' = Node.treesIn w.source line := by
  cases h
  obtain ⟨front, hpass, hall⟩ := exists_dropWhile (Glyph.avoids ['\n']) u
  have hstop := head_dropFrom (p := Glyph.avoids ['\n']) u.offset u.rest
  change (u.dropWhile _).rest.head?.all _ = true at hstop
  have hchar : u.char? = some '#' := char?_of_sees rfl hsees
  obtain ⟨g, front, rfl⟩ : ∃ g more, front = g :: more := by
    refine List.exists_cons_of_ne_nil ?_
    rintro rfl
    have hrest : u.rest = (u.dropWhile (Glyph.avoids ['\n'])).rest := hpass.rest
    rw [← hrest] at hstop
    cases hcase : u.rest with
    | nil => simp [Cursor.char?, hcase] at hchar
    | cons g more =>
      rw [Cursor.char?, hcase] at hchar
      have hg : g.char = some '#' := hchar
      simp [hcase, Glyph.avoids, hg] at hstop
  have hg : g.char = some '#' := by
    rw [Cursor.char?, hpass.rest] at hchar
    exact hchar
  refine ⟨g :: front, hpass, ?_, rfl, fun {w i k} hi hgoes hhead => ?_⟩
  · cases hcase : (u.dropWhile (Glyph.avoids ['\n'])).rest with
    | nil => rfl
    | cons g' more =>
      rw [hcase, List.head?_cons, Option.all_some, Bool.not_eq_true'] at hstop
      refine Lexeme.isSpace_of_not_avoids ?_
      simp only [Glyph.avoids, Bool.not_eq_false', Option.any_eq_true, List.contains_eq_mem,
        decide_eq_true_eq] at hstop ⊢
      obtain ⟨ch, hch, hmem⟩ := hstop
      exact ⟨ch, hch, List.mem_cons_of_mem _ hmem⟩
  · have hintact : i.Intact := by
      refine Joint.intact_of_mark (hi ▸ hu) (by rw [hg]; decide) (.inr fun text htext => ?_) hgoes
      exact Joint.sees_pair htext (by rw [hi]; exact hchar) (by decide)
    obtain ⟨-, hwoven⟩ := Joint.goes_bare hgoes
    have hdrop : i.woven.dropWhile (Glyph.avoids ['\n']) = k.woven := by
      have hcursor : i.woven = ⟨i.woven.offset, g :: front ++ k.woven.rest⟩ := by rw [← hwoven.rest]
      rw [hcursor, dropWhile_append hall (by rw [hhead]; exact hstop), ← hwoven.offset]
    have hpos : 0 < g.width := hu.solid g (by rw [hpass.rest]; simp)
    have halike := Joint.alike_leaf (show NodeKind.hashBangLine ≠ .comment by simp) hgoes hpos
    have hk : k.source = u.dropWhile (Glyph.avoids ['\n']) :=
      hgoes.source_eq hi (by simpa using hpass)
    rw [hi, hk] at halike
    exact ⟨hintact, _, by rw [firstLine, leaf, hdrop]; rfl, halike.trees⟩

theorem length_spread (w : Writing) (pieces : List (Piece Site)) :
    (plain pieces).length + (marksOf pieces).length ≤ (w.spread pieces).length := by
  have htext (s : Site) : 1 ≤ (w.text s).length := by
    have hwritten := w.written_text s
    generalize w.text s = text at hwritten
    cases hwritten <;> simp
  induction pieces with
  | nil => simp [plain, marksOf]
  | cons p rest ih =>
    cases p with
    | glyph g =>
      simp only [plain, marksOf, Writing.spread, List.length_cons]
      omega
    | mark s =>
      have hs := htext s
      simp only [plain, marksOf, Writing.spread, List.length_cons, List.length_append]
      omega

/-- The result may be read deeper, by the sites in it. -/
theorem depthFor_woven {outline : Outline} {j l : Joint w} (hgoes : j.Goes outline l)
    (hl : l.pieces = []) : ∃ b, depthFor j.woven.rest.length = depthFor j.source.rest.length + b
      ∧ 16 * outline.count ≤ b := by
  obtain ⟨front, rfl, hpieces, -, -⟩ := hgoes
  rw [hl, List.append_nil] at hpieces
  have hlength := length_spread w j.pieces
  have hcount : Outline.count (front.map (.map Site.slot)) = (marksOf j.pieces).length := by
    simp [Outline.count, hpieces]
  refine ⟨16 * (j.woven.rest.length - j.source.rest.length), ?_, ?_⟩
  · simp only [depthFor, Joint.woven, Joint.source]
    omega
  · rw [hcount]
    simp only [Joint.woven, Joint.source]
    omega

/-- A module is of an outline, over which the result is read to its end. -/
theorem exists_chunk {c : Cursor} {nodes : List Node} (hsolid : Solid c) (h : chunk .lua c = some nodes) :
    ∃ outline : Outline, c.rest = plain outline ∧ outline.isTidy none = true
      ∧ (outline.places c.offset).Perm (placesIn true nodes)
      ∧ ∀ j l : Joint w, j.source = c → j.Goes outline l → l.pieces = [] → ∃ nodes',
        chunk .lua j.woven = some nodes'
          ∧ Node.erasedIn w.result w.written nodes' = Node.treesIn w.source nodes := by
  rw [chunk_eq] at h
  obtain ⟨draft, hfirst, hended⟩ := Option.bind_eq_some_iff.1 h
  obtain ⟨u, hu, htaken⟩ := Option.bind_eq_some_iff.1 hfirst
  by_cases hsees : u.sees "#" = true
  · rw [if_pos hsees] at htaken
    obtain ⟨comments, u', line, m, htrivia, hline, rfl⟩ := take_eq_some htaken
    obtain rfl : u' = u := by
      rw [upcoming?, htrivia] at hu
      exact Option.some.inj hu
    obtain ⟨gap, hgap⟩ := exists_gap hsolid htrivia
    obtain ⟨front, hpass, hspace, hplaces, hgoesLine⟩ := firstLine_goes hgap.landed hsees hline
    have hsolid' : Solid m := (hsolid.passes hgap.passes).passes hpass
    obtain ⟨new, outline, rfl, hrest⟩ := exists_ended (w := w) hsolid' hended
    refine ⟨bare gap ++ (bare front ++ outline), ?_, ?_, ?_, fun j l hj hgoes hl => ?_⟩
    · rw [plain_append, plain_append, plain_bare, plain_bare, ← hrest.rest, ← hpass.rest]
      exact hgap.passes.rest
    · exact Outline.isTidy_append (Outline.isTidy_bare gap)
        (Outline.isTidy_append (Outline.isTidy_bare front) hrest.tidy)
    · have hm : m.offset = c.offset + width gap + width front := by
        rw [hpass.offset, hgap.passes.offset]
      simp only [Outline.places_append, Outline.places_bare, plain_bare, List.nil_append, ← hm,
        placesIn_append, placesIn_comments hgap.areComments, hplaces]
      exact hrest.places
    · obtain ⟨i, hji, hil⟩ := Joint.goes_append.1 hgoes
      obtain ⟨k, hik, hkl⟩ := Joint.goes_append.1 hil
      have hi : i.source = u' := hji.source_eq hj (by simpa using hgap.passes)
      have hk : k.source = m := hik.source_eq hi (by simpa using hpass)
      have hhead := hrest.head hspace hk hkl hl
      obtain ⟨hintact, line', hline', hsame⟩ := hgoesLine hi hik hhead
      obtain ⟨comments', htrivia', hcomments'⟩ :=
        hgap.goes hj hji (show i.Starts (· ∈ []) from .inl hintact)
      rw [hintact.entry] at htrivia'
      obtain ⟨b, hdepth, hb⟩ := depthFor_woven hgoes hl
      simp only [Outline.count_append, Outline.count_bare, Nat.zero_add] at hb
      obtain ⟨new', herased, hread⟩ := hrest.reads k l hk hkl hl b hb
      have hsees' : i.woven.sees "#" = true := by rw [hintact.sees _ rfl, hi, hsees]
      have htakeIf : (Draft.start j.woven).takeIf (Cursor.sees "#") firstLine
          = some ⟨k.woven, comments' ++ line'⟩ := by
        simp [Draft.takeIf, Draft.take, Draft.start, upcoming?, htrivia', hsees', hline']
      refine ⟨comments' ++ line' ++ new', ?_, ?_⟩
      · rw [chunk_eq, hdepth, hj, htakeIf]
        exact hread _
      · have hstart : Node.treesIn w.source (Draft.start c).children = [] := Node.treesIn_nil
        simp only [Node.erasedIn_append, Node.treesIn_append, erasedIn_comments hcomments',
          treesIn_comments hgap.areComments, hstart, hsame, herased, List.nil_append]
  · rw [if_neg hsees] at htaken
    cases htaken
    obtain ⟨new, outline, rfl, hrest⟩ := exists_ended (w := w) hsolid hended
    refine ⟨outline, hrest.rest, hrest.tidy, hrest.places, fun j l hj hgoes hl => ?_⟩
    obtain ⟨b, hdepth, hb⟩ := depthFor_woven hgoes hl
    obtain ⟨new', herased, hread⟩ := hrest.reads j l hj hgoes hl b hb
    have hready := hrest.ready j l hj hgoes hl
    have hfails : Fails w [.statement] (Cursor.sees "#") := fails_sees rfl (by decide) (by decide)
    obtain ⟨e, he, hnone⟩ := hfails.ready hready (by rw [hj]; exact hu) (Bool.eq_false_iff.2 hsees)
    refine ⟨[] ++ new', ?_, herased⟩
    have htakeIf : (Draft.start j.woven).takeIf (Cursor.sees "#") firstLine
        = some (Draft.start j.woven) := by
      simp [Draft.takeIf, Draft.start, he, hnone]
    rw [chunk_eq, hdepth, hj, htakeIf]
    exact hread []

end LuaCoverage.Instrument
