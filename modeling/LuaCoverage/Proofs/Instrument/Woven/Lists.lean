import LuaCoverage.Proofs.Instrument.Woven.Expressions

/-!
# Values and lists in a woven source

An expression is a value where no call stands around the whole of it: such calls stand around the
operands of `and` and `or` only, and around conditions. The items of a list are values, and whether
a list goes on is told by what comes next, where no site stands.

Results:
* `weaves_simpleExpression`, `enters_rule`: expressions and their operators.
* `fields_rule`: the fields of a table.
* `separated_rule`: items with commas between them.
-/

namespace LuaCoverage.Instrument
open LuaCoverage.Lua LuaCoverage.Text LuaCoverage.Lua.Cursor LuaCoverage.Lua.Grammar
open LuaCoverage.Analysis

variable {w : Writing} {depth : Nat}

/-! ## Simple expressions -/

/-- The word that comes next tells two rules apart. -/
theorem WeavesIf.iteWord {pre : Cursor → Prop} {q : Manner} (word : String)
    {readA readB : Reader} {readA' readB' : Nat → Reader} (hlead : q.lead = none)
    (hA : Weaves w q readA readA') (hB : Weaves w q readB readB') :
    WeavesIf w pre q (fun c => if Lexeme.wordAt .lua c = word then readA c else readB c)
      (fun b c => if Lexeme.wordAt .lua c = word then readA' b c else readB' b c) := by
  have hword (j : Joint w) (h : j.Intact) : decide (Lexeme.wordAt .lua j.woven = word)
      = decide (Lexeme.wordAt .lua j.source = word) := by rw [h.word]
  have hall : WeavesIf w pre q
      (fun c => if decide (Lexeme.wordAt .lua c = word) then readA c else readB c)
      (fun b c => if decide (Lexeme.wordAt .lua c = word) then readA' b c else readB' b c) :=
    .ite (tells_of_intact hlead hword) (tells_of_intact hlead fun j h => congrArg _ (hword j h))
      (hA.weaken _) (hB.weaken _)
  simpa only [decide_eq_true_eq] using hall

/-- A word as a value. -/
def constant (kind : NodeKind) : Reader := leaf kind fun c => (Lexeme.word? .lua c).map (·.2)

def functionValue (table : Rules) : Reader := fun c =>
  (Draft.start c).take (keyword .lua "function") >>= fun draft =>
    functionBody .lua table draft >>= Draft.finish .functionDefinition

/-- What a simple expression is if it is no string, no table, no number and no mark. -/
def worded (table : Rules) : Reader := fun c =>
  if Lexeme.wordAt .lua c = "nil" then constant .nilValue c
  else if Lexeme.wordAt .lua c = "true" then constant .trueValue c
  else if Lexeme.wordAt .lua c = "false" then constant .falseValue c
  else if Lexeme.wordAt .lua c = "function" then functionValue table c
  else prefixExpression .lua table c

theorem simpleExpression_eq (table : Rules) : simpleExpression .lua table = fun c =>
    if seesString .lua c then string .lua table c
    else if c.sees "\x7b" then Grammar.table table c
    else if c.sees "..." then leaf .vararg (Cursor.text? "...") c
    else if seesNumber c then leaf .number (Lexeme.number? .lua) c
    else worded table c := by
  funext c
  simp only [simpleExpression, worded, constant, functionValue]
  simp

theorem weaves_functionValue {follow : Sight} (hblock : BlockWeaves w depth ["end"])
    (hitems : GoalWeaves w depth .items (.separated .parameter)) :
    Weaves w (.node none (none, false) follow) (functionValue (rules .lua depth))
      fun b => functionValue (rules .lua (depth + b)) :=
  .start (weaves_keyword "function") (Sight.within_all _) rfl nofun fun c nodes next hpost _ =>
    continues_functionBody (.inl rfl) hblock hitems fun x hx => by
      obtain rfl := hpost
      rw [List.mem_singleton.1 hx]
      exact ⟨.inr (Nat.le_refl _), by simp [Node.role], by simp [Node.role], by simp [Node.kind]⟩

/-- The rules that expressions ask for weave. -/
structure Operands (w : Writing) (depth : Nat) : Prop where
  enters : ∀ d ≤ depth, Enters w d
  suffixes : SuffixesWeave w depth
  fields : GoalWeaves w depth .enclosed .fields
  parameters : GoalWeaves w depth .items (.separated .parameter)
  block : BlockWeaves w depth ["end"]

theorem Operands.expression (h : Operands w depth) (level : Nat) :
    GoalWeaves w depth (.expression none level (decide (level ≤ 2)) false) (.expression level) :=
  (h.enters depth (Nat.le_refl _)).weaves level

theorem fails_seesString {slots : List Site.Slot} : Fails w slots (seesString .lua) where
  intact j hintact htest := by
    simp only [seesString, Lexeme.startsString, Bool.or_eq_false_iff, hintact.char?] at htest ⊢
    exact ⟨⟨htest.1.1, Lexeme.isSome_longOpen? j.woven_rest htest.1.2⟩, by simp⟩
  mark _ _ _ hpieces _ := (Joint.entry_mark hpieces).seesString

theorem fails_seesNumber {slots : List Site.Slot} : Fails w slots seesNumber where
  intact _ := shy_seesNumber
  mark _ _ _ hpieces _ := (Joint.entry_mark hpieces).seesNumber

theorem weaves_vararg {follow : Sight} : Weaves w (.node none (none, false) follow)
    (leaf .vararg (Cursor.text? "...")) fun _ => leaf .vararg (Cursor.text? "...") :=
  (weaves_text ⟨rfl, by simp⟩ (by decide)).leafNode rfl

theorem weaves_simpleExpression (h : Operands w depth) :
    Weaves w .prefixed (simpleExpression .lua (rules .lua depth))
      fun b => simpleExpression .lua (rules .lua (depth + b)) := by
  have hconstant (kind : NodeKind) (hkind : (isPlain kind = true ∧ kind ≠ .comment)
      ∧ isOrdinary kind = true) :
      Weaves w .prefixed (constant kind) fun _ => constant kind :=
    Weaves.loosen ((weaves_anyWord hkind.1).leafNode hkind.2) fun _ => id
  have hworded : Weaves w .prefixed (worded (rules .lua depth))
      fun b => worded (rules .lua (depth + b)) :=
    .iteWord "nil" rfl (hconstant .nilValue (by decide)) (.iteWord "true" rfl
      (hconstant .trueValue (by decide)) (.iteWord "false" rfl (hconstant .falseValue (by decide))
        (.iteWord "function" rfl (weaves_functionValue h.block h.parameters)
          (weaves_prefixExpression h.suffixes (h.expression 0)))))
  have hnumber : Weaves w .prefixed (fun c => if seesNumber c then leaf .number (Lexeme.number? .lua) c
      else worded (rules .lua depth) c) fun b c => if seesNumber c then
        leaf .number (Lexeme.number? .lua) c else worded (rules .lua (depth + b)) c := by
    refine .ite ?_ fails_seesNumber.holds.tells (Weaves.weaken (weaves_number.leafNode rfl) _)
      (hworded.weaken _)
    refine Holds.tells (.of_reads fun b e nodes n hread => ?_)
    obtain ⟨next, hnext, -⟩ := Option.map_eq_some_iff.1 hread
    exact seesNumber_of_number? hnext
  have hvararg : Weaves w .prefixed (fun c => if c.sees "..." then leaf .vararg (Cursor.text? "...") c
      else if seesNumber c then leaf .number (Lexeme.number? .lua) c else worded (rules .lua depth) c)
      fun b c => if c.sees "..." then leaf .vararg (Cursor.text? "...") c else if seesNumber c then
        leaf .number (Lexeme.number? .lua) c else worded (rules .lua (depth + b)) c := by
    refine .ite ?_ (fails_sees rfl (by decide) (by decide)).holds.tells (weaves_vararg.weaken _)
      (hnumber.weaken _)
    refine Holds.tells (.of_reads fun b e nodes n hread => ?_)
    obtain ⟨next, hnext, -⟩ := Option.map_eq_some_iff.1 hread
    rw [Cursor.sees, hnext]
    rfl
  simp only [simpleExpression_eq]
  refine .ite ?_ fails_seesString.holds.tells
    ((weaves_string_node fun b => rules .lua (depth + b)).weaken _)
    (.iteSees _ rfl rfl ((weaves_table h.fields).weaken _) (hvararg.weaken _))
  refine Holds.tells (.of_reads fun b e nodes n hread => ?_)
  rw [string_eq] at hread
  obtain ⟨next, hnext, -⟩ := Option.map_eq_some_iff.1 hread
  exact (char?_of_string? hnext).1

/-! ## Expressions -/

theorem Joint.Intact.unaryAt? {j : Joint w} (h : j.Intact) :
    Grammar.unaryAt? .lua j.woven = Grammar.unaryAt? .lua j.source := by
  rw [Grammar.unaryAt?, Grammar.unaryAt?, h.word]
  simp only [Dialect.unaryMarks, List.find?_cons, h.sees "-" rfl, h.sees "#" rfl,
    h.sees "~" rfl, List.find?_nil]

/-- What is read in front of its operators is entered. -/
theorem Reads.entered {c n : Cursor} {x : Node} {outline : Outline} {read' : Nat → Reader}
    (h : Reads w .prefixed c n [x] outline read') (hspans : Spans none c [x] n) (level : Nat)
    (henters : ∀ (j : Joint w) b level' x' m nodes next, j.source = c → j.Intact →
      read' b j.entry = some ([x'], m) →
      rules .lua (depth + b) (.operators level' x') m = some (nodes, next) →
      rules .lua (depth + 1 + b) (.expression level') j.entry = some (nodes, next)) :
    Entered w (depth + 1) depth level c x n outline false false where
  passes := h.passes
  nonempty := h.nonempty
  leads := by
    obtain ⟨p, rest, houtline, hp | ⟨slot, hslot, -⟩⟩ := h.leads
    · exact ⟨p, rest, houtline, .inl hp⟩
    · cases hslot
  tidy := h.tidy
  places := by
    have hwalked : isWalked x = true := isWalked_of_spans hspans x List.mem_cons_self
    simpa [Manner.prefixed, Manner.node, placesIn_cons, hwalked, wraps] using h.places
  spans := hspans
  starts := fun j l hj hgoes hl => .inl (h.starts j l hj hgoes hl).intact
  enters := fun j l hj hgoes hl b hb => by
    have hintact := (h.starts j l hj hgoes hl).intact
    obtain ⟨nodes', hread', halike, hkinds⟩ := h.reads j l hj hgoes hl b hb
    obtain ⟨x', rfl⟩ : ∃ x', nodes' = [x'] := by
      have hlength := congrArg List.length hkinds
      rw [List.length_map, List.length_map] at hlength
      exact List.length_eq_one_iff.1 hlength
    exact ⟨x', halike, fun level' _ nodes m hnodes =>
      henters j b level' x' l.woven nodes m hj hintact hread' hnodes⟩

/-- Reads a unary operator and its operand. -/
def unary (operator : Reader) (table : Rules) : Reader := fun c =>
  (Draft.start c).take operator >>= fun draft =>
    draft.take (table (.expression (Dialect.unaryLevel .lua + 1))) >>=
      Draft.finish .unaryExpression

/-- Goes on with the operators behind what was read. -/
def operated (table : Rules) (level : Nat) : List Node × Cursor → Read
  | ([left], next) => table (.operators level left) next
  | _ => none

theorem expression_of_unary {operator : Reader} {c : Cursor} (h : unaryAt? .lua c = some operator)
    (table : Rules) (level : Nat) :
    expression .lua table level c = unary operator table c >>= operated table level := by
  unfold expression
  rw [h]
  simp only [unary, bind_assoc]
  rfl

theorem expression_of_none {c : Cursor} (h : unaryAt? .lua c = none) (table : Rules) (level : Nat) :
    expression .lua table level c = simpleExpression .lua table c >>= operated table level := by
  unfold expression
  rw [h]
  cases simpleExpression .lua table c with
  | none => rfl
  | some found =>
    obtain ⟨nodes, next⟩ := found
    rcases nodes with _ | ⟨x, _ | ⟨y, rest⟩⟩ <;> rfl

/-- A mark is the first glyph of a longer one only if the second glyph comes right behind it. -/
theorem sees_pair_of_char? {text pair : String} {t second : Char} (htext : text.toList = [t])
    (hpair : pair.toList = [t, second]) (hsecond : isAsciiSpace second = false ∧ second ≠ '-')
    {u m e : Cursor} {nodes comments : List Node} (hmark : mark text u = some (nodes, m))
    (htrivia : Lexeme.trivia? m = some (comments, e)) (he : e.char? ≠ some second) :
    u.sees pair = false := by
  have hchar : u.char? = some t := char?_of_sees htext (mark_sees hmark)
  by_contra hsees
  rw [Bool.not_eq_false] at hsees
  obtain ⟨o, rest⟩ := u
  obtain ⟨m', hm', heq⟩ := Option.map_eq_some_iff.1 hmark
  cases heq
  cases rest with
  | nil => cases hchar
  | cons g rest =>
    have hg : g.char = some t := hchar
    rw [Cursor.sees, Cursor.text?, hpair] at hsees
    rw [Cursor.text?, htext] at hm'
    simp only [textFrom?, hg, if_true, Option.some.injEq] at hsees hm'
    subst hm'
    cases rest with
    | nil => cases hsees
    | cons g' rest =>
      have hg' : g'.char = some second := by
        by_contra hnot
        simp [textFrom?, hnot] at hsees
      have hlands : Lexeme.trivia? ⟨o + g.width, g' :: rest⟩
          = some ([], ⟨o + g.width, g' :: rest⟩) := by
        refine trivia?_of_lands ?_ ?_
        · simp [Lexeme.isSpace, Glyph.isIn, hg', hsecond.1]
        · rw [Lexeme.comment?, Option.map_eq_none_iff]
          simp [Cursor.text?, textFrom?, hg', hsecond.2]
      rw [hlands] at htrivia
      cases htrivia
      exact he hg'

/-- In front of a lexeme that does not make it longer a mark is a mark of one glyph. -/
theorem sees_pairs_of_char? {text : String} {t : Char} (htext : text.toList = [t]) {u m e : Cursor}
    {nodes comments : List Node} (hmark : mark text u = some (nodes, m))
    (htrivia : Lexeme.trivia? m = some (comments, e)) (he : ∀ second ∈ ['.', ':', '='],
      e.char? ≠ some second) : ∀ pair ∈ Joint.pairMarks, u.sees pair = false := by
  refine sees_pairMarks (char?_of_sees htext (mark_sees hmark)) fun pair hpair hhead => ?_
  obtain ⟨first, second, hlist, hmem⟩ : ∃ first second, pair.toList = [first, second]
      ∧ second ∈ ['.', ':', '='] := by
    simp only [Joint.pairMarks, List.mem_cons, List.not_mem_nil, or_false] at hpair
    rcases hpair with rfl | rfl | rfl | rfl <;> exact ⟨_, _, rfl, by decide⟩
  obtain rfl : first = t := by simpa [hlist] using hhead
  have hsecond : isAsciiSpace second = false ∧ second ≠ '-' := by
    simp only [List.mem_cons, List.not_mem_nil, or_false] at hmem
    rcases hmem with rfl | rfl | rfl <;> decide
  exact sees_pair_of_char? htext hlist hsecond hmark htrivia (he second hmem)

/-- In front of a value a mark is no part of a longer one that ends with an equals sign. -/
theorem sees_pair_of_isStart {text : String} {t : Char} (htext : text.toList = [t])
    (ht : t = '~' ∨ t = '=') {u m e : Cursor} {nodes comments : List Node}
    (hmark : mark text u = some (nodes, m)) (htrivia : Lexeme.trivia? m = some (comments, e))
    (he : isStart e = true) : ∀ pair ∈ Joint.pairMarks, u.sees pair = false := by
  have hequals : e.char? ≠ some '=' := by
    obtain ⟨ch, hch, hnot⟩ := char?_of_isStart he
    rw [hch]
    rintro heq
    cases heq
    exact hnot (by decide)
  refine sees_pairMarks (char?_of_sees htext (mark_sees hmark)) fun pair hpair hhead => ?_
  have hlist : pair.toList = [t, '='] := by
    simp only [Joint.pairMarks, List.mem_cons, List.not_mem_nil, or_false] at hpair
    rcases ht with rfl | rfl <;> rcases hpair with rfl | rfl | rfl | rfl <;> first | rfl | cases hhead
  exact sees_pair_of_char? htext hlist (by decide) hmark htrivia hequals

theorem isStart_of_take {level depth : Nat} {draft draft' : Draft}
    (h : draft.take (rules .lua depth (.expression level)) = some draft') :
    ∃ comments e, Lexeme.trivia? draft.cursor = some (comments, e) ∧ isStart e = true := by
  obtain ⟨comments, e, nodes, n, htrivia, hread, -⟩ := take_eq_some h
  refine ⟨comments, e, htrivia, ?_⟩
  cases depth with
  | zero => cases hread
  | succ depth =>
    exact isStart_of_expression (Joint.trivia?_trivia? htrivia) hread

theorem weaves_unary {c0 : Cursor} {operator : Reader} (h : unaryAt? .lua c0 = some operator)
    (hoperand : GoalWeaves w depth (.expression none 12 false false) (.expression 12)) :
    Weaves w .prefixed (unary operator (rules .lua depth))
      fun b => unary operator (rules .lua (depth + b)) := by
  have hbehind {c0 : Cursor} {draft : Draft} {same : List Node → List Node → Prop} :
      Continues w .prefixed c0 ⟨[.opener], false⟩ [] same draft
        (fun draft => draft.take (rules .lua depth (.expression 12)) >>= Draft.finish .unaryExpression)
        fun b draft => draft.take (rules .lua (depth + b) (.expression 12)) >>=
          Draft.finish .unaryExpression :=
    .take hoperand (Sight.within_refl _) fun _ _ _ _ _ _ _ _ => .finish (by decide)
  unfold unaryAt? at h
  split at h
  · cases h
    exact .start (weaves_keyword "not") (Sight.within_all _) rfl nofun fun _ _ _ _ _ => hbehind
  · obtain ⟨text, htext, rfl⟩ := Option.map_eq_some_iff.1 h
    have hmem := List.mem_of_find?_eq_some htext
    simp only [Dialect.unaryMarks, List.mem_cons, List.not_mem_nil, or_false] at hmem
    rcases hmem with rfl | rfl | rfl
    · exact .start (weaves_mark (by decide)) (Sight.within_all _) rfl nofun fun _ _ _ _ _ => hbehind
    · exact .start (weaves_mark (by decide)) (Sight.within_all _) rfl nofun fun _ _ _ _ _ => hbehind
    · refine WeavesIf.weaves (WeavesIf.start (weavesIf_mark rfl (by decide)) (Sight.within_all _) rfl
        nofun fun _ _ _ _ _ _ => hbehind) fun c nodes n hc hread => ?_
      obtain ⟨draft, htake, hrest⟩ := Option.bind_eq_some_iff.1 hread
      obtain ⟨comments, u, token, next, htrivia, hmark, rfl⟩ := take_eq_some htake
      obtain ⟨-, rfl⟩ : [] = comments ∧ c = u := by simpa [Draft.start, hc.trivia?] using htrivia
      obtain ⟨draft', htake', -⟩ := Option.bind_eq_some_iff.1 hrest
      obtain ⟨comments', e, htrivia', he⟩ := isStart_of_take htake'
      exact sees_pair_of_isStart rfl (.inl rfl) hmark htrivia' he

/-- Expressions are entered if what they are made of weaves. -/
theorem enters_rule (h : Operands w depth) : Enters w (depth + 1) := by
  intro level c nodes n hc hread
  have hentered {read : Reader} {read' : Nat → Reader} {first : List Node} {m : Cursor}
      (hweaves : Weaves w .prefixed read read') (hfirst : read c = some (first, m))
      (hrest : operated (rules .lua depth) level (first, m) = some (nodes, n))
      (henters : ∀ (j : Joint w) b level' x' m nodes next, j.source = c → j.Intact →
        read' b j.entry = some ([x'], m) →
        rules .lua (depth + b) (.operators level' x') m = some (nodes, next) →
        rules .lua (depth + 1 + b) (.expression level') j.entry = some (nodes, next)) :
      ∃ x outline blunt operators, nodes = [x]
        ∧ Entered w (depth + 1) operators level c x n outline blunt false ∧ 1 ≤ operators
        ∧ operators < depth + 1 ∧ (blunt = true → level ≤ 2) ∧ Stops level n := by
    obtain ⟨hspans, outline, hreads⟩ := hweaves c first m hc trivial hfirst
    obtain ⟨x, rfl, -⟩ := id hspans
    obtain ⟨y, outline', blunt', operators', hy⟩ := (hreads.entered hspans level henters).operators hc
      (Nat.lt_succ_self _) (fun d hd => h.enters d (Nat.le_of_lt hd)) nofun hrest
    exact ⟨y, outline', blunt', operators', hy⟩
  have hdepth (b : Nat) : depth + 1 + b = depth + b + 1 := by omega
  rw [rules, rule] at hread
  cases hunary : unaryAt? .lua c with
  | some operator =>
    rw [expression_of_unary hunary] at hread
    obtain ⟨⟨first, m⟩, hfirst, hrest⟩ := Option.bind_eq_some_iff.1 hread
    refine hentered (weaves_unary hunary (h.expression 12)) hfirst hrest
      fun j b level' x' m nodes next hj hintact hx hoperators => ?_
    have hunary' : unaryAt? .lua j.woven = some operator := by rw [hintact.unaryAt?, hj, hunary]
    rw [hintact.entry] at hx ⊢
    rw [hdepth, rules, rule, expression_of_unary hunary', hx]
    exact hoperators
  | none =>
    rw [expression_of_none hunary] at hread
    obtain ⟨⟨first, m⟩, hfirst, hrest⟩ := Option.bind_eq_some_iff.1 hread
    refine hentered (weaves_simpleExpression h) hfirst hrest
      fun j b level' x' m nodes next hj hintact hx hoperators => ?_
    have hunary' : unaryAt? .lua j.woven = none := by rw [hintact.unaryAt?, hj, hunary]
    rw [hintact.entry] at hx ⊢
    rw [hdepth, rules, rule, expression_of_none hunary', hx]
    exact hoperators

/-! ## Fields -/

section
variable {p : Manner} {c0 : Cursor} {follow : Sight} {extra : List Spot}
  {same : List Node → List Node → Prop} {draft : Draft} {read : Reader} {read' : Nat → Reader}
  {k : Draft → Read} {k' : Nat → Draft → Read}

/-- What is read starts like an expression. -/
def ReadsValue (read : Reader) : Prop := ∀ c nodes n, Lexeme.trivia? c = some ([], c) →
  read c = some (nodes, n) → isStart c = true

theorem readsValue_expression (depth level : Nat) :
    ReadsValue (rules .lua depth (.expression level)) := by
  intro c nodes n hc hread
  cases depth with
  | zero => cases hread
  | succ depth => exact isStart_of_expression hc hread

theorem ReadsValue.take {draft' : Draft} (h : ReadsValue read) (htake : draft.take read = some draft') :
    ∃ comments e, Lexeme.trivia? draft.cursor = some (comments, e) ∧ isStart e = true := by
  obtain ⟨comments, e, nodes, n, htrivia, hread, -⟩ := take_eq_some htake
  exact ⟨comments, e, htrivia, h e nodes n (Joint.trivia?_trivia? htrivia) hread⟩

/-- A rule continues with an equals sign and a value. -/
theorem Continues.assign (hvalue : ReadsValue read) (hfollow : follow.Within .all)
    (hk : ∀ comments (u : Cursor) nodes next, Lexeme.AreComments comments →
      nodes = [.mk (.token "=") none u.offset next.offset []] →
      draft.cursor.offset ≤ u.offset → u.offset < next.offset →
      Continues w p c0 follow extra AnyKinds ⟨next, draft.children ++ comments ++ nodes⟩
        (fun draft => draft.take read >>= k) fun b draft => draft.take (read' b) >>= k' b) :
    Continues w p c0 ⟨[], false⟩ extra same draft
      (fun draft => draft.take (mark "=") >>= fun draft => draft.take read >>= k)
      fun b draft => draft.take (mark "=") >>= fun draft => draft.take (read' b) >>= k' b := by
  refine .takeOf (weavesIf_mark rfl (by decide)) (fun u r hu hr => ?_) hfollow
    fun comments u nodes next hcomments hpost hle hlt => ?_
  · obtain ⟨draft', htake, hrest⟩ := Option.bind_eq_some_iff.1 hr
    obtain ⟨comments, u', token, next, htrivia, hmark, rfl⟩ := take_eq_some htake
    obtain rfl : u = u' := by
      rw [upcoming?, htrivia] at hu
      exact (Option.some.inj hu).symm
    obtain ⟨draft'', htake', -⟩ := Option.bind_eq_some_iff.1 hrest
    obtain ⟨comments', e, htrivia', he⟩ := hvalue.take htake'
    exact sees_pair_of_isStart rfl (.inr rfl) hmark htrivia' he
  · have h := hk comments u nodes next hcomments hpost hle hlt
    rwa [← List.append_nil extra] at h

end

def bracketField (table : Rules) : Reader := fun c =>
  (Draft.start c).take (mark "[") >>= fun draft => draft.take (table (.expression 0)) >>= fun draft =>
    draft.take (mark "]") >>= fun draft => draft.take (mark "=") >>= fun draft =>
      draft.take (table (.expression 0)) >>= Draft.finish .field

def namedField (table : Rules) : Reader := fun c =>
  (Draft.start c).take (name .lua) >>= fun draft => draft.take (mark "=") >>= fun draft =>
    draft.take (table (.expression 0)) >>= Draft.finish .field

def valueField (table : Rules) : Reader := fun c =>
  (Draft.start c).take (table (.expression 0)) >>= Draft.finish .field

/-- Whether a key in brackets stands at a cursor, or a name with an equals sign behind it. -/
def isBracketed (c : Cursor) : Bool := c.sees "[" && !(Lexeme.longOpen? c).isSome

def isNamed (c : Cursor) : Bool :=
  match Lexeme.word? .lua c with
  | some (word, next) =>
    !(Dialect.expressionWords .lua).contains word && isNext "=" next && !isNext "==" next
  | none => false

theorem field_eq (table : Rules) : field .lua table = fun c =>
    if isBracketed c then bracketField table c
    else if isNamed c then namedField table c else valueField table c := by
  rfl

theorem weaves_bracketField (hexpression : GoalWeaves w depth .value (.expression 0)) :
    Weaves w (.node none (none, false) (.behind true)) (bracketField (rules .lua depth))
      fun b => bracketField (rules .lua (depth + b)) :=
  .start (weaves_mark (by decide)) (Sight.within_all _) rfl nofun fun _ _ _ _ _ =>
    .take hexpression (Sight.blunt_within _) fun _ _ _ _ _ _ _ _ =>
      .take (weaves_mark (by decide)) (Sight.within_all _) fun _ _ _ _ _ _ _ _ =>
        .assign (readsValue_expression depth 0) (Sight.within_all _) fun _ _ _ _ _ _ _ _ =>
          .take hexpression (Sight.within_refl _) fun _ _ _ _ _ _ _ _ => .finish (by decide)

theorem weaves_namedField (hexpression : GoalWeaves w depth .value (.expression 0)) :
    Weaves w (.node none (none, false) (.behind true)) (namedField (rules .lua depth))
      fun b => namedField (rules .lua (depth + b)) :=
  .start weaves_name (Sight.within_all _) rfl nofun fun _ _ _ _ _ =>
    .assign (readsValue_expression depth 0) (Sight.within_all _) fun _ _ _ _ _ _ _ _ =>
      .take hexpression (Sight.within_refl _) fun _ _ _ _ _ _ _ _ => .finish (by decide)

theorem weaves_valueField (hexpression : GoalWeaves w depth .value (.expression 0)) :
    Weaves w (.node none (some .opener, false) (.behind true)) (valueField (rules .lua depth))
      fun b => valueField (rules .lua (depth + b)) :=
  .start hexpression (Sight.within_refl _) rfl nofun fun _ _ _ _ _ => .finish (by decide)

theorem sees_of_take {text : String} {e : Cursor} {k : Draft → Read} {r : List Node × Cursor}
    (he : Lexeme.trivia? e = some ([], e)) (h : (Draft.start e).take (mark text) >>= k = some r) :
    e.sees text = true := by
  obtain ⟨draft, htake, -⟩ := Option.bind_eq_some_iff.1 h
  obtain ⟨comments, u, token, next, htrivia, hmark, -⟩ := take_eq_some htake
  obtain ⟨-, rfl⟩ : [] = comments ∧ e = u := by simpa [Draft.start, he] using htrivia
  exact mark_sees hmark

/-- A value that starts with a bracket is a long string. -/
theorem isSome_longOpen?_of_isStart {e : Cursor} (h : isStart e = true) (hsees : e.sees "[" = true) :
    (Lexeme.longOpen? e).isSome = true := by
  have hchar : e.char? = some '[' := char?_of_sees rfl hsees
  have hword : (Lexeme.word? .lua e).isSome = false := by
    rw [Lexeme.word?_eq_none_iff.2 (by rw [hchar]; decide)]
    rfl
  have hnumber : seesNumber e = false := by
    have hpoint : e.text? "." = none := by
      have hsees := sees_eq_false (c := e) "." (t := '.') rfl (by simp [hchar])
      rwa [Cursor.sees, Option.isSome_eq_false_iff, Option.isNone_iff_eq_none] at hsees
    rw [seesNumber, hchar, hpoint]
    rfl
  simpa [isStart, seesString, Lexeme.startsString, hchar, hword, hnumber, Dialect.unaryMarks,
    sees_eq_false (c := e) "\x7b" (t := '\x7b') rfl (by simp [hchar]),
    sees_eq_false (c := e) "(" (t := '(') rfl (by simp [hchar]),
    sees_eq_false (c := e) "..." (t := '.') rfl (by simp [hchar]),
    sees_eq_false (c := e) "-" (t := '-') rfl (by simp [hchar]),
    sees_eq_false (c := e) "#" (t := '#') rfl (by simp [hchar]),
    sees_eq_false (c := e) "~" (t := '~') rfl (by simp [hchar])] using h

/-- Whether a word with an equals sign behind it stands at a cursor. -/
def isAssigned (c : Cursor) : Bool :=
  match Lexeme.word? .lua c with
  | some (_, next) => isNext "=" next && !isNext "==" next
  | none => false

theorem isNamed_eq (c : Cursor) :
    isNamed c = (!(Dialect.expressionWords .lua).contains (Lexeme.wordAt .lua c) && isAssigned c) := by
  unfold isNamed isAssigned
  cases hword : Lexeme.word? .lua c with
  | none => simp
  | some found =>
    rw [Joint.wordAt_of_word? hword]
    exact Bool.and_assoc ..

theorem isAssigned_of_namedField {e : Cursor} {r : List Node × Cursor}
    (he : Lexeme.trivia? e = some ([], e)) (h : namedField (rules .lua depth) e = some r) :
    isAssigned e = true ∧ (Lexeme.word? .lua e).isSome = true := by
  obtain ⟨draft, htake, hrest⟩ := Option.bind_eq_some_iff.1 h
  obtain ⟨comments, u, token, next, htrivia, hname, rfl⟩ := take_eq_some htake
  obtain ⟨-, rfl⟩ : [] = comments ∧ e = u := by simpa [Draft.start, he] using htrivia
  obtain ⟨next', hnext, heq⟩ := Option.map_eq_some_iff.1 hname
  obtain ⟨-, rfl⟩ := Prod.mk.inj heq
  obtain ⟨⟨word, next'⟩, hword, rfl⟩ := Option.map_eq_some_iff.1 hnext
  obtain ⟨draft', htake', hrest'⟩ := Option.bind_eq_some_iff.1 hrest
  obtain ⟨comments', u', token', behind, htrivia', hmark, rfl⟩ := take_eq_some htake'
  obtain ⟨draft'', htake'', -⟩ := Option.bind_eq_some_iff.1 hrest'
  obtain ⟨comments'', e', htrivia'', he'⟩ := (readsValue_expression depth 0).take htake''
  have hpair := sees_pair_of_isStart rfl (.inr rfl) hmark htrivia'' he' "==" (by decide)
  have hupcoming : upcoming? next' = some u' := Option.map_eq_some_iff.2 ⟨_, htrivia', rfl⟩
  refine ⟨?_, by rw [hword]; rfl⟩
  simp [isAssigned, hword, isNext, hupcoming, hpair, mark_sees hmark]

/-- The name of a call that was written is followed by a parenthesis. -/
theorem isAssigned_opener {j : Joint w} {s : Site} {rest : List (Piece Site)}
    (h : j.pieces = .mark s :: rest) (hslot : s.slot = .opener) : isAssigned j.entry = false := by
  have hagrees := j.agrees
  rw [h] at hagrees
  have hgoes : j.Goes [.mark .opener] ⟨j.offset, _, rest, hagrees.2⟩ :=
    ⟨[.mark s], by simp [Piece.map, hslot], h, rfl, by simp [Writing.spread]⟩
  obtain ⟨s', hentry, -⟩ := Joint.entry_opener hgoes
  have hword := (Joint.isWord_name w).word? (endsWord_paren
    (Writing.joined (w.arguments s') ++ .ofChar ',' :: .ofChar ' ' :: w.spread rest)) (j.position + 1)
  have hparen (o : Nat) (more : List Glyph) : isNext "=" ⟨o, .ofChar '(' :: more⟩ = false := by
    have htrivia : Lexeme.trivia? ⟨o, .ofChar '(' :: more⟩ = some ([], ⟨o, .ofChar '(' :: more⟩) :=
      trivia?_of_lands rfl rfl
    rw [isNext, upcoming?, htrivia]
    exact sees_eq_false _ (t := '=') rfl (by simp [Cursor.char?, Glyph.ofChar])
  rw [isAssigned, hentry]
  simp only [Joint.woven] at hword ⊢
  simp only [hword, hparen, Bool.false_and]

/-- Where a word starts, there is no mark. -/
theorem sees_of_word? {c next : Cursor} {word : String}
    (h : Lexeme.word? .lua c = some (word, next)) (text : String) {t : Char} {more : List Char}
    (htext : text.toList = t :: more) (ht : Dialect.lua.isNameStart t = false) :
    c.sees text = false := by
  refine sees_eq_false _ htext fun hchar => ?_
  rw [Lexeme.word?_eq_none_iff.2 (by simp [hchar, ht])] at h
  cases h

theorem seesString_of_word? {c next : Cursor} {word : String}
    (h : Lexeme.word? .lua c = some (word, next)) : seesString .lua c = false := by
  have hopen : (Lexeme.longOpen? c).isSome = false := by
    have hsees := sees_of_word? h "[" rfl (by decide)
    rw [Cursor.sees, Option.isSome_eq_false_iff, Option.isNone_iff_eq_none] at hsees
    rw [Lexeme.longOpen?_eq, hsees]
    rfl
  have hquote (t : Char) (ht : Dialect.lua.isNameStart t = false) : c.char? ≠ some t := fun hchar => by
    rw [Lexeme.word?_eq_none_iff.2 (by simp [hchar, ht])] at h
    cases h
  simp [seesString, Lexeme.startsString, hopen, hquote '"' (by decide), hquote '\'' (by decide)]

theorem seesNumber_of_word? {c next : Cursor} {word : String}
    (h : Lexeme.word? .lua c = some (word, next)) : seesNumber c = false := by
  have hsees := sees_of_word? h "." rfl (by decide)
  rw [Cursor.sees, Option.isSome_eq_false_iff, Option.isNone_iff_eq_none] at hsees
  have hdigit : c.char?.any isAsciiDigit = false := by
    cases hchar : c.char? with
    | none => rfl
    | some ch =>
      by_contra hnot
      have hdigit : isAsciiDigit ch = true := by simpa using hnot
      have hstart : Dialect.lua.isNameStart ch = false := by simp [Dialect.isNameStart, hdigit]
      rw [Lexeme.word?_eq_none_iff.2 (by simp [hchar, hstart])] at h
      cases h
  rw [seesNumber, hdigit, hsees]
  rfl

/-- A name is a prefix expression. -/
theorem prefixExpression_of_word? {table : Rules} {c next : Cursor} {word : String}
    (hc : Lexeme.trivia? c = some ([], c)) (h : Lexeme.word? .lua c = some (word, next)) :
    prefixExpression .lua table c
      = table (.suffixes (.mk .identifier none c.offset next.offset [])) next := by
  have hname : name .lua c = some ([.mk .identifier none c.offset next.offset []], next) := by
    rw [name, leaf, h]
    rfl
  have htake := take_of_trivia? (.start c) hc hname
  simp only [prefixExpression, sees_of_word? h "(" rfl (by decide), htake]
  rfl

theorem expression_of_word? {table : Rules} {level : Nat} {c next : Cursor} {word : String}
    (hc : Lexeme.trivia? c = some ([], c)) (h : Lexeme.word? .lua c = some (word, next))
    (hnot : word ∉ Dialect.expressionWords .lua) : expression .lua table level c
      = table (.suffixes (.mk .identifier none c.offset next.offset [])) next
        >>= operated table level := by
  have hword : Lexeme.wordAt .lua c = word := Joint.wordAt_of_word? h
  simp only [Dialect.expressionWords, List.mem_cons, List.not_mem_nil, or_false, not_or] at hnot
  obtain ⟨hnil, hfalse, htrue, hfunction, hnot⟩ := hnot
  have hunary : unaryAt? .lua c = none := by
    rw [unaryAt?, hword, if_neg hnot, Dialect.unaryMarks]
    simp [sees_of_word? h "-" rfl (by decide), sees_of_word? h "#" rfl (by decide),
      sees_of_word? h "~" rfl (by decide)]
  rw [expression_of_none hunary, simpleExpression_eq]
  simp only [seesString_of_word? h, sees_of_word? h "\x7b" rfl (by decide),
    sees_of_word? h "..." rfl (by decide), seesNumber_of_word? h, worded, hword, hnil,
    hfalse, htrue, hfunction, if_false, Bool.false_eq_true, prefixExpression_of_word? hc h]

theorem operatorAt?_of_equals {u : Cursor} (hchar : u.char? = some '=') (hpair : u.sees "==" = false) :
    operatorAt? .lua u = none := by
  have hword : Lexeme.word? .lua u = none := by
    rw [Lexeme.word?_eq_none_iff, hchar]
    decide
  cases hop : operatorAt? .lua u with
  | none => rfl
  | some found =>
    obtain ⟨hmem, hsees⟩ := sees_of_operator hword hop
    have hall : ∀ op ∈ Dialect.lua.markOperators, op.text = "==" ∨ op.text.toList.head? ≠ some '=' := by
      decide
    rcases hall _ hmem with htext | hhead
    · rw [htext, hpair] at hsees
      cases hsees
    · obtain ⟨t, more, htext, -⟩ := exists_mark_text hmem
      rw [char?_of_sees htext hsees] at hchar
      exact absurd (by rw [htext]; exact hchar) hhead

/-- An expression that starts with a name and an equals sign is that name. -/
theorem expression_of_isNamed {c n : Cursor} {nodes : List Node} (hc : Lexeme.trivia? c = some ([], c))
    (hnamed : isNamed c = true) (h : rules .lua depth (.expression 0) c = some (nodes, n)) :
    ∃ u, upcoming? n = some u ∧ u.char? = some '=' := by
  cases depth with
  | zero => cases h
  | succ depth =>
    unfold isNamed at hnamed
    split at hnamed
    · next word next hword =>
      simp only [Bool.and_eq_true, Bool.not_eq_true', List.contains_eq_mem, decide_eq_false_iff_not]
        at hnamed
      obtain ⟨⟨hnot, hnext⟩, hpair⟩ := hnamed
      cases hu : upcoming? next with
      | none => simp [isNext, hu] at hnext
      | some u =>
        have hsees : u.sees "=" = true := by simpa [isNext, hu] using hnext
        have hpair : u.sees "==" = false := by simpa [isNext, hu] using hpair
        have hchar : u.char? = some '=' := char?_of_sees rfl hsees
        refine ⟨u, ?_, hchar⟩
        rw [rules, rule, expression_of_word? hc hword hnot] at h
        obtain ⟨⟨heads, m⟩, hsuffixes, hoperators⟩ := Option.bind_eq_some_iff.1 h
        cases depth with
        | zero => cases hsuffixes
        | succ depth =>
          have hchars (t : Char) (ht : t ≠ '=') : u.char? ≠ some t := by
            rw [hchar]
            exact fun heq => ht (Option.some.inj heq).symm
          rw [suffixes_of_char? hu (fun t ht => hchars t (by rintro rfl; revert ht; decide))
            (by rw [sees_eq_false ":" rfl (hchars ':' (by decide))]; rfl)] at hsuffixes
          cases hsuffixes
          have hnone : ∀ op found, operatorAt? .lua u = some (op, found) → op.level < 0 :=
            fun op found hop => absurd hop (by rw [operatorAt?_of_equals hchar hpair]; simp)
          rw [operated, operators_of_stops hu hnone] at hoperators
          cases hoperators
          exact hu
    · cases hnamed

theorem take_start {read : Reader} {e : Cursor} {k : Draft → Read} {r : List Node × Cursor}
    (he : Lexeme.trivia? e = some ([], e)) (h : (Draft.start e).take read >>= k = some r) :
    ∃ nodes n, read e = some (nodes, n) ∧ k ⟨n, nodes⟩ = some r := by
  obtain ⟨draft, htake, hk⟩ := Option.bind_eq_some_iff.1 h
  obtain ⟨comments, u, nodes, n, htrivia, hread, rfl⟩ := take_eq_some htake
  obtain ⟨rfl, rfl⟩ : [] = comments ∧ e = u := by simpa [Draft.start, he] using htrivia
  exact ⟨nodes, n, hread, hk⟩

theorem Joint.Starts.trivia?_entry {allow : Site.Slot → Prop} {j : Joint w} (h : j.Starts allow) :
    Lexeme.trivia? j.entry = some ([], j.entry) := h.trivia?.2

theorem weaves_field (hexpression : GoalWeaves w depth .value (.expression 0)) :
    Weaves w (.node none (some .opener, false) (.behind true)) (field .lua (rules .lua depth))
      fun b => field .lua (rules .lua (depth + b)) := by
  simp only [field_eq]
  refine .ite ?_ ?_ (((weaves_bracketField hexpression).loosen nofun).weaken _) (.ite ?_ ?_
    (((weaves_namedField hexpression).loosen nofun).weaken _) ((weaves_valueField hexpression).weaken _))
  · intro j l b nodes hstarts hl htest hread
    have hsees := sees_of_take hstarts.trivia?_entry hread
    rcases hstarts with hintact | ⟨⟨s, rest, hpieces, -⟩, -⟩
    · rw [isBracketed, Bool.and_eq_true, Bool.not_eq_true'] at htest
      rw [hintact.entry] at hsees ⊢
      rw [isBracketed, hsees, Lexeme.isSome_longOpen? j.woven_rest htest.2]
      rfl
    · rw [(Joint.entry_mark hpieces).sees "[" rfl (by decide)] at hsees
      cases hsees
  · intro j l b nodes hstarts hl _ hread
    have hstart : isStart j.entry = true := by
      dsimp only at hread
      split at hread
      · exact isStart_of_word (isAssigned_of_namedField hstarts.trivia?_entry hread).2
      · obtain ⟨nodes', n, hread', -⟩ := take_start hstarts.trivia?_entry hread
        exact readsValue_expression _ 0 _ _ _ hstarts.trivia?_entry hread'
    rw [Bool.not_eq_true', isBracketed, Bool.and_eq_false_iff, Bool.not_eq_false']
    cases hsees : j.entry.sees "[" with
    | false => exact .inl rfl
    | true => exact .inr (isSome_longOpen?_of_isStart hstart hsees)
  · intro j l b nodes hstarts hl htest hread
    have hassigned := (isAssigned_of_namedField hstarts.trivia?_entry hread).1
    rw [isNamed_eq] at htest ⊢
    rcases hstarts with hintact | ⟨⟨s, rest, hpieces, hslot⟩, -⟩
    · rw [Bool.and_eq_true] at htest
      rw [hassigned, hintact.entry, hintact.word, htest.1]
      rfl
    · rw [isAssigned_opener hpieces (List.mem_singleton.1 hslot)] at hassigned
      cases hassigned
  · intro j l b nodes hstarts hl _ hread
    by_contra hnamed
    rw [Bool.not_eq_true', Bool.not_eq_false] at hnamed
    obtain ⟨values, n, hread', heq⟩ := take_start hstarts.trivia?_entry hread
    obtain ⟨-, rfl⟩ : _ ∧ n = l.woven := by simpa [Draft.finish] using heq
    obtain ⟨u, hu, hchar⟩ := expression_of_isNamed hstarts.trivia?_entry hnamed hread'
    obtain ⟨e, he, hblunt⟩ := hl.exists_blunt rfl
    obtain rfl : u = e := Option.some.inj (hu.symm.trans he)
    exact char?_of_isBlunt hblunt (by decide) hchar

/-- Goes on with a separator and more fields, or not at all. -/
def moreFields (separator : String) (table : Rules) (draft : Draft) : Read :=
  draft.take (mark separator) >>= fun draft =>
    draft.takeIf (fun c => !c.sees "\x7d") (table .fields) >>= Draft.spill

theorem fields_eq (table : Rules) : fields .lua table = fun c =>
    (Draft.start c).take (field .lua table) >>= fun draft => upcoming? draft.cursor >>= fun u =>
      if u.sees "," then moreFields "," table draft
      else (upcoming? draft.cursor >>= fun u =>
        if u.sees ";" then moreFields ";" table draft else draft.spill) := by
  funext c
  unfold fields moreFields
  refine congrArg ((Draft.start c).take (field .lua table) >>= ·) (funext fun draft => ?_)
  cases upcoming? draft.cursor with
  | none => rfl
  | some u =>
    simp only [Option.bind_eq_bind, Option.bind_some]
    by_cases hcomma : u.sees "," = true
    · simp only [hcomma, Bool.true_or, if_true]
    · by_cases hsemicolon : u.sees ";" = true
      · simp only [hcomma, hsemicolon, Bool.or_true, Bool.false_eq_true, if_true, if_false]
      · simp only [hcomma, hsemicolon, Bool.or_false, Bool.false_eq_true, if_false]

theorem goalWeaves_succ {q : Manner} {goal : Goal}
    (h : Weaves w q (rule .lua (rules .lua depth) goal)
      fun b => rule .lua (rules .lua (depth + b)) goal) :
    GoalWeaves w (depth + 1) q goal := by
  have hdepth : (fun b => rules .lua (depth + 1 + b) goal)
      = fun b => rule .lua (rules .lua (depth + b)) goal := by
    funext b
    have hb : depth + 1 + b = depth + b + 1 := by omega
    rw [hb]
    rfl
  rw [GoalWeaves, hdepth]
  exact h

theorem fields_rule (hexpression : GoalWeaves w depth .value (.expression 0))
    (hfields : GoalWeaves w depth .enclosed .fields) : GoalWeaves w (depth + 1) .enclosed .fields := by
  refine goalWeaves_succ ?_
  have hspill {c0 : Cursor} {draft : Draft} {same : List Node → List Node → Prop} :
      Continues w .enclosed c0 ⟨[], true⟩ [] same draft Draft.spill fun _ => Draft.spill := .spill
  have hmore {c0 : Cursor} {draft : Draft} {separator : String}
      (hclear : isClear separator = true) (hblunt : isBluntText separator = true) :
      Continues w .enclosed c0 ⟨[], true⟩ [] SameKinds draft (moreFields separator (rules .lua depth))
        fun b => moreFields separator (rules .lua (depth + b)) := by
    have hmark := weaves_mark (w := w) hclear
    rw [hblunt] at hmark
    exact .take hmark (Sight.within_all _) fun _ _ _ _ _ _ _ _ =>
      .takeIf hfields (fails_not_sees rfl) (holds_not_sees rfl (by decide) (by decide))
        (Sight.within_refl _) hspill fun _ _ _ _ _ _ _ _ => hspill
  have hsemicolon {c0 : Cursor} {draft : Draft} : Continues w .enclosed c0 ⟨[], true⟩ [] SameKinds
      draft (fun draft => upcoming? draft.cursor >>= fun u =>
        if u.sees ";" then moreFields ";" (rules .lua depth) draft else draft.spill)
      fun b draft => upcoming? draft.cursor >>= fun u =>
        if u.sees ";" then moreFields ";" (rules .lua (depth + b)) draft else draft.spill :=
    .branch (fails_sees rfl (by decide) (by decide)) (holds_of_intact (sees_intact rfl))
      (fun _ => hmore (by decide) (by decide)) fun _ => hspill
  show Weaves w .enclosed (fields .lua (rules .lua depth))
    fun b => fields .lua (rules .lua (depth + b))
  simp only [fields_eq]
  exact .start (weaves_field hexpression) (Sight.blunt_within _) rfl nofun fun _ _ _ _ _ =>
    .branch (fails_sees rfl (by decide) (by decide)) (holds_of_intact (sees_intact rfl))
      (fun _ => hmore (by decide) (by decide)) fun _ => hsemicolon

/-! ## Lists with commas -/

/-- What goes on behind an item of a list. -/
def moreItems (table : Rules) (which : Item) : Reader := fun c =>
  (Draft.start c).take (mark ",") >>= fun draft =>
    draft.take (table (.separated which)) >>= Draft.spill

theorem weaves_moreItems {which : Item} {lead : Option Site.Slot} {follow : Sight}
    (hlist : GoalWeaves w depth (.list (lead, false) follow) (.separated which)) :
    Weaves w (.list (none, true) follow) (moreItems (rules .lua depth) which)
      fun b => moreItems (rules .lua (depth + b)) which :=
  .start (weaves_mark (by decide)) (Sight.within_all _) rfl (fun _ => rfl) fun _ _ _ _ _ =>
    .take hlist (Sight.within_refl _) fun _ _ _ _ _ _ _ _ => .spill

theorem separated_eq (table : Rules) (which : Item) : separated .lua table which = fun c =>
    (Draft.start c).take (item .lua table which) >>= fun draft =>
      draft.takeIf (goesOn .lua which draft.children) (moreItems table which) >>= Draft.spill := rfl

/-- Whether the items of a list go on is told by a comma, and by the kinds of those that are read. -/
def IsCounted (which : Item) (same : List Node → List Node → Prop) : Prop :=
  (∀ nodes, ∃ b, goesOn .lua which nodes = fun c => c.sees "," && b)
    ∧ ∀ nodes' nodes, same nodes' nodes → goesOn .lua which nodes' = goesOn .lua which nodes

theorem separated_rule {which : Item} {q : Manner} {lead : Option Site.Slot} {follow : Sight}
    (hlead : q.lead = lead) (hfollow : follow.Within q.follow)
    (hextra : ∀ nodes, q.extra nodes = []) (hcounted : IsCounted which q.same)
    (hitem : Weaves w q (item .lua (rules .lua depth) which)
      fun b => item .lua (rules .lua (depth + b)) which)
    (hlist : GoalWeaves w depth (.list (lead, false) follow) (.separated which)) :
    GoalWeaves w (depth + 1) (.list (lead, false) follow) (.separated which) := by
  refine goalWeaves_succ ?_
  have hfails {slots : List Site.Slot} (nodes : List Node) :
      Fails w slots (goesOn .lua which nodes) := by
    obtain ⟨b, hb⟩ := hcounted.1 nodes
    rw [hb]
    exact fails_of_intact (fun j h => by rw [h.sees _ rfl]) fun slot c _ hfront => by
      rw [hfront.sees "," rfl (by decide), Bool.false_and]
  have hholds {read' : Nat → Reader} (nodes : List Node) :
      Holds w [] (goesOn .lua which nodes) read' := by
    obtain ⟨b, hb⟩ := hcounted.1 nodes
    rw [hb]
    exact holds_of_intact fun j h => by rw [h.sees _ rfl]
  show Weaves w _ (separated .lua (rules .lua depth) which)
    fun b => separated .lua (rules .lua (depth + b)) which
  simp only [separated_eq]
  have hfollow' : (Sight.or ⟨[], true⟩ follow).Within q.follow :=
    Sight.or_within (Sight.blunt_within _) hfollow
  refine .start hitem hfollow' hlead.symm nofun fun c nodes next _ _ => ?_
  rw [hextra]
  exact .takeIfOf (weaves_moreItems hlist) (fun children' h => hcounted.2 _ _ h) (hfails nodes)
    (hholds nodes) (Sight.within_refl _) .spill fun _ _ _ _ _ _ _ _ => .spill

/-- The items of most lists go on behind every comma. -/
theorem isCounted_of_ne {which : Item} {same : List Node → List Node → Prop}
    (h : which ∈ [.expression, .target, .attributedName, .binding]) : IsCounted which same := by
  simp only [List.mem_cons, List.not_mem_nil, or_false] at h
  have hcomma (nodes : List Node) : goesOn .lua which nodes = Cursor.sees "," := by
    rcases h with rfl | rfl | rfl | rfl <;> rfl
  exact ⟨fun nodes => ⟨true, by simp [hcomma]⟩, fun nodes' nodes _ => by rw [hcomma, hcomma]⟩

theorem isCounted_parameter : IsCounted .parameter SameKinds := by
  have hgoesOn (nodes : List Node) : goesOn .lua .parameter nodes
      = fun c => c.sees "," && !(nodes.map Node.kind).any (· == .vararg) := by
    funext c
    simp [goesOn, List.any_map, Function.comp_def]
  exact ⟨fun nodes => ⟨_, hgoesOn nodes⟩, fun nodes' nodes h => by rw [hgoesOn, hgoesOn, h]⟩

theorem expressions_rule (hexpression : GoalWeaves w depth .value (.expression 0))
    (hlist : GoalWeaves w depth .items (.separated .expression)) :
    GoalWeaves w (depth + 1) .items (.separated .expression) :=
  separated_rule (q := .value) rfl (Sight.within_refl _) (fun _ => rfl)
    (isCounted_of_ne (by simp)) hexpression hlist

theorem parameter_eq (table : Rules) : parameter .lua table = fun c =>
    (Draft.start c).take (fun c =>
      if c.sees "..." then leaf .vararg (Cursor.text? "...") c else name .lua c) >>= Draft.spill := rfl

theorem parameters_rule (hlist : GoalWeaves w depth .items (.separated .parameter)) :
    GoalWeaves w (depth + 1) .items (.separated .parameter) := by
  have hfirst {follow : Sight} : Weaves w (.node none (none, false) follow) (fun c =>
      if c.sees "..." then leaf .vararg (Cursor.text? "...") c else name .lua c)
      fun _ c => if c.sees "..." then leaf .vararg (Cursor.text? "...") c else name .lua c := by
    refine .ite (Holds.tells (.of_reads fun b e nodes n hread => ?_))
      (fails_sees rfl (by decide) (by decide)).holds.tells (weaves_vararg.weaken _)
      ((Weaves.loosen (weaves_name.leafNode rfl) fun _ => id).weaken _)
    obtain ⟨next, hnext, -⟩ := Option.map_eq_some_iff.1 hread
    rw [Cursor.sees, hnext]
    rfl
  have hparameter : Weaves w (.node none (none, false) (.behind true))
      (parameter .lua (rules .lua depth)) fun b => parameter .lua (rules .lua (depth + b)) := by
    simp only [parameter_eq]
    exact .start hfirst (Sight.within_refl _) rfl id fun c nodes next hspans _ => .keep hspans
  exact separated_rule (q := .node none (some .opener, false) (.behind true)) rfl (Sight.within_refl _)
    (fun _ => rfl) isCounted_parameter (hparameter.loosen (by simp)) hlist

/-- Nodes whose kinds satisfy a test. -/
theorem Weaves.guard {q : Manner} {read : Reader} {read' : Nat → Reader} {test : List Node → Bool}
    (h : Weaves w q read read') (htest : ∀ nodes' nodes, q.same nodes' nodes → test nodes' = test nodes) :
    Weaves w { q with post := fun c nodes n => q.post c nodes n ∧ test nodes = true }
      (fun c => read c >>= fun (nodes, n) => if test nodes then some (nodes, n) else none)
      fun b c => read' b c >>= fun (nodes, n) => if test nodes then some (nodes, n) else none := by
  intro c nodes n hc hpre hsource
  obtain ⟨⟨nodes', n'⟩, hread, hkept⟩ := Option.bind_eq_some_iff.1 hsource
  dsimp only at hkept
  split at hkept
  · next htested =>
    cases hkept
    obtain ⟨hpost, outline, hreads⟩ := h c nodes n hc hpre hread
    refine ⟨⟨hpost, htested⟩, outline, hreads.passes, hreads.nonempty, hreads.leads, hreads.tidy,
      hreads.places, hreads.begins, hreads.blunt, hreads.starts, fun j l hj hgoes hl b hb => ?_⟩
    obtain ⟨nodes', hread', halike, hsame⟩ := hreads.reads j l hj hgoes hl b hb
    refine ⟨nodes', ?_, halike, hsame⟩
    rw [hread']
    exact if_pos ((htest nodes' nodes hsame).trans htested)
  · cases hkept

theorem all_isTarget {nodes' nodes : List Node} (h : SameKinds nodes' nodes) :
    nodes'.all isTarget = nodes.all isTarget := by
  have hall (nodes : List Node) : nodes.all isTarget = (nodes.map Node.kind).all fun kind =>
      kind == .identifier || kind == .dotIndex || kind == .bracketIndex := by
    rw [List.all_map]
    refine congrArg nodes.all (funext fun n => ?_)
    obtain ⟨kind, role, start, stop, children⟩ := n
    cases kind <;> rfl
  rw [hall, hall, h]

theorem targets_rule (hprefixed : Weaves w .prefixed (prefixExpression .lua (rules .lua depth))
      fun b => prefixExpression .lua (rules .lua (depth + b)))
    (hlist : GoalWeaves w depth (.list (none, false) (.behind false)) (.separated .target)) :
    GoalWeaves w (depth + 1) (.list (none, false) (.behind false)) (.separated .target) :=
  separated_rule rfl (Sight.within_refl _) (fun _ => rfl) (isCounted_of_ne (by simp))
    (hprefixed.guard fun _ _ => all_isTarget) hlist

theorem binding_eq (table : Rules) : binding .lua table = fun c =>
    (Draft.start c).take (name .lua) >>= fun draft =>
      draft.takeIf (fun c => decide (Dialect.lua = .luau) && c.sees ":") (fun c => do
        let draft ← (Draft.start c).take (mark ":")
        let draft ← draft.take (table .type)
        draft.spill) >>= Draft.spill := rfl

theorem weaves_binding {table : Rules} {table' : Nat → Rules} : Weaves w (.list (none, true) .all)
    (binding .lua table) fun b => binding .lua (table' b) := by
  simp only [binding_eq]
  exact .start weaves_name (Sight.within_refl _) rfl (fun _ => rfl) fun _ _ _ _ _ =>
    .skip (fun _ => rfl) .spill

/-- The attribute of a local variable. -/
def variableAttribute : Reader := fun c =>
  (Draft.start c).take (mark "<") >>= fun draft => draft.take (name .lua) >>= fun draft =>
    draft.take (mark ">") >>= Draft.finish .variableAttribute

theorem attributedName_eq (table : Rules) : attributedName .lua table = fun c =>
    (Draft.start c).take (binding .lua table) >>= fun draft =>
      draft.takeIf (Cursor.sees "<") variableAttribute >>= Draft.spill := rfl

theorem weaves_attributedName {table : Rules} {table' : Nat → Rules} :
    Weaves w (.list (none, true) (.behind false)) (attributedName .lua table)
      fun b => attributedName .lua (table' b) := by
  have hattribute : Weaves w (.node none (none, false) .all) variableAttribute
      fun _ => variableAttribute :=
    .start (weaves_mark (by decide)) (Sight.within_all _) rfl nofun fun _ _ _ _ _ =>
      .take weaves_name (Sight.within_all _) fun _ _ _ _ _ _ _ _ =>
        .take (weaves_mark (by decide)) (Sight.within_all _) fun _ _ _ _ _ _ _ _ =>
          .finish (by decide)
  simp only [attributedName_eq]
  exact .start weaves_binding (Sight.within_all _) rfl (fun _ => rfl) fun _ _ _ _ _ =>
    .takeIf hattribute (fails_sees rfl (by decide) (by decide)) (holds_of_intact (sees_intact rfl))
      (Sight.within_all _) .spill fun _ _ _ _ _ _ _ _ => .spill

end LuaCoverage.Instrument
