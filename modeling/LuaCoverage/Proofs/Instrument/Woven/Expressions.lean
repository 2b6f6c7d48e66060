import LuaCoverage.Proofs.Instrument.Woven.Block

/-!
# Expressions in a woven source

The rules for expressions weave if the rules that they ask do. No site stands inside a name, a number
or a string, and none stands between a prefix expression and what follows it.

Results:
* `suffixesWeave_rule`, `weaves_prefixExpression`: prefix expressions.
* `continues_functionBody`: the parameters and the body of a function.
-/

namespace LuaCoverage.Instrument
open LuaCoverage.Lua LuaCoverage.Text LuaCoverage.Lua.Cursor LuaCoverage.Lua.Grammar
open LuaCoverage.Analysis

variable {w : Writing} {depth : Nat}

/-! ## Strings and numbers -/

/-- What fails in front of a closing parenthesis passes over something. -/
theorem ne_nil_of_firm {read : Cursor → Option Cursor} {c n : Cursor} {front : List Glyph}
    (hfirm : Firm Woven read) (hstop : ∀ o rest, read ⟨o, .ofChar ')' :: rest⟩ = none)
    (hread : read c = some n) (hpass : Passes c n front) : front ≠ [] := by
  rintro rfl
  obtain ⟨front, hpass', hall⟩ := hfirm c n hread
  have hfront : front = [] := by
    have hrest := hpass.rest.symm.trans hpass'.rest
    rwa [List.append_cancel_right_eq, eq_comm] at hrest
  subst hfront
  have hwoven : Woven n.rest (.ofChar ')' :: n.rest) := .text (.closer []) (.refl n.rest)
  have hread' := hall 0 _ hwoven
  rw [List.nil_append, hstop] at hread'
  cases hread'

theorem char?_of_string? {c n : Cursor} (h : Lexeme.string? .lua c = some n) :
    seesString .lua c = true ∧ ∃ ch, c.char? = some ch ∧ ch ∈ ['"', '\'', '['] := by
  unfold Lexeme.string? at h
  split at h
  · next hopen =>
    refine ⟨by simp [seesString, Lexeme.startsString, hopen], '[', ?_, by decide⟩
    rw [Lexeme.longOpen?_eq] at hopen
    obtain ⟨inner, hinner, -⟩ :=
      Option.bind_eq_some_iff.1 (Option.isSome_iff_exists.1 hopen).choose_spec
    exact char?_of_sees rfl (by rw [Cursor.sees, hinner]; rfl)
  · unfold Lexeme.quoted? at h
    split at h
    · next quote hquote =>
      split at h
      · next hmark =>
        rw [Bool.or_eq_true, beq_iff_eq, beq_iff_eq] at hmark
        refine ⟨?_, quote, hquote, ?_⟩
        · rcases hmark with rfl | rfl <;> simp [seesString, Lexeme.startsString, hquote]
        · rcases hmark with rfl | rfl <;> decide
      · cases h
    · cases h

theorem weaves_string : Weaves w (.leaf .string false) (leaf .string (Lexeme.string? .lua))
    fun _ => leaf .string (Lexeme.string? .lua) := by
  refine weaves_leaf ⟨rfl, by simp⟩ Lexeme.firm_string? (fun _ _ h => by cases h)
    fun {c n front} hc _ hread hpass => ?_
  obtain ⟨-, ch, hch, hmem⟩ := char?_of_string? hread
  have hne := ne_nil_of_firm Lexeme.firm_string? (fun o rest => rfl) hread hpass
  obtain ⟨g, front, rfl⟩ := List.exists_cons_of_ne_nil hne
  refine ⟨hne, fun {j l} hj hgoes => ?_⟩
  have hchar : j.source.char? = some ch := by rw [hj]; exact hch
  have hg : g.char = some ch := (Joint.char?_of_goes hgoes).1.symm.trans hchar
  have hmark : ch ∉ ['.', ':', '~', '='] ∧ Dialect.lua.isNameStart ch = false := by
    simp only [List.mem_cons, List.not_mem_nil, or_false] at hmem
    rcases hmem with rfl | rfl | rfl <;> decide
  exact Joint.intact_of_mark (hj ▸ hc) (by simp [hg, hmark.2])
    (.inr fun text htext => Joint.sees_pair htext hchar hmark.1) hgoes

theorem seesNumber_of_some? {c : Cursor} (h : (c.some? Lexeme.isDigit).isSome = true) :
    seesNumber c = true := by
  obtain ⟨offset, rest⟩ := c
  cases rest with
  | nil => cases h
  | cons g rest =>
    have hdigit : Lexeme.isDigit g = true := by
      by_contra hnot
      simp [Cursor.some?, Cursor.one?, hnot] at h
    have hchar : Cursor.char? ⟨offset, g :: rest⟩ = g.char := rfl
    rw [seesNumber, hchar, Bool.or_eq_true]
    exact .inl hdigit

theorem seesNumber_of_point {c : Cursor}
    (h : ((c.text? ".").bind (Cursor.some? Lexeme.isDigit)).isSome = true) : seesNumber c = true := by
  obtain ⟨n, hn⟩ := Option.isSome_iff_exists.1 h
  obtain ⟨inner, hinner, hsome⟩ := Option.bind_eq_some_iff.1 hn
  obtain ⟨next, hnext, -⟩ := Option.map_eq_some_iff.1 hsome
  rw [seesNumber, hinner, Option.bind_some, hnext, Bool.or_eq_true]
  exact .inr rfl

theorem seesNumber_of_number? {c n : Cursor} (h : Lexeme.number? .lua c = some n) :
    seesNumber c = true := by
  have hzero (text : String) (h : (c.text? text).isSome = true)
      (htext : ∃ more, text.toList = '0' :: more) : seesNumber c = true := by
    obtain ⟨more, htext⟩ := htext
    rw [seesNumber, char?_of_sees htext h]
    rfl
  rcases (Option.orElse_eq_some _ _ _).1 h with h | ⟨-, h⟩
  · obtain ⟨inner, hinner, -⟩ := Option.bind_eq_some_iff.1 h
    rcases (Option.orElse_eq_some _ _ _).1 hinner with h | ⟨-, h⟩
    · exact hzero _ (by rw [h]; rfl) ⟨_, rfl⟩
    · exact hzero _ (by rw [h]; rfl) ⟨_, rfl⟩
  · rcases (Option.orElse_eq_some _ _ _).1 h with h | ⟨-, h⟩
    · obtain ⟨inner, hinner, -⟩ := Option.bind_eq_some_iff.1 h
      exact seesNumber_of_some? (by rw [hinner]; rfl)
    · obtain ⟨inner, hinner, -⟩ := Option.map_eq_some_iff.1 h
      rw [Lexeme.LuaNumber.mantissa?_eq] at hinner
      rcases (Option.orElse_eq_some _ _ _).1 hinner with h | ⟨-, h⟩
      · obtain ⟨whole, hwhole, -⟩ := Option.map_eq_some_iff.1 h
        exact seesNumber_of_some? (by rw [hwhole]; rfl)
      · exact seesNumber_of_point (by rw [h]; rfl)

theorem shy_seesNumber {j : Joint w} (hintact : j.Intact) (h : seesNumber j.source = false) :
    seesNumber j.woven = false := by
  have hshy : Shy fun c => (c.text? ".").bind (Cursor.one? Lexeme.isDigit) :=
    Shy.bind (exact_text? _ (by decide)).tracks (exact_one? Lexeme.rejects_isDigit).tracks.shy
      (stops_one? Lexeme.rejects_isDigit)
  rw [seesNumber, Bool.or_eq_false_iff, Option.isSome_eq_false_iff, Option.isNone_iff_eq_none] at h ⊢
  rw [hintact.char?]
  exact ⟨h.1, hshy _ _ _ j.woven_rest h.2⟩

/-- In front of a number no mark of two glyphs stands. -/
theorem sees_pair_of_seesNumber {c : Cursor} (h : seesNumber c = true) :
    ∀ text ∈ Joint.pairMarks, c.sees text = false := by
  intro text htext
  rw [seesNumber, Bool.or_eq_true] at h
  rcases h with h | h
  · cases hchar : c.char? with
    | none => simp [hchar] at h
    | some ch =>
      refine Joint.sees_pair htext hchar fun hmem => ?_
      rw [hchar] at h
      simp only [List.mem_cons, List.not_mem_nil, or_false] at hmem
      rcases hmem with rfl | rfl | rfl | rfl <;> cases h
  · obtain ⟨n, hn⟩ := Option.isSome_iff_exists.1 h
    obtain ⟨inner, hinner, hone⟩ := Option.bind_eq_some_iff.1 hn
    have hchar : c.char? = some '.' := char?_of_sees rfl (by rw [Cursor.sees, hinner]; rfl)
    simp only [Joint.pairMarks, List.mem_cons, List.not_mem_nil, or_false] at htext
    rcases htext with rfl | rfl | rfl | rfl
    · -- The second glyph is a digit.
      obtain ⟨offset, rest⟩ := c
      cases rest with
      | nil => cases hchar
      | cons g rest =>
        have hg : g.char = some '.' := hchar
        have hinner' : inner = ⟨offset + g.width, rest⟩ := by
          simpa [Cursor.text?, textFrom?, hg, eq_comm] using hinner
        subst hinner'
        cases rest with
        | nil => cases hone
        | cons g' rest =>
          have hdigit : Lexeme.isDigit g' = true := by
            by_contra hnot
            simp [Cursor.one?, hnot] at hone
          have hg' : g'.char ≠ some '.' := by
            intro hdot
            rw [Lexeme.isDigit, Glyph.isIn, hdot] at hdigit
            cases hdigit
          simp [Cursor.sees, Cursor.text?, textFrom?, hg, hg']
    · exact sees_eq_false _ (t := ':') rfl (by simp [hchar])
    · exact sees_eq_false _ (t := '~') rfl (by simp [hchar])
    · exact sees_eq_false _ (t := '=') rfl (by simp [hchar])

theorem weaves_number : Weaves w (.leaf .number false) (leaf .number (Lexeme.number? .lua))
    fun _ => leaf .number (Lexeme.number? .lua) := by
  have hfirm : Firm Woven (Lexeme.number? .lua) := Lexeme.LuaNumber.firm_read?
  refine weaves_leaf ⟨rfl, by simp⟩ hfirm (fun _ _ h => by cases h) fun {c n front} hc _ hread hpass => ?_
  have hsees := seesNumber_of_number? hread
  have hne := ne_nil_of_firm hfirm (fun o rest => rfl) hread hpass
  obtain ⟨g, front, rfl⟩ := List.exists_cons_of_ne_nil hne
  refine ⟨hne, fun {j l} hj hgoes => Joint.intact_of_mark (hj ▸ hc) ?_
    (.inr (hj ▸ sees_pair_of_seesNumber hsees)) hgoes⟩
  have hchar : c.char? = g.char := by
    rw [← hj]
    exact (Joint.char?_of_goes hgoes).1
  rw [seesNumber, hchar, Bool.or_eq_true] at hsees
  rcases hsees with hdigit | hpoint
  · cases hg : g.char with
    | none => rfl
    | some ch =>
      rw [hg] at hdigit
      simp [Dialect.isNameStart, show Text.isAsciiDigit ch = true from hdigit]
  · obtain ⟨n', hn'⟩ := Option.isSome_iff_exists.1 hpoint
    obtain ⟨inner, hinner, -⟩ := Option.bind_eq_some_iff.1 hn'
    have hdot : c.char? = some '.' := char?_of_sees rfl (by rw [Cursor.sees, hinner]; rfl)
    rw [← hchar, hdot]
    decide

/-! ## Tables and arguments -/

/-- What is read of a goal within a depth is read in the result. -/
def GoalWeaves (w : Writing) (depth : Nat) (q : Manner) (goal : Goal) : Prop :=
  Weaves w q (rules .lua depth goal) fun b => rules .lua (depth + b) goal

/-- Nodes that are read in front of a closing mark, perhaps with a call around the first. -/
def Manner.items : Manner := .list (some .opener, false) (.behind true)

/-- Nodes in a pair of marks. -/
def Manner.enclosed : Manner := .list (some .opener, false) ⟨[], true⟩

/-- A blunt lexeme may come next wherever anything of the source may. -/
theorem Sight.blunt_within (a : Sight) : Within ⟨[], true⟩ a := ⟨nofun, fun _ => rfl⟩

theorem GoalWeaves.enclosed {goal : Goal} (h : GoalWeaves w depth .items goal) :
    GoalWeaves w depth .enclosed goal :=
  WeavesIf.mono h (fun _ => id) id (Sight.blunt_within _) rfl (fun _ _ _ _ h => h) fun _ _ h => h

/-- In a pair of marks nodes are read, or none. -/
theorem weaves_enclosed (kind : NodeKind) (opening closing : String) {goal : Goal} {p : Manner}
    {t : Char} (hlead : p.lead = none ∧ p.blunt = false) (hopening : isClear opening = true)
    (hclosing : isClear closing = true) (hblunt : isBluntText closing = true)
    (htext : closing.toList = [t]) (hitems : GoalWeaves w depth .enclosed goal)
    (hfinish : ∀ {c0 draft} {same : List Node → List Node → Prop}, Continues w p c0 p.follow [] same
      draft (Draft.finish kind) fun _ => Draft.finish kind) :
    Weaves w p
      (fun c => (Draft.start c).take (mark opening) >>= fun draft =>
        draft.takeIf (fun c => !c.sees closing) (rules .lua depth goal) >>= fun draft =>
          draft.take (mark closing) >>= Draft.finish kind)
      fun b c => (Draft.start c).take (mark opening) >>= fun draft =>
        draft.takeIf (fun c => !c.sees closing) (rules .lua (depth + b) goal) >>= fun draft =>
          draft.take (mark closing) >>= Draft.finish kind := by
  have ht : Dialect.lua.isNameStart t = false := by
    unfold isClear at hclosing
    rw [htext] at hclosing
    simp only [Bool.and_eq_true, Bool.not_eq_true'] at hclosing
    exact hclosing.1
  have hclose {c0 : Cursor} {same : List Node → List Node → Prop} {draft : Draft} :
      Continues w p c0 ⟨[], true⟩ [] same draft
        (fun draft => draft.take (mark closing) >>= Draft.finish kind)
        fun _ draft => draft.take (mark closing) >>= Draft.finish kind := by
    have hmark := weaves_mark (w := w) hclosing
    rw [hblunt] at hmark
    exact .take hmark (Sight.within_all p.follow) fun _ _ _ _ _ _ _ _ => hfinish
  exact Weaves.start (weaves_mark hopening) (Sight.within_all _) hlead.1 (by simp [hlead.2])
    fun c nodes next _ _ =>
      .takeIf hitems (fails_not_sees htext) (holds_not_sees htext ht (by decide))
        (Sight.within_refl _)
        hclose fun _ _ _ _ _ _ _ _ => hclose

theorem weaves_table {follow : Sight} (hfields : GoalWeaves w depth .enclosed .fields) :
    Weaves w (.node none (none, false) follow) (table (rules .lua depth))
      fun b => table (rules .lua (depth + b)) :=
  weaves_enclosed _ _ _ ⟨rfl, rfl⟩ (by decide) (by decide) (by decide) rfl hfields
    (.finish (by decide))

theorem string_eq (table : Rules) : string .lua table = leaf .string (Lexeme.string? .lua) := by
  funext c
  simp [Grammar.string]

theorem weaves_string_node {follow : Sight} {table : Rules} (table' : Nat → Rules) :
    Weaves w (.node none (none, false) follow) (string .lua table) fun b => string .lua (table' b) := by
  simp only [string_eq]
  exact weaves_string.leafNode rfl

theorem sees_intact {text : String} {t : Char} (htext : text.toList = [t]) (j : Joint w)
    (h : j.Intact) : j.woven.sees text = j.source.sees text := h.sees _ htext

theorem not_sees_intact {text : String} {t : Char} (htext : text.toList = [t]) (j : Joint w)
    (h : j.Intact) : (!j.woven.sees text) = !j.source.sees text := by
  rw [h.sees _ htext]

/-- A mark of one character tells two rules apart. -/
theorem WeavesIf.iteSees {pre : Cursor → Prop} {q : Manner} (text : String) {t : Char}
    {readA readB : Reader} {readA' readB' : Nat → Reader} (htext : text.toList = [t])
    (hlead : q.lead = none) (hA : WeavesIf w (fun c => pre c ∧ c.sees text = true) q readA readA')
    (hB : WeavesIf w (fun c => pre c ∧ c.sees text = false) q readB readB') :
    WeavesIf w pre q (fun c => if c.sees text then readA c else readB c)
      (fun b c => if c.sees text then readA' b c else readB' b c) :=
  .ite (tells_of_intact hlead (sees_intact htext)) (tells_of_intact hlead (not_sees_intact htext)) hA hB

theorem arguments_eq (table : Rules) : arguments .lua table = fun c =>
    if c.sees "(" then (Draft.start c).take (mark "(") >>= fun draft =>
      draft.takeIf (fun c => !c.sees ")") (table (.separated .expression)) >>= fun draft =>
        draft.take (mark ")") >>= Draft.finish .arguments
    else if c.sees "\x7b" then
      (Draft.start c).take (Grammar.table table) >>= Draft.finish .arguments
    else (Draft.start c).take (string .lua table) >>= Draft.finish .arguments := by
  funext c
  unfold arguments
  by_cases hbrace : c.sees "\x7b" = true
  · simp only [hbrace, if_true]
  · simp only [hbrace, Bool.false_eq_true, if_false]

theorem weaves_arguments {follow : Sight} (hfields : GoalWeaves w depth .enclosed .fields)
    (hitems : GoalWeaves w depth .items (.separated .expression)) :
    Weaves w (.node none (none, false) follow) (arguments .lua (rules .lua depth))
      fun b => arguments .lua (rules .lua (depth + b)) := by
  have hlist := weaves_enclosed (p := .node none (none, false) follow) .arguments "(" ")"
    ⟨rfl, rfl⟩ (by decide) (by decide) (by decide) rfl hitems.enclosed (.finish (by decide))
  have htable : Weaves w (.node none (none, false) follow)
      (fun c => (Draft.start c).take (table (rules .lua depth)) >>= Draft.finish .arguments)
      fun b c => (Draft.start c).take (table (rules .lua (depth + b))) >>= Draft.finish .arguments :=
    Weaves.start (weaves_table hfields) (Sight.within_refl _) rfl nofun fun _ _ _ _ _ =>
      .finish (by decide)
  have hstring : Weaves w (.node none (none, false) follow)
      (fun c => (Draft.start c).take (string .lua (rules .lua depth)) >>= Draft.finish .arguments)
      fun b c => (Draft.start c).take (string .lua (rules .lua (depth + b)))
        >>= Draft.finish .arguments :=
    Weaves.start (weaves_string_node fun b => rules .lua (depth + b))
      (Sight.within_refl _) rfl nofun fun _ _ _ _ _ => .finish (by decide)
  simp only [arguments_eq]
  exact .iteSees _ rfl rfl (hlist.weaken _) (.iteSees _ rfl rfl (htable.weaken _) (hstring.weaken _))

/-! ## Prefix expressions -/

/-- Goes on with what may follow the one node of a draft. -/
def suffixed (table : Rules) (draft : Draft) : Read :=
  match draft.children with
  | [head] => table (.suffixes head) draft.cursor
  | _ => none

/-- What may follow a node continues. -/
def SuffixesWeave (w : Writing) (depth : Nat) : Prop := ∀ (c0 : Cursor) (draft : Draft),
  Spans none c0 draft.children draft.cursor →
    Continues w (.node none (none, false) (.behind false)) c0 (.behind false) [] SameKinds draft
      (suffixed (rules .lua depth)) fun b => suffixed (rules .lua (depth + b))

/-- Goes on with a method, arguments or an index in brackets. -/
def dotted (table : Rules) (draft : Draft) : Read :=
  draft.take (mark ".") >>= fun draft => draft.take (name .lua) >>= fun draft =>
    suffixed table (.ofNode (draft.toNode .dotIndex) draft.cursor)

def called (table : Rules) (draft : Draft) : Read :=
  draft.take (arguments .lua table) >>= fun draft =>
    suffixed table (.ofNode (draft.toNode .functionCall) draft.cursor)

def methodCalled (table : Rules) (draft : Draft) : Read :=
  draft.take (mark ":") >>= fun draft => draft.take (name .lua) >>= fun draft =>
    called table (.ofNode (draft.toNode .methodIndex) draft.cursor)

def indexed (table : Rules) (draft : Draft) : Read :=
  draft.take (mark "[") >>= fun draft => draft.take (table (.expression 0)) >>= fun draft =>
    draft.take (mark "]") >>= fun draft =>
      suffixed table (.ofNode (draft.toNode .bracketIndex) draft.cursor)

/-- What may follow a node, told apart one after the other. -/
def indexedOr (table : Rules) (draft : Draft) : Read :=
  upcoming? draft.cursor >>= fun u => if u.sees "[" then indexed table draft else draft.spill

def calledOr (table : Rules) (draft : Draft) : Read :=
  upcoming? draft.cursor >>= fun u =>
    if seesArguments .lua u then called table draft else indexedOr table draft

def methodCalledOr (table : Rules) (draft : Draft) : Read :=
  upcoming? draft.cursor >>= fun u =>
    if u.sees ":" && !u.sees "::" then methodCalled table draft else calledOr table draft

def dottedOr (table : Rules) (draft : Draft) : Read :=
  upcoming? draft.cursor >>= fun u =>
    if u.sees "." && !u.sees ".." then dotted table draft else methodCalledOr table draft

theorem suffixed_rule {depth : Nat} (draft : Draft) {head : Node} (h : draft.children = [head]) :
    suffixed (rules .lua (depth + 1)) draft = dottedOr (rules .lua depth) draft := by
  obtain ⟨c, children⟩ := draft
  obtain rfl := h
  have hrule : suffixed (rules .lua (depth + 1)) ⟨c, [head]⟩
      = suffixes .lua (rules .lua depth) head c := rfl
  rw [hrule, suffixes, dottedOr]
  simp only [methodCalledOr, calledOr, indexedOr]
  cases upcoming? c with
  | none => rfl
  | some u => rfl

section
variable {c0 : Cursor} {draft : Draft} {same : List Node → List Node → Prop}

/-- A prefix expression. -/
def Manner.prefixed : Manner := .node none (none, false) (.behind false)

theorem continues_suffixed {kind : NodeKind} (hkind : isOrdinary kind = true ∧ isPlain kind = true)
    (hsuffixes : SuffixesWeave w depth) :
    Continues w .prefixed c0 (.behind false) [] same draft
      (fun draft => suffixed (rules .lua depth) (.ofNode (draft.toNode kind) draft.cursor))
      fun b draft => suffixed (rules .lua (depth + b)) (.ofNode (draft.toNode kind) draft.cursor) :=
  .node _ _ hkind fun hbegun => hsuffixes c0 _ (hbegun.spans hkind.1)

theorem continues_dotted (hsuffixes : SuffixesWeave w depth)
    (htest : ∀ u, upcoming? draft.cursor = some u → (u.sees "." && !u.sees "..") = true) :
    Continues w .prefixed c0 ⟨[], false⟩ [] same draft (dotted (rules .lua depth))
      fun b => dotted (rules .lua (depth + b)) := by
  refine .takeOf (weavesIf_mark rfl (by decide)) (fun u _ hu _ => ?_) (Sight.within_all _)
    fun _ _ _ _ _ _ _ _ => .take weaves_name (Sight.within_all _) fun _ _ _ _ _ _ _ _ =>
      continues_suffixed (by decide) hsuffixes
  have htest := htest u hu
  rw [Bool.and_eq_true, Bool.not_eq_true'] at htest
  refine sees_pairMarks (char?_of_sees rfl htest.1) fun text htext hhead => ?_
  simp only [Joint.pairMarks, List.mem_cons, List.not_mem_nil, or_false] at htext
  rcases htext with rfl | rfl | rfl | rfl
  · exact htest.2
  · cases hhead
  · cases hhead
  · cases hhead

theorem continues_called (hsuffixes : SuffixesWeave w depth)
    (hfields : GoalWeaves w depth .enclosed .fields)
    (hitems : GoalWeaves w depth .items (.separated .expression)) :
    Continues w .prefixed c0 ⟨[], false⟩ [] same draft (called (rules .lua depth))
      fun b => called (rules .lua (depth + b)) :=
  .take (weaves_arguments hfields hitems) (Sight.within_refl _) fun _ _ _ _ _ _ _ _ =>
    continues_suffixed (by decide) hsuffixes

theorem continues_methodCalled (hsuffixes : SuffixesWeave w depth)
    (hfields : GoalWeaves w depth .enclosed .fields)
    (hitems : GoalWeaves w depth .items (.separated .expression))
    (htest : ∀ u, upcoming? draft.cursor = some u → (u.sees ":" && !u.sees "::") = true) :
    Continues w .prefixed c0 ⟨[], false⟩ [] same draft (methodCalled (rules .lua depth))
      fun b => methodCalled (rules .lua (depth + b)) := by
  refine .takeOf (weavesIf_mark rfl (by decide)) (fun u _ hu _ => ?_) (Sight.within_all _)
    fun _ _ _ _ _ _ _ _ => .take weaves_name (Sight.within_all ⟨[], false⟩) fun _ _ _ _ _ _ _ _ =>
      .node (called _) (fun b => called (rules .lua (depth + b))) (by decide) fun _ =>
        continues_called hsuffixes hfields hitems
  have htest := htest u hu
  rw [Bool.and_eq_true, Bool.not_eq_true'] at htest
  refine sees_pairMarks (char?_of_sees rfl htest.1) fun text htext hhead => ?_
  simp only [Joint.pairMarks, List.mem_cons, List.not_mem_nil, or_false] at htext
  rcases htext with rfl | rfl | rfl | rfl
  · cases hhead
  · exact htest.2
  · cases hhead
  · cases hhead

/-- The manner of an expression whose value does not matter. -/
def Manner.value : Manner := .expression none 0 true false

theorem continues_indexed (hsuffixes : SuffixesWeave w depth)
    (hexpression : GoalWeaves w depth .value (.expression 0)) :
    Continues w .prefixed c0 ⟨[], false⟩ [] same draft (indexed (rules .lua depth))
      fun b => indexed (rules .lua (depth + b)) :=
  .mono (.take (weaves_mark (by decide)) (Sight.within_all _) fun _ _ _ _ _ _ _ _ =>
    .take hexpression (Sight.blunt_within _) fun _ _ _ _ _ _ _ _ =>
      .take (weaves_mark (by decide)) (Sight.within_all _) fun _ _ _ _ _ _ _ _ =>
        continues_suffixed (by decide) hsuffixes) ⟨nofun, nofun⟩

/-- Marks and strings that start no call are none in the result. -/
theorem fails_seesArguments {slots : List Site.Slot} : Fails w slots (seesArguments .lua) where
  intact j hintact htest := by
    simp only [seesArguments, Bool.or_eq_false_iff] at htest ⊢
    rw [hintact.sees "(" rfl, hintact.sees "\x7b" rfl]
    refine ⟨htest.1, ?_⟩
    have hstring := htest.2
    simp only [seesString, Lexeme.startsString, Bool.or_eq_false_iff, hintact.char?] at hstring ⊢
    exact ⟨⟨hstring.1.1, Lexeme.isSome_longOpen? j.woven_rest hstring.1.2⟩, by simp⟩
  mark j s rest hpieces _ := by
    have hfront := Joint.entry_mark hpieces
    simp [seesArguments, hfront.sees "(" rfl (by decide),
      hfront.sees "\x7b" rfl (by decide), hfront.seesString]

theorem holds_seesArguments {table' : Nat → Rules} :
    Holds w [] (seesArguments .lua) fun b => arguments .lua (table' b) where
  intact j b nodes n hintact _ hread := by
    have hstarts : j.Starts fun _ => False := .inl hintact
    have htrivia := hstarts.trivia?.2
    rw [hintact.entry] at htrivia
    rw [arguments_eq] at hread
    dsimp only at hread
    unfold seesArguments
    split at hread
    · next hsees => rw [hsees]; rfl
    · split at hread
      · next hsees => rw [hsees, Bool.or_true]; rfl
      · obtain ⟨draft, htake, -⟩ := Option.bind_eq_some_iff.1 hread
        obtain ⟨comments, u, strings, n', htrivia', hstring, -⟩ := take_eq_some htake
        obtain ⟨-, rfl⟩ : [] = comments ∧ j.woven = u := by
          simpa [Draft.start, htrivia] using htrivia'
        rw [string_eq] at hstring
        obtain ⟨n'', hstring, -⟩ := Option.map_eq_some_iff.1 hstring
        rw [(char?_of_string? hstring).1, Bool.or_true]
  mark _ _ _ _ _ _ _ hslot := by cases hslot

theorem suffixesWeave_rule (hsuffixes : SuffixesWeave w depth)
    (hexpression : GoalWeaves w depth .value (.expression 0))
    (hfields : GoalWeaves w depth .enclosed .fields)
    (hitems : GoalWeaves w depth .items (.separated .expression)) :
    SuffixesWeave w (depth + 1) := by
  intro c0 draft hspans
  have hpair {slots : List Site.Slot} {text : String} {t : Char} (pair : String)
      (htext : text.toList = [t]) (ht : t ≠ ')' ∧ Dialect.lua.isNameStart t = false)
      (hpair : pair ∈ Joint.pairMarks) :
      Fails w slots fun u => u.sees text && !u.sees pair :=
    fails_of_intact (fun j h => by rw [h.sees _ htext, h.pairs pair hpair])
      fun slot c _ hfront => by rw [hfront.sees _ htext ht, Bool.false_and]
  have hchain : Continues w .prefixed c0 (.behind false) [] SameKinds draft
      (dottedOr (rules .lua depth)) fun b => dottedOr (rules .lua (depth + b)) := by
    have hnone : Sight.Within ⟨[], false⟩ (.behind false) := ⟨nofun, nofun⟩
    have hmark {t : String} {ch : Char} (ht : t.toList = [ch]) {read' : Nat → Reader} :
        Holds w [] (Cursor.sees t) read' := holds_of_intact (sees_intact ht)
    have hbracket : Continues w .prefixed c0 (.behind false) [] SameKinds draft
        (indexedOr (rules .lua depth)) fun b => indexedOr (rules .lua (depth + b)) :=
      .mono (.branch (fails_sees rfl (by decide) (by decide)) (hmark rfl)
        (fun _ => continues_indexed hsuffixes hexpression) fun _ => .keep hspans)
        (Sight.or_within hnone (Sight.within_refl _))
    have harguments : Continues w .prefixed c0 (.behind false) [] SameKinds draft
        (calledOr (rules .lua depth)) fun b => calledOr (rules .lua (depth + b)) :=
      .mono (.branch fails_seesArguments holds_seesArguments
        (fun _ => continues_called hsuffixes hfields hitems) fun _ => hbracket)
        (Sight.or_within hnone (Sight.within_refl _))
    have hcolon : Continues w .prefixed c0 (.behind false) [] SameKinds draft
        (methodCalledOr (rules .lua depth)) fun b => methodCalledOr (rules .lua (depth + b)) :=
      .mono (.branch (hpair "::" rfl (by decide) (by decide))
        (holds_of_intact fun j h => by rw [h.sees ":" rfl, h.pairs "::" (by decide)])
        (continues_methodCalled hsuffixes hfields hitems) fun _ => harguments)
        (Sight.or_within hnone (Sight.within_refl _))
    exact .mono (.branch (hpair ".." rfl (by decide) (by decide))
      (holds_of_intact fun j h => by rw [h.sees "." rfl, h.pairs ".." (by decide)])
      (continues_dotted hsuffixes) fun _ => hcolon)
      (Sight.or_within hnone (Sight.within_refl _))
  obtain ⟨head, hchildren, -⟩ := hspans
  refine hchain.congr (suffixed_rule draft hchildren) fun b cursor children' hsame => ?_
  obtain ⟨head', hhead'⟩ : ∃ head', children' = [head'] := by
    have hlength := congrArg List.length hsame
    rw [List.length_map, List.length_map, hchildren] at hlength
    exact List.length_eq_one_iff.1 hlength
  have hdepth : depth + 1 + b = depth + b + 1 := by omega
  rw [hdepth]
  exact suffixed_rule ⟨cursor, children'⟩ hhead'

end

theorem weaves_prefixExpression (hsuffixes : SuffixesWeave w depth)
    (hexpression : GoalWeaves w depth .value (.expression 0)) :
    Weaves w .prefixed (prefixExpression .lua (rules .lua depth))
      fun b => prefixExpression .lua (rules .lua (depth + b)) := by
  have hparen : Weaves w .prefixed (fun c => (Draft.start c).take (mark "(") >>= fun draft =>
        draft.take (rules .lua depth (.expression 0)) >>= fun draft => draft.take (mark ")") >>=
          fun draft => suffixed (rules .lua depth) (.ofNode (draft.toNode .parenthesized) draft.cursor))
      fun b c => (Draft.start c).take (mark "(") >>= fun draft =>
        draft.take (rules .lua (depth + b) (.expression 0)) >>= fun draft => draft.take (mark ")") >>=
          fun draft => suffixed (rules .lua (depth + b))
            (.ofNode (draft.toNode .parenthesized) draft.cursor) :=
    .start (weaves_mark (by decide)) (Sight.within_all _) rfl nofun fun _ _ _ _ _ =>
      .take hexpression (Sight.blunt_within _) fun _ _ _ _ _ _ _ _ =>
        .take (weaves_mark (by decide)) (Sight.within_all _) fun _ _ _ _ _ _ _ _ =>
          continues_suffixed (by decide) hsuffixes
  have hname : Weaves w .prefixed
      (fun c => (Draft.start c).take (name .lua) >>= suffixed (rules .lua depth))
      fun b c => (Draft.start c).take (name .lua) >>= suffixed (rules .lua (depth + b)) :=
    .start weaves_name (Sight.within_all _) rfl nofun fun c nodes next hpost _ =>
      hsuffixes c ⟨next, nodes⟩ ⟨_, hpost, rfl, rfl, rfl, rfl⟩
  exact .iteSees "(" rfl rfl (hparen.weaken _) (hname.weaken _)

/-! ## Functions -/

/-- The parameters of a function. -/
def Manner.parameters (role : Option Role) : Manner :=
  ⟨none, false, .all, fun _ => [], fun c nodes n => ∃ x, nodes = [x] ∧ x.start = c.offset
    ∧ x.stop = n.offset ∧ x.role = role ∧ x.kind = .parameters, SameKinds⟩

theorem weaves_parameters (hitems : GoalWeaves w depth .items (.separated .parameter)) :
    Weaves w (.parameters (some .parameters)) (inRole .parameters (parameters (rules .lua depth)))
      fun b => inRole .parameters (parameters (rules .lua (depth + b))) := by
  have hfinish {c0 draft} {same : List Node → List Node → Prop} : Continues w (.parameters none) c0
      .all [] same draft (Draft.finish .parameters) fun _ => Draft.finish .parameters := by
    refine .result (p := .parameters none)
      (fun hbegun => ⟨⟨_, rfl, hbegun.first, rfl, rfl, rfl⟩, _, [], rfl, hbegun.first⟩)
      (placesIn_toNode rfl rfl (.refl _)) fun _ halike _ => ⟨halike.node (by simp) .., rfl⟩
  have hplain : Weaves w (.parameters none) (parameters (rules .lua depth))
      fun b => parameters (rules .lua (depth + b)) :=
    weaves_enclosed _ _ _ ⟨rfl, rfl⟩ (by decide) (by decide) (by decide) rfl hitems.enclosed hfinish
  refine Weaves.inRole (fun role c nodes n => ∃ x, nodes = [x] ∧ x.start = c.offset
    ∧ x.stop = n.offset ∧ x.role = role ∧ x.kind = .parameters) .parameters (fun _ => rfl) ?_ ?_ hplain
  · rintro c nodes n ⟨x, rfl, hstart, hstop, -, hkind⟩
    cases x
    exact ⟨_, rfl, hstart, hstop, rfl, hkind⟩
  · intro nodes' nodes h
    have hkinds (nodes : List Node) :
        (nodes.map (Node.withRole .parameters)).map Node.kind = nodes.map Node.kind := by
      rw [List.map_map]
      exact List.map_congr_left fun n _ => by cases n; rfl
    exact (hkinds nodes').trans (h.trans (hkinds nodes).symm)

/-- The children of a function in front of its parameters. -/
def IsHead (stop : Nat) (nodes : List Node) : Prop := ∀ n ∈ nodes, (n.kind = .comment ∨ n.stop ≤ stop)
  ∧ n.role ≠ some .parameters ∧ n.role ≠ some .body ∧ n.kind ≠ .block

theorem IsHead.mono {stop stop' : Nat} {nodes : List Node} (h : IsHead stop nodes)
    (hle : stop ≤ stop') : IsHead stop' nodes := fun n hn =>
  ⟨(h n hn).1.imp_right fun h => h.trans hle, (h n hn).2⟩

theorem isHead_append {stop : Nat} {a b : List Node} (ha : IsHead stop a) (hb : IsHead stop b) :
    IsHead stop (a ++ b) := fun n hn => (List.mem_append.1 hn).elim (ha n) (hb n)

theorem isHead_comments {stop : Nat} {comments : List Node} (h : Lexeme.AreComments comments) :
    IsHead stop comments := fun n hn =>
  ⟨.inl (h n hn).1, by simp [(h n hn).2], by simp [(h n hn).2], by simp [(h n hn).1]⟩

theorem foldl_max {m : Nat} {stops : List Nat} (h : ∀ a ∈ stops, a ≤ m) : stops.foldl max m = m := by
  induction stops with
  | nil => rfl
  | cons a stops ih =>
    obtain ⟨ha, hstops⟩ := List.forall_mem_cons.1 h
    rw [List.foldl_cons, Nat.max_eq_left ha, ih hstops]

/-- The body of a function starts behind its parameters. -/
theorem bodyPlaces_of_children {n : Node} (heads body comments : List Node) (x y : Node)
    (hchildren : n.children = heads ++ [x] ++ body ++ comments ++ [y]) (hheads : IsHead x.stop heads)
    (hx : x.role = some .parameters ∧ x.kind = .parameters) (hbody : IsBody x.stop y.start body)
    (hcomments : Lexeme.AreComments comments) (hy : y.kind = .token "end" ∧ y.role = none)
    (hlt : y.start < y.stop) (hle : x.stop ≤ y.start) :
    bodyPlaces n = [(x.stop, .statement)] := by
  have hnoRole {nodes : List Node} (h : Lexeme.AreComments nodes) (role : Role) :
      nodes.find? (·.role == some role) = none :=
    List.find?_eq_none.2 fun a ha => by simp [(h a ha).2]
  have hparameters : parameters? n = some x := by
    have hfront : heads.find? (·.role == some .parameters) = none :=
      List.find?_eq_none.2 fun a ha => by simpa using (hheads a ha).2.1
    simp [parameters?, Node.childInRole?, hchildren, List.find?_append, hfront, hx.1]
  have hfront : heads.find? (·.role == some .body) = none :=
    List.find?_eq_none.2 fun a ha => by simpa using (hheads a ha).2.2.1
  -- The limit is the block, or the keyword behind the missing block.
  have hlimit : ∃ limit, bodyLimit? n = some limit ∧ y.start < y.stop ∧ limit.start ≤ y.start
      ∧ ∀ a ∈ body, a.kind = .comment ∨ limit.start < a.stop := by
    rcases hbody with rfl | ⟨more, b, rfl, hmore, hkind, hrole, hstart, hstop, hlast⟩
    · refine ⟨y, ?_, hlt, Nat.le_refl _, by simp⟩
      have hrole : n.childInRole? .body = none := by
        simp [Node.childInRole?, hchildren, List.find?_append, hfront, hx.1, hy.2, hnoRole hcomments]
      have hblock : n.childOfKind? .block = none := by
        refine List.find?_eq_none.2 fun a ha => ?_
        have hmem := (List.mem_filter.1 ha).1
        rw [hchildren] at hmem
        simp only [List.append_nil, List.mem_append, List.mem_singleton] at hmem
        rcases hmem with ((hmem | rfl) | hmem) | rfl
        · simpa using (hheads a hmem).2.2.2
        · simp [hx.2]
        · simp [(hcomments a hmem).1]
        · simp [hy.1]
      have hend : n.lastToken? "end" = some y := by
        simp [Node.lastToken?, hchildren, hy.1]
      rw [bodyLimit?, hrole, hblock, hend]
      rfl
    · refine ⟨b, ?_, hlt, by omega, ?_⟩
      · have hfound : n.childInRole? .body = some b := by
          simp [Node.childInRole?, hchildren, List.find?_append, hfront, hx.1, hrole, hnoRole hmore]
        rw [bodyLimit?, hfound]
        rfl
      · intro a ha
        rcases List.mem_append.1 ha with ha | ha
        · exact .inl (hmore a ha).1
        · rw [List.mem_singleton.1 ha]
          exact .inr hstop
  obtain ⟨limit, hlimit, -, hstart, hall⟩ := hlimit
  have hoffset : bodyOffset n x limit = x.stop := by
    refine foldl_max fun stop hstop => ?_
    obtain ⟨a, ha, rfl⟩ := List.mem_map.1 hstop
    obtain ⟨hmem, htest⟩ := List.mem_filter.1 ha
    simp only [Bool.and_eq_true, bne_iff_ne, decide_eq_true_eq] at htest
    rw [hchildren] at hmem
    simp only [List.mem_append, List.mem_singleton] at hmem
    rcases hmem with (((hmem | rfl) | hmem) | hmem) | rfl
    · exact (hheads a hmem).1.resolve_left htest.1
    · exact Nat.le_refl _
    · have hlt := (hall a hmem).resolve_left htest.1
      omega
    · exact absurd (hcomments a hmem).1 htest.1
    · omega
  rw [bodyPlaces, hparameters, hlimit]
  exact congrArg (fun offset => [(offset, Site.Slot.statement)]) hoffset

theorem functionBody_bind (table : Rules) (draft : Draft) (k : Draft → Read) :
    functionBody .lua table draft >>= k =
      draft.takeIf (fun c => decide (Dialect.lua = .luau) && c.sees "<") (genericTypeList table)
        >>= fun draft => draft.take (inRole .parameters (parameters table)) >>= fun draft =>
          draft.takeIf (fun c => decide (Dialect.lua = .luau) && c.sees ":") (fun c => do
            let draft ← (Draft.start c).take (mark ":")
            let draft ← draft.take (table .type)
            draft.spill) >>= fun draft =>
              draft.body table ["end"] >>= fun draft => draft.take (keyword .lua "end") >>= k := by
  unfold functionBody
  simp only [bind_assoc]

theorem continues_functionBody {kind : NodeKind} {sight : Option Site.Slot × Bool} {follow : Sight}
    {c0 : Cursor} {draft : Draft} {same : List Node → List Node → Prop}
    (hkind : kind = .functionDefinition ∨ kind = .functionDeclaration)
    (hblock : BlockWeaves w depth ["end"]) (hitems : GoalWeaves w depth .items (.separated .parameter))
    (hheads : IsHead draft.cursor.offset draft.children) :
    Continues w (.node none sight follow) c0 ⟨[], false⟩ [] same draft
      (fun draft => functionBody .lua (rules .lua depth) draft >>= Draft.finish kind)
      fun b draft => functionBody .lua (rules .lua (depth + b)) draft >>= Draft.finish kind := by
  have hordinary : isOrdinary kind = true := by rcases hkind with rfl | rfl <;> rfl
  have hown (draft : Draft) : ownPlaces (draft.toNode kind) = bodyPlaces (draft.toNode kind) := by
    rcases hkind with rfl | rfl <;> rfl
  simp only [functionBody_bind]
  refine .skip (fun _ => rfl) (.take (weaves_parameters hitems) (Sight.within_refl _)
    fun comments u nodes next hcomments hpost hle hlt => .skip (fun _ => rfl)
      (.body true hblock (by decide) (weaves_keyword "end") rfl (Sight.within_all _)
        fun body more u' nodes' next' hbody hmore hpost' hle' hlt' => .finishOf hordinary ?_))
  obtain ⟨x, rfl, hstart, hstop, hrole, hxkind⟩ := hpost
  obtain rfl := hpost'
  have hplaces : bodyPlaces (Draft.toNode kind ⟨next', draft.children ++ comments ++ [x] ++ body ++ more
      ++ [.mk (.token "end") none u'.offset next'.offset []]⟩) = [(x.stop, .statement)] := by
    refine bodyPlaces_of_children (draft.children ++ comments) body more x
      (.mk (.token "end") none u'.offset next'.offset []) rfl
      (isHead_append (hheads.mono ?_) (isHead_comments hcomments)) ⟨hrole, hxkind⟩ ?_ hmore ⟨rfl, rfl⟩
      hlt' ?_
    · omega
    · rw [hstop]
      exact hbody
    · rw [hstop]
      exact hle'
  rw [hown, hplaces, hstop]
  exact .refl _

end LuaCoverage.Instrument
