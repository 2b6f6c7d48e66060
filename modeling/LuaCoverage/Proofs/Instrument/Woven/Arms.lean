import LuaCoverage.Proofs.Instrument.Woven.Statements

/-!
# The arms of an `if` statement in a woven source

An arm has a call in front of its body, and a statement without an `else` arm has one written in
front of its `end`. So in the result all arms are read up to that `end`: behind the last arm of the
source, or behind the arm that was written.

Results:
* `armsWeave_rule`: the arms behind the first are read in the result if their bodies are.
* `weaves_ifStatement`: so is the whole statement.
-/

namespace LuaCoverage.Instrument
open LuaCoverage.Lua LuaCoverage.Text LuaCoverage.Lua.Cursor LuaCoverage.Lua.Grammar
open LuaCoverage.Analysis

variable {w : Writing} {depth : Nat}

/-! ## One arm -/

def isArm (n : Node) : Bool := n.kind == .elseifStatement || n.kind == .elseStatement

/-- Whether there is an `else` arm among nodes. -/
def isClosed (nodes : List Node) : Bool := nodes.any fun n => n.kind == .elseStatement

theorem armPlaces_append (a b : List Node) : armPlaces (a ++ b) = armPlaces a ++ armPlaces b :=
  List.flatMap_append

theorem armPlaces_of_not {nodes : List Node} (h : ∀ n ∈ nodes, isArm n = false) :
    armPlaces nodes = [] := by
  refine List.flatMap_eq_nil_iff.2 fun n hn => ?_
  have hnot := h n hn
  cases hkind : n.kind <;> first | rfl | simp [isArm, hkind] at hnot

/-- Tokens are no arms. -/
theorem armPlaces_filter (nodes : List Node) :
    armPlaces (nodes.filter Node.isNamed) = armPlaces nodes := by
  induction nodes with
  | nil => rfl
  | cons n rest ih =>
    have hsplit (nodes : List Node) : armPlaces (n :: nodes) = armPlaces [n] ++ armPlaces nodes :=
      armPlaces_append [n] nodes
    by_cases hn : n.isNamed = true
    · rw [List.filter_cons_of_pos hn, hsplit, hsplit rest, ih]
    · have hnone : armPlaces [n] = [] := by
        refine armPlaces_of_not fun m hm => ?_
        rw [List.mem_singleton.1 hm]
        unfold Node.isNamed at hn
        cases hkind : n.kind <;> simp [hkind, isArm] at hn ⊢
      rw [List.filter_cons_of_neg hn, ih, hsplit, hnone, List.nil_append]

theorem isClosed_of_not {nodes : List Node} (h : ∀ n ∈ nodes, isArm n = false) :
    isClosed nodes = false := by
  refine List.any_eq_false.2 fun n hn => ?_
  have hnot := h n hn
  simp only [isArm, Bool.or_eq_false_iff] at hnot
  simp [hnot.2]

theorem isClosed_filter (nodes : List Node) :
    isClosed (nodes.filter Node.isNamed) = isClosed nodes := by
  rw [isClosed, isClosed, List.any_filter]
  congr
  funext n
  unfold Node.isNamed
  cases hkind : n.kind <;> simp

theorem isArm_of_isOrdinary {n : Node} (h : isOrdinary n.kind = true) : isArm n = false := by
  unfold isArm
  cases hkind : n.kind <;> first | rfl | (rw [hkind] at h; cases h)

theorem isArm_of_comments {comments : List Node} (h : Lexeme.AreComments comments) :
    ∀ n ∈ comments, isArm n = false := fun n hn => by simp [isArm, (h n hn).1]

/-- What an arm starts with. Its last node is the keyword in front of the body. -/
def IsArmHead (word : String) (nodes : List Node) (n : Cursor) : Prop :=
  ∃ front t, nodes = front ++ [t] ∧ t.kind = .token word ∧ t.stop = n.offset
    ∧ ∀ a ∈ front, a.kind ≠ .token word ∧ isArm a = false

def Manner.armHead (word : String) : Manner :=
  ⟨none, true, .all, fun _ => [], fun _ nodes n => IsArmHead word nodes n, AnyKinds⟩

/-- An arm up to its condition. -/
def armHead (word : String) (table : Rules) : Reader := fun c =>
  (Draft.start c).take (keyword .lua word) >>= fun draft =>
    draft.take (table (.expression 0)) >>= fun draft =>
      draft.take (keyword .lua "then") >>= Draft.spill

def elseHead : Reader := fun c => (Draft.start c).take (keyword .lua "else") >>= Draft.spill

/-- An arm up to its body. -/
def armed (head : Reader) (closers : List String) (table : Rules) (c : Cursor) : Option Draft :=
  (head c).bind fun (nodes, n) => Draft.body table closers ⟨n, nodes⟩

theorem endsWord_of_keyword {text : String} {draft draft' : Draft}
    (h : draft.take (keyword .lua text) = some draft') : Lexeme.EndsWord draft'.cursor.rest := by
  obtain ⟨comments, u, nodes, n, -, hread, rfl⟩ := take_eq_some h
  unfold keyword at hread
  split at hread
  · next word next hword =>
    split at hread
    · cases hread
      obtain ⟨front, -, -, hends⟩ := Lexeme.exists_word? hword
      exact hends
    · cases hread
  · cases hread

theorem endsWord_of_armHead {word : String} {table : Rules} {c n : Cursor} {nodes : List Node}
    (h : armHead word table c = some (nodes, n)) : Lexeme.EndsWord n.rest := by
  obtain ⟨draft, -, h⟩ := Option.bind_eq_some_iff.1 h
  obtain ⟨draft', -, h⟩ := Option.bind_eq_some_iff.1 h
  obtain ⟨draft'', htake, h⟩ := Option.bind_eq_some_iff.1 h
  cases h
  exact endsWord_of_keyword htake

theorem endsWord_of_elseHead {c n : Cursor} {nodes : List Node}
    (h : elseHead c = some (nodes, n)) : Lexeme.EndsWord n.rest := by
  obtain ⟨draft, htake, h⟩ := Option.bind_eq_some_iff.1 h
  cases h
  exact endsWord_of_keyword htake

theorem weaves_armHead {word : String} (hword : word ≠ "then")
    (hexpression : GoalWeaves w depth .value (.expression 0)) :
    Weaves w (.armHead "then") (armHead word (rules .lua depth))
      fun b => armHead word (rules .lua (depth + b)) := by
  refine .start (weaves_keyword word) (Sight.within_all _) rfl id fun c nodes next hfirst _ =>
    .take hexpression (Sight.blunt_within _) fun comments u nodes' next' hcomments hspans _ _ =>
      .take (weaves_keyword "then") (Sight.within_all _) fun comments' u' nodes'' next'' hcomments'
        hthen _ _ => .result (p := .armHead "then") (fun hbegun => ⟨?_, hbegun.begins⟩) (.refl _)
          fun _ halike _ => ⟨halike, trivial⟩
  obtain ⟨⟨x, rfl, -, -, -, hkind⟩, -⟩ := hspans
  obtain rfl : nodes = _ := hfirst
  obtain rfl : nodes'' = _ := hthen
  refine ⟨_, _, rfl, rfl, rfl, ?_⟩
  simp only [List.forall_mem_append, List.forall_mem_singleton]
  refine ⟨⟨⟨⟨by simpa [Node.kind] using hword, rfl⟩, fun a ha => ?_⟩, ?_⟩, fun a ha => ?_⟩
  · exact ⟨by simp [(hcomments a ha).1], isArm_of_comments hcomments a ha⟩
  · constructor
    · intro heq
      rw [heq] at hkind
      cases hkind
    · exact isArm_of_isOrdinary hkind
  · exact ⟨by simp [(hcomments' a ha).1], isArm_of_comments hcomments' a ha⟩

theorem weaves_elseHead : Weaves w (.armHead "else") elseHead fun _ => elseHead := by
  refine .start (weaves_keyword "else") (Sight.within_all _) rfl id fun c nodes next hfirst _ =>
    .result (p := .armHead "else") (fun hbegun => ⟨?_, hbegun.begins⟩) (.refl _)
      fun _ halike _ => ⟨halike, trivial⟩
  obtain rfl : nodes = _ := hfirst
  exact ⟨[], _, rfl, rfl, rfl, nofun⟩

/-- What was read as an arm up to its body is of an outline, over which it is read in the result.
Where a word has just ended, no other slot may follow the call in front of the body. -/
structure Arm (w : Writing) (word : String) (closers : List String) (c n : Cursor)
    (children : List Node) (outline : Outline) (armed' : Nat → Cursor → Option Draft) : Prop where
  passes : Passes c n (plain outline)
  nonempty : plain outline ≠ []
  leads : outline.Leads none
  begins : Begins c children
  arms : ∀ a ∈ children, isArm a = false
  places : ∃ t, children.find? (·.kind == .token word) = some t
    ∧ (outline.places c.offset).Perm ((t.stop, .statement) :: placesIn false children)
  tidy : ∀ back : Outline, back.isTidy none = true →
    (Lexeme.EndsWord n.rest → back.Leads (some .statement)) → (outline ++ back).isTidy none = true
  starts : ∀ j l : Joint w, j.source = c → j.Goes outline l → l.Ready (.closing closers) → j.Intact
  reads : ∀ j l : Joint w, j.source = c → j.Goes outline l → l.Ready (.closing closers) →
    ∀ b, 16 * outline.count ≤ b → ∃ children', armed' b j.entry = some ⟨l.woven, children'⟩
      ∧ Alike w children' children

theorem isArm_of_isBody {start stop : Nat} {body : List Node} (h : IsBody start stop body) :
    ∀ a ∈ body, isArm a = false := by
  rcases h with rfl | ⟨comments, x, rfl, hcomments, hkind, -⟩
  · simp
  · refine List.forall_mem_append.2 ⟨isArm_of_comments hcomments, fun a ha => ?_⟩
    rw [List.mem_singleton.1 ha]
    simp [isArm, hkind]

/-- What is read as an arm is one. -/
theorem exists_arm {word : String} {closers : List String} {read : Reader} {read' : Nat → Reader}
    {c : Cursor} {draft : Draft} (hhead : Weaves w (.armHead word) read read')
    (hends : ∀ {c n nodes}, read c = some (nodes, n) → Lexeme.EndsWord n.rest)
    (hblock : BlockWeaves w depth closers) (hclosers : ∀ word ∈ closers, word ∈ reservedWords)
    (hc : Landed c) (h : armed read closers (rules .lua depth) c = some draft) :
    ∃ n children outline, draft = ⟨n, children⟩ ∧ Arm w word closers c n children outline
      fun b => armed (read' b) closers (rules .lua (depth + b)) := by
  obtain ⟨⟨nodes, m⟩, hread, hbody⟩ := Option.bind_eq_some_iff.1 h
  obtain ⟨⟨front, t, rfl, ht, hstop, hfront⟩, first, hfirst⟩ := hhead c nodes m hc trivial hread
  have hsolid : Solid m := (show Solid c from hc.solid).passes hfirst.passes
  obtain ⟨n, body, back, rfl, hback⟩ := exists_bodies hblock hclosers hsolid hbody true
  have hgoesTo {j l : Joint w} (hj : j.source = c) (hgoes : j.Goes (first ++ back) l)
      (hl : l.Ready (.closing closers)) : ∃ i : Joint w, j.Goes first i ∧ i.source = m
        ∧ i.Goes back l ∧ i.Ready .all := by
    obtain ⟨i, hji, hil⟩ := Joint.goes_append.1 hgoes
    have hi : i.source = m := hji.source_eq hj hfirst.passes
    exact ⟨i, hji, hi, hil, hback.ready i l hi hil hl⟩
  refine ⟨n, front ++ [t] ++ body, first ++ back, rfl, ?_, ?_, hfirst.leads.append back, ?_, ?_, ?_,
    fun more hmore hleads => ?_, fun j l hj hgoes hl => ?_, fun j l hj hgoes hl b hb => ?_⟩
  · simpa using hfirst.passes.trans hback.passes
  · simp [hfirst.nonempty]
  · obtain ⟨x, rest, hchildren, hstart⟩ := hfirst.begins
    exact ⟨x, rest ++ body, by rw [hchildren]; rfl, hstart⟩
  · refine List.forall_mem_append.2 ⟨List.forall_mem_append.2 ⟨fun a ha => (hfront a ha).2, ?_⟩,
      isArm_of_isBody hback.isBody⟩
    simp [isArm, ht]
  · refine ⟨t, ?_, ?_⟩
    · have hnone : front.find? (·.kind == .token word) = none :=
        List.find?_eq_none.2 fun a ha => by simpa using (hfront a ha).1
      simp [List.find?_append, hnone, ht]
    · have hfirst' : (first.places c.offset).Perm (placesIn false (front ++ [t])) := hfirst.places
      rw [Outline.places_append, ← hfirst.passes.offset, placesIn_append _ body, hstop]
      refine (hfirst'.append hback.places).trans ?_
      exact List.perm_middle
  · rw [List.append_assoc]
    refine Outline.isTidy_append hfirst.tidy (hback.tidy more hmore fun heq => hleads ?_)
    rw [heq]
    exact hends hread
  · obtain ⟨i, hji, hi, -, hready⟩ := hgoesTo hj hgoes hl
    exact (hfirst.starts j i hj hji hready).intact
  · obtain ⟨i, hji, hi, hil, hready⟩ := hgoesTo hj hgoes hl
    rw [Outline.count_append] at hb
    obtain ⟨nodes', hnodes', halike, -⟩ := hfirst.reads j i hj hji hready b (by omega)
    obtain ⟨new, hnew, htrees⟩ := hback.reads i l hi hil hl b (by omega) nodes'
    exact ⟨nodes' ++ new, by rw [armed, hnodes']; exact hnew, halike.append htrees⟩

/-! ## The end of the arms -/

/-- The arm that is written if there is no `else` arm. -/
def missing (closed : Bool) : Outline := if closed then [] else [.mark .elseArm]

/-- Behind white space, and behind the arm that was written if there was none, an `end` comes next. -/
structure Closing (closed : Bool) (l i : Joint w) : Prop where
  gap : ∃ comments gap, Gap l.source i.source comments gap ∧ l.Goes (bare gap ++ missing closed) i
  intact : i.Intact
  word : Lexeme.wordAt .lua i.source = "end"

/-- Behind white space comes what comes at a joint. -/
def Ending (e : Cursor) (i : Joint w) : Prop :=
  ∃ comments, Lexeme.trivia? e = some (comments, i.entry) ∧ Lexeme.AreComments comments

namespace Closing
variable {closed : Bool} {l i : Joint w}

theorem seesStatement (h : Closing closed l i) :
    Grammar.seesStatement .lua ["end"] i.woven = false := by
  rw [h.intact.seesStatement]
  obtain ⟨⟨word, next⟩, hword⟩ := Option.isSome_iff_exists.1
    (isSome_word?_of_wordAt (c := i.source) (by rw [h.word]; decide))
  have hend : word = "end" := (Joint.wordAt_of_word? hword).symm.trans h.word
  rw [seesStatement_eq, sees_of_word? hword ";" rfl (by decide),
    sees_of_word? hword "(" rfl (by decide),
    sees_of_word? hword "::" rfl (by decide), Joint.wordAt_of_word? hword, hend]
  simp

theorem isBlunt (h : Closing closed l i) : Instrument.isBlunt i.source = true := by
  obtain ⟨⟨word, next⟩, hword⟩ := Option.isSome_iff_exists.1
    (isSome_word?_of_wordAt (c := i.source) (by rw [h.word]; decide))
  exact isBlunt_of_word? hword

/-- Behind the arms of a source with an `else` arm there is nothing but white space. -/
theorem ending (h : Closing true l i) : l.Ready ⟨[], true⟩ ∧ Ending l.woven i := by
  obtain ⟨comments, gap, hgap, hgoes⟩ := h.gap
  rw [missing, if_pos rfl, List.append_nil] at hgoes
  have hstarts : i.Starts (· ∈ []) := .inl h.intact
  obtain ⟨comments', htrivia, hcomments'⟩ := hgap.goes rfl hgoes hstarts
  exact ⟨.of_trivia? hgap.trivia rfl rfl htrivia hstarts fun _ => h.isBlunt, comments', htrivia,
    hcomments'⟩

/-- Behind those of a source without one the arm that was written is read. -/
theorem written (h : Closing false l i) : l.Ready .ending ∧ ∃ new e, Ending e i
    ∧ Node.erasedIn w.result w.written new = [] ∧ ∀ depth, 11 ≤ depth → ∀ children',
      (Draft.mk l.woven children').takeIf (Grammar.seesAlternative .lua) (rules .lua depth .alternatives)
        = some ⟨e, children' ++ new⟩ := by
  obtain ⟨comments, gap, hgap, hgoes⟩ := h.gap
  obtain ⟨m, hlm, hmi⟩ := Joint.goes_append.1 hgoes
  obtain ⟨s, hslot, hpieces, hsource, -⟩ := Joint.goes_mark hmi
  have hne : m.source.rest ≠ [] := by
    intro hnil
    have hword := h.word
    rw [hsource] at hword
    simp [Lexeme.wordAt, Lexeme.word?, Cursor.char?, hnil] at hword
  have hstarts : m.Starts (· ∈ Sight.ending.slots) :=
    .inr ⟨⟨s, i.pieces, hpieces, List.mem_singleton.2 hslot⟩, hne⟩
  obtain ⟨comments', htrivia, hcomments'⟩ := hgap.goes rfl hlm hstarts
  refine ⟨.of_trivia? hgap.trivia rfl hsource.symm htrivia hstarts fun _ => h.isBlunt, ?_⟩
  have hfront : Joint.Front w .elseArm m.entry := hslot ▸ Joint.entry_mark hpieces
  have hi : i.Starts (· ∈ []) := .inl h.intact
  have htrivia' : Lexeme.trivia? i.woven = some ([], i.woven) := by
    have htrivia' := hi.trivia?.2
    rwa [h.intact.entry] at htrivia'
  obtain ⟨arm, e, herased, hend, hread⟩ :=
    Joint.alternatives_mark hmi htrivia' h.seesStatement (Nat.le_refl 8)
  refine ⟨comments' ++ [arm], e, ⟨[], by rw [h.intact.entry]; exact hend, by simp [Lexeme.AreComments]⟩, ?_,
    fun depth hdepth children' => ?_⟩
  · rw [Node.erasedIn_append, erasedIn_comments hcomments', List.nil_append]
    exact herased
  · have hupcoming : upcoming? l.woven = some m.entry := by rw [upcoming?, htrivia]; rfl
    have hsees : Grammar.seesAlternative .lua m.entry = true := by
      rw [Grammar.seesAlternative, hfront.wordAt]
      rfl
    simp [Draft.takeIf, Draft.take, hupcoming, hsees, htrivia, rules_mono hdepth hread]

end Closing

/-! ## The arms behind the first -/

/-- How many sites are read with the arms: those of the outline, and the arm that is missing. -/
def Outline.armCount (outline : Outline) (nodes : List Node) : Nat :=
  outline.count + (missing (isClosed nodes)).count

/-- What was read as the arms of a statement is of an outline, over which they are read in the result
up to the `end`. -/
structure Arms (w : Writing) (c n : Cursor) (nodes : List Node) (outline : Outline)
    (read' : Nat → Reader) : Prop where
  passes : Passes c n (plain outline)
  leads : outline.Leads none
  places : (outline.places c.offset).Perm (armPlaces nodes ++ placesIn false nodes)
  tidy : ∀ back : Outline, back.isTidy none = true →
    (Lexeme.EndsWord n.rest → back.Leads (some .statement)) → (outline ++ back).isTidy none = true
  starts : ∀ j l i : Joint w, j.source = c → j.Goes outline l →
    Closing (isClosed nodes) l i → j.Intact
  reads : ∀ j l i : Joint w, j.source = c → j.Goes outline l →
    Closing (isClosed nodes) l i → ∀ b, 16 * outline.armCount nodes ≤ b →
    ∃ nodes' e, read' b j.entry = some (nodes', e) ∧ Ending e i
      ∧ Node.erasedIn w.result w.written nodes' = Node.treesIn w.source nodes

def ArmsWeave (w : Writing) (depth : Nat) : Prop := ∀ c nodes n, Landed c →
  rules .lua depth .alternatives c = some (nodes, n) →
    ∃ outline, Arms w c n nodes outline fun b => rules .lua (depth + b) .alternatives

/-- Goes on with the other arms, if there are any. -/
def moreArms (table : Rules) (draft : Draft) : Option Draft :=
  draft.takeIf (seesAlternative .lua) (table .alternatives)

/-- What follows an arm is of an outline, over which it follows in the result. -/
structure Rest (w : Writing) (depth : Nat) (c n : Cursor) (nodes : List Node) (outline : Outline) :
    Prop where
  passes : Passes c n (plain outline)
  leads : ∀ back : Outline, (Lexeme.EndsWord n.rest → back.Leads (some .statement)) →
    Lexeme.EndsWord c.rest → (outline ++ back).Leads (some .statement)
  places : (outline.places c.offset).Perm (armPlaces nodes ++ placesIn false nodes)
  tidy : ∀ back : Outline, back.isTidy none = true →
    (Lexeme.EndsWord n.rest → back.Leads (some .statement)) → (outline ++ back).isTidy none = true
  ready : ∀ j l i : Joint w, j.source = c → j.Goes outline l → Closing (isClosed nodes) l i →
    j.Ready .ending
  reads : ∀ j l i : Joint w, j.source = c → j.Goes outline l → Closing (isClosed nodes) l i →
    ∀ b, 16 * outline.armCount nodes ≤ b → ∃ new e, Ending e i
      ∧ Node.erasedIn w.result w.written new = Node.treesIn w.source nodes
      ∧ ∀ children', moreArms (rules .lua (depth + b)) ⟨j.woven, children'⟩
        = some ⟨e, children' ++ new⟩

theorem Joint.Intact.seesAlternative {j : Joint w} (h : j.Intact) :
    Grammar.seesAlternative .lua j.woven = Grammar.seesAlternative .lua j.source := by
  rw [Grammar.seesAlternative, Grammar.seesAlternative, h.word]

/-- No arm follows in the source. -/
theorem Rest.empty (w : Writing) (depth : Nat) (c : Cursor) : Rest w depth c c [] [] where
  passes := .refl c
  leads := fun back hback hends => hback hends
  places := by simp [Outline.places, armPlaces]
  tidy := fun back hback _ => hback
  ready := fun j l i _ hgoes hclosing => by
    rw [Joint.goes_nil.1 hgoes] at hclosing
    exact hclosing.written.1
  reads := fun j l i _ hgoes hclosing b hb => by
    rw [Joint.goes_nil.1 hgoes] at hclosing
    obtain ⟨-, new, e, hending, herased, hall⟩ := hclosing.written
    have hcount : Outline.armCount [] [] = 1 := rfl
    rw [hcount] at hb
    exact ⟨new, e, hending, herased.trans Node.treesIn_nil.symm, hall (depth + b) (by omega)⟩

theorem isClosed_append {comments nodes : List Node} (h : Lexeme.AreComments comments) :
    isClosed (comments ++ nodes) = isClosed nodes := by
  rw [isClosed, List.any_append]
  change (isClosed comments || _) = _
  rw [isClosed_of_not (isArm_of_comments h), Bool.false_or]
  rfl

/-- Other arms follow. -/
theorem Rest.of_arms {c u n : Cursor} {comments nodes : List Node} {gap : List Glyph}
    {outline : Outline} (hgap : Gap c u comments gap) (hsees : seesAlternative .lua u = true)
    (h : Arms w u n nodes outline fun b => rules .lua (depth + b) .alternatives) :
    Rest w depth c n (comments ++ nodes) (bare gap ++ outline) := by
  have hcount : Outline.armCount (bare gap ++ outline) (comments ++ nodes)
      = outline.armCount nodes := by
    simp [Outline.armCount, isClosed_append hgap.areComments]
  have hgoesTo {j l i : Joint w} (hj : j.source = c) (hgoes : j.Goes (bare gap ++ outline) l)
      (hclosing : Closing (isClosed (comments ++ nodes)) l i) : ∃ (m : Joint w) (comments' : List Node),
        m.source = u ∧ m.Goes outline l ∧ m.Intact
        ∧ Closing (isClosed nodes) l i ∧ Lexeme.trivia? j.woven = some (comments', m.woven)
        ∧ Lexeme.AreComments comments' := by
    obtain ⟨m, hjm, hml⟩ := Joint.goes_append.1 hgoes
    have hm : m.source = u := hjm.source_eq hj (by simpa using hgap.passes)
    rw [isClosed_append hgap.areComments] at hclosing
    have hintact := h.starts m l i hm hml hclosing
    obtain ⟨comments', htrivia, hcomments'⟩ :=
      hgap.goes hj hjm (show m.Starts (· ∈ []) from .inl hintact)
    rw [hintact.entry] at htrivia
    exact ⟨m, comments', hm, hml, hintact, hclosing, htrivia, hcomments'⟩
  refine ⟨?_, fun back _ _ => ?_, ?_, fun back hback hleads => ?_, fun j l i hj hgoes hclosing => ?_,
    fun j l i hj hgoes hclosing b hb => ?_⟩
  · simpa using hgap.passes.trans h.passes
  · cases gap with
    | nil =>
      obtain ⟨p, rest, rfl, hp | ⟨slot, hslot, -⟩⟩ := h.leads
      · exact ⟨p, rest ++ back, rfl, .inl hp⟩
      · cases hslot
    | cons g gap => exact ⟨.glyph g, _, rfl, .inl ⟨g, rfl⟩⟩
  · have hu : u.offset = c.offset + width gap := hgap.passes.offset
    simp only [Outline.places_append, Outline.places_bare, plain_bare, List.nil_append, ← hu,
      placesIn_append, placesIn_comments hgap.areComments, armPlaces_append,
      armPlaces_of_not (isArm_of_comments hgap.areComments)]
    exact h.places
  · rw [List.append_assoc]
    exact Outline.isTidy_append (Outline.isTidy_bare gap) (h.tidy back hback hleads)
  · obtain ⟨m, comments', hm, -, hintact, -, htrivia, -⟩ := hgoesTo hj hgoes hclosing
    have hblunt : isBlunt u = true := by
      obtain ⟨⟨word, next⟩, hword⟩ := Option.isSome_iff_exists.1
        (isSome_word?_of_wordAt (c := u) fun heq => by
          rw [Grammar.seesAlternative, heq] at hsees
          exact absurd hsees (by decide))
      exact isBlunt_of_word? hword
    rw [← hintact.entry] at htrivia
    exact .of_trivia? hgap.trivia hj hm htrivia (.inl hintact) fun _ => hblunt
  · obtain ⟨m, comments', hm, hml, hintact, hclosing', htrivia, hcomments'⟩ :=
      hgoesTo hj hgoes hclosing
    rw [hcount] at hb
    obtain ⟨nodes', e, hread, hending, herased⟩ := h.reads m l i hm hml hclosing' b hb
    rw [hintact.entry] at hread
    have hsees' : seesAlternative .lua m.woven = true := by rw [hintact.seesAlternative, hm, hsees]
    refine ⟨comments' ++ nodes', e, hending, ?_, fun children' => ?_⟩
    · rw [Node.erasedIn_append, Node.treesIn_append, erasedIn_comments hcomments',
        treesIn_comments hgap.areComments, herased]
    · simp [moreArms, Draft.takeIf, Draft.take, upcoming?, htrivia, hsees', hread]

/-- What follows an arm is one of both. -/
theorem exists_rest {draft draft' : Draft} (harms : ArmsWeave w depth) (hsolid : Solid draft.cursor)
    (h : moreArms (rules .lua depth) draft = some draft') : ∃ n nodes outline,
      draft' = ⟨n, draft.children ++ nodes⟩ ∧ Rest w depth draft.cursor n nodes outline := by
  obtain ⟨u, hu, htaken⟩ := Option.bind_eq_some_iff.1 h
  by_cases hsees : seesAlternative .lua u = true
  · rw [if_pos hsees] at htaken
    obtain ⟨comments, u', nodes, n, htrivia, hread, rfl⟩ := take_eq_some htaken
    obtain rfl : u' = u := by
      rw [upcoming?, htrivia] at hu
      exact Option.some.inj hu
    obtain ⟨gap, hgap⟩ := exists_gap hsolid htrivia
    obtain ⟨outline, hall⟩ := harms u' nodes n hgap.landed hread
    exact ⟨n, comments ++ nodes, _, by rw [List.append_assoc], .of_arms hgap hsees hall⟩
  · rw [if_neg hsees] at htaken
    cases htaken
    exact ⟨draft.cursor, [], [], by rw [List.append_nil], .empty w depth _⟩

theorem alternatives_eq (table : Rules) : alternatives .lua table = fun c =>
    if Lexeme.wordAt .lua c = "elseif" then
      (armed (armHead "elseif" table) armClosers table c).bind fun draft =>
        (moreArms table (.ofNode (draft.toNode .elseifStatement) draft.cursor)).bind Draft.spill
    else (armed elseHead ["end"] table c).bind (Draft.finish .elseStatement) := by
  funext c
  simp only [alternatives, armed, armHead, elseHead, moreArms, Option.bind_eq_bind,
    Option.bind_assoc]
  rfl

/-- The arms behind the first are read in the result if what they are made of is. -/
theorem armsWeave_rule (hexpression : GoalWeaves w depth .value (.expression 0))
    (hthen : BlockWeaves w depth armClosers) (helse : BlockWeaves w depth ["end"])
    (harms : ArmsWeave w depth) : ArmsWeave w (depth + 1) := by
  intro c nodes n hc hread
  have hdepth (b : Nat) : depth + 1 + b = depth + b + 1 := by omega
  rw [rules, rule, alternatives_eq] at hread
  dsimp only at hread
  by_cases hword : Lexeme.wordAt .lua c = "elseif"
  · rw [if_pos hword] at hread
    obtain ⟨draft, harmed, hread⟩ := Option.bind_eq_some_iff.1 hread
    obtain ⟨draft', hmore, hread⟩ := Option.bind_eq_some_iff.1 hread
    obtain ⟨m, children, front, rfl, hfront⟩ := exists_arm
      (weaves_armHead (by decide) hexpression) endsWord_of_armHead hthen (by decide) hc harmed
    have hsolid : Solid m := (show Solid c from hc.solid).passes hfront.passes
    obtain ⟨n', more, back, rfl, hback⟩ := exists_rest harms hsolid hmore
    cases hread
    let node : Node := (Draft.mk m children).toNode .elseifStatement
    change ∃ outline, Arms w c n' (node :: more) outline fun b => rules .lua (depth + 1 + b) .alternatives
    have hcount (outline : Outline) : outline.armCount (node :: more) = outline.armCount more := rfl
    have hgoesTo {j l i : Joint w} (hj : j.source = c) (hgoes : j.Goes (front ++ back) l)
        (hclosing : Closing (isClosed more) l i) : ∃ k : Joint w, j.Goes front k ∧ k.source = m
          ∧ k.Goes back l ∧ k.Ready (.closing armClosers) := by
      obtain ⟨k, hjk, hkl⟩ := Joint.goes_append.1 hgoes
      have hk : k.source = m := hjk.source_eq hj hfront.passes
      exact ⟨k, hjk, hk, hkl, hback.ready k l i hk hkl hclosing⟩
    refine ⟨front ++ back, ?_, hfront.leads.append back, ?_, fun rest hrest hleads => ?_,
      fun j l i hj hgoes hclosing => ?_, fun j l i hj hgoes hclosing b hb => ?_⟩
    · simpa using hfront.passes.trans hback.passes
    · obtain ⟨t, ht, hplaces⟩ := hfront.places
      have harm : armPlaces (node :: more) = (t.stop, .statement) :: armPlaces more := by
        have hone : armPlaces [node] = [(t.stop, .statement)] :=
          congrArg (Analysis.behind · ++ []) ht
        exact (armPlaces_append [node] more).trans (congrArg (· ++ armPlaces more) hone)
      have hnode : placesIn false (node :: more) = placesIn false children ++ placesIn false more := by
        rw [placesIn_cons]
        exact congrArg (· ++ placesIn false more) (places_of_isPlain rfl)
      rw [Outline.places_append, ← hfront.passes.offset, harm, hnode]
      have hmove : (placesIn false children ++ (armPlaces more ++ placesIn false more)).Perm
          (armPlaces more ++ (placesIn false children ++ placesIn false more)) := by
        rw [← List.append_assoc, ← List.append_assoc]
        exact List.perm_append_comm.append_right _
      exact (hplaces.append hback.places).trans (hmove.cons _)
    · rw [List.append_assoc]
      exact hfront.tidy _ (hback.tidy rest hrest hleads) (hback.leads rest hleads)
    · obtain ⟨k, hjk, -, -, hready⟩ := hgoesTo hj hgoes hclosing
      exact hfront.starts j k hj hjk hready
    · obtain ⟨k, hjk, hk, hkl, hready⟩ := hgoesTo hj hgoes hclosing
      have hintact := hfront.starts j k hj hjk hready
      rw [hcount, Outline.armCount, Outline.count_append] at hb
      obtain ⟨children', hchildren', halike⟩ := hfront.reads j k hj hjk hready b (by omega)
      obtain ⟨new, e, hending, herased, hnew⟩ := hback.reads k l i hk hkl hclosing b (by
        rw [Outline.armCount]
        omega)
      have hword' : Lexeme.wordAt .lua j.entry = "elseif" := by
        rw [hintact.entry, hintact.word, hj, hword]
      refine ⟨[(Draft.mk k.woven children').toNode .elseifStatement] ++ new, e, ?_, hending, ?_⟩
      · rw [hdepth, rules, rule, alternatives_eq]
        simp only [hword', if_true, hchildren', Option.bind_some, Draft.ofNode, hnew]
        rfl
      · have htrees := (halike.node (show NodeKind.elseifStatement ≠ .comment by simp) none
          (Draft.mk m children).first (Draft.mk k.woven children').first m.offset k.woven.offset).trees
        rw [Node.erasedIn_append, herased]
        exact (congrArg (· ++ Node.treesIn w.source more) htrees).trans
          (Node.treesIn_append (a := [node]) (b := more)).symm
  · rw [if_neg hword] at hread
    obtain ⟨draft, harmed, hread⟩ := Option.bind_eq_some_iff.1 hread
    obtain ⟨m, children, front, rfl, hfront⟩ := exists_arm
      weaves_elseHead endsWord_of_elseHead helse (by decide) hc harmed
    cases hread
    let node : Node := (Draft.mk m children).toNode .elseStatement
    change ∃ outline, Arms w c m [node] outline fun b => rules .lua (depth + 1 + b) .alternatives
    have hclosed : isClosed [node] = true := rfl
    refine ⟨front, hfront.passes, hfront.leads, ?_, hfront.tidy,
      fun j l i hj hgoes hclosing => ?_, fun j l i hj hgoes hclosing b hb => ?_⟩
    · obtain ⟨t, ht, hplaces⟩ := hfront.places
      have harm : armPlaces [node] = [(t.stop, .statement)] := congrArg (Analysis.behind · ++ []) ht
      have hnode : placesIn false [node] = placesIn false children := by
        rw [placesIn_cons, placesIn_nil, List.append_nil]
        exact places_of_isPlain rfl
      rw [harm, hnode]
      exact hplaces
    · exact hfront.starts j l hj hgoes hclosing.ending.1
    · obtain ⟨hready, hending⟩ := hclosing.ending
      have hintact := hfront.starts j l hj hgoes hready
      have hcount : front.armCount [node] = front.count := rfl
      rw [hcount] at hb
      obtain ⟨children', hchildren', halike⟩ := hfront.reads j l hj hgoes hready b hb
      have hword' : Lexeme.wordAt .lua j.entry ≠ "elseif" := by
        rw [hintact.entry, hintact.word, hj]
        exact hword
      refine ⟨[(Draft.mk l.woven children').toNode .elseStatement], l.woven, ?_, hending,
        (halike.node (by simp) none ..).trees⟩
      rw [hdepth, rules, rule, alternatives_eq]
      simp only [hword', if_false, hchildren', Option.bind_some]
      rfl

/-! ## The statement -/

theorem ifStatement_eq (table : Rules) : Grammar.ifStatement .lua table = fun c =>
    (armed (armHead "if" table) armClosers table c).bind fun draft =>
      (moreArms table draft).bind fun draft =>
        (draft.take (keyword .lua "end")).bind (Draft.finish .ifStatement) := by
  funext c
  simp only [Grammar.ifStatement, armed, armHead, moreArms, Option.bind_eq_bind, Option.bind_assoc]
  rfl

/-- The places of an `if` statement: behind its first `then`, those of its other arms, and that of
the arm that is missing. -/
theorem ownPlaces_ifStatement {children more comments : List Node} {t e : Node} {start stop : Nat}
    (ht : children.find? (·.kind == .token "then") = some t)
    (harms : ∀ a ∈ children, isArm a = false) (hcomments : Lexeme.AreComments comments)
    (he : e.kind = .token "end") :
    ownPlaces (.mk .ifStatement none start stop (children ++ more ++ comments ++ [e]))
      = (t.stop, .statement) :: (armPlaces more ++ Outline.places e.start (missing (isClosed more))) := by
  let all := children ++ more ++ comments ++ [e]
  have hend : ∀ a ∈ [e], isArm a = false := by simp [isArm, he]
  have hfirst : Node.firstToken? (.mk .ifStatement none start stop all) "then" = some t := by
    simp [all, Node.firstToken?, Node.children, List.find?_append, ht]
  have hlast : Node.lastToken? (.mk .ifStatement none start stop all) "end" = some e := by
    simp [all, Node.lastToken?, Node.children, he]
  have hplaces : armPlaces (Node.namedChildren (.mk .ifStatement none start stop all))
      = armPlaces more := by
    rw [Node.namedChildren, armPlaces_filter]
    simp only [all, Node.children, armPlaces_append, armPlaces_of_not harms, armPlaces_of_not hend,
      armPlaces_of_not (isArm_of_comments hcomments), List.nil_append, List.append_nil]
  have hclosed : isClosed (Node.namedChildren (.mk .ifStatement none start stop all))
      = isClosed more := by
    have hchildren := isClosed_of_not harms
    have hcomment := isClosed_of_not (isArm_of_comments hcomments)
    have htoken := isClosed_of_not hend
    rw [Node.namedChildren, isClosed_filter]
    simp only [isClosed] at hchildren hcomment htoken ⊢
    simp only [all, Node.children, List.any_append, hchildren, hcomment, htoken, Bool.false_or,
      Bool.or_false]
  have hmissing : missingPlaces (.mk .ifStatement none start stop all)
      = Outline.places e.start (missing (isClosed more)) := by
    rw [missingPlaces, ← hclosed, hlast, isClosed, missing]
    split <;> rfl
  change Analysis.behind (Node.firstToken? (.mk .ifStatement none start stop all) "then")
    ++ armPlaces (Node.namedChildren (.mk .ifStatement none start stop all))
    ++ missingPlaces (.mk .ifStatement none start stop all) = _
  rw [hfirst, hplaces, hmissing]
  rfl

theorem placesIn_ifStatement {children comments : List Node} {t e : Node} (more : List Node)
    (start stop : Nat)
    (ht : children.find? (·.kind == .token "then") = some t)
    (harms : ∀ a ∈ children, isArm a = false) (hcomments : Lexeme.AreComments comments)
    (he : e.kind = .token "end") :
    placesIn false [.mk .ifStatement none start stop (children ++ more ++ comments ++ [e])]
      = (t.stop, .statement) :: (armPlaces more ++ Outline.places e.start (missing (isClosed more))
        ++ (placesIn false children ++ placesIn false more)) := by
  have hend : placesIn false [e] = [] := by
    have hwalked : isWalked e = false := by simp [isWalked, Node.isNamed, he]
    rw [placesIn_cons, hwalked]
    rfl
  have hbelow : placesIn false (children ++ more ++ comments ++ [e])
      = placesIn false children ++ placesIn false more := by
    simp only [placesIn_append, placesIn_comments hcomments, hend, List.append_nil]
  rw [placesIn_cons, placesIn_nil, List.append_nil, places, ownPlaces_ifStatement ht harms hcomments he]
  exact congrArg (_ ++ ·) hbelow

theorem wordAt_of_keyword {text : String} {c n : Cursor} {nodes : List Node}
    (h : keyword .lua text c = some (nodes, n)) : Lexeme.wordAt .lua c = text := by
  unfold keyword at h
  split at h
  · next word next hword =>
    split at h
    · next heq => rw [Joint.wordAt_of_word? hword, heq]
    · cases h
  · cases h

/-- No word starts where another one has just ended. -/
theorem not_endsWord {c : Cursor} (h : Lexeme.wordAt .lua c ≠ "") : ¬ Lexeme.EndsWord c.rest := by
  intro hends
  obtain ⟨⟨word, next⟩, hword⟩ := Option.isSome_iff_exists.1 (isSome_word?_of_wordAt h)
  obtain ⟨front, hpass, hisWord, -⟩ := Lexeme.exists_word? hword
  obtain ⟨g, ch, more, rfl, -⟩ := hisWord.starts
  have hpart := hisWord.parts g List.mem_cons_self
  rw [Lexeme.EndsWord, hpass.rest] at hends
  simp [hpart] at hends

/-- What was read as the end of a statement is of an outline, over which the arms are closed and the
end is read in the result. -/
structure Ends (w : Writing) (closed : Bool) (c n : Cursor) (nodes : List Node) (outline : Outline) :
    Prop where
  passes : Passes c n (plain outline)
  leads : Lexeme.EndsWord c.rest → outline.Leads (some .statement)
  tidy : outline.isTidy none = true
  count : (missing closed).count ≤ outline.count
  last : ∃ comments e, nodes = comments ++ [e] ∧ Lexeme.AreComments comments
    ∧ e.kind = .token "end" ∧ outline.places c.offset = Outline.places e.start (missing closed)
  reads : ∀ j l : Joint w, j.source = c → j.Goes outline l → l.Ready .all → ∃ i, Closing closed j i
    ∧ ∀ e, Ending e i → ∃ new, Node.erasedIn w.result w.written new = Node.treesIn w.source nodes
      ∧ ∀ children', Draft.take (keyword .lua "end") ⟨e, children'⟩
        = some ⟨l.woven, children' ++ new⟩

theorem plain_missing (closed : Bool) : plain (missing closed) = [] := by
  cases closed <;> rfl

theorem isTidy_missing (closed : Bool) {back : Outline} (hleads : back.Leads none)
    (h : back.isTidy none = true) : (missing closed ++ back).isTidy none = true := by
  cases closed with
  | true => exact h
  | false =>
    obtain ⟨p, rest, houtline, hp | ⟨slot, hslot, -⟩⟩ := hleads
    · exact Outline.isTidy_mark ⟨p, rest, houtline, .inl hp⟩ h
    · cases hslot

theorem exists_ends {draft draft' : Draft} (closed : Bool) (hsolid : Solid draft.cursor)
    (h : draft.take (keyword .lua "end") = some draft') : ∃ n nodes outline,
      draft' = ⟨n, draft.children ++ nodes⟩ ∧ Ends w closed draft.cursor n nodes outline := by
  obtain ⟨comments, u, new, next, htrivia, hnew, rfl⟩ := take_eq_some h
  obtain ⟨gap, hgap⟩ := exists_gap hsolid htrivia
  obtain ⟨hend, back, hback⟩ := weaves_keyword (w := w) "end" u new next hgap.landed trivial hnew
  obtain rfl : new = _ := hend
  have hword := wordAt_of_keyword hnew
  have hplain : plain (bare gap ++ missing closed) = gap := by simp [plain_missing]
  refine ⟨next, comments ++ [_], (bare gap ++ missing closed) ++ back, by rw [List.append_assoc], ?_,
    fun hends => ?_, ?_, ?_, ⟨comments, _, rfl, hgap.areComments, rfl, ?_⟩, fun j l hj hgoes hl => ?_⟩
  · rw [plain_append, hplain]
    exact hgap.passes.trans hback.passes
  · -- The `end` is no part of the word in front of it.
    cases gap with
    | nil =>
      have hrest : draft.cursor.rest = u.rest := hgap.passes.rest
      exact absurd (hrest ▸ hends) (not_endsWord (by rw [hword]; decide))
    | cons g gap => exact ⟨.glyph g, _, rfl, .inl ⟨g, rfl⟩⟩
  · rw [List.append_assoc]
    exact Outline.isTidy_append (Outline.isTidy_bare gap)
      (isTidy_missing closed hback.leads hback.tidy)
  · simp only [Outline.count_append, Outline.count_bare]
    omega
  · have hnone : back.places u.offset = [] := List.perm_nil.1 hback.places
    have hu : u.offset = draft.cursor.offset + width gap := hgap.passes.offset
    rw [Outline.places_append, hplain, ← hu, hnone, List.append_nil, Outline.places_append,
      Outline.places_bare, List.nil_append, plain_bare, ← hu]
    rfl
  · obtain ⟨i, hji, hil⟩ := Joint.goes_append.1 hgoes
    have hi : i.source = u := hji.source_eq hj (by rw [hplain]; exact hgap.passes)
    have hintact : i.Intact := (hback.starts i l hi hil hl).intact
    obtain ⟨new', hnew', halike, -⟩ := hback.reads i l hi hil hl (16 * back.count) (Nat.le_refl _)
    refine ⟨i, ⟨⟨comments, gap, by rwa [hj, hi], hji⟩, hintact, by rw [hi, hword]⟩, fun e he => ?_⟩
    obtain ⟨comments', htrivia', hcomments'⟩ := he
    refine ⟨comments' ++ new', ?_, fun children' => ?_⟩
    · rw [Node.erasedIn_append, Node.treesIn_append, erasedIn_comments hcomments',
        treesIn_comments hgap.areComments, halike.trees]
    · simp [Draft.take, htrivia', hnew']

theorem weaves_ifStatement (hexpression : GoalWeaves w depth .value (.expression 0))
    (hthen : BlockWeaves w depth armClosers) (harms : ArmsWeave w depth) :
    Weaves w .statement (Grammar.ifStatement .lua (rules .lua depth))
      fun b => Grammar.ifStatement .lua (rules .lua (depth + b)) := by
  intro c nodes n hc _ hread
  rw [ifStatement_eq] at hread
  obtain ⟨draft, harmed, hread⟩ := Option.bind_eq_some_iff.1 hread
  obtain ⟨draft', hmore, hread⟩ := Option.bind_eq_some_iff.1 hread
  obtain ⟨draft'', htaken, hread⟩ := Option.bind_eq_some_iff.1 hread
  obtain ⟨m, children, front, rfl, hfront⟩ := exists_arm
    (weaves_armHead (by decide) hexpression) endsWord_of_armHead hthen (by decide) hc harmed
  have hsolid : Solid m := (show Solid c from hc.solid).passes hfront.passes
  obtain ⟨m', more, middle, rfl, hmiddle⟩ := exists_rest harms hsolid hmore
  obtain ⟨n', last, back, rfl, hback⟩ :=
    exists_ends (w := w) (isClosed more) (hsolid.passes hmiddle.passes) htaken
  cases hread
  have hpass := hfront.passes.trans (hmiddle.passes.trans hback.passes)
  have hgoesTo {j l : Joint w} (hj : j.source = c) (hgoes : j.Goes (front ++ (middle ++ back)) l)
      (hl : l.Ready (.behind true)) : ∃ k k' i : Joint w, j.Goes front k ∧ k.source = m
        ∧ k.Goes middle k' ∧ Closing (isClosed more) k' i ∧ k.Ready (.closing armClosers)
        ∧ ∀ e, Ending e i → ∃ new, Node.erasedIn w.result w.written new = Node.treesIn w.source last
          ∧ ∀ children', Draft.take (keyword .lua "end") ⟨e, children'⟩
            = some ⟨l.woven, children' ++ new⟩ := by
    obtain ⟨k, hjk, hkl⟩ := Joint.goes_append.1 hgoes
    obtain ⟨k', hkk', hkl'⟩ := Joint.goes_append.1 hkl
    have hk : k.source = m := hjk.source_eq hj hfront.passes
    have hk' : k'.source = m' := hkk'.source_eq hk hmiddle.passes
    obtain ⟨i, hclosing, hend⟩ := hback.reads k' l hk' hkl' (hl.mono (Sight.within_all _))
    exact ⟨k, k', i, hjk, hk, hkk', hclosing, hmiddle.ready k k' i hk hkk' hclosing, hend⟩
  obtain ⟨first, rest, hchildren, hstart⟩ := hfront.begins
  have hfirst : (Draft.mk n' (children ++ more ++ last)).first = c.offset := by
    simp [Draft.first, hchildren, hstart]
  have hkind : NodeKind.ifStatement ≠ .comment := by simp
  refine ⟨⟨_, rfl, hfirst, hkind, .inl rfl⟩, front ++ (middle ++ back), ?_, ?_,
    hfront.leads.append _, ?_, ?_, ⟨_, [], rfl, hfirst⟩, by simp [Manner.statement],
    fun j l hj hgoes hl => ?_,
    fun j l hj hgoes hl b hb => ?_⟩
  · simpa using hpass
  · simp [hfront.nonempty]
  · exact hfront.tidy _ (hmiddle.tidy back hback.tidy hback.leads) (hmiddle.leads back hback.leads)
  · obtain ⟨t, ht, hplaces⟩ := hfront.places
    obtain ⟨comments, e, rfl, hcomments, he, hmissing⟩ := hback.last
    have hall : Outline.places c.offset (front ++ (middle ++ back)) = front.places c.offset
        ++ (middle.places m.offset ++ Outline.places e.start (missing (isClosed more))) := by
      rw [Outline.places_append, ← hfront.passes.offset, Outline.places_append,
        ← hmiddle.passes.offset, hmissing]
    have hnode := placesIn_ifStatement more c.offset n'.offset ht
      hfront.arms hcomments he
    have hdraft : (Draft.mk n' (children ++ more ++ (comments ++ [e]))).toNode .ifStatement
        = .mk .ifStatement none c.offset n'.offset (children ++ more ++ comments ++ [e]) := by
      rw [Draft.toNode, hfirst, ← List.append_assoc]
    dsimp only
    rw [hall, hdraft, hnode]
    refine (hplaces.append (hmiddle.places.append_right _)).trans (List.perm_iff_count.2 fun a => ?_)
    simp only [Manner.statement, List.count_append, List.count_cons, List.count_nil]
    omega
  · obtain ⟨k, k', i, hjk, hk, hkk', hclosing, hready, -⟩ := hgoesTo hj hgoes hl
    exact .inl (hfront.starts j k hj hjk hready)
  · obtain ⟨k, k', i, hjk, hk, hkk', hclosing, hready, hend⟩ := hgoesTo hj hgoes hl
    have hcount := hback.count
    simp only [Outline.count_append] at hb
    obtain ⟨children', hchildren', halike⟩ := hfront.reads j k hj hjk hready b (by omega)
    obtain ⟨new, e, hending, herased, hnew⟩ := hmiddle.reads k k' i hk hkk' hclosing b (by
      rw [Outline.armCount]
      omega)
    obtain ⟨last', hlast, hlast'⟩ := hend e hending
    refine ⟨[(Draft.mk l.woven (children' ++ new ++ last')).toNode .ifStatement], ?_, ?_, trivial⟩
    · rw [ifStatement_eq]
      simp only [hchildren', Option.bind_some, hnew, hlast']
      rfl
    · exact ((halike.append herased).append hlast).node (by simp) ..

end LuaCoverage.Instrument
