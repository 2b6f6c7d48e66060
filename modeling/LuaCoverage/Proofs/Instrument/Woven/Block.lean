import LuaCoverage.Lua.Grammar.Statements
import LuaCoverage.Proofs.Instrument.Woven.Operand

/-!
# Blocks in a woven source

In front of the statements of a block calls were written, and in front of the whole block as well
where it is the body of a function or of an arm. What was written is read as statements of the block.
So the body of a function is a block in the result even if there is no statement in the source.

Results:
* `Continues.body`: a rule continues with a body if it does behind it.
* `blockWeaves_rule`: a block is read in the result if its statements are.
-/

namespace LuaCoverage.Instrument
open LuaCoverage.Lua LuaCoverage.Text LuaCoverage.Lua.Cursor LuaCoverage.Lua.Grammar
open LuaCoverage.Analysis

/-- What may come behind a block. -/
def Sight.closing (closers : List String) : Sight :=
  ⟨if "else" ∈ closers then [.elseArm] else [], true⟩

/-- What was read as the statements of a block is of an outline, over which the result is read. -/
structure Blocks (w : Writing) (closers : List String) (c n : Cursor) (nodes : List Node)
    (outline : Outline) (read' : Nat → Reader) : Prop where
  passes : Passes c n (plain outline)
  nonempty : plain outline ≠ []
  leads : outline.Leads (some .statement)
  tidy : outline.isTidy none = true
  places : (outline.places c.offset).Perm (placesIn true nodes)
  begins : Begins c nodes
  trees : Node.treesIn w.source nodes ≠ []
  first : (∃ rest, outline = .mark .statement :: rest) ∨ isBlunt c = true
  starts : ∀ j l : Joint w, j.source = c → j.Goes outline l → l.Ready (.closing closers) →
    j.Starts (· ∈ [.statement])
  reads : ∀ j l : Joint w, j.source = c → j.Goes outline l → l.Ready (.closing closers) →
    ∀ b, 16 * outline.count ≤ b → ∃ nodes', read' b j.entry = some (nodes', l.woven)
      ∧ Node.erasedIn w.result w.written nodes' = Node.treesIn w.source nodes ∧ nodes' ≠ []

/-- What is read as a block within a depth is read in the result, unless there is no statement. -/
def BlockWeaves (w : Writing) (depth : Nat) (closers : List String) : Prop :=
  ∀ c nodes n, Landed c → rules .lua depth (.block closers) c = some (nodes, n) →
    (nodes = [] ∧ n = c ∧ seesStatement .lua closers c = false)
      ∨ ∃ outline, Blocks w closers c n nodes outline
        fun b => rules .lua (depth + b) (.block closers)

variable {w : Writing} {closers : List String}

/-- The word at a cursor that a word starts at. -/
theorem word?_any {c : Cursor} (p : String → Bool) : ((Lexeme.word? .lua c).any fun (word, _) => p word)
    = ((Lexeme.word? .lua c).isSome && p (Lexeme.wordAt .lua c)) := by
  cases hword : Lexeme.word? .lua c with
  | none => rfl
  | some found => rw [Joint.wordAt_of_word? hword]; rfl

theorem seesStatement_eq (c : Cursor) : seesStatement .lua closers c
    = (c.sees ";" || c.sees "(" || c.sees "::"
      || ((Lexeme.word? .lua c).isSome && !closers.contains (Lexeme.wordAt .lua c))) := by
  rw [seesStatement, word?_any fun word => !closers.contains word]
  simp

/-- Whether a statement starts at a lexeme is the same in both. -/
theorem Joint.Intact.seesStatement {j : Joint w} (h : j.Intact) :
    Grammar.seesStatement .lua closers j.woven = Grammar.seesStatement .lua closers j.source := by
  rw [seesStatement_eq, seesStatement_eq, h.sees ";" rfl, h.sees "(" rfl,
    h.pairs "::" (by decide), h.word?_isSome, h.word]

theorem fails_seesStatement :
    Fails w (Sight.closing closers).slots (seesStatement .lua closers) where
  intact j hintact htest := by rw [hintact.seesStatement, htest]
  mark j s rest hpieces hslot := by
    rw [Sight.closing] at hslot
    split at hslot
    · next helse =>
      have hfront : Joint.Front w .elseArm j.entry :=
        List.mem_singleton.1 hslot ▸ Joint.entry_mark hpieces
      have hword : Lexeme.wordAt .lua j.entry = "else" := hfront.wordAt
      rw [seesStatement_eq, hfront.sees ";" rfl (by decide),
        hfront.sees "(" rfl (by decide), hfront.sees "::" rfl (by decide), hword]
      simp [helse]
    · cases hslot

/-- There is no statement where a block ends. -/
theorem block_of_ready {j : Joint w} {u : Cursor} (hj : j.Ready (.closing closers))
    (hu : upcoming? j.source = some u) (hnone : seesStatement .lua closers u = false) :
    ∃ comments e, Lexeme.trivia? j.woven = some (comments, e) ∧ Lexeme.AreComments comments
      ∧ ∀ depth, 0 < depth → rules .lua depth (.block closers) e = some ([], e) := by
  obtain ⟨e, he, htest⟩ := fails_seesStatement.ready hj hu hnone
  obtain ⟨⟨comments, e'⟩, htrivia, heq⟩ := Option.map_eq_some_iff.1 he
  obtain rfl : e' = e := heq
  refine ⟨comments, e', htrivia, Joint.areComments_of_trivia? htrivia, fun depth hdepth => ?_⟩
  obtain ⟨d, rfl⟩ : ∃ d, depth = d + 1 := ⟨depth - 1, by omega⟩
  rw [rules, rule, block, htest]
  rfl

/-! ## Bodies -/

/-- The block of a body. -/
def bodyOf (n : Cursor) (statements : List Node) : Node :=
  ((Draft.mk n statements).toNode .block).withRole .body

theorem erased_bodyOf {n n' : Cursor} {statements statements' : List Node}
    (hne : Node.treesIn w.source statements ≠ [])
    (h : Node.erasedIn w.result w.written statements' = Node.treesIn w.source statements) :
    Node.erasedIn w.result w.written [bodyOf n' statements']
      = Node.treesIn w.source [bodyOf n statements] := by
  have hstatements : statements ≠ [] := by
    rintro rfl
    exact hne Node.treesIn_nil
  have hnode (n : Cursor) (statements : List Node) : bodyOf n statements
      = .mk .block (some .body) (Draft.mk n statements).first n.offset statements := rfl
  rw [Node.erasedIn_cons, Node.treesIn_cons, Node.erasedIn_nil, Node.treesIn_nil, hnode, hnode,
    Node.erased_of_not_isCall (by simp) rfl (h ▸ hne), Node.trees_node (by simp) hstatements, h]

/-- Of a body of what was written nothing is left. -/
theorem erased_bodyOf_written {n : Cursor} {statements : List Node} (hne : statements ≠ [])
    (h : Node.erasedIn w.result w.written statements = []) :
    Node.erasedIn w.result w.written [bodyOf n statements] = [] := by
  rw [Node.erasedIn_cons, Node.erasedIn_nil, List.append_nil]
  exact Node.erased_of_written hne h

/-- The place of a body, if a call is written in front of it. -/
def markPlaces (marked : Bool) (offset : Nat) : List Spot :=
  if marked then [(offset, .statement)] else []

/-- How much deeper a body is read behind a call that is written in front of it. -/
def markDepth (marked : Bool) : Nat := if marked then 2 else 0

/-- The mark of a body, if there is one. -/
def markOutline (marked : Bool) : Outline := if marked then [.mark .statement] else []

/-- In the result a call may stand in front of the statements of a body. -/
theorem body_mark {j m : Joint w} {marked : Bool} {b : Nat} {e n : Cursor}
    {comments more : List Node} (depth : Nat) (children : List Node) (hjm : j.Goes (markOutline marked) m)
    (hb : marked = true → 16 ≤ b) (hclosers : ∀ word ∈ closers, word ∈ reservedWords)
    (htrivia : Lexeme.trivia? m.woven = some (comments, e)) (hcomments : Lexeme.AreComments comments)
    (hread : ∀ b', b ≤ b' + markDepth marked →
      rules .lua (depth + b') (.block closers) e = some (more, n)) :
    ∃ new next, Draft.body (rules .lua (depth + b)) closers ⟨j.woven, children⟩
        = some ⟨next, children ++ new⟩
      ∧ (more = [] → next = m.woven ∧ Node.erasedIn w.result w.written new = [])
      ∧ (more ≠ [] → next = n ∧ ∀ n' statements, Node.treesIn w.source statements ≠ [] →
        Node.erasedIn w.result w.written more = Node.treesIn w.source statements →
        Node.erasedIn w.result w.written new = Node.treesIn w.source [bodyOf n' statements]) := by
  cases marked with
  | false =>
    obtain rfl : m = j := Joint.goes_nil.1 hjm
    have hall := hread b (Nat.le_refl _)
    cases more with
    | nil =>
      refine ⟨[], m.woven, ?_, fun _ => ⟨rfl, Node.erasedIn_nil⟩, fun h => absurd rfl h⟩
      simp [Draft.body, htrivia, hall]
    | cons first rest =>
      refine ⟨comments ++ [bodyOf n (first :: rest)], n, ?_, by simp, fun _ => ⟨rfl, ?_⟩⟩
      · simp [Draft.body, htrivia, hall, bodyOf]
      · intro n' statements hne herased
        rw [Node.erasedIn_append, erasedIn_comments hcomments, List.nil_append]
        exact erased_bodyOf hne herased
  | true =>
    have hb := hb rfl
    obtain ⟨s, hslot, hpieces, -⟩ := Joint.goes_mark hjm
    obtain ⟨written, herased, hne, hblock⟩ := Joint.block_mark hjm hclosers
      (show 8 ≤ depth + (b - 2) by omega) htrivia (hread (b - 2) (by rw [markDepth, if_pos rfl]; omega))
    have hdepth : depth + (b - 2) + 2 = depth + b := by omega
    rw [hdepth] at hblock
    have hstart : Lexeme.trivia? j.woven = some ([], j.entry) := Joint.trivia?_mark hpieces
    cases more with
    | nil =>
      refine ⟨[bodyOf m.woven written], m.woven, ?_,
        fun _ => ⟨rfl, erased_bodyOf_written hne herased⟩, fun h => absurd rfl h⟩
      exact Joint.take_body _ hstart hblock hne
    | cons first rest =>
      refine ⟨[bodyOf n (written ++ comments ++ first :: rest)], n, ?_, by simp, fun _ => ⟨rfl, ?_⟩⟩
      · exact Joint.take_body _ hstart hblock (by simp)
      · intro n' statements htrees hsame
        refine erased_bodyOf htrees ?_
        rw [Node.erasedIn_append, Node.erasedIn_append, herased, erasedIn_comments hcomments]
        exact hsame

/-- What a body adds to the children between two offsets: nothing, or its block. -/
def IsBody (start stop : Nat) (body : List Node) : Prop :=
  body = [] ∨ ∃ comments x, body = comments ++ [x] ∧ Lexeme.AreComments comments ∧ x.kind = .block
    ∧ x.role = some .body ∧ start ≤ x.start ∧ x.start < x.stop ∧ x.stop ≤ stop

theorem placesIn_bodyOf (n : Cursor) (statements : List Node) :
    placesIn false [bodyOf n statements] = placesIn true statements := by
  have hwalked : isWalked (bodyOf n statements) = true := rfl
  have hplaces : places (bodyOf n statements) = placesIn true statements := by
    rw [bodyOf, places_withRole, Draft.toNode, places]
    rfl
  simp [placesIn_cons, hwalked, hplaces]

theorem IsBody.mono {start stop stop' : Nat} {body : List Node} (h : IsBody start stop body)
    (hle : stop ≤ stop') : IsBody start stop' body :=
  h.imp_right fun ⟨comments, x, hbody, hcomments, hkind, hrole, hstart, hlt, hstop⟩ =>
    ⟨comments, x, hbody, hcomments, hkind, hrole, hstart, hlt, hstop.trans hle⟩

/-- What was read as a body is of an outline, over which the body is read in the result. Behind a
body without statements no other slot may follow the mark. -/
structure Bodies (w : Writing) (depth : Nat) (closers : List String) (marked : Bool) (c n : Cursor)
    (body : List Node) (outline : Outline) : Prop where
  passes : Passes c n (plain outline)
  isBody : IsBody c.offset n.offset body
  places : (outline.places c.offset).Perm (markPlaces marked c.offset ++ placesIn false body)
  tidy : ∀ back : Outline, back.isTidy none = true → (n = c → back.Leads (some .statement)) →
    (outline ++ back).isTidy none = true
  ready : ∀ j l : Joint w, j.source = c → j.Goes outline l → l.Ready (.closing closers) →
    j.Ready .all
  reads : ∀ j l : Joint w, j.source = c → j.Goes outline l → l.Ready (.closing closers) →
    ∀ b, 16 * outline.count ≤ b → ∀ children', ∃ new,
      Draft.body (rules .lua (depth + b)) closers ⟨j.woven, children'⟩
        = some ⟨l.woven, children' ++ new⟩
      ∧ Node.erasedIn w.result w.written new = Node.treesIn w.source body

section
variable {marked : Bool} {c n : Cursor} {j m : Joint w}

theorem passes_markOutline (marked : Bool) (c : Cursor) :
    Passes c c (plain (markOutline marked)) := by
  cases marked <;> exact .refl _

theorem places_markOutline (marked : Bool) (offset : Nat) :
    Outline.places offset (markOutline marked) = markPlaces marked offset := by
  cases marked <;> rfl

/-- The mark of a body is of the slot of those of its statements. -/
theorem isTidy_markOutline (marked : Bool) {back : Outline} (hleads : back.Leads (some .statement))
    (hback : back.isTidy none = true) : (markOutline marked ++ back).isTidy none = true := by
  cases marked with
  | false => exact hback
  | true => exact Outline.isTidy_mark hleads hback

theorem ready_markOutline (hjm : j.Goes (markOutline marked) m) (hm : m.Ready .all) :
    j.Ready .all := by
  cases marked with
  | false => rwa [Joint.goes_nil.1 hjm] at hm
  | true =>
    obtain ⟨s, hslot, hpieces, -⟩ := Joint.goes_mark hjm
    exact .of_mark hpieces (Sight.mem_all _)

theorem le_of_markOutline {b count : Nat} (hb : 16 * ((markOutline marked).count + count) ≤ b) :
    (marked = true → 16 ≤ b) ∧ 16 * count ≤ b - markDepth marked := by
  cases marked with
  | false => exact ⟨nofun, by simpa [markDepth, markOutline, Outline.count, marksOf] using hb⟩
  | true =>
    have hone : (markOutline true).count = 1 := rfl
    rw [hone] at hb
    exact ⟨fun _ => by omega, by rw [markDepth, if_pos rfl]; omega⟩

variable {depth : Nat}

/-- A body without statements. -/
theorem Bodies.empty {u : Cursor} (hdepth : 0 < depth)
    (hclosers : ∀ word ∈ closers, word ∈ reservedWords) (hu : upcoming? c = some u)
    (hnone : seesStatement .lua closers u = false) :
    Bodies w depth closers marked c c [] (markOutline marked) where
  passes := passes_markOutline marked c
  isBody := .inl rfl
  places := by
    rw [places_markOutline, placesIn_nil, List.append_nil]
  tidy := fun back hback hleads => isTidy_markOutline marked (hleads rfl) hback
  ready := fun j l hj hgoes hl => ready_markOutline hgoes (hl.mono (Sight.within_all _))
  reads := fun j l hj hgoes hl b hb children' => by
    have hl' : l.source = c := hgoes.source_eq hj (passes_markOutline marked c)
    obtain ⟨comments', e, htrivia', hcomments', hnothing⟩ :=
      block_of_ready hl (by rw [hl']; exact hu) hnone
    have hb' : 16 * ((markOutline marked).count + 0) ≤ b := hb
    obtain ⟨new, next, hbody, hempty, -⟩ := body_mark depth children' hgoes
      (le_of_markOutline hb').1 hclosers htrivia' hcomments'
      fun b' _ => hnothing (depth + b') (by omega)
    obtain ⟨rfl, hnew⟩ := hempty rfl
    exact ⟨new, hbody, hnew.trans Node.treesIn_nil.symm⟩

/-- A body of statements. -/
theorem Bodies.of_blocks {u : Cursor} {comments statements : List Node} {gap : List Glyph}
    {front : Outline} (hclosers : ∀ word ∈ closers, word ∈ reservedWords)
    (hgap : Gap c u comments gap)
    (hfront : Blocks w closers u n statements front fun b => rules .lua (depth + b) (.block closers)) :
    Bodies w depth closers marked c n (comments ++ [bodyOf n statements])
      (markOutline marked ++ (bare gap ++ front)) := by
  have hlt : u.offset < n.offset :=
    (show Solid u from hgap.landed.solid).lt hfront.passes hfront.nonempty
  have hgoesTo {j l : Joint w} (hj : j.source = c)
      (hgoes : j.Goes (markOutline marked ++ (bare gap ++ front)) l)
      (hl : l.Ready (.closing closers)) : ∃ m i : Joint w, j.Goes (markOutline marked) m
        ∧ m.source = c ∧ m.Goes (bare gap) i ∧ i.source = u ∧ i.Goes front l
        ∧ i.Starts (· ∈ [.statement]) := by
    obtain ⟨m, hjm, hml⟩ := Joint.goes_append.1 hgoes
    obtain ⟨i, hmi, hil⟩ := Joint.goes_append.1 hml
    have hm : m.source = c := hjm.source_eq hj (passes_markOutline marked c)
    have hi : i.source = u := hmi.source_eq hm (by simpa using hgap.passes)
    exact ⟨m, i, hjm, hm, hmi, hi, hil, hfront.starts i l hi hil hl⟩
  refine ⟨?_, ?_, ?_, fun back hback _ => ?_, fun j l hj hgoes hl => ?_,
    fun j l hj hgoes hl b hb children' => ?_⟩
  · simpa using (passes_markOutline marked c).trans (hgap.passes.trans hfront.passes)
  · obtain ⟨first, rest, rfl, hstart⟩ := hfront.begins
    exact .inr ⟨comments, _, rfl, hgap.areComments, rfl, rfl,
      hgap.passes.le.trans (Nat.le_of_eq hstart.symm),
      Nat.lt_of_le_of_lt (Nat.le_of_eq hstart) hlt, Nat.le_refl _⟩
  · have hoffset := (passes_markOutline marked c).offset
    have hu : u.offset = c.offset + width gap := hgap.passes.offset
    simp only [Outline.places_append, Outline.places_bare, plain_bare, List.nil_append,
      ← hoffset, places_markOutline, placesIn_append, placesIn_comments hgap.areComments, ← hu,
      placesIn_bodyOf]
    exact hfront.places.append_left _
  · have hleads : Outline.Leads (some .statement) (bare gap ++ (front ++ back)) := by
      cases gap with
      | nil => exact hfront.leads.append back
      | cons g gap => exact ⟨_, _, rfl, .inl ⟨g, rfl⟩⟩
    rw [List.append_assoc, List.append_assoc]
    exact isTidy_markOutline marked hleads (Outline.isTidy_append (Outline.isTidy_bare gap)
      (Outline.isTidy_append hfront.tidy hback))
  · obtain ⟨m, i, hjm, hm, hmi, hi, -, hstarts⟩ := hgoesTo hj hgoes hl
    obtain ⟨comments', htrivia', -⟩ := hgap.goes hm hmi hstarts
    exact ready_markOutline hjm (.of_trivia? hgap.trivia hm hi htrivia'
      (hstarts.mono fun slot _ => Sight.mem_all slot) nofun)
  · obtain ⟨m, i, hjm, hm, hmi, hi, hil, hstarts⟩ := hgoesTo hj hgoes hl
    obtain ⟨comments', htrivia', hcomments'⟩ := hgap.goes hm hmi hstarts
    simp only [Outline.count_append, Outline.count_bare, Nat.zero_add] at hb
    obtain ⟨hmarked, hcount⟩ := le_of_markOutline hb
    obtain ⟨statements', hread', herased, hne'⟩ := hfront.reads i l hi hil hl
      (b - markDepth marked) hcount
    obtain ⟨new, next', hbody', -, hblock'⟩ := body_mark depth children' hjm
      hmarked hclosers htrivia' hcomments' fun b' hb' => rules_mono (by omega) hread'
    obtain ⟨rfl, hnew⟩ := hblock' hne'
    refine ⟨new, hbody', (hnew n statements hfront.trees herased).trans ?_⟩
    rw [Node.treesIn_append, treesIn_comments hgap.areComments, List.nil_append]

/-- What is read as a body is one. -/
theorem exists_bodies {children : List Node} {draft : Draft} (hblock : BlockWeaves w depth closers)
    (hclosers : ∀ word ∈ closers, word ∈ reservedWords) (hsolid : Solid c)
    (h : Draft.body (rules .lua depth) closers ⟨c, children⟩ = some draft) (marked : Bool) :
    ∃ n body outline, draft = ⟨n, children ++ body⟩
      ∧ Bodies w depth closers marked c n body outline := by
  obtain ⟨⟨comments, u⟩, htrivia, hbody⟩ := Option.bind_eq_some_iff.1 h
  obtain ⟨⟨statements, next⟩, hread, hbody⟩ := Option.bind_eq_some_iff.1 hbody
  obtain ⟨gap, hgap⟩ := exists_gap hsolid htrivia
  have hdepth : 0 < depth := by
    cases depth with
    | zero => cases hread
    | succ depth => omega
  rcases hblock u statements next hgap.landed hread with ⟨rfl, -, hnone⟩ | ⟨front, hfront⟩
  · obtain rfl : Draft.mk c children = draft := by simpa using hbody
    have hu : upcoming? c = some u := Option.map_eq_some_iff.2 ⟨_, htrivia, rfl⟩
    exact ⟨c, [], _, by rw [List.append_nil], .empty hdepth hclosers hu hnone⟩
  · have hne : statements ≠ [] := by
      obtain ⟨first, rest, rfl, -⟩ := hfront.begins
      exact List.cons_ne_nil first rest
    refine ⟨next, comments ++ [bodyOf next statements], _, ?_, .of_blocks hclosers hgap hfront⟩
    have heq : Draft.mk next (children ++ comments ++ [bodyOf next statements]) = draft := by
      simpa [hne, bodyOf] using hbody
    rw [← heq, List.append_assoc]

end

section
variable {p q : Manner} {c0 : Cursor} {extra : List Spot} {follow : Sight}
  {same : List Node → List Node → Prop} {draft : Draft} {read : Reader} {read' : Nat → Reader}
  {k : Draft → Read} {k' : Nat → Draft → Read} {depth : Nat}

/-- A rule continues with a body and the keyword behind it, if it does behind that. -/
theorem Continues.body (marked : Bool) (hblock : BlockWeaves w depth closers)
    (hclosers : ∀ word ∈ closers, word ∈ reservedWords) (hread : Weaves w q read read')
    (hlead : q.sight = ⟨[], true⟩) (hfollow : follow.Within q.follow)
    (hk : ∀ body comments u nodes next, IsBody draft.cursor.offset u.offset body →
      Lexeme.AreComments comments → q.post u nodes next → draft.cursor.offset ≤ u.offset →
      u.offset < next.offset → Continues w p c0 follow
        (extra ++ markPlaces marked draft.cursor.offset ++ q.extra nodes) AnyKinds
        ⟨next, draft.children ++ body ++ comments ++ nodes⟩ k k') :
    Continues w p c0 .all extra same draft
      (fun draft => draft.body (rules .lua depth) closers >>= fun draft => draft.take read >>= k)
      fun b draft => draft.body (rules .lua (depth + b)) closers >>= fun draft =>
        draft.take (read' b) >>= k' b := by
  intro hbegun nodes n hsource
  obtain ⟨draft', hdraft', hrest⟩ := Option.bind_eq_some_iff.1 hsource
  obtain ⟨m, body, front, rfl, hbody⟩ :=
    exists_bodies hblock hclosers hbegun.solid hdraft' marked
  have hle := hbody.passes.le
  have htake : Continues w p c0 ⟨[], true⟩ (extra ++ markPlaces marked draft.cursor.offset) AnyKinds
      ⟨m, draft.children ++ body⟩ (fun draft => draft.take read >>= k)
      fun b draft => draft.take (read' b) >>= k' b := by
    rw [← hlead]
    exact .take hread hfollow fun comments u nodes next hcomments hpost hle' hlt =>
      hk body comments u nodes next (hbody.isBody.mono hle') hcomments hpost (hle.trans hle') hlt
  obtain ⟨hp, hbegins, back, hback⟩ := htake (hbegun.take hbody.passes body) nodes n hrest
  have hclosing {l : Joint w} (hl : l.Ready ⟨[], true⟩) : l.Ready (.closing closers) :=
    hl.mono ⟨nofun, fun _ => rfl⟩
  have hleads : back.Leads (some .statement) := by
    cases back with
    | nil =>
      have hlt : m.offset < n.offset := by
        obtain ⟨draft'', htaken, hrest'⟩ := Option.bind_eq_some_iff.1 hrest
        obtain ⟨comments, u, new, next, htrivia, hnew, rfl⟩ := take_eq_some htaken
        have hsolid : Solid m := hbegun.solid.passes hbody.passes
        obtain ⟨gap, hgap⟩ := exists_gap hsolid htrivia
        obtain ⟨hpost, outline, hreads⟩ := hread u new next hgap.landed trivial hnew
        have hlt : u.offset < next.offset :=
          (show Solid u from hgap.landed.solid).lt hreads.passes hreads.nonempty
        have hbegun' := (hbegun.take hbody.passes body).take (hgap.passes.trans hreads.passes)
          (comments ++ new)
        rw [← List.append_assoc] at hbegun'
        obtain ⟨-, -, rest, hrest''⟩ := hk body comments u new next
          (hbody.isBody.mono hgap.passes.le) hgap.areComments hpost (hle.trans hgap.passes.le) hlt
          hbegun' nodes n hrest'
        exact Nat.lt_of_le_of_lt hgap.passes.le (Nat.lt_of_lt_of_le hlt hrest''.passes.le)
      have hoffset : n.offset = m.offset + 0 := hback.passes.offset
      omega
    | cons piece rest =>
      cases piece with
      | glyph g => exact ⟨_, rest, rfl, .inl ⟨g, rfl⟩⟩
      | mark slot => cases hback.first slot rest rfl
  refine ⟨hp, hbegins, front ++ back, ?_, fun slot _ _ => Sight.mem_all slot,
    hbody.tidy back hback.tidy fun _ => hleads, ?_, ?_, ?_⟩
  · simpa using hbody.passes.trans hback.passes
  · refine List.Perm.trans ?_ hback.places
    rw [Outline.places_append, ← hbody.passes.offset, placesIn_append]
    have hmove : (placesIn false draft.children ++ front.places draft.cursor.offset).Perm
        (markPlaces marked draft.cursor.offset
          ++ (placesIn false draft.children ++ placesIn false body)) := by
      refine (hbody.places.append_left _).trans ?_
      rw [← List.append_assoc, ← List.append_assoc]
      exact List.perm_append_comm.append_right _
    simpa only [List.append_assoc] using
      (hmove.append_left extra).append_right (back.places m.offset)
  · intro j l hj hgoes hl
    obtain ⟨i, hji, hil⟩ := Joint.goes_append.1 hgoes
    have hi : i.source = m := hji.source_eq hj hbody.passes
    exact hbody.ready j i hj hji (hclosing (hback.ready i l hi hil hl))
  · intro j l hj hgoes hl b hb children' halike _
    obtain ⟨i, hji, hil⟩ := Joint.goes_append.1 hgoes
    have hi : i.source = m := hji.source_eq hj hbody.passes
    rw [Outline.count_append] at hb
    obtain ⟨new, hnew, htrees⟩ := hbody.reads j i hj hji (hclosing (hback.ready i l hi hil hl)) b
      (by omega) children'
    obtain ⟨nodes', hnodes', hresult⟩ := hback.reads i l hi hil hl b (by omega) _
      (halike.append htrees) trivial
    exact ⟨nodes', by rw [hnew]; exact hnodes', hresult⟩

end

/-! ## The statements of a block -/

/-- A statement. If the walk passes it over, it starts with a blunt lexeme. -/
def Manner.statement : Manner :=
  ⟨none, false, .behind true, fun _ => [], fun c nodes _ => ∃ x, nodes = [x] ∧ x.start = c.offset
    ∧ x.kind ≠ .comment ∧ (isWalked x = true ∨ isBlunt c = true), AnyKinds⟩

/-- A block whose first statement is read in front of the others. -/
theorem Blocks.of_first {c n : Cursor} {x : Node} {more : List Node} {outline : Outline} {depth : Nat}
    (hclosers : ∀ word ∈ closers, word ∈ reservedWords) (hpass : Passes c n (plain outline))
    (hne : plain outline ≠ []) (hleads : outline.Leads none) (htidy : outline.isTidy none = true)
    (hplaces : (outline.places c.offset).Perm (placesIn false [x] ++ placesIn true more))
    (hstart : x.start = c.offset) (hkind : x.kind ≠ .comment)
    (hfirst : isWalked x = true ∨ isBlunt c = true)
    (hintact : ∀ j l : Joint w, j.source = c → j.Goes outline l → l.Ready (.closing closers) → j.Intact)
    (hreads : ∀ j l : Joint w, j.source = c → j.Goes outline l → l.Ready (.closing closers) →
      ∀ b, 16 * outline.count ≤ b → ∃ nodes',
        rules .lua (depth + b) (.block closers) j.entry = some (nodes', l.woven)
          ∧ Node.erasedIn w.result w.written nodes' = Node.treesIn w.source (x :: more)
          ∧ nodes' ≠ []) :
    ∃ outline', Blocks w closers c n (x :: more) outline'
      fun b => rules .lua (depth + b) (.block closers) := by
  have htrees : Node.treesIn w.source (x :: more) ≠ [] := by
    obtain ⟨t, ht⟩ : ∃ t, x.trees w.source = [t] := Node.exists_trees hkind
    simp [ht]
  by_cases hwalked : isWalked x = true
  · have hplain : plain (.mark .statement :: outline) = plain outline := rfl
    have hleads' : outline.Leads (some .statement) := by
      obtain ⟨p, rest, houtline, hp | ⟨slot, hslot, -⟩⟩ := hleads
      · exact ⟨p, rest, houtline, .inl hp⟩
      · cases hslot
    have hgoes {j l : Joint w} (hj : j.source = c) (h : j.Goes (.mark .statement :: outline) l) :
        ∃ (k : Joint w) (s : Site), j.Goes [.mark .statement] k ∧ s.slot = .statement
          ∧ j.pieces = .mark s :: k.pieces ∧ k.source = c ∧ k.Goes outline l := by
      obtain ⟨k, hjk, hkl⟩ := Joint.goes_append (a := [.mark .statement]).1 h
      obtain ⟨s, hslot, hpieces, hk, -⟩ := Joint.goes_mark hjk
      exact ⟨k, s, hjk, hslot, hpieces, hk.trans hj, hkl⟩
    refine ⟨.mark .statement :: outline, hpass, hne, ⟨_, outline, rfl, .inr ⟨_, rfl, rfl⟩⟩,
      Outline.isTidy_mark hleads' htidy, ?_, ⟨x, more, rfl, hstart⟩, htrees, .inl ⟨outline, rfl⟩,
      ?_, ?_⟩
    · have hall : placesIn true (x :: more)
          = (c.offset, .statement) :: (placesIn false [x] ++ placesIn true more) := by
        simp [placesIn_cons, hwalked, hstart]
      rw [hall]
      exact hplaces.cons _
    · intro j l hj h hl
      obtain ⟨k, s, hjk, hslot, hpieces, hk, hkl⟩ := hgoes hj h
      refine .inr ⟨⟨s, k.pieces, hpieces, by simp [hslot]⟩, ?_⟩
      rw [hj, hpass.rest]
      simp [hne]
    · intro j l hj h hl b hb
      obtain ⟨k, s, hjk, hslot, hpieces, hk, hkl⟩ := hgoes hj h
      have hcount : Outline.count (.mark .statement :: outline) = outline.count + 1 := by
        simp [Outline.count, marksOf]
      rw [hcount] at hb
      obtain ⟨nodes', hnodes', herased, hne'⟩ := hreads k l hk hkl hl (b - 2) (by omega)
      have hstarts : k.Starts fun _ => False := .inl (hintact k l hk hkl hl)
      obtain ⟨written, hwritten, -, hblock⟩ := Joint.block_mark hjk hclosers
        (show 8 ≤ depth + (b - 2) by omega) hstarts.trivia?.1 hnodes'
      have hdepth : depth + (b - 2) + 2 = depth + b := by omega
      rw [hdepth] at hblock
      refine ⟨written ++ [] ++ nodes', ?_, ?_, by simp [hne']⟩
      · simpa [hne'] using hblock
      · simp [hwritten, herased]
  · refine ⟨outline, hpass, hne, ?_, htidy, ?_, ⟨x, more, rfl, hstart⟩, htrees,
      .inr (hfirst.resolve_left hwalked), fun j l hj h hl => .inl (hintact j l hj h hl), hreads⟩
    · obtain ⟨p, rest, houtline, hp | ⟨slot, hslot, -⟩⟩ := hleads
      · exact ⟨p, rest, houtline, .inl hp⟩
      · cases hslot
    · have hall : placesIn true (x :: more) = placesIn false [x] ++ placesIn true more := by
        simp [placesIn_cons, hwalked]
      rw [hall]
      exact hplaces

/-- What comes behind a statement: the next one, with the call that is written in front of it. -/
theorem Blocks.ready {c u n : Cursor} {comments nodes : List Node} {gap : List Glyph}
    {outline : Outline} {read' : Nat → Reader} (h : Blocks w closers u n nodes outline read')
    (hgap : Gap c u comments gap) {j i l : Joint w} (hj : j.source = c) (hji : j.Goes (bare gap) i)
    (hil : i.Goes outline l) (hl : l.Ready (.closing closers)) : ∃ comments',
      Lexeme.trivia? j.woven = some (comments', i.entry) ∧ Lexeme.AreComments comments'
      ∧ j.Ready (.behind true) := by
  have hi : i.source = u := hji.source_eq hj (by simpa using hgap.passes)
  have hstarts := h.starts i l hi hil hl
  obtain ⟨comments', htrivia, hcomments'⟩ := hgap.goes hj hji hstarts
  refine ⟨comments', htrivia, hcomments', ?_⟩
  rcases h.first with ⟨rest, rfl⟩ | hblunt
  · obtain ⟨k, hik, -⟩ := Joint.goes_append (a := [.mark .statement]).1 hil
    obtain ⟨s, hslot, hpieces, -⟩ := Joint.goes_mark hik
    exact ⟨i, by rw [upcoming?, htrivia]; rfl, .inr ⟨s, k.pieces, hpieces, by simp [hslot, Sight.behind]⟩⟩
  · exact .of_trivia? hgap.trivia hj hi htrivia
      (hstarts.mono fun slot hslot => by simp_all [Sight.behind]) fun _ => hblunt

/-- What may come behind a `return`: the end of the block. -/
def Sight.ending : Sight := ⟨[.elseArm], true⟩

theorem Sight.closing_within (closers : List String) : (closing closers).Within ending := by
  refine ⟨fun slot hslot => ?_, id⟩
  unfold closing at hslot
  split at hslot
  · exact hslot
  · cases hslot

theorem Sight.ending_within : ending.Within (behind true) := by decide

/-- The last statement of a block. -/
def Manner.last : Manner := { Manner.statement with follow := .ending }

/-- A block is read in the result if its statements are. -/
theorem blockWeaves_rule {depth : Nat} (hclosers : ∀ word ∈ closers, word ∈ reservedWords)
    (hstatement : Weaves w .statement (rules .lua depth .statement)
      fun b => rules .lua (depth + b) .statement)
    (hreturn : Weaves w .last (returnStatement .lua (rules .lua depth))
      fun b => returnStatement .lua (rules .lua (depth + b)))
    (hblock : BlockWeaves w depth closers) : BlockWeaves w (depth + 1) closers := by
  intro c nodes n hc hread
  rw [rules, rule, block] at hread
  by_cases hsees : seesStatement .lua closers c = true
  swap
  · simp only [hsees] at hread
    obtain ⟨rfl, rfl⟩ : [] = nodes ∧ c = n := by simpa using hread
    exact .inl ⟨rfl, rfl, Bool.eq_false_iff.2 hsees⟩
  right
  simp only [hsees, Bool.not_true, Bool.false_eq_true, if_false] at hread
  have hdepth (b : Nat) : depth + 1 + b = depth + b + 1 := by omega
  have hsame {j : Joint w} (hintact : j.Intact) (hj : j.source = c) :
      seesStatement .lua closers j.entry = true
        ∧ (Lexeme.wordAt .lua j.entry = Lexeme.wordAt .lua c) := by
    rw [hintact.entry, hintact.seesStatement, hintact.word, hj]
    exact ⟨hsees, rfl⟩
  by_cases hword : Lexeme.wordAt .lua c = "return"
  · rw [if_pos hword] at hread
    obtain ⟨⟨x, rfl, hstart, hkind, hfirst⟩, outline, hreads⟩ := hreturn c nodes n hc trivial hread
    have hready {l : Joint w} (hl : l.Ready (.closing closers)) : l.Ready .ending :=
      hl.mono (Sight.closing_within closers)
    have hintact (j l : Joint w) (hj : j.source = c) (h : j.Goes outline l)
        (hl : l.Ready (.closing closers)) : j.Intact := (hreads.starts j l hj h (hready hl)).intact
    refine Blocks.of_first hclosers hreads.passes hreads.nonempty hreads.leads hreads.tidy
      (by simpa [Manner.last, Manner.statement] using hreads.places) hstart hkind hfirst hintact
      fun j l hj h hl b hb => ?_
    obtain ⟨nodes', hnodes', halike, -⟩ := hreads.reads j l hj h (hready hl) b hb
    refine ⟨nodes', ?_, halike.trees, ?_⟩
    · obtain ⟨hsees', hword'⟩ := hsame (hintact j l hj h hl) hj
      rw [hdepth, rules, rule, block]
      simp only [hsees', hword', hword, Bool.not_true, Bool.false_eq_true, if_false, if_true]
      exact hnodes'
    · obtain ⟨first, rest, rfl, -⟩ := halike.kept
      exact List.cons_ne_nil first rest
  · rw [if_neg hword] at hread
    obtain ⟨draft, htake, hread⟩ := Option.bind_eq_some_iff.1 hread
    obtain ⟨⟨comments, u⟩, htrivia, hread⟩ := Option.bind_eq_some_iff.1 hread
    obtain ⟨⟨more, behind⟩, hmore, hread⟩ := Option.bind_eq_some_iff.1 hread
    obtain ⟨comments₀, c', statements, m, htrivia₀, hfirst, rfl⟩ := take_eq_some htake
    obtain ⟨rfl, rfl⟩ : [] = comments₀ ∧ c = c' := by
      simpa [Draft.start, hc.trivia?] using htrivia₀
    obtain ⟨⟨x, rfl, hstart, hkind, hwalked⟩, front, hfront⟩ :=
      hstatement c statements m hc trivial hfirst
    have hsolid : Solid m := (show Solid c from hc.solid).passes hfront.passes
    obtain ⟨gap, hgap⟩ := exists_gap hsolid htrivia
    have hpos : 0 < depth := by
      cases depth with
      | zero => cases hfirst
      | succ depth => omega
    -- What is read in the result is the statement, and the block behind it.
    have hreads {j i : Joint w} {b : Nat} {nodes' comments' more' : List Node} {e behind' : Cursor}
        (hintact : j.Intact) (hj : j.source = c)
        (hnodes' : rules .lua (depth + b) .statement j.entry = some (nodes', i.woven))
        (htrivia' : Lexeme.trivia? i.woven = some (comments', e))
        (hmore' : rules .lua (depth + b) (.block closers) e = some (more', behind')) :
        rules .lua (depth + 1 + b) (.block closers) j.entry = some (if more'.isEmpty then
          (nodes', i.woven) else (nodes' ++ comments' ++ more', behind')) := by
      obtain ⟨hsees', hword'⟩ := hsame hintact hj
      have hstarts : j.Starts fun _ => False := .inl hintact
      rw [hdepth, rules, rule]
      exact block_of_statement hsees' (by rw [hword']; exact hword) hstarts.trivia?.2 hnodes' htrivia'
        hmore'
    rcases hblock u more behind hgap.landed hmore with ⟨rfl, -, hnone⟩ | ⟨back, hback⟩
    · obtain ⟨rfl, rfl⟩ : [x] = nodes ∧ m = n := by simpa [Draft.spill, Draft.start] using hread
      have hready {l : Joint w} (hl : l.Ready (.closing closers)) : l.Ready (.behind true) :=
        (hl.mono (Sight.closing_within closers)).mono Sight.ending_within
      have hintact (j l : Joint w) (hj : j.source = c) (h : j.Goes front l)
          (hl : l.Ready (.closing closers)) : j.Intact := (hfront.starts j l hj h (hready hl)).intact
      refine Blocks.of_first hclosers hfront.passes hfront.nonempty hfront.leads hfront.tidy
        (by simpa [Manner.statement] using hfront.places) hstart hkind hwalked hintact
        fun j l hj h hl b hb => ?_
      have hl' : l.source = m := h.source_eq hj (by simpa using hfront.passes)
      obtain ⟨nodes', hnodes', halike, -⟩ := hfront.reads j l hj h (hready hl) b hb
      obtain ⟨comments', e, htrivia', -, hempty⟩ := block_of_ready hl
        (u := u) (by rw [hl', upcoming?, htrivia]; rfl) hnone
      refine ⟨nodes', ?_, halike.trees, ?_⟩
      · exact hreads (hintact j l hj h hl) hj hnodes' htrivia' (hempty (depth + b) (by omega))
      · obtain ⟨first, rest, rfl, -⟩ := halike.kept
        exact List.cons_ne_nil first rest
    · have hne : more ≠ [] := by
        obtain ⟨first, rest, rfl, -⟩ := hback.begins
        exact List.cons_ne_nil first rest
      obtain ⟨rfl, rfl⟩ : x :: (comments ++ more) = nodes ∧ behind = n := by
        simpa [Draft.start, hne] using hread
      have hgoes {j l : Joint w} (hj : j.source = c) (h : j.Goes (front ++ (bare gap ++ back)) l)
          (hl : l.Ready (.closing closers)) : ∃ i k : Joint w, j.Goes front i ∧ i.source = m
            ∧ k.source = u ∧ k.Goes back l ∧ i.Ready (.behind true) ∧ ∃ comments',
              Lexeme.trivia? i.woven = some (comments', k.entry) ∧ Lexeme.AreComments comments' := by
        obtain ⟨i, hji, hil⟩ := Joint.goes_append.1 h
        obtain ⟨k, hik, hkl⟩ := Joint.goes_append.1 hil
        have hi : i.source = m := hji.source_eq hj (by simpa using hfront.passes)
        have hk : k.source = u := hik.source_eq hi (by simpa using hgap.passes)
        obtain ⟨comments', htrivia', hcomments', hready⟩ := hback.ready hgap hi hik hkl hl
        exact ⟨i, k, hji, hi, hk, hkl, hready, comments', htrivia', hcomments'⟩
      have hintact (j l : Joint w) (hj : j.source = c) (h : j.Goes (front ++ (bare gap ++ back)) l)
          (hl : l.Ready (.closing closers)) : j.Intact := by
        obtain ⟨i, k, hji, -, -, -, hready, -⟩ := hgoes hj h hl
        exact (hfront.starts j i hj hji hready).intact
      have hpasses : Passes c behind (plain (front ++ (bare gap ++ back))) := by
        simpa using hfront.passes.trans (hgap.passes.trans hback.passes)
      refine Blocks.of_first hclosers hpasses ?_
        (hfront.leads.append _) ?_ ?_ hstart hkind hwalked hintact fun j l hj h hl b hb => ?_
      · simp [hfront.nonempty]
      · exact Outline.isTidy_append hfront.tidy
          (Outline.isTidy_append (Outline.isTidy_bare gap) hback.tidy)
      · have hoffset : u.offset = c.offset + width (plain front) + width gap := by
          rw [hgap.passes.offset, hfront.passes.offset]
        simp only [Outline.places_append, Outline.places_bare, plain_bare, List.nil_append, ← hoffset,
          placesIn_append, placesIn_comments hgap.areComments]
        have hplaces : (front.places c.offset).Perm (placesIn false [x]) := hfront.places
        exact hplaces.append hback.places
      · obtain ⟨i, k, hji, hi, hk, hkl, hready, comments', htrivia', hcomments'⟩ := hgoes hj h hl
        simp only [Outline.count_append, Outline.count_bare] at hb
        obtain ⟨nodes', hnodes', halike, -⟩ := hfront.reads j i hj hji hready b (by omega)
        obtain ⟨more', hmore', herased, hne'⟩ := hback.reads k l hk hkl hl b (by omega)
        refine ⟨nodes' ++ comments' ++ more', ?_, ?_, by simp [hne']⟩
        · have hall := hreads (hintact j l hj h hl) hj hnodes' htrivia' hmore'
          simpa [hne'] using hall
        · have htrees := halike.trees
          rw [Node.treesIn_cons, Node.treesIn_nil, List.append_nil] at htrees
          simp [htrees, herased, erasedIn_comments hcomments', treesIn_comments hgap.areComments]

end LuaCoverage.Instrument
