import LuaCoverage.Proofs.Instrument.Woven.Joint

/-!
# Readers in a woven source

A reader *weaves* if whatever it reads in a source it reads in the result as well, up to what was
written: there is an outline of what was read, and over this outline the reader goes in the result
to the same place, with nodes of the same trees. Between what is read and what follows, the sites
that may stand there are known. In what *manner* a reader weaves says which sites these are, and
what else is known of its nodes.

Results:
* `weaves_mark`, `weaves_keyword`, `weaves_name`: tokens weave.
* `Weaves.inRole`: so does a reader whose nodes are given a role.
-/

namespace LuaCoverage.Instrument
open LuaCoverage.Lua LuaCoverage.Text LuaCoverage.Lua.Cursor LuaCoverage.Lua.Grammar
open LuaCoverage.Analysis

/-! ## Trees of both -/

variable {w : Writing}

/-- Nodes of the result have the trees of nodes of the source, and their first was not written. -/
structure Alike (w : Writing) (nodes' nodes : List Node) : Prop where
  trees : Node.erasedIn w.result w.written nodes' = Node.treesIn w.source nodes
  kept : ∃ first rest, nodes' = first :: rest ∧ first.erased w.result w.written ≠ []

theorem treesIn_comments {comments : List Node} (h : Lexeme.AreComments comments)
    (source : Bytes) : Node.treesIn source comments = [] := by
  induction comments with
  | nil => simp
  | cons n rest ih =>
    obtain ⟨hn, hrest⟩ := List.forall_mem_cons.1 h
    rw [Node.treesIn_cons, Node.trees_comment hn.1, ih hrest]
    rfl

theorem erasedIn_comments {comments : List Node} (h : Lexeme.AreComments comments)
    (result : Bytes) (written : List Span) : Node.erasedIn result written comments = [] := by
  induction comments with
  | nil => simp
  | cons n rest ih =>
    obtain ⟨hn, hrest⟩ := List.forall_mem_cons.1 h
    rw [Node.erasedIn_cons, Node.erased_comment hn.1, ih hrest]
    rfl

theorem placesIn_comments {comments : List Node} (h : Lexeme.AreComments comments)
    (statements : Bool) : placesIn statements comments = [] := by
  induction comments with
  | nil => simp
  | cons n rest ih =>
    obtain ⟨hn, hrest⟩ := List.forall_mem_cons.1 h
    have hwalked : isWalked n = false := by simp [isWalked, Node.isSkipped, hn.1]
    rw [placesIn_cons, hwalked, ih hrest]
    rfl

namespace Alike
variable {nodes nodes' more more' comments comments' : List Node}

theorem append (h : Alike w nodes' nodes)
    (hmore : Node.erasedIn w.result w.written more' = Node.treesIn w.source more) :
    Alike w (nodes' ++ more') (nodes ++ more) := by
  obtain ⟨htrees, first, rest, rfl, hfirst⟩ := h
  exact ⟨by simp [← htrees, ← hmore], first, rest ++ more', rfl, hfirst⟩

theorem take (h : Alike w nodes' nodes) (hcomments' : Lexeme.AreComments comments')
    (hcomments : Lexeme.AreComments comments)
    (hmore : Node.erasedIn w.result w.written more' = Node.treesIn w.source more) :
    Alike w (nodes' ++ comments' ++ more') (nodes ++ comments ++ more) := by
  rw [List.append_assoc, List.append_assoc]
  refine h.append ?_
  simp [erasedIn_comments hcomments', treesIn_comments hcomments, hmore]

theorem ne_nil (h : Alike w nodes' nodes) : nodes ≠ [] := by
  rintro rfl
  obtain ⟨htrees, first, rest, rfl, hfirst⟩ := h
  simp_all

/-- Nodes of the same trees may become the children of a node. -/
theorem node (h : Alike w nodes' nodes) {kind : NodeKind} (hkind : kind ≠ .comment)
    (role : Option Role) (start start' stop stop' : Nat) :
    Alike w [.mk kind role start' stop' nodes'] [.mk kind role start stop nodes] := by
  have hne := h.ne_nil
  obtain ⟨htrees, first, rest, rfl, hfirst⟩ := h
  refine ⟨?_, _, [], rfl, ?_⟩
  · simp [Node.erased_of_kept hkind hfirst, Node.trees_node hkind hne, ← htrees]
  · simp [Node.erased_of_kept hkind hfirst]

theorem withRole (h : Alike w nodes' nodes) (role : Role) :
    Alike w (nodes'.map (Node.withRole role)) (nodes.map (Node.withRole role)) := by
  have herased (nodes : List Node) :
      Node.erasedIn w.result w.written (nodes.map (Node.withRole role))
        = (Node.erasedIn w.result w.written nodes).map (Tree.withRole (some role)) := by
    induction nodes with
    | nil => simp
    | cons n rest ih => simp [ih, Node.erased_withRole]
  have htrees (nodes : List Node) : Node.treesIn w.source (nodes.map (Node.withRole role))
      = (Node.treesIn w.source nodes).map (Tree.withRole (some role)) := by
    induction nodes with
    | nil => simp
    | cons n rest ih => simp [ih, Node.trees_withRole]
  obtain ⟨hall, first, rest, rfl, hfirst⟩ := h
  refine ⟨by rw [herased, htrees, hall], first.withRole role, rest.map (Node.withRole role), rfl, ?_⟩
  simpa [Node.erased_withRole] using hfirst

end Alike

theorem take_bytes {offset position : Nat} {front : List Glyph} {rest : List (Piece Site)}
    (h : w.Agrees offset position (bare front ++ rest)) :
    (w.source.drop offset).take (width front) = (w.result.drop position).take (width front) := by
  induction front generalizing offset position with
  | nil => simp
  | cons g front ih =>
    have hrest := ih h.2.2
    simp only [width_cons, List.take_add, List.drop_drop, h.1, hrest]

namespace Joint
variable {j l : Joint w}

theorem Goes.agrees {outline : Outline} (h : j.Goes outline l) : ∃ front : List (Piece Site),
    front.map (.map Site.slot) = outline ∧ w.Agrees j.offset j.position (front ++ l.pieces) := by
  obtain ⟨front, hfront, hpieces, -, -⟩ := h
  exact ⟨front, hfront, hpieces ▸ j.agrees⟩

theorem eq_bare {front : List Glyph} {pieces : List (Piece Site)}
    (h : pieces.map (.map Site.slot) = bare front) : pieces = bare front := by
  induction front generalizing pieces with
  | nil => exact List.map_eq_nil_iff.1 h
  | cons g front ih =>
    obtain ⟨p, pieces, rfl, hp, hrest⟩ := List.map_eq_cons_iff.1 h
    cases p with
    | glyph g' =>
      cases hp
      rw [ih hrest]
      rfl
    | mark s => cases hp

/-- A leaf that no text was written into is the same leaf in both. -/
theorem alike_leaf {kind : NodeKind} {g : Glyph} {front : List Glyph} (hkind : kind ≠ .comment)
    (h : j.Goes (bare (g :: front)) l) (hg : 0 < g.width) :
    Alike w [.mk kind none j.woven.offset l.woven.offset []]
      [.mk kind none j.source.offset l.source.offset []] := by
  obtain ⟨hsource, hwoven⟩ := goes_bare h
  obtain ⟨pieces, hpieces, hagrees⟩ := h.agrees
  obtain rfl := eq_bare hpieces
  have hbytes : bytesOf w.result (j.woven.offset, l.woven.offset)
      = bytesOf w.source (j.source.offset, l.source.offset) := by
    rw [bytesOf, bytesOf, hwoven.offset, hsource.offset, Nat.add_sub_cancel_left,
      Nat.add_sub_cancel_left]
    exact (take_bytes hagrees).symm
  have hspan : isWithin w.written (j.woven.offset, l.woven.offset) = false := by
    have hwritten := hagrees.2.1
    rw [isWritten, List.any_eq_false] at hwritten
    rw [isWithin, List.any_eq_false]
    intro span hspan
    have hnot := hwritten span hspan
    have hoffset := hwoven.offset
    have hposition : j.woven.offset = j.position := rfl
    simp only [width_cons, Bool.and_eq_true, decide_eq_true_eq, not_and] at hoffset hnot ⊢
    omega
  have herased := Node.erased_leaf w.result none hkind hspan
  refine ⟨?_, _, [], rfl, by simp [herased]⟩
  simp [herased, Node.trees_leaf hkind, hbytes]

end Joint

/-! ## Outlines that are tidy -/

/-- At one place closers come before all else, and there is but one slot of the others: whether this
holds, behind a slot that is open. -/
def Outline.isTidy : (before : Option Site.Slot) → Outline → Bool
  | before, [] => before.isNone
  | _, .glyph _ :: rest => isTidy none rest
  | before, .mark slot :: rest =>
    before.all (· == slot) && isTidy (if slot == .closer then none else some slot) rest

namespace Outline
variable {a b : Outline} {before : Option Site.Slot}

theorem isTidy_append (ha : isTidy before a = true) (hb : isTidy none b = true) :
    isTidy before (a ++ b) = true := by
  induction a generalizing before with
  | nil =>
    obtain rfl := Option.isNone_iff_eq_none.1 ha
    exact hb
  | cons p a ih =>
    cases p with
    | glyph g => exact ih ha
    | mark slot =>
      simp only [List.cons_append, isTidy, Bool.and_eq_true] at ha ⊢
      exact ⟨ha.1, ih ha.2⟩

theorem isTidy_bare (front : List Glyph) : isTidy none (bare front) = true := by
  induction front with
  | nil => rfl
  | cons g front ih => exact ih

/-- The first piece is a glyph, or the mark of a slot. -/
def Leads (lead : Option Site.Slot) (outline : Outline) : Prop :=
  ∃ p rest, outline = p :: rest ∧ ((∃ g, p = .glyph g) ∨ ∃ slot, lead = some slot ∧ p = .mark slot)

theorem Leads.append {lead : Option Site.Slot} (h : Leads lead a) (b : Outline) :
    Leads lead (a ++ b) := by
  obtain ⟨p, rest, rfl, hp⟩ := h
  exact ⟨p, rest ++ b, rfl, hp⟩

/-- A mark may stand in front of an outline that starts with the same mark, or with a glyph. -/
theorem isTidy_mark {slot : Site.Slot} (hlead : Leads (some slot) a) (ha : isTidy none a = true) :
    isTidy none (.mark slot :: a) = true := by
  obtain ⟨p, rest, rfl, ⟨g, rfl⟩ | ⟨slot', hslot, rfl⟩⟩ := hlead
  · exact ha
  · cases hslot
    simp only [isTidy, Option.all_none, Bool.true_and] at ha ⊢
    split <;> simp_all

end Outline

/-! ## Readers that weave -/

abbrev Read := Option (List Node × Cursor)

/-- What is known of a reader: the slot that may stand in front of what it reads, whether what it
reads is blunt, what may follow, the places around what is read, what the nodes are, and what they
have in common with those of the result. -/
structure Manner where
  lead : Option Site.Slot
  blunt : Bool
  follow : Sight
  extra : List Node → List Spot
  post : Cursor → List Node → Cursor → Prop
  same : List Node → List Node → Prop

/-- What comes next where a reader reads. -/
def Manner.sight (q : Manner) : Sight := ⟨q.lead.toList, q.blunt⟩

def SameKinds (nodes' nodes : List Node) : Prop := nodes'.map Node.kind = nodes.map Node.kind

/-- Nothing is known of the kinds. -/
def AnyKinds (_ _ : List Node) : Prop := True

/-- Whether nodes of a kind are neither marks nor passed over, nor told from their siblings by it. -/
def isOrdinary : NodeKind → Bool
  | .token _ | .comment | .hashBangLine | .emptyStatement | .labelStatement | .typeDefinition
  | .chunk | .block | .elseifStatement | .elseStatement | .parameters => false
  | _ => true

theorem isWalked_of_isOrdinary {n : Node} (h : isOrdinary n.kind = true) : isWalked n = true := by
  unfold isWalked Node.isNamed Node.isSkipped
  cases hkind : n.kind <;> first | rfl | (rw [hkind] at h; cases h)

/-- A single node with a role spans what was read. -/
def Spans (role : Option Role) (c : Cursor) (nodes : List Node) (n : Cursor) : Prop :=
  ∃ x, nodes = [x] ∧ x.start = c.offset ∧ x.stop = n.offset ∧ x.role = role
    ∧ isOrdinary x.kind = true

/-- The first node starts where the reading did. -/
def Begins (c : Cursor) (nodes : List Node) : Prop :=
  ∃ first rest, nodes = first :: rest ∧ first.start = c.offset

namespace Manner

/-- A token, or another leaf. -/
def leaf (kind : NodeKind) (blunt : Bool) : Manner :=
  ⟨none, blunt, .all, fun _ => [], fun c nodes n => nodes = [.mk kind none c.offset n.offset []],
    SameKinds⟩

/-- One node. -/
def node (role : Option Role) (sight : Option Site.Slot × Bool) (follow : Sight) : Manner :=
  ⟨sight.1, sight.2, follow, fun _ => [], Spans role, SameKinds⟩

/-- Nodes that become the children of another. -/
def list (sight : Option Site.Slot × Bool) (follow : Sight) : Manner :=
  ⟨sight.1, sight.2, follow, fun _ => [], fun _ _ _ => True, AnyKinds⟩

end Manner

/-- What was read from one cursor to another is of an outline, over which the result is read. -/
structure Reads (w : Writing) (q : Manner) (c n : Cursor) (nodes : List Node) (outline : Outline)
    (read' : Nat → Reader) : Prop where
  passes : Passes c n (plain outline)
  nonempty : plain outline ≠ []
  leads : outline.Leads q.lead
  tidy : outline.isTidy none = true
  places : (outline.places c.offset).Perm (q.extra nodes ++ placesIn false nodes)
  begins : Begins c nodes
  blunt : q.blunt = true → isBlunt c = true
  starts : ∀ j l : Joint w, j.source = c → j.Goes outline l → l.Ready q.follow →
    j.Starts (· ∈ q.sight.slots)
  reads : ∀ j l : Joint w, j.source = c → j.Goes outline l → l.Ready q.follow →
    ∀ b, 16 * outline.count ≤ b → ∃ nodes', read' b j.entry = some (nodes', l.woven)
      ∧ Alike w nodes' nodes ∧ q.same nodes' nodes

/-- A reader weaves where a condition holds. -/
def WeavesIf (w : Writing) (pre : Cursor → Prop) (q : Manner) (read : Reader)
    (read' : Nat → Reader) : Prop := ∀ c nodes n, Landed c → pre c → read c = some (nodes, n) →
  q.post c nodes n ∧ ∃ outline, Reads w q c n nodes outline read'

abbrev Weaves (w : Writing) (q : Manner) (read : Reader) (read' : Nat → Reader) : Prop :=
  WeavesIf w (fun _ => True) q read read'

/-! ## Tokens -/

theorem weaves_leaf {pre : Cursor → Prop} {kind : NodeKind} {blunt : Bool}
    {read : Cursor → Option Cursor} (hkind : isPlain kind = true ∧ kind ≠ .comment)
    (hfirm : Firm Woven read)
    (hblunt : ∀ {c n}, pre c → read c = some n → blunt = true → isBlunt c = true)
    (hintact : ∀ {c n front}, Landed c → pre c → read c = some n → Passes c n front → front ≠ []
      ∧ ∀ {j l : Joint w}, j.source = c → j.Goes (bare front) l → j.Intact) :
    WeavesIf w pre (.leaf kind blunt) (Grammar.leaf kind read) fun _ => Grammar.leaf kind read := by
  intro c nodes n hc hpre hread
  obtain ⟨n, hn, hnodes⟩ := Option.map_eq_some_iff.1 hread
  cases hnodes
  obtain ⟨front, hpass, hall⟩ := hfirm c n hn
  obtain ⟨hne, hintact⟩ := hintact hc hpre hn hpass
  obtain ⟨g, front, rfl⟩ := List.exists_cons_of_ne_nil hne
  have hg : 0 < g.width := hc.solid g (by rw [hpass.rest]; simp)
  refine ⟨rfl, bare (g :: front), by simpa using hpass, by simp, ⟨_, _, rfl, .inl ⟨g, rfl⟩⟩,
    Outline.isTidy_bare _, ?_, ⟨_, [], rfl, rfl⟩, hblunt hpre hn,
    fun j l hj hgoes _ => .inl (hintact hj hgoes), fun j l hj hgoes _ b _ => ?_⟩
  · simp [Manner.leaf, placesIn_cons, places_of_isPlain hkind.1]
  · obtain ⟨hsource, hwoven⟩ := Joint.goes_bare hgoes
    have hl := hgoes.source_eq hj (by simpa using hpass)
    have hcursor : j.woven = ⟨j.woven.offset, g :: front ++ l.woven.rest⟩ := by
      rw [← hwoven.rest]
    have hread' := hall j.woven.offset l.woven.rest (by rw [← hl]; exact l.woven_rest)
    rw [← hcursor, ← hwoven.offset] at hread'
    refine ⟨[.mk kind none j.woven.offset l.woven.offset []], ?_, ?_, rfl⟩
    · rw [(hintact hj hgoes).entry, Grammar.leaf, hread']
      rfl
    · have halike := Joint.alike_leaf hkind.2 hgoes hg
      rwa [hj, hl] at halike

namespace Joint
variable {j l : Joint w}

theorem char?_of_goes {g : Glyph} {front : List Glyph} (h : j.Goes (bare (g :: front)) l) :
    j.source.char? = g.char ∧ j.woven.char? = g.char := by
  obtain ⟨hsource, hwoven⟩ := goes_bare h
  exact ⟨by rw [Cursor.char?, hsource.rest]; rfl, by rw [Cursor.char?, hwoven.rest]; rfl⟩

/-- The first characters of `pairMarks`. -/
theorem sees_pair {c : Cursor} {text : String} (htext : text ∈ pairMarks) {ch : Char}
    (hc : c.char? = some ch) (hch : ch ∉ ['.', ':', '~', '=']) : c.sees text = false := by
  simp only [pairMarks, List.mem_cons, List.not_mem_nil, or_false, not_or] at htext hch
  rcases htext with rfl | rfl | rfl | rfl
  · exact sees_eq_false _ (t := '.') rfl (by simp [hc, hch.1])
  · exact sees_eq_false _ (t := ':') rfl (by simp [hc, hch.2.1])
  · exact sees_eq_false _ (t := '~') rfl (by simp [hc, hch.2.2.1])
  · exact sees_eq_false _ (t := '=') rfl (by simp [hc, hch.2.2.2])

theorem intact_of_word {word : String} {front : List Glyph} (hlanded : Landed j.source)
    (hword : Lexeme.IsWord word front) (hends : Lexeme.EndsWord l.source.rest)
    (h : j.Goes (bare front) l) : j.Intact := by
  obtain ⟨hsource, hwoven⟩ := goes_bare h
  have hread (c : Cursor) (rest : List Glyph) (hrest : c.rest = front ++ rest)
      (hends : Lexeme.EndsWord rest) : Lexeme.wordAt .lua c = word := by
    have hc : c = ⟨c.offset, front ++ rest⟩ := by rw [← hrest]
    rw [hc, Lexeme.wordAt, hword.word? hends]
    rfl
  obtain ⟨g, ch, more, rfl, hg, hstart⟩ := hword.starts
  obtain ⟨hchar, hchar'⟩ := char?_of_goes h
  have hmark : ch ∉ ['.', ':', '~', '='] := by
    rintro hmem
    simp only [List.mem_cons, List.not_mem_nil, or_false] at hmem
    rcases hmem with rfl | rfl | rfl | rfl <;> revert hstart <;> decide
  refine ⟨hlanded, by rw [hsource.rest, hwoven.rest]; rfl, ?_, fun text htext => ?_⟩
  · rw [hread _ _ hsource.rest hends,
      hread _ _ hwoven.rest (Lexeme.endsWord_woven l.woven_rest hends)]
  · rw [sees_pair htext (hchar.trans hg) hmark, sees_pair htext (hchar'.trans hg) hmark]

theorem wordAt_eq_empty {c : Cursor} (h : c.char?.any Dialect.lua.isNameStart = false) :
    Lexeme.wordAt .lua c = "" := by
  have hword : Lexeme.word? .lua c = none := by
    rw [Lexeme.word?_eq_none_iff, h]
    simp
  rw [Lexeme.wordAt, hword]
  rfl

theorem intact_of_mark {g : Glyph} {front : List Glyph} (hlanded : Landed j.source)
    (hg : g.char.any Dialect.lua.isNameStart = false)
    (hpairs : 2 ≤ (g :: front).length ∨ ∀ text ∈ pairMarks, j.source.sees text = false)
    (h : j.Goes (bare (g :: front)) l) : j.Intact := by
  obtain ⟨hsource, hwoven⟩ := goes_bare h
  obtain ⟨hchar, hchar'⟩ := char?_of_goes h
  refine ⟨hlanded, by rw [hsource.rest, hwoven.rest]; rfl, ?_, fun text htext => ?_⟩
  · rw [wordAt_eq_empty (c := j.woven) (by rw [hchar', hg]),
      wordAt_eq_empty (c := j.source) (by rw [hchar, hg])]
  · rcases hpairs with hlength | hnone
    · obtain ⟨g', front, rfl⟩ := List.exists_cons_of_length_pos (show 0 < front.length by
        simp only [List.length_cons] at hlength
        omega)
      have hsees (c : Cursor) (rest : List Glyph) (hrest : c.rest = g :: g' :: front ++ rest) :
          c.sees text = ([g, g'].map Glyph.char == text.toList.map some) := by
        obtain ⟨offset, glyphs⟩ := c
        obtain rfl := hrest
        have htwo : ∃ a b, text.toList = [a, b] := by
          simp only [pairMarks, List.mem_cons, List.not_mem_nil, or_false] at htext
          rcases htext with rfl | rfl | rfl | rfl <;> exact ⟨_, _, rfl⟩
        obtain ⟨a, b, htwo⟩ := htwo
        by_cases ha : g.char = some a <;> by_cases hb : g'.char = some b <;>
          simp [Cursor.sees, Cursor.text?, htwo, textFrom?, ha, hb]
      rw [hsees _ _ hsource.rest, hsees _ _ hwoven.rest]
    · have hplain : IsPlain text := by
        have hall : ∀ text ∈ pairMarks, IsPlain text := by decide
        exact hall text htext
      have hsource := hnone text htext
      rw [hsource]
      rw [Cursor.sees, Option.isSome_eq_false_iff, Option.isNone_iff_eq_none] at hsource ⊢
      exact (exact_text? _ hplain).tracks.shy _ _ _ j.woven_rest hsource

end Joint

/-- Whether no mark starts with the first character of a text but the text itself. -/
def isClear (text : String) : Bool :=
  match text.toList with
  | [] => false
  | t :: more =>
    !Dialect.lua.isNameStart t && (!more.isEmpty || !(['.', ':', '~', '='].contains t))

/-- Whether a text starts no index, no method, no arguments and no value. -/
def isBluntText (text : String) : Bool :=
  text == "::"
    || text.toList.head?.any fun t => !(['.', ':', '(', '\x7b', '"', '\'', '[', '='].contains t)

theorem isBlunt_of_text? {text : String} {c n : Cursor} (hread : c.text? text = some n)
    (h : isBluntText text = true) : isBlunt c = true := by
  unfold isBluntText at h
  rw [Bool.or_eq_true, beq_iff_eq] at h
  rcases h with rfl | h
  · rw [isBlunt, Cursor.sees, hread]
    rfl
  · obtain ⟨front, hpass, hspells⟩ := exists_text? hread
    cases hlist : text.toList with
    | nil => simp [hlist] at h
    | cons t more =>
      rw [hlist] at hspells h
      obtain ⟨g, rest, rfl, hg, -⟩ := List.map_eq_cons_iff.1 hspells
      have hchar : c.char? = some t := by
        rw [Cursor.char?, hpass.rest]
        exact hg
      rw [isBlunt, hchar]
      simpa using Or.inr h

theorem weavesIf_text (kind : NodeKind) {text : String} {t : Char} {more : List Char}
    (hkind : isPlain kind = true ∧ kind ≠ .comment) (htext : text.toList = t :: more)
    (ht : Dialect.lua.isNameStart t = false) :
    WeavesIf w (fun c => more ≠ [] ∨ ∀ text ∈ Joint.pairMarks, c.sees text = false)
      (.leaf kind (isBluntText text)) (leaf kind (Cursor.text? text))
      fun _ => leaf kind (Cursor.text? text) := by
  refine weaves_leaf hkind (firm_text? text).weaken (fun _ => isBlunt_of_text?)
    fun {c n front} hc hpre hread hpass => ?_
  obtain ⟨front', hpass', hspells⟩ := exists_text? hread
  have hfront : front = front' := by
    have hrest := hpass.rest.symm.trans hpass'.rest
    rwa [List.append_cancel_right_eq] at hrest
  obtain rfl := hfront
  rw [htext] at hspells
  obtain ⟨g, rest, rfl, hg, hrest⟩ := List.map_eq_cons_iff.1 hspells
  refine ⟨by simp, fun {j l} hj hgoes => Joint.intact_of_mark (hj ▸ hc) (by simp [hg, ht]) ?_ hgoes⟩
  rcases hpre with hmore | hnone
  · left
    obtain ⟨a, more, rfl⟩ := List.exists_cons_of_ne_nil hmore
    obtain ⟨g', rest, rfl, -⟩ := List.map_eq_cons_iff.1 hrest
    simp
  · exact .inr (hj ▸ hnone)

theorem WeavesIf.weaves {pre : Cursor → Prop} {q : Manner} {read : Reader} {read' : Nat → Reader}
    (h : WeavesIf w pre q read read')
    (hpre : ∀ c nodes n, Landed c → read c = some (nodes, n) → pre c) : Weaves w q read read' :=
  fun c nodes n hc _ hread => h c nodes n hc (hpre _ _ _ hc hread) hread

theorem weaves_text {kind : NodeKind} {text : String} (hkind : isPlain kind = true ∧ kind ≠ .comment)
    (htext : isClear text = true) :
    Weaves w (.leaf kind (isBluntText text)) (leaf kind (Cursor.text? text))
      fun _ => leaf kind (Cursor.text? text) := by
  unfold isClear at htext
  split at htext
  · cases htext
  · next t more hlist =>
    simp only [Bool.and_eq_true, Bool.not_eq_true', Bool.or_eq_true, List.isEmpty_eq_false_iff,
      List.contains_eq_mem, decide_eq_false_iff_not] at htext
    refine (weavesIf_text kind hkind hlist htext.1).weaves fun c nodes n _ hread => ?_
    refine htext.2.imp_right fun ht text' htext' => ?_
    obtain ⟨next, hnext, -⟩ := Option.map_eq_some_iff.1 hread
    obtain ⟨front, hpass, hspells⟩ := exists_text? hnext
    rw [hlist] at hspells
    obtain ⟨g, rest, rfl, hg, -⟩ := List.map_eq_cons_iff.1 hspells
    refine Joint.sees_pair htext' (?_ : c.char? = some t) ht
    rw [Cursor.char?, hpass.rest]
    exact hg

theorem weaves_mark {text : String} (htext : isClear text = true) :
    Weaves w (.leaf (.token text) (isBluntText text)) (mark text) fun _ => mark text :=
  weaves_text ⟨rfl, by simp⟩ htext

/-- A mark of one glyph that is not the first of a longer one. -/
theorem weavesIf_mark {text : String} {t : Char} (htext : text.toList = [t])
    (ht : Dialect.lua.isNameStart t = false) :
    WeavesIf w (fun c => ∀ text ∈ Joint.pairMarks, c.sees text = false) (.leaf (.token text) false)
      (mark text) fun _ => mark text := by
  intro c nodes n hc hpre hread
  obtain ⟨hpost, outline, hreads⟩ :=
    weavesIf_text (w := w) (.token text) ⟨rfl, by simp⟩ htext ht c nodes n hc (.inr hpre) hread
  exact ⟨hpost, outline, hreads.passes, hreads.nonempty, hreads.leads, hreads.tidy, hreads.places,
    hreads.begins, nofun, hreads.starts, hreads.reads⟩

/-- Of the marks of two glyphs only those can be seen that start with the glyph that comes next. -/
theorem sees_pairMarks {c : Cursor} {t : Char} (hc : c.char? = some t)
    (h : ∀ text ∈ Joint.pairMarks, text.toList.head? = some t → c.sees text = false) :
    ∀ text ∈ Joint.pairMarks, c.sees text = false := by
  intro text htext
  by_cases hhead : text.toList.head? = some t
  · exact h text htext hhead
  · cases hlist : text.toList with
    | nil =>
      have hall : ∀ text ∈ Joint.pairMarks, text.toList ≠ [] := by decide
      exact absurd hlist (hall text htext)
    | cons first more =>
      refine sees_eq_false _ hlist fun heq => hhead ?_
      rw [hlist]
      exact heq.symm.trans hc

theorem isBlunt_of_word? {c n : Cursor} {word : String}
    (h : Lexeme.word? .lua c = some (word, n)) : isBlunt c = true := by
  obtain ⟨front, hpass, hword, -⟩ := Lexeme.exists_word? h
  obtain ⟨g, ch, more, rfl, hg, hstart⟩ := hword.starts
  have hchar : c.char? = some ch := by
    rw [Cursor.char?, hpass.rest]
    exact hg
  have hnone : ch ∉ ['.', ':', '(', '\x7b', '"', '\'', '[', '='] := by
    intro hmem
    simp only [List.mem_cons, List.not_mem_nil, or_false] at hmem
    rcases hmem with rfl | rfl | rfl | rfl | rfl | rfl | rfl | rfl <;> revert hstart <;> decide
  rw [isBlunt, hchar]
  simpa using Or.inr (by simpa using hnone)

/-- A word that satisfies a test, as a leaf. -/
theorem weaves_word (kind : NodeKind) (hkind : isPlain kind = true ∧ kind ≠ .comment)
    (test : String → Bool) :
    Weaves w (.leaf kind true)
      (leaf kind fun c => (Lexeme.word? .lua c).bind fun word =>
        if test word.1 then some word.2 else none)
      fun _ => leaf kind fun c => (Lexeme.word? .lua c).bind fun word =>
        if test word.1 then some word.2 else none := by
  have hword {c n : Cursor} (h : ((Lexeme.word? .lua c).bind fun word =>
      if test word.1 then some word.2 else none) = some n) :
      ∃ word, Lexeme.word? .lua c = some (word, n) ∧ test word = true := by
    obtain ⟨⟨word, next⟩, hread, hnext⟩ := Option.bind_eq_some_iff.1 h
    split at hnext
    · next htest =>
      cases hnext
      exact ⟨word, hread, htest⟩
    · cases hnext
  refine weaves_leaf hkind (fun c n hread => ?_) (fun {c n} _ hread _ => ?_)
    fun {c n front} hc _ hread hpass => ?_
  · obtain ⟨word, hread, htest⟩ := hword hread
    obtain ⟨front, hpass, -, hall⟩ := Lexeme.word?_woven hread
    exact ⟨front, hpass, fun o rest hwoven => by simp [hall o rest hwoven, htest]⟩
  · obtain ⟨word, hread, -⟩ := hword hread
    exact isBlunt_of_word? hread
  · obtain ⟨word, hread, htest⟩ := hword hread
    obtain ⟨front', hpass', hisWord, hends⟩ := Lexeme.exists_word? hread
    have hfront : front = front' := by
      have hrest := hpass.rest.symm.trans hpass'.rest
      rwa [List.append_cancel_right_eq] at hrest
    obtain rfl := hfront
    obtain ⟨g, ch, more, rfl, -⟩ := hisWord.starts
    refine ⟨by simp, fun {j l} hj hgoes => Joint.intact_of_word (hj ▸ hc) hisWord ?_ hgoes⟩
    rw [hgoes.source_eq hj (by simpa using hpass)]
    exact hends

theorem weaves_keyword (text : String) :
    Weaves w (.leaf (.token text) true) (keyword .lua text) fun _ => keyword .lua text := by
  have hkeyword : keyword .lua text = leaf (.token text) fun c =>
      (Lexeme.word? .lua c).bind fun word =>
        if decide (word.1 = text) then some word.2 else none := by
    funext c
    simp only [keyword, leaf, decide_eq_true_eq]
    cases Lexeme.word? .lua c with
    | none => rfl
    | some word =>
      dsimp only [Option.bind_some]
      split
      · rfl
      · rfl
  rw [hkeyword]
  exact weaves_word (.token text) ⟨rfl, by simp⟩ fun word => decide (word = text)

/-- A word of any kind. -/
theorem weaves_anyWord {kind : NodeKind} (hkind : isPlain kind = true ∧ kind ≠ .comment) :
    Weaves w (.leaf kind true) (leaf kind fun c => (Lexeme.word? .lua c).map (·.2))
      fun _ => leaf kind fun c => (Lexeme.word? .lua c).map (·.2) := by
  have hany : (fun c => (Lexeme.word? .lua c).map (·.2)) = fun c =>
      (Lexeme.word? .lua c).bind fun word => if true then some word.2 else none := by
    funext c
    cases Lexeme.word? .lua c <;> rfl
  rw [hany]
  exact weaves_word kind hkind fun _ => true

theorem weaves_name : Weaves w (.leaf .identifier true) (name .lua) fun _ => name .lua :=
  weaves_anyWord ⟨rfl, by simp⟩

/-! ## Roles -/

theorem placesIn_map_withRole (role : Role) (nodes : List Node) :
    placesIn false (nodes.map (Node.withRole role)) = placesIn false nodes := by
  induction nodes with
  | nil => rfl
  | cons n rest ih => simp [placesIn_cons, ih]

/-- A node may be given a role. -/
theorem Weaves.inRole (post : Option Role → Cursor → List Node → Cursor → Prop) (role : Role)
    {lead : Option Site.Slot} {blunt : Bool} {follow : Sight} {extra : List Node → List Spot}
    {same : List Node → List Node → Prop} {read : Reader} {read' : Nat → Reader}
    (hextra : ∀ nodes, extra (nodes.map (.withRole role)) = extra nodes)
    (hpost : ∀ c nodes n, post none c nodes n → post (some role) c (nodes.map (.withRole role)) n)
    (hsame : ∀ nodes' nodes, same nodes' nodes →
      same (nodes'.map (.withRole role)) (nodes.map (.withRole role)))
    (h : Weaves w ⟨lead, blunt, follow, extra, post none, same⟩ read read') :
    Weaves w ⟨lead, blunt, follow, extra, post (some role), same⟩ (Grammar.inRole role read)
      fun b => Grammar.inRole role (read' b) := by
  intro c nodes n hc hpre hread
  obtain ⟨⟨nodes, n⟩, hread, heq⟩ := Option.map_eq_some_iff.1 hread
  cases heq
  obtain ⟨hp, outline, hreads⟩ := h c nodes n hc hpre hread
  refine ⟨hpost _ _ _ hp, outline, hreads.passes, hreads.nonempty, hreads.leads, hreads.tidy, ?_, ?_,
    hreads.blunt, hreads.starts, fun j l hj hgoes hl b hb => ?_⟩
  · simpa [placesIn_map_withRole, hextra] using hreads.places
  · obtain ⟨first, rest, rfl, hstart⟩ := hreads.begins
    refine ⟨_, _, rfl, ?_⟩
    cases first
    exact hstart
  · obtain ⟨nodes', hread', halike, hkinds⟩ := hreads.reads j l hj hgoes hl b hb
    exact ⟨_, by rw [Grammar.inRole, hread']; rfl, halike.withRole role, hsame _ _ hkinds⟩

theorem Weaves.nodeInRole {sight : Option Site.Slot × Bool} {follow : Sight} {read : Reader}
    {read' : Nat → Reader} (role : Role) (h : Weaves w (.node none sight follow) read read') :
    Weaves w (.node (some role) sight follow) (Grammar.inRole role read)
      fun b => Grammar.inRole role (read' b) := by
  refine Weaves.inRole _ role (fun _ => rfl) ?_ ?_ h
  · rintro c nodes n ⟨x, rfl, hstart, hstop, hrole, hkind⟩
    obtain ⟨kind, role', start, stop, children⟩ := x
    exact ⟨_, rfl, hstart, hstop, rfl, hkind⟩
  · intro nodes' nodes h
    have hkinds (nodes : List Node) :
        (nodes.map (Node.withRole role)).map Node.kind = nodes.map Node.kind := by
      rw [List.map_map]
      exact List.map_congr_left fun n _ => by cases n; rfl
    exact (hkinds nodes').trans (h.trans (hkinds nodes).symm)

/-- What is read in a manner is read in one that says less. -/
theorem Reads.mono {q q' : Manner} {c n : Cursor} {nodes : List Node} {outline : Outline}
    {read' : Nat → Reader} (h : Reads w q c n nodes outline read')
    (hlead : ∀ slot ∈ q.lead, slot ∈ q'.lead)
    (hblunt : q'.blunt = true → q.blunt = true) (hfollow : q'.follow.Within q.follow)
    (hextra : q'.extra = q.extra) (hsame : ∀ nodes' nodes, q.same nodes' nodes → q'.same nodes' nodes) :
    Reads w q' c n nodes outline read' where
  passes := h.passes
  nonempty := h.nonempty
  leads := by
    obtain ⟨p, rest, houtline, hp | ⟨slot, hslot, hp⟩⟩ := h.leads
    · exact ⟨p, rest, houtline, .inl hp⟩
    · exact ⟨p, rest, houtline, .inr ⟨slot, hlead slot hslot, hp⟩⟩
  tidy := h.tidy
  places := hextra ▸ h.places
  begins := h.begins
  blunt := fun hq => h.blunt (hblunt hq)
  starts := fun j l hj hgoes hl => (h.starts j l hj hgoes (hl.mono hfollow)).mono fun slot hslot =>
    Option.mem_toList.2 (hlead slot (Option.mem_toList.1 hslot))
  reads := fun j l hj hgoes hl b hb => by
    obtain ⟨nodes', hread', halike, hkinds⟩ := h.reads j l hj hgoes (hl.mono hfollow) b hb
    exact ⟨nodes', hread', halike, hsame _ _ hkinds⟩

theorem WeavesIf.mono {pre : Cursor → Prop} {q q' : Manner} {read : Reader} {read' : Nat → Reader}
    (h : WeavesIf w pre q read read') (hlead : ∀ slot ∈ q.lead, slot ∈ q'.lead)
    (hblunt : q'.blunt = true → q.blunt = true) (hfollow : q'.follow.Within q.follow)
    (hextra : q'.extra = q.extra)
    (hpost : ∀ c nodes n, pre c → q.post c nodes n → q'.post c nodes n)
    (hsame : ∀ nodes' nodes, q.same nodes' nodes → q'.same nodes' nodes) :
    WeavesIf w pre q' read read' := by
  intro c nodes n hc hpre hread
  obtain ⟨hp, outline, hreads⟩ := h c nodes n hc hpre hread
  exact ⟨hpost _ _ _ hpre hp, outline, hreads.mono hlead hblunt hfollow hextra hsame⟩

theorem Weaves.weaken {q : Manner} {read : Reader} {read' : Nat → Reader} (h : Weaves w q read read')
    (pre : Cursor → Prop) : WeavesIf w pre q read read' :=
  fun c nodes n hc _ hread => h c nodes n hc trivial hread

/-- A reader may be told otherwise. -/
theorem WeavesIf.of_reads {pre : Cursor → Prop} {q : Manner} {read other : Reader}
    {read' other' : Nat → Reader} (h : WeavesIf w pre q read read')
    (hread : ∀ c r, Landed c → pre c → other c = some r → read c = some r)
    (hother : ∀ b e r, Lexeme.trivia? e = some ([], e) → read' b e = some r → other' b e = some r) :
    WeavesIf w pre q other other' := by
  intro c nodes n hc hpre hsource
  obtain ⟨hp, outline, hreads⟩ := h c nodes n hc hpre (hread c _ hc hpre hsource)
  refine ⟨hp, outline, hreads.passes, hreads.nonempty, hreads.leads, hreads.tidy, hreads.places,
    hreads.begins, hreads.blunt, hreads.starts, fun j l hj hgoes hl b hb => ?_⟩
  have hstarts := hreads.starts j l hj hgoes hl
  obtain ⟨nodes', hread', hrest⟩ := hreads.reads j l hj hgoes hl b hb
  exact ⟨nodes', hother b _ _ (trivia?_of_lands hstarts.lands hstarts.comment) hread', hrest⟩

/-- A leaf that is no mark is a node. -/
theorem WeavesIf.leafNode {pre : Cursor → Prop} {kind : NodeKind} {read : Reader}
    {read' : Nat → Reader} {follow : Sight} {blunt : Bool}
    (h : WeavesIf w pre (.leaf kind blunt) read read') (hkind : isOrdinary kind = true) :
    WeavesIf w pre (.node none (none, blunt) follow) read read' :=
  h.mono (fun _ => id) id (Sight.within_all _) rfl
    (fun _ _ _ _ hnodes => ⟨_, hnodes, rfl, rfl, rfl, hkind⟩) fun _ _ h => h

/-- A node may be taken where less is known of what comes next. -/
theorem Weaves.loosen {role : Option Role} {lead lead' : Option Site.Slot} {blunt : Bool}
    {follow : Sight} {read : Reader} {read' : Nat → Reader}
    (h : Weaves w (.node role (lead, blunt) follow) read read')
    (hlead : ∀ slot ∈ lead, slot ∈ lead') :
    Weaves w (.node role (lead', false) follow) read read' :=
  h.mono hlead nofun (Sight.within_refl _) rfl (fun _ _ _ _ h => h) fun _ _ h => h

end LuaCoverage.Instrument
