import LuaCoverage.Proofs.Instrument.Woven.Reader
import Mathlib.Tactic.ByContra

/-!
# Drafts in a woven source

A rule of the grammar makes a draft and goes on with it, child after child. How it goes on *resumes*
in the result if the rest of the rule reads there what it reads in the source. A rule weaves if it
resumes from its first child on, and it resumes from a child on if it resumes behind it.

Results:
* `Weaves.start`, `Continues.take`, `Continues.takeIf`, `Continues.branch`: from a child on.
* `Continues.finish`, `Continues.spill`: at the end.
-/

namespace LuaCoverage.Instrument
open LuaCoverage.Lua LuaCoverage.Text LuaCoverage.Lua.Cursor LuaCoverage.Lua.Grammar
open LuaCoverage.Analysis

/-! ## White space between children -/

/-- The glyphs that are left take up space. -/
def Solid (c : Cursor) : Prop := ∀ g ∈ c.rest, 0 < g.width

theorem Solid.passes {c n : Cursor} {front : List Glyph} (h : Solid c) (hpass : Passes c n front) :
    Solid n := fun g hg => h g (by rw [hpass.rest]; exact List.mem_append_right _ hg)

theorem Solid.lt {c n : Cursor} {front : List Glyph} (h : Solid c) (hpass : Passes c n front)
    (hne : front ≠ []) : c.offset < n.offset := by
  obtain ⟨g, front, rfl⟩ := List.exists_cons_of_ne_nil hne
  have hg := h g (by rw [hpass.rest]; simp)
  have hoffset := hpass.offset
  rw [width_cons] at hoffset
  omega

/-- White space and comments that are passed over in the source and in the result. -/
structure Gap (c u : Cursor) (comments : List Node) (gap : List Glyph) : Prop where
  passes : Passes c u gap
  areComments : Lexeme.AreComments comments
  landed : Landed u
  trivia : Lexeme.trivia? c = some (comments, u)
  goes : ∀ {w : Writing} {j l : Joint w} {allow : Site.Slot → Prop}, j.source = c →
    j.Goes (bare gap) l → l.Starts allow →
    ∃ comments', Lexeme.trivia? j.woven = some (comments', l.entry)
      ∧ Lexeme.AreComments comments'

theorem exists_gap {c u : Cursor} {comments : List Node} (hsolid : Solid c)
    (h : Lexeme.trivia? c = some (comments, u)) : ∃ gap, Gap c u comments gap := by
  obtain ⟨gap, hpass, hcomments, hlanded, hgoes⟩ := Joint.trivia?_goes hsolid h
  exact ⟨gap, hpass, hcomments, hlanded, h, hgoes⟩

variable {w : Writing} {p q : Manner} {c c0 u n : Cursor} {comments nodes : List Node}
  {gap : List Glyph} {outline : Outline} {read' : Nat → Reader}

/-- What is read behind white space is found behind it in the result. -/
theorem Gap.front (hgap : Gap c u comments gap) (h : Reads w q u n nodes outline read')
    {j l : Joint w} (hj : j.source = c) (hgoes : j.Goes (bare gap ++ outline) l)
    (hl : l.Ready q.follow) : ∃ (m : Joint w) (comments' : List Node), m.source = u
      ∧ m.Goes outline l ∧ m.Starts (· ∈ q.sight.slots)
      ∧ Lexeme.trivia? j.woven = some (comments', m.entry) ∧ Lexeme.AreComments comments' := by
  obtain ⟨m, hjm, hml⟩ := Joint.goes_append.1 hgoes
  have hm : m.source = u := hjm.source_eq hj (by simpa using hgap.passes)
  have hstarts := h.starts m l hm hml hl
  obtain ⟨comments', htrivia, hcomments'⟩ := hgap.goes hj hjm hstarts
  exact ⟨m, comments', hm, hml, hstarts, htrivia, hcomments'⟩

/-- What comes next is what is read behind white space. -/
theorem Gap.ready (hgap : Gap c u comments gap) (h : Reads w q u n nodes outline read')
    {j l : Joint w} (hj : j.source = c) (hgoes : j.Goes (bare gap ++ outline) l)
    (hl : l.Ready q.follow) : j.Ready q.sight := by
  obtain ⟨m, comments', hm, hml, hstarts, htrivia, hcomments'⟩ := hgap.front h hj hgoes hl
  exact .of_trivia? hgap.trivia hj hm htrivia hstarts h.blunt

/-- If a site stands first, it is one that may stand in front of what is read. -/
theorem Reads.first (h : Reads w q u n nodes outline read') (gap : List Glyph) (back : Outline)
    (slot : Site.Slot) (rest : Outline) (hfirst : bare gap ++ (outline ++ back) = .mark slot :: rest) :
    slot ∈ q.sight.slots := by
  cases gap with
  | cons g gap => cases hfirst
  | nil =>
    obtain ⟨p, more, rfl, ⟨g, rfl⟩ | ⟨slot', hslot, rfl⟩⟩ := h.leads
    · cases hfirst
    · cases hfirst
      exact Option.mem_toList.2 hslot

/-! ## Going on with a draft -/

/-- A draft that was begun at a cursor: its first child starts there. -/
structure Begun (c0 : Cursor) (draft : Draft) : Prop where
  begins : Begins c0 draft.children
  solid : Solid draft.cursor

theorem Begun.take {draft : Draft} {front : List Glyph} (h : Begun c0 draft)
    (hpass : Passes draft.cursor n front) (more : List Node) :
    Begun c0 ⟨n, draft.children ++ more⟩ := by
  obtain ⟨⟨first, rest, hchildren, hstart⟩, hsolid⟩ := h
  exact ⟨⟨first, rest ++ more, by rw [hchildren]; rfl, hstart⟩, hsolid.passes hpass⟩

theorem Begun.first {draft : Draft} (h : Begun c0 draft) : draft.first = c0.offset := by
  obtain ⟨⟨first, rest, hchildren, hstart⟩, -⟩ := h
  simp [Draft.first, hchildren, hstart]

/-- How a rule goes on with a draft is of an outline, over which the rule goes on in the result. In
front of the outline stand the sites of `extra`, and those of the children. -/
structure Resumes (w : Writing) (p : Manner) (lead : Sight) (extra : List Spot)
    (same : List Node → List Node → Prop) (draft : Draft) (n : Cursor) (nodes : List Node)
    (outline : Outline) (k' : Nat → Draft → Read) : Prop where
  passes : Passes draft.cursor n (plain outline)
  first : ∀ slot rest, outline = .mark slot :: rest → slot ∈ lead.slots
  tidy : outline.isTidy none = true
  places : (extra ++ placesIn false draft.children ++ outline.places draft.cursor.offset).Perm
    (p.extra nodes ++ placesIn false nodes)
  ready : ∀ j l : Joint w, j.source = draft.cursor → j.Goes outline l → l.Ready p.follow →
    j.Ready lead
  reads : ∀ j l : Joint w, j.source = draft.cursor → j.Goes outline l → l.Ready p.follow →
    ∀ b, 16 * outline.count ≤ b → ∀ children', Alike w children' draft.children →
    same children' draft.children → ∃ nodes', k' b ⟨j.woven, children'⟩ = some (nodes', l.woven)
      ∧ Alike w nodes' nodes ∧ p.same nodes' nodes

/-- A rule continues in the result if it resumes with whatever it reads. -/
def Continues (w : Writing) (p : Manner) (c0 : Cursor) (lead : Sight)
    (extra : List Spot) (same : List Node → List Node → Prop) (draft : Draft)
    (k : Draft → Read) (k' : Nat → Draft → Read) : Prop :=
  Begun c0 draft → ∀ nodes n, k draft = some (nodes, n) → p.post c0 nodes n ∧ Begins c0 nodes
    ∧ ∃ outline, Resumes w p lead extra same draft n nodes outline k'

variable {pre : Cursor → Prop} {lead follow : Sight} {extra : List Spot}
  {same : List Node → List Node → Prop} {draft : Draft} {read : Reader} {k : Draft → Read}
  {k' : Nat → Draft → Read}

theorem take_eq_some {draft' : Draft} (h : draft.take read = some draft') :
    ∃ comments u nodes n, Lexeme.trivia? draft.cursor = some (comments, u)
      ∧ read u = some (nodes, n) ∧ draft' = ⟨n, draft.children ++ comments ++ nodes⟩ := by
  obtain ⟨⟨comments, u⟩, htrivia, h⟩ := Option.bind_eq_some_iff.1 h
  obtain ⟨⟨nodes, n⟩, hread, h⟩ := Option.bind_eq_some_iff.1 h
  cases h
  exact ⟨comments, u, nodes, n, htrivia, hread, rfl⟩

/-- A rule that takes a child continues if it does so behind the child. -/
theorem Continues.takeOf (hread : WeavesIf w pre q read read')
    (hpre : ∀ u r, upcoming? draft.cursor = some u → (draft.take read >>= k) = some r → pre u)
    (hfollow : follow.Within q.follow)
    (hk : ∀ comments u nodes next, Lexeme.AreComments comments → q.post u nodes next →
      draft.cursor.offset ≤ u.offset → u.offset < next.offset →
      Continues w p c0 follow (extra ++ q.extra nodes) AnyKinds
        ⟨next, draft.children ++ comments ++ nodes⟩ k k') :
    Continues w p c0 q.sight extra same draft (fun draft => draft.take read >>= k)
      (fun b draft => draft.take (read' b) >>= k' b) := by
  intro hbegun nodes n hsource
  obtain ⟨draft', htake, hrest⟩ := Option.bind_eq_some_iff.1 hsource
  obtain ⟨comments, u, new, next, htrivia, hnew, rfl⟩ := take_eq_some htake
  obtain ⟨gap, hgap⟩ := exists_gap hbegun.solid htrivia
  have hu : upcoming? draft.cursor = some u := by rw [upcoming?, htrivia]; rfl
  obtain ⟨hpost, front, hfront⟩ := hread u new next hgap.landed (hpre u _ hu hsource) hnew
  have hpass := hgap.passes.trans hfront.passes
  have hbegun' : Begun c0 ⟨next, draft.children ++ comments ++ new⟩ := by
    rw [List.append_assoc]
    exact hbegun.take hpass _
  have hlt : u.offset < next.offset :=
    (show Solid u from hgap.landed.solid).lt hfront.passes hfront.nonempty
  obtain ⟨hp, hbegins, back, hback⟩ :=
    hk comments u new next hgap.areComments hpost hgap.passes.le hlt hbegun' nodes n hrest
  refine ⟨hp, hbegins, bare gap ++ (front ++ back), ?_, ?_, ?_, ?_, ?_, ?_⟩
  · simpa using hpass.trans hback.passes
  · exact hfront.first gap back
  · exact Outline.isTidy_append (Outline.isTidy_bare gap)
      (Outline.isTidy_append hfront.tidy hback.tidy)
  · have hplaces := hback.places
    refine List.Perm.trans ?_ hplaces
    have hoffset : next.offset = draft.cursor.offset + width gap + width (plain front) := by
      rw [hfront.passes.offset, hgap.passes.offset]
    have hu : u.offset = draft.cursor.offset + width gap := hgap.passes.offset
    simp only [Outline.places_append, Outline.places_bare, plain_bare, List.nil_append, hoffset,
      placesIn_append, placesIn_comments hgap.areComments, List.append_nil, ← hu]
    have hperm := hfront.places
    -- The sites of the child come in front of those behind it.
    have hmove : (placesIn false draft.children ++ front.places u.offset).Perm
        (q.extra new ++ (placesIn false draft.children ++ placesIn false new)) := by
      refine (hperm.append_left _).trans ?_
      rw [← List.append_assoc, ← List.append_assoc]
      exact List.perm_append_comm.append_right _
    simpa only [List.append_assoc] using
      (hmove.append_left extra).append_right
        (back.places (u.offset + width (plain front)))
  · intro j l hj hgoes hl
    rw [← List.append_assoc] at hgoes
    obtain ⟨m, hjm, hml⟩ := Joint.goes_append.1 hgoes
    have hm : m.source = next := hjm.source_eq hj (by simpa using hpass)
    have hready := (hback.ready m l hm hml hl).mono hfollow
    exact hgap.ready hfront hj hjm hready
  · intro j l hj hgoes hl b hb children' halike _
    rw [← List.append_assoc] at hgoes
    obtain ⟨m, hjm, hml⟩ := Joint.goes_append.1 hgoes
    have hm : m.source = next := hjm.source_eq hj (by simpa using hpass)
    have hready := (hback.ready m l hm hml hl).mono hfollow
    obtain ⟨i, comments', hi, him, -, htrivia', hcomments'⟩ := hgap.front hfront hj hjm hready
    simp only [Outline.count_append, Outline.count_bare] at hb
    obtain ⟨new', hnew', halike', -⟩ := hfront.reads i m hi him hready b (by omega)
    obtain ⟨nodes', hnodes', hresult⟩ := hback.reads m l hm hml hl b (by omega)
      (children' ++ comments' ++ new')
      (halike.take hcomments' hgap.areComments halike'.trees) trivial
    refine ⟨nodes', ?_, hresult⟩
    rw [List.append_assoc] at hnodes'
    simp [Draft.take, htrivia', hnew', hnodes']

theorem Continues.take (hread : Weaves w q read read')
    (hfollow : follow.Within q.follow)
    (hk : ∀ comments u nodes next, Lexeme.AreComments comments → q.post u nodes next →
      draft.cursor.offset ≤ u.offset → u.offset < next.offset →
      Continues w p c0 follow (extra ++ q.extra nodes) AnyKinds
        ⟨next, draft.children ++ comments ++ nodes⟩ k k') :
    Continues w p c0 q.sight extra same draft (fun draft => draft.take read >>= k)
      (fun b draft => draft.take (read' b) >>= k' b) :=
  .takeOf hread (fun _ _ _ _ => trivial) hfollow hk

/-- A rule that starts with a child weaves if it continues behind the child. -/
theorem WeavesIf.start (hread : WeavesIf w pre q read read')
    (hfollow : follow.Within q.follow) (hlead : p.lead = q.lead)
    (hblunt : p.blunt = true → q.blunt = true)
    (hk : ∀ c nodes next, pre c → q.post c nodes next → c.offset < next.offset →
      Continues w p c follow (q.extra nodes) q.same ⟨next, nodes⟩ k k') :
    WeavesIf w pre p (fun c => (Draft.start c).take read >>= k)
      (fun b c => (Draft.start c).take (read' b) >>= k' b) := by
  intro c nodes n hc hpre hsource
  obtain ⟨draft', htake, hrest⟩ := Option.bind_eq_some_iff.1 hsource
  obtain ⟨comments, u, new, next, htrivia, hnew, rfl⟩ := take_eq_some htake
  obtain ⟨rfl, rfl⟩ : [] = comments ∧ c = u := by
    simpa [Draft.start, hc.trivia?] using htrivia
  obtain ⟨hpost, front, hfront⟩ := hread c new next hc hpre hnew
  have hbegun : Begun c ⟨next, new⟩ := ⟨hfront.begins, (show Solid c from hc.solid).passes hfront.passes⟩
  have hlt : c.offset < next.offset :=
    (show Solid c from hc.solid).lt hfront.passes hfront.nonempty
  obtain ⟨hp, hbegins, back, hback⟩ := hk c new next hpre hpost hlt hbegun nodes n hrest
  have hready {j l m : Joint w} (hj : j.source = c) (hjm : j.Goes front m) (hml : m.Goes back l)
      (hl : l.Ready p.follow) : m.source = next ∧ m.Ready q.follow := by
    have hm : m.source = next := hjm.source_eq hj (by simpa using hfront.passes)
    exact ⟨hm, (hback.ready m l hm hml hl).mono hfollow⟩
  refine ⟨hp, front ++ back, ?_, ?_, ?_, ?_, ?_, hbegins, fun h => hfront.blunt (hblunt h), ?_, ?_⟩
  · simpa using hfront.passes.trans hback.passes
  · simp [hfront.nonempty]
  · rw [hlead]
    exact hfront.leads.append back
  · exact Outline.isTidy_append hfront.tidy hback.tidy
  · refine List.Perm.trans ?_ hback.places
    rw [Outline.places_append, ← hfront.passes.offset]
    exact hfront.places.append_right _
  · intro j l hj hgoes hl
    obtain ⟨m, hjm, hml⟩ := Joint.goes_append.1 hgoes
    rw [Manner.sight, hlead]
    exact hfront.starts j m hj hjm (hready hj hjm hml hl).2
  · intro j l hj hgoes hl b hb
    obtain ⟨m, hjm, hml⟩ := Joint.goes_append.1 hgoes
    obtain ⟨hm, hmready⟩ := hready hj hjm hml hl
    rw [Outline.count_append] at hb
    have htrivia' : Lexeme.trivia? j.entry = some ([], j.entry) := by
      have hstarts := hfront.starts j m hj hjm hmready
      exact trivia?_of_lands hstarts.lands hstarts.comment
    obtain ⟨new', hnew', halike', hsame⟩ := hfront.reads j m hj hjm hmready b (by omega)
    obtain ⟨nodes', hnodes', hresult⟩ := hback.reads m l hm hml hl b (by omega) new' halike' hsame
    refine ⟨nodes', ?_, hresult⟩
    simp [Draft.take, Draft.start, htrivia', hnew', hnodes']

theorem Weaves.start (hread : Weaves w q read read')
    (hfollow : follow.Within q.follow) (hlead : p.lead = q.lead)
    (hblunt : p.blunt = true → q.blunt = true)
    (hk : ∀ c nodes next, q.post c nodes next → c.offset < next.offset →
      Continues w p c follow (q.extra nodes) q.same ⟨next, nodes⟩ k k') :
    Weaves w p (fun c => (Draft.start c).take read >>= k)
      (fun b c => (Draft.start c).take (read' b) >>= k' b) :=
  WeavesIf.start hread hfollow hlead hblunt fun c nodes next _ => hk c nodes next

/-! ## Tests -/

/-- A test that fails in the source fails in the result, at its lexeme and at the sites that may
stand in front of it. -/
structure Fails (w : Writing) (slots : List Site.Slot) (test : Cursor → Bool) : Prop where
  intact : ∀ j : Joint w, j.Intact → test j.source = false → test j.woven = false
  mark : ∀ (j : Joint w) s rest, j.pieces = .mark s :: rest → s.slot ∈ slots → test j.entry = false

theorem Fails.ready {sight : Sight} {test : Cursor → Bool} (h : Fails w sight.slots test)
    {j : Joint w} (hj : j.Ready sight) (hsource : upcoming? j.source = some u)
    (hu : test u = false) : ∃ e, upcoming? j.woven = some e ∧ test e = false := by
  obtain ⟨l, hl, ⟨hsource', hintact, -⟩ | ⟨s, rest, hpieces, hslot⟩⟩ := hj
  · obtain rfl : u = l.source := by simpa [hsource] using hsource'
    exact ⟨_, hl, by rw [hintact.entry]; exact h.intact l hintact hu⟩
  · exact ⟨_, hl, h.mark l s rest hpieces hslot⟩

/-- A test that holds in the source holds in the result, if what is tested for is read there. -/
structure Holds (w : Writing) (slots : List Site.Slot) (test : Cursor → Bool)
    (read' : Nat → Reader) : Prop where
  intact : ∀ (j : Joint w) b nodes n, j.Intact → test j.source = true →
    read' b j.woven = some (nodes, n) → test j.woven = true
  mark : ∀ (j : Joint w) s rest b nodes n, j.pieces = .mark s :: rest → s.slot ∈ slots →
    read' b j.entry = some (nodes, n) → test j.entry = true

theorem Holds.of_reads {slots : List Site.Slot} {test : Cursor → Bool}
    (h : ∀ b e nodes n, read' b e = some (nodes, n) → test e = true) : Holds w slots test read' :=
  ⟨fun _ b nodes n _ _ => h b _ nodes n, fun _ _ _ b nodes n _ _ => h b _ nodes n⟩

theorem Holds.ready {sight : Sight} {test : Cursor → Bool} {e n : Cursor} {b : Nat}
    (h : Holds w sight.slots test read') {j : Joint w} (hj : j.Ready sight)
    (hsource : upcoming? j.source = some u) (hu : test u = true)
    (he : upcoming? j.woven = some e) (hread : read' b e = some (nodes, n)) : test e = true := by
  obtain ⟨i, hi, ⟨hsource', hintact, -⟩ | ⟨s, rest, hpieces, hslot⟩⟩ := hj
  · obtain rfl : u = i.source := by simpa [hsource] using hsource'
    obtain rfl : e = i.entry := by simpa [he] using hi
    rw [hintact.entry] at hread ⊢
    exact h.intact i b nodes n hintact hu hread
  · obtain rfl : e = i.entry := by simpa [he] using hi
    exact h.mark i s rest b nodes n hpieces hslot hread

/-- A test of the children that are there, and of the next lexeme. -/
theorem Continues.takeIfOf {t : List Node → Cursor → Bool} (hread : Weaves w q read read')
    (hsame : ∀ children', same children' draft.children → t children' = t draft.children)
    (hfails : Fails w follow.slots (t draft.children))
    (hholds : Holds w q.sight.slots (t draft.children) read')
    (hfollow : follow.Within q.follow)
    (hskip : Continues w p c0 follow extra same draft k k')
    (htake : ∀ comments u nodes next, Lexeme.AreComments comments → q.post u nodes next →
      draft.cursor.offset ≤ u.offset → u.offset < next.offset →
      Continues w p c0 follow (extra ++ q.extra nodes) AnyKinds
        ⟨next, draft.children ++ comments ++ nodes⟩ k k') :
    Continues w p c0 (q.sight.or follow) extra same draft
      (fun draft => draft.takeIf (t draft.children) read >>= k)
      (fun b draft => draft.takeIf (t draft.children) (read' b) >>= k' b) := by
  intro hbegun nodes n hsource
  obtain ⟨draft', htaken, hrest⟩ := Option.bind_eq_some_iff.1 hsource
  obtain ⟨u, hu, htaken⟩ := Option.bind_eq_some_iff.1 htaken
  by_cases hcalled : t draft.children u = true
  · rw [if_pos hcalled] at htaken
    -- What is read is taken as if it were not tested for.
    have hwhole : Continues w p c0 q.sight extra same draft (fun draft => draft.take read >>= k)
        (fun b draft => draft.take (read' b) >>= k' b) := .take hread hfollow htake
    obtain ⟨hp, hbegins, outline, hresumes⟩ := hwhole hbegun nodes n
      (Option.bind_eq_some_iff.2 ⟨draft', htaken, hrest⟩)
    obtain ⟨comments, u', new, next, htrivia, hnew, -⟩ := take_eq_some htaken
    obtain rfl : u = u' := by
      rw [upcoming?, htrivia] at hu
      exact (Option.some.inj hu).symm
    refine ⟨hp, hbegins, outline, hresumes.passes,
      fun slot rest h => List.mem_append_left _ (hresumes.first slot rest h), hresumes.tidy,
      hresumes.places,
      fun j l hj hgoes hl => (hresumes.ready j l hj hgoes hl).mono (Sight.within_or_left _ _), ?_⟩
    intro j l hj hgoes hl b hb children' halike hkinds
    obtain ⟨nodes', hnodes', hresult⟩ := hresumes.reads j l hj hgoes hl b hb children' halike hkinds
    refine ⟨nodes', ?_, hresult⟩
    obtain ⟨draft'', htaken', hrest'⟩ := Option.bind_eq_some_iff.1 hnodes'
    obtain ⟨comments', e, new', next', htrivia', hnew', -⟩ := take_eq_some htaken'
    have hupcoming : upcoming? j.woven = some e := Option.map_eq_some_iff.2 ⟨_, htrivia', rfl⟩
    have he := hholds.ready (hresumes.ready j l hj hgoes hl) (by rw [hj]; exact hu) hcalled
      hupcoming hnew'
    simp [Draft.takeIf, hupcoming, hsame children' hkinds, he, htaken', hrest']
  · rw [if_neg hcalled] at htaken
    cases htaken
    obtain ⟨hp, hbegins, outline, hresumes⟩ := hskip hbegun nodes n hrest
    refine ⟨hp, hbegins, outline, hresumes.passes,
      fun slot rest h => List.mem_append_right _ (hresumes.first slot rest h), hresumes.tidy,
      hresumes.places,
      fun j l hj hgoes hl => (hresumes.ready j l hj hgoes hl).mono (Sight.within_or_right _ _), ?_⟩
    intro j l hj hgoes hl b hb children' halike hkinds
    obtain ⟨nodes', hnodes', hresult⟩ := hresumes.reads j l hj hgoes hl b hb children' halike hkinds
    refine ⟨nodes', ?_, hresult⟩
    obtain ⟨e, hupcoming, he⟩ := hfails.ready (hresumes.ready j l hj hgoes hl) (by rw [hj]; exact hu)
      (Bool.eq_false_iff.2 hcalled)
    simp [Draft.takeIf, hupcoming, hsame children' hkinds, he, hnodes']

theorem Continues.takeIf {test : Cursor → Bool} (hread : Weaves w q read read')
    (hfails : Fails w follow.slots test) (hholds : Holds w q.sight.slots test read')
    (hfollow : follow.Within q.follow)
    (hskip : Continues w p c0 follow extra same draft k k')
    (htake : ∀ comments u nodes next, Lexeme.AreComments comments → q.post u nodes next →
      draft.cursor.offset ≤ u.offset → u.offset < next.offset →
      Continues w p c0 follow (extra ++ q.extra nodes) AnyKinds
        ⟨next, draft.children ++ comments ++ nodes⟩ k k') :
    Continues w p c0 (q.sight.or follow) extra same draft
      (fun draft => draft.takeIf test read >>= k)
      (fun b draft => draft.takeIf test (read' b) >>= k' b) :=
  Continues.takeIfOf (t := fun _ => test) hread (fun _ _ => rfl) hfails hholds hfollow hskip htake

/-- A child that nothing calls for is not read. -/
theorem Continues.skip {test : Cursor → Bool} (htest : ∀ u, test u = false) {other : Nat → Reader}
    (hk : Continues w p c0 follow extra same draft k k') :
    Continues w p c0 follow extra same draft (fun draft => draft.takeIf test read >>= k)
      (fun b draft => draft.takeIf test (other b) >>= k' b) := by
  have hskip {draft' : Draft} {u : Cursor} {read : Reader} (hu : upcoming? draft'.cursor = some u) :
      draft'.takeIf test read = some draft' := by
    simp [Draft.takeIf, hu, htest]
  intro hbegun nodes n hsource
  obtain ⟨draft', htaken, hrest⟩ := Option.bind_eq_some_iff.1 hsource
  obtain ⟨u, hu, -⟩ := Option.bind_eq_some_iff.1 htaken
  rw [hskip hu] at htaken
  cases htaken
  obtain ⟨hp, hbegins, outline, hresumes⟩ := hk hbegun nodes n hrest
  refine ⟨hp, hbegins, outline, hresumes.passes, hresumes.first, hresumes.tidy, hresumes.places,
    hresumes.ready, ?_⟩
  intro j l hj hgoes hl b hb children' halike hkinds
  obtain ⟨nodes', hnodes', hresult⟩ := hresumes.reads j l hj hgoes hl b hb children' halike hkinds
  obtain ⟨i, hi, -⟩ := hresumes.ready j l hj hgoes hl
  exact ⟨nodes', by rw [hskip hi]; exact hnodes', hresult⟩

/-- A rule may go on in two ways, which the next lexeme tells apart. -/
theorem Continues.branch {test : Cursor → Bool} {leadA leadB : Sight} {kA kB : Draft → Read}
    {kA' kB' : Nat → Draft → Read} (hfails : Fails w leadB.slots test)
    (hholds : Holds w leadA.slots test read')
    (hA : (∀ u, upcoming? draft.cursor = some u → test u = true) →
      Continues w p c0 leadA extra same draft (fun draft => draft.take read >>= kA)
        (fun b draft => draft.take (read' b) >>= kA' b))
    (hB : (∀ u, upcoming? draft.cursor = some u → test u = false) →
      Continues w p c0 leadB extra same draft kB kB') :
    Continues w p c0 (leadA.or leadB) extra same draft
      (fun draft => upcoming? draft.cursor >>= fun u =>
        if test u then draft.take read >>= kA else kB draft)
      (fun b draft => upcoming? draft.cursor >>= fun u =>
        if test u then draft.take (read' b) >>= kA' b else kB' b draft) := by
  intro hbegun nodes n hsource
  obtain ⟨u, hu, hrest⟩ := Option.bind_eq_some_iff.1 hsource
  by_cases htest : test u = true
  · rw [if_pos htest] at hrest
    obtain ⟨hp, hbegins, outline, hresumes⟩ := hA (fun u' hu' => by
      rwa [← Option.some.inj (hu.symm.trans hu')]) hbegun nodes n hrest
    refine ⟨hp, hbegins, outline, hresumes.passes,
      fun slot rest h => List.mem_append_left _ (hresumes.first slot rest h), hresumes.tidy,
      hresumes.places,
      fun j l hj hgoes hl => (hresumes.ready j l hj hgoes hl).mono (Sight.within_or_left _ _), ?_⟩
    intro j l hj hgoes hl b hb children' halike hkinds
    obtain ⟨nodes', hnodes', hresult⟩ := hresumes.reads j l hj hgoes hl b hb children' halike hkinds
    refine ⟨nodes', ?_, hresult⟩
    obtain ⟨draft', htaken, -⟩ := Option.bind_eq_some_iff.1 hnodes'
    obtain ⟨comments', e, new', next', htrivia', hnew', -⟩ := take_eq_some htaken
    have hupcoming : upcoming? j.woven = some e := Option.map_eq_some_iff.2 ⟨_, htrivia', rfl⟩
    have he := hholds.ready (hresumes.ready j l hj hgoes hl) (by rw [hj]; exact hu) htest
      hupcoming hnew'
    simpa [hupcoming, he] using hnodes'
  · rw [if_neg htest] at hrest
    obtain ⟨hp, hbegins, outline, hresumes⟩ := hB (fun u' hu' => by
      rw [← Option.some.inj (hu.symm.trans hu')]
      exact Bool.eq_false_iff.2 htest) hbegun nodes n hrest
    refine ⟨hp, hbegins, outline, hresumes.passes,
      fun slot rest h => List.mem_append_right _ (hresumes.first slot rest h), hresumes.tidy,
      hresumes.places,
      fun j l hj hgoes hl => (hresumes.ready j l hj hgoes hl).mono (Sight.within_or_right _ _), ?_⟩
    intro j l hj hgoes hl b hb children' halike hkinds
    obtain ⟨nodes', hnodes', hresult⟩ := hresumes.reads j l hj hgoes hl b hb children' halike hkinds
    refine ⟨nodes', ?_, hresult⟩
    obtain ⟨e, hupcoming, he⟩ := hfails.ready (hresumes.ready j l hj hgoes hl) (by rw [hj]; exact hu)
      (Bool.eq_false_iff.2 htest)
    simpa [hupcoming, he] using hnodes'

/-- A test that holds in the source holds in the result where a reader reads. -/
def Tells (w : Writing) (q : Manner) (test : Cursor → Bool) (read' : Nat → Reader) : Prop :=
  ∀ (j l : Joint w) b nodes, j.Starts (· ∈ q.sight.slots) → l.Ready q.follow →
    test j.source = true → read' b j.entry = some (nodes, l.woven) → test j.entry = true

theorem Holds.tells {test : Cursor → Bool} (h : Holds w q.sight.slots test read') :
    Tells w q test read' := by
  rintro j l b nodes (hintact | ⟨⟨s, rest, hpieces, hslot⟩, -⟩) _ htest hread
  · rw [hintact.entry] at hread ⊢
    exact h.intact j b _ _ hintact htest hread
  · exact h.mark j s rest b _ _ hpieces hslot hread

theorem Fails.holds {slots : List Site.Slot} {test : Cursor → Bool} (h : Fails w slots test) :
    Holds w slots (fun c => !test c) read' where
  intact j _ _ _ hintact htest _ := by
    rw [Bool.not_eq_true'] at htest ⊢
    exact h.intact j hintact htest
  mark j s rest _ _ _ hpieces hslot _ := by
    rw [Bool.not_eq_true']
    exact h.mark j s rest hpieces hslot

/-- A rule may be one of two, which the next lexeme tells apart. -/
theorem WeavesIf.ite {test : Cursor → Bool} {readA readB : Reader} {readA' readB' : Nat → Reader}
    (htells : Tells w q test readA') (htells' : Tells w q (fun c => !test c) readB')
    (hA : WeavesIf w (fun c => pre c ∧ test c = true) q readA readA')
    (hB : WeavesIf w (fun c => pre c ∧ test c = false) q readB readB') :
    WeavesIf w pre q (fun c => if test c then readA c else readB c)
      (fun b c => if test c then readA' b c else readB' b c) := by
  intro c nodes n hc hpre hsource
  dsimp only at hsource
  by_cases htest : test c = true
  · rw [if_pos htest] at hsource
    obtain ⟨hp, outline, hreads⟩ := hA c nodes n hc ⟨hpre, htest⟩ hsource
    refine ⟨hp, outline, hreads.passes, hreads.nonempty, hreads.leads, hreads.tidy, hreads.places,
      hreads.begins, hreads.blunt, hreads.starts, fun j l hj hgoes hl b hb => ?_⟩
    obtain ⟨nodes', hnodes', hresult⟩ := hreads.reads j l hj hgoes hl b hb
    have he := htells j l b nodes' (hreads.starts j l hj hgoes hl) hl (by rw [hj]; exact htest) hnodes'
    exact ⟨nodes', by rw [if_pos he, hnodes'], hresult⟩
  · rw [if_neg htest] at hsource
    obtain ⟨hp, outline, hreads⟩ := hB c nodes n hc ⟨hpre, Bool.eq_false_iff.2 htest⟩ hsource
    refine ⟨hp, outline, hreads.passes, hreads.nonempty, hreads.leads, hreads.tidy, hreads.places,
      hreads.begins, hreads.blunt, hreads.starts, fun j l hj hgoes hl b hb => ?_⟩
    obtain ⟨nodes', hnodes', hresult⟩ := hreads.reads j l hj hgoes hl b hb
    have he := htells' j l b nodes' (hreads.starts j l hj hgoes hl) hl (by simp [hj, htest]) hnodes'
    rw [Bool.not_eq_true'] at he
    exact ⟨nodes', by rw [he, if_neg Bool.false_ne_true, hnodes'], hresult⟩

/-! ## Tests of a lexeme -/

/-- A test of the lexeme of the source, in front of which no site may stand. -/
theorem tells_of_intact {test : Cursor → Bool} (hlead : q.lead = none)
    (h : ∀ j : Joint w, j.Intact → test j.woven = test j.source) : Tells w q test read' := by
  intro j l b nodes hstarts _ htest _
  rw [Manner.sight, hlead] at hstarts
  have hintact := hstarts.intact
  rw [hintact.entry, h j hintact, htest]

theorem fails_of_intact {slots : List Site.Slot} {test : Cursor → Bool}
    (h : ∀ j : Joint w, j.Intact → test j.woven = test j.source)
    (hmark : ∀ slot c, slot ∈ slots → Joint.Front w slot c → test c = false) :
    Fails w slots test :=
  ⟨fun j hintact htest => by rw [h j hintact, htest],
    fun _ s _ hpieces hslot => hmark s.slot _ hslot (Joint.entry_mark hpieces)⟩

theorem holds_of_intact {test : Cursor → Bool}
    (h : ∀ j : Joint w, j.Intact → test j.woven = test j.source) : Holds w [] test read' :=
  ⟨fun j _ _ _ hintact htest _ => by rw [h j hintact, htest], fun _ _ _ _ _ _ _ hslot => by cases hslot⟩

/-- A mark is seen in the result only if it is in the source. -/
theorem fails_sees {slots : List Site.Slot} {text : String} {t : Char} {more : List Char}
    (htext : text.toList = t :: more) (hplain : IsPlain text)
    (ht : Dialect.lua.isNameStart t = false) : Fails w slots (Cursor.sees text) := by
  have ht' : t ≠ ')' := (hplain t (by rw [htext]; exact List.mem_cons_self)).2
  refine ⟨fun j _ hsource => ?_, fun j s rest hpieces _ =>
    (Joint.entry_mark hpieces).sees _ htext ⟨ht', ht⟩⟩
  rw [Cursor.sees, Option.isSome_eq_false_iff, Option.isNone_iff_eq_none] at hsource ⊢
  exact (exact_text? _ hplain).tracks.shy _ _ _ j.woven_rest hsource

theorem mark_sees {text : String} {e n : Cursor} {nodes : List Node}
    (h : mark text e = some (nodes, n)) : e.sees text = true := by
  obtain ⟨next, hnext, -⟩ := Option.map_eq_some_iff.1 h
  rw [Cursor.sees, hnext]
  rfl

/-- A mark of one character that does not come next does not come next in the result, nor at the text
of a site. -/
theorem holds_not_sees {text : String} {t : Char} {slots : List Site.Slot} (htext : text.toList = [t])
    (ht : Dialect.lua.isNameStart t = false) (hslots : .closer ∉ slots) :
    Holds w slots (fun c => !c.sees text) read' where
  intact j _ _ _ hintact htest _ := by rwa [hintact.sees _ htext]
  mark j s rest _ _ _ hpieces hslot _ := by
    have hfront := Joint.entry_mark hpieces
    have hname : ∃ ch, j.entry.char? = some ch ∧ Dialect.lua.isNameStart ch = true := by
      obtain ⟨next, hnext⟩ := hfront.word? fun h => hslots (h ▸ hslot)
      have hword : (Lexeme.word? .lua j.entry).isSome = true := by rw [hnext]; rfl
      cases hchar : j.entry.char? with
      | none => simp [Lexeme.word?, hchar] at hword
      | some ch =>
        refine ⟨ch, rfl, ?_⟩
        by_contra hstart
        simp [Lexeme.word?, hchar, hstart] at hword
    obtain ⟨ch, hch, hstart⟩ := hname
    rw [sees_eq_false _ htext (by
      rw [hch]
      rintro heq
      cases heq
      rw [ht] at hstart
      cases hstart)]
    rfl

/-- In front of a lexeme of the source a mark of one character stays. -/
theorem fails_not_sees {text : String} {t : Char} (htext : text.toList = [t]) :
    Fails w [] fun c => !c.sees text :=
  ⟨fun j hintact htest => by rwa [hintact.sees _ htext], fun _ _ _ _ hslot => by cases hslot⟩

/-! ## The end of a rule -/

/-- A rule may be told otherwise. -/
theorem Continues.congr {kk : Draft → Read} {kk' : Nat → Draft → Read}
    (h : Continues w p c0 lead extra same draft k k') (hk : kk draft = k draft)
    (hk' : ∀ b cursor children', same children' draft.children →
      kk' b ⟨cursor, children'⟩ = k' b ⟨cursor, children'⟩) :
    Continues w p c0 lead extra same draft kk kk' := fun hbegun nodes n hsource => by
  obtain ⟨hp, hbegins, outline, hresumes⟩ := h hbegun nodes n (hk ▸ hsource)
  refine ⟨hp, hbegins, outline, hresumes.passes, hresumes.first, hresumes.tidy, hresumes.places,
    hresumes.ready, fun j l hj hgoes hl b hb children' halike hkinds => ?_⟩
  obtain ⟨nodes', hnodes', hresult⟩ := hresumes.reads j l hj hgoes hl b hb children' halike hkinds
  exact ⟨nodes', (hk' b _ _ hkinds).trans hnodes', hresult⟩

theorem Continues.mono {lead' : Sight} (h : Continues w p c0 lead extra same draft k k')
    (hlead : lead.Within lead') :
    Continues w p c0 lead' extra same draft k k' := fun hbegun nodes n hsource => by
  obtain ⟨hp, hbegins, outline, hresumes⟩ := h hbegun nodes n hsource
  exact ⟨hp, hbegins, outline, hresumes.passes, fun slot rest h => hlead.1 _ (hresumes.first slot rest h),
    hresumes.tidy, hresumes.places,
    fun j l hj hgoes hl => (hresumes.ready j l hj hgoes hl).mono hlead, hresumes.reads⟩

/-- At the end a rule gives what it has made of the draft. -/
theorem Continues.result {result : Draft → List Node}
    (hpost : Begun c0 draft → p.post c0 (result draft) draft.cursor ∧ Begins c0 (result draft))
    (hplaces : (extra ++ placesIn false draft.children).Perm
      (p.extra (result draft) ++ placesIn false (result draft)))
    (hresult : ∀ draft' : Draft, Alike w draft'.children draft.children →
      same draft'.children draft.children →
      Alike w (result draft') (result draft) ∧ p.same (result draft') (result draft)) :
    Continues w p c0 p.follow extra same draft (fun draft => some (result draft, draft.cursor))
      (fun _ draft => some (result draft, draft.cursor)) := by
  intro hbegun nodes n hsource
  cases hsource
  obtain ⟨hp, hbegins⟩ := hpost hbegun
  refine ⟨hp, hbegins, [], .refl _, nofun, rfl, by simpa [Outline.places] using hplaces, ?_, ?_⟩
  · intro j l hj hgoes hl
    rwa [← Joint.goes_nil.1 hgoes]
  · intro j l hj hgoes hl b hb children' halike hsame
    rw [Joint.goes_nil.1 hgoes]
    exact ⟨_, rfl, hresult ⟨j.woven, children'⟩ halike hsame⟩

theorem isWalked_of_spans {role : Option Role} (h : Spans role c nodes n) (x : Node)
    (hx : x ∈ nodes) : isWalked x = true := by
  obtain ⟨x', rfl, -, -, -, hkind⟩ := h
  rw [List.mem_singleton.1 hx]
  exact isWalked_of_isOrdinary hkind

theorem Begun.spans {kind : NodeKind} (h : Begun c0 draft) (hkind : isOrdinary kind = true) :
    Spans none c0 [draft.toNode kind] draft.cursor :=
  ⟨_, rfl, h.first, rfl, rfl, hkind⟩

/-- The places of a node that is made of a draft. -/
theorem placesIn_toNode {kind : NodeKind} (hwalked : isWalked (draft.toNode kind) = true)
    (hblock : (kind == .chunk || kind == .block) = false)
    (hextra : extra.Perm (ownPlaces (draft.toNode kind))) :
    (extra ++ placesIn false draft.children).Perm (placesIn false [draft.toNode kind]) := by
  have hplaces : places (draft.toNode kind)
      = ownPlaces (draft.toNode kind) ++ placesIn false draft.children := by
    rw [Draft.toNode, places, hblock]
  simpa [placesIn_cons, hwalked, hplaces] using hextra.append_right _

theorem placesIn_of_isOrdinary {kind : NodeKind} (hkind : isOrdinary kind = true)
    (hextra : extra.Perm (ownPlaces (draft.toNode kind))) :
    (extra ++ placesIn false draft.children).Perm (placesIn false [draft.toNode kind]) :=
  placesIn_toNode (isWalked_of_isOrdinary hkind)
    (by cases kind <;> first | rfl | cases hkind) hextra

theorem ownPlaces_toNode {kind : NodeKind} (h : isPlain kind = true) :
    ownPlaces (draft.toNode kind) = [] := by
  cases kind <;> first | rfl | cases h

theorem ne_comment_of_isOrdinary {kind : NodeKind} (h : isOrdinary kind = true) :
    kind ≠ .comment := by
  rintro rfl
  cases h

/-- A rule may end with a node of the draft. -/
theorem Continues.finishOf {kind : NodeKind} {sight : Option Site.Slot × Bool}
    (hkind : isOrdinary kind = true) (hextra : extra.Perm (ownPlaces (draft.toNode kind))) :
    Continues w (.node none sight follow) c0 follow extra same draft (Draft.finish kind)
      (fun _ => Draft.finish kind) :=
  .result (p := .node none sight follow) (fun hbegun => ⟨hbegun.spans hkind, _, [], rfl, hbegun.first⟩)
    (placesIn_of_isOrdinary hkind hextra)
    fun _ halike _ => ⟨halike.node (ne_comment_of_isOrdinary hkind) .., rfl⟩

theorem Continues.finish {kind : NodeKind} {sight : Option Site.Slot × Bool}
    (hkind : isOrdinary kind = true ∧ isPlain kind = true) :
    Continues w (.node none sight follow) c0 follow [] same draft (Draft.finish kind)
      (fun _ => Draft.finish kind) :=
  .finishOf hkind.1 (by rw [ownPlaces_toNode hkind.2])

/-- A rule may end with the children of the draft. -/
theorem Continues.spill {sight : Option Site.Slot × Bool} :
    Continues w (.list sight follow) c0 follow [] same draft Draft.spill (fun _ => Draft.spill) :=
  .result (p := .list sight follow) (fun hbegun => ⟨trivial, hbegun.begins⟩) (.refl _)
    fun _ halike _ => ⟨halike, trivial⟩

/-- A rule may end with a draft of one node. -/
theorem Continues.keep {sight : Option Site.Slot × Bool}
    (hspans : Spans none c0 draft.children draft.cursor) :
    Continues w (.node none sight follow) c0 follow [] SameKinds draft Draft.spill
      (fun _ => Draft.spill) :=
  .result (p := .node none sight follow) (fun hbegun => ⟨hspans, hbegun.begins⟩) (.refl _)
    fun _ halike hkinds => ⟨halike, hkinds⟩

/-- A rule may go on with a node of the draft as the first child of another. -/
theorem Continues.node {kind : NodeKind} (k : Draft → Read) (k' : Nat → Draft → Read)
    (hkind : isOrdinary kind = true ∧ isPlain kind = true)
    (h : Begun c0 draft → Continues w p c0 lead [] SameKinds
      (.ofNode (draft.toNode kind) draft.cursor) k k') :
    Continues w p c0 lead [] same draft
      (fun draft => k (.ofNode (draft.toNode kind) draft.cursor))
      (fun b draft => k' b (.ofNode (draft.toNode kind) draft.cursor)) := by
  intro hbegun nodes n hsource
  have hbegun' : Begun c0 (.ofNode (draft.toNode kind) draft.cursor) :=
    ⟨⟨_, [], rfl, hbegun.first⟩, hbegun.solid⟩
  obtain ⟨hp, hbegins, outline, hresumes⟩ := h hbegun hbegun' nodes n hsource
  refine ⟨hp, hbegins, outline, hresumes.passes, hresumes.first, hresumes.tidy, ?_, hresumes.ready, ?_⟩
  · refine List.Perm.trans ?_ hresumes.places
    have hown : ([] : List Spot).Perm (ownPlaces (draft.toNode kind)) := by
      rw [ownPlaces_toNode hkind.2]
    exact (placesIn_of_isOrdinary hkind.1 hown).append_right _
  · intro j l hj hgoes hl b hb children' halike _
    exact hresumes.reads j l hj hgoes hl b hb _
      (halike.node (ne_comment_of_isOrdinary hkind.1) ..) rfl

end LuaCoverage.Instrument
