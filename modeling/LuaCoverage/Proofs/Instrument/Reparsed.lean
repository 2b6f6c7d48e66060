import LuaCoverage.Proofs.Analysis.Depth
import LuaCoverage.Proofs.Analysis.Places
import LuaCoverage.Proofs.Instrument.Woven.Reader
import LuaCoverage.Proofs.Instrument.Woven.Sources
import Mathlib.Data.List.Pairwise

/-!
# Instrumented modules are read again

The sites of an analysis are sorted, and an outline is tidy; if both have the same places apart from
their order, they have them in the same order. So the marks of the outline can be filled with the
sites, and the pieces that come of it are the source with its texts written into it.

A module of Lua that is instrumented is still a module of Lua, and its tree is that of the source
with what was written into it: without the statements that count, the `else` arms that were added and
the calls around operands it is the tree of the source, comments apart.

Results:
* `map_ofSite_eq`: sorted sites have the places of a tidy outline in its order.
* `agrees_pieces`: pieces stand where they are written.
* `exists_reparsed`: the tree of a source that the texts of the sites are written into.
* `Instrumenter.instrument_reparsed`: instrumenting succeeds, and the result is read again.
-/

namespace LuaCoverage
open LuaCoverage.Lua LuaCoverage.Text LuaCoverage.Lua.Cursor LuaCoverage.Analysis

namespace Instrument

/-! ## The order of places -/

/-- A place may come in front of another: closers before all else, and else nothing but the same. -/
def InFront (a b : Spot) : Prop := a.1 < b.1 ∨ a.1 = b.1 ∧ (a.2 = .closer ∨ b.2 = a.2)

theorem InFront.antisymm {a b : Spot} (hab : InFront a b) (hba : InFront b a) : a = b := by
  rcases hab with hlt | ⟨heq, hab⟩
  · rcases hba with hlt' | ⟨heq', -⟩ <;> omega
  · rcases hba with hlt' | ⟨-, hba⟩
    · omega
    · refine Prod.ext heq ?_
      rcases hab with ha | hab
      · rcases hba with hb | hba
        · rw [ha, hb]
        · exact hba
      · exact hab.symm

theorem places_inFront {outline : Outline} (before : Option Site.Slot) (offset : Nat)
    (hbefore : before ≠ some .closer) (htidy : outline.isTidy before = true)
    (hsolid : ∀ g ∈ plain outline, 0 < g.width) :
    (outline.places offset).Pairwise InFront ∧ ∀ p ∈ outline.places offset,
      offset ≤ p.1 ∧ (p.1 = offset → ∀ slot, before = some slot → p.2 = slot) := by
  induction outline generalizing before offset with
  | nil => simp [Outline.places]
  | cons piece rest ih =>
    cases piece with
    | glyph g =>
      obtain ⟨hg, hrest⟩ := List.forall_mem_cons.1 hsolid
      obtain ⟨hpair, hbehind⟩ := ih none (offset + g.width) (by simp) htidy hrest
      refine ⟨hpair, fun p hp => ?_⟩
      have hle := (hbehind p hp).1
      exact ⟨by omega, fun heq => by omega⟩
    | mark slot =>
      simp only [Outline.isTidy, Bool.and_eq_true, Option.all_eq_true, beq_iff_eq] at htidy
      obtain ⟨hsame, htidy⟩ := htidy
      have hnext : (if slot = .closer then none else some slot) ≠ some Site.Slot.closer := by
        split
        · simp
        · next hslot => exact fun heq => hslot (Option.some.inj heq)
      obtain ⟨hpair, hbehind⟩ := ih _ offset hnext htidy hsolid
      rw [Outline.places]
      refine ⟨.cons (fun p hp => ?_) hpair, fun p hp => ?_⟩
      · obtain ⟨hle, hslot⟩ := hbehind p hp
        by_cases heq : p.1 = offset
        · refine .inr ⟨heq.symm, ?_⟩
          by_cases hcloser : slot = .closer
          · exact .inl hcloser
          · exact .inr (hslot heq slot (if_neg hcloser))
        · exact .inl (show offset < p.1 by omega)
      · rcases List.mem_cons.1 hp with rfl | hp
        · exact ⟨Nat.le_refl _, fun _ slot' hslot' => (hsame slot' hslot').symm⟩
        · obtain ⟨hle, hslot⟩ := hbehind p hp
          refine ⟨hle, fun heq slot' hslot' => ?_⟩
          obtain rfl := hsame slot' hslot'
          exact hslot heq slot' (if_neg fun hcloser => hbefore (hslot'.trans (congrArg some hcloser)))

theorem isCloser_iff {s : Site} : s.isCloser = true ↔ s.slot = .closer := by
  unfold Site.isCloser Site.slot
  cases s.style <;> decide

/-- Sites at one offset that are no closers come behind those that are. -/
theorem inFront_of_precedes {s t : Site} (h : s.precedes t = true)
    (hsame : s.offset = t.offset → s.slot ≠ .closer → t.slot ≠ .closer → t.slot = s.slot) :
    InFront (Spot.ofSite s) (Spot.ofSite t) := by
  simp only [Site.precedes, Bool.or_eq_true, Bool.and_eq_true, decide_eq_true_eq,
    beq_iff_eq] at h
  rcases h with hlt | ⟨heq, hrank⟩
  · exact .inl hlt
  · refine .inr ⟨heq, ?_⟩
    by_cases hs : s.slot = .closer
    · exact .inl hs
    · have hs' : s.isCloser = false := by rwa [← Bool.not_eq_true, isCloser_iff]
      have ht : t.slot ≠ .closer := by
        intro ht
        simp [Site.rank, hs', isCloser_iff.2 ht] at hrank
      exact .inr (hsame heq hs ht)

/-- Two places at one offset have the same slot, or one of them is a closer. -/
def IsOne (a b : Spot) : Prop := a.1 = b.1 → a.2 ≠ .closer → b.2 ≠ .closer → b.2 = a.2

instance : Std.Symm IsOne := ⟨fun _ _ h heq hb ha => (h heq.symm ha hb).symm⟩

theorem InFront.isOne {a b : Spot} (h : InFront a b) : IsOne a b := by
  intro heq ha _
  rcases h with hlt | ⟨-, h⟩
  · omega
  · exact h.resolve_left ha

/-- Sorted sites have the places of a tidy outline in its order. -/
theorem map_ofSite_eq {outline : Outline} {offset : Nat} {sites : List Site}
    (hsorted : sites.Pairwise fun s t => s.precedes t = true)
    (hperm : (sites.map Spot.ofSite).Perm (outline.places offset))
    (htidy : outline.isTidy none = true) (hsolid : ∀ g ∈ plain outline, 0 < g.width) :
    sites.map Spot.ofSite = outline.places offset := by
  obtain ⟨hpair, -⟩ := places_inFront none offset nofun htidy hsolid
  have hone : ∀ a ∈ outline.places offset, ∀ b ∈ outline.places offset, IsOne a b :=
    fun a ha b hb => (hpair.imp InFront.isOne).forall_of_forall (fun _ _ _ _ _ => rfl) ha hb
  have hmem {s : Site} (hs : s ∈ sites) : Spot.ofSite s ∈ outline.places offset :=
    hperm.mem_iff.1 (List.mem_map_of_mem hs)
  refine hperm.eq_of_pairwise (fun a b _ _ => InFront.antisymm) (List.pairwise_map.2 ?_) hpair
  exact hsorted.imp_of_mem fun hs ht h => inFront_of_precedes h (hone _ (hmem hs) _ (hmem ht))

/-! ## Pieces of a source -/

/-- The sites among pieces stand where their offsets say. -/
def IsSited : (offset : Nat) → List (Piece Site) → Prop
  | _, [] => True
  | offset, .glyph g :: rest => IsSited (offset + g.width) rest
  | offset, .mark s :: rest => s.offset = offset ∧ IsSited offset rest

/-- An outline may be filled with sites that have its places. -/
theorem exists_pieces {outline : Outline} {offset : Nat} {sites : List Site}
    (h : sites.map Spot.ofSite = outline.places offset) : ∃ pieces : List (Piece Site),
    pieces.map (.map Site.slot) = outline ∧ marksOf pieces = sites ∧ IsSited offset pieces := by
  induction outline generalizing offset sites with
  | nil =>
    obtain rfl := List.map_eq_nil_iff.1 h
    exact ⟨[], rfl, rfl, trivial⟩
  | cons piece rest ih =>
    cases piece with
    | glyph g =>
      obtain ⟨pieces, rfl, hmarks, hsited⟩ := ih h
      exact ⟨.glyph g :: pieces, rfl, hmarks, hsited⟩
    | mark slot =>
      obtain ⟨s, sites, rfl, hs, hsites⟩ := List.map_eq_cons_iff.1 h
      obtain ⟨pieces, rfl, rfl, hsited⟩ := ih hsites
      cases hs
      exact ⟨.mark s :: pieces, rfl, rfl, rfl, hsited⟩

theorem IsSited.le_offset {offset : Nat} {pieces : List (Piece Site)} (h : IsSited offset pieces) :
    ∀ s ∈ marksOf pieces, offset ≤ s.offset := by
  induction pieces generalizing offset with
  | nil => exact nofun
  | cons piece rest ih =>
    cases piece with
    | glyph g =>
      intro s hs
      have hle := ih h s hs
      omega
    | mark t =>
      intro s hs
      rcases List.mem_cons.1 hs with rfl | hs
      · exact Nat.le_of_eq h.1.symm
      · exact ih h.2 s hs

theorem IsSited.offset_le {offset : Nat} {pieces : List (Piece Site)} (h : IsSited offset pieces) :
    ∀ s ∈ marksOf pieces, s.offset ≤ offset + width (plain pieces) := by
  induction pieces generalizing offset with
  | nil => exact nofun
  | cons piece rest ih =>
    cases piece with
    | glyph g =>
      intro s hs
      rw [plain, width_cons, ← Nat.add_assoc]
      exact ih h s hs
    | mark t =>
      intro s hs
      rcases List.mem_cons.1 hs with rfl | hs
      · exact Nat.le_trans (Nat.le_of_eq h.1) (Nat.le_add_right ..)
      · exact ih h.2 s hs

/-- In front of all sites nothing is written. -/
theorem splice_of_le (render : Site → Bytes) (source : Bytes) {sites : List Site} {cursor k : Nat}
    (h : ∀ s ∈ sites, cursor + k ≤ s.offset) : splice render source cursor sites
      = (source.drop cursor).take k ++ splice render source (cursor + k) sites := by
  cases sites with
  | nil => rw [splice, splice, ← List.drop_drop, List.take_append_drop]
  | cons s rest =>
    have hle := h s List.mem_cons_self
    rw [splice, splice, ← List.append_assoc, ← List.append_assoc,
      ← drop_take_append source (Nat.le_add_right cursor k) hle, List.drop_take,
      Nat.add_sub_cancel_left]

/-- The texts of sites as glyphs and as bytes. -/
def Renders (w : Writing) (render : Site → Bytes) : Prop :=
  ∀ s, ∃ text, w.text s = text.map Glyph.ofChar ∧ render s = Utf8.encode text

theorem width_map_ofChar (text : List Char) :
    width (text.map Glyph.ofChar) = (Utf8.encode text).length := by
  induction text with
  | nil => rfl
  | cons c rest ih =>
    rw [List.map_cons, width_cons, ih, Utf8.encode, Utf8.encode, List.flatMap_cons,
      List.length_append]
    rfl

variable {w : Writing} {render : Site → Bytes}

theorem Renders.length (h : Renders w render) (s : Site) : (render s).length = width (w.text s) := by
  obtain ⟨text, htext, hrender⟩ := h s
  rw [htext, hrender, width_map_ofChar]

/-- What is written into a source is what its pieces spread to. -/
theorem splice_pieces (hrender : Renders w render) {source : Bytes} {offset : Nat}
    {pieces : List (Piece Site)} {text : List Char} (hsited : IsSited offset pieces)
    (hplain : plain pieces = text.map Glyph.ofChar) (hsource : source.drop offset = Utf8.encode text) :
    ∃ text', w.spread pieces = text'.map Glyph.ofChar
      ∧ splice render source offset (marksOf pieces) = Utf8.encode text' := by
  induction pieces generalizing offset text with
  | nil =>
    obtain rfl := List.map_eq_nil_iff.1 hplain.symm
    exact ⟨[], rfl, by rw [marksOf, splice, hsource]⟩
  | cons piece rest ih =>
    cases piece with
    | glyph g =>
      obtain ⟨c, text, rfl, rfl, hrest⟩ := List.map_eq_cons_iff.1 hplain.symm
      have hcons (text : List Char) :
          Utf8.encode (c :: text) = Utf8.encodeChar c ++ Utf8.encode text := List.flatMap_cons
      have hdrop : source.drop (offset + (Glyph.ofChar c).width) = Utf8.encode text := by
        rw [← List.drop_drop, hsource, hcons]
        exact List.drop_left
      obtain ⟨text', hspread, hsplice⟩ := ih hsited hrest.symm hdrop
      refine ⟨c :: text', by rw [Writing.spread, hspread]; rfl, ?_⟩
      have htake : (source.drop offset).take (Glyph.ofChar c).width = Utf8.encodeChar c := by
        rw [hsource, hcons]
        exact List.take_left
      have hle := (show IsSited (offset + (Glyph.ofChar c).width) rest from hsited).le_offset
      rw [marksOf, splice_of_le _ _ hle, hsplice, htake, hcons]
    | mark s =>
      obtain ⟨hs, hsited⟩ := hsited
      obtain ⟨text', hspread, hsplice⟩ := ih hsited hplain hsource
      obtain ⟨front, hfront, hbytes⟩ := hrender s
      refine ⟨front ++ text', by rw [Writing.spread, hspread, hfront, List.map_append], ?_⟩
      have hnone : (source.take s.offset).drop offset = [] := by
        rw [hs]
        exact List.drop_eq_nil_of_le (List.length_take_le ..)
      rw [marksOf, splice, hnone, hs, hsplice, hbytes, Utf8.encode_append, List.nil_append]

theorem le_insertions {k shift : Nat} {sites : List Site} {span : Span}
    (h : ∀ s ∈ sites, k ≤ s.offset) (hspan : span ∈ insertions render shift sites) :
    k + shift ≤ span.1 := by
  induction sites generalizing shift with
  | nil => cases hspan
  | cons s rest ih =>
    obtain ⟨hs, hrest⟩ := List.forall_mem_cons.1 h
    rcases List.mem_cons.1 hspan with rfl | hspan
    · dsimp only
      omega
    · have hle := ih hrest hspan
      omega

/-- Pieces stand where they are written. -/
theorem agrees_pieces (hrender : Renders w render) {offset : Nat} (shift : Nat)
    (earlier : List Span) {pieces : List (Piece Site)} (hsited : IsSited offset pieces)
    (hsolid : ∀ g ∈ plain pieces, 0 < g.width)
    (hlength : offset + width (plain pieces) ≤ w.source.length)
    (hresult : w.result.drop (offset + shift)
      = splice render w.source offset (marksOf pieces))
    (hwritten : w.written = earlier ++ insertions render shift (marksOf pieces))
    (hearlier : ∀ span ∈ earlier, span.2 ≤ offset + shift) :
    w.Agrees offset (offset + shift) pieces := by
  induction pieces generalizing offset shift earlier with
  | nil => trivial
  | cons piece rest ih =>
    cases piece with
    | glyph g =>
      obtain ⟨hg, hsolid⟩ := List.forall_mem_cons.1 hsolid
      have hle := (show IsSited (offset + g.width) rest from hsited).le_offset
      have hsplit := splice_of_le render w.source hle
      rw [plain, width_cons, ← Nat.add_assoc] at hlength
      have htake : ((w.source.drop offset).take g.width).length = g.width := by
        rw [List.length_take, List.length_drop]
        omega
      have hmove : offset + shift + g.width = offset + g.width + shift := by omega
      refine ⟨?_, ?_, ?_⟩
      · rw [hresult, marksOf, hsplit, List.take_append_of_le_length (Nat.le_of_eq htake.symm),
          List.take_of_length_le (Nat.le_of_eq htake)]
      · rw [isWritten, List.any_eq_false, hwritten]
        intro span hspan
        simp only [Bool.and_eq_true, decide_eq_true_eq, not_and]
        rcases List.mem_append.1 hspan with hspan | hspan
        · have hstop := hearlier span hspan
          omega
        · have hstart := le_insertions hle hspan
          omega
      · rw [hmove]
        refine ih _ _ hsited hsolid hlength ?_ hwritten fun span hspan => ?_
        · rw [← hmove, ← List.drop_drop, hresult, marksOf, hsplit,
            List.drop_append_of_le_length (Nat.le_of_eq htake.symm),
            List.drop_eq_nil_of_le (Nat.le_of_eq htake), List.nil_append]
        · have hstop := hearlier span hspan
          omega
    | mark s =>
      obtain ⟨hs, hsited⟩ := hsited
      have hwidth := hrender.length s
      have hmove : offset + shift + (render s).length = offset + (shift + (render s).length) :=
        Nat.add_assoc ..
      rw [marksOf, insertions, hs] at hwritten
      have hsplit : splice render w.source offset (marksOf (.mark s :: rest))
          = render s ++ splice render w.source offset (marksOf rest) := by
        have hnone : (w.source.take offset).drop offset = [] :=
          List.drop_eq_nil_of_le (List.length_take_le ..)
        rw [marksOf, splice, hs, hnone, List.nil_append]
      rw [Writing.Agrees, ← hwidth, hmove]
      refine ⟨?_, ih _ (earlier ++ [(offset + shift, offset + shift + (render s).length)])
        hsited hsolid hlength ?_ ?_ fun span hspan => ?_⟩
      · rw [hwritten, ← hmove]
        exact List.mem_append_right _ List.mem_cons_self
      · rw [← hmove, ← List.drop_drop, hresult, hsplit]
        exact List.drop_left
      · rw [hwritten, List.append_assoc]
        rfl
      · rcases List.mem_append.1 hspan with hspan | hspan
        · have hstop := hearlier span hspan
          omega
        · obtain rfl := List.mem_singleton.1 hspan
          exact Nat.le_of_eq hmove

/-! ## Sources of characters -/

/-- Over all its pieces a joint goes to its end. -/
theorem Joint.exists_end {w : Writing} (j : Joint w) :
    ∃ l : Joint w, j.Goes (j.pieces.map (.map Site.slot)) l ∧ l.pieces = [] :=
  ⟨⟨_, _, [], trivial⟩, ⟨j.pieces, rfl, (List.append_nil _).symm, rfl, rfl⟩, rfl⟩

theorem solid_before (offset : Nat) (text : List Char) : Solid (.before offset text) := fun g hg => by
  obtain ⟨c, -, rfl⟩ := List.mem_map.1 hg
  obtain ⟨b, tail, hencode, -⟩ := Utf8.part_encodeChar c
  simp [Glyph.ofChar, hencode]

/-- A source is read behind its byte order mark. Another text in its place is read from there, if
there is a mark or the text does not start with one. -/
theorem exists_front (text : List Char) : ∃ front rest, text = front ++ rest
    ∧ ofSource (Utf8.encode text) = .before (Utf8.encode front).length rest
    ∧ ∀ rest' : List Char, (rest.head? ≠ some '\ufeff' → rest'.head? ≠ some '\ufeff') →
      ofSource (Utf8.encode (front ++ rest')) = .before (Utf8.encode front).length rest' := by
  by_cases hmark : text.head? = some '\ufeff'
  · obtain ⟨rest, rfl⟩ := List.head?_eq_some_iff.1 hmark
    have hread (rest : List Char) : ofSource (Utf8.encode ('\ufeff' :: rest)) = .before 3 rest := by
      rw [ofSource, glyphs_encode]
      rfl
    exact ⟨['\ufeff'], rest, rfl, hread rest, fun rest' _ => hread rest'⟩
  · exact ⟨[], text, rfl, ofSource_encode hmark, fun rest' h => ofSource_encode (h hmark)⟩

/-- No text of a site starts with a byte order mark. -/
theorem head_spread {w : Writing} {pieces : List (Piece Site)} {text text' : List Char}
    (hplain : plain pieces = text.map Glyph.ofChar)
    (hspread : w.spread pieces = text'.map Glyph.ofChar) (h : text.head? ≠ some '\ufeff') :
    text'.head? ≠ some '\ufeff' := by
  have hwoven := w.woven_spread pieces
  rw [hplain, hspread] at hwoven
  intro hmark
  obtain ⟨more, rfl⟩ := List.head?_eq_some_iff.1 hmark
  rw [List.map_cons] at hwoven
  rcases hwoven.cases_head with ⟨-, hnil⟩ | ⟨g, front, front', hfront, hfront', -⟩ | hseam
  · cases hnil
  · obtain ⟨c, rest, rfl, hc, -⟩ := List.map_eq_cons_iff.1 hfront
    obtain rfl : g = Glyph.ofChar '\ufeff' := (List.cons.inj hfront').1.symm
    exact h (congrArg Glyph.char hc)
  · obtain ⟨g, front, hfront, hg⟩ := hseam
    obtain rfl : g = Glyph.ofChar '\ufeff' := (List.cons.inj hfront).1.symm
    rcases hg with hg | hg
    · exact absurd (congrArg Glyph.char hg) (by decide)
    · exact absurd (congrArg Glyph.char hg) (by decide)

end Instrument

namespace Instrumenter
open Instrument

/-- What is written into a module: the source and the result of an analysis. -/
def writing (i : Instrumenter) (a : Analysis) (hname : isName i.name.text.toList = true) : Writing :=
  ⟨i.name, a.map.path, a.source, i.bytes a, i.written a, hname⟩

section
variable {i : Instrumenter} {a : Analysis} (hname : isName i.name.text.toList = true)
  {pieces : List (Piece Site)} {front rest : List Char}

theorem renders_rendering : Renders (i.writing a hname) (i.rendering a) :=
  fun s => ⟨(Call.text i.name a.map.path s).toList, rfl, rfl⟩

/-- The pieces of a source, with the sites of an analysis among them. -/
structure IsOf (pieces : List (Piece Site)) (a : Analysis) (front rest : List Char) : Prop where
  source : a.source = Utf8.encode (front ++ rest)
  plain : plain pieces = rest.map Glyph.ofChar
  marks : marksOf pieces = a.sites
  sited : IsSited (Utf8.encode front).length pieces

theorem IsOf.drop (h : IsOf pieces a front rest) :
    a.source.drop (Utf8.encode front).length = Utf8.encode rest := by
  rw [h.source, Utf8.encode_append]
  exact List.drop_left

/-- The result is the text of the pieces, behind what stands in front of them. -/
theorem IsOf.bytes (h : IsOf pieces a front rest) :
    ∃ text', (i.writing a hname).spread pieces = text'.map Glyph.ofChar
      ∧ i.bytes a = Utf8.encode (front ++ text')
      ∧ splice (i.rendering a) a.source (Utf8.encode front).length a.sites = Utf8.encode text' := by
  obtain ⟨text', hspread, hsplice⟩ :=
    splice_pieces (renders_rendering hname) h.sited h.plain h.drop
  rw [h.marks] at hsplice
  refine ⟨text', hspread, ?_, hsplice⟩
  have hle : ∀ s ∈ a.sites, 0 + (Utf8.encode front).length ≤ s.offset := by
    rw [← h.marks, Nat.zero_add]
    exact h.sited.le_offset
  have hbytes : i.bytes a = splice (i.rendering a) a.source 0 a.sites := rfl
  rw [hbytes, splice_of_le _ _ hle, Nat.zero_add, hsplice, h.source, Utf8.encode_append,
    Utf8.encode_append, List.drop_zero, List.take_left]

theorem IsOf.length (h : IsOf pieces a front rest) :
    (Utf8.encode front).length + width (Instrument.plain pieces) = a.source.length := by
  rw [h.plain, width_map_ofChar, h.source, Utf8.encode_append, List.length_append]

theorem IsOf.agrees (h : IsOf pieces a front rest) : (i.writing a hname).Agrees
    (Utf8.encode front).length (Utf8.encode front).length pieces := by
  obtain ⟨text', -, hbytes, hsplice⟩ := h.bytes hname
  have hsolid : ∀ g ∈ Instrument.plain pieces, 0 < g.width := by
    rw [h.plain]
    exact solid_before 0 rest
  refine agrees_pieces (renders_rendering hname) 0 [] h.sited hsolid
    (Nat.le_of_eq h.length) ?_ ?_ nofun
  · rw [h.marks]
    change (i.bytes a).drop _ = splice (i.rendering a) a.source _ _
    rw [hsplice, hbytes, Utf8.encode_append]
    exact List.drop_left
  · rw [h.marks]
    rfl

theorem IsOf.ascending (h : IsOf pieces a front rest)
    (hsorted : a.sites.Pairwise fun s t => s.precedes t = true) :
    Ascending a.source 0 (a.sites.map Site.offset) := by
  refine ⟨.cons (fun _ _ => Nat.zero_le _) (List.pairwise_map.2 ?_), ?_⟩
  · refine hsorted.imp fun hprecedes => ?_
    rw [Site.precedes_iff] at hprecedes
    omega
  · rw [List.forall_mem_map, ← h.marks, ← h.length]
    exact h.sited.offset_le

end

/-- The tree of a source that the texts of the sites are written into. -/
theorem exists_reparsed (i : Instrumenter) {a : Analysis} {f : Findings} {ctx : Context}
    {text : List Char} {root : Node} (hname : isName i.name.text.toList = true)
    (hroot : Node.ofSource? .lua (Utf8.encode text) = some root)
    (hsource : a.source = Utf8.encode text) (hsites : a.sites = Site.sort f.sites)
    (hfound : findings ctx root = .ok f) (hn : root.isNested = true)
    (ho : ∀ n ∈ root.reached, n.isAndOr = true → n.hasOrder = true) :
    ∃ text' root', i.bytes a = Utf8.encode text'
      ∧ Node.ofSource? .lua (i.bytes a) = some root' ∧ root'.kind = root.kind
      ∧ Node.erasedIn (i.bytes a) (i.written a) root'.children
        = Node.treesIn a.source root.children
      ∧ Ascending a.source 0 (a.sites.map Site.offset) := by
  obtain ⟨nodes, hchunk, rfl⟩ := Option.map_eq_some_iff.1 hroot
  obtain ⟨front, rest, rfl, hread, hread'⟩ := exists_front text
  rw [hread] at hchunk
  have hsolid := solid_before (Utf8.encode front).length rest
  obtain ⟨outline, hrest, htidy, hplaces, hreads⟩ :=
    exists_chunk (w := i.writing a hname) hsolid hchunk
  have hsorted : a.sites.Pairwise fun s t => s.precedes t = true := hsites ▸ Site.sort_pairwise _
  have hperm : (a.sites.map Spot.ofSite).Perm (outline.places (Utf8.encode front).length) := by
    rw [hsites]
    exact ((Site.sort_perm _).map _).trans ((findings_places hfound hn ho).trans hplaces.symm)
  obtain ⟨pieces, rfl, hmarks, hsited⟩ :=
    exists_pieces (map_ofSite_eq hsorted hperm htidy (hrest ▸ hsolid))
  rw [plain_map] at hrest
  have hof : IsOf pieces a front rest := ⟨hsource, hrest.symm, hmarks, hsited⟩
  obtain ⟨text', hspread, hbytes, -⟩ := hof.bytes hname
  let j : Joint (i.writing a hname) := ⟨_, _, pieces, hof.agrees hname⟩
  obtain ⟨l, hgoes, hl⟩ := j.exists_end
  have hj : j.source = .before (Utf8.encode front).length rest := by
    rw [Joint.source, hrest.symm]
    rfl
  have hwoven : j.woven = ofSource (i.bytes a) := by
    rw [hbytes, hread' text' (head_spread hof.plain hspread), Joint.woven, hspread]
    rfl
  obtain ⟨nodes', hnodes', herased⟩ := hreads j l hj hgoes hl
  rw [hwoven] at hnodes'
  exact ⟨_, .mk .chunk none 0 _ nodes', hbytes, by rw [Node.ofSource?, hnodes']; rfl, rfl, herased,
    hof.ascending hsorted⟩

end Instrumenter

namespace Analyzer

/-- What is analysed as Lua is the tree that the parser gives for it. -/
theorem analyze_lua {analyzer : Analyzer} {source : Bytes} {path : String} {a : Analysis}
    {root : Node} (h : analyzer.analyze source path = .ok a) (hlua : a.language = "lua")
    (hroot : analyzer.parser .lua source = .ok root) :
    ofTree analyzer.idBase path "lua" source root = .ok a := by
  unfold analyze at h
  obtain ⟨root', hparse, htree⟩ := Except.bind_ok (Except.mapError_eq_ok_iff.1 h)
  have hlanguage : analyzer.languageOf path = "lua" := by
    obtain ⟨f, -, rfl⟩ := ofTree_cases htree
    dsimp only at hlua
    exact hlua
  have hdialect : Dialect.ofName? "lua" = some .lua := Dialect.ofName?_name .lua
  rw [hlanguage] at hparse htree
  rw [parse, hdialect] at hparse
  have hroot' := Except.mapError_eq_ok_iff.1 hparse
  rw [hroot] at hroot'
  cases hroot'
  exact htree

end Analyzer

namespace Instrumenter
open Instrument

/-- A module of Lua is instrumented. -/
theorem instrument_reparsed {parser : Parser}
    (hparser : ∀ source root, parser .lua source = .ok root ↔ Node.ofSource? .lua source = some root)
    {path language : String} {idBase : Int} {source : Bytes} {a : Analysis} {root : Node}
    (h : (⟨parser, language, idBase⟩ : Analyzer).analyze source path = .ok a)
    (hlua : a.language = "lua") (hroot : parser .lua source = .ok root)
    (hutf8 : (Utf8.decode source).isOk = true) (hn : root.isNested = true)
    (ho : ∀ n ∈ root.reached, n.isAndOr = true → n.hasOrder = true)
    (hw : ∀ v ∈ root.visits, ∀ x ∈ wrappedBy (Context.ofSource source idBase) v, x.start < x.stop)
    (hdepth : ∀ x ∈ wrappedIn (Context.ofSource source idBase) root,
      (wrappedIn (Context.ofSource source idBase) root).countP (fun y => x.Inside y) ≤ 32)
    {name : ProbeName} (hname : isName name.text.toList = true) (validate : Bool) :
    let i : Instrumenter := ⟨parser, name, validate⟩
    ∃ text root', i.instrument a = .ok text
      ∧ parser .lua (Utf8.ofString text) = .ok root' ∧ root'.kind = root.kind
      ∧ Node.erasedIn (Utf8.ofString text) (i.written a) root'.children
        = Node.treesIn source root.children
      ∧ (i.written a).map (bytesOf (Utf8.ofString text)) = a.sites.map (i.rendering a)
      ∧ outside (i.written a) 0 (Utf8.ofString text) = source := by
  intro i
  have htree := Analyzer.analyze_lua h hlua hroot
  have hfits : fitsDepth 0 a.sites = true := by
    have hnone := (instrument_depth htree hn hw i).1
    rw [instrument_eq_tooDeep_iff] at hnone
    rw [← Bool.not_eq_false, hnone]
    rintro ⟨x, hx, hdeep⟩
    exact absurd (hdepth x hx) (Nat.not_le.2 hdeep)
  obtain ⟨chars, hchars⟩ := Except.exists_of_isOk hutf8
  obtain ⟨f, hfound, ha⟩ := Analyzer.ofTree_cases htree
  obtain ⟨text, root', hbytes, hroot', hkind, herased, hascending⟩ :=
    i.exists_reparsed (a := a) hname (Utf8.encode_of_decode hchars ▸ (hparser _ _).1 hroot)
      (by rw [ha, Utf8.encode_of_decode hchars]) (by rw [ha]) hfound hn ho
  have hsource : a.source = source := by rw [ha]
  have hparsed : parser .lua (i.bytes a) = .ok root' := (hparser _ _).2 hroot'
  have hcheck : i.check a (i.bytes a) = .ok () := by
    have hdialect : Dialect.ofName? "lua" = some .lua := Dialect.ofName?_name .lua
    rw [check, hlua, hdialect]
    dsimp only [i] at hparsed ⊢
    rw [hparsed]
  have htext : Utf8.ofString (String.ofList text) = i.bytes a := by
    rw [Utf8.ofString, String.toList_ofList, hbytes]
  refine ⟨String.ofList text, root', ?_, ?_, hkind, ?_, ?_, ?_⟩
  · have hdecode : Utf8.decode (i.bytes a) = .ok text := by rw [hbytes, Utf8.decode_encode]
    rw [instrument, hfits, if_neg (by decide)]
    dsimp only
    rw [hdecode, hcheck]
    split
    · rfl
    · rfl
  · rw [htext]
    exact hparsed
  · rw [htext, ← hsource]
    exact herased
  · rw [htext]
    exact map_insertions [] hascending rfl
  · rw [htext, ← hsource]
    exact i.outside_bytes a hascending

/-- What is found in the tree of a source, if that is of some form. -/
theorem exists_findings {source : Bytes} {check : Node → Findings → Bool}
    (h : ((Node.ofSource? .lua source).bind fun root =>
      (findings (.ofSource source 0) root).toOption.map (check root)) = some true) :
    ∃ root f, Node.ofSource? .lua source = some root ∧ findings (.ofSource source 0) root = .ok f
      ∧ check root f = true := by
  obtain ⟨root, hroot, h⟩ := Option.bind_eq_some_iff.1 h
  obtain ⟨f, hfound, hcheck⟩ := Except.exists_of_toOption h
  exact ⟨root, f, hroot, hfound, hcheck⟩

theorem analyze_of_findings {source : Bytes} {root : Node} {f : Findings}
    (hroot : Node.ofSource? .lua source = some root)
    (hfound : findings (.ofSource source 0) root = .ok f) :
    (⟨.ofGrammar, "lua", 0⟩ : Analyzer).analyze source "m.lua"
      = .ok ⟨f.toMap "m.lua" 0, source, Site.sort f.sites, "lua"⟩ := by
  have hlanguage : Analyzer.languageOf ⟨.ofGrammar, "lua", 0⟩ "m.lua" = "lua" := by decide +kernel
  have hdialect : Dialect.ofName? "lua" = some .lua := Dialect.ofName?_name .lua
  simp only [Analyzer.analyze, Analyzer.parse, hlanguage, hdialect,
    Parser.ofGrammar_eq_ok_iff.2 hroot, Except.mapError_ok, Except.ok_bind, Analyzer.ofTree]
  rw [hfound]
  rfl

/-- An `if` statement with a chain for its condition, and without an `else` arm. -/
def choiceSource : Bytes := Utf8.ofString "if a or b then return c end"

def choiceStyles : List Site.Style :=
  [.statement, .opener, .closer, .opener, .closer, .statement, .statement, .elseArm]

theorem instrument_reparsed_sample : ∃ root a text root',
    Node.ofSource? .lua choiceSource = some root
      ∧ (⟨.ofGrammar, "lua", 0⟩ : Analyzer).analyze choiceSource "m.lua" = .ok a
      ∧ (a.sites.map Site.style).Perm choiceStyles
      ∧ (⟨.ofGrammar, .standard, true⟩ : Instrumenter).instrument a = .ok text
      ∧ Node.ofSource? .lua (Utf8.ofString text) = some root'
      ∧ Node.erasedIn (Utf8.ofString text) (written ⟨.ofGrammar, .standard, true⟩ a) root'.children
        = Node.treesIn choiceSource root.children := by
  let ctx := Context.ofSource choiceSource 0
  have hcheck : ((Node.ofSource? .lua choiceSource).bind fun root =>
      (findings ctx root).toOption.map fun f => decide (root.isNested = true
        ∧ (∀ n ∈ root.reached, n.isAndOr = true → n.hasOrder = true)
        ∧ (∀ v ∈ root.visits, ∀ x ∈ wrappedBy ctx v, x.start < x.stop)
        ∧ (∀ x ∈ wrappedIn ctx root, (wrappedIn ctx root).countP (fun y => x.Inside y) ≤ 32)
        ∧ (f.sites.map Site.style).Perm choiceStyles)) = some true := by
    decide +kernel
  obtain ⟨root, f, hroot, hfound, hcheck⟩ := exists_findings hcheck
  obtain ⟨hn, ho, hw, hdepth, hstyles⟩ := of_decide_eq_true hcheck
  have ha := analyze_of_findings hroot hfound
  obtain ⟨text, root', htext, hroot', -, herased, -⟩ :=
    instrument_reparsed (fun _ _ => Parser.ofGrammar_eq_ok_iff) ha rfl
      (Parser.ofGrammar_eq_ok_iff.2 hroot) (by decide +kernel) hn ho hw hdepth
      (show isName ProbeName.standard.text.toList = true by decide +kernel) true
  exact ⟨root, _, text, root', hroot, ha, ((Site.sort_perm _).map _).trans hstyles, htext,
    Parser.ofGrammar_eq_ok_iff.1 hroot', herased⟩

/-! ## Where it is not so -/

/-- A comment in front of the body of a function. -/
def commentSource : Bytes := Utf8.ofString "function f() --c\nreturn 1 end"

def commentSites : List Site :=
  [⟨0, 1, .statement, .statement, 0, none⟩, ⟨12, 2, .statement, .function, 0, none⟩,
    ⟨17, 3, .statement, .statement, 1, none⟩]

/-- Whether a comment stands among the statements of a block. -/
def holdsComment (root : Node) : Bool :=
  root.nodes.any fun n => n.kind == .block && n.children.any fun child => child.kind == .comment

/-- A source whose comment is no text is refused, and a comment in front of a body stands among its
statements once the function is counted. -/
theorem instrument_not_reparsed : isName ProbeName.standard.text.toList = true
    ∧ (∃ a, (⟨.ofGrammar, "lua", 0⟩ : Analyzer).analyze [0x2d, 0x2d, 0xff] "m.lua" = .ok a
      ∧ a.sites = [] ∧ (⟨.ofGrammar, .standard, true⟩ : Instrumenter).instrument a
        = .error (.failed "m.lua" (.notUtf8 ⟨0xff, 2, 3, .invalidStart⟩)))
    ∧ ∃ a root root',
      (⟨.ofGrammar, "lua", 0⟩ : Analyzer).analyze commentSource "m.lua" = .ok a
      ∧ Node.ofSource? .lua commentSource = some root ∧ holdsComment root = false
      ∧ Node.ofSource? .lua (bytes ⟨.ofGrammar, .standard, true⟩ a) = some root'
      ∧ holdsComment root' = true := by
  refine ⟨by decide +kernel, ?_, ?_⟩
  · have hrefused : ((⟨.ofGrammar, "lua", 0⟩ : Analyzer).analyze [0x2d, 0x2d, 0xff]
        "m.lua").toOption.map (fun a =>
          decide (a.sites = [] ∧ (⟨.ofGrammar, .standard, true⟩ : Instrumenter).instrument a
            = .error (.failed "m.lua" (.notUtf8 ⟨0xff, 2, 3, .invalidStart⟩)))) = some true := by
      decide +kernel
    obtain ⟨a, ha, hrefused⟩ := Except.exists_of_toOption hrefused
    obtain ⟨hsites, hrefused⟩ := of_decide_eq_true hrefused
    exact ⟨a, ha, hsites, hrefused⟩
  · have hcheck : ((Node.ofSource? .lua commentSource).bind fun root =>
        (findings (.ofSource commentSource 0) root).toOption.map fun f =>
          !holdsComment root && decide (commentSites.Perm f.sites)) = some true := by
      decide +kernel
    obtain ⟨root, f, hroot, hfound, hcheck⟩ := exists_findings hcheck
    obtain ⟨hcomment, hperm⟩ := Bool.and_eq_true_iff.1 hcheck
    have hsites : Site.sort f.sites = commentSites :=
      Site.sort_eq_of_perm (of_decide_eq_true hperm) (by decide)
    have hresult : (Node.ofSource? .lua (splice (fun s =>
        Utf8.ofString (Call.text .standard "m.lua" s)) commentSource 0 commentSites)).any
          holdsComment = true := by
      decide +kernel
    obtain ⟨root', hroot', hcomment'⟩ := (Option.any_eq_true ..).1 hresult
    refine ⟨_, root, root', analyze_of_findings hroot hfound, hroot, by simpa using hcomment, ?_,
      hcomment'⟩
    rw [hsites]
    exact hroot'

end Instrumenter

end LuaCoverage
