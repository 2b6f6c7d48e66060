import LuaCoverage.Instrument.Basic
import LuaCoverage.Proofs.Except
import LuaCoverage.Proofs.Instrument.OneLine

/-!
# Instrumenting only inserts

A source is cut at the offsets of sites into *slices*, and what is written at the sites is *woven*
in between them. The slices are the whole source, in order, and each site stands where its slice
ends. Nothing that is written breaks a line, so every byte of the source keeps its line; its place
in the result is its place in the source, and behind all that was written up to there.

Results:
* `splice_eq_weave`, `flatten_slices`: splicing weaves into the whole source.
* `splice_split`: where a byte of the source is found, and which line it is on.
* `Instrumenter.bytes_woven`: what the bytes of an instrumented module are.
-/

namespace LuaCoverage
open LuaCoverage.Text

namespace Instrument
variable {source : Bytes} {render : Site → Bytes}

def lineFeed : UInt8 := 10

/-- The slices of a source between offsets, from a cursor on. -/
def slices (source : Bytes) : (cursor : Nat) → (offsets : List Nat) → List Bytes
  | cursor, [] => [source.drop cursor]
  | cursor, offset :: rest => (source.take offset).drop cursor :: slices source offset rest

/-- Slices with one insertion behind each, as long as there are any. -/
def weave : (slices insertions : List Bytes) → Bytes
  | [], insertions => insertions.flatten
  | slice :: slices, [] => slice ++ weave slices []
  | slice :: slices, insertion :: rest => slice ++ insertion ++ weave slices rest

/-- Where the byte at an offset of the source is found in the result. -/
def place (render : Site → Bytes) (sites : List Site) (offset : Nat) : Nat :=
  offset + ((sites.filter fun s => s.offset ≤ offset).flatMap render).length

/-- Offsets ascend from a cursor to the end of the source at most. -/
structure Ascending (source : Bytes) (cursor : Nat) (offsets : List Nat) : Prop where
  sorted : (cursor :: offsets).Pairwise (· ≤ ·)
  bounded : ∀ offset ∈ offsets, offset ≤ source.length

namespace Ascending
variable {cursor offset : Nat} {offsets : List Nat}

theorem tail (h : Ascending source cursor (offset :: offsets)) : Ascending source offset offsets :=
  ⟨h.sorted.of_cons, fun o ho => h.bounded o (by simp [ho])⟩

theorem cursor_le (h : Ascending source cursor (offset :: offsets)) : cursor ≤ offset :=
  List.rel_of_pairwise_cons h.sorted (by simp)

theorem offset_le (h : Ascending source cursor (offset :: offsets)) : offset ≤ source.length :=
  h.bounded offset (by simp)

end Ascending

/-! ## Slices -/

theorem drop_take_append (l : Bytes) {a b c : Nat} (hab : a ≤ b) (hbc : b ≤ c) :
    (l.take b).drop a ++ (l.take c).drop b = (l.take c).drop a := by
  have htake : l.take b = (l.take c).take b := by rw [List.take_take, Nat.min_eq_left hbc]
  have hdrop : (l.take c).drop b = ((l.take c).drop a).drop (b - a) := by
    rw [List.drop_drop, Nat.add_sub_cancel' hab]
  rw [htake, hdrop, List.drop_take, List.take_append_drop]

theorem drop_take_append_drop (l : Bytes) {a b : Nat} (hab : a ≤ b) :
    (l.take b).drop a ++ l.drop b = l.drop a := by
  have hdrop : l.drop b = (l.drop a).drop (b - a) := by
    rw [List.drop_drop, Nat.add_sub_cancel' hab]
  rw [hdrop, List.drop_take, List.take_append_drop]

theorem length_slices (source : Bytes) (cursor : Nat) (offsets : List Nat) :
    (slices source cursor offsets).length = offsets.length + 1 := by
  induction offsets generalizing cursor with
  | nil => rfl
  | cons offset rest ih => simp [slices, ih]

/-- The slices are the whole source behind the cursor. -/
theorem flatten_slices {cursor : Nat} {offsets : List Nat} (h : Ascending source cursor offsets) :
    (slices source cursor offsets).flatten = source.drop cursor := by
  induction offsets generalizing cursor with
  | nil => simp [slices]
  | cons offset rest ih =>
    rw [slices, List.flatten_cons, ih h.tail]
    exact drop_take_append_drop source h.cursor_le

/-- The slices up to a site end at its offset. -/
theorem length_flatten_take {cursor : Nat} {offsets : List Nat}
    (h : Ascending source cursor offsets) {k : Nat} (hk : k < offsets.length) :
    cursor + ((slices source cursor offsets).take (k + 1)).flatten.length = offsets[k] := by
  induction offsets generalizing cursor k with
  | nil => simp at hk
  | cons offset rest ih =>
    have hcursor := h.cursor_le
    have hoffset := h.offset_le
    have hslice : ((source.take offset).drop cursor).length = offset - cursor := by
      rw [List.length_drop, List.length_take, Nat.min_eq_left hoffset]
    rw [slices, List.take_succ_cons, List.flatten_cons, List.length_append, hslice]
    cases k with
    | zero =>
      simp only [List.take_zero, List.flatten_nil, List.length_nil, List.getElem_cons_zero]
      omega
    | succ k =>
      have hrest := ih h.tail (Nat.lt_of_succ_lt_succ hk)
      rw [List.getElem_cons_succ]
      omega

/-! ## Weaving -/

theorem splice_eq_weave (render : Site → Bytes) (source : Bytes) (cursor : Nat)
    (sites : List Site) :
    splice render source cursor sites
      = weave (slices source cursor (sites.map Site.offset)) (sites.map render) := by
  induction sites generalizing cursor with
  | nil => simp [splice, slices, weave]
  | cons s rest ih => simp [splice, slices, weave, ih]

/-- Without what was inserted the slices are left. -/
theorem weave_empty {α : Type} (slices : List Bytes) (sites : List α) :
    weave slices (sites.map fun _ => []) = slices.flatten := by
  induction slices generalizing sites with
  | nil => simp [weave]
  | cons slice rest ih =>
    cases sites with
    | nil => simpa [weave] using ih []
    | cons site more => simpa [weave] using ih more

theorem count_weave {b : UInt8} {insertions : List Bytes} (h : ∀ r ∈ insertions, b ∉ r)
    (slices : List Bytes) : (weave slices insertions).count b = slices.flatten.count b := by
  induction slices generalizing insertions with
  | nil =>
    have hnone : b ∉ insertions.flatten := by
      intro hb
      obtain ⟨r, hr, hb⟩ := List.mem_flatten.1 hb
      exact h r hr hb
    rw [weave, List.count_eq_zero.2 hnone, List.flatten_nil, List.count_nil]
  | cons slice rest ih =>
    cases insertions with
    | nil => simp only [weave, List.flatten_cons, List.count_append, ih h]
    | cons insertion more =>
      have hfirst : insertion.count b = 0 := List.count_eq_zero.2 (h insertion (by simp))
      have hmore : (weave rest more).count b = rest.flatten.count b :=
        ih fun r hr => h r (by simp [hr])
      simp only [weave, List.flatten_cons, List.count_append, hmore, hfirst, Nat.add_zero]

/-! ## Places -/

theorem place_lt (render : Site → Bytes) (sites : List Site) {k l : Nat} (hkl : k < l) :
    place render sites k < place render sites l := by
  induction sites with
  | nil => simpa [place] using hkl
  | cons s rest ih =>
    simp only [place, List.filter_cons] at ih ⊢
    by_cases hk : s.offset ≤ k
    · have hl : s.offset ≤ l := by omega
      simp only [hk, hl, decide_true, if_true, List.flatMap_cons, List.length_append]
      omega
    · simp only [hk, decide_false, Bool.false_eq_true, if_false]
      split
      · simp only [List.flatMap_cons, List.length_append]
        omega
      · exact ih

/-- What stands in front of a byte of the source, and how many lines it has. -/
theorem splice_split {sites : List Site} {cursor k : Nat}
    (h : Ascending source cursor (sites.map Site.offset)) (hcursor : cursor ≤ k)
    (hk : k < source.length) (hlines : ∀ s ∈ sites, lineFeed ∉ render s) :
    ∃ front back, splice render source cursor sites = front ++ back
      ∧ cursor + front.length = place render sites k ∧ back.head? = source[k]?
      ∧ front.count lineFeed = ((source.take k).drop cursor).count lineFeed := by
  have hlength : ((source.take k).drop cursor).length = k - cursor := by
    rw [List.length_drop, List.length_take, Nat.min_eq_left (Nat.le_of_lt hk)]
  induction sites generalizing cursor with
  | nil =>
    refine ⟨(source.take k).drop cursor, source.drop k, ?_, ?_, ?_, rfl⟩
    · rw [splice, drop_take_append_drop source hcursor]
    · simp only [place, List.filter_nil, List.flatMap_nil, List.length_nil]
      omega
    · rw [List.head?_drop]
  | cons s rest ih =>
    have hle : cursor ≤ s.offset := h.cursor_le
    have hend : s.offset ≤ source.length := h.offset_le
    by_cases hs : s.offset ≤ k
    · -- The site comes first: its slice and its text stand in front of the byte.
      have hlength' : ((source.take k).drop s.offset).length = k - s.offset := by
        rw [List.length_drop, List.length_take, Nat.min_eq_left (Nat.le_of_lt hk)]
      obtain ⟨front, back, hsplice, hfront, hback, hcount⟩ :=
        ih h.tail hs (fun t ht => hlines t (by simp [ht])) hlength'
      refine ⟨(source.take s.offset).drop cursor ++ render s ++ front, back, ?_, ?_, hback, ?_⟩
      · rw [splice, hsplice, List.append_assoc, List.append_assoc, List.append_assoc]
      · have hplace : place render (s :: rest) k = place render rest k + (render s).length := by
          simp only [place, List.filter_cons, hs, decide_true, if_true, List.flatMap_cons,
            List.length_append]
          omega
        rw [hplace, ← hfront, List.length_append, List.length_append, List.length_drop,
          List.length_take, Nat.min_eq_left hend]
        omega
      · have hnone : (render s).count lineFeed = 0 := List.count_eq_zero.2 (hlines s (by simp))
        rw [List.count_append, List.count_append, hnone, hcount, Nat.add_zero, ← List.count_append,
          drop_take_append source hle hs]
    · -- The byte comes first, and so before all other sites.
      have hlt : k < s.offset := by omega
      have hnone : (s :: rest).filter (fun t => t.offset ≤ k) = [] := by
        rw [List.filter_eq_nil_iff]
        intro t ht
        have hst : s.offset ≤ t.offset := by
          rcases List.mem_cons.1 ht with rfl | ht
          · exact Nat.le_refl _
          · exact List.rel_of_pairwise_cons h.tail.sorted (List.mem_map_of_mem ht)
        simp only [decide_eq_true_eq]
        omega
      refine ⟨(source.take k).drop cursor,
        (source.take s.offset).drop k ++ render s ++ splice render source s.offset rest,
        ?_, ?_, ?_, rfl⟩
      · rw [splice, ← drop_take_append source hcursor (Nat.le_of_lt hlt), List.append_assoc,
          List.append_assoc, List.append_assoc]
      · simp only [place, hnone, List.flatMap_nil, List.length_nil]
        omega
      · have hhead : ((source.take s.offset).drop k).head? = source[k]? := by
          rw [List.head?_drop, List.getElem?_take_of_lt hlt]
        rw [List.head?_append, List.head?_append, hhead, List.getElem?_eq_getElem hk]
        rfl

end Instrument

namespace Instrumenter
open Instrument

/-- What is written at a site of a module, as bytes. -/
def rendering (i : Instrumenter) (a : Analysis) (s : Site) : Bytes :=
  Utf8.ofString (Call.text i.name a.map.path s)

theorem newline_not_mem_rendering (i : Instrumenter) (a : Analysis) (s : Site) :
    lineFeed ∉ i.rendering a s ∧ 13 ∉ i.rendering a s :=
  newline_not_mem_ofString (Call.visible_text i.name a.map.path s)

theorem decode_of_instrument {i : Instrumenter} {a : Analysis} {text : String}
    (h : i.instrument a = .ok text) :
    ∃ chars, Utf8.decode (i.bytes a) = .ok chars ∧ text = String.ofList chars := by
  unfold instrument at h
  split at h
  · cases h
  · dsimp only at h
    cases hchars : Utf8.decode (i.bytes a) with
    | ok chars =>
      rw [hchars] at h
      split at h
      · obtain ⟨_, _, h⟩ := Except.bind_ok h
        cases h
        exact ⟨chars, rfl, rfl⟩
      · cases h
        exact ⟨chars, rfl, rfl⟩
    | error e =>
      rw [hchars] at h
      split at h
      · obtain ⟨_, _, h⟩ := Except.bind_ok h
        cases h
      · cases h

/-- A module whose instrumenting succeeds is the text of the instrumented bytes. -/
theorem ofString_of_instrument {i : Instrumenter} {a : Analysis} {text : String}
    (h : i.instrument a = .ok text) : Utf8.ofString text = i.bytes a := by
  obtain ⟨chars, hchars, rfl⟩ := decode_of_instrument h
  rw [Utf8.ofString, String.toList_ofList]
  exact Utf8.encode_of_decode hchars

/-- A byte of the source is found at its place, with as many lines in front of it. -/
theorem bytes_place {i : Instrumenter} {a : Analysis}
    (h : Ascending a.source 0 (a.sites.map Site.offset)) {k : Nat} (hk : k < a.source.length) :
    (i.bytes a)[place (i.rendering a) a.sites k]? = a.source[k]?
      ∧ ((i.bytes a).take (place (i.rendering a) a.sites k)).count lineFeed
        = (a.source.take k).count lineFeed := by
  obtain ⟨front, back, hsplice, hfront, hback, hcount⟩ := splice_split h (Nat.zero_le k) hk
    fun s _ => (i.newline_not_mem_rendering a s).1
  have hbytes : i.bytes a = front ++ back := hsplice
  rw [Nat.zero_add] at hfront
  rw [hbytes, ← hfront]
  constructor
  · rw [List.getElem?_append_right (Nat.le_refl _), Nat.sub_self, ← List.head?_eq_getElem?, hback]
  · rw [List.take_left, hcount, List.drop_zero]

/-- The bytes of an instrumented module are its source with the renderings of the sites woven into
it at their offsets. No rendering breaks a line, so what is left without the renderings is the
source, the number of lines stays, and every byte of the source stays on its line. -/
theorem bytes_woven (i : Instrumenter) (a : Analysis)
    (sorted : a.sites.Pairwise fun s t => s.offset ≤ t.offset)
    (bounded : ∀ s ∈ a.sites, s.offset ≤ a.source.length) :
    ∃ slices : List Bytes,
      slices.length = a.sites.length + 1
      ∧ slices.flatten = a.source
      ∧ (∀ k (hk : k < a.sites.length),
        (slices.take (k + 1)).flatten.length = a.sites[k].offset)
      ∧ i.bytes a = weave slices (a.sites.map (i.rendering a))
      ∧ weave slices (a.sites.map fun _ => []) = a.source
      ∧ (∀ s ∈ a.sites, lineFeed ∉ i.rendering a s ∧ 13 ∉ i.rendering a s)
      ∧ (i.bytes a).count lineFeed = a.source.count lineFeed
      ∧ (∀ k l, k < l → place (i.rendering a) a.sites k < place (i.rendering a) a.sites l)
      ∧ (∀ k < a.source.length, (i.bytes a)[place (i.rendering a) a.sites k]? = a.source[k]?
        ∧ ((i.bytes a).take (place (i.rendering a) a.sites k)).count lineFeed
          = (a.source.take k).count lineFeed)
      ∧ ∀ text, i.instrument a = .ok text → Utf8.ofString text = i.bytes a := by
  have hasc : Ascending a.source 0 (a.sites.map Site.offset) := by
    refine ⟨.cons (fun _ _ => Nat.zero_le _) (List.pairwise_map.2 sorted), ?_⟩
    simpa using bounded
  have hflat : (slices a.source 0 (a.sites.map Site.offset)).flatten = a.source :=
    flatten_slices hasc
  have hbytes : i.bytes a
      = weave (slices a.source 0 (a.sites.map Site.offset)) (a.sites.map (i.rendering a)) :=
    splice_eq_weave ..
  refine ⟨slices a.source 0 (a.sites.map Site.offset), ?_, hflat, ?_, hbytes, ?_,
    fun s _ => i.newline_not_mem_rendering a s, ?_, fun k l hkl => place_lt _ _ hkl,
    fun k hk => bytes_place hasc hk, fun text ht => ofString_of_instrument ht⟩
  · rw [length_slices, List.length_map]
  · intro k hk
    have hlength := length_flatten_take hasc (k := k) (by simpa using hk)
    simpa using hlength
  · rw [weave_empty, hflat]
  · have hnone : ∀ r ∈ a.sites.map (i.rendering a), lineFeed ∉ r := by
      intro r hr
      obtain ⟨s, -, rfl⟩ := List.mem_map.1 hr
      exact (i.newline_not_mem_rendering a s).1
    rw [hbytes, count_weave hnone, hflat]

/-- A module with two calls around the same operand. -/
def sampleAnalysis : Analysis :=
  ⟨⟨"a\nb.lua", 0, [], [], []⟩, Utf8.ofString "x = y\n",
    [⟨4, 1, .opener, .branch, 0, some 0⟩, ⟨4, 2, .conditionOpener, .branch, 1, none⟩,
      ⟨5, 2, .closer, .branch, 1, none⟩, ⟨5, 1, .closer, .branch, 0, some 0⟩], "lua"⟩

theorem bytes_woven_sample :
    ∃ slices : List Bytes, slices.length = 5 ∧ slices.flatten = Utf8.ofString "x = y\n"
      ∧ (⟨.ofGrammar, .standard, false⟩ : Instrumenter).bytes sampleAnalysis
        = weave slices
          (sampleAnalysis.sites.map (rendering ⟨.ofGrammar, .standard, false⟩ sampleAnalysis)) := by
  obtain ⟨slices, hlength, hflat, -, hbytes, -⟩ :=
    bytes_woven ⟨.ofGrammar, .standard, false⟩ sampleAnalysis (by decide) (by decide +kernel)
  exact ⟨slices, hlength, hflat, hbytes⟩

end Instrumenter

end LuaCoverage
