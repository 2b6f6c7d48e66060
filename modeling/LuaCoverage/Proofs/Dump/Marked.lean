import LuaCoverage.Proofs.Dump.Payload

/-!
# The first marked block

The marker begins as it ends, so one occurrence of it may overlap the next, and a text around a
block may hold any part of it. Searching from the left finds a block all the same: the first one,
from the end of the first marker to the next marker behind it.

Results:
* `Dump.splitAt?_eq_some_iff`, `Dump.splitAt?_eq_none_iff`: where a text is split.
* `Dump.extractChars_eq_ok_iff`, `Dump.extractChars_error_iff`: what is extracted, and when nothing
  is.
* `Dump.extract_marked`: what becomes of a log.
-/

namespace LuaCoverage.Dump

variable {pattern front back text inside : List Char}

/-! ## Splitting -/

theorem not_infix_of_splitAt? (hne : pattern ≠ [])
    (h : splitAt? pattern text = some (front, back)) :
    ¬pattern <:+: front ++ pattern.dropLast := by
  have hpos : 0 < pattern.length := List.length_pos_iff.2 hne
  induction text generalizing front with
  | nil =>
    simp only [splitAt?, List.isEmpty_iff, hne, if_false] at h
    cases h
  | cons c rest ih =>
    simp only [splitAt?] at h
    split at h
    · cases h
      intro hin
      have hlength := hin.length_le
      rw [List.nil_append, List.length_dropLast] at hlength
      omega
    · next hprefixed =>
      obtain ⟨⟨f, b⟩, hs, hpair⟩ := Option.map_eq_some_iff.1 h
      cases hpair
      rw [List.cons_append, List.infix_cons_iff, not_or]
      refine ⟨fun hp => hprefixed ?_, ih hs⟩
      -- What the text goes on with begins as the pattern does.
      have hlonger : c :: (f ++ pattern.dropLast) <+: c :: rest := by
        rw [eq_of_splitAt? hs]
        exact (List.prefix_cons_inj c).2 ((List.prefix_append_right_inj f).2
          ((List.dropLast_prefix pattern).trans (List.prefix_append pattern b)))
      exact List.isPrefixOf_iff_prefix.2 (hp.trans hlonger)

theorem splitAt?_eq_some_iff (hne : pattern ≠ []) : splitAt? pattern text = some (front, back)
    ↔ text = front ++ (pattern ++ back) ∧ ¬pattern <:+: front ++ pattern.dropLast := by
  constructor
  · exact fun h => ⟨eq_of_splitAt? h, not_infix_of_splitAt? hne h⟩
  · rintro ⟨rfl, hfirst⟩
    exact splitAt?_of_first hne hfirst back

/-- A text that holds a pattern is split there or further in front. -/
theorem exists_splitAt? (pattern before after : List Char) :
    ∃ front back, splitAt? pattern (before ++ (pattern ++ after)) = some (front, back)
      ∧ after <:+ back := by
  induction before with
  | nil => exact ⟨[], after, splitAt?_front pattern after, List.suffix_refl after⟩
  | cons c rest ih =>
    rw [List.cons_append, splitAt?]
    split
    · refine ⟨_, _, rfl, ?_⟩
      have hsuffix : after <:+ c :: (rest ++ (pattern ++ after)) :=
        ⟨c :: (rest ++ pattern), by simp⟩
      refine List.suffix_of_suffix_length_le hsuffix (List.drop_suffix _ _) ?_
      simp only [List.length_drop, List.length_cons, List.length_append]
      omega
    · obtain ⟨front, back, hs, hback⟩ := ih
      exact ⟨c :: front, back, by rw [hs]; rfl, hback⟩

theorem splitAt?_eq_none_iff : splitAt? pattern text = none ↔ ¬pattern <:+: text := by
  constructor
  · rintro h ⟨before, after, rfl⟩
    obtain ⟨front, back, hs, -⟩ := exists_splitAt? pattern before after
    rw [List.append_assoc, hs] at h
    cases h
  · exact splitAt?_eq_none

/-- No pattern starts in a text and ends in the pattern behind it if every occurrence there is the
last one. -/
theorem not_infix_dropLast_iff (hne : pattern ≠ []) : ¬pattern <:+: text ++ pattern.dropLast
    ↔ ∀ front back, text ++ pattern = front ++ (pattern ++ back) → front = text := by
  constructor
  · intro h front back heq
    rcases List.eq_nil_or_concat back with rfl | ⟨back, c, rfl⟩
    · rw [List.append_nil] at heq
      exact (List.append_cancel_right heq).symm
    · have hlast := congrArg List.dropLast heq
      rw [List.dropLast_append_of_ne_nil hne, List.concat_eq_append, ← List.append_assoc pattern,
        ← List.append_assoc front, List.dropLast_concat] at hlast
      exact absurd ⟨front, back, by rw [hlast, List.append_assoc]⟩ h
  · rintro h ⟨front, back, heq⟩
    have hwhole : text ++ pattern = front ++ (pattern ++ (back ++ [pattern.getLast hne])) := by
      rw [← List.append_assoc pattern, ← List.append_assoc front, ← List.append_assoc front, heq,
        List.append_assoc, List.dropLast_concat_getLast hne]
    have hlength := congrArg List.length heq
    simp only [h _ _ hwhole, List.length_append, List.length_dropLast] at hlength
    have hpos : 0 < pattern.length := List.length_pos_iff.2 hne
    omega

/-! ## Extracting -/

theorem extractChars_eq_ok_iff : extractChars text = .ok inside
    ↔ ∃ before after, text = before ++ (marker.toList ++ (inside ++ (marker.toList ++ after)))
      ∧ ¬marker.toList <:+: before ++ marker.toList.dropLast
      ∧ ¬marker.toList <:+: inside ++ marker.toList.dropLast := by
  constructor
  · intro h
    unfold extractChars at h
    split at h
    · cases h
    · next before back hopen =>
      split at h
      · cases h
      · next found after hclose =>
        cases h
        obtain ⟨rfl, hbefore⟩ := (splitAt?_eq_some_iff marker_ne_nil).1 hopen
        obtain ⟨rfl, hinside⟩ := (splitAt?_eq_some_iff marker_ne_nil).1 hclose
        exact ⟨before, after, rfl, hbefore, hinside⟩
  · rintro ⟨before, after, rfl, hbefore, hinside⟩
    exact extractChars_of_first hbefore hinside after

/-- Nothing is extracted if and only if no two markers stand in a text, one behind the other. -/
theorem extractChars_error_iff : (∃ e, extractChars text = .error e)
    ↔ ¬∃ before between after,
      text = before ++ (marker.toList ++ (between ++ (marker.toList ++ after))) := by
  constructor
  · rintro ⟨e, he⟩ ⟨before, between, after, rfl⟩
    obtain ⟨front, back, hopen, hback⟩ :=
      exists_splitAt? marker.toList before (between ++ (marker.toList ++ after))
    have hin : marker.toList <:+: back :=
      List.IsInfix.trans ⟨between, after, by simp⟩ hback.isInfix
    simp only [extractChars, hopen] at he
    split at he
    · next hclose => exact splitAt?_eq_none_iff.1 hclose hin
    · cases he
  · intro hnone
    cases he : extractChars text with
    | error e => exact ⟨e, rfl⟩
    | ok inside =>
      obtain ⟨before, after, htext, -⟩ := extractChars_eq_ok_iff.1 he
      exact absurd ⟨before, inside, after, htext⟩ hnone

/-! ## Logs -/

/-- Whether a marker put behind a text is the first one there: none stands further in front, not
even one that starts in the text and ends in that marker. -/
def MarksEnd (text : String) : Prop :=
  ∀ front back, text ++ marker = front ++ marker ++ back → front = text

theorem marksEnd_iff {text : String} :
    MarksEnd text ↔ ¬marker.toList <:+: text.toList ++ marker.toList.dropLast := by
  rw [not_infix_dropLast_iff marker_ne_nil]
  constructor
  · intro h front back heq
    have hwhole : text ++ marker = String.ofList front ++ marker ++ String.ofList back := by
      rw [← String.toList_inj]
      simpa using heq
    rw [← h _ _ hwhole, String.toList_ofList]
  · intro h front back heq
    have hwhole := congrArg String.toList heq
    simp only [String.toList_append, List.append_assoc] at hwhole
    exact String.toList_inj.1 (h _ _ hwhole)

/-- A text with a marker at its end that is the first one has none in it. -/
theorem MarksEnd.not_infix {text : String} (h : MarksEnd text) :
    ¬marker.toList <:+: text.toList :=
  fun hin => marksEnd_iff.1 h (hin.trans (List.prefix_append _ _).isInfix)

/-- The dump in a text is that of its payload. -/
theorem parse_congr {a b : String} (h : payload a.toList = payload b.toList) :
    parse a = parse b := by
  rw [parse, parse, h]

/-- In a log with a block between the first marker and the next, whatever stands around it, exactly
the block is extracted, and the log is the dump that the block is, or fails with the same error. And
from any text something is extracted unless it has no two markers one of which stands behind the
other. -/
theorem extract_marked :
    (∀ before inside after, MarksEnd before → MarksEnd inside →
      extract (before ++ marker ++ inside ++ marker ++ after) = .ok inside
        ∧ parse (before ++ marker ++ inside ++ marker ++ after) = parse inside)
    ∧ ∀ text, (∃ e, extract text = .error e)
      ↔ ¬∃ before between after, text = before ++ marker ++ between ++ marker ++ after := by
  refine ⟨fun before inside after hbefore hinside => ?_, fun text => ?_⟩
  · have hblock := extractChars_of_first (marksEnd_iff.1 hbefore) (marksEnd_iff.1 hinside)
      after.toList
    have hlog : (before ++ marker ++ inside ++ marker ++ after).toList = before.toList
        ++ (marker.toList ++ (inside.toList ++ (marker.toList ++ after.toList))) := by
      simp
    rw [← hlog] at hblock
    refine ⟨?_, parse_congr ?_⟩
    · rw [extract, hblock]
      exact congrArg Except.ok String.ofList_toList
    · rw [payload_of_extractChars hblock, payload_bare hinside.not_infix]
  · have herror : (∃ e, extract text = .error e) ↔ ∃ e, extractChars text.toList = .error e := by
      rw [extract]
      cases extractChars text.toList <;> simp [Except.map]
    rw [herror, extractChars_error_iff]
    refine not_congr ⟨?_, ?_⟩
    · rintro ⟨before, between, after, htext⟩
      refine ⟨.ofList before, .ofList between, .ofList after, ?_⟩
      rw [← String.toList_inj, htext]
      simp
    · rintro ⟨before, between, after, rfl⟩
      exact ⟨before.toList, between.toList, after.toList, by simp⟩

theorem extract_marked_sample :
    let log := "log _" ++ marker ++ "\x7b\x7d_" ++ marker ++ "COVPATCH__\x7b\x7d__COVPATCH__"
    MarksEnd "log _" ∧ MarksEnd "\x7b\x7d_" ∧ extract log = .ok "\x7b\x7d_"
      ∧ parse log = parse "\x7b\x7d_" := by
  have hbefore : MarksEnd "log _" := marksEnd_iff.2 (by decide +kernel)
  have hinside : MarksEnd "\x7b\x7d_" := marksEnd_iff.2 (by decide +kernel)
  exact ⟨hbefore, hinside, extract_marked.1 _ _ _ hbefore hinside⟩

end LuaCoverage.Dump
