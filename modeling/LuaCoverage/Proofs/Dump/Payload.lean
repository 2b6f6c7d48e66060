import LuaCoverage.Dump.Basic
import LuaCoverage.Proofs.Json.Consumed

/-!
# Dumps in logs

A dump is the whole of a text, or what stands between the first marker of a log and the next. The
text of a mapping ends with a brace, so no marker starts within it and ends behind it.

Results:
* `splitAt?_front`, `splitAt?_of_first`: a text is split at the first occurrence of a pattern.
* `payload_bare`, `payload_marked`: the dump is found in both forms of a text.
-/

namespace LuaCoverage.Dump

variable {pattern front back text : List Char}

theorem eq_of_splitAt? (h : splitAt? pattern text = some (front, back)) :
    text = front ++ (pattern ++ back) := by
  induction text generalizing front back with
  | nil =>
    simp only [splitAt?] at h
    split at h
    · next hp =>
      cases h
      rw [List.isEmpty_iff.1 hp]
      rfl
    · cases h
  | cons c rest ih =>
    simp only [splitAt?] at h
    split at h
    · next hp =>
      cases h
      obtain ⟨more, hmore⟩ := List.isPrefixOf_iff_prefix.1 hp
      rw [← hmore, List.drop_left, List.nil_append]
    · obtain ⟨⟨f, b⟩, hs, hpair⟩ := Option.map_eq_some_iff.1 h
      cases hpair
      rw [ih hs]
      rfl

theorem splitAt?_eq_none (h : ¬pattern <:+: text) : splitAt? pattern text = none := by
  cases hs : splitAt? pattern text with
  | none => rfl
  | some parts =>
    refine absurd ⟨parts.1, parts.2, ?_⟩ h
    rw [List.append_assoc]
    exact (eq_of_splitAt? hs).symm

/-- A text that begins with a pattern is split behind it. -/
theorem splitAt?_front (pattern back : List Char) :
    splitAt? pattern (pattern ++ back) = some ([], back) := by
  cases pattern with
  | nil => cases back <;> rfl
  | cons c rest =>
    have hprefixed : (c :: rest).isPrefixOf (c :: (rest ++ back)) = true :=
      List.isPrefixOf_iff_prefix.2 ⟨back, rfl⟩
    rw [List.cons_append, splitAt?, if_pos hprefixed, ← List.cons_append, List.drop_left]

/-- A text is split at the first occurrence of a pattern: none starts in front of it. -/
theorem splitAt?_of_first (hne : pattern ≠ []) (h : ¬pattern <:+: front ++ pattern.dropLast)
    (back : List Char) : splitAt? pattern (front ++ (pattern ++ back)) = some (front, back) := by
  induction front with
  | nil => exact splitAt?_front pattern back
  | cons c rest ih =>
    have hprefixed : ¬pattern.isPrefixOf (c :: (rest ++ (pattern ++ back))) = true := by
      intro hp
      -- A pattern at the front would end before the last character of the one behind it.
      have hlonger : c :: rest ++ pattern.dropLast <+: c :: (rest ++ (pattern ++ back)) := by
        refine ⟨[pattern.getLast hne] ++ back, ?_⟩
        rw [← List.append_assoc, List.append_assoc (c :: rest), List.dropLast_concat_getLast hne]
        simp
      have hlength : pattern.length ≤ (c :: rest ++ pattern.dropLast).length := by
        simp only [List.length_append, List.length_cons, List.length_dropLast]
        omega
      have hshort := List.prefix_of_prefix_length_le (List.isPrefixOf_iff_prefix.1 hp) hlonger hlength
      exact h hshort.isInfix
    have hrest : ¬pattern <:+: rest ++ pattern.dropLast := fun hin => h (hin.trans
      (List.suffix_cons c _).isInfix)
    rw [List.cons_append, splitAt?, if_neg hprefixed, ih hrest]
    rfl

/-- No pattern starts in a text and ends behind it if it lacks the last character of the text. -/
theorem not_infix_append {c : Char} (hc : c ∉ pattern) (h : ¬pattern <:+: front ++ [c])
    (hne : pattern ≠ []) : ¬pattern <:+: front ++ [c] ++ pattern.dropLast := by
  rintro ⟨before, after, heq⟩
  have hpos : 0 < pattern.length := List.length_pos_iff.2 hne
  rcases List.append_eq_append_iff.1 heq with ⟨x, hfront, -⟩ | ⟨x, hbefore, hlast⟩
  · exact h ⟨before, x, hfront.symm⟩
  · have hlength := congrArg List.length hlast
    rw [List.length_append, List.length_dropLast] at hlength
    rw [List.append_assoc] at hbefore
    rcases List.append_eq_append_iff.1 hbefore with ⟨y, -, hpattern⟩ | ⟨y, -, hpattern⟩
    · rw [hpattern] at hc
      simp at hc
    · cases y with
      | nil =>
        rw [List.nil_append] at hpattern
        rw [← hpattern] at hc
        simp at hc
      | cons d y =>
        have hcount := congrArg List.length hpattern
        simp only [List.length_append, List.length_cons, List.length_nil] at hcount
        omega

theorem marker_ne_nil : marker.toList ≠ [] := by decide

/-- What stands between the first marker and the next is extracted. -/
theorem extractChars_of_first {before inside : List Char}
    (hbefore : ¬marker.toList <:+: before ++ marker.toList.dropLast)
    (hinside : ¬marker.toList <:+: inside ++ marker.toList.dropLast) (after : List Char) :
    extractChars (before ++ (marker.toList ++ (inside ++ (marker.toList ++ after))))
      = .ok inside := by
  rw [extractChars, splitAt?_of_first marker_ne_nil hbefore]
  simp only [splitAt?_of_first marker_ne_nil hinside]

/-- A dump that can be extracted from a text is the dump of the text. -/
theorem payload_of_extractChars {inside : List Char} (h : extractChars text = .ok inside) :
    payload text = .ok inside := by
  rw [payload, h]
  split
  · rfl
  · next hnone =>
    rw [Option.not_isSome_iff_eq_none] at hnone
    rw [extractChars, hnone] at h
    cases h

/-- A text without a marker is a dump as a whole. -/
theorem payload_bare (h : ¬marker.toList <:+: text) : payload text = .ok text := by
  rw [payload, splitAt?_eq_none h]
  rfl

/-- The text of a mapping is found between the first marker of a log and the next. -/
theorem payload_marked {json : String} {entries : List (Scalar × Value)} {before : List Char}
    (hjson : Json.parse json = .ok (.mapping entries)) (hinside : ¬marker.toList <:+: json.toList)
    (hbefore : ¬marker.toList <:+: before ++ marker.toList.dropLast) (after : List Char) :
    payload (before ++ (marker.toList ++ (json.toList ++ (marker.toList ++ after))))
      = .ok json.toList := by
  obtain ⟨front, blanks, htext, hblanks⟩ := Json.exists_of_parse_mapping hjson
  -- The last character is white space or the brace.
  obtain ⟨start, c, hlast, hc⟩ : ∃ start c, json.toList = start ++ [c] ∧ c ∉ marker.toList := by
    rcases List.eq_nil_or_concat blanks with rfl | ⟨more, c, rfl⟩
    · exact ⟨front, '\x7d', htext, by decide⟩
    · refine ⟨front ++ '\x7d' :: more, c, by rw [htext]; simp, ?_⟩
      have hspace := hblanks c (by simp)
      intro hmem
      have hnone : marker.toList.all (fun d => !Json.isSpace d) = true := by decide
      have hc := List.all_eq_true.1 hnone c hmem
      rw [hspace] at hc
      cases hc
  have hclose : ¬marker.toList <:+: json.toList ++ marker.toList.dropLast := by
    rw [hlast] at hinside ⊢
    exact not_infix_append hc hinside marker_ne_nil
  exact payload_of_extractChars (extractChars_of_first hbefore hclose after)

end LuaCoverage.Dump
