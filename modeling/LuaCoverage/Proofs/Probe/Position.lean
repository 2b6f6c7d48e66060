import LuaCoverage.Probe.Position
import LuaCoverage.Proofs.Text.Utf8
import Mathlib.Data.List.DropRight
import Mathlib.Data.List.Infix

/-!
# Positions and offsets

A tree gives an offset in a source as a *point*: the number of newlines in front of it, and the
number of bytes since the last one. The position of the offset is found at its point. If the source
is the encoding of a text and the offset stands behind some first characters of it, the position
counts the newlines among these characters and the characters behind the last newline. So positions
follow each other as offsets do, and an offset is found again from its position.

Facts about lines are proved by induction on the lines: a text is one line, or a line, a newline and
a text.

Results:
* `Position.inLines_eq`: the position of an offset in any source.
* `Position.ofOffset_encode`: the position behind some first characters of a text.
* `Position.before_behind`: more characters lead to a later position.
* `Position.toOffset_behind`: the way back.
* `Position.ofOffset_behind`: all of these, for a source that can be decoded.
-/

namespace LuaCoverage
open LuaCoverage.Text

namespace Text

section Lines
variable {α : Type} [DecidableEq α] {sep : α}

/-- Induction on the lines of a text. -/
@[elab_as_elim]
theorem line_induction {motive : List α → Prop} (sep : α)
    (last : ∀ line, sep ∉ line → motive line)
    (more : ∀ line rest, sep ∉ line → motive rest → motive (line ++ sep :: rest))
    (text : List α) : motive text := by
  induction hlength : text.length using Nat.strongRecOn generalizing text with
  | ind length ih =>
    by_cases hsep : sep ∈ text
    · obtain ⟨line, rest, rfl, hline⟩ := List.eq_append_cons_of_mem hsep
      have hshort : rest.length < length := by
        rw [← hlength, List.length_append, List.length_cons]
        omega
      exact more line rest hline (ih _ hshort rest rfl)
    · exact last text hsep

/-- What stands behind the last separator of a text. -/
def lastLine (sep : α) (text : List α) : List α := text.rtakeWhile (· ≠ sep)

theorem lastLine_of_not_mem {line : List α} (h : sep ∉ line) : lastLine sep line = line := by
  rw [lastLine, List.rtakeWhile_eq_self_iff]
  intro x hx
  have hne : x ≠ sep := fun heq => h (heq ▸ hx)
  simpa using hne

theorem lastLine_append {back : List α} (h : sep ∉ back) (front : List α) :
    lastLine sep (front ++ back) = lastLine sep front ++ back := by
  induction back using List.reverseRecOn with
  | nil => rw [List.append_nil, List.append_nil]
  | append_singleton back x ih =>
    simp only [List.mem_append, List.mem_singleton, not_or] at h
    have hx : decide (x ≠ sep) = true := decide_eq_true fun heq => h.2 heq.symm
    rw [← List.append_assoc, lastLine, List.rtakeWhile_concat, if_pos hx, ← lastLine, ih h.1,
      List.append_assoc]

theorem lastLine_append_cons (line rest : List α) :
    lastLine sep (line ++ sep :: rest) = lastLine sep rest := by
  have hnil : lastLine sep (line ++ [sep]) = [] := by
    rw [lastLine, List.rtakeWhile_concat_neg]
    simp
  induction rest using List.reverseRecOn with
  | nil => exact hnil
  | append_singleton rest x ih =>
    rw [← List.cons_append, ← List.append_assoc, lastLine, lastLine, List.rtakeWhile_concat,
      List.rtakeWhile_concat, ← lastLine, ← lastLine, ih]

end Lines

/-! ## Newlines in UTF-8 -/

namespace Utf8

theorem newline_not_mem_encodeChar {c : Char} (h : c ≠ '\n') : 10 ∉ encodeChar c := by
  intro hmem
  by_cases hascii : c.toNat < 0x80
  · simp only [encodeChar, if_pos hascii, List.mem_singleton] at hmem
    have hten : 10 = c.toNat := by
      have hten : 10 = (UInt8.ofNat c.toNat).toNat := congrArg UInt8.toNat hmem
      rw [UInt8.toNat_ofNat'] at hten
      omega
    exact h (Char.toNat_inj.1 hten.symm)
  · have hlarge := le_of_mem_encodeChar (Nat.not_lt.1 hascii) hmem
    exact absurd hlarge (by decide)

theorem newline_not_mem_encode {chars : List Char} (h : '\n' ∉ chars) : 10 ∉ encode chars := by
  rw [encode, List.mem_flatMap]
  rintro ⟨c, hc, hmem⟩
  exact newline_not_mem_encodeChar (fun heq => h (heq ▸ hc)) hmem

theorem encode_append_newline (line rest : List Char) :
    encode (line ++ '\n' :: rest) = encode line ++ 10 :: encode rest := by
  rw [encode_append]
  rfl

theorem count_encode (chars : List Char) : (encode chars).count 10 = chars.count '\n' := by
  induction chars using line_induction '\n' with
  | last line hline =>
    rw [List.count_eq_zero_of_not_mem hline,
      List.count_eq_zero_of_not_mem (newline_not_mem_encode hline)]
  | more line rest hline ih =>
    rw [encode_append_newline, List.count_append, List.count_append, List.count_cons_self,
      List.count_cons_self, ih, List.count_eq_zero_of_not_mem hline,
      List.count_eq_zero_of_not_mem (newline_not_mem_encode hline)]

theorem lastLine_encode (chars : List Char) :
    lastLine 10 (encode chars) = encode (lastLine '\n' chars) := by
  induction chars using line_induction '\n' with
  | last line hline =>
    rw [lastLine_of_not_mem hline, lastLine_of_not_mem (newline_not_mem_encode hline)]
  | more line rest _ ih =>
    rw [encode_append_newline, lastLine_append_cons, lastLine_append_cons, ih]

theorem partsFrom_append (tail rest : Bytes) :
    partsFrom tail.length (tail ++ rest) = partsFrom 0 rest := by
  induction tail with
  | nil => rfl
  | cons b tail ih => rw [List.length_cons, List.cons_append, partsFrom, ih]

/-- Nothing is lost of an encoding. -/
theorem decodeLossy_encode (chars : List Char) : decodeLossy (encode chars) = chars := by
  induction chars with
  | nil => rfl
  | cons c rest ih =>
    obtain ⟨b, tail, hcons, hpart⟩ := exists_encode_cons c rest
    rw [hcons, decodeLossy, parts, partsFrom, hpart]
    simp only [Part.width, Nat.add_sub_cancel, partsFrom_append, List.map_cons, Part.toChar]
    rw [← parts, ← decodeLossy, ih]

end Utf8

end Text

/-! ## Lines of a source -/

theorem splitLines_eq_splitOn (source : Bytes) : splitLines source = source.splitOn 10 := by
  induction source with
  | nil => rfl
  | cons b rest ih =>
    rw [List.splitOn_cons_eq_if_modifyHead, ← ih, splitLines]
    by_cases hb : b = 10
    · simp [hb]
    · simp only [hb, beq_iff_eq, if_false]
      cases hrest : splitLines rest with
      | nil => exact absurd hrest (splitLines_ne_nil rest)
      | cons line more => rfl

theorem splitLines_of_not_mem {line : Bytes} (h : 10 ∉ line) : splitLines line = [line] := by
  rw [splitLines_eq_splitOn, List.splitOn_eq_singleton h]

theorem splitLines_append_cons {line : Bytes} (h : 10 ∉ line) (rest : Bytes) :
    splitLines (line ++ 10 :: rest) = line :: splitLines rest := by
  rw [splitLines_eq_splitOn, List.splitOn_append_cons_self, List.splitOn_eq_singleton h,
    splitLines_eq_splitOn]
  rfl

/-! ## Points -/

/-- The number of lines in front of an offset, and of bytes in front of it in its line. -/
structure Point where
  row : Nat
  column : Nat
  deriving DecidableEq, Repr

namespace Point

/-- The point of an offset in a source. -/
def ofOffset (source : Bytes) (offset : Nat) : Point :=
  let front := source.take offset
  ⟨front.count 10, (lastLine 10 front).length⟩

end Point

namespace Position

/-- The position at a point: its line, and the characters that the bytes in front of it in the line
decode to. -/
def ofPoint (lines : List Bytes) (p : Point) : Position :=
  ⟨p.row + 1, (Utf8.decodeLossy ((lines[p.row]?.getD []).take p.column)).length⟩

/-- What an offset has in front of it, if a line and a newline come first. -/
theorem take_cases (line rest : Bytes) (offset : Nat) :
    offset ≤ line.length ∧ (line ++ 10 :: rest).take offset = line.take offset
      ∨ ∃ further, offset = line.length + 1 + further
        ∧ (line ++ 10 :: rest).take offset = line ++ 10 :: rest.take further := by
  by_cases hoffset : offset ≤ line.length
  · exact .inl ⟨hoffset, List.take_append_of_le_length hoffset⟩
  · refine .inr ⟨offset - line.length - 1, by omega, ?_⟩
    rw [List.take_append, List.take_of_length_le (by omega),
      show offset - line.length = offset - line.length - 1 + 1 by omega, List.take_succ_cons]
    rfl

section Lines
variable {line : Bytes} (h : 10 ∉ line) (offset : Nat)
include h

theorem count_take : (line.take offset).count 10 = 0 :=
  List.count_eq_zero_of_not_mem fun hmem => h (List.mem_of_mem_take hmem)

theorem lastLine_take : lastLine 10 (line.take offset) = line.take offset :=
  lastLine_of_not_mem fun hmem => h (List.mem_of_mem_take hmem)

theorem count_append_cons (rest : Bytes) : (line ++ 10 :: rest).count 10 = rest.count 10 + 1 := by
  rw [List.count_append, List.count_cons_self, List.count_eq_zero_of_not_mem h, Nat.zero_add]

end Lines

/-- The bytes of a line in front of a point are those behind the last newline. -/
theorem take_line (source : Bytes) (offset : Nat) :
    ((splitLines source)[(source.take offset).count 10]?.getD []).take
      (lastLine 10 (source.take offset)).length = lastLine 10 (source.take offset) := by
  induction source using line_induction (10 : UInt8) generalizing offset with
  | last line hline =>
    rw [splitLines_of_not_mem hline, count_take hline, lastLine_take hline, List.length_take]
    simp
  | more line rest hline ih =>
    rw [splitLines_append_cons hline]
    rcases take_cases line rest offset with ⟨hoffset, htake⟩ | ⟨further, -, htake⟩
    · rw [htake, count_take hline, lastLine_take hline, List.length_take]
      simp
    · rw [htake, count_append_cons hline, lastLine_append_cons, List.getElem?_cons_succ]
      exact ih further

/-- The position of an offset in any source, behind some lines. -/
theorem inLines_eq (row : Nat) (source : Bytes) (offset : Nat) :
    inLines row (Line.ofSource source) offset
      = ⟨row + (source.take offset).count 10 + 1,
        (Utf8.decodeLossy (lastLine 10 (source.take offset))).length⟩ := by
  induction source using line_induction (10 : UInt8) generalizing row offset with
  | last line hline =>
    rw [Line.ofSource, splitLines_of_not_mem hline, count_take hline, lastLine_take hline]
    simp [inLines, Line.ofBytes]
  | more line rest hline ih =>
    rw [Line.ofSource, splitLines_append_cons hline, List.map_cons, ← Line.ofSource, inLines]
    rcases take_cases line rest offset with ⟨hoffset, htake⟩ | ⟨further, rfl, htake⟩
    · rw [htake, count_take hline, lastLine_take hline, if_pos (by simp [Line.ofBytes, hoffset])]
      simp [Line.ofBytes]
    · have hrest : (Line.ofSource rest).isEmpty = false := by
        simp [Line.ofSource, splitLines_ne_nil]
      have hfurther : ¬(line.length + 1 + further ≤ line.length) := by omega
      have hoffset : line.length + 1 + further - line.length - 1 = further := by omega
      rw [htake, count_append_cons hline, lastLine_append_cons,
        if_neg (by simp [Line.ofBytes, hrest, hfurther])]
      simp only [Line.ofBytes, hoffset, ih, mk.injEq, and_true]
      omega

/-- The position of an offset in a source is found at its point. -/
theorem ofOffset_eq_ofPoint (source : Bytes) (offset : Nat) :
    ofOffset (Line.ofSource source) offset
      = ofPoint (splitLines source) (Point.ofOffset source offset) := by
  simp only [ofOffset, inLines_eq, ofPoint, Point.ofOffset, take_line, Int.natCast_zero,
    Int.zero_add]

/-! ## Texts -/

/-- The position behind some characters: on the line that their newlines lead to, behind the
characters since the last newline. -/
def behind (front : List Char) : Position :=
  ⟨1 + front.count '\n', (lastLine '\n' front).length⟩

/-- One position comes before another: on a line further up, or further left on its line. -/
def Before (p q : Position) : Prop := p.line < q.line ∨ p.line = q.line ∧ p.column < q.column

instance : DecidableRel Before := fun _ _ => inferInstanceAs (Decidable (_ ∨ _ ∧ _))

/-- The position behind some first characters of a text. -/
theorem ofOffset_encode {chars front : List Char} (h : front <+: chars) :
    ofOffset (Line.ofSource (Utf8.encode chars)) (Utf8.encode front).length = behind front := by
  obtain ⟨back, rfl⟩ := h
  rw [ofOffset, inLines_eq, Utf8.encode_append, List.take_left, Utf8.count_encode,
    Utf8.lastLine_encode, Utf8.decodeLossy_encode, Int.natCast_zero, Int.zero_add, behind,
    Int.add_comm]

/-- More characters lead to a later position. -/
theorem before_behind {back : List Char} (h : back ≠ []) (front : List Char) :
    (behind front).Before (behind (front ++ back)) := by
  by_cases hnewline : '\n' ∈ back
  · have hcount := List.count_pos_iff.2 hnewline
    refine .inl ?_
    rw [behind, behind, List.count_append]
    dsimp only
    omega
  · have hlength := List.length_pos_iff.2 h
    refine .inr ⟨?_, ?_⟩
    · rw [behind, behind, List.count_append, List.count_eq_zero_of_not_mem hnewline, Nat.add_zero]
    · rw [behind, behind, lastLine_append hnewline, List.length_append]
      dsimp only
      omega

/-- The offset in some lines that has so many lines in front of it, and so many characters in its
line. -/
def offsetIn : (row column : Nat) → List Line → Nat
  | _, _, [] => 0
  | 0, column, line :: _ => (Utf8.encode ((Utf8.decodeLossy line.bytes).take column)).length
  | row + 1, column, line :: rest => line.width + 1 + offsetIn row column rest

/-- The offset of a position in a source that is cut into lines. -/
def toOffset (lines : List Line) (p : Position) : Nat :=
  offsetIn (p.line - 1).toNat p.column.toNat lines

/-- The first line of a text, if it holds all of the characters in front. -/
theorem offsetIn_first {line front : List Char} (hline : '\n' ∉ line) (h : front <+: line)
    (rest : List Line) :
    offsetIn (front.count '\n') (lastLine '\n' front).length
        (Line.ofBytes (Utf8.encode line) :: rest) = (Utf8.encode front).length := by
  have hnot : '\n' ∉ front := fun hmem => hline (h.subset hmem)
  rw [List.count_eq_zero_of_not_mem hnot, lastLine_of_not_mem hnot, offsetIn, Line.ofBytes,
    Utf8.decodeLossy_encode, ← List.prefix_iff_eq_take.1 h]

theorem offsetIn_eq {chars front : List Char} (h : front <+: chars) :
    offsetIn (front.count '\n') (lastLine '\n' front).length (Line.ofSource (Utf8.encode chars))
      = (Utf8.encode front).length := by
  induction chars using line_induction '\n' generalizing front with
  | last line hline =>
    rw [Line.ofSource, splitLines_of_not_mem (Utf8.newline_not_mem_encode hline)]
    exact offsetIn_first hline h []
  | more line rest hline ih =>
    rw [Line.ofSource, Utf8.encode_append_newline,
      splitLines_append_cons (Utf8.newline_not_mem_encode hline), List.map_cons, ← Line.ofSource]
    obtain ⟨back, hback⟩ := h
    rcases List.append_eq_append_iff.1 hback with ⟨more, hline', -⟩ | ⟨more, rfl, hrest⟩
    · exact offsetIn_first hline ⟨more, hline'.symm⟩ _
    · cases more with
      | nil => exact offsetIn_first hline (by rw [List.append_nil]) _
      | cons c further =>
        obtain ⟨rfl, hfurther⟩ := List.cons_eq_cons.1 hrest
        rw [List.count_append, List.count_eq_zero_of_not_mem hline, Nat.zero_add,
          List.count_cons_self, lastLine_append_cons, offsetIn, ih ⟨back, hfurther.symm⟩,
          Utf8.encode_append_newline, List.length_append, List.length_cons]
        simp only [Line.ofBytes]
        omega

/-- The way back, from the position behind some first characters of a text. -/
theorem toOffset_behind {chars front : List Char} (h : front <+: chars) :
    toOffset (Line.ofSource (Utf8.encode chars)) (behind front) = (Utf8.encode front).length := by
  have hline : (1 + (front.count '\n' : Int) - 1).toNat = front.count '\n' := by omega
  rw [toOffset, behind]
  dsimp only
  rw [hline, Int.toNat_natCast, offsetIn_eq h]

/-! ## Sources that can be decoded -/

/-- An offset in the encoding of a text stands behind some first characters of it. -/
def IsBehind (chars : List Char) (offset : Nat) (front : List Char) : Prop :=
  front <+: chars ∧ offset = (Utf8.encode front).length

/-- In a source that can be decoded, the position of an offset is found at its point. If the offset
stands behind some characters, its position counts the newlines among them and the characters since
the last one; the offset is found again from it, and later offsets have later positions. -/
theorem ofOffset_behind {source : Bytes} {chars : List Char}
    (h : Utf8.decode source = .ok chars) :
    (∀ offset, ofOffset (Line.ofSource source) offset
      = ofPoint (splitLines source) (Point.ofOffset source offset))
    ∧ ∀ {offset front}, IsBehind chars offset front →
      ofOffset (Line.ofSource source) offset
          = ⟨1 + front.count '\n', (front.rtakeWhile (· ≠ '\n')).length⟩
        ∧ toOffset (Line.ofSource source) (ofOffset (Line.ofSource source) offset) = offset
        ∧ ∀ {later front'}, IsBehind chars later front' → offset < later →
          (ofOffset (Line.ofSource source) offset).Before
            (ofOffset (Line.ofSource source) later) := by
  obtain rfl := Utf8.encode_of_decode h
  refine ⟨ofOffset_eq_ofPoint _, ?_⟩
  rintro _ front ⟨hfront, rfl⟩
  have hoffset := ofOffset_encode hfront
  refine ⟨hoffset, ?_, ?_⟩
  · rw [hoffset, toOffset_behind hfront]
  · rintro _ front' ⟨hfront', rfl⟩ hlt
    rw [hoffset, ofOffset_encode hfront']
    rcases List.prefix_or_prefix_of_prefix hfront hfront' with ⟨more, rfl⟩ | ⟨more, rfl⟩
    · refine before_behind ?_ front
      rintro rfl
      simp at hlt
    · rw [Utf8.encode_append, List.length_append] at hlt
      omega

/-- The first character of a second line has three bytes, and a carriage return ends the first. -/
theorem ofOffset_behind_sample :
    ofOffset (Line.ofSource (Utf8.encode "é\r\n→x".toList)) 7 = ⟨2, 1⟩
    ∧ toOffset (Line.ofSource (Utf8.encode "é\r\n→x".toList)) ⟨2, 1⟩ = 7
    ∧ Before ⟨2, 1⟩ (ofOffset (Line.ofSource (Utf8.encode "é\r\n→x".toList)) 8) := by
  have hback : IsBehind "é\r\n→x".toList 7 "é\r\n→".toList := ⟨by decide, by decide⟩
  have hlater : IsBehind "é\r\n→x".toList 8 "é\r\n→x".toList := ⟨by decide, by decide⟩
  obtain ⟨-, hbehind⟩ := ofOffset_behind (Utf8.decode_encode "é\r\n→x".toList)
  obtain ⟨hposition, hoffset, hbefore⟩ := hbehind hback
  have hpair : ofOffset (Line.ofSource (Utf8.encode "é\r\n→x".toList)) 7 = ⟨2, 1⟩ :=
    hposition.trans (by decide)
  rw [hpair] at hoffset
  have hlast := hbefore hlater (by decide)
  rw [hpair] at hlast
  exact ⟨hpair, hoffset, hlast⟩

end Position

end LuaCoverage
