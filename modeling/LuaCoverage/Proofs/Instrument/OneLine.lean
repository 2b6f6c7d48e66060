import LuaCoverage.Instrument.Call
import LuaCoverage.Proofs.Decimal.Integer

/-!
# Probe calls stay on one line

A text is *visible* when it has no ASCII control character. Identifiers, numbers and quoted texts
are visible, whatever was quoted, and so is all that is written at a site. Its bytes are above the
control characters too, since UTF-8 has no small byte in the encoding of a large character.

Results:
* `visible_quote`: the literal of any text is visible.
* `Call.visible_text`: what is written at a site is visible.
* `newline_not_mem_ofString`: its bytes are neither line feeds nor carriage returns.
-/

namespace LuaCoverage
open LuaCoverage.Decimal LuaCoverage.Text

/-- Whether a character is no ASCII control character. -/
def IsVisible (c : Char) : Prop := 0x20 ≤ c.toNat ∧ c.toNat ≠ 0x7f

instance (c : Char) : Decidable (IsVisible c) := inferInstanceAs (Decidable (_ ∧ _))

/-- Whether a text has no ASCII control characters. -/
def Visible (text : String) : Prop := ∀ c ∈ text.toList, IsVisible c

instance (text : String) : Decidable (Visible text) := List.decidableBAll _ _

theorem visible_append {a b : String} : Visible (a ++ b) ↔ Visible a ∧ Visible b := by
  simp [Visible, String.toList_append, or_imp, forall_and]

theorem visible_ofList {chars : List Char} :
    Visible (String.ofList chars) ↔ ∀ c ∈ chars, IsVisible c := by
  simp [Visible]

/-! ## Numbers -/

theorem visible_digits (n : Nat) : ∀ c ∈ digits n, IsVisible c := by
  intro c hc
  have hdigit := isAsciiDigit_of_mem_digits n c hc
  simp only [isAsciiDigit, Bool.and_eq_true, decide_eq_true_eq] at hdigit
  unfold IsVisible
  omega

theorem visible_intText (n : Int) : Visible (intText n) := by
  rw [intText, visible_ofList]
  cases n with
  | ofNat n => exact visible_digits n
  | negSucc n =>
    intro c hc
    rcases List.mem_cons.1 hc with rfl | hc
    · decide
    · exact visible_digits (n + 1) c hc

theorem visible_padded (width n : Nat) : ∀ c ∈ padded width n, IsVisible c := by
  intro c hc
  rcases List.mem_append.1 hc with hc | hc
  · obtain ⟨-, rfl⟩ := List.mem_replicate.1 hc
    decide
  · exact visible_digits n c hc

/-! ## Quoted texts and identifiers -/

theorem visible_quoteChar (c : Char) : ∀ d ∈ Lua.quoteChar c, IsVisible d := by
  intro d hd
  unfold Lua.quoteChar at hd
  split at hd
  · next hc =>
    simp only [Bool.or_eq_true, beq_iff_eq] at hc
    simp only [List.mem_cons, List.not_mem_nil, or_false] at hd
    rcases hd with rfl | rfl
    · decide
    · rcases hc with rfl | rfl <;> decide
  · split at hd
    · rcases List.mem_cons.1 hd with rfl | hd
      · decide
      · exact visible_padded 3 c.toNat d hd
    · next hc =>
      obtain rfl := List.mem_singleton.1 hd
      simp only [Bool.or_eq_true, decide_eq_true_eq, beq_iff_eq, not_or] at hc
      exact ⟨by omega, hc.2⟩

/-- The literal of any text is visible. -/
theorem visible_quote (text : String) : Visible (Lua.quote text) := by
  rw [Lua.quote, visible_ofList]
  intro c hc
  simp only [Lua.quoteChars, List.cons_append, List.mem_cons, List.mem_append, List.mem_flatMap,
    List.not_mem_nil, or_false] at hc
  rcases hc with rfl | ⟨d, -, hd⟩ | rfl
  · decide
  · exact visible_quoteChar d c hd
  · decide

theorem visible_of_isIdentifierPart {c : Char} (h : isIdentifierPart c = true) : IsVisible c := by
  unfold isIdentifierPart at h
  split at h
  · simp only [isAsciiLetter, isAsciiDigit, Bool.or_eq_true, Bool.and_eq_true, decide_eq_true_eq,
      beq_iff_eq] at h
    unfold IsVisible
    rcases h with (h | h) | rfl
    · omega
    · omega
    · decide
  · next hascii =>
    simp only [isAscii, decide_eq_true_eq] at hascii
    unfold IsVisible
    omega

theorem visible_of_isIdentifierStart {c : Char} (h : isIdentifierStart c = true) :
    IsVisible c := by
  unfold isIdentifierStart at h
  split at h
  · simp only [isAsciiLetter, Bool.or_eq_true, Bool.and_eq_true, decide_eq_true_eq,
      beq_iff_eq] at h
    unfold IsVisible
    rcases h with h | rfl
    · omega
    · decide
  · next hascii =>
    simp only [isAscii, decide_eq_true_eq] at hascii
    unfold IsVisible
    omega

theorem visible_name (name : ProbeName) : Visible name.text := by
  intro c hc
  have hname := name.isIdentifier
  cases htext : name.text.toList with
  | nil => simp [htext] at hc
  | cons first rest =>
    rw [htext] at hname hc
    simp only [isIdentifier, Bool.and_eq_true, List.all_eq_true] at hname
    rcases List.mem_cons.1 hc with rfl | hc
    · exact visible_of_isIdentifierStart hname.1
    · exact visible_of_isIdentifierPart (hname.2 c hc)

/-! ## Probe calls -/

namespace Call

theorem visible_armText (arm : Option Int) : Visible (armText arm) := by
  cases arm with
  | none => decide
  | some n => exact visible_intText n

theorem visible_code (kind : ProbeKind) : Visible kind.code := by
  cases kind <;> decide

theorem visible_opening (name : ProbeName) (path : String) {code : String} (hc : Visible code)
    (id : Int) : Visible (opening name path code id) := by
  simp only [opening, visible_append]
  exact ⟨⟨⟨⟨⟨⟨visible_name name, by decide⟩, visible_quote path⟩, by decide⟩, hc⟩, by decide⟩,
    visible_intText id⟩

theorem visible_alone (name : ProbeName) (path : String) (s : Site) :
    Visible (alone name path s) := by
  simp only [alone, visible_append]
  refine ⟨⟨visible_opening name path (visible_code s.kind) s.id, ?_⟩, by decide⟩
  split
  · exact visible_append.2 ⟨by decide, visible_armText s.arm⟩
  · decide

/-- What is written at a site is visible. -/
theorem visible_text (name : ProbeName) (path : String) (s : Site) :
    Visible (text name path s) := by
  unfold text
  split
  · decide
  · simp only [visible_append]
    exact ⟨⟨by decide, visible_opening name path (by decide) s.id⟩, by decide⟩
  · simp only [visible_append]
    exact ⟨⟨⟨⟨by decide, visible_opening name path (visible_code s.kind) s.id⟩, by decide⟩,
      visible_armText s.arm⟩, by decide⟩
  · simp only [visible_append]
    exact ⟨⟨by decide, visible_alone name path s⟩, by decide⟩
  · exact visible_append.2 ⟨by decide, visible_alone name path s⟩

end Call

/-! ## Bytes -/

theorem visible_encodeChar {c : Char} (h : IsVisible c) {b : UInt8}
    (hb : b ∈ Utf8.encodeChar c) : 0x20 ≤ b.toNat ∧ b.toNat ≠ 0x7f := by
  obtain ⟨hlow, hdel⟩ := h
  by_cases hascii : c.toNat < 0x80
  · simp only [Utf8.encodeChar, if_pos hascii] at hb
    obtain rfl := List.mem_singleton.1 hb
    rw [UInt8.toNat_ofNat']
    omega
  · have hlarge := Utf8.le_of_mem_encodeChar (Nat.not_lt.1 hascii) hb
    omega

/-- The bytes of a visible text are neither line feeds nor carriage returns. -/
theorem newline_not_mem_ofString {text : String} (h : Visible text) :
    10 ∉ Utf8.ofString text ∧ 13 ∉ Utf8.ofString text := by
  have hbytes : ∀ b ∈ Utf8.ofString text, 0x20 ≤ b.toNat := by
    intro b hb
    obtain ⟨c, hc, hb⟩ := List.mem_flatMap.1 hb
    exact (visible_encodeChar (h c hc) hb).1
  constructor
  · intro hb
    exact absurd (hbytes 10 hb) (by decide)
  · intro hb
    exact absurd (hbytes 13 hb) (by decide)

end LuaCoverage
