import LuaCoverage.Proofs.Instrument.OneLine

/-!
# Literals in probe calls

A probe call names its module by a string literal. Scanned behind its opening quote, what is
written for a character of the module's path gives the character back and leaves what follows it
alone: a backslash takes the quote or the backslash behind it along, and a control character is
always three digits long, so a digit behind it does not count. So the literal ends at its last
character whatever follows it, and no path changes what is around its literal.

Results:
* `padded_three`: three digits of a number.
* `Lua.unquoteRest?_quoteChar`: the scan goes over one character as it is written.
* `Call.exists_around`: all that a call has around the literal does not depend on the path.
* `Lua.quote_scanned`: the scan of a literal, its characters, and the calls that hold it.
-/

namespace LuaCoverage
open LuaCoverage.Text LuaCoverage.Decimal

namespace Decimal

/-- Three digits of a number that has no more. -/
theorem padded_three {n : Nat} (h : n < 1000) :
    padded 3 n = [digitChar (n / 100), digitChar (n / 10), digitChar n] := by
  have hzero : digitChar 0 = '0' := by decide
  by_cases hone : n < 10
  · have hdigits : digits n = [digitChar n] := by rw [digits_eq, if_pos hone]
    rw [padded, hdigits, show n / 100 = 0 by omega, show n / 10 = 0 by omega, hzero]
    rfl
  · by_cases htwo : n < 100
    · have hdigits : digits n = [digitChar (n / 10), digitChar n] := by
        rw [digits_eq, if_neg hone, digits_eq, if_pos (by omega)]
        rfl
      rw [padded, hdigits, show n / 100 = 0 by omega, hzero]
      rfl
    · have hdigits : digits n = [digitChar (n / 100), digitChar (n / 10), digitChar n] := by
        rw [digits_eq, if_neg hone, digits_eq, if_neg (by omega), digits_eq, if_pos (by omega),
          Nat.div_div_eq_div_mul]
        rfl
      rw [padded, hdigits]
      rfl

end Decimal

namespace Lua

/-- Three digits tell the code of an ASCII character. -/
theorem ofCode?_digits {c : Char} (h : c.toNat < 0x80) :
    ofCode? (digitChar (c.toNat / 100)) (digitChar (c.toNat / 10)) (digitChar c.toNat)
      = some c := by
  have hcode : ((0x30 + c.toNat / 100 % 10 - 48) * 10 + (0x30 + c.toNat / 10 % 10 - 48)) * 10
      + (0x30 + c.toNat % 10 - 48) = c.toNat := by omega
  simp only [ofCode?, toNat_digitChar, hcode, List.all_cons, List.all_nil, isAsciiDigit_digitChar,
    Char.ofNat_toNat]
  rw [if_pos (by simpa using h)]

/-- The scan goes over one character as it is written. -/
theorem unquoteRest?_quoteChar (c : Char) (rest : List Char) :
    unquoteRest? (quoteChar c ++ rest)
      = (unquoteRest? rest).map fun (text, behind) => (c :: text, behind) := by
  unfold quoteChar
  split
  · next hmark =>
    have hmark : c = '"' ∨ c = '\\' := by simpa using hmark
    rcases hmark with rfl | rfl <;> rfl
  · next hmark =>
    simp only [Bool.or_eq_true, beq_iff_eq, not_or] at hmark
    split
    · next hcontrol =>
      simp only [Bool.or_eq_true, decide_eq_true_eq, beq_iff_eq] at hcontrol
      have hdigit : ∀ n, digitChar n ≠ '"' ∧ digitChar n ≠ '\\' := by
        intro n
        have hdigit := isAsciiDigit_digitChar n
        constructor <;> intro heq <;> rw [heq] at hdigit <;> cases hdigit
      rw [padded_three (by omega)]
      simp [unquoteRest?, hdigit, ofCode?_digits (c := c) (by omega)]
    · next hcontrol =>
      simp only [Bool.or_eq_true, decide_eq_true_eq, beq_iff_eq, not_or] at hcontrol
      have hline : ¬(c = '\n' ∨ c = '\r') := by
        rintro (rfl | rfl) <;> simp at hcontrol
      simp [unquoteRest?, hmark, hline]

/-- The scan of a literal ends at its last character, whatever follows it. -/
theorem unquote?_quote (text : String) (rest : List Char) :
    unquote? ((quote text).toList ++ rest) = some (text.toList, rest) := by
  have hbody : ∀ chars : List Char,
      unquoteRest? (chars.flatMap quoteChar ++ '"' :: rest) = some (chars, rest) := by
    intro chars
    induction chars with
    | nil => rfl
    | cons c chars ih => rw [List.flatMap_cons, List.append_assoc, unquoteRest?_quoteChar, ih]; rfl
  have hliteral : (quote text).toList ++ rest
      = '"' :: (text.toList.flatMap quoteChar ++ '"' :: rest) := by
    simp [quote, quoteChars]
  rw [hliteral, unquote?, hbody]

theorem quote_injective : Function.Injective quote := by
  intro a b h
  have ha := unquote?_quote a []
  rw [h, unquote?_quote b []] at ha
  simpa [eq_comm, String.toList_inj] using ha

end Lua

/-! ## Around the literal -/

theorem quote_not_mem_name (name : ProbeName) : '"' ∉ name.text.toList := by
  have hname := name.isIdentifier
  intro hmem
  cases htext : name.text.toList with
  | nil => simp [htext] at hmem
  | cons first rest =>
    rw [htext] at hname hmem
    simp only [isIdentifier, Bool.and_eq_true, List.all_eq_true] at hname
    rcases List.mem_cons.1 hmem with rfl | hmem
    · exact absurd hname.1 (by decide +kernel)
    · exact absurd (hname.2 '"' hmem) (by decide +kernel)

/-- All that a call has around the literal does not depend on the path, and the literal begins at
the first quote. -/
theorem Call.exists_around (name : ProbeName) {s : Site} (h : s.style ≠ .closer) :
    ∃ front back : String, '"' ∉ front.toList
      ∧ ∀ path, Call.text name path s = front ++ Lua.quote path ++ back := by
  have hname := quote_not_mem_name name
  cases hstyle : s.style with
  | closer => exact absurd hstyle h
  | conditionOpener =>
    refine ⟨" " ++ name.text ++ "(", ", \"" ++ conditionCode ++ "\", " ++ intText s.id ++ ", nil, ",
      by simp [String.toList_append, hname], fun path => ?_⟩
    simp only [text, hstyle, opening, String.append_assoc]
  | opener =>
    refine ⟨" " ++ name.text ++ "(",
      ", \"" ++ s.kind.code ++ "\", " ++ intText s.id ++ ", " ++ armText s.arm ++ ", ",
      by simp [String.toList_append, hname], fun path => ?_⟩
    simp only [text, hstyle, opening, String.append_assoc]
  | elseArm =>
    refine ⟨" else " ++ name.text ++ "(", ", \"" ++ s.kind.code ++ "\", " ++ intText s.id
      ++ (if s.kind = .branch then ", " ++ armText s.arm else "") ++ ");" ++ " ",
      by simp [String.toList_append, hname], fun path => ?_⟩
    simp only [text, hstyle, alone, opening, String.append_assoc]
  | statement =>
    refine ⟨" " ++ name.text ++ "(", ", \"" ++ s.kind.code ++ "\", " ++ intText s.id
      ++ (if s.kind = .branch then ", " ++ armText s.arm else "") ++ ");",
      by simp [String.toList_append, hname], fun path => ?_⟩
    simp only [text, hstyle, alone, opening, String.append_assoc]

/-- The scan of a literal gives the text back and ends at the last character of the literal; the
literal has no control characters, and different texts have different literals. In a probe call the
literal of the path begins at the first quote, and what is around it is the same for all paths. -/
theorem Lua.quote_scanned :
    (∀ text rest, unquote? ((quote text).toList ++ rest) = some (text.toList, rest))
      ∧ (∀ text, Visible (quote text))
      ∧ Function.Injective quote
      ∧ ∀ (name : ProbeName) (s : Site), s.style ≠ .closer →
        ∃ front back : String, '"' ∉ front.toList ∧ ∀ path,
          Call.text name path s = front ++ quote path ++ back
            ∧ unquote? ((Call.text name path s).toList.drop front.length)
              = some (path.toList, back.toList) := by
  refine ⟨unquote?_quote, visible_quote, quote_injective, fun name s hstyle => ?_⟩
  obtain ⟨front, back, hfront, hcall⟩ := Call.exists_around name hstyle
  refine ⟨front, back, hfront, fun path => ⟨hcall path, ?_⟩⟩
  have hdrop : (Call.text name path s).toList.drop front.length
      = (quote path).toList ++ back.toList := by
    rw [hcall, String.append_assoc, String.toList_append, ← String.length_toList,
      List.drop_left, String.toList_append]
  rw [hdrop, unquote?_quote]

theorem Lua.quote_scanned_sample :
    (⟨4, 1, .elseArm, .branch, 7, some 1⟩ : Site).style ≠ .closer
    ∧ ∃ front back : String, '"' ∉ front.toList
      ∧ Call.text .standard "a\\\"\t1" ⟨4, 1, .elseArm, .branch, 7, some 1⟩
        = front ++ "\"a\\\\\\\"\\0091\"" ++ back
      ∧ unquote? ("\"a\\\\\\\"\\0091\"".toList ++ back.toList)
        = some ("a\\\"\t1".toList, back.toList) := by
  have hstyle : (⟨4, 1, .elseArm, .branch, 7, some 1⟩ : Site).style ≠ .closer := by decide
  have hquote : quote "a\\\"\t1" = "\"a\\\\\\\"\\0091\"" := by decide +kernel
  obtain ⟨hscan, -, -, haround⟩ := quote_scanned
  obtain ⟨front, back, hfront, hcall⟩ := haround .standard _ hstyle
  exact ⟨hstyle, front, back, hfront, hquote ▸ (hcall _).1, hquote ▸ hscan _ _⟩

end LuaCoverage
