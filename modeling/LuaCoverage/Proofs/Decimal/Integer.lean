import LuaCoverage.Decimal.Integer
import LuaCoverage.Proofs.Text.Utf8

/-!
# Integers are read as they are written

Results:
* `value_digits`: the digits of a number have its value.
* `readInt_intDigits`: the text of an integer is read as that integer.
-/

namespace LuaCoverage.Decimal
open LuaCoverage.Text

theorem toNat_digitChar (n : Nat) : (digitChar n).toNat = 0x30 + n % 10 :=
  Utf8.toNat_ofNat (by omega)

theorem isAsciiDigit_digitChar (n : Nat) : isAsciiDigit (digitChar n) = true := by
  simp only [isAsciiDigit, toNat_digitChar, Bool.and_eq_true, decide_eq_true_eq]
  omega

theorem isAsciiDigit_of_mem_digits (n : Nat) : ∀ c ∈ digits n, isAsciiDigit c = true := by
  induction n using digits.induct with
  | case1 n hn =>
    rw [digits_eq, if_pos hn]
    simpa using isAsciiDigit_digitChar n
  | case2 n hn ih =>
    rw [digits_eq, if_neg hn]
    intro c hc
    rcases List.mem_append.1 hc with hc | hc
    · exact ih c hc
    · obtain rfl := List.mem_singleton.1 hc
      exact isAsciiDigit_digitChar n

theorem digits_ne_nil (n : Nat) : digits n ≠ [] := by
  rw [digits_eq]
  split <;> simp

theorem digits_eq_cons (n : Nat) : ∃ c rest, digits n = c :: rest ∧ isAsciiDigit c = true := by
  have hascii := isAsciiDigit_of_mem_digits n
  cases hd : digits n with
  | nil => exact absurd hd (digits_ne_nil n)
  | cons c rest => exact ⟨c, rest, rfl, hascii c (by simp [hd])⟩

/-- The value of ASCII digits behind digits of a value. -/
def valueFrom (value : Nat) (ds : List Char) : Nat :=
  ds.foldl (fun n c => n * 10 + (c.toNat - 0x30)) value

theorem value_digits (n : Nat) : valueFrom 0 (digits n) = n := by
  induction n using digits.induct with
  | case1 n hn =>
    rw [digits_eq, if_pos hn]
    simp only [valueFrom, List.foldl_cons, List.foldl_nil, toNat_digitChar]
    omega
  | case2 n hn ih =>
    rw [digits_eq, if_neg hn]
    simp only [valueFrom, List.foldl_append, List.foldl_cons, List.foldl_nil,
      toNat_digitChar] at ih ⊢
    omega

/-- Only the digit zero starts with a zero. -/
theorem digits_of_head {n : Nat} {rest : List Char} (h : digits n = '0' :: rest) : rest = [] := by
  induction n using digits.induct generalizing rest with
  | case1 n hn =>
    rw [digits_eq, if_pos hn] at h
    exact (List.cons.inj h).2.symm
  | case2 n hn ih =>
    rw [digits_eq, if_neg hn] at h
    obtain ⟨c, front, hfront, -⟩ := digits_eq_cons (n / 10)
    rw [hfront] at h
    obtain rfl := (List.cons.inj h).1
    -- A number whose digits are a zero alone is zero, and `n` has a digit more.
    have hnil := ih hfront
    have hvalue := value_digits (n / 10)
    rw [hfront, hnil] at hvalue
    simp [valueFrom] at hvalue
    omega

theorem isWhiteSpace_of_isAsciiDigit {c : Char} (h : isAsciiDigit c = true) :
    isWhiteSpace c = false := by
  simp only [isAsciiDigit, Bool.and_eq_true, decide_eq_true_eq] at h
  simp only [isWhiteSpace, isIn_cons, isIn_nil, Bool.or_false, Bool.or_eq_false_iff,
    Bool.and_eq_false_iff, decide_eq_false_iff_not]
  omega

theorem trim_of_forall {p : Char → Bool} {text : List Char} (h : ∀ c ∈ text, p c = false) :
    trim p text = text := by
  have hkeep : ∀ t : List Char, (∀ c ∈ t, p c = false) → t.dropWhile p = t := by
    intro t ht
    cases t with
    | nil => rfl
    | cons c rest => rw [List.dropWhile_cons, ht c (by simp)]; simp
  rw [trim, hkeep text h, hkeep _ fun c hc => h c (List.mem_reverse.1 hc), List.reverse_reverse]

theorem readDigits_ascii {ds : List Char} (hds : ∀ c ∈ ds, isAsciiDigit c = true) (value : Nat) :
    readDigits value ds = some (valueFrom value ds) := by
  induction ds generalizing value with
  | nil => rfl
  | cons c rest ih =>
    have hc := hds c (by simp)
    have hplain : c ≠ '_' := by
      rintro rfl
      exact absurd hc (by decide)
    rw [readDigits]
    · rw [digitValue?_ascii c hc, Option.bind_some, ih fun d hd => hds d (by simp [hd])]
      rfl
    · rintro d rest' he -
      exact absurd he hplain

theorem readNat_digits (n : Nat) : readNat (digits n) = some n := by
  have hascii := isAsciiDigit_of_mem_digits n
  have hvalue := value_digits n
  obtain ⟨c, rest, hd, hc⟩ := digits_eq_cons n
  rw [hd] at hascii hvalue ⊢
  rw [readNat, digitValue?_ascii c hc, Option.bind_some,
    readDigits_ascii fun d hd => hascii d (by simp [hd])]
  simpa [valueFrom] using hvalue

/-- The text of an integer is read as that integer. -/
theorem readInt_intDigits (n : Int) : readInt (intDigits n) = some n := by
  have hminus : isWhiteSpace '-' = false := by decide
  cases n with
  | ofNat n =>
    have hascii := isAsciiDigit_of_mem_digits n
    have htrim := trim_of_forall fun c hc => isWhiteSpace_of_isAsciiDigit (hascii c hc)
    rw [intDigits, readInt, htrim]
    split
    · next rest he => exact absurd (hascii '-' (by simp [he])) (by decide)
    · next rest he => exact absurd (hascii '+' (by simp [he])) (by decide)
    · simp [readNat_digits]
  | negSucc n =>
    have hascii := isAsciiDigit_of_mem_digits (n + 1)
    have htrim : trim isWhiteSpace ('-' :: digits (n + 1)) = '-' :: digits (n + 1) := by
      refine trim_of_forall fun c hc => ?_
      rcases List.mem_cons.1 hc with rfl | hc
      · exact hminus
      · exact isWhiteSpace_of_isAsciiDigit (hascii c hc)
    rw [intDigits, readInt, htrim]
    simp only [readNat_digits, Option.map_some]
    rfl

end LuaCoverage.Decimal
