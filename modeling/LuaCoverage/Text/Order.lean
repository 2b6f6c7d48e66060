/-!
# The order of texts

Texts are ordered by the code points of their characters, from the first on.

Results:
* `precedes_total`, `precedes_trans`, `precedes_antisymm`: the order is linear.
* `mem_sortTexts`: sorting neither loses nor adds a text.
-/

namespace LuaCoverage.Text

/-- Whether characters come no later than others: the first that differ decide, and what ends first
comes first. -/
def charsPrecede : List Char → List Char → Bool
  | [], _ => true
  | _ :: _, [] => false
  | a :: as, b :: bs => a.toNat < b.toNat || (a.toNat == b.toNat && charsPrecede as bs)

theorem charsPrecede_total (as bs : List Char) :
    charsPrecede as bs = true ∨ charsPrecede bs as = true := by
  induction as generalizing bs with
  | nil => exact .inl rfl
  | cons a as ih =>
    cases bs with
    | nil => exact .inr rfl
    | cons b bs =>
      simp only [charsPrecede, Bool.or_eq_true, Bool.and_eq_true, decide_eq_true_eq, beq_iff_eq]
      rcases Nat.lt_trichotomy a.toNat b.toNat with h | h | h
      · exact .inl (.inl h)
      · rcases ih bs with hi | hi
        · exact .inl (.inr ⟨h, hi⟩)
        · exact .inr (.inr ⟨h.symm, hi⟩)
      · exact .inr (.inl h)

theorem charsPrecede_trans {as bs cs : List Char} (hab : charsPrecede as bs = true)
    (hbc : charsPrecede bs cs = true) : charsPrecede as cs = true := by
  induction as generalizing bs cs with
  | nil => rfl
  | cons a as ih =>
    cases bs with
    | nil => simp [charsPrecede] at hab
    | cons b bs =>
      cases cs with
      | nil => simp [charsPrecede] at hbc
      | cons c cs =>
        simp only [charsPrecede, Bool.or_eq_true, Bool.and_eq_true, decide_eq_true_eq,
          beq_iff_eq] at hab hbc ⊢
        rcases hab with hab | ⟨hab, ha⟩
        · rcases hbc with hbc | ⟨hbc, _⟩
          · exact .inl (Nat.lt_trans hab hbc)
          · exact .inl (hbc ▸ hab)
        · rcases hbc with hbc | ⟨hbc, hb⟩
          · exact .inl (hab ▸ hbc)
          · exact .inr ⟨hab.trans hbc, ih ha hb⟩

theorem charsPrecede_antisymm {as bs : List Char} (hab : charsPrecede as bs = true)
    (hba : charsPrecede bs as = true) : as = bs := by
  induction as generalizing bs with
  | nil =>
    cases bs with
    | nil => rfl
    | cons b bs => simp [charsPrecede] at hba
  | cons a as ih =>
    cases bs with
    | nil => simp [charsPrecede] at hab
    | cons b bs =>
      simp only [charsPrecede, Bool.or_eq_true, Bool.and_eq_true, decide_eq_true_eq,
        beq_iff_eq] at hab hba
      rcases hab with hlt | ⟨heq, hab⟩
      · rcases hba with hgt | ⟨heq, -⟩
        · exact absurd hgt (Nat.lt_asymm hlt)
        · omega
      · rcases hba with hgt | ⟨-, hba⟩
        · omega
        · rw [Char.toNat_inj.1 heq, ih hab hba]

/-- Whether a text comes no later than another. -/
def precedes (a b : String) : Bool := charsPrecede a.toList b.toList

theorem precedes_total (a b : String) : (precedes a b || precedes b a) = true := by
  simpa only [precedes, Bool.or_eq_true] using charsPrecede_total a.toList b.toList

theorem precedes_trans {a b c : String} (hab : precedes a b = true) (hbc : precedes b c = true) :
    precedes a c = true := charsPrecede_trans hab hbc

theorem precedes_antisymm {a b : String} (hab : precedes a b = true) (hba : precedes b a = true) :
    a = b := String.toList_inj.1 (charsPrecede_antisymm hab hba)

def sortTexts (texts : List String) : List String := texts.mergeSort precedes

@[simp] theorem mem_sortTexts {t : String} {texts : List String} :
    t ∈ sortTexts texts ↔ t ∈ texts := List.mem_mergeSort

def textSet (texts : List String) : List String := sortTexts texts.eraseDups

@[simp] theorem mem_textSet {t : String} {texts : List String} :
    t ∈ textSet texts ↔ t ∈ texts := by
  simp [textSet]

end LuaCoverage.Text
