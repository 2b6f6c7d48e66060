import LuaCoverage.Config.Placeholder
import Mathlib.Data.List.TakeWhile

/-!
# Filling in placeholders

A placeholder in a text is a dollar sign with a name in braces. No two of them overlap, because what
stands in the braces has no dollar sign, so it does not matter in which order they are filled in.

Results:
* `Placeholder.name?_eq_some_iff`: the placeholder at the front of a text.
* `Placeholder.fill_eq_iff`: every placeholder is filled in once, and nothing else changes.
* `Placeholder.fill_of_free`: a text without placeholders stays as it is.
-/

namespace LuaCoverage.Placeholder
open LuaCoverage.Text

/-- Whether characters are the name in a placeholder. -/
def IsName (name : List Char) : Prop := name ≠ [] ∧ ∀ c ∈ name, isWordChar c = true

def written (name : List Char) : List Char := '$' :: '\x7b' :: (name ++ ['\x7d'])

/-- What a placeholder stands for: the value of a variable, or nothing if there is none. -/
def meaning (env : Environment) (name : List Char) : List Char :=
  ((env.find? (String.ofList name)).getD "").toList

/-- Whether a text with its placeholders filled in is another one. What a placeholder stands for is
taken as it is. -/
inductive Filled (env : Environment) : List Char → List Char → Prop
  | nil : Filled env [] []
  | placeholder {name rest filled : List Char} (hname : IsName name) (h : Filled env rest filled) :
    Filled env (written name ++ rest) (meaning env name ++ filled)
  | char {c : Char} {rest filled : List Char}
    (hnone : ∀ name, IsName name → ¬written name <+: c :: rest) (h : Filled env rest filled) :
    Filled env (c :: rest) (c :: filled)

/-- Whether no placeholder stands in a text. -/
def Free (text : String) : Prop := ∀ name, IsName name → ¬written name <:+: text.toList

variable {env : Environment} {name text rest filled : List Char}

/-! ## The front of a text -/

theorem name?_written (hname : IsName name) (rest : List Char) :
    name? (written name ++ rest) = some name := by
  have hclose : isWordChar '\x7d' = false := by decide
  have htake : (name ++ '\x7d' :: rest).takeWhile isWordChar = name := by
    rw [List.takeWhile_append_of_pos hname.2, List.takeWhile_cons_of_neg (by simp [hclose]),
      List.append_nil]
  have hdrop : (name ++ '\x7d' :: rest).dropWhile isWordChar = '\x7d' :: rest := by
    rw [List.dropWhile_append_of_pos hname.2, List.dropWhile_cons_of_neg (by simp [hclose])]
  simp [written, name?, htake, hdrop, hname.1]

theorem name?_eq_some_iff : name? text = some name ↔ IsName name ∧ written name <+: text := by
  constructor
  · intro h
    unfold name? at h
    split at h
    · next rest =>
      simp only [Bool.and_eq_true, Bool.not_eq_true', List.isEmpty_eq_false_iff] at h
      split at h
      · next hcond =>
        cases h
        refine ⟨⟨hcond.1, fun c hc => List.mem_takeWhile_imp hc⟩, ?_⟩
        obtain ⟨more, hmore⟩ := List.head?_eq_some_iff.1 (of_decide_eq_true hcond.2)
        refine ⟨more, ?_⟩
        rw [written, List.cons_append, List.cons_append, List.append_assoc, List.singleton_append,
          ← hmore, List.takeWhile_append_dropWhile]
      · cases h
    · cases h
  · rintro ⟨hname, more, rfl⟩
    exact name?_written hname more

theorem name?_eq_none_iff :
    name? text = none ↔ ∀ name, IsName name → ¬written name <+: text := by
  rw [Option.eq_none_iff_forall_ne_some]
  refine forall_congr' fun name => ?_
  rw [ne_eq, name?_eq_some_iff, not_and]

/-! ## Filling in -/

/-- What was filled in is skipped. -/
theorem fillFrom_skip (env : Environment) (front rest : List Char) :
    fillFrom env front.length (front ++ rest) = fillFrom env 0 rest := by
  induction front with
  | nil => rfl
  | cons c front ih => rw [List.length_cons, List.cons_append, fillFrom, ih]

theorem fillFrom_written (hname : IsName name) (rest : List Char) :
    fillFrom env 0 (written name ++ rest) = meaning env name ++ fillFrom env 0 rest := by
  have hfront := name?_written hname rest
  have hskip := fillFrom_skip env ('\x7b' :: (name ++ ['\x7d'])) rest
  have hlength : ('\x7b' :: (name ++ ['\x7d'])).length = name.length + 2 := by simp
  rw [hlength] at hskip
  rw [written, List.cons_append] at hfront ⊢
  simp only [fillFrom, hfront, hskip, meaning]

theorem fillFrom_char {c : Char} (hnone : ∀ name, IsName name → ¬written name <+: c :: rest) :
    fillFrom env 0 (c :: rest) = c :: fillFrom env 0 rest := by
  simp only [fillFrom, name?_eq_none_iff.2 hnone]

theorem filled_fillFrom (env : Environment) : ∀ text, Filled env text (fillFrom env 0 text)
  | [] => .nil
  | c :: rest => by
    by_cases h : ∃ name, IsName name ∧ written name <+: c :: rest
    · obtain ⟨name, hname, more, hmore⟩ := h
      have hshorter : more.length < (c :: rest).length := by
        rw [← hmore, List.length_append, written, List.length_cons]
        omega
      rw [← hmore, fillFrom_written hname]
      exact .placeholder hname (filled_fillFrom env more)
    · have hnone : ∀ name, IsName name → ¬written name <+: c :: rest :=
        fun name hname hprefixed => h ⟨name, hname, hprefixed⟩
      rw [fillFrom_char hnone]
      exact .char hnone (filled_fillFrom env rest)
termination_by text => text.length
decreasing_by
  · exact hshorter
  · exact Nat.lt_succ_self rest.length

theorem Filled.eq_fillFrom (h : Filled env text filled) : filled = fillFrom env 0 text := by
  induction h with
  | nil => rfl
  | placeholder hname _ ih => rw [fillFrom_written hname, ih]
  | char hnone _ ih => rw [fillFrom_char hnone, ih]

/-- Every placeholder is filled in once, and nothing else changes. -/
theorem fill_eq_iff {text result : String} :
    fill env text = result ↔ Filled env text.toList result.toList := by
  rw [fill, ← String.toList_inj, String.toList_ofList]
  constructor
  · rintro h
    exact h ▸ filled_fillFrom env text.toList
  · exact fun h => h.eq_fillFrom.symm

/-! ## Texts without placeholders -/

/-- No placeholder stands in a text if none stands at its front and none in the rest. -/
theorem free_cons_iff {c : Char} : (∀ name, IsName name → ¬written name <:+: c :: rest)
    ↔ (∀ name, IsName name → ¬written name <+: c :: rest)
      ∧ ∀ name, IsName name → ¬written name <:+: rest := by
  simp only [List.infix_cons_iff, not_or, ← forall_and]

theorem names_eq_nil_iff :
    names text = [] ↔ ∀ name, IsName name → ¬written name <:+: text := by
  induction text with
  | nil => simp [names, written]
  | cons c rest ih =>
    rw [free_cons_iff, ← name?_eq_none_iff, ← ih, names]
    cases name? (c :: rest) <;> simp

theorem free_iff {text : String} : Free text ↔ names text.toList = [] := names_eq_nil_iff.symm

theorem Filled.of_free (h : ∀ name, IsName name → ¬written name <:+: text) :
    Filled env text text := by
  induction text with
  | nil => exact .nil
  | cons c rest ih =>
    obtain ⟨hfront, hrest⟩ := free_cons_iff.1 h
    exact .char hfront (ih hrest)

/-- A text without placeholders stays as it is. -/
theorem fill_of_free {text : String} (h : Free text) : fill env text = text :=
  fill_eq_iff.2 (.of_free h)

end LuaCoverage.Placeholder
