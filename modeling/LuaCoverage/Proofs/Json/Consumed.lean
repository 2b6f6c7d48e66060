import LuaCoverage.Json.Reader
import LuaCoverage.Proofs.Except
import Mathlib.Data.List.TakeWhile

/-!
# What a JSON reader leaves

A reader takes what it reads from the front of a text and leaves the rest as it is. Of a mapping
the last character taken is the brace that closes it.

Results:
* `leaves_all`: values, entries and items leave an end of the text.
* `exists_of_parse_mapping`: the text of a mapping ends with a brace, apart from white space.
-/

namespace LuaCoverage.Json
open LuaCoverage.Decimal LuaCoverage.Text

variable {r rest : Rest}

theorem suffix_skip (r : Rest) : r.skip.chars <:+ r.chars := List.dropWhile_suffix _

theorem suffix_advance (r : Rest) (count : Nat) : (r.advance count).chars <:+ r.chars :=
  List.drop_suffix count r.chars

/-- A character at the front is left in front of what stands behind it. -/
theorem cons_suffix_of_head {c : Char} (h : r.chars.head? = some c) :
    c :: (r.advance 1).chars <:+ r.chars := by
  cases hr : r.chars with
  | nil => simp [hr] at h
  | cons d more =>
    rw [hr] at h
    cases h
    simp [Rest.advance, hr]

/-- A reader that changes what another one read, and not what it left. -/
theorem of_map_ok {α β : Type} {x : Except Failure (α × Rest)} {f : α × Rest → β × Rest} {b : β}
    (h : x.map f = .ok (b, rest)) (hf : ∀ p, (f p).2 = p.2) :
    ∃ a, x = .ok (a, rest) ∧ (f (a, rest)).1 = b := by
  cases x with
  | error e => cases h
  | ok pair =>
    have hpair : f pair = (b, rest) := Except.ok.inj h
    have hrest : pair.2 = rest := by rw [← hf, hpair]
    obtain rfl := hrest
    exact ⟨pair.1, rfl, by rw [hpair]⟩

theorem suffix_readUnits {start place : Nat} {text : List Char} {units : List Nat}
    (h : readUnits start place text = .ok (units, rest)) : rest.chars <:+ text := by
  fun_induction readUnits start place text generalizing units with
  | case1 => cases h
  | case2 place more =>
    cases h
    exact List.suffix_cons _ _
  | case3 => cases h
  | case4 => cases h
  | case5 place a b c d more n hn hmore ih =>
    unfold consUnit at h
    obtain ⟨more, hread, -⟩ := of_map_ok h fun _ => rfl
    exact (ih hread).trans ⟨['\\', 'u', a, b, c, d], rfl⟩
  | case6 => cases h
  | case7 => cases h
  | case8 place c more hu hne e he ih =>
    unfold consUnit at h
    obtain ⟨more, hread, -⟩ := of_map_ok h fun _ => rfl
    exact (ih hread).trans ⟨['\\', c], rfl⟩
  | case9 => cases h
  | case10 => cases h
  | case11 place c more _ _ _ _ _ hc ih =>
    unfold consUnit at h
    obtain ⟨more, hread, -⟩ := of_map_ok h fun _ => rfl
    exact (ih hread).trans (List.suffix_cons _ _)

theorem suffix_readString {s : String} (h : readString r = .ok (s, rest)) :
    rest.chars <:+ r.chars := by
  unfold readString at h
  obtain ⟨units, hread, -⟩ := of_map_ok h fun _ => rfl
  exact (suffix_readUnits hread).trans (List.drop_suffix 1 _)

theorem suffix_readSign (cs : List Char) : (readSign cs).2 <:+ cs := by
  unfold readSign
  split
  · exact List.suffix_cons _ _
  · exact List.suffix_rfl

theorem suffix_readPlaces (cs : List Char) : (readPlaces cs).2 <:+ cs := by
  unfold readPlaces
  split
  · dsimp only
    split
    · exact List.suffix_rfl
    · exact (List.dropWhile_suffix _).trans (List.suffix_cons _ _)
  · exact List.suffix_rfl

theorem suffix_readExponent (cs : List Char) : (readExponent cs).2 <:+ cs := by
  unfold readExponent
  split
  · next e more =>
    have hback : ∀ ds : List Char, ds <:+ more →
        ds.dropWhile isAsciiDigit <:+ e :: more := fun ds hds =>
      (List.dropWhile_suffix _).trans (hds.trans (List.suffix_cons _ _))
    split
    · dsimp only
      split
      · split
        · exact List.suffix_rfl
        · exact hback _ (List.suffix_cons _ _)
      · split
        · exact List.suffix_rfl
        · exact hback _ (List.suffix_cons _ _)
      · split
        · exact List.suffix_rfl
        · exact hback _ List.suffix_rfl
    · exact List.suffix_rfl
  · exact List.suffix_rfl

theorem suffix_readWhole {cs whole more : List Char} (h : readWhole cs = some (whole, more)) :
    more <:+ cs := by
  unfold readWhole at h
  split at h
  · cases h
    exact List.suffix_cons _ _
  · split at h
    · cases h
      exact List.dropWhile_suffix _
    · cases h
  · cases h

theorem suffix_readNumber {s : Scalar} (h : readNumber r = .ok (s, rest)) :
    rest.chars <:+ r.chars := by
  simp only [readNumber] at h
  split at h
  · cases h
  · next whole more hwhole =>
    cases h
    exact (suffix_readExponent _).trans ((suffix_readPlaces _).trans
      ((suffix_readWhole hwhole).trans (suffix_readSign _)))

theorem suffix_readScalar {s : Scalar} (h : readScalar r = .ok (s, rest)) :
    rest.chars <:+ r.chars := by
  unfold readScalar at h
  split at h
  · cases h
    exact suffix_advance r _
  · exact suffix_readNumber h

/-- What the readers of values, entries and items leave. -/
structure Leaves (depth : Nat) : Prop where
  value : ∀ {r v rest}, readValue depth r = .ok (v, rest) → rest.chars <:+ r.chars
  mapping : ∀ {r entries rest}, readValue depth r = .ok (.mapping entries, rest) →
    '\x7d' :: rest.chars <:+ r.chars
  entries : ∀ {r es rest}, readEntries depth r = .ok (es, rest) →
    '\x7d' :: rest.chars <:+ r.chars
  items : ∀ {r vs rest}, readItems depth r = .ok (vs, rest) → rest.chars <:+ r.chars

theorem suffix_of_cons_suffix {c : Char} {a b : List Char} (h : c :: a <:+ b) : a <:+ b :=
  (List.suffix_cons c a).trans h

section
variable {depth : Nat}

/-- A mapping is left behind its brace, and any other value behind its text. -/
theorem Leaves.readValue (ih : Leaves depth) {r rest : Rest} {v : Value}
    (h : readValue (depth + 1) r = .ok (v, rest)) :
    (∃ entries, v = .mapping entries ∧ '\x7d' :: rest.chars <:+ r.chars)
      ∨ (∀ entries, v ≠ .mapping entries) ∧ rest.chars <:+ r.chars := by
  rw [Json.readValue] at h
  split at h
  · obtain ⟨s, hread, rfl⟩ := of_map_ok h fun _ => rfl
    exact .inr ⟨(by rintro _ ⟨⟩), suffix_readString hread⟩
  · have hinside := (suffix_skip (r.advance 1)).trans (suffix_advance r 1)
    dsimp only at h
    split at h
    · next hclose =>
      cases h
      exact .inl ⟨[], rfl, (cons_suffix_of_head hclose).trans hinside⟩
    · obtain ⟨⟨pairs, behind⟩, hread, h⟩ := Except.bind_ok h
      cases h
      exact .inl ⟨_, rfl, (ih.entries hread).trans hinside⟩
  · have hinside := (suffix_skip (r.advance 1)).trans (suffix_advance r 1)
    dsimp only at h
    split at h
    · cases h
      exact .inr ⟨(by rintro _ ⟨⟩), (suffix_advance _ 1).trans hinside⟩
    · obtain ⟨⟨items, behind⟩, hread, h⟩ := Except.bind_ok h
      cases h
      exact .inr ⟨(by rintro _ ⟨⟩), (ih.items hread).trans hinside⟩
  · obtain ⟨s, hread, rfl⟩ := of_map_ok h fun _ => rfl
    exact .inr ⟨(by rintro _ ⟨⟩), suffix_readScalar hread⟩

theorem Leaves.readEntries (ih : Leaves depth) {r rest : Rest} {es : List (Scalar × Value)}
    (h : readEntries (depth + 1) r = .ok (es, rest)) : '\x7d' :: rest.chars <:+ r.chars := by
  simp only [Json.readEntries] at h
  split at h
  · cases h
  · obtain ⟨⟨name, colon⟩, hname, h⟩ := Except.bind_ok h
    have hcolon := (suffix_skip colon).trans (suffix_readString hname)
    dsimp only at h
    split at h
    · cases h
    · obtain ⟨⟨v, behind⟩, hv, h⟩ := Except.bind_ok h
      have hbehind := (suffix_skip behind).trans ((ih.value hv).trans
        ((suffix_skip _).trans ((suffix_advance _ 1).trans hcolon)))
      dsimp only at h
      split at h
      · next hclose =>
        cases h
        exact (cons_suffix_of_head hclose).trans hbehind
      · obtain ⟨⟨more, last⟩, hmore, h⟩ := Except.bind_ok h
        cases h
        exact (ih.entries hmore).trans
          ((suffix_skip _).trans ((suffix_advance _ 1).trans hbehind))
      · cases h

theorem Leaves.readItems (ih : Leaves depth) {r rest : Rest} {vs : List Value}
    (h : readItems (depth + 1) r = .ok (vs, rest)) : rest.chars <:+ r.chars := by
  simp only [Json.readItems] at h
  obtain ⟨⟨v, behind⟩, hv, h⟩ := Except.bind_ok h
  have hbehind := (suffix_skip behind).trans (ih.value hv)
  dsimp only at h
  split at h
  · cases h
    exact (suffix_advance _ 1).trans hbehind
  · obtain ⟨⟨more, last⟩, hmore, h⟩ := Except.bind_ok h
    cases h
    exact (ih.items hmore).trans ((suffix_skip _).trans ((suffix_advance _ 1).trans hbehind))
  · cases h

end

theorem leaves_all (depth : Nat) : Leaves depth := by
  induction depth with
  | zero => constructor <;> (intro _ _ _ h; simp [readValue, readEntries, readItems, Rest.fail] at h)
  | succ depth ih =>
    constructor
    case value =>
      intro r v rest h
      rcases ih.readValue h with ⟨_, -, hsuffix⟩ | ⟨-, hsuffix⟩
      · exact suffix_of_cons_suffix hsuffix
      · exact hsuffix
    case mapping =>
      intro r entries rest h
      rcases ih.readValue h with ⟨_, -, hsuffix⟩ | ⟨hne, -⟩
      · exact hsuffix
      · exact absurd rfl (hne entries)
    case entries => exact fun h => ih.readEntries h
    case items => exact fun h => ih.readItems h

/-- The text of a mapping ends with a brace, apart from white space. -/
theorem exists_of_parse_mapping {text : String} {entries : List (Scalar × Value)}
    (h : parse text = .ok (.mapping entries)) :
    ∃ front blanks, text.toList = front ++ '\x7d' :: blanks ∧ ∀ c ∈ blanks, isSpace c = true := by
  have hchars : parseChars text.toList = .ok (.mapping entries) := by
    unfold parse at h
    split at h
    · next value hvalue => rw [hvalue, Except.ok.inj h]
    · cases h
  unfold parseChars at hchars
  split at hchars
  · cases hchars
  · obtain ⟨⟨value, rest⟩, hread, h⟩ := Except.bind_ok hchars
    dsimp only at h
    split at h
    · next hempty =>
      cases h
      obtain ⟨front, hfront⟩ := ((leaves_all _).mapping hread).trans (suffix_skip (Rest.mk 0 _))
      refine ⟨front, rest.chars, hfront.symm, ?_⟩
      intro c hc
      have hnil : rest.chars.dropWhile isSpace = [] := List.isEmpty_iff.1 hempty
      exact List.dropWhile_eq_nil_iff.1 hnil c hc
    · cases h

end LuaCoverage.Json
