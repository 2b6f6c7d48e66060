import LuaCoverage.Proofs.Lua.Front

/-!
# Lexemes in a woven source

Texts are written into a source: a closing parenthesis with more behind it, or a blank and a word.
Where such a text follows a lexeme, the lexeme ends there, as it did; and no lexeme comes about that
was not there before. So a lexeme that holds no text is read as it was.

Results:
* `Lexeme.firm_number?`, `Lexeme.firm_string?`, `Lexeme.word?_woven`: lexemes are read as they were.
* `Lexeme.trivia?_woven`: so are white space and comments.
-/

namespace LuaCoverage.Lua
open LuaCoverage.Text

/-- A text that is written into a source. -/
inductive Written : List Glyph → Prop
  | closer (more : List Glyph) : Written (.ofChar ')' :: more)
  | word {c : Char} (more : List Glyph) : isWordStart c = true →
    Written (.ofChar ' ' :: .ofChar c :: more)

/-- The second source is the first one with texts written into it. -/
inductive Woven : List Glyph → List Glyph → Prop
  | nil : Woven [] []
  | keep {rest rest' : List Glyph} (g : Glyph) : Woven rest rest' → Woven (g :: rest) (g :: rest')
  | text {rest rest' text : List Glyph} : Written text → Woven rest rest' →
    Woven rest (text ++ rest')

/-- The first glyph is one that a written text starts with. -/
def IsSeam (rest : List Glyph) : Prop :=
  ∃ g more, rest = g :: more ∧ (g = .ofChar ' ' ∨ g = .ofChar ')')

theorem Written.isSeam {text : List Glyph} (h : Written text) (rest : List Glyph) :
    IsSeam (text ++ rest) := by
  cases h with
  | closer more => exact ⟨_, _, rfl, .inr rfl⟩
  | word more hc => exact ⟨_, _, rfl, .inl rfl⟩

namespace Woven
variable {rest rest' : List Glyph}

theorem refl (rest : List Glyph) : Woven rest rest := by
  induction rest with
  | nil => exact .nil
  | cons g rest ih => exact .keep g ih

theorem append (front : List Glyph) (h : Woven rest rest') :
    Woven (front ++ rest) (front ++ rest') := by
  induction front with
  | nil => exact h
  | cons g front ih => exact .keep g ih

/-- What comes first in a woven source is what came first, or it is a seam. -/
theorem cases_head (h : Woven rest rest') : rest = [] ∧ rest' = []
    ∨ (∃ g more more', rest = g :: more ∧ rest' = g :: more' ∧ Woven more more')
    ∨ IsSeam rest' := by
  cases h with
  | nil => exact .inl ⟨rfl, rfl⟩
  | keep g h => exact .inr (.inl ⟨g, _, _, rfl, rfl, h⟩)
  | text htext h => exact .inr (.inr (htext.isSeam _))

end Woven

namespace Cursor

/-- How many bytes glyphs take. -/
def width : List Glyph → Nat
  | [] => 0
  | g :: front => g.width + width front

@[simp] theorem width_nil : width [] = 0 := rfl

@[simp] theorem width_cons (g : Glyph) (front : List Glyph) :
    width (g :: front) = g.width + width front := rfl

@[simp] theorem width_append (a b : List Glyph) : width (a ++ b) = width a + width b := by
  induction a with
  | nil => simp
  | cons g a ih => simp [ih, Nat.add_assoc]

/-- A cursor is passed on to another one over some glyphs. -/
structure Passes (c next : Cursor) (front : List Glyph) : Prop where
  rest : c.rest = front ++ next.rest
  offset : next.offset = c.offset + width front

namespace Passes
variable {c next last : Cursor} {front more : List Glyph}

theorem refl (c : Cursor) : Passes c c [] := ⟨rfl, rfl⟩

theorem trans (h : Passes c next front) (hmore : Passes next last more) :
    Passes c last (front ++ more) :=
  ⟨by rw [h.rest, hmore.rest, List.append_assoc], by
    rw [hmore.offset, h.offset, width_append, Nat.add_assoc]⟩

theorem le (h : Passes c next front) : c.offset ≤ next.offset := by
  rw [h.offset]
  exact Nat.le_add_right ..

end Passes

/-- The rest that follows is one that a relation allows. -/
abbrev Followers := List Glyph → List Glyph → Prop

/-- What is read is read wherever it stands, whatever is allowed to follow it. -/
def Firm (allowed : Followers) (read : Cursor → Option Cursor) : Prop :=
  ∀ c next, read c = some next → ∃ front, Passes c next front
    ∧ ∀ o rest, allowed next.rest rest → read ⟨o, front ++ rest⟩ = some ⟨o + width front, rest⟩

/-- So is what is passed over. -/
def FirmPass (allowed : Followers) (pass : Cursor → Cursor) : Prop :=
  ∀ c, ∃ front, Passes c (pass c) front
    ∧ ∀ o rest, allowed (pass c).rest rest → pass ⟨o, front ++ rest⟩ = ⟨o + width front, rest⟩

/-- What follows starts with the same glyph. -/
def SameHead (rest rest' : List Glyph) : Prop := rest'.head? = rest.head?

/-- Anything follows. -/
def Any (_ _ : List Glyph) : Prop := True

/-- A relation that lets the same glyphs be put in front on both sides. -/
def Grows (allowed : Followers) : Prop :=
  ∀ front rest rest', allowed rest rest' → allowed (front ++ rest) (front ++ rest')

theorem grows_woven : Grows Woven := fun front _ _ h => h.append front

theorem grows_sameHead : Grows SameHead := fun front rest rest' h => by
  cases front with
  | nil => exact h
  | cons g front => rfl

theorem Firm.weaken {allowed : Followers} {read : Cursor → Option Cursor} (h : Firm Any read) :
    Firm allowed read := fun c next hread =>
  let ⟨front, hpass, hall⟩ := h c next hread
  ⟨front, hpass, fun o rest _ => hall o rest trivial⟩

section
variable {allowed : Followers} {read other : Cursor → Option Cursor} {pass : Cursor → Cursor}

theorem Firm.bind (hgrows : Grows allowed) (h : Firm allowed read) (hother : Firm allowed other) :
    Firm allowed fun c => (read c).bind other := by
  intro c next hread
  obtain ⟨middle, hmiddle, hnext⟩ := Option.bind_eq_some_iff.1 hread
  obtain ⟨front, hpass, hall⟩ := h c middle hmiddle
  obtain ⟨more, hmore, hrest⟩ := hother middle next hnext
  refine ⟨front ++ more, hpass.trans hmore, fun o rest hfollows => ?_⟩
  have hgrown := hgrows more _ _ hfollows
  rw [← hmore.rest] at hgrown
  simp only [List.append_assoc, hall o _ hgrown, Option.bind_some, hrest _ _ hfollows, width_append,
    Nat.add_assoc]

theorem Firm.map (hgrows : Grows allowed) (h : Firm allowed read) (hpass : FirmPass allowed pass) :
    Firm allowed fun c => (read c).map pass := by
  have hother : Firm allowed fun c => some (pass c) := by
    intro c next hnext
    cases hnext
    obtain ⟨front, hpasses, hall⟩ := hpass c
    exact ⟨front, hpasses, fun o rest hfollows => congrArg some (hall o rest hfollows)⟩
  have hbind : (fun c => (read c).map pass) = fun c => (read c).bind fun c => some (pass c) :=
    funext fun c => Option.map_eq_bind
  rw [hbind]
  exact h.bind hgrows hother

theorem FirmPass.comp {other : Cursor → Cursor} (hgrows : Grows allowed)
    (h : FirmPass allowed pass) (hother : FirmPass allowed other) :
    FirmPass allowed fun c => other (pass c) := by
  intro c
  obtain ⟨front, hpass, hall⟩ := h c
  obtain ⟨more, hmore, hrest⟩ := hother (pass c)
  refine ⟨front ++ more, hpass.trans hmore, fun o rest hfollows => ?_⟩
  have hgrown := hgrows more _ _ hfollows
  rw [← hmore.rest] at hgrown
  simp only [List.append_assoc, hall o _ hgrown, hrest _ _ hfollows, width_append, Nat.add_assoc]

end

/-! ## Texts and glyphs -/

variable {p : Glyph → Bool}

theorem firm_one? : Firm Any (one? p) := by
  rintro ⟨offset, rest⟩ next hread
  cases rest with
  | nil => cases hread
  | cons g rest =>
    simp only [one?] at hread
    split at hread
    · next hg =>
      cases hread
      exact ⟨[g], ⟨rfl, by simp⟩, fun o rest _ => by simp [one?, hg]⟩
    · cases hread

/-- Whether glyphs are the characters of a text. -/
def Spells (text : List Char) (front : List Glyph) : Prop :=
  front.map Glyph.char = text.map some

theorem exists_textFrom? {text : List Char} {offset : Nat} {rest : List Glyph} {next : Cursor}
    (h : textFrom? text offset rest = some next) :
    ∃ front, Passes ⟨offset, rest⟩ next front ∧ Spells text front := by
  induction text generalizing offset rest with
  | nil =>
    cases h
    exact ⟨[], .refl _, rfl⟩
  | cons t text ih =>
    cases rest with
    | nil => cases h
    | cons g rest =>
      simp only [textFrom?] at h
      split at h
      · next hg =>
        obtain ⟨front, hpass, hspells⟩ := ih h
        refine ⟨g :: front, ⟨congrArg _ hpass.rest, ?_⟩, ?_⟩
        · rw [hpass.offset, width_cons, Nat.add_assoc]
        · simp only [Spells, List.map_cons, hg, List.cons.injEq, true_and]
          exact hspells
      · cases h

theorem exists_text? {text : String} {c next : Cursor} (h : c.text? text = some next) :
    ∃ front, Passes c next front ∧ Spells text.toList front := exists_textFrom? h

theorem textFrom?_of_spells {text : List Char} {front : List Glyph} (h : Spells text front)
    (o : Nat) (rest : List Glyph) :
    textFrom? text o (front ++ rest) = some ⟨o + width front, rest⟩ := by
  induction text generalizing o front with
  | nil =>
    obtain rfl := List.map_eq_nil_iff.1 h
    rfl
  | cons t text ih =>
    obtain ⟨g, front, rfl, hg, hfront⟩ := List.map_eq_cons_iff.1 h
    simp only [List.cons_append, textFrom?, hg, if_true, ih hfront, width_cons, Nat.add_assoc]

theorem text?_of_spells {text : String} {front : List Glyph} (h : Spells text.toList front)
    (o : Nat) (rest : List Glyph) :
    text? text ⟨o, front ++ rest⟩ = some ⟨o + width front, rest⟩ := textFrom?_of_spells h o rest

theorem firm_text? (text : String) : Firm Any (text? text) := by
  intro c next hread
  obtain ⟨front, hpass, hspells⟩ := exists_text? hread
  exact ⟨front, hpass, fun o rest _ => text?_of_spells hspells o rest⟩

theorem firm_exactly? (n : Nat) : Firm Any (exactly? p n) := by
  induction n with
  | zero =>
    intro c next hread
    cases hread
    exact ⟨[], .refl _, fun o rest _ => rfl⟩
  | succ n ih => exact firm_one?.bind (fun _ _ _ _ => trivial) ih

/-- A relation under which what is passed over ends where it did: what follows starts with the same
glyph, or with one that does not satisfy the test. -/
def Ends (p : Glyph → Bool) (allowed : Followers) : Prop :=
  ∀ rest rest', allowed rest rest' → rest'.head?.all (fun g => !p g) = true
    ∨ rest'.head? = rest.head?

theorem ends_sameHead : Ends p SameHead := fun _ _ h => .inr h

theorem ends_woven (hblank : p (.ofChar ' ') = false) (hcloser : p (.ofChar ')') = false) :
    Ends p Woven := by
  intro rest rest' h
  rcases h.cases_head with ⟨rfl, rfl⟩ | ⟨g, more, more', rfl, rfl, -⟩ | ⟨g, more, rfl, rfl | rfl⟩
  · exact .inr rfl
  · exact .inr rfl
  · exact .inl (by simp [hblank])
  · exact .inl (by simp [hcloser])

theorem dropFrom_eq_of_head {rest : List Glyph} (o : Nat)
    (h : rest.head?.all (fun g => !p g) = true) : dropFrom p o rest = ⟨o, rest⟩ := by
  cases rest with
  | nil => rfl
  | cons g rest =>
    simp only [List.head?_cons, Option.all_some, Bool.not_eq_true'] at h
    simp [dropFrom, h]

theorem head_dropFrom (o : Nat) (rest : List Glyph) :
    (dropFrom p o rest).rest.head?.all (fun g => !p g) = true := by
  induction rest generalizing o with
  | nil => rfl
  | cons g rest ih =>
    simp only [dropFrom]
    split
    · exact ih _
    · next hg => simpa using hg

theorem exists_dropWhile (p : Glyph → Bool) (c : Cursor) :
    ∃ front, Passes c (c.dropWhile p) front ∧ ∀ g ∈ front, p g = true := by
  obtain ⟨offset, rest⟩ := c
  unfold dropWhile
  dsimp only
  induction rest generalizing offset with
  | nil => exact ⟨[], .refl _, by simp⟩
  | cons g rest ih =>
    by_cases hg : p g = true
    · obtain ⟨front, hpass, hall⟩ := ih (offset + g.width)
      rw [dropFrom, if_pos hg]
      refine ⟨g :: front, ⟨congrArg _ hpass.rest, ?_⟩, List.forall_mem_cons.2 ⟨hg, hall⟩⟩
      rw [hpass.offset, width_cons, Nat.add_assoc]
    · rw [dropFrom, if_neg hg]
      exact ⟨[], .refl _, by simp⟩

theorem dropWhile_append {front rest : List Glyph} {o : Nat} (hfront : ∀ g ∈ front, p g = true)
    (hrest : rest.head?.all (fun g => !p g) = true) :
    dropWhile p ⟨o, front ++ rest⟩ = ⟨o + width front, rest⟩ := by
  unfold dropWhile
  dsimp only
  induction front generalizing o with
  | nil => exact dropFrom_eq_of_head o hrest
  | cons g front ih =>
    obtain ⟨hg, hfront⟩ := List.forall_mem_cons.1 hfront
    rw [List.cons_append, dropFrom, if_pos hg, ih hfront, width_cons, Nat.add_assoc]

theorem firmPass_dropWhile {allowed : Followers} (hends : Ends p allowed) :
    FirmPass allowed (dropWhile p) := by
  intro c
  obtain ⟨front, hpass, hall⟩ := exists_dropWhile p c
  refine ⟨front, hpass, fun o rest hfollows => dropWhile_append hall ?_⟩
  rcases hends _ _ hfollows with h | h
  · exact h
  · rw [h]
    exact head_dropFrom ..

theorem firm_some? {allowed : Followers} (hgrows : Grows allowed) (hends : Ends p allowed) :
    Firm allowed (some? p) := firm_one?.weaken.map hgrows (firmPass_dropWhile hends)

theorem firmPass_upTo (n : Nat) : FirmPass SameHead (upTo p n) := by
  induction n with
  | zero => exact fun c => ⟨[], .refl _, fun o rest _ => by simp [upTo]⟩
  | succ n ih =>
    rintro ⟨offset, rest⟩
    cases rest with
    | nil =>
      refine ⟨[], .refl _, fun o rest hfollows => ?_⟩
      cases rest with
      | nil => rfl
      | cons g rest => cases hfollows
    | cons g rest =>
      by_cases hg : p g = true
      · obtain ⟨front, hpass, hall⟩ := ih ⟨offset + g.width, rest⟩
        simp only [upTo, one?, hg, if_true]
        refine ⟨g :: front, ⟨congrArg _ hpass.rest, ?_⟩, fun o rest hfollows => ?_⟩
        · rw [hpass.offset, width_cons, Nat.add_assoc]
        · simp only [List.cons_append, hg, if_true, hall _ rest hfollows, width_cons,
            Nat.add_assoc]
      · simp only [upTo, one?, hg]
        refine ⟨[], .refl _, fun o rest hfollows => ?_⟩
        cases rest with
        | nil => rfl
        | cons g' rest =>
          cases hfollows
          simp [hg]

/-! ## Nothing new is read -/

/-- A text that no written text starts with, nor is a part of the start of one. -/
def IsPlain (text : String) : Prop := ∀ c ∈ text.toList, c ≠ ' ' ∧ c ≠ ')'

instance (text : String) : Decidable (IsPlain text) :=
  List.decidableBAll (fun c => c ≠ ' ' ∧ c ≠ ')') text.toList

/-- Whether a test rejects what a written text starts with. -/
structure Rejects (p : Glyph → Bool) : Prop where
  blank : p (.ofChar ' ') = false
  closer : p (.ofChar ')') = false

/-- What is read in a woven source was there before, and what follows it is what followed it, with
texts written into it. -/
def Exact (read : Cursor → Option Cursor) : Prop :=
  ∀ c o rest next', Woven c.rest rest → read ⟨o, rest⟩ = some next' →
    ∃ next, read c = some next ∧ Woven next.rest next'.rest

/-- What is read in a woven source was there before, or the start of it was: then a written text
follows. -/
def Tracks (read : Cursor → Option Cursor) : Prop :=
  ∀ c o rest next', Woven c.rest rest → read ⟨o, rest⟩ = some next' →
    ∃ next, read c = some next ∧ (Woven next.rest next'.rest ∨ IsSeam next'.rest)

/-- If something is read in a woven source, something was there before. -/
def Shy (read : Cursor → Option Cursor) : Prop :=
  ∀ c o rest, Woven c.rest rest → read c = none → read ⟨o, rest⟩ = none

/-- Nothing is read of a written text. -/
def Stops (read : Cursor → Option Cursor) : Prop := ∀ c, IsSeam c.rest → read c = none

section
variable {read other : Cursor → Option Cursor} {pass : Cursor → Cursor}

theorem Exact.tracks (h : Exact read) : Tracks read := fun c o rest next' hwoven hread =>
  let ⟨next, hnext, hrest⟩ := h c o rest next' hwoven hread
  ⟨next, hnext, .inl hrest⟩

theorem Tracks.shy (h : Tracks read) : Shy read := by
  intro c o rest hwoven hnone
  cases hread : read ⟨o, rest⟩ with
  | none => rfl
  | some next' =>
    obtain ⟨next, hnext, -⟩ := h c o rest next' hwoven hread
    rw [hnone] at hnext
    cases hnext

theorem Shy.bind (h : Tracks read) (hother : Shy other) (hstops : Stops other) :
    Shy fun c => (read c).bind other := by
  intro c o rest hwoven hnone
  rw [Option.bind_eq_none_iff] at hnone ⊢
  intro next' hread
  obtain ⟨next, hnext, hrest⟩ := h c o rest next' hwoven hread
  rcases hrest with hrest | hseam
  · exact hother next _ _ hrest (hnone next hnext)
  · exact hstops next' hseam

theorem Shy.map (h : Shy read) : Shy fun c => (read c).map pass := by
  intro c o rest hwoven hnone
  simp only [Option.map_eq_none_iff] at hnone ⊢
  exact h c o rest hwoven hnone

theorem Shy.orElse (h : Shy read) (hother : Shy other) : Shy fun c => read c <|> other c := by
  intro c o rest hwoven hnone
  simp only [Option.orElse_eq_orElse, Option.orElse_eq_or, Option.or_eq_none_iff] at hnone ⊢
  exact ⟨h c o rest hwoven hnone.1, hother c o rest hwoven hnone.2⟩

theorem Stops.orElse (h : Stops read) (hother : Stops other) :
    Stops fun c => read c <|> other c := by
  intro c hseam
  simp [h c hseam, hother c hseam]

/-- One of two readers reads, the second only where the first does not. -/
theorem Firm.orElse (h : Firm Woven read) (hother : Firm Woven other) (hshy : Shy read) :
    Firm Woven fun c => read c <|> other c := by
  intro c next hread
  simp only [Option.orElse_eq_orElse, Option.orElse_eq_or, Option.or_eq_some_iff] at hread
  rcases hread with hread | ⟨hnone, hread⟩
  · obtain ⟨front, hpass, hall⟩ := h c next hread
    exact ⟨front, hpass, fun o rest hwoven => by simp [hall o rest hwoven]⟩
  · obtain ⟨front, hpass, hall⟩ := hother c next hread
    refine ⟨front, hpass, fun o rest hwoven => ?_⟩
    have hfront := hwoven.append front
    rw [← hpass.rest] at hfront
    simp [hshy c o _ hfront hnone, hall o rest hwoven]

/-- What is passed over if it is there. -/
theorem Firm.optional (h : Firm Woven read) (hshy : Shy read) :
    FirmPass Woven (Lexeme.optional read) := by
  intro c
  unfold Lexeme.optional
  cases hread : read c with
  | none => exact ⟨[], .refl _, fun o rest hwoven => by simp [hshy c o rest hwoven hread]⟩
  | some next =>
    obtain ⟨front, hpass, hall⟩ := h c next hread
    exact ⟨front, hpass, fun o rest hwoven => by simp [hall o rest hwoven]⟩

end

theorem exact_one? (hp : Rejects p) : Exact (one? p) := by
  rintro ⟨offset, rest⟩ o rest' next' hwoven hread
  rcases hwoven.cases_head with ⟨rfl, rfl⟩ | ⟨g, more, more', rfl, rfl, hmore⟩
    | ⟨g, more, rfl, rfl | rfl⟩
  · cases hread
  · simp only [one?] at hread ⊢
    split at hread
    · next hg =>
      cases hread
      exact ⟨_, if_pos hg, hmore⟩
    · cases hread
  · simp [one?, hp.blank] at hread
  · simp [one?, hp.closer] at hread

theorem stops_one? (hp : Rejects p) : Stops (one? p) := by
  rintro ⟨offset, rest⟩ ⟨g, more, rfl, rfl | rfl⟩
  · simp [one?, hp.blank]
  · simp [one?, hp.closer]

theorem exact_text? (text : String) (htext : IsPlain text) : Exact (text? text) := by
  rintro ⟨offset, rest⟩ o rest' next' hwoven hread
  unfold IsPlain at htext
  unfold text? at hread ⊢
  dsimp only at hwoven hread ⊢
  generalize text.toList = text at htext hread ⊢
  induction text generalizing offset rest o rest' with
  | nil =>
    cases hread
    exact ⟨_, rfl, hwoven⟩
  | cons t text ih =>
    obtain ⟨ht, htext⟩ := List.forall_mem_cons.1 htext
    rcases hwoven.cases_head with ⟨rfl, rfl⟩ | ⟨g, more, more', rfl, rfl, hmore⟩
      | ⟨g, more, rfl, rfl | rfl⟩
    · cases hread
    · simp only [textFrom?] at hread ⊢
      split at hread
      · next hg =>
        rw [if_pos hg]
        exact ih _ _ _ _ hmore htext hread
      · cases hread
    · simp [textFrom?, Glyph.ofChar, ht.1.symm] at hread
    · simp [textFrom?, Glyph.ofChar, ht.2.symm] at hread

theorem stops_text? (text : String) (htext : IsPlain text) (hne : text ≠ "") :
    Stops (text? text) := by
  rintro ⟨offset, rest⟩ ⟨g, more, rfl, hg⟩
  unfold IsPlain at htext
  unfold text?
  cases hlist : text.toList with
  | nil => exact absurd (String.toList_eq_nil_iff.1 hlist) hne
  | cons t text =>
    rw [hlist] at htext
    obtain ⟨ht, -⟩ := List.forall_mem_cons.1 htext
    rcases hg with rfl | rfl
    · simp [textFrom?, Glyph.ofChar, ht.1.symm]
    · simp [textFrom?, Glyph.ofChar, ht.2.symm]

theorem dropFrom_woven (hp : Rejects p) {rest rest' : List Glyph} (h : Woven rest rest')
    (o o' : Nat) : Woven (dropFrom p o rest).rest (dropFrom p o' rest').rest
      ∨ IsSeam (dropFrom p o' rest').rest := by
  induction h generalizing o o' with
  | nil => exact .inl .nil
  | keep g h ih =>
    simp only [dropFrom]
    split
    · exact ih _ _
    · exact .inl (.keep g h)
  | text htext h _ =>
    right
    obtain ⟨g, more, heq, hg⟩ := htext.isSeam _
    rw [heq, dropFrom_eq_of_head]
    · exact ⟨g, more, rfl, hg⟩
    · rcases hg with rfl | rfl
      · simp [hp.blank]
      · simp [hp.closer]

theorem tracks_some? (hp : Rejects p) : Tracks (some? p) := by
  intro c o rest next' hwoven hread
  obtain ⟨one', hone', rfl⟩ := Option.map_eq_some_iff.1 hread
  obtain ⟨one, hone, hrest⟩ := exact_one? hp c o rest one' hwoven hone'
  exact ⟨_, Option.map_eq_some_iff.2 ⟨one, hone, rfl⟩, dropFrom_woven hp hrest _ _⟩

theorem stops_some? (hp : Rejects p) : Stops (some? p) := by
  intro c hseam
  simp [some?, stops_one? hp c hseam]

theorem Rejects.ends (hp : Rejects p) : Ends p Woven := ends_woven hp.blank hp.closer

/-! ## Numbers -/

theorem Exact.bind {read other : Cursor → Option Cursor} (h : Exact read) (hother : Exact other) :
    Exact fun c => (read c).bind other := by
  intro c o rest next' hwoven hread
  obtain ⟨middle', hmiddle', hnext'⟩ := Option.bind_eq_some_iff.1 hread
  obtain ⟨middle, hmiddle, hrest⟩ := h c o rest middle' hwoven hmiddle'
  obtain ⟨next, hnext, hlast⟩ := hother middle _ _ next' hrest hnext'
  exact ⟨next, Option.bind_eq_some_iff.2 ⟨middle, hmiddle, hnext⟩, hlast⟩

theorem Firm.after {allowed : Followers} {read : Cursor → Option Cursor} {pass : Cursor → Cursor}
    (hgrows : Grows allowed) (hpass : FirmPass allowed pass) (h : Firm allowed read) :
    Firm allowed fun c => read (pass c) := by
  intro c next hread
  obtain ⟨front, hfront, hall⟩ := hpass c
  obtain ⟨more, hmore, hrest⟩ := h _ next hread
  refine ⟨front ++ more, hfront.trans hmore, fun o rest hfollows => ?_⟩
  have hgrown := hgrows more _ _ hfollows
  rw [← hmore.rest] at hgrown
  simp only [List.append_assoc, hall o _ hgrown, hrest _ _ hfollows, width_append, Nat.add_assoc]

/-- What may follow a glyph that is there or not. -/
theorem Shy.after_one? {read : Cursor → Option Cursor} (hp : Rejects p) (h : Shy read)
    (hstops : Stops read) : Shy fun c => read (Lexeme.optional (one? p) c) := by
  rintro ⟨offset, rest⟩ o rest' hwoven hnone
  dsimp only at hnone ⊢
  rcases hwoven.cases_head with ⟨rfl, rfl⟩ | ⟨g, more, more', rfl, rfl, hmore⟩ | hseam
  · exact h _ o _ .nil hnone
  · by_cases hg : p g = true
    · simp only [Lexeme.optional, one?, hg, if_true, Option.getD_some] at hnone ⊢
      exact h _ _ _ hmore hnone
    · simp only [Lexeme.optional, one?, hg, Bool.false_eq_true, if_false, Option.getD_none]
        at hnone ⊢
      exact h _ _ _ hwoven hnone
  · rw [Lexeme.optional, stops_one? hp ⟨o, rest'⟩ hseam]
    exact hstops _ hseam

theorem Stops.after_one? {read : Cursor → Option Cursor} (hp : Rejects p) (hstops : Stops read) :
    Stops fun c => read (Lexeme.optional (one? p) c) := by
  intro c hseam
  simp only [Lexeme.optional, stops_one? hp c hseam, Option.getD_none]
  exact hstops c hseam

end Cursor

namespace Lexeme
open Cursor

theorem rejects_isIn {q : Char → Bool} (hblank : q ' ' = false) (hcloser : q ')' = false) :
    Rejects (Glyph.isIn q) := ⟨hblank, hcloser⟩

theorem rejects_isDigit : Rejects isDigit := rejects_isIn (by decide) (by decide)

theorem rejects_isHex : Rejects isHex := rejects_isIn (by decide) (by decide)

theorem rejects_eq_or {a b : Char} (ha : a ≠ ' ' ∧ a ≠ ')') (hb : b ≠ ' ' ∧ b ≠ ')') :
    Rejects fun g => g.char == some a || g.char == some b := by
  constructor
  · simp [Glyph.ofChar, ha.1.symm, hb.1.symm]
  · simp [Glyph.ofChar, ha.2.symm, hb.2.symm]

/-- A letter of a number, of either case. -/
def IsLetter (a b : Char) : Prop := (a ≠ ' ' ∧ a ≠ ')') ∧ b ≠ ' ' ∧ b ≠ ')'

instance (a b : Char) : Decidable (IsLetter a b) := inferInstanceAs (Decidable (_ ∧ _))

section
variable {a b : Char}

theorem firm_letter? : Firm Woven (letter? a b) := firm_one?.weaken

theorem exact_letter? (h : IsLetter a b) : Exact (letter? a b) := exact_one? (rejects_eq_or h.1 h.2)

end

namespace LuaNumber

theorem firm_longSuffix? : Firm Woven longSuffix? :=
  (firm_text? "ULL").weaken.orElse (firm_text? "LL").weaken (exact_text? _ (by decide)).tracks.shy

theorem shy_longSuffix? : Shy longSuffix? :=
  (exact_text? "ULL" (by decide)).tracks.shy.orElse
    (exact_text? "LL" (by decide)).tracks.shy

theorem stops_longSuffix? : Stops longSuffix? :=
  (stops_text? "ULL" (by decide) (by decide)).orElse
    (stops_text? "LL" (by decide) (by decide))

section
variable {digit : Glyph → Bool} {lower upper : Char}

/-- A mantissa starts with digits, or with a point. -/
theorem mantissa?_eq (digit : Glyph → Bool) : mantissa? digit = fun c =>
    ((c.some? digit).map (optional fun c => (c.text? ".").map (Cursor.dropWhile digit)))
      <|> (c.text? ".").bind (Cursor.some? digit) := by
  funext c
  unfold mantissa?
  cases c.some? digit with
  | none => rfl
  | some whole =>
    cases hpoint : whole.text? "." with
    | none => simp [optional, hpoint]
    | some point => simp [optional, hpoint]

theorem firm_mantissa? (hdigit : Rejects digit) : Firm Woven (mantissa? digit) := by
  have hsome : Firm Woven (Cursor.some? digit) := firm_some? grows_woven hdigit.ends
  have hpoint : Firm Woven fun c => (c.text? ".").map (Cursor.dropWhile digit) :=
    (firm_text? ".").weaken.map grows_woven (firmPass_dropWhile hdigit.ends)
  have hshy : Shy fun c => (c.text? ".").map (Cursor.dropWhile digit) :=
    (exact_text? _ (by decide)).tracks.shy.map
  rw [mantissa?_eq]
  exact (hsome.map grows_woven (hpoint.optional hshy)).orElse
    ((firm_text? ".").weaken.bind grows_woven hsome) (tracks_some? hdigit).shy.map

theorem shy_mantissa? (hdigit : Rejects digit) : Shy (mantissa? digit) := by
  rw [mantissa?_eq]
  exact (tracks_some? hdigit).shy.map.orElse
    (Shy.bind (exact_text? _ (by decide)).tracks (tracks_some? hdigit).shy (stops_some? hdigit))

theorem firm_exponent? : Firm Woven (exponent? lower upper (Cursor.some? isDigit)) :=
  firm_letter?.bind grows_woven <| .after grows_woven
    (firm_letter?.optional (exact_letter? (by decide)).tracks.shy)
    (firm_some? grows_woven rejects_isDigit.ends)

theorem shy_exponent? (hletters : IsLetter lower upper) :
    Shy (exponent? lower upper (Cursor.some? isDigit)) :=
  have hsign : Rejects fun g => g.char == some '+' || g.char == some '-' :=
    rejects_eq_or (by decide) (by decide)
  .bind (exact_letter? hletters).tracks
    (.after_one? hsign (tracks_some? rejects_isDigit).shy (stops_some? rejects_isDigit))
    (.after_one? hsign (stops_some? rejects_isDigit))

theorem firm_based? (hdigit : Rejects digit) (hletters : IsLetter lower upper) :
    Firm Woven (based? digit lower upper) := by
  have hsome : Firm Woven (Cursor.some? digit) := firm_some? grows_woven hdigit.ends
  have hfirm : Firm Woven (exponent? lower upper (Cursor.some? isDigit)) := firm_exponent?
  have hexponent := hfirm.optional (shy_exponent? hletters)
  have himaginary : FirmPass Woven (optional (letter? 'i' 'I')) :=
    firm_letter?.optional (exact_letter? (by decide)).tracks.shy
  exact (hsome.bind grows_woven firm_longSuffix?).orElse
    ((firm_mantissa? hdigit).map grows_woven (hexponent.comp grows_woven himaginary))
    (.bind (tracks_some? hdigit) shy_longSuffix? stops_longSuffix?)

theorem shy_based? (hdigit : Rejects digit) : Shy (based? digit lower upper) :=
  (Shy.bind (tracks_some? hdigit) shy_longSuffix? stops_longSuffix?).orElse
    (shy_mantissa? hdigit).map

theorem stops_based? (hdigit : Rejects digit) : Stops (based? digit lower upper) := by
  intro c hseam
  have hsome := stops_some? hdigit c hseam
  have hpoint := stops_text? "." (by decide) (by decide) c hseam
  simp [based?, mantissa?, hsome, hpoint]

/-- The mark of a number in base sixteen. -/
theorem hexMark_eq (c : Cursor) : ((c.text? "0x") <|> (c.text? "0X"))
    = (c.text? "0").bind (letter? 'x' 'X') := by
  obtain ⟨offset, rest⟩ := c
  rcases rest with _ | ⟨g, _ | ⟨h, rest⟩⟩
  · rfl
  · by_cases hg : g.char = some '0'
    · simp [Cursor.text?, Cursor.textFrom?, hg, letter?, Cursor.one?]
    · simp [Cursor.text?, Cursor.textFrom?, hg]
  · by_cases hg : g.char = some '0'
    · by_cases hx : h.char = some 'x'
      · simp [Cursor.text?, Cursor.textFrom?, hg, hx, letter?, Cursor.one?]
      · by_cases hX : h.char = some 'X'
        · simp [Cursor.text?, Cursor.textFrom?, hg, hX, letter?, Cursor.one?]
        · simp [Cursor.text?, Cursor.textFrom?, hg, hx, hX, letter?, Cursor.one?]
    · simp [Cursor.text?, Cursor.textFrom?, hg]

theorem firm_read? : Firm Woven read? := by
  have hmark : read? = fun c => (((c.text? "0").bind (letter? 'x' 'X')).bind
      (based? isHex 'p' 'P')) <|> based? isDigit 'e' 'E' c := by
    funext c
    rw [read?, hexMark_eq]
  have hzero : Exact fun c => (c.text? "0").bind (letter? 'x' 'X') :=
    (exact_text? _ (by decide)).bind (exact_letter? (by decide))
  rw [hmark]
  exact (((firm_text? "0").weaken.bind grows_woven firm_letter?).bind grows_woven
      (firm_based? rejects_isHex (by decide))).orElse (firm_based? rejects_isDigit (by decide))
    (.bind hzero.tracks (shy_based? rejects_isHex) (stops_based? rejects_isHex))

end

end LuaNumber

/-! ## Strings -/

/-- The equals signs of a long bracket. -/
def isEquals (g : Glyph) : Bool := g.char == some '='

theorem longOpen?_eq (c : Cursor) : longOpen? c = (c.text? "[").bind fun inner =>
    ((inner.dropWhile isEquals).text? "[").map fun inside =>
      ((inner.dropWhile isEquals).offset - inner.offset, inside) := by
  unfold longOpen?
  cases c.text? "[" with
  | none => rfl
  | some inner =>
    have hequals : (fun g : Glyph => g.char == some '=') = isEquals := rfl
    simp only [Option.bind_eq_bind, Option.bind_some, hequals]
    cases (inner.dropWhile isEquals).text? "[" with
    | none => rfl
    | some inside => rfl

theorem rejects_isEquals : Rejects isEquals := ⟨by decide, by decide⟩

/-- The opening of a long bracket is read wherever it stands. -/
theorem exists_longOpen? {c inside : Cursor} {level : Nat}
    (h : longOpen? c = some (level, inside)) : ∃ front, Passes c inside front
      ∧ ∀ o rest, longOpen? ⟨o, front ++ rest⟩ = some (level, ⟨o + width front, rest⟩) := by
  rw [longOpen?_eq] at h
  obtain ⟨inner, hinner, h⟩ := Option.bind_eq_some_iff.1 h
  obtain ⟨last, hlast, h⟩ := Option.map_eq_some_iff.1 h
  cases h
  obtain ⟨first, hfirst, hall⟩ := firm_text? "[" c inner hinner
  obtain ⟨equals, hequals, hpass⟩ := firmPass_dropWhile (ends_sameHead (p := isEquals)) inner
  obtain ⟨second, hsecond, hspells⟩ := exists_text? hlast
  refine ⟨first ++ (equals ++ second), hfirst.trans (hequals.trans hsecond), fun o rest => ?_⟩
  have hhead : SameHead (inner.dropWhile isEquals).rest (second ++ rest) := by
    obtain ⟨g, front, rfl, -, hfront⟩ := List.map_eq_cons_iff.1 hspells
    rw [hsecond.rest]
    rfl
  rw [longOpen?_eq, List.append_assoc, hall o _ trivial, Option.bind_some, List.append_assoc,
    hpass _ _ hhead]
  dsimp only
  rw [text?_of_spells hspells, Option.map_some, hequals.offset]
  simp only [width_append, ← Nat.add_assoc, Nat.add_sub_cancel_left]

theorem shy_longOpen? {c : Cursor} {o : Nat} {rest : List Glyph} (hwoven : Woven c.rest rest)
    (h : longOpen? c = none) : longOpen? ⟨o, rest⟩ = none := by
  have hbracket : IsPlain "[" := by decide
  have hinside : Shy fun inner => (inner.dropWhile isEquals).text? "[" := by
    intro c o rest hwoven hnone
    rcases dropFrom_woven rejects_isEquals hwoven c.offset o with hrest | hseam
    · exact (exact_text? _ hbracket).tracks.shy _ _ _ hrest hnone
    · exact stops_text? _ hbracket (by decide) _ hseam
  have hstops : Stops fun inner => (inner.dropWhile isEquals).text? "[" := by
    rintro ⟨offset, rest⟩ ⟨g, more, rfl, hg⟩
    have hdrop : dropWhile isEquals ⟨offset, g :: more⟩ = ⟨offset, g :: more⟩ := by
      refine dropFrom_eq_of_head _ ?_
      rcases hg with rfl | rfl
      · simp [rejects_isEquals.blank]
      · simp [rejects_isEquals.closer]
    dsimp only
    rw [hdrop]
    exact stops_text? _ hbracket (by decide) _ ⟨g, more, rfl, hg⟩
  have hshy := Shy.bind (exact_text? _ hbracket).tracks hinside hstops
  have hopen (c : Cursor) : longOpen? c = none ↔ ((c.text? "[").bind fun inner =>
      (inner.dropWhile isEquals).text? "[") = none := by
    rw [longOpen?_eq]
    simp [Option.bind_eq_none_iff]
  rw [hopen] at h ⊢
  exact hshy c o rest hwoven h

theorem firm_beyond? {text : String} (htext : IsPlain text) (hne : text.toList ≠ []) :
    Firm Woven (beyond? text) := by
  rintro ⟨offset, rest⟩ next hread
  unfold beyond? at hread ⊢
  dsimp only at hread ⊢
  induction rest generalizing offset with
  | nil => cases hread
  | cons g rest ih =>
    simp only [beyondFrom?] at hread
    cases hfound : Cursor.text? text ⟨offset, g :: rest⟩ with
    | some found =>
      rw [hfound] at hread
      cases hread
      obtain ⟨front, hpass, hspells⟩ := exists_text? hfound
      refine ⟨front, hpass, fun o rest' hwoven => ?_⟩
      cases front with
      | nil => exact absurd (List.map_eq_nil_iff.1 hspells.symm) hne
      | cons g' front =>
        simp only [List.cons_append, beyondFrom?]
        rw [← List.cons_append, text?_of_spells hspells]
    | none =>
      rw [hfound] at hread
      obtain ⟨front, hpass, hall⟩ := ih _ hread
      refine ⟨g :: front, ⟨congrArg _ hpass.rest, ?_⟩, fun o rest' hwoven => ?_⟩
      · rw [hpass.offset, width_cons, Nat.add_assoc]
      · have hrest := hwoven.append front
        rw [← hpass.rest] at hrest
        have hnone := (exact_text? _ htext).tracks.shy _ o _ (.keep g hrest) hfound
        simp only [List.cons_append, beyondFrom?, hnone, hall _ rest' hwoven, width_cons,
          Nat.add_assoc]

theorem isPlain_longCloser (level : Nat) : IsPlain (longCloser level) := by
  simp only [IsPlain, longCloser, String.toList_ofList]
  intro c hc
  simp only [List.cons_append, List.mem_cons, List.mem_append, List.mem_replicate,
    List.not_mem_nil, or_false] at hc
  rcases hc with rfl | ⟨-, rfl⟩ | rfl <;> decide

theorem firm_longBracket? : Firm Woven longBracket? := by
  intro c next hread
  obtain ⟨⟨level, inside⟩, hopen, hbeyond⟩ := Option.bind_eq_some_iff.1 hread
  obtain ⟨front, hpass, hall⟩ := exists_longOpen? hopen
  have hne : (longCloser level).toList ≠ [] := by simp [longCloser]
  obtain ⟨more, hmore, hrest⟩ := firm_beyond? (isPlain_longCloser level) hne inside next hbeyond
  refine ⟨front ++ more, hpass.trans hmore, fun o rest hwoven => ?_⟩
  simp only [longBracket?, List.append_assoc, hall, Option.bind_eq_bind, Option.bind_some,
    hrest _ rest hwoven, width_append, Nat.add_assoc]

theorem char?_of_sameHead {c c' : Cursor} (h : SameHead c.rest c'.rest) : c'.char? = c.char? := by
  unfold Cursor.char?
  rw [h]

theorem firm_bracedHex? : Firm SameHead bracedHex? :=
  ((firm_text? _).weaken.bind grows_sameHead (firm_some? grows_sameHead ends_sameHead)).bind
    grows_sameHead (firm_text? _).weaken

/-- What is read by the glyph that comes first is firm if what is read for that glyph is. -/
theorem exists_of_char? {read whole : Cursor → Option Cursor} {c next : Cursor}
    (hfirm : Firm SameHead read) (hsame : ∀ c', c'.char? = c.char? → whole c' = read c')
    (hread : whole c = some next) : ∃ front, Passes c next front
      ∧ ∀ o rest, SameHead next.rest rest →
        whole ⟨o, front ++ rest⟩ = some ⟨o + width front, rest⟩ := by
  rw [hsame c rfl] at hread
  obtain ⟨front, hpass, hall⟩ := hfirm c next hread
  refine ⟨front, hpass, fun o rest hhead => ?_⟩
  have hfront := grows_sameHead front _ _ hhead
  rw [← hpass.rest] at hfront
  rw [hsame _ (char?_of_sameHead hfront), hall o rest hhead]

/-- An escape of Lua is read wherever it stands. -/
theorem firm_luaEscape? : Firm SameHead luaEscape? := by
  have hany : Firm SameHead (Cursor.one? fun _ => true) := firm_one?.weaken
  have hspaces : Firm SameHead fun c : Cursor =>
      (c.one? fun _ => true).map (Cursor.dropWhile isSpace) :=
    hany.map grows_sameHead (firmPass_dropWhile ends_sameHead)
  have hcodes : Firm SameHead fun c : Cursor =>
      (c.one? fun _ => true).bind (Cursor.exactly? isHex 2) :=
    hany.bind grows_sameHead (firm_exactly? 2).weaken
  have hbraced := hany.bind grows_sameHead firm_bracedHex?
  have hdigits : Firm SameHead fun c => some (c.upTo isDigit 3) := by
    intro c next hread
    cases hread
    obtain ⟨front, hpass, hall⟩ := firmPass_upTo (p := isDigit) 3 c
    exact ⟨front, hpass, fun o rest hhead => congrArg some (hall o rest hhead)⟩
  intro c next hread
  have hread' := hread
  unfold luaEscape? at hread'
  split at hread'
  · next hchar =>
    exact exists_of_char? hspaces (fun c' h => by rw [luaEscape?, h, hchar]; rfl) hread
  · next hchar =>
    exact exists_of_char? hcodes (fun c' h => by rw [luaEscape?, h, hchar]; rfl) hread
  · next hchar =>
    exact exists_of_char? hbraced (fun c' h => by rw [luaEscape?, h, hchar]; rfl) hread
  · next ch hz hx hu hchar =>
    have hother (c' : Cursor) (h : c'.char? = c.char?) : luaEscape? c' =
        if isAsciiDigit ch then some (c'.upTo isDigit 3)
        else if "\nabfnrtv\\'\"".toList.contains ch then c'.one? fun _ => true else none := by
      rw [luaEscape?, h, hchar]
      split <;> simp_all
    split at hread'
    · next hdigit =>
      exact exists_of_char? hdigits (fun c' h => by rw [hother c' h, if_pos hdigit]) hread
    · next hdigit =>
      split at hread'
      · next hlisted =>
        refine exists_of_char? hany (fun c' h => ?_) hread
        rw [hother c' h, if_neg hdigit, if_pos hlisted]
      · cases hread'
  · cases hread'

/-- The rest of a quoted string is read wherever it stands. -/
theorem exists_quotedRest? {quote : Char} {bound : List Glyph} {c next : Cursor}
    (h : quotedRest? .lua quote bound c = some next) : ∃ front, front ≠ [] ∧ Passes c next front
      ∧ ∀ o rest more, front.length ≤ more.length →
        quotedRest? .lua quote more ⟨o, front ++ rest⟩ = some ⟨o + width front, rest⟩ := by
  induction bound generalizing c with
  | nil => cases h
  | cons _ bound ih =>
    obtain ⟨offset, rest⟩ := c
    cases rest with
    | nil => cases h
    | cons g rest =>
      have hone (o : Nat) (rest : List Glyph) :
          Cursor.one? (fun _ => true) ⟨o, g :: rest⟩ = some ⟨o + g.width, rest⟩ := rfl
      have hfirst (o : Nat) (rest : List Glyph) : Passes ⟨o, g :: rest⟩ ⟨o + g.width, rest⟩ [g] :=
        ⟨rfl, by simp⟩
      simp only [quotedRest?, hone, Option.bind_some] at h
      by_cases hquote : g.char = some quote
      · rw [if_pos hquote] at h
        cases h
        refine ⟨[g], by simp, hfirst .., fun o rest more hlength => ?_⟩
        obtain ⟨b, more, rfl⟩ := List.exists_cons_of_length_pos hlength
        simp [quotedRest?, hquote, hone]
      · rw [if_neg hquote] at h
        by_cases hescape : g.char = some '\\'
        · rw [if_pos hescape] at h
          obtain ⟨behind, hbehind, hnext⟩ := Option.bind_eq_some_iff.1 h
          obtain ⟨escape, hpass, hall⟩ := firm_luaEscape? _ _ hbehind
          obtain ⟨front, hne, hfront, hrest⟩ := ih hnext
          refine ⟨g :: (escape ++ front), by simp, (hfirst ..).trans (hpass.trans hfront),
            fun o rest more hlength => ?_⟩
          obtain ⟨b, more, rfl⟩ :=
            List.exists_cons_of_length_pos (Nat.lt_of_lt_of_le (Nat.succ_pos _) hlength)
          simp only [List.length_cons, List.length_append] at hlength
          have hhead : SameHead behind.rest (front ++ rest) := by
            obtain ⟨g', front, rfl⟩ := List.exists_cons_of_ne_nil hne
            rw [hfront.rest]
            rfl
          have hescape' := hall (o + g.width) _ hhead
          rw [← List.append_assoc] at hescape'
          simp only [quotedRest?, List.cons_append, if_neg hquote, if_pos hescape, hone,
            Option.bind_some, escape?, hescape', hrest _ rest more (by omega), width_cons,
            width_append, Nat.add_assoc]
        · rw [if_neg hescape] at h
          obtain ⟨front, hne, hfront, hrest⟩ := ih h
          refine ⟨g :: front, by simp, (hfirst ..).trans hfront, fun o rest more hlength => ?_⟩
          obtain ⟨b, more, rfl⟩ :=
            List.exists_cons_of_length_pos (Nat.lt_of_lt_of_le (Nat.succ_pos _) hlength)
          simp only [List.length_cons] at hlength
          simp only [quotedRest?, List.cons_append, hquote, if_false, hescape, hone,
            Option.bind_some, hrest _ rest more (by omega), width_cons, Nat.add_assoc]

theorem firm_quoted? : Firm Any (quoted? .lua) := by
  rintro ⟨offset, rest⟩ next hread
  cases rest with
  | nil => cases hread
  | cons g rest =>
    have hone (o : Nat) (rest : List Glyph) :
        Cursor.one? (fun _ => true) ⟨o, g :: rest⟩ = some ⟨o + g.width, rest⟩ := rfl
    have hchar (o : Nat) (rest : List Glyph) : Cursor.char? ⟨o, g :: rest⟩ = g.char := rfl
    simp only [quoted?, hchar, hone, Option.bind_some] at hread
    split at hread
    · next quote hquote =>
      split at hread
      · next hmark =>
        obtain ⟨front, -, hpass, hall⟩ := exists_quotedRest? hread
        refine ⟨g :: front, ⟨congrArg _ hpass.rest, ?_⟩, fun o rest _ => ?_⟩
        · rw [hpass.offset, width_cons, Nat.add_assoc]
        · simp only [quoted?, List.cons_append, hchar, hquote, hmark, if_true, hone,
            Option.bind_some, hall _ rest (front ++ rest) (by simp), width_cons, Nat.add_assoc]
      · cases hread
    · cases hread

theorem isSome_longOpen? {c : Cursor} {o : Nat} {rest : List Glyph} (hwoven : Woven c.rest rest)
    (h : (longOpen? c).isSome = false) : (longOpen? ⟨o, rest⟩).isSome = false := by
  rw [Option.isSome_eq_false_iff, Option.isNone_iff_eq_none] at h ⊢
  exact shy_longOpen? hwoven h

/-- A string is read in a woven source as it was. -/
theorem firm_string? : Firm Woven (string? .lua) := by
  intro c next hread
  unfold string? at hread
  split at hread
  · next hopen =>
    obtain ⟨⟨level, inside⟩, hinside, hbeyond⟩ := Option.bind_eq_some_iff.1 hread
    obtain ⟨front, hpass, hall⟩ := firm_longBracket? c next hread
    refine ⟨front, hpass, fun o rest hwoven => ?_⟩
    have hbracket := hall o rest hwoven
    have hsome : (longOpen? ⟨o, front ++ rest⟩).isSome = true := by
      cases hlong : longOpen? ⟨o, front ++ rest⟩ with
      | some read => rfl
      | none => simp [longBracket?, hlong] at hbracket
    rw [string?, if_pos hsome, hbracket]
  · next hopen =>
    obtain ⟨front, hpass, hall⟩ := firm_quoted? c next hread
    refine ⟨front, hpass, fun o rest hwoven => ?_⟩
    have hfront := hwoven.append front
    rw [← hpass.rest] at hfront
    have hnone := isSome_longOpen? (o := o) hfront (Bool.eq_false_iff.2 hopen)
    rw [string?, if_neg (by simp [hnone]), hall o rest trivial]

/-! ## Words -/

abbrev isNamePart : Glyph → Bool := Glyph.isIn Dialect.lua.isNamePart

theorem rejects_isNamePart : Rejects isNamePart := rejects_isIn (by decide) (by decide)

/-- A word ends in front of what comes next. -/
abbrev EndsWord (rest : List Glyph) : Prop := rest.head?.all (fun g => !isNamePart g) = true

/-- Glyphs that are a word. -/
structure IsWord (word : String) (front : List Glyph) : Prop where
  starts : ∃ g ch more, front = g :: more ∧ g.char = some ch ∧ Dialect.lua.isNameStart ch = true
  parts : ∀ g ∈ front, isNamePart g = true
  spells : word = String.ofList (front.filterMap Glyph.char)

theorem wordChars_append {front rest : List Glyph} (hfront : ∀ g ∈ front, isNamePart g = true)
    (hrest : EndsWord rest) : wordChars .lua (front ++ rest) = front.filterMap Glyph.char := by
  induction front with
  | nil =>
    cases rest with
    | nil => rfl
    | cons g rest =>
      simp only [EndsWord, List.head?_cons, Option.all_some, Glyph.isIn, Bool.not_eq_true'] at hrest
      cases hg : g.char with
      | none => simp [wordChars, hg]
      | some ch => simp_all [wordChars]
  | cons g front ih =>
    obtain ⟨hg, hfront⟩ := List.forall_mem_cons.1 hfront
    simp only [Glyph.isIn, Option.any_eq_true] at hg
    obtain ⟨ch, hchar, hpart⟩ := hg
    simp [wordChars, hchar, hpart, ih hfront]

/-- A word is read up to its end. -/
theorem IsWord.word? {word : String} {front rest : List Glyph} (h : IsWord word front)
    (hrest : EndsWord rest) (o : Nat) :
    word? .lua ⟨o, front ++ rest⟩ = some (word, ⟨o + width front, rest⟩) := by
  have hchars := wordChars_append h.parts hrest
  have hdrop := dropWhile_append (o := o) h.parts hrest
  rw [h.spells]
  obtain ⟨g, ch, more, rfl, hg, hstart⟩ := h.starts
  have hchar : Cursor.char? ⟨o, g :: more ++ rest⟩ = some ch := hg
  simp only [Lexeme.word?, hchar, hstart, if_true, hchars, hdrop]

theorem exists_word? {c next : Cursor} {word : String} (h : word? .lua c = some (word, next)) :
    ∃ front, Passes c next front ∧ IsWord word front ∧ EndsWord next.rest := by
  obtain ⟨offset, rest⟩ := c
  cases rest with
  | nil => cases h
  | cons g rest =>
    cases hchar : g.char with
    | none => simp [word?, Cursor.char?, hchar] at h
    | some ch =>
      have hc : Cursor.char? ⟨offset, g :: rest⟩ = some ch := hchar
      by_cases hstart : Dialect.lua.isNameStart ch = true
      · obtain ⟨front, hpass, hall⟩ := exists_dropWhile isNamePart ⟨offset, g :: rest⟩
        have hg : isNamePart g = true := by
          simp only [Dialect.isNameStart, Bool.and_eq_true] at hstart
          simp [Glyph.isIn, hchar, hstart.1]
        have hends : EndsWord (Cursor.dropWhile isNamePart ⟨offset, g :: rest⟩).rest :=
          head_dropFrom ..
        simp only [word?, hc, hstart, if_true, Option.some.injEq, Prod.mk.injEq] at h
        obtain ⟨hword, rfl⟩ := h
        have hrest : g :: rest = front ++ _ := hpass.rest
        refine ⟨front, hpass, ⟨?_, hall, ?_⟩, hends⟩
        · cases front with
          | nil =>
            rw [List.nil_append] at hrest
            rw [← hrest] at hends
            simp [EndsWord, hg] at hends
          | cons g' more =>
            obtain ⟨rfl, -⟩ := List.cons_eq_cons.1 hrest
            exact ⟨g, ch, more, rfl, hchar, hstart⟩
        · rw [← hword, ← wordChars_append hall hends, ← hrest]
      · simp [word?, hc, hstart] at h

theorem endsWord_woven {rest rest' : List Glyph} (hwoven : Woven rest rest') (h : EndsWord rest) :
    EndsWord rest' := by
  rcases rejects_isNamePart.ends _ _ hwoven with hends | hhead
  · exact hends
  · rw [EndsWord, hhead]
    exact h

/-- A word is read in a woven source as it was. -/
theorem word?_woven {c next : Cursor} {word : String} (h : word? .lua c = some (word, next)) :
    ∃ front, Passes c next front ∧ IsWord word front ∧ ∀ o rest, Woven next.rest rest →
      word? .lua ⟨o, front ++ rest⟩ = some (word, ⟨o + width front, rest⟩) := by
  obtain ⟨front, hpass, hword, hends⟩ := exists_word? h
  exact ⟨front, hpass, hword, fun o rest hwoven => hword.word? (endsWord_woven hwoven hends) o⟩

theorem word?_eq_none_iff {c : Cursor} :
    word? .lua c = none ↔ ¬ c.char?.any Dialect.lua.isNameStart = true := by
  unfold word?
  cases c.char? with
  | none => simp
  | some ch => simp

theorem word?_of_isSeam {c : Cursor} (h : IsSeam c.rest) : word? .lua c = none := by
  obtain ⟨g, more, hrest, hg⟩ := h
  have hchar : c.char? = g.char := by rw [Cursor.char?, hrest]; rfl
  rw [word?_eq_none_iff, hchar]
  rcases hg with rfl | rfl <;> decide

/-! ## White space and comments -/

theorem isSpace_of_not_avoids {g : Glyph} (h : Glyph.avoids ['\r', '\n'] g = false) :
    isSpace g = true := by
  simp only [Glyph.avoids, Bool.not_eq_false', Option.any_eq_true, List.contains_eq_mem,
    decide_eq_true_eq, List.mem_cons, List.not_mem_nil, or_false] at h
  obtain ⟨ch, hchar, rfl | rfl⟩ := h
  · simp [isSpace, Glyph.isIn, hchar]
    decide
  · simp [isSpace, Glyph.isIn, hchar]
    decide

/-- A comment is read in a woven source as it was. One that goes on to the end of its line needs the
end of the line. -/
theorem comment?_woven {c behind : Cursor} (h : comment? c = some (some behind)) :
    ∃ g front, Passes c behind (g :: front) ∧ isSpace g = false
      ∧ ∀ o rest, Woven behind.rest rest →
        (behind.rest.head?.all isSpace = true → SameHead behind.rest rest) →
        comment? ⟨o, g :: front ++ rest⟩ = some (some ⟨o + width (g :: front), rest⟩) := by
  obtain ⟨body, hbody, h⟩ := Option.map_eq_some_iff.1 h
  obtain ⟨dashes, hpass, hspells⟩ := exists_text? hbody
  obtain ⟨g, dashes, rfl, hg, hdashes⟩ := List.map_eq_cons_iff.1 hspells
  have hspace : isSpace g = false := by
    simp only [isSpace, Glyph.isIn, hg]
    decide
  cases hopen : longOpen? body with
  | some opening =>
    simp only [hopen] at h
    obtain ⟨front, hfront, hall⟩ := firm_longBracket? body behind h
    refine ⟨g, dashes ++ front, hpass.trans hfront, hspace, fun o rest hwoven _ => ?_⟩
    rw [← List.cons_append]
    have hbracket := hall (o + width (g :: dashes)) rest hwoven
    obtain ⟨opening, hopening, -⟩ := Option.bind_eq_some_iff.1 hbracket
    simp only [comment?, List.append_assoc, text?_of_spells hspells, Option.map_some, hopening,
      hbracket, width_append, Nat.add_assoc]
  | none =>
    simp only [hopen, Option.some.injEq] at h
    obtain rfl := h
    obtain ⟨front, hfront, hall⟩ := firmPass_dropWhile
      (ends_sameHead (p := Glyph.avoids ['\r', '\n'])) body
    refine ⟨g, dashes ++ front, hpass.trans hfront, hspace, fun o rest hwoven hhead => ?_⟩
    rw [← List.cons_append]
    have hline : (body.dropWhile (Glyph.avoids ['\r', '\n'])).rest.head?.all isSpace = true := by
      have hends := head_dropFrom (p := Glyph.avoids ['\r', '\n']) body.offset body.rest
      change (body.dropWhile _).rest.head?.all _ = true at hends
      rw [Option.all_eq_true] at hends ⊢
      exact fun g hg => isSpace_of_not_avoids (by simpa using hends g hg)
    have hnone : longOpen? ⟨o + width (g :: dashes), front ++ rest⟩ = none := by
      have hrest := hwoven.append front
      rw [← hfront.rest] at hrest
      exact shy_longOpen? hrest hopen
    simp only [comment?, List.append_assoc, text?_of_spells hspells, Option.map_some, hnone,
      hall _ rest (hhead hline), width_append, Nat.add_assoc]

theorem dropWhile_append_rest {p : Glyph → Bool} {front : List Glyph}
    (hfront : ∀ g ∈ front, p g = true) (o : Nat) (rest : List Glyph) :
    Cursor.dropWhile p ⟨o, front ++ rest⟩ = Cursor.dropWhile p ⟨o + width front, rest⟩ := by
  unfold Cursor.dropWhile
  dsimp only
  induction front generalizing o with
  | nil => rfl
  | cons g front ih =>
    obtain ⟨hg, hfront⟩ := List.forall_mem_cons.1 hfront
    rw [List.cons_append, dropFrom, if_pos hg, ih hfront, width_cons, Nat.add_assoc]

/-- Whether nodes are comments, without a role. -/
def AreComments (nodes : List Node) : Prop := ∀ n ∈ nodes, n.kind = .comment ∧ n.role = none

/-- White space and comments are passed over in a woven source as they were. -/
theorem triviaWithin_woven {bound : List Glyph} {c u : Cursor} {comments : List Node}
    (hbound : c.rest.length ≤ bound.length) (h : triviaWithin bound c = some (comments, u)) :
    ∃ front, Passes c u front ∧ AreComments comments
      ∧ u.rest.head?.all (fun g => !isSpace g) = true ∧ comment? u = none
      ∧ ∀ o rest more, Woven u.rest rest → (u.rest = [] → rest = []) →
        comment? (Cursor.dropWhile isSpace ⟨o + width front, rest⟩) = none →
        front.length + rest.length ≤ more.length →
        ∃ comments', triviaWithin more ⟨o, front ++ rest⟩
          = some (comments', Cursor.dropWhile isSpace ⟨o + width front, rest⟩)
          ∧ AreComments comments' := by
  induction bound generalizing c comments with
  | nil =>
    cases h
    obtain ⟨offset, rest⟩ := u
    obtain rfl : rest = [] := List.eq_nil_of_length_eq_zero (Nat.le_zero.1 hbound)
    refine ⟨[], .refl _, nofun, rfl, rfl, fun o rest more _ hend _ _ => ⟨[], ?_, nofun⟩⟩
    obtain rfl := hend rfl
    cases more <;> rfl
  | cons b bound ih =>
    obtain ⟨spaces, hspaces, hall⟩ := exists_dropWhile isSpace c
    have hlands : (c.dropWhile isSpace).rest.head?.all (fun g => !isSpace g) = true :=
      head_dropFrom ..
    simp only [triviaWithin] at h
    cases hcomment : comment? (c.dropWhile isSpace) with
    | none =>
      rw [hcomment] at h
      cases h
      refine ⟨spaces, hspaces, nofun, hlands, hcomment, fun o rest more _ _ hrest hlength => ?_⟩
      cases more with
      | nil =>
        simp only [List.length_nil, Nat.le_zero, Nat.add_eq_zero_iff, List.length_eq_zero_iff]
          at hlength
        obtain ⟨rfl, rfl⟩ := hlength
        exact ⟨[], rfl, nofun⟩
      | cons b more =>
        refine ⟨[], ?_, nofun⟩
        rw [triviaWithin, dropWhile_append_rest hall]
        simp only [hrest]
    | some found =>
      cases found with
      | none =>
        rw [hcomment] at h
        cases h
      | some behind =>
        rw [hcomment] at h
        obtain ⟨⟨more, next⟩, hmore, h⟩ := Option.bind_eq_some_iff.1 h
        simp only [Option.some.injEq, Prod.mk.injEq] at h
        obtain ⟨rfl, rfl⟩ := h
        obtain ⟨g, front, hfront, hg, hread⟩ := comment?_woven hcomment
        have hlength : behind.rest.length ≤ bound.length := by
          have h1 := congrArg List.length hspaces.rest
          have h2 := congrArg List.length hfront.rest
          simp only [List.length_append, List.length_cons] at h1 h2 hbound
          omega
        obtain ⟨last, hlast, hcomments, hspace, hnone, htrivia⟩ := ih hlength hmore
        refine ⟨spaces ++ (g :: front ++ last), hspaces.trans (hfront.trans hlast),
          List.forall_mem_cons.2 ⟨⟨rfl, rfl⟩, hcomments⟩, hspace, hnone,
          fun o rest bound' hwoven hend hrest hbound' => ?_⟩
        simp only [List.length_append, List.length_cons] at hbound'
        obtain ⟨b, bound', rfl⟩ :=
          List.exists_cons_of_length_pos (show 0 < bound'.length by omega)
        simp only [List.length_cons] at hbound'
        obtain ⟨comments', htrivia', hcomments'⟩ := htrivia (o + width (spaces ++ g :: front)) rest
          bound' hwoven hend (by simpa [Nat.add_assoc] using hrest) (by omega)
        -- Behind the comment the line ends, unless the source does.
        have hhead : behind.rest.head?.all isSpace = true →
            SameHead behind.rest (last ++ rest) := by
          intro hline
          rw [hlast.rest] at hline ⊢
          cases last with
          | cons g last => rfl
          | nil =>
            cases hu : next.rest with
            | nil => rw [hend hu]; rfl
            | cons g more =>
              rw [hu] at hline hspace
              simp_all
        have hbehind := hwoven.append last
        rw [← hlast.rest] at hbehind
        have hdrop : Cursor.dropWhile isSpace ⟨o, spaces ++ (g :: front ++ (last ++ rest))⟩
            = ⟨o + width spaces, g :: front ++ (last ++ rest)⟩ :=
          dropWhile_append hall (by simp [hg])
        have hread' := hread (o + width spaces) _ hbehind hhead
        simp only [width_append, Nat.add_assoc] at htrivia'
        simp only [triviaWithin, List.append_assoc, hdrop, hread', htrivia', Option.bind_eq_bind,
          Option.bind_some, width_append, Nat.add_assoc]
        exact ⟨_, rfl, List.forall_mem_cons.2 ⟨⟨rfl, rfl⟩, hcomments'⟩⟩

end Lexeme

end LuaCoverage.Lua
