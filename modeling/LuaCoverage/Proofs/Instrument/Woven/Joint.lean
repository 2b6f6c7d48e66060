import LuaCoverage.Instrument.Call
import LuaCoverage.Lua.Grammar.Expressions
import LuaCoverage.Proofs.Analysis.Places
import LuaCoverage.Proofs.Instrument.Erasure
import LuaCoverage.Proofs.Lua.Woven.Lexeme

/-!
# Two cursors side by side

A source that texts are written into is a list of *pieces*: its glyphs, and the sites where texts
stand. Without the sites it is the source, and with their texts it is the result. A *joint* is a
place in both: the pieces that are left there, and how many bytes lie before it in either.

An *outline* tells the slots of sites only. A joint goes to another one over an outline if the pieces
between the two are of that outline.

What comes next in a result is what comes next in the source, or the text of a site. So a test that
fails in the source fails in the result as well, if it fails at the texts that may stand there.

Results:
* `Joint.goes_append`: outlines follow each other.
* `Joint.woven_rest`: what is left of the result is what is left of the source, woven.
* `Joint.entry_mark`: how the text of a site starts.
* `Joint.Ready`: what comes next in both is known.
* `trivia?_goes`: white space and comments are passed over in both.
-/

namespace LuaCoverage.Instrument
open LuaCoverage.Lua LuaCoverage.Text LuaCoverage.Lua.Cursor LuaCoverage.Analysis


/-- A glyph of a source, or a mark between its glyphs. -/
inductive Piece (α : Type)
  | glyph (g : Glyph)
  | mark (a : α)

def Piece.map {α β : Type} (f : α → β) : Piece α → Piece β
  | glyph g => glyph g
  | mark a => mark (f a)

section
variable {α β : Type}

/-- The glyphs among pieces. -/
def plain : List (Piece α) → List Glyph
  | [] => []
  | .glyph g :: rest => g :: plain rest
  | .mark _ :: rest => plain rest

def marksOf : List (Piece α) → List α
  | [] => []
  | .glyph _ :: rest => marksOf rest
  | .mark a :: rest => a :: marksOf rest

/-- Pieces without marks. -/
def bare (front : List Glyph) : List (Piece α) := front.map .glyph

@[simp] theorem plain_append (a b : List (Piece α)) : plain (a ++ b) = plain a ++ plain b := by
  induction a with
  | nil => rfl
  | cons p a ih => cases p <;> simp [plain, ih]

@[simp] theorem plain_bare (front : List Glyph) : plain (bare front : List (Piece α)) = front := by
  induction front with
  | nil => rfl
  | cons g front ih => exact congrArg _ ih

@[simp] theorem plain_map (f : α → β) (a : List (Piece α)) : plain (a.map (.map f)) = plain a := by
  induction a with
  | nil => rfl
  | cons p a ih => cases p <;> simp [plain, Piece.map, ih]

@[simp] theorem marksOf_append (a b : List (Piece α)) :
    marksOf (a ++ b) = marksOf a ++ marksOf b := by
  induction a with
  | nil => rfl
  | cons p a ih => cases p <;> simp [marksOf, ih]

@[simp] theorem marksOf_bare (front : List Glyph) :
    marksOf (bare front : List (Piece α)) = [] := by
  induction front with
  | nil => rfl
  | cons g front ih => exact ih

@[simp] theorem marksOf_map (f : α → β) (a : List (Piece α)) :
    marksOf (a.map (.map f)) = (marksOf a).map f := by
  induction a with
  | nil => rfl
  | cons p a ih => cases p <;> simp [marksOf, Piece.map, ih]

end

/-- A source with the slots of the sites in it. -/
abbrev Outline := List (Piece Site.Slot)

/-- The places of the sites in an outline. -/
def Outline.places : (offset : Nat) → Outline → List Spot
  | _, [] => []
  | offset, .glyph g :: rest => places (offset + g.width) rest
  | offset, .mark slot :: rest => (offset, slot) :: places offset rest

/-- How many sites an outline has. -/
def Outline.count (outline : Outline) : Nat := (marksOf outline).length

namespace Outline

@[simp] theorem places_append (offset : Nat) (a b : Outline) :
    places offset (a ++ b) = places offset a ++ places (offset + width (plain a)) b := by
  induction a generalizing offset with
  | nil => rfl
  | cons p a ih => cases p <;> simp [places, plain, ih, Nat.add_assoc]

@[simp] theorem places_bare (offset : Nat) (front : List Glyph) : places offset (bare front) = [] := by
  induction front generalizing offset with
  | nil => rfl
  | cons g front ih => exact ih _

@[simp] theorem count_append (a b : Outline) : count (a ++ b) = count a + count b := by
  simp [count]

@[simp] theorem count_bare (front : List Glyph) : count (bare front) = 0 := by
  simp [count]

@[simp] theorem count_mark (slot : Site.Slot) : count [.mark slot] = 1 := rfl

end Outline

/-- A source and the result of writing into it: what is written for which name and path, and the
spans where it stands. -/
structure Writing where
  name : ProbeName
  path : String
  source : Bytes
  result : Bytes
  written : List Span
  isName : isName name.text.toList = true

namespace Writing
variable (w : Writing)

/-- What is written at a site. -/
def text (s : Site) : List Glyph := (Call.text w.name w.path s).toList.map Glyph.ofChar

/-- Pieces with the texts of their sites. -/
def spread : List (Piece Site) → List Glyph
  | [] => []
  | .glyph g :: rest => g :: spread rest
  | .mark s :: rest => w.text s ++ spread rest

/-- Pieces stand at an offset of the source and at a position of the result: their glyphs are the
same in both and were not written, and the texts of their sites were. -/
def Agrees : (offset position : Nat) → List (Piece Site) → Prop
  | _, _, [] => True
  | offset, position, .glyph g :: rest =>
    (w.source.drop offset).take g.width = (w.result.drop position).take g.width
      ∧ isWritten w.written position = false ∧ Agrees (offset + g.width) (position + g.width) rest
  | offset, position, .mark s :: rest =>
    (position, position + width (w.text s)) ∈ w.written
      ∧ Agrees offset (position + width (w.text s)) rest

@[simp] theorem spread_append (a b : List (Piece Site)) :
    w.spread (a ++ b) = w.spread a ++ w.spread b := by
  induction a with
  | nil => rfl
  | cons p a ih => cases p <;> simp [spread, ih]

variable {w}

theorem Agrees.behind {offset position : Nat} {front rest : List (Piece Site)}
    (h : w.Agrees offset position (front ++ rest)) :
    w.Agrees (offset + width (plain front)) (position + width (w.spread front)) rest := by
  induction front generalizing offset position with
  | nil => exact h
  | cons p front ih =>
    cases p with
    | glyph g =>
      have hrest := ih h.2.2
      simpa only [plain, spread, width_cons, Nat.add_assoc] using hrest
    | mark s =>
      have hrest := ih h.2
      simpa only [plain, spread, width_append, Nat.add_assoc] using hrest

end Writing

/-- A place in a source and in the result of writing into it. -/
structure Joint (w : Writing) where
  offset : Nat
  position : Nat
  pieces : List (Piece Site)
  agrees : w.Agrees offset position pieces

namespace Joint
variable {w : Writing}

/-- The place in the source. -/
def source (j : Joint w) : Cursor := ⟨j.offset, plain j.pieces⟩

/-- The place in the result. -/
def woven (j : Joint w) : Cursor := ⟨j.position, w.spread j.pieces⟩

/-- The first place in the result that is not blank. -/
def entry (j : Joint w) : Cursor := j.woven.dropWhile Lexeme.isSpace

/-- A joint goes to another over pieces of an outline. -/
def Goes (j : Joint w) (outline : Outline) (l : Joint w) : Prop :=
  ∃ front, front.map (Piece.map Site.slot) = outline ∧ j.pieces = front ++ l.pieces
    ∧ l.offset = j.offset + width (plain front) ∧ l.position = j.position + width (w.spread front)

theorem goes_nil {j l : Joint w} : j.Goes [] l ↔ l = j := by
  constructor
  · rintro ⟨front, hfront, hpieces, hoffset, hposition⟩
    obtain rfl := List.map_eq_nil_iff.1 hfront
    obtain ⟨o, p, pieces, h⟩ := j
    obtain ⟨o', p', pieces', h'⟩ := l
    simp_all [plain, Writing.spread]
  · rintro rfl
    exact ⟨[], rfl, rfl, rfl, rfl⟩

theorem goes_append {j l : Joint w} {a b : Outline} :
    j.Goes (a ++ b) l ↔ ∃ k, j.Goes a k ∧ k.Goes b l := by
  constructor
  · rintro ⟨front, hfront, hpieces, hoffset, hposition⟩
    obtain ⟨front, back, rfl, hfront, hback⟩ := List.map_eq_append_iff.1 hfront
    rw [List.append_assoc] at hpieces
    have hagrees := j.agrees
    rw [hpieces] at hagrees
    refine ⟨⟨_, _, back ++ l.pieces, hagrees.behind⟩, ⟨front, hfront, hpieces, rfl, rfl⟩,
      ⟨back, hback, rfl, ?_, ?_⟩⟩
    · simp [hoffset, Nat.add_assoc]
    · simp [hposition, Nat.add_assoc]
  · rintro ⟨k, ⟨front, hfront, hpieces, hoffset, hposition⟩, back, hback, hpieces', hoffset',
      hposition'⟩
    refine ⟨front ++ back, by simp [hfront, hback], by simp [hpieces, hpieces'], ?_, ?_⟩
    · simp [hoffset', hoffset, Nat.add_assoc]
    · simp [hposition', hposition, Nat.add_assoc]

theorem Goes.passes {j l : Joint w} {outline : Outline} (h : j.Goes outline l) :
    Passes j.source l.source (plain outline) := by
  obtain ⟨front, rfl, hpieces, hoffset, -⟩ := h
  refine ⟨?_, ?_⟩
  · simp [source, hpieces]
  · simp [source, hoffset]

/-- Over the glyphs of a reading a joint goes to where the reading ends. -/
theorem Goes.source_eq {j l : Joint w} {outline : Outline} {c n : Cursor} (h : j.Goes outline l)
    (hc : j.source = c) (hpass : Passes c n (plain outline)) : l.source = n := by
  have hl := h.passes
  rw [hc] at hl
  obtain ⟨offset, rest⟩ := n
  have hrest := hl.rest.symm.trans hpass.rest
  have hoffset := hl.offset.trans hpass.offset.symm
  rw [List.append_cancel_left_eq] at hrest
  have hsource : l.source = ⟨l.source.offset, l.source.rest⟩ := rfl
  rw [hsource, hrest, hoffset]

end Joint

/-! ## What is written -/

namespace Writing
variable (w : Writing)

theorem exists_name : ∃ c rest, w.name.text.toList = c :: rest ∧ isWordStart c = true := by
  have h := w.isName
  cases htext : w.name.text.toList with
  | nil => simp [htext, Lua.isName] at h
  | cons c rest =>
    simp only [htext, Lua.isName, Bool.and_eq_true] at h
    exact ⟨c, rest, rfl, h.1.1⟩

/-- What is written is a closing parenthesis, or a blank and a word. -/
theorem written_text (s : Site) : Written (w.text s) := by
  obtain ⟨c, rest, hname, hc⟩ := w.exists_name
  unfold text Call.text
  cases s.style with
  | closer =>
    have htext : ")".toList = [')'] := rfl
    simp only [htext]
    exact .closer []
  | elseArm =>
    simp only [String.toList_append, List.map_append]
    exact .word _ (by decide)
  | _ =>
    simp only [Call.alone, Call.opening, String.toList_append, hname]
    exact .word _ hc

theorem woven_spread (pieces : List (Piece Site)) : Woven (plain pieces) (w.spread pieces) := by
  induction pieces with
  | nil => exact .nil
  | cons p pieces ih =>
    cases p with
    | glyph g => exact .keep g ih
    | mark s => exact .text (w.written_text s) ih

end Writing

namespace Joint
variable {w : Writing} {j l : Joint w}

theorem woven_rest (j : Joint w) : Woven j.source.rest j.woven.rest := w.woven_spread _

/-- Over bare glyphs both cursors pass. -/
theorem goes_bare {front : List Glyph} (h : j.Goes (bare front) l) :
    Passes j.source l.source front ∧ Passes j.woven l.woven front := by
  have hpass := h.passes
  rw [plain_bare] at hpass
  refine ⟨hpass, ?_⟩
  obtain ⟨pieces, hpieces, hrest, -, hposition⟩ := h
  have hspread : w.spread pieces = front := by
    clear hpass hrest hposition
    induction front generalizing pieces with
    | nil =>
      obtain rfl := List.map_eq_nil_iff.1 hpieces
      rfl
    | cons g front ih =>
      obtain ⟨p, pieces, rfl, hp, hrest⟩ := List.map_eq_cons_iff.1 hpieces
      cases p with
      | glyph g' =>
        cases hp
        simp only [Writing.spread, ih pieces hrest]
      | mark s => cases hp
  exact ⟨by simp [woven, hrest, hspread], by simp [woven, hposition, hspread]⟩

/-- Over a site nothing of the source is passed, and its text is. -/
theorem goes_mark {slot : Site.Slot} (h : j.Goes [.mark slot] l) : ∃ s, s.slot = slot
    ∧ j.pieces = .mark s :: l.pieces ∧ l.source = j.source ∧ Passes j.woven l.woven (w.text s)
    ∧ (j.position, l.position) ∈ w.written := by
  obtain ⟨front, hfront, hpieces, hoffset, hposition⟩ := h
  obtain ⟨p, rest, rfl, hp, hrest⟩ := List.map_eq_cons_iff.1 hfront
  obtain rfl := List.map_eq_nil_iff.1 hrest
  cases p with
  | glyph g => cases hp
  | mark s =>
    cases hp
    have hagrees := j.agrees
    rw [hpieces] at hagrees
    refine ⟨s, rfl, hpieces, ?_, ⟨?_, ?_⟩, ?_⟩
    · simp [source, hpieces, hoffset, plain]
    · simp [woven, hpieces, Writing.spread]
    · simp [woven, hposition, Writing.spread]
    · simpa [hposition, Writing.spread] using hagrees.1

end Joint

/-! ## What comes next -/

open LuaCoverage.Lua.Grammar

/-- A place in front of a lexeme: no white space and no comment stands there. All glyphs behind it
take up space. -/
structure Landed (c : Cursor) : Prop where
  space : c.rest.head?.all (fun g => !Lexeme.isSpace g) = true
  comment : Lexeme.comment? c = none
  solid : ∀ g ∈ c.rest, 0 < g.width

theorem trivia?_of_lands {c : Cursor} (hspace : c.rest.head?.all (fun g => !Lexeme.isSpace g) = true)
    (hcomment : Lexeme.comment? c = none) : Lexeme.trivia? c = some ([], c) := by
  have hdrop : c.dropWhile Lexeme.isSpace = c := dropFrom_eq_of_head _ hspace
  unfold Lexeme.trivia?
  cases hrest : c.rest with
  | nil => rfl
  | cons g rest => simp only [Lexeme.triviaWithin, hdrop, hcomment]

theorem Landed.trivia? {c : Cursor} (h : Landed c) : Lexeme.trivia? c = some ([], c) :=
  trivia?_of_lands h.space h.comment

/-- Whether a text stands at a cursor is seen from its first glyph, if that is another one. -/
theorem sees_eq_false {c : Cursor} (text : String) {t : Char} {more : List Char}
    (htext : text.toList = t :: more) (h : c.char? ≠ some t) : c.sees text = false := by
  obtain ⟨offset, rest⟩ := c
  cases rest with
  | nil => simp [Cursor.sees, Cursor.text?, htext, textFrom?]
  | cons g rest =>
    have hg : g.char ≠ some t := h
    simp [Cursor.sees, Cursor.text?, htext, textFrom?, hg]

/-- A text of one character is seen from the first glyph. -/
theorem sees_eq_of_char? {c c' : Cursor} {text : String} {t : Char} (htext : text.toList = [t])
    (h : c'.char? = c.char?) : c'.sees text = c.sees text := by
  have hsees (c : Cursor) : c.sees text = (c.char? == some t) := by
    obtain ⟨offset, rest⟩ := c
    cases rest with
    | nil => simp [Cursor.sees, Cursor.text?, htext, textFrom?, Cursor.char?]
    | cons g rest =>
      by_cases hg : g.char = some t
      · simp [Cursor.sees, Cursor.text?, htext, textFrom?, Cursor.char?, hg]
      · simp [Cursor.sees, Cursor.text?, htext, textFrom?, Cursor.char?, hg]
  rw [hsees, hsees, h]

/-! ## The text of a site -/

/-- The glyphs of a text. -/
def glyphsOf (text : String) : List Glyph := text.toList.map .ofChar

namespace Writing
variable (w : Writing)

/-- The arguments of the call at a site. The operand of an opener follows them. -/
def arguments (s : Site) : List String :=
  match s.style with
  | .opener => [quote w.path, "\"" ++ s.kind.code ++ "\"", Decimal.intText s.id,
      Call.armText s.arm]
  | .conditionOpener => [quote w.path, "\"" ++ Call.conditionCode ++ "\"", Decimal.intText s.id,
      "nil"]
  | _ => [quote w.path, "\"" ++ s.kind.code ++ "\"", Decimal.intText s.id]
      ++ if s.kind = .branch then [Call.armText s.arm] else []

/-- Arguments with commas and blanks between them. -/
def joined : List String → List Glyph
  | [] => []
  | [a] => glyphsOf a
  | a :: rest => glyphsOf a ++ glyphsOf ", " ++ joined rest

/-- The start of the call at a site, up to its last argument. -/
def callHead (s : Site) : List Glyph :=
  glyphsOf w.name.text ++ glyphsOf "(" ++ joined (w.arguments s)

theorem text_eq (s : Site) : w.text s = match s.slot with
    | .statement => glyphsOf " " ++ w.callHead s ++ glyphsOf ");"
    | .elseArm => glyphsOf " else " ++ w.callHead s ++ glyphsOf "); "
    | .opener => glyphsOf " " ++ w.callHead s ++ glyphsOf ", "
    | .closer => glyphsOf ")" := by
  unfold text Site.slot callHead arguments Call.text
  cases s.style with
  | closer => rfl
  | opener => simp [glyphsOf, joined, Call.opening, String.toList_append]
  | conditionOpener => simp [glyphsOf, joined, Call.opening, String.toList_append]
  | elseArm => 
    by_cases hbranch : s.kind = .branch
    · simp [glyphsOf, joined, Call.alone, Call.opening, String.toList_append, hbranch]
    · simp [glyphsOf, joined, Call.alone, Call.opening, String.toList_append, hbranch]
  | statement =>
    by_cases hbranch : s.kind = .branch
    · simp [glyphsOf, joined, Call.alone, Call.opening, String.toList_append, hbranch]
    · simp [glyphsOf, joined, Call.alone, Call.opening, String.toList_append, hbranch]

end Writing

/-! ## What may come next -/

/-- Whether no index, no method, no arguments of a call and no value start at a cursor. -/
def isBlunt (c : Cursor) : Bool :=
  c.sees "::" || !c.char?.any ['.', ':', '(', '\x7b', '"', '\'', '[', '='].contains

/-- What may come next: the slots of sites, and whether a lexeme of the source has to be blunt. -/
structure Sight where
  slots : List Site.Slot
  blunt : Bool

namespace Sight

/-- All that may come next on one side may do so on the other. -/
def Within (a b : Sight) : Prop :=
  (∀ slot ∈ a.slots, slot ∈ b.slots) ∧ (b.blunt = true → a.blunt = true)

instance (a b : Sight) : Decidable (a.Within b) := inferInstanceAs (Decidable (_ ∧ _))

/-- Anything may come next. -/
def all : Sight := ⟨[.statement, .elseArm, .opener, .closer], false⟩

/-- One of both may come next. -/
def or (a b : Sight) : Sight := ⟨a.slots ++ b.slots, a.blunt && b.blunt⟩

theorem mem_all (slot : Site.Slot) : slot ∈ all.slots := by cases slot <;> decide

theorem within_refl (a : Sight) : a.Within a := ⟨fun _ => id, id⟩

theorem within_all (a : Sight) : a.Within all :=
  ⟨fun slot _ => mem_all slot, nofun⟩

theorem within_or_left (a b : Sight) : a.Within (a.or b) :=
  ⟨fun _ => List.mem_append_left _, fun h => (Bool.and_eq_true _ _ ▸ h).1⟩

theorem within_or_right (a b : Sight) : b.Within (a.or b) :=
  ⟨fun _ => List.mem_append_right _, fun h => (Bool.and_eq_true _ _ ▸ h).2⟩

theorem or_within {a b c : Sight} (ha : a.Within c) (hb : b.Within c) : (a.or b).Within c :=
  ⟨fun slot hslot => (List.mem_append.1 hslot).elim (ha.1 slot) (hb.1 slot),
    fun h => Bool.and_eq_true_iff.2 ⟨ha.2 h, hb.2 h⟩⟩

end Sight

namespace Joint
variable {w : Writing} {j l : Joint w}

theorem isWord_name (w : Writing) :
    Lexeme.IsWord w.name.text (glyphsOf w.name.text) := by
  obtain ⟨c, rest, hname, hc⟩ := w.exists_name
  have hidentifier := (isName_iff.1 w.isName).1
  have hstart : Dialect.lua.isNameStart c = true :=
    isNameStart_of_isIdentifierStart (isWordStart_iff.1 hc).1
  refine ⟨⟨.ofChar c, c, rest.map .ofChar, by simp [glyphsOf, hname], rfl, hstart⟩, ?_, ?_⟩
  · intro g hg
    obtain ⟨ch, hch, rfl⟩ := List.mem_map.1 hg
    have hword : Fronts w.name.text.toList [] := ⟨hidentifier, by simp⟩
    exact hword.isNamePart_of_mem ch hch
  · have hchars (text : List Char) : (text.map Glyph.ofChar).filterMap Glyph.char = text := by
      induction text with
      | nil => rfl
      | cons c text ih => simp [Glyph.ofChar, ih]
    rw [glyphsOf, hchars, String.ofList_toList]

theorem isWord_else : Lexeme.IsWord "else" (glyphsOf "else") := by
  refine ⟨⟨.ofChar 'e', 'e', _, rfl, rfl, by decide⟩, by decide, by decide⟩

/-- How the text of a site starts: with a closing parenthesis, or with a word. -/
inductive Front (w : Writing) : Site.Slot → Cursor → Prop
  | closer (o : Nat) (rest : List Glyph) : Front w .closer ⟨o, .ofChar ')' :: rest⟩
  | elseArm {o : Nat} {rest : List Glyph} : Lexeme.EndsWord rest →
    Front w .elseArm ⟨o, glyphsOf "else" ++ rest⟩
  | call {slot : Site.Slot} {o : Nat} {rest : List Glyph} : slot ≠ .elseArm → slot ≠ .closer →
    Lexeme.EndsWord rest → Front w slot ⟨o, glyphsOf w.name.text ++ rest⟩

theorem dropWhile_blank {o : Nat} {g : Glyph} {rest : List Glyph} (hg : Lexeme.isSpace g = false) :
    Cursor.dropWhile Lexeme.isSpace ⟨o, .ofChar ' ' :: g :: rest⟩ = ⟨o + 1, g :: rest⟩ := by
  have hblank : Lexeme.isSpace (.ofChar ' ') = true := by decide
  rw [Cursor.dropWhile, dropFrom, if_pos hblank, dropFrom, if_neg (by simp [hg])]
  rfl

theorem endsWord_cons {c : Char} (h : Dialect.lua.isNamePart c = false) (more : List Glyph) :
    Lexeme.EndsWord (.ofChar c :: more) := by
  simp [Lexeme.EndsWord, Glyph.isIn, Glyph.ofChar, h]

/-- A word behind a blank is what comes next. -/
theorem dropWhile_word {word : String} (hword : Lexeme.IsWord word (glyphsOf word)) (o : Nat)
    (rest : List Glyph) :
    Cursor.dropWhile Lexeme.isSpace ⟨o, glyphsOf " " ++ (glyphsOf word ++ rest)⟩
      = ⟨o + 1, glyphsOf word ++ rest⟩ := by
  obtain ⟨g, ch, more, hfront, hg, hstart⟩ := hword.starts
  have hspace : Lexeme.isSpace g = false := by
    simp only [Dialect.isNameStart, Dialect.isNamePart, Bool.and_eq_true, Bool.not_eq_true']
      at hstart
    simp [Lexeme.isSpace, Glyph.isIn, hg, hstart.1.1.2]
  rw [hfront]
  exact dropWhile_blank hspace

theorem entry_mark {s : Site} {rest : List (Piece Site)} (h : j.pieces = .mark s :: rest) :
    Front w s.slot j.entry := by
  have hwoven : j.woven = ⟨j.position, w.text s ++ w.spread rest⟩ := by
    rw [woven, h, Writing.spread]
  have hcall := dropWhile_word (isWord_name w) j.position
  have helse := dropWhile_word isWord_else j.position
  have hsplit : glyphsOf " else " = glyphsOf " " ++ (glyphsOf "else" ++ glyphsOf " ") := rfl
  have hparen : Dialect.lua.isNamePart '(' = false := by decide
  have hblank : Dialect.lua.isNamePart ' ' = false := by decide
  rw [entry, hwoven, w.text_eq]
  cases hslot : s.slot with
  | closer => exact .closer _ _
  | elseArm =>
    simp only [hsplit, List.append_assoc, helse]
    exact .elseArm (endsWord_cons hblank _)
  | statement =>
    simp only [Writing.callHead, List.append_assoc, hcall]
    exact .call nofun nofun (endsWord_cons hparen _)
  | opener =>
    simp only [Writing.callHead, List.append_assoc, hcall]
    exact .call nofun nofun (endsWord_cons hparen _)

namespace Front
variable {slot : Site.Slot} {c : Cursor}

theorem char? (h : Front w slot c) :
    ∃ ch, c.char? = some ch ∧ (ch = ')' ∨ Dialect.lua.isNameStart ch = true) := by
  cases h with
  | closer o rest => exact ⟨')', rfl, .inl rfl⟩
  | elseArm hends => exact ⟨'e', rfl, .inr (by decide)⟩
  | call helse hcloser hends =>
    obtain ⟨g, ch, more, hfront, hg, hstart⟩ := (isWord_name w).starts
    refine ⟨ch, ?_, .inr hstart⟩
    rw [hfront]
    exact hg

/-- No mark stands at the text of a site, unless it is a closing parenthesis. -/
theorem sees (h : Front w slot c) (text : String) {t : Char} {more : List Char}
    (htext : text.toList = t :: more) (ht : t ≠ ')' ∧ Dialect.lua.isNameStart t = false) :
    c.sees text = false := by
  obtain ⟨ch, hch, hcases⟩ := h.char?
  refine sees_eq_false _ htext ?_
  rw [hch]
  rintro heq
  cases heq
  rcases hcases with rfl | hstart
  · exact ht.1 rfl
  · rw [ht.2] at hstart
    cases hstart

theorem lands (h : Front w slot c) :
    c.rest.head?.all (fun g => !Lexeme.isSpace g) = true ∧ Lexeme.comment? c = none := by
  constructor
  · obtain ⟨ch, hch, hcases⟩ := h.char?
    obtain ⟨g, hg, hchar⟩ := Option.bind_eq_some_iff.1 hch
    have hspace : isAsciiSpace ch = false := by
      rcases hcases with rfl | hstart
      · decide
      · simp only [Dialect.isNameStart, Dialect.isNamePart, Bool.and_eq_true, Bool.not_eq_true']
          at hstart
        exact hstart.1.1.2
    simp [hg, Lexeme.isSpace, Glyph.isIn, hchar, hspace]
  · have hsees := h.sees "--" rfl (by decide)
    rw [Cursor.sees, Option.isSome_eq_false_iff, Option.isNone_iff_eq_none] at hsees
    rw [Lexeme.comment?, hsees]
    rfl

/-- The word at the text of a site. -/
theorem wordAt (h : Front w slot c) : Lexeme.wordAt .lua c = match slot with
    | .closer => ""
    | .elseArm => "else"
    | _ => w.name.text := by
  cases h with
  | closer o rest =>
    have hword : Lexeme.word? .lua ⟨o, .ofChar ')' :: rest⟩ = none :=
      Lexeme.word?_of_isSeam ⟨_, rest, rfl, .inr rfl⟩
    rw [Lexeme.wordAt, hword]
    rfl
  | elseArm hends => rw [Lexeme.wordAt, isWord_else.word? hends]; rfl
  | call helse hcloser hends =>
    rw [Lexeme.wordAt, (isWord_name w).word? hends]
    cases slot <;> first | rfl | contradiction

theorem word? (h : Front w slot c) (hslot : slot ≠ .closer) :
    ∃ next, Lexeme.word? .lua c = some (Lexeme.wordAt .lua c, next) := by
  cases h with
  | closer o rest => exact absurd rfl hslot
  | elseArm hends => exact ⟨_, by rw [Lexeme.wordAt, isWord_else.word? hends]; rfl⟩
  | call helse hcloser hends => exact ⟨_, by rw [Lexeme.wordAt, (isWord_name w).word? hends]; rfl⟩

/-- The text of a site is no string and no number. -/
theorem seesString (h : Front w slot c) : seesString .lua c = false := by
  have hopen : (Lexeme.longOpen? c).isSome = false := by
    have hsees := h.sees "[" rfl (by decide)
    rw [Cursor.sees, Option.isSome_eq_false_iff, Option.isNone_iff_eq_none] at hsees
    rw [Lexeme.longOpen?_eq, hsees]
    rfl
  obtain ⟨ch, hch, hcases⟩ := h.char?
  have hquote : ch ≠ '"' ∧ ch ≠ '\'' := by
    rcases hcases with rfl | hstart
    · decide
    · exact ⟨by rintro rfl; revert hstart; decide, by rintro rfl; revert hstart; decide⟩
  simp [Grammar.seesString, Lexeme.startsString, hopen, hch, hquote]

theorem seesNumber (h : Front w slot c) : seesNumber c = false := by
  have hsees := h.sees "." rfl (by decide)
  rw [Cursor.sees, Option.isSome_eq_false_iff, Option.isNone_iff_eq_none] at hsees
  obtain ⟨ch, hch, hcases⟩ := h.char?
  have hdigit : isAsciiDigit ch = false := by
    rcases hcases with rfl | hstart
    · decide
    · simp only [Dialect.isNameStart, Bool.and_eq_true, Bool.not_eq_true'] at hstart
      exact hstart.2
  simp [Grammar.seesNumber, hsees, hch, hdigit]

end Front

/-! ## The same lexeme -/

/-- Marks of two glyphs whose first glyph is a mark as well. -/
def pairMarks : List String := ["..", "::", "~=", "=="]

/-- What comes next in the result is the lexeme that comes next in the source. -/
structure Intact (j : Joint w) : Prop where
  landed : Landed j.source
  head : j.woven.rest.head? = j.source.rest.head?
  word : Lexeme.wordAt .lua j.woven = Lexeme.wordAt .lua j.source
  pairs : ∀ text ∈ pairMarks, j.woven.sees text = j.source.sees text

namespace Intact

theorem char? (h : j.Intact) : j.woven.char? = j.source.char? := by
  rw [Cursor.char?, h.head]
  rfl

theorem entry (h : j.Intact) : j.entry = j.woven := by
  refine dropFrom_eq_of_head _ ?_
  rw [h.head]
  exact h.landed.space

theorem sees (h : j.Intact) (text : String) {t : Char} (htext : text.toList = [t]) :
    j.woven.sees text = j.source.sees text := sees_eq_of_char? htext h.char?

theorem lands (h : j.Intact) : j.woven.rest.head?.all (fun g => !Lexeme.isSpace g) = true
    ∧ Lexeme.comment? j.woven = none := by
  constructor
  · rw [h.head]
    exact h.landed.space
  · have hcomment := h.landed.comment
    simp only [Lexeme.comment?, Option.map_eq_none_iff] at hcomment ⊢
    exact (exact_text? _ (by decide)).tracks.shy _ _ _ j.woven_rest hcomment

end Intact

/-- What comes next in the result is known: the lexeme of the source, or the text of a site that may
stand there. -/
def Ready (sight : Sight) (j : Joint w) : Prop := ∃ l : Joint w,
  upcoming? j.woven = some l.entry ∧ (upcoming? j.source = some l.source ∧ l.Intact
      ∧ (sight.blunt = true → isBlunt l.source = true)
    ∨ ∃ s rest, l.pieces = .mark s :: rest ∧ s.slot ∈ sight.slots)

theorem trivia?_mark {s : Site} {rest : List (Piece Site)} (h : j.pieces = .mark s :: rest) :
    Lexeme.trivia? j.woven = some ([], j.entry) := by
  have hcomment : Lexeme.comment? (Cursor.dropWhile Lexeme.isSpace j.woven) = none :=
    (entry_mark h).lands.2
  unfold Lexeme.trivia?
  cases hrest : j.woven.rest with
  | nil =>
    have hfront := (entry_mark h).char?
    rw [entry, Cursor.dropWhile, hrest] at hfront
    simp [Cursor.char?, dropFrom] at hfront
  | cons g rest => simp only [Lexeme.triviaWithin, hcomment, entry]

/-- The result may start with the lexeme of the source, or with the text of a site in front of it. -/
def Starts (allow : Site.Slot → Prop) (j : Joint w) : Prop :=
  j.Intact ∨ (∃ s rest, j.pieces = .mark s :: rest ∧ allow s.slot) ∧ j.source.rest ≠ []

variable {allow : Site.Slot → Prop}

theorem Starts.lands (h : j.Starts allow) :
    j.entry.rest.head?.all (fun g => !Lexeme.isSpace g) = true := by
  rcases h with h | ⟨⟨s, rest, h, -⟩, -⟩
  · rw [h.entry]
    exact h.lands.1
  · exact (entry_mark h).lands.1

theorem Starts.comment (h : j.Starts allow) : Lexeme.comment? j.entry = none := by
  rcases h with h | ⟨⟨s, rest, h, -⟩, -⟩
  · rw [h.entry]
    exact h.lands.2
  · exact (entry_mark h).lands.2

theorem Starts.mono {allow' : Site.Slot → Prop} (h : j.Starts allow)
    (hallow : ∀ slot, allow slot → allow' slot) : j.Starts allow' :=
  h.imp id fun ⟨⟨s, rest, hpieces, hslot⟩, hne⟩ => ⟨⟨s, rest, hpieces, hallow _ hslot⟩, hne⟩

/-- Where no site may stand, the result starts with the lexeme of the source. -/
theorem Starts.intact (h : j.Starts (· ∈ [])) : j.Intact :=
  h.resolve_right fun ⟨⟨_, _, _, hslot⟩, _⟩ => by cases hslot

theorem Starts.rest_eq_nil (h : j.Starts allow) (hrest : j.source.rest = []) :
    j.woven.rest = [] := by
  rcases h with h | ⟨-, h⟩
  · have hhead := h.head
    rw [hrest] at hhead
    exact List.head?_eq_none_iff.1 hhead
  · exact absurd hrest h

theorem areComments_of_trivia? {c u : Cursor} {comments : List Node}
    (h : Lexeme.trivia? c = some (comments, u)) : Lexeme.AreComments comments := by
  obtain ⟨gap, hpass, hcomments, -⟩ := Lexeme.triviaWithin_woven (Nat.le_refl _) h
  exact hcomments

/-- Behind white space and comments there are none. -/
theorem trivia?_trivia? {c u : Cursor} {comments : List Node}
    (h : Lexeme.trivia? c = some (comments, u)) : Lexeme.trivia? u = some ([], u) := by
  obtain ⟨gap, -, -, hspace, hnone, -⟩ := Lexeme.triviaWithin_woven (Nat.le_refl _) h
  exact trivia?_of_lands hspace hnone

/-- White space and comments in front of a lexeme are passed over in the result as in the source. -/
theorem trivia?_goes {c u : Cursor} {comments : List Node} (hsolid : ∀ g ∈ c.rest, 0 < g.width)
    (h : Lexeme.trivia? c = some (comments, u)) : ∃ gap, Passes c u gap
      ∧ Lexeme.AreComments comments ∧ Landed u
      ∧ ∀ {w : Writing} {j l : Joint w} {allow : Site.Slot → Prop}, j.source = c →
        j.Goes (bare gap) l → l.Starts allow →
        ∃ comments', Lexeme.trivia? j.woven = some (comments', l.entry)
          ∧ Lexeme.AreComments comments' := by
  obtain ⟨gap, hpass, hcomments, hspace, hnone, hall⟩ :=
    Lexeme.triviaWithin_woven (Nat.le_refl _) h
  refine ⟨gap, hpass, hcomments, ⟨hspace, hnone, fun g hg => hsolid g ?_⟩,
    fun {w j l allow} hj hgoes hstarts => ?_⟩
  · rw [hpass.rest]
    exact List.mem_append_right _ hg
  · obtain ⟨hsource, hwoven⟩ := goes_bare hgoes
    have hl := hgoes.source_eq hj (by simpa using hpass)
    have hcursor : j.woven = ⟨j.position, gap ++ l.woven.rest⟩ := by rw [← hwoven.rest]; rfl
    have hlast : (⟨j.position + width gap, l.woven.rest⟩ : Cursor) = l.woven := by
      have hoffset : l.woven.offset = j.position + width gap := hwoven.offset
      rw [← hoffset]
    have hentry := hstarts.comment
    rw [entry, ← hlast] at hentry
    have htrivia := hall j.position l.woven.rest j.woven.rest (by rw [← hl]; exact l.woven_rest)
      (fun hu => hstarts.rest_eq_nil (by rw [hl, hu])) hentry (by simp [hwoven.rest])
    rw [← hcursor, hlast] at htrivia
    exact htrivia

/-- What comes next is known if what comes behind white space and comments is. -/
theorem Ready.of_trivia? {c u : Cursor} {comments : List Node} {sight : Sight}
    (h : Lexeme.trivia? c = some (comments, u)) (hj : j.source = c) (hu : l.source = u)
    {comments' : List Node} (hwoven : Lexeme.trivia? j.woven = some (comments', l.entry))
    (hstarts : l.Starts (· ∈ sight.slots)) (hblunt : sight.blunt = true → isBlunt u = true) :
    j.Ready sight := by
  refine ⟨l, by rw [upcoming?, hwoven]; rfl, ?_⟩
  rcases hstarts with hintact | ⟨hmark, -⟩
  · exact .inl ⟨by rw [hj, upcoming?, h, hu]; rfl, hintact, by rwa [hu]⟩
  · exact .inr hmark

theorem Ready.of_mark {s : Site} {rest : List (Piece Site)} {sight : Sight}
    (h : j.pieces = .mark s :: rest) (hslot : s.slot ∈ sight.slots) : j.Ready sight :=
  ⟨j, by rw [upcoming?, trivia?_mark h]; rfl, .inr ⟨s, rest, h, hslot⟩⟩

theorem Ready.mono {sight sight' : Sight} (h : j.Ready sight) (hle : sight.Within sight') :
    j.Ready sight' := by
  obtain ⟨l, hl, ⟨hsource, hintact, hblunt⟩ | ⟨s, rest, hs, hslot⟩⟩ := h
  · exact ⟨l, hl, .inl ⟨hsource, hintact, fun h => hblunt (hle.2 h)⟩⟩
  · exact ⟨l, hl, .inr ⟨s, rest, hs, hle.1 _ hslot⟩⟩

end Joint

end LuaCoverage.Instrument
