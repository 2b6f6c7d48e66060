import LuaCoverage.Text.Utf8

/-!
# Cursors over a source

A source is read glyph by glyph. A glyph is a character, or a byte that is part of no character;
such a byte is accepted inside strings and comments only. A cursor is a place in the source: how
many bytes lie before it, and the glyphs behind it.

Results:
* `Cursor.length_dropWhile_le`, `Cursor.length_text?_le`: reading never adds glyphs.
-/

namespace LuaCoverage.Lua
open LuaCoverage.Text

/-- A character of the source, or a byte that belongs to none, and its width in bytes. -/
structure Glyph where
  char : Option Char
  width : Nat
  deriving DecidableEq, Repr

/-- The glyphs of a byte string whose first `skip` bytes belong to a glyph already taken. -/
def glyphsFrom : (skip : Nat) → Bytes → List Glyph
  | _, [] => []
  | skip + 1, _ :: rest => glyphsFrom skip rest
  | 0, b :: rest =>
    match Utf8.part b rest with
    | .char c width => ⟨some c, width⟩ :: glyphsFrom (width - 1) rest
    | .illFormed _ _ => ⟨none, 1⟩ :: glyphsFrom 0 rest

def glyphs (source : Bytes) : List Glyph := glyphsFrom 0 source

namespace Glyph

/-- Whether the glyph is a character of a class. -/
def isIn (p : Char → Bool) (g : Glyph) : Bool := g.char.any p

/-- Whether the glyph is none of the given characters. -/
def avoids (stops : List Char) (g : Glyph) : Bool := !g.char.any stops.contains

end Glyph

/-- A place in a source. -/
structure Cursor where
  offset : Nat
  rest : List Glyph
  deriving Repr

namespace Cursor

/-- The place in front of a source; a byte order mark at its very beginning is passed over. -/
def ofSource (source : Bytes) : Cursor :=
  match glyphs source with
  | ⟨some '\ufeff', width⟩ :: rest => ⟨width, rest⟩
  | all => ⟨0, all⟩

def atEnd (c : Cursor) : Bool := c.rest.isEmpty

def char? (c : Cursor) : Option Char := c.rest.head?.bind Glyph.char

/-- Passes over one glyph that satisfies `p`. -/
def one? (p : Glyph → Bool) (c : Cursor) : Option Cursor :=
  match c.rest with
  | [] => none
  | g :: rest => if p g then some ⟨c.offset + g.width, rest⟩ else none

/-- Passes over the glyphs at the front that satisfy `p`. -/
def dropFrom (p : Glyph → Bool) : Nat → List Glyph → Cursor
  | offset, [] => ⟨offset, []⟩
  | offset, g :: rest => if p g then dropFrom p (offset + g.width) rest else ⟨offset, g :: rest⟩

/-- Passes over the glyphs at the front that satisfy `p`. -/
def dropWhile (p : Glyph → Bool) (c : Cursor) : Cursor := dropFrom p c.offset c.rest

/-- Passes over at least one glyph that satisfies `p`, and all that follow it. -/
def some? (p : Glyph → Bool) (c : Cursor) : Option Cursor := (c.one? p).map (dropWhile p)

def textFrom? : List Char → Nat → List Glyph → Option Cursor
  | [], offset, rest => some ⟨offset, rest⟩
  | _ :: _, _, [] => none
  | t :: text, offset, g :: rest =>
    if g.char = some t then textFrom? text (offset + g.width) rest else none

def text? (text : String) (c : Cursor) : Option Cursor := textFrom? text.toList c.offset c.rest

/-- Whether a text stands at the cursor. -/
def sees (text : String) (c : Cursor) : Bool := (c.text? text).isSome

/-- Passes over exactly `n` glyphs that satisfy `p`. -/
def exactly? (p : Glyph → Bool) : Nat → Cursor → Option Cursor
  | 0, c => some c
  | n + 1, c => (c.one? p).bind (exactly? p n)

/-- Passes over up to `n` glyphs that satisfy `p`. -/
def upTo (p : Glyph → Bool) : Nat → Cursor → Cursor
  | 0, c => c
  | n + 1, c =>
    match c.one? p with
    | some next => upTo p n next
    | none => c

/-- Passes over everything up to and including a text. -/
def beyondFrom? (text : String) : Nat → List Glyph → Option Cursor
  | _, [] => none
  | offset, g :: rest =>
    match text? text ⟨offset, g :: rest⟩ with
    | some next => some next
    | none => beyondFrom? text (offset + g.width) rest

/-- Passes over everything up to and including a text. -/
def beyond? (text : String) (c : Cursor) : Option Cursor := beyondFrom? text c.offset c.rest

theorem length_dropFrom_le (p : Glyph → Bool) (offset : Nat) (rest : List Glyph) :
    (dropFrom p offset rest).rest.length ≤ rest.length := by
  induction rest generalizing offset with
  | nil => simp [dropFrom]
  | cons g rest ih =>
    simp only [dropFrom]
    split
    · exact Nat.le_trans (ih _) (Nat.le_succ _)
    · exact Nat.le_refl _

theorem length_dropWhile_le (p : Glyph → Bool) (c : Cursor) :
    (c.dropWhile p).rest.length ≤ c.rest.length := length_dropFrom_le ..

theorem length_textFrom?_le {text : List Char} {offset : Nat} {rest : List Glyph} {next : Cursor}
    (h : textFrom? text offset rest = some next) : next.rest.length ≤ rest.length := by
  induction text generalizing offset rest with
  | nil =>
    simp only [textFrom?, Option.some.injEq] at h
    simp [← h]
  | cons t text ih =>
    cases rest with
    | nil => simp [textFrom?] at h
    | cons g rest =>
      simp only [textFrom?] at h
      split at h
      · exact Nat.le_trans (ih h) (Nat.le_succ _)
      · simp at h

theorem length_text?_le {text : String} {c next : Cursor} (h : c.text? text = some next) :
    next.rest.length ≤ c.rest.length := length_textFrom?_le h

end Cursor

end LuaCoverage.Lua
