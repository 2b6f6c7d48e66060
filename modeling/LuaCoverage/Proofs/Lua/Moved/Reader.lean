import LuaCoverage.Lua.Grammar.Basic
import LuaCoverage.Proofs.Lua.Moved.Lexeme

/-!
# Readers at another place

A reader that asks rules for other goals is told one way only: what it reads with one table of
rules, it reads further on with another, if the second table follows the first. So the second table
may know how to read more, as one of a greater depth does.

Results:
* `Draft.follows_take`, `Draft.follows_takeIf`, `Draft.follows_body`: drafts are continued alike.
* `Rules.Moves.behind`: so are nodes that are already read.
-/

namespace LuaCoverage.Lua

variable {k : Nat}

open Cursor (Steady)

namespace Grammar
variable {d : Dialect} {α β : Type} {f : α → α} {g : β → β}

/-- What the first reading gives, the second gives further on. -/
def Follows (f : α → α) (x y : Option α) : Prop := ∀ a, x = some a → y = some (f a)

namespace Follows

theorem of_eq {x y : Option α} (h : y = x.map f) : Follows f x y := by
  intro a ha
  rw [h, ha]
  rfl

theorem some (a : α) : Follows f (some a) (.some (f a)) := of_eq rfl

theorem none {y : Option α} : Follows f .none y := by
  intro a ha
  cases ha

theorem bind {x x' : Option α} {r r' : α → Option β} (hx : Follows f x x')
    (h : ∀ a, Follows g (r a) (r' (f a))) : Follows g (x >>= r) (x' >>= r') := by
  intro b hb
  obtain ⟨a, ha, hr⟩ := Option.bind_eq_some_iff.1 hb
  exact Option.bind_eq_some_iff.2 ⟨f a, hx a ha, h a b hr⟩

theorem ite {b b' : Prop} [Decidable b] [Decidable b'] {x x' y y' : Option α} (hb : b' ↔ b)
    (hx : Follows f x x') (hy : Follows f y y') :
    Follows f (if b then x else y) (if b' then x' else y') := by
  by_cases h : b
  · rw [if_pos h, if_pos (hb.2 h)]
    exact hx
  · rw [if_neg h, if_neg (mt hb.1 h)]
    exact hy

end Follows

def moveRead (k : Nat) : List Node × Cursor → List Node × Cursor :=
  Prod.map (List.map (Node.move k)) (Cursor.move k)

/-- What the first reader reads, the second reads further on. -/
def Moves (k : Nat) (read read' : Reader) : Prop :=
  ∀ c, Follows (moveRead k) (read c) (read' (c.move k))

theorem moves_leaf {kind : NodeKind} {read : Cursor → Option Cursor} (h : Steady read) :
    Moves k (leaf kind read) (leaf kind read) := fun c => .of_eq <| by
  simp only [leaf, h k c, Option.map_map]
  rfl

theorem moves_mark (text : String) : Moves k (mark text) (mark text) := moves_leaf (.text text)

theorem moves_word (kind : NodeKind) :
    Moves k (leaf kind fun c => (Lexeme.word? d c).map (·.2))
      (leaf kind fun c => (Lexeme.word? d c).map (·.2)) :=
  moves_leaf Lexeme.steady_word?

theorem moves_name : Moves k (name d) (name d) := moves_word _

theorem moves_keyword (text : String) : Moves k (keyword d text) (keyword d text) :=
  fun c => .of_eq <| by
    simp only [keyword, Lexeme.word?_move]
    cases Lexeme.word? d c with
    | none => rfl
    | some read =>
      obtain ⟨word, next⟩ := read
      simp only [Option.map_some, Prod.map_apply, id_eq]
      split
      · rfl
      · rfl

theorem Moves.inRole {role : Role} {read read' : Reader} (h : Moves k read read') :
    Moves k (inRole role read) (inRole role read') := by
  intro c a ha
  obtain ⟨⟨nodes, next⟩, hread, rfl⟩ := Option.map_eq_some_iff.1 ha
  simp only [Grammar.inRole, h c _ hread, Option.map_some, moveRead, Prod.map_apply, List.map_map]
  congr 2
  exact List.map_congr_left fun n _ => (Node.move_withRole role n).symm

theorem upcoming?_move (c : Cursor) : upcoming? (c.move k) = (upcoming? c).map (Cursor.move k) := by
  simp only [upcoming?, Lexeme.trivia?_move, Option.map_map]
  rfl

@[simp] theorem isNext_move (text : String) (c : Cursor) :
    isNext text (c.move k) = isNext text c := by
  simp only [isNext, upcoming?_move]
  cases upcoming? c with
  | none => rfl
  | some next => exact Cursor.sees_move text next

/-! ## Drafts -/

def Draft.move (k : Nat) (draft : Draft) : Draft :=
  ⟨draft.cursor.move k, draft.children.map (Node.move k)⟩

namespace Draft
variable {read read' : Reader} (draft : Draft)

theorem move_first : (draft.move k).first = k + draft.first := by
  obtain ⟨c, children⟩ := draft
  cases children with
  | nil => rfl
  | cons n rest => exact n.start_move

theorem toNode_move (kind : NodeKind) :
    (draft.move k).toNode kind = (draft.toNode kind).move k := by
  simp only [toNode, Node.move, Node.moveAll_eq_map, move_first]
  rfl

theorem ofNode_move (kind : NodeKind) : ofNode ((draft.move k).toNode kind) (draft.move k).cursor
    = (ofNode (draft.toNode kind) draft.cursor).move k := by
  rw [toNode_move]
  rfl

theorem take_eq {c next : Cursor} {comments nodes : List Node}
    (hcomments : Lexeme.trivia? draft.cursor = some (comments, c))
    (hread : read c = some (nodes, next)) :
    draft.take read = some ⟨next, draft.children ++ comments ++ nodes⟩ := by
  simp [take, hcomments, hread]

theorem takeIf_eq {test : Cursor → Bool} {c : Cursor} (hc : upcoming? draft.cursor = some c)
    (htest : test c = false) : draft.takeIf test read = some draft := by
  simp [takeIf, hc, htest]

theorem follows_take (h : Moves k read read') :
    Follows (move k) (draft.take read) ((draft.move k).take read') := by
  intro draft' hr
  obtain ⟨⟨comments, c⟩, hcomments, hr⟩ := Option.bind_eq_some_iff.1 hr
  obtain ⟨⟨nodes, next⟩, hread, hr⟩ := Option.bind_eq_some_iff.1 hr
  cases hr
  have hmoved : Lexeme.trivia? (draft.cursor.move k)
      = some (comments.map (Node.move k), c.move k) := by
    rw [Lexeme.trivia?_move, hcomments]
    rfl
  rw [take_eq (draft.move k) hmoved (h c _ hread)]
  simp [move]

theorem follows_takeIf {test test' : Cursor → Bool} (htest : ∀ c, test' (c.move k) = test c)
    (h : Moves k read read') :
    Follows (move k) (draft.takeIf test read) ((draft.move k).takeIf test' read') := by
  refine .bind (f := Cursor.move k) (.of_eq (upcoming?_move _)) fun c => .ite ?_ ?_ (.some _)
  · rw [htest]
  · exact draft.follows_take h

theorem follows_finish (kind : NodeKind) :
    Follows (moveRead k) (draft.finish kind) ((draft.move k).finish kind) := .of_eq <| by
  simp only [finish, toNode_move]
  rfl

theorem follows_spill : Follows (moveRead k) draft.spill (draft.move k).spill := .of_eq rfl

end Draft

def Goal.move (k : Nat) : Goal → Goal
  | .functionName head => .functionName (head.move k)
  | .operators level left => .operators level (left.move k)
  | .suffixes head => .suffixes (head.move k)
  | .typeSuffixes left => .typeSuffixes (left.move k)
  | goal => goal

/-- What the first rules read, the second read further on. -/
def Rules.Moves (k : Nat) (rules rules' : Rules) : Prop :=
  ∀ goal, Grammar.Moves k (rules goal) (rules' (goal.move k))

section
variable {rules rules' : Rules} (h : rules.Moves k rules') (draft : Draft)
include h

/-- A goal that goes on behind a draft. -/
theorem Rules.Moves.behind (goal : Node → Goal) (hgoal : ∀ n, (goal n).move k = goal (n.move k))
    (kind : NodeKind) : Follows (moveRead k) (rules (goal (draft.toNode kind)) draft.cursor)
      (rules' (goal ((draft.move k).toNode kind)) (draft.move k).cursor) := by
  rw [Draft.toNode_move, ← hgoal]
  exact h _ _

theorem Draft.follows_body (closers : List String) :
    Follows (Draft.move k) (draft.body rules closers) ((draft.move k).body rules' closers) := by
  refine .bind (f := moveRead k) (.of_eq (Lexeme.trivia?_move _)) fun trivia =>
    .bind (f := moveRead k) (h (.block closers) _) fun block => .ite ?_ (.some _) ?_
  · simp
  · refine .of_eq ?_
    have hblock := (Draft.mk block.2 block.1).toNode_move (k := k) .block
    simp only [Draft.move] at hblock
    simp [Draft.move, hblock, Node.move_withRole]

end

end Grammar

end LuaCoverage.Lua
