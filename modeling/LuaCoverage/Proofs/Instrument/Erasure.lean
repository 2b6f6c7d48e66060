import LuaCoverage.Lua.Node
import LuaCoverage.Proofs.Instrument.Weave

/-!
# Erasing what was written

What was written into a module stands in spans of its bytes. The bytes of a span are the text of
its site, and the bytes outside of all spans are the source.

A tree without its places says the kinds and roles of its nodes, and the texts of its leaves.
Comments are left out. The tree of a result can be told without what was written: a node that is
made of what was written only is left out, and a call around an operand whose callee was written is
the operand.

Results:
* `Instrument.map_insertions`: where the texts of the sites stand in the result.
* `Instrumenter.outside_bytes`: what is left without them is the source.
* `Lua.Node.exists_trees`: nothing but comments is left out of a source's own tree.
* `Lua.Node.erased_of_kept`, `Lua.Node.erased_of_written`, `Lua.Node.erased_call`: what is left of a
  node.
-/

namespace LuaCoverage
open LuaCoverage.Text

/-- A range of bytes: the first, and the one behind the last. -/
abbrev Span := Nat × Nat

namespace Instrument

/-- Where the texts of sites stand in the result, if that many bytes are written in front. -/
def insertions (render : Site → Bytes) : (shift : Nat) → List Site → List Span
  | _, [] => []
  | shift, s :: rest =>
    let length := (render s).length
    (s.offset + shift, s.offset + shift + length) :: insertions render (shift + length) rest

def bytesOf (bytes : Bytes) (span : Span) : Bytes := (bytes.drop span.1).take (span.2 - span.1)

/-- Whether a byte lies in one of the spans. -/
def isWritten (written : List Span) (position : Nat) : Bool :=
  written.any fun span => span.1 ≤ position && position < span.2

/-- The bytes from a position on that lie in none of the spans. -/
def outside (written : List Span) : (position : Nat) → Bytes → Bytes
  | _, [] => []
  | position, b :: rest =>
    if isWritten written position then outside written (position + 1) rest
    else b :: outside written (position + 1) rest

section
variable {render : Site → Bytes} {source : Bytes} {sites : List Site} {cursor shift : Nat}

theorem bytesOf_append (front bytes back : Bytes) :
    bytesOf (front ++ bytes ++ back) (front.length, front.length + bytes.length) = bytes := by
  simp [bytesOf]

/-- The texts of the sites stand in the result where `insertions` says. -/
theorem map_insertions (front : Bytes) (h : Ascending source cursor (sites.map Site.offset))
    (hfront : front.length = cursor + shift) :
    (insertions render shift sites).map (bytesOf (front ++ splice render source cursor sites))
      = sites.map render := by
  induction sites generalizing front cursor shift with
  | nil => rfl
  | cons s rest ih =>
    let slice := (source.take s.offset).drop cursor
    have hslice : (front ++ slice).length = s.offset + shift := by
      have hle := h.cursor_le
      simp only [slice, List.length_append, List.length_drop, List.length_take,
        Nat.min_eq_left h.offset_le]
      omega
    have hsplit : front ++ splice render source cursor (s :: rest)
        = front ++ slice ++ render s ++ splice render source s.offset rest := by
      simp [splice, slice]
    simp only [insertions, List.map_cons, hsplit]
    congr 1
    · rw [← hslice, bytesOf_append]
    · refine ih _ h.tail ?_
      rw [List.length_append, hslice, Nat.add_assoc]

/-- Nothing is written in front of the first site that is left. -/
theorem start_of_mem_insertions {span : Span} (h : Ascending source cursor (sites.map Site.offset))
    (hspan : span ∈ insertions render shift sites) : cursor + shift ≤ span.1 := by
  induction sites generalizing cursor shift with
  | nil => cases hspan
  | cons s rest ih =>
    have hle := h.cursor_le
    rcases List.mem_cons.1 hspan with rfl | hspan
    · dsimp only
      omega
    · have hrest := ih h.tail hspan
      omega

end

section
variable {written : List Span} {position : Nat}

theorem outside_append (front back : Bytes) : outside written position (front ++ back)
    = outside written position front ++ outside written (position + front.length) back := by
  induction front generalizing position with
  | nil => rfl
  | cons b front ih =>
    have hlength : position + 1 + front.length = position + (b :: front).length := by
      simp only [List.length_cons]
      omega
    simp only [List.cons_append, outside, ih, hlength]
    split
    · rfl
    · rfl

theorem outside_of_written {bytes : Bytes} (h : ∀ p, position ≤ p → p < position + bytes.length →
    isWritten written p = true) : outside written position bytes = [] := by
  induction bytes generalizing position with
  | nil => rfl
  | cons b rest ih =>
    simp only [List.length_cons] at h
    rw [outside, if_pos (h position (by omega) (by omega))]
    exact ih fun p hle hlt => h p (by omega) (by omega)

theorem outside_of_unwritten {bytes : Bytes} (h : ∀ p, position ≤ p →
    p < position + bytes.length → isWritten written p = false) :
    outside written position bytes = bytes := by
  induction bytes generalizing position with
  | nil => rfl
  | cons b rest ih =>
    simp only [List.length_cons] at h
    rw [outside, if_neg (by simp [h position (by omega) (by omega)])]
    exact congrArg _ (ih fun p hle hlt => h p (by omega) (by omega))

end

/-- Outside of the spans, those of sites that come earlier among them, the result is the source. -/
theorem outside_splice {render : Site → Bytes} {source : Bytes} {sites : List Site}
    {cursor shift : Nat} {earlier : List Span}
    (h : Ascending source cursor (sites.map Site.offset))
    (hearlier : ∀ span ∈ earlier, span.2 ≤ cursor + shift) :
    outside (earlier ++ insertions render shift sites) (cursor + shift)
      (splice render source cursor sites) = source.drop cursor := by
  induction sites generalizing cursor shift earlier with
  | nil =>
    refine outside_of_unwritten fun p hle _ => ?_
    rw [isWritten, List.any_eq_false]
    intro span hspan
    have hstop := hearlier span (by simpa [insertions] using hspan)
    simp only [Bool.and_eq_true, decide_eq_true_eq, not_and]
    omega
  | cons s rest ih =>
    have hle := h.cursor_le
    have hlength : ((source.take s.offset).drop cursor).length = s.offset - cursor := by
      rw [List.length_drop, List.length_take, Nat.min_eq_left h.offset_le]
    have hslice : outside (earlier ++ insertions render shift (s :: rest)) (cursor + shift)
        ((source.take s.offset).drop cursor) = (source.take s.offset).drop cursor := by
      refine outside_of_unwritten fun p hle hlt => ?_
      rw [isWritten, List.any_eq_false]
      intro span hspan
      simp only [Bool.and_eq_true, decide_eq_true_eq, not_and]
      rcases List.mem_append.1 hspan with hspan | hspan
      · have hstop := hearlier span hspan
        omega
      · have hfirst : s.offset + shift ≤ span.1 := by
          rcases List.mem_cons.1 hspan with rfl | hspan
          · exact Nat.le_refl _
          · have hstart := start_of_mem_insertions h.tail hspan
            omega
        omega
    have hcursor : cursor + shift + (s.offset - cursor) = s.offset + shift := by omega
    have htext : outside (earlier ++ insertions render shift (s :: rest)) (s.offset + shift)
        (render s) = [] := by
      refine outside_of_written fun p hle hlt => ?_
      rw [isWritten, List.any_eq_true]
      exact ⟨_, List.mem_append_right _ List.mem_cons_self, by simp [hle, hlt]⟩
    have hbehind : ∀ span ∈ earlier
        ++ [(s.offset + shift, s.offset + shift + (render s).length)],
        span.2 ≤ s.offset + (shift + (render s).length) := by
      intro span hspan
      rcases List.mem_append.1 hspan with hspan | hspan
      · have hstop := hearlier span hspan
        omega
      · obtain rfl := List.mem_singleton.1 hspan
        dsimp only
        omega
    have hrest := ih h.tail hbehind
    rw [List.append_assoc, List.singleton_append, ← Nat.add_assoc] at hrest
    rw [splice, outside_append, outside_append, hslice, List.length_append, hlength, hcursor, htext,
      List.append_nil]
    refine Eq.trans (congrArg _ ?_) (drop_take_append_drop source hle)
    rw [← Nat.add_assoc, hcursor]
    exact hrest

end Instrument

namespace Instrumenter
open Instrument

/-- What was written into an instrumented module. -/
def written (i : Instrumenter) (a : Analysis) : List Span := insertions (i.rendering a) 0 a.sites

/-- Without what was written the result is the source. -/
theorem outside_bytes (i : Instrumenter) (a : Analysis)
    (h : Ascending a.source 0 (a.sites.map Site.offset)) :
    outside (i.written a) 0 (i.bytes a) = a.source := by
  have hnone : ∀ span ∈ ([] : List Span), span.2 ≤ 0 + 0 := by simp
  exact outside_splice h hnone

end Instrumenter

end LuaCoverage

/-! ## Trees without places -/

namespace LuaCoverage.Lua
open LuaCoverage.Text

/-- A syntax tree without places. -/
inductive Tree
  | leaf (kind : NodeKind) (role : Option Role) (text : Bytes)
  | node (kind : NodeKind) (role : Option Role) (children : List Tree)

def Tree.withRole (role : Option Role) : Tree → Tree
  | leaf kind _ text => leaf kind role text
  | node kind _ children => node kind role children

/-- Whether a span lies in one of the spans that were written. -/
def isWithin (written : List Span) (span : Span) : Bool :=
  written.any fun outer => outer.1 ≤ span.1 && span.2 ≤ outer.2

namespace Node

mutual
/-- The syntax of a node of a source. -/
def trees (source : Bytes) : Node → List Tree
  | mk kind role start stop children =>
    if kind = .comment then []
    else
      match children with
      | [] => [.leaf kind role (Instrument.bytesOf source (start, stop))]
      | first :: rest => [.node kind role (first.trees source ++ treesIn source rest)]
/-- The syntax of nodes of a source. -/
def treesIn (source : Bytes) : List Node → List Tree
  | [] => []
  | n :: rest => n.trees source ++ treesIn source rest
end

/-- Whether a node is a call or its arguments. -/
def isCall (kind : NodeKind) : Bool := kind == .functionCall || kind == .arguments

mutual
/-- The syntax of a node without what was written. -/
def erased (result : Bytes) (written : List Span) : Node → List Tree
  | mk kind role start stop children =>
    if kind = .comment then []
    else
      match children with
      | [] =>
        if isWithin written (start, stop) then []
        else [.leaf kind role (Instrument.bytesOf result (start, stop))]
      | first :: rest =>
        let inner := first.erased result written ++ erasedIn result written rest
        if inner.isEmpty then []
        else if isCall kind && (first.erased result written).isEmpty then
          inner.map (Tree.withRole role)
        else [.node kind role inner]
/-- The syntax of nodes without what was written. -/
def erasedIn (result : Bytes) (written : List Span) : List Node → List Tree
  | [] => []
  | n :: rest => n.erased result written ++ erasedIn result written rest
end

variable {source result : Bytes} {written : List Span}

@[simp] theorem treesIn_nil : treesIn source [] = [] := by rw [treesIn]

@[simp] theorem treesIn_cons (n : Node) (rest : List Node) :
    treesIn source (n :: rest) = n.trees source ++ treesIn source rest := by rw [treesIn]

@[simp] theorem erasedIn_nil : erasedIn result written [] = [] := by rw [erasedIn]

@[simp] theorem erasedIn_cons (n : Node) (rest : List Node) : erasedIn result written (n :: rest)
    = n.erased result written ++ erasedIn result written rest := by rw [erasedIn]

@[simp] theorem treesIn_append (a b : List Node) :
    treesIn source (a ++ b) = treesIn source a ++ treesIn source b := by
  induction a with
  | nil => simp
  | cons n rest ih => simp [ih]

@[simp] theorem erasedIn_append (a b : List Node) : erasedIn result written (a ++ b)
    = erasedIn result written a ++ erasedIn result written b := by
  induction a with
  | nil => simp
  | cons n rest ih => simp [ih]

theorem trees_comment {n : Node} (h : n.kind = .comment) : n.trees source = [] := by
  obtain ⟨kind, role, start, stop, _ | ⟨first, rest⟩⟩ := n
  · cases h
    rw [trees, if_pos rfl]
  · cases h
    rw [trees, if_pos rfl]

theorem erased_comment {n : Node} (h : n.kind = .comment) : n.erased result written = [] := by
  obtain ⟨kind, role, start, stop, _ | ⟨first, rest⟩⟩ := n
  · cases h
    rw [erased, if_pos rfl]
  · cases h
    rw [erased, if_pos rfl]

theorem trees_leaf {kind : NodeKind} {role : Option Role} {start stop : Nat}
    (hkind : kind ≠ .comment) : (mk kind role start stop []).trees source
      = [.leaf kind role (Instrument.bytesOf source (start, stop))] := by
  rw [trees, if_neg hkind]

theorem trees_node {kind : NodeKind} {role : Option Role} {start stop : Nat}
    {children : List Node} (hkind : kind ≠ .comment) (hchildren : children ≠ []) :
    (mk kind role start stop children).trees source
      = [.node kind role (treesIn source children)] := by
  cases children with
  | nil => exact absurd rfl hchildren
  | cons first rest => rw [trees, if_neg hkind, treesIn_cons]

/-- A node that is no comment is one tree. -/
theorem exists_trees {n : Node} (h : n.kind ≠ .comment) : ∃ t, n.trees source = [t] := by
  obtain ⟨kind, role, start, stop, children⟩ := n
  cases children with
  | nil => exact ⟨_, trees_leaf h⟩
  | cons first rest => exact ⟨_, trees_node h (List.cons_ne_nil first rest)⟩

theorem erased_leaf (result : Bytes) {kind : NodeKind} (role : Option Role) {start stop : Nat}
    (hkind : kind ≠ .comment) (hspan : isWithin written (start, stop) = false) :
    (mk kind role start stop []).erased result written
      = [.leaf kind role (Instrument.bytesOf result (start, stop))] := by
  rw [erased, if_neg hkind, hspan]
  rfl

/-- A leaf that was written is left out. -/
theorem erased_of_within (result : Bytes) (kind : NodeKind) (role : Option Role) {start stop : Nat}
    (hspan : isWithin written (start, stop) = true) :
    (mk kind role start stop []).erased result written = [] := by
  rw [erased, hspan]
  simp

/-- A node whose first child is not left out is not left out, and is no call that was written. -/
theorem erased_of_kept {kind : NodeKind} {role : Option Role} {start stop : Nat} {first : Node}
    {rest : List Node} (hkind : kind ≠ .comment) (hfirst : first.erased result written ≠ []) :
    (mk kind role start stop (first :: rest)).erased result written
      = [.node kind role (erasedIn result written (first :: rest))] := by
  rw [erased, if_neg hkind]
  simp [hfirst]

/-- A node of what was written only is left out. -/
theorem erased_of_written {kind : NodeKind} {role : Option Role} {start stop : Nat}
    {children : List Node} (hchildren : children ≠ [])
    (h : erasedIn result written children = []) :
    (mk kind role start stop children).erased result written = [] := by
  cases children with
  | nil => exact absurd rfl hchildren
  | cons first rest =>
    rw [erasedIn_cons] at h
    rw [erased]
    simp [h]

/-- A node that is no call keeps what is left of its children. -/
theorem erased_of_not_isCall {kind : NodeKind} {role : Option Role} {start stop : Nat}
    {children : List Node} (hkind : kind ≠ .comment) (hcall : isCall kind = false)
    (h : erasedIn result written children ≠ []) : (mk kind role start stop children).erased result written
      = [.node kind role (erasedIn result written children)] := by
  cases children with
  | nil => exact absurd erasedIn_nil h
  | cons first rest =>
    rw [erasedIn_cons] at h ⊢
    rw [erased, if_neg hkind]
    simp only [List.isEmpty_iff, h, hcall, Bool.false_and, if_false, Bool.false_eq_true]

/-- Of a call whose callee was written the operand is left. -/
theorem erased_call {kind : NodeKind} {role : Option Role} {start stop : Nat} {first : Node}
    {rest : List Node} (hkind : isCall kind = true) (hfirst : first.erased result written = []) :
    (mk kind role start stop (first :: rest)).erased result written
      = (erasedIn result written rest).map (Tree.withRole role) := by
  have hcomment : kind ≠ .comment := by
    rintro rfl
    simp [isCall] at hkind
  rw [erased, if_neg hcomment, hfirst, List.nil_append]
  cases erasedIn result written rest with
  | nil => rfl
  | cons t more => simp [hkind]

theorem trees_withRole (role : Role) (n : Node) : (n.withRole role).trees source
    = (n.trees source).map (Tree.withRole (some role)) := by
  obtain ⟨kind, _, start, stop, children⟩ := n
  by_cases hkind : kind = .comment
  · rw [trees_comment (n := mk ..) hkind, withRole, trees_comment (n := mk ..) hkind]
    rfl
  · cases children with
    | nil => rw [withRole, trees_leaf hkind, trees_leaf hkind]; rfl
    | cons first rest =>
      have hne := List.cons_ne_nil first rest
      rw [withRole, trees_node hkind hne, trees_node hkind hne]
      rfl

theorem withRole_withRole (role role' : Option Role) (t : Tree) :
    (t.withRole role).withRole role' = t.withRole role' := by
  cases t <;> rfl

theorem erased_withRole (role : Role) (n : Node) : (n.withRole role).erased result written
    = (n.erased result written).map (Tree.withRole (some role)) := by
  obtain ⟨kind, role', start, stop, children⟩ := n
  cases children with
  | nil =>
    simp only [withRole, erased]
    split
    · rfl
    · split <;> rfl
  | cons first rest =>
    simp only [withRole, erased]
    split
    · rfl
    · split
      · rfl
      · split
        · rw [List.map_map]
          exact List.map_congr_left fun t _ => (withRole_withRole role' (some role) t).symm
        · rfl

end Node

end LuaCoverage.Lua
