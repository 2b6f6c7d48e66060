import LuaCoverage.Proofs.Instrument.Woven.Site
import LuaCoverage.Proofs.Lua.Moved.Grammar

/-!
# Operators and operands in a woven source

Which operator comes next is the same in the result, and where none that binds as tightly comes next
in the source, none does in the result.

What is read before an operator turns up becomes the operand of that operator, and only then it is
known whether a call was written around it. So what has been read of an expression is *entered* in
the result: if the operators behind it are read there, the whole expression is.

Results:
* `operators_of_stops`: where an expression ends in the source it does in the result.
* `weaves_operator`: an operator of the source is read in the result.
* `Joint.Intact.operatorAt?`: it is the operator that comes next there.
* `Entered.reads`: what has been entered is read where no operator follows.
* `Entered.wrap`: a call around an operand is entered as well.
* `Entered.step`: so is an operator with both its operands.
* `Entered.operators`: and all operators behind an operand.
-/

namespace LuaCoverage.Instrument
open LuaCoverage.Lua LuaCoverage.Text LuaCoverage.Lua.Cursor LuaCoverage.Lua.Grammar
open LuaCoverage.Analysis

/-! ## The operator that comes next -/

/-- No operator of at least a level comes next. -/
def Stops (level : Nat) (n : Cursor) : Prop := ∀ u op next, upcoming? n = some u →
  operatorAt? .lua u = some (op, next) → op.level < level

theorem Stops.mono {level level' : Nat} {n : Cursor} (h : Stops level n) (hle : level ≤ level') :
    Stops level' n := fun u op next hu hop => Nat.lt_of_lt_of_le (h u op next hu hop) hle

/-- Of two texts at one cursor one goes on with the other. -/
theorem isPrefix_of_sees {c : Cursor} {a b : String} (ha : c.sees a = true) (hb : c.sees b = true) :
    a.toList <+: b.toList ∨ b.toList <+: a.toList := by
  obtain ⟨na, hna⟩ := Option.isSome_iff_exists.1 ha
  obtain ⟨nb, hnb⟩ := Option.isSome_iff_exists.1 hb
  obtain ⟨fronta, hpassa, hspella⟩ := exists_text? hna
  obtain ⟨frontb, hpassb, hspellb⟩ := exists_text? hnb
  have hchars (front rest : List Glyph) (h : c.rest = front ++ rest) (text : List Char)
      (hspell : Spells text front) : text.map some <+: c.rest.map Glyph.char := by
    rw [h, List.map_append, hspell]
    exact List.prefix_append _ _
  have hor := List.prefix_or_prefix_of_prefix (hchars _ _ hpassa.rest _ hspella)
    (hchars _ _ hpassb.rest _ hspellb)
  have hinj (x y : List Char) (h : x.map some <+: y.map some) : x <+: y := by
    obtain ⟨t, ht⟩ := h
    obtain ⟨front, back, rfl, hfront, -⟩ := List.map_eq_append_iff.1 ht.symm
    rw [← (List.map_inj_right fun _ _ => Option.some.inj).1 hfront]
    exact List.prefix_append _ _
  exact hor.imp (hinj _ _) (hinj _ _)

/-- Operators whose texts start alike: the longer one comes first and binds no looser, unless it is
`~=`. -/
theorem pairwise_markOperators : Dialect.lua.markOperators.Pairwise fun a b =>
    (a.text.toList.isPrefixOf b.text.toList || b.text.toList.isPrefixOf a.text.toList) = true →
      (b.level ≤ a.level ∨ a.text = "~=") ∧ b.text ≠ "~=" := by
  decide

/-- The first mark that is seen, and those that are not. -/
theorem exists_markOperator {c next : Cursor} {op : Dialect.Infix}
    (hword : Lexeme.word? .lua c = none) (h : operatorAt? .lua c = some (op, next)) :
    ∃ front back, Dialect.lua.markOperators = front ++ op :: back ∧ c.text? op.text = some next
      ∧ ∀ a ∈ front, c.sees a.text = false := by
  simp only [operatorAt?, hword] at h
  obtain ⟨front, a, back, hlist, ha, hfront⟩ := List.findSome?_eq_some_iff.1 h
  obtain ⟨n, hn, heq⟩ := Option.map_eq_some_iff.1 ha
  cases heq
  refine ⟨front, back, hlist, hn, fun b hb => ?_⟩
  have hnone := hfront b hb
  rw [Option.map_eq_none_iff] at hnone
  rw [Cursor.sees, hnone]
  rfl

theorem sees_of_operator {c next : Cursor} {op : Dialect.Infix}
    (hword : Lexeme.word? .lua c = none) (h : operatorAt? .lua c = some (op, next)) :
    op ∈ Dialect.lua.markOperators ∧ c.sees op.text = true := by
  obtain ⟨front, back, hlist, hn, -⟩ := exists_markOperator hword h
  refine ⟨by rw [hlist]; simp, ?_⟩
  rw [Cursor.sees, hn]
  rfl

theorem exists_operator {c : Cursor} {op : Dialect.Infix} (hword : Lexeme.word? .lua c = none)
    (hop : op ∈ Dialect.lua.markOperators) (hsees : c.sees op.text = true) :
    ∃ first next, operatorAt? .lua c = some (first, next) := by
  cases h : operatorAt? .lua c with
  | none =>
    simp only [operatorAt?, hword] at h
    have hnone := List.findSome?_eq_none_iff.1 h op hop
    rw [Option.map_eq_none_iff] at hnone
    rw [Cursor.sees, hnone] at hsees
    cases hsees
  | some found => exact ⟨found.1, found.2, rfl⟩

/-- Of the marks that are seen the first binds as tightly as any. -/
theorem level_le_of_sees {c next : Cursor} {first op : Dialect.Infix}
    (hword : Lexeme.word? .lua c = none) (h : operatorAt? .lua c = some (first, next))
    (hop : op ∈ Dialect.lua.markOperators) (hsees : c.sees op.text = true) :
    (op.level ≤ first.level ∨ first.text = "~=") ∧ (op.text = "~=" → first = op) := by
  obtain ⟨front, back, hlist, hn, hfront⟩ := exists_markOperator hword h
  have hpair := pairwise_markOperators
  rw [hlist] at hop hpair
  rcases List.mem_append.1 hop with hop | hop
  · rw [hfront op hop] at hsees
    cases hsees
  · rcases List.mem_cons.1 hop with rfl | hop
    · exact ⟨.inl (Nat.le_refl _), fun _ => rfl⟩
    · have hfirst : c.sees first.text = true := by rw [Cursor.sees, hn]; rfl
      have halike : (first.text.toList.isPrefixOf op.text.toList
          || op.text.toList.isPrefixOf first.text.toList) = true := by
        rw [Bool.or_eq_true, List.isPrefixOf_iff_prefix, List.isPrefixOf_iff_prefix]
        exact isPrefix_of_sees hfirst hsees
      obtain ⟨hlevel, hne⟩ :=
        (List.pairwise_cons.1 (List.pairwise_append.1 hpair).2.1).1 op hop halike
      exact ⟨hlevel, fun h => absurd h hne⟩

namespace Joint
variable {w : Writing} {j l : Joint w}

theorem isPlain_of_mem {op : Dialect.Infix} (h : op ∈ Dialect.lua.markOperators) :
    IsPlain op.text := by
  have hall : ∀ op ∈ Dialect.lua.markOperators, IsPlain op.text := by decide
  exact hall op h

/-- A mark that is seen in the result is seen in the source. -/
theorem sees_of_woven (j : Joint w) {op : Dialect.Infix} (hop : op ∈ Dialect.lua.markOperators)
    (h : j.woven.sees op.text = true) : j.source.sees op.text = true := by
  by_contra hnot
  rw [Bool.not_eq_true, Cursor.sees, Option.isSome_eq_false_iff, Option.isNone_iff_eq_none] at hnot
  have hnone := (exact_text? _ (isPlain_of_mem hop)).tracks.shy _ j.woven.offset _ j.woven_rest hnot
  have hwoven : Cursor.text? op.text j.woven = none := hnone
  rw [Cursor.sees, hwoven] at h
  cases h

/-- Whether a word comes next is the same in both. -/
theorem Intact.word?_isSome (h : j.Intact) :
    (Lexeme.word? .lua j.woven).isSome = (Lexeme.word? .lua j.source).isSome := by
  have hnone (c : Cursor) : (Lexeme.word? .lua c).isSome = c.char?.any Dialect.lua.isNameStart := by
    cases hstart : c.char?.any Dialect.lua.isNameStart with
    | false => rw [Lexeme.word?_eq_none_iff.2 (by simp [hstart])]; rfl
    | true =>
      cases hword : Lexeme.word? .lua c with
      | none => exact absurd hstart (Lexeme.word?_eq_none_iff.1 hword)
      | some word => rfl
  rw [hnone, hnone, h.char?]

theorem wordAt_of_word? {c n : Cursor} {word : String} (h : Lexeme.word? .lua c = some (word, n)) :
    Lexeme.wordAt .lua c = word := by
  rw [Lexeme.wordAt, h]
  rfl

/-- The word operator that comes next. -/
theorem operatorAt?_of_word? {c n : Cursor} {word : String}
    (h : Lexeme.word? .lua c = some (word, n)) : operatorAt? .lua c
      = (Dialect.wordOperators.find? (·.text == Lexeme.wordAt .lua c)).map fun op => (op, n) := by
  rw [operatorAt?, h, wordAt_of_word? h]

/-- In front of an intact lexeme the result has no operator that the source has not. -/
theorem Intact.level_lt {level : Nat} (h : j.Intact)
    (hsource : ∀ op next, operatorAt? .lua j.source = some (op, next) → op.level < level)
    (op : Dialect.Infix) (next : Cursor) (hop : operatorAt? .lua j.woven = some (op, next)) :
    op.level < level := by
  have hsome := h.word?_isSome
  cases hword : Lexeme.word? .lua j.woven with
  | some found =>
    obtain ⟨word, n⟩ := found
    rw [hword, Option.isSome_some] at hsome
    obtain ⟨⟨word', n'⟩, hword'⟩ := Option.isSome_iff_exists.1 hsome.symm
    rw [operatorAt?_of_word? hword, h.word] at hop
    obtain ⟨op', hfind, heq⟩ := Option.map_eq_some_iff.1 hop
    cases heq
    exact hsource op n' (by rw [operatorAt?_of_word? hword', hfind]; rfl)
  | none =>
    rw [hword, Option.isSome_none] at hsome
    have hword' := Option.isNone_iff_eq_none.1 (Option.isSome_eq_false_iff.1 hsome.symm)
    obtain ⟨hmem, hsees⟩ := sees_of_operator hword hop
    have hsees' := j.sees_of_woven hmem hsees
    obtain ⟨first, next', hfirst⟩ := exists_operator hword' hmem hsees'
    have hlevel := hsource first next' hfirst
    obtain ⟨hle | htilde, -⟩ := level_le_of_sees hword' hfirst hmem hsees'
    · omega
    · obtain ⟨hmem', hsees'⟩ := sees_of_operator hword' hfirst
      have hwoven : j.woven.sees first.text = true := by
        rw [h.pairs first.text (by rw [htilde]; decide), hsees']
      obtain rfl := (level_le_of_sees hword hop hmem' hwoven).2 htilde
      exact hlevel

/-- No operator stands at the text of a site. -/
theorem Front.operatorAt? {slot : Site.Slot} {c : Cursor} (h : Front w slot c) :
    operatorAt? .lua c = none := by
  by_cases hslot : slot = .closer
  · subst hslot
    have hword : Lexeme.word? .lua c = none := by
      cases h with
      | closer o rest => exact Lexeme.word?_of_isSeam ⟨_, rest, rfl, .inr rfl⟩
      | call helse hcloser => exact absurd rfl hcloser
    have hmarks : ∀ op ∈ Dialect.lua.markOperators, op.text.toList.head?.any (fun t =>
        t != ')' && !Dialect.lua.isNameStart t) = true := by decide
    cases hop : Grammar.operatorAt? .lua c with
    | none => rfl
    | some found =>
      obtain ⟨hmem, hsees⟩ := sees_of_operator hword hop
      have hfirst := hmarks _ hmem
      cases htext : found.1.text.toList with
      | nil => simp [htext] at hfirst
      | cons t more =>
        rw [htext] at hfirst
        rw [h.sees _ htext (by simpa using hfirst)] at hsees
        cases hsees
  · obtain ⟨next, hnext⟩ := h.word? hslot
    have hwordAt := h.wordAt
    have hreserved := name_notMem_reservedWords w
    have hnot : ∀ op ∈ Dialect.wordOperators, op.text ≠ Lexeme.wordAt .lua c := by
      intro op hop heq
      have hword : op.text ∈ reservedWords ∧ op.text ≠ "else" := by
        have hall : ∀ op ∈ Dialect.wordOperators, op.text ∈ reservedWords ∧ op.text ≠ "else" := by
          decide
        exact hall op hop
      rw [hwordAt] at heq
      cases slot with
      | closer => exact hslot rfl
      | elseArm => exact hword.2 heq
      | statement => exact hreserved (by rw [← show op.text = w.name.text from heq]; exact hword.1)
      | opener => exact hreserved (by rw [← show op.text = w.name.text from heq]; exact hword.1)
    rw [operatorAt?_of_word? hnext, List.find?_eq_none.2 fun op hop => by simpa using hnot op hop]
    rfl

/-- Where no operator comes next in the source, none does in the result. -/
theorem Ready.stops {sight : Sight} {level : Nat} (h : j.Ready sight) (hstops : Stops level j.source) :
    ∃ e, upcoming? j.woven = some e
      ∧ ∀ op next, operatorAt? .lua e = some (op, next) → op.level < level := by
  obtain ⟨i, hi, ⟨hsource, hintact, -⟩ | ⟨s, rest, hpieces, -⟩⟩ := h
  · refine ⟨_, hi, ?_⟩
    rw [hintact.entry]
    exact hintact.level_lt fun op next hop => hstops _ op next hsource hop
  · refine ⟨_, hi, fun op next hop => ?_⟩
    rw [(entry_mark hpieces).operatorAt?] at hop
    cases hop

end Joint

/-- An expression ends where no operator of its level comes next. -/
theorem operators_of_stops {c e : Cursor} {depth level : Nat} {x : Node} (hc : upcoming? c = some e)
    (hstops : ∀ op next, operatorAt? .lua e = some (op, next) → op.level < level) :
    rules .lua (depth + 1) (.operators level x) c = some ([x], c) := by
  rw [rules, rule, operators, hc]
  simp only [Option.bind_eq_bind, Option.bind_some]
  cases hop : operatorAt? .lua e with
  | none => rfl
  | some found =>
    obtain ⟨op, next⟩ := found
    have hlt := hstops op next hop
    dsimp only
    rw [if_neg (by omega)]

/-! ## The token of an operator -/

/-- Reads the token of an operator. -/
def operator (text : String) : Reader := fun c =>
  if Lexeme.wordAt .lua c = text then keyword .lua text c else mark text c

theorem word_of_operatorAt? {c next n : Cursor} {op : Dialect.Infix} {word : String}
    (hword : Lexeme.word? .lua c = some (word, n)) (h : operatorAt? .lua c = some (op, next)) :
    op ∈ Dialect.wordOperators ∧ op.text = Lexeme.wordAt .lua c := by
  rw [Joint.operatorAt?_of_word? hword] at h
  obtain ⟨op', hfind, heq⟩ := Option.map_eq_some_iff.1 h
  cases heq
  exact ⟨List.mem_of_find?_eq_some hfind, by simpa using List.find?_some hfind⟩

theorem markOperators_text {op : Dialect.Infix} (h : op ∈ Dialect.lua.markOperators) :
    3 ≤ op.level ∧ op.text ≠ "" ∧ op ∉ Dialect.wordOperators
      ∧ (isClear op.text = true ∨ op.text = "~") := by
  revert h
  have hall : ∀ op ∈ Dialect.lua.markOperators, 3 ≤ op.level ∧ op.text ≠ ""
      ∧ (∀ other ∈ Dialect.wordOperators, other.text ≠ op.text)
      ∧ (isClear op.text = true ∨ op.text = "~") := by decide
  intro h
  obtain ⟨hlevel, hne, hother, hclear⟩ := hall op h
  exact ⟨hlevel, hne, fun hmem => hother op hmem rfl, hclear⟩

theorem exists_mark_text {op : Dialect.Infix} (h : op ∈ Dialect.lua.markOperators) :
    ∃ t more, op.text.toList = t :: more ∧ Dialect.lua.isNameStart t = false := by
  have hall : ∀ op ∈ Dialect.lua.markOperators,
      op.text.toList.head?.any (fun t => !Dialect.lua.isNameStart t) = true := by decide
  have hfirst := hall op h
  cases htext : op.text.toList with
  | nil => simp [htext] at hfirst
  | cons t more => exact ⟨t, more, rfl, by simpa [htext] using hfirst⟩

/-- A mark is no word. -/
theorem operator_of_sees {op : Dialect.Infix} (hop : op ∈ Dialect.lua.markOperators) {c : Cursor}
    (h : c.sees op.text = true) : operator op.text c = mark op.text c := by
  obtain ⟨t, more, htext, ht⟩ := exists_mark_text hop
  have hword := Joint.wordAt_eq_empty (c := c) (by rw [char?_of_sees htext h]; simpa using ht)
  rw [operator, hword, if_neg (markOperators_text hop).2.1.symm]

/-- The token of the operator that comes next. -/
theorem weaves_operator {w : Writing} (op : Dialect.Infix) :
    WeavesIf w (fun u => ∃ next, operatorAt? .lua u = some (op, next))
      (.leaf (.token op.text) (decide (op.level ≤ 2))) (operator op.text)
      fun _ => operator op.text := by
  by_cases hop : op ∈ Dialect.wordOperators
  · have hkeyword := weaves_keyword (w := w) op.text
    have hall : WeavesIf w (fun u => ∃ next, operatorAt? .lua u = some (op, next))
        (.leaf (.token op.text) true) (keyword .lua op.text) fun _ => keyword .lua op.text :=
      fun c nodes n hc _ hread => hkeyword c nodes n hc trivial hread
    have hmono : WeavesIf w (fun u => ∃ next, operatorAt? .lua u = some (op, next))
        (.leaf (.token op.text) (decide (op.level ≤ 2))) (keyword .lua op.text)
        fun _ => keyword .lua op.text :=
      hall.mono (fun _ => id) (fun _ => rfl) (Sight.within_all _) rfl (fun _ _ _ _ h => h) fun _ _ h => h
    refine hmono.of_reads (fun c r _ ⟨next, hnext⟩ hread => ?_) fun b e r _ hread => ?_
    · rw [operator] at hread
      split at hread
      · exact hread
      · next hne =>
        cases hword : Lexeme.word? .lua c with
        | none => exact absurd hop (markOperators_text (sees_of_operator hword hnext).1).2.2.1
        | some found => exact absurd (word_of_operatorAt? hword hnext).2.symm hne
    · have hword : Lexeme.wordAt .lua e = op.text := by
        rw [keyword] at hread
        split at hread
        · next word n hword =>
          split at hread
          · next heq => rw [Joint.wordAt_of_word? hword, heq]
          · cases hread
        · cases hread
      rw [operator, if_pos hword, hread]
  · by_cases hmem : op ∈ Dialect.lua.markOperators
    · obtain ⟨t, more, htext, ht⟩ := exists_mark_text hmem
      obtain ⟨hlevel, -, -, hclear⟩ := markOperators_text hmem
      have hmark : WeavesIf w (fun u => ∃ next, operatorAt? .lua u = some (op, next))
          (.leaf (.token op.text) (isBluntText op.text)) (mark op.text) fun _ => mark op.text := by
        refine fun c nodes n hc ⟨next, hnext⟩ hread =>
          weavesIf_text _ ⟨rfl, by simp⟩ htext ht c nodes n hc ?_ hread
        have hchar := char?_of_sees htext (mark_sees hread)
        unfold isClear at hclear
        rw [htext] at hclear
        simp only [ht, Bool.not_false, Bool.true_and, Bool.or_eq_true, Bool.not_eq_true',
          List.isEmpty_eq_false_iff, List.contains_eq_mem, decide_eq_false_iff_not] at hclear
        rcases hclear with (hmore | ht') | htilde
        · exact .inl hmore
        · exact .inr fun text htext' => Joint.sees_pair htext' hchar ht'
        · -- A single tilde is no operator where `~=` is seen.
          obtain ⟨rfl, rfl⟩ : '~' = t ∧ [] = more := by
            have hlist : "~".toList = ['~'] := rfl
            rw [htilde, hlist] at htext
            simpa using htext
          refine .inr fun text htext' => ?_
          simp only [Joint.pairMarks, List.mem_cons, List.not_mem_nil, or_false] at htext'
          rcases htext' with rfl | rfl | rfl | rfl
          · exact sees_eq_false _ (t := '.') rfl (by simp [hchar])
          · exact sees_eq_false _ (t := ':') rfl (by simp [hchar])
          · have hword : Lexeme.word? .lua c = none := by
              rw [Lexeme.word?_eq_none_iff, hchar]
              decide
            by_contra hsees
            rw [Bool.not_eq_false] at hsees
            have hmem' : (⟨"~=", 3, false⟩ : Dialect.Infix) ∈ Dialect.lua.markOperators := by
              simp [Dialect.markOperators]
            have hfirst := (level_le_of_sees hword hnext hmem' hsees).2 rfl
            rw [hfirst] at htilde
            revert htilde
            decide
          · exact sees_eq_false _ (t := '=') rfl (by simp [hchar])
      have hmono : WeavesIf w (fun u => ∃ next, operatorAt? .lua u = some (op, next))
          (.leaf (.token op.text) (decide (op.level ≤ 2))) (mark op.text) fun _ => mark op.text :=
        hmark.mono (fun _ => id) (fun h => absurd (of_decide_eq_true h) (by omega))
          (Sight.within_all _) rfl (fun _ _ _ _ h => h) fun _ _ h => h
      refine hmono.of_reads (fun c r _ ⟨next, hnext⟩ hread => ?_) fun b e r _ hread => ?_
      · cases hword : Lexeme.word? .lua c with
        | none => rwa [operator_of_sees hmem (sees_of_operator hword hnext).2] at hread
        | some found => exact absurd (word_of_operatorAt? hword hnext).1 hop
      · obtain ⟨nodes, n⟩ := r
        rw [operator_of_sees hmem (mark_sees hread), hread]
    · refine fun c nodes n hc ⟨next, hnext⟩ hread => ?_
      cases hword : Lexeme.word? .lua c with
      | none => exact absurd (sees_of_operator hword hnext).1 hmem
      | some found => exact absurd (word_of_operatorAt? hword hnext).1 hop

/-- What is read as the operator of the source is the operator that comes next. -/
theorem Joint.Intact.operatorAt? {w : Writing} {j : Joint w} {op : Dialect.Infix} {next : Cursor}
    (h : j.Intact) (hop : Grammar.operatorAt? .lua j.source = some (op, next))
    {r : List Node × Cursor} (hread : operator op.text j.woven = some r) :
    ∃ next', Grammar.operatorAt? .lua j.woven = some (op, next') := by
  have hsome := h.word?_isSome
  cases hword : Lexeme.word? .lua j.source with
  | some found =>
    rw [hword, Option.isSome_some] at hsome
    obtain ⟨⟨word', n'⟩, hword'⟩ := Option.isSome_iff_exists.1 hsome
    rw [operatorAt?_of_word? hword] at hop
    obtain ⟨op', hfind, heq⟩ := Option.map_eq_some_iff.1 hop
    cases heq
    exact ⟨n', by rw [operatorAt?_of_word? hword', h.word, hfind]; rfl⟩
  | none =>
    rw [hword, Option.isSome_none] at hsome
    have hword' := Option.isNone_iff_eq_none.1 (Option.isSome_eq_false_iff.1 hsome)
    obtain ⟨front, back, hlist, -, hfront⟩ := exists_markOperator hword hop
    have hmem : ∀ a ∈ front ++ [op], a ∈ Dialect.lua.markOperators := fun a ha => by
      rw [hlist]
      simp only [List.mem_append, List.mem_cons] at ha ⊢
      tauto
    have hempty : Lexeme.wordAt .lua j.woven = "" := by rw [Lexeme.wordAt, hword']; rfl
    rw [operator, hempty, if_neg (markOperators_text (hmem op (by simp))).2.1.symm] at hread
    obtain ⟨n', hn', -⟩ := Option.map_eq_some_iff.1 hread
    refine ⟨n', ?_⟩
    simp only [Grammar.operatorAt?, hword']
    rw [hlist, List.findSome?_append]
    have hskip : front.findSome? (fun op => (j.woven.text? op.text).map fun next => (op, next))
        = none := by
      refine List.findSome?_eq_none_iff.2 fun a ha => ?_
      rw [Option.map_eq_none_iff]
      by_contra hseen
      obtain ⟨n, hn⟩ := Option.ne_none_iff_exists'.1 hseen
      have hsees : j.woven.sees a.text = true := by rw [Cursor.sees, hn]; rfl
      have hsource := j.sees_of_woven (hmem a (by simp [ha])) hsees
      rw [hfront a ha] at hsource
      cases hsource
    rw [hskip]
    simp [hn']

/-- What may come behind an expression. -/
def Sight.behind (blunt : Bool) : Sight := ⟨[.statement, .elseArm, .closer], blunt⟩

/-- The places of a call around nodes, if there is one. -/
def wraps (wrapped : Bool) (nodes : List Node) : List Spot :=
  if wrapped then nodes.flatMap around else []

/-- An expression whose operators have at least a level, and a call around it perhaps. -/
def Manner.expression (role : Option Role) (level : Nat) (blunt wrapped : Bool) : Manner :=
  ⟨some .opener, false, .behind blunt, wraps wrapped,
    fun c nodes n => Spans role c nodes n ∧ Stops level n, AnyKinds⟩

/-! ## Depths -/

mutual
theorem node_move_zero (n : Node) : n.move 0 = n := by
  cases n with
  | mk kind role start stop children =>
    rw [Node.move, nodes_move_zero children, Nat.zero_add, Nat.zero_add]
theorem nodes_move_zero (nodes : List Node) : Node.moveAll 0 nodes = nodes := by
  cases nodes with
  | nil => rfl
  | cons n rest => rw [Node.moveAll, node_move_zero n, nodes_move_zero rest]
end

/-- What is read within a depth is read within every greater depth. -/
theorem rules_mono {depth depth' : Nat} {goal : Goal} {c n : Cursor} {nodes : List Node}
    (hdepth : depth ≤ depth') (h : rules .lua depth goal c = some (nodes, n)) :
    rules .lua depth' goal c = some (nodes, n) := by
  have hcursor (c : Cursor) : c.move 0 = c := by rw [Cursor.move, Nat.zero_add]
  have hgoal : goal.move 0 = goal := by cases goal <;> simp [Goal.move, node_move_zero]
  have hnodes : nodes.map (Node.move 0) = nodes := by
    rw [← Node.moveAll_eq_map, nodes_move_zero]
  have hmoved := moves_rules (k := 0) hdepth goal c _ h
  rwa [hgoal, hcursor, moveRead, Prod.map, hnodes, hcursor] at hmoved

/-! ## Operands -/

/-- What was read as an operand from one cursor to another is of an outline, over which the result
goes on with the operators behind it. The operand was read within one depth, and the operators are
within another. -/
structure Entered (w : Writing) (depth operators level : Nat) (c : Cursor) (x : Node) (n : Cursor)
    (outline : Outline) (blunt wrapped : Bool) : Prop where
  passes : Passes c n (plain outline)
  nonempty : plain outline ≠ []
  leads : outline.Leads (some .opener)
  tidy : outline.isTidy none = true
  places : (outline.places c.offset).Perm (wraps wrapped [x] ++ places x)
  spans : Spans none c [x] n
  starts : ∀ j l : Joint w, j.source = c → j.Goes outline l → l.Ready (.behind blunt) →
    j.Starts (· ∈ [.opener])
  enters : ∀ j l : Joint w, j.source = c → j.Goes outline l → l.Ready (.behind blunt) →
    ∀ b, 16 * outline.count ≤ b → ∃ x', Alike w [x'] [x] ∧ ∀ level' ≤ level, ∀ nodes m,
      rules .lua (operators + b) (.operators level' x') l.woven = some (nodes, m) →
      rules .lua (depth + b) (.expression level') j.entry = some (nodes, m)

namespace Entered
variable {w : Writing} {depth operators level : Nat} {c n : Cursor} {x : Node} {outline : Outline}
  {blunt wrapped : Bool}

theorem isWalked (h : Entered w depth operators level c x n outline blunt wrapped) :
    isWalked x = true :=
  isWalked_of_spans h.spans x List.mem_cons_self

/-- What has been entered is read where no operator follows. -/
theorem reads (h : Entered w depth operators level c x n outline blunt wrapped)
    (hdepth : 1 ≤ operators) (hstops : Stops level n) :
    Reads w (.expression none level blunt wrapped) c n [x] outline
      fun b => rules .lua (depth + b) (.expression level) where
  passes := h.passes
  nonempty := h.nonempty
  leads := h.leads
  tidy := h.tidy
  places := by simpa [Manner.expression, placesIn_cons, h.isWalked] using h.places
  begins := by
    obtain ⟨x', heq, hstart, -⟩ := h.spans
    cases heq
    exact ⟨x, [], rfl, hstart⟩
  blunt := nofun
  starts := h.starts
  reads := by
    intro j l hj hgoes hl b hb
    obtain ⟨x', halike, henters⟩ := h.enters j l hj hgoes hl b hb
    refine ⟨[x'], henters level (Nat.le_refl _) _ _ ?_, halike, trivial⟩
    have hl' : l.source = n := hgoes.source_eq hj h.passes
    obtain ⟨e, he, hnone⟩ := hl.stops (hl' ▸ hstops)
    obtain ⟨d, hd⟩ : ∃ d, operators + b = d + 1 := ⟨operators + b - 1, by omega⟩
    rw [hd]
    exact operators_of_stops he hnone

theorem alike_of_erased {call x x' : Node} (h : Alike w [x'] [x]) (hrole : x.role = none)
    (hcall : Node.erased w.result w.written call
      = (Node.erased w.result w.written x').map (Tree.withRole none)) : Alike w [call] [x] := by
  obtain ⟨htrees, first, rest, hfirst, hkept⟩ := h
  cases hfirst
  have hsame : (x.trees w.source).map (Tree.withRole none) = x.trees w.source := by
    obtain ⟨kind, role, start, stop, children⟩ := x
    obtain rfl : role = none := hrole
    cases children with
    | nil =>
      rw [Node.trees]
      split
      · rfl
      · rfl
    | cons first rest =>
      rw [Node.trees]
      split
      · rfl
      · rfl
  simp only [Node.erasedIn_cons, Node.erasedIn_nil, List.append_nil, Node.treesIn_cons,
    Node.treesIn_nil] at htrees
  refine ⟨?_, call, [], rfl, ?_⟩
  · simp [hcall, htrees, hsame]
  · simpa [hcall] using hkept

/-- A call around an operand is entered as well. -/
theorem wrap (h : Entered w depth operators level c x n outline blunt false)
    (hdepth : 1 ≤ operators) {operators' : Nat} (hoperators : operators' + 1 ≤ depth) (level' : Nat) :
    Entered w depth operators' level' c x n (.mark .opener :: (outline ++ [.mark .closer])) true
      true := by
  have hplain : plain (.mark .opener :: (outline ++ [.mark .closer]) : Outline) = plain outline := by
    simp [plain]
  have hgoes {j m : Joint w} (hgoes : j.Goes (.mark .opener :: (outline ++ [.mark .closer])) m) :
      ∃ k l, j.Goes [.mark .opener] k ∧ k.Goes outline l ∧ l.Goes [.mark .closer] m := by
    obtain ⟨k, hjk, hkm⟩ := Joint.goes_append (a := [.mark .opener]).1 hgoes
    obtain ⟨l, hkl, hlm⟩ := Joint.goes_append.1 hkm
    exact ⟨k, l, hjk, hkl, hlm⟩
  refine ⟨by rw [hplain]; exact h.passes, by rw [hplain]; exact h.nonempty,
    ⟨_, _, rfl, .inr ⟨_, rfl, rfl⟩⟩, ?_, ?_, h.spans, ?_, ?_⟩
  · exact Outline.isTidy_mark (h.leads.append _) (Outline.isTidy_append h.tidy rfl)
  · obtain ⟨x', heq, hstart, hstop, -⟩ := h.spans
    cases heq
    have hoffset : c.offset + width (plain outline) = x.stop := by
      rw [hstop, h.passes.offset]
    have hwhole : Outline.places c.offset (.mark .opener :: (outline ++ [.mark .closer]))
        = (c.offset, .opener) :: (outline.places c.offset ++ [(x.stop, .closer)]) := by
      simp [Outline.places, hoffset]
    have hplaces : (outline.places c.offset).Perm (Analysis.places x) := by
      simpa [wraps] using h.places
    rw [hwhole, ← hstart]
    simp only [wraps, if_true, around, List.flatMap_cons, List.flatMap_nil, List.append_nil,
      List.cons_append, List.nil_append]
    rw [hstart]
    have hmove : (outline.places c.offset ++ [(x.stop, Site.Slot.closer)]).Perm
        ((x.stop, Site.Slot.closer) :: outline.places c.offset) := List.perm_append_comm
    exact (hmove.trans (hplaces.cons _)).cons _
  · intro j m hj hgm hm
    obtain ⟨k, l, hjk, -, -⟩ := hgoes hgm
    obtain ⟨s, hslot, hpieces, -⟩ := Joint.goes_mark hjk
    refine .inr ⟨⟨s, k.pieces, hpieces, by simp [hslot]⟩, ?_⟩
    rw [hj, h.passes.rest]
    simp [h.nonempty]
  · intro j m hj hgm hm b hb
    obtain ⟨k, l, hjk, hkl, hlm⟩ := hgoes hgm
    obtain ⟨-, -, -, hk, -⟩ := Joint.goes_mark hjk
    obtain ⟨s, hslot, hpieces, -⟩ := Joint.goes_mark hlm
    have hl : l.Ready (.behind blunt) := .of_mark hpieces (by rw [hslot]; simp [Sight.behind])
    have hcount : Outline.count (.mark .opener :: (outline ++ [.mark .closer]))
        = outline.count + 2 := by
      simp [Outline.count, marksOf]
    rw [hcount] at hb
    obtain ⟨x', halike, henters⟩ := h.enters k l (hk.trans hj) hkl hl (b - 7) (by omega)
    have hread := henters 0 (Nat.zero_le _) [x'] l.woven (by
      obtain ⟨e, he, hnone⟩ : ∃ e, upcoming? l.woven = some e
          ∧ ∀ op next, operatorAt? .lua e = some (op, next) → op.level < 0 := by
        refine ⟨l.entry, by rw [upcoming?, Joint.trivia?_mark hpieces]; rfl, fun op next hop => ?_⟩
        rw [(Joint.entry_mark hpieces).operatorAt?] at hop
        cases hop
      obtain ⟨d, hd⟩ : ∃ d, operators + (b - 7) = d + 1 := ⟨operators + (b - 7) - 1, by omega⟩
      rw [hd]
      exact operators_of_stops he hnone)
    obtain ⟨call, hcall, hrest⟩ := Joint.expression_wrap (depth + b - 9) hjk hlm
      (h.starts k l (hk.trans hj) hkl hl) (by
        have hdepth' : depth + b - 9 + 2 = depth + (b - 7) := by omega
        rwa [hdepth']) hm rfl
    obtain ⟨x'', heq, -, -, hrole, -⟩ := h.spans
    cases heq
    refine ⟨call, alike_of_erased halike hrole hcall, fun level'' _ nodes n' hnodes => ?_⟩
    have hdepth' : depth + b - 9 + 9 = depth + b := by omega
    rw [← hdepth']
    exact hrest level'' _ (rules_mono (by omega) hnodes)

end Entered

/-! ## Operators with their operands -/

/-- The level that the right operand of an operator has at least. -/
def floor (op : Dialect.Infix) : Nat := if op.rightward then op.level else op.level + 1

/-- Reads an operator and its right operand. -/
def binary (op : Dialect.Infix) (table : Rules) (draft : Draft) : Option Draft := do
  let draft ← draft.take (operator op.text)
  draft.take (inRole .right (table (.expression (floor op))))

theorem operators_eq (table : Rules) (level : Nat) (x : Node) (c : Cursor) :
    Grammar.operators .lua table level x c = upcoming? c >>= fun u =>
      match operatorAt? .lua u with
      | some (op, _) => if level ≤ op.level then
          binary op table (.ofNode (x.withRole .left) c) >>= fun draft =>
            table (.operators level (draft.toNode .binaryExpression)) draft.cursor
        else some ([x], c)
      | none => some ([x], c) := by
  unfold Grammar.operators
  refine congrArg (upcoming? c >>= ·) (funext fun u => ?_)
  cases operatorAt? .lua u with
  | none => rfl
  | some found =>
    dsimp only
    split
    · exact (bind_assoc ..).symm
    · rfl

theorem wraps_withRole (wrapped : Bool) (role : Role) (nodes : List Node) :
    wraps wrapped (nodes.map (.withRole role)) = wraps wrapped nodes := by
  have haround (x : Node) : around (x.withRole role) = around x := by
    cases x
    rfl
  simp [wraps, List.flatMap_map, haround]

theorem Spans.withRole {c n : Cursor} {role' : Option Role} {nodes : List Node} (role : Role)
    (h : Spans role' c nodes n) : Spans (some role) c (nodes.map (.withRole role)) n := by
  obtain ⟨x, rfl, hstart, hstop, -, hkind⟩ := h
  cases x
  exact ⟨_, rfl, hstart, hstop, rfl, hkind⟩

variable {w : Writing}

theorem weaves_expression_inRole {level : Nat} {blunt wrapped : Bool} {read : Reader}
    {read' : Nat → Reader} (role : Role)
    (h : Weaves w (.expression none level blunt wrapped) read read') :
    Weaves w (.expression (some role) level blunt wrapped) (inRole role read)
      fun b => inRole role (read' b) :=
  Weaves.inRole (fun role c nodes n => Spans role c nodes n ∧ Stops level n) role
    (wraps_withRole wrapped role) (fun _ _ _ h => ⟨h.1.withRole role, h.2⟩) (fun _ _ h => h) h

/-- The places around the operands of an operator: of what is read as its draft. -/
theorem ownPlaces_binary {op : Dialect.Infix} {x y : Node} {comments more : List Node}
    {start stop start' stop' : Nat} (hx : x.role = some .left ∧ isOrdinary x.kind = true)
    (hy : y.role = some .right ∧ isOrdinary y.kind = true) (hlt : x.stop < y.stop)
    (hcomments : Lexeme.AreComments comments) (hmore : Lexeme.AreComments more) :
    ownPlaces (.mk .binaryExpression none start stop ([x] ++ comments
        ++ [.mk (.token op.text) none start' stop' []] ++ more ++ [y]))
      = wraps (["and", "or"].contains op.text && !x.isLogical op.text) [x]
        ++ wraps (["and", "or"].contains op.text) [y] := by
  generalize hn : Node.mk .binaryExpression none start stop ([x] ++ comments
    ++ [.mk (.token op.text) none start' stop' []] ++ more ++ [y]) = n
  have hchildren : n.children = [x] ++ comments ++ [.mk (.token op.text) none start' stop' []] ++ more
      ++ [y] := by rw [← hn]; rfl
  have hkind : n.kind = .binaryExpression := by rw [← hn]; rfl
  have hnoRole (nodes : List Node) (h : Lexeme.AreComments nodes) (role : Role) :
      nodes.find? (·.role == some role) = none :=
    List.find?_eq_none.2 fun a ha => by simp [(h a ha).2]
  have hleft : n.childInRole? .left = some x := by
    simp [Node.childInRole?, hchildren, hx.1]
  have hright : n.childInRole? .right = some y := by
    have htoken : (Node.mk (.token op.text) none start' stop' []).role = none := rfl
    simp [Node.childInRole?, hchildren, List.find?_append, hx.1, hy.1, hnoRole _ hcomments,
      hnoRole _ hmore, htoken]
  have hoperator : n.operator? = some op.text := by
    have hfirst : ∀ a ∈ [x] ++ comments, ∀ text, a.kind ≠ .token text := by
      intro a ha text htoken
      rcases List.mem_append.1 ha with ha | ha
      · rw [List.mem_singleton.1 ha] at htoken
        have hordinary := hx.2
        rw [htoken] at hordinary
        cases hordinary
      · rw [(hcomments a ha).1] at htoken
        cases htoken
    rw [Node.operator?, hchildren, List.append_assoc, List.append_assoc, List.findSome?_append]
    refine (congrArg (Option.or · _) (List.findSome?_eq_none_iff.2 fun a ha => ?_)).trans rfl
    split
    · next text hkind => exact absurd hkind (hfirst a ha text)
    · rfl
  have hoperands : n.operands? = some (x, y) := by
    have hspan : x.isSameSpan y = false := by
      simp [Node.isSameSpan, Nat.ne_of_lt hlt]
    simp [Node.operands?, hleft, hright, hspan]
  have hlogical : n.logicalOperator?
      = if ["and", "or"].contains op.text then some op.text else none := by
    rw [Node.logicalOperator?, hkind, hoperator]
    rfl
  rw [ownPlaces, hkind]
  dsimp only
  rw [operandPlaces, hlogical, hoperands]
  cases hcontains : ["and", "or"].contains op.text with
  | false => rfl
  | true => cases hsame : x.isLogical op.text <;> simp [wraps, hsame]

/-- Whether an operator is logical. -/
def isLogicalText (text : String) : Bool := ["and", "or"].contains text

theorem continues_binary {op : Dialect.Infix} {x : Node} {n u0 : Cursor} {found : Cursor}
    {blunt : Bool} {table : Rules} (c0 : Cursor) (table' : Nat → Rules) (hu : upcoming? n = some u0)
    (hop : operatorAt? .lua u0 = some (op, found)) (hx : isOrdinary x.kind = true)
    (hstop : x.stop = n.offset)
    (hright : Weaves w (.expression none (floor op) blunt (isLogicalText op.text))
      (table (.expression (floor op))) fun b => table' b (.expression (floor op))) :
    Continues w (.expression none (floor op) blunt false) c0 ⟨[], decide (op.level ≤ 2)⟩
      (wraps (isLogicalText op.text && !x.isLogical op.text) [x]) AnyKinds
      (.ofNode (x.withRole .left) n)
      (fun draft => binary op table draft >>= Draft.finish .binaryExpression)
      fun b draft => binary op (table' b) draft >>= Draft.finish .binaryExpression := by
  have hbind (table : Rules) : (fun draft => binary op table draft >>= Draft.finish .binaryExpression)
      = fun draft => draft.take (operator op.text) >>= fun draft =>
        draft.take (inRole .right (table (.expression (floor op)))) >>=
          Draft.finish .binaryExpression := by
    funext draft
    exact bind_assoc ..
  have hbind' : (fun b draft => binary op (table' b) draft >>= Draft.finish .binaryExpression)
      = fun b draft => draft.take (operator op.text) >>= fun draft =>
        draft.take (inRole .right (table' b (.expression (floor op)))) >>=
          Draft.finish .binaryExpression := funext fun b => hbind (table' b)
  rw [hbind, hbind']
  refine Continues.takeOf (weaves_operator op) (fun u _ hu' _ => ?_) (Sight.within_all ⟨[.opener], false⟩)
    fun comments u nodes next hcomments hpost hle hlt => ?_
  · obtain rfl : u0 = u := Option.some.inj (hu.symm.trans hu')
    exact ⟨found, hop⟩
  obtain rfl : nodes = _ := hpost
  refine Continues.take (weaves_expression_inRole .right hright) (Sight.within_refl _)
    fun more u' right next' hmore hpost' hle' hlt' => ?_
  obtain ⟨⟨y, rfl, hystart, hystop, hyrole, hykind⟩, hstops⟩ := hpost'
  have hrole : (x.withRole .left).role = some .left ∧ isOrdinary (x.withRole .left).kind = true := by
    cases x
    exact ⟨rfl, hx⟩
  have hleft : (x.withRole .left).stop < y.stop := by
    have hsame : (x.withRole .left).stop = x.stop := by cases x; rfl
    dsimp only [Draft.ofNode] at hle hle'
    omega
  refine .result (p := .expression none (floor op) blunt false)
    (fun hbegun => ⟨⟨hbegun.spans rfl, hstops⟩, _, [], rfl, hbegun.first⟩) ?_
    fun draft' halike _ => ⟨halike.node (by simp) .., trivial⟩
  refine placesIn_of_isOrdinary rfl ?_
  have hlogical : (x.withRole .left).isLogical op.text = x.isLogical op.text := by cases x; rfl
  have haround : wraps (isLogicalText op.text && !x.isLogical op.text) [x]
      = wraps (isLogicalText op.text && !x.isLogical op.text) [x.withRole .left] :=
    (wraps_withRole _ .left [x]).symm
  rw [haround, ← hlogical]
  exact .of_eq ((congrArg (· ++ _) (List.append_nil _)).trans
    (ownPlaces_binary hrole ⟨hyrole, hykind⟩ hleft hcomments hmore).symm)

namespace Entered
variable {w : Writing} {depth level : Nat} {c n u found : Cursor} {x : Node} {outline : Outline}
  {blunt wrapped : Bool}

/-- In front of a lexeme of the source that lexeme comes next in the result. -/
theorem exists_intact {j : Joint w} {b : Bool} (h : j.Ready ⟨[], b⟩) : ∃ i : Joint w,
    i.Intact ∧ upcoming? j.source = some i.source ∧ upcoming? j.woven = some i.woven := by
  obtain ⟨i, hi, ⟨hsource, hintact, -⟩ | ⟨s, rest, -, hslot⟩⟩ := h
  · exact ⟨i, hintact, hsource, by rw [hi, hintact.entry]⟩
  · cases hslot

/-- An operator with both its operands is entered. -/
theorem step {op : Dialect.Infix} {operators : Nat} {right : Bool} {draft : Draft}
    (h : Entered w depth (operators + 1) level c x n outline blunt wrapped) (hc : Landed c)
    (hu : upcoming? n = some u) (hop : operatorAt? .lua u = some (op, found))
    (hlevel : level ≤ op.level) (hblunt : blunt = true → op.level ≤ 2)
    (hwrapped : wrapped = (isLogicalText op.text && !x.isLogical op.text))
    (hright : Weaves w (.expression none (floor op) right (isLogicalText op.text))
      (rules .lua operators (.expression (floor op)))
      fun b => rules .lua (operators + b) (.expression (floor op)))
    (hread : binary op (rules .lua operators) (.ofNode (x.withRole .left) n) = some draft) :
    Stops (floor op) draft.cursor ∧ ∃ outline', Entered w depth operators level c
      (draft.toNode .binaryExpression) draft.cursor outline' right false := by
  obtain ⟨x', heq, hstart, hstop, hrole, hkind⟩ := h.spans
  cases heq
  have hbegun : Begun c (.ofNode (x.withRole .left) n) := by
    refine ⟨⟨_, [], rfl, ?_⟩, (show Solid c from hc.solid).passes h.passes⟩
    cases x
    exact hstart
  have hall := continues_binary c (fun b => rules .lua (operators + b)) hu hop hkind
    hstop hright hbegun [draft.toNode .binaryExpression] draft.cursor (by
      dsimp only
      rw [hread]
      rfl)
  obtain ⟨⟨hspans, hstops⟩, -, back, hback⟩ := hall
  refine ⟨hstops, outline ++ back, ?_, ?_, h.leads.append back,
    Outline.isTidy_append h.tidy hback.tidy, ?_, hspans, ?_, ?_⟩
  · simpa using h.passes.trans hback.passes
  · simp [h.nonempty]
  · have hplaces := hback.places
    rw [← hwrapped] at hplaces
    have hwalked : Analysis.isWalked x = true := h.isWalked
    have hwalked' : Analysis.isWalked (draft.toNode .binaryExpression) = true :=
      isWalked_of_isOrdinary rfl
    simp only [Draft.ofNode, placesIn_cons, isWalked_withRole, hwalked, hwalked', places_withRole,
      placesIn_nil, List.append_nil, if_true, Bool.false_eq_true, if_false, List.nil_append] at hplaces
    rw [Outline.places_append, ← h.passes.offset]
    exact (h.places.append_right _).trans hplaces
  · intro j l hj hgoes hl
    obtain ⟨m, hjm, hml⟩ := Joint.goes_append.1 hgoes
    have hm : m.source = n := hjm.source_eq hj h.passes
    exact h.starts j m hj hjm ((hback.ready m l hm hml hl).mono
      ⟨by simp, fun h => decide_eq_true (hblunt h)⟩)
  · intro j l hj hgoes hl b hb
    obtain ⟨m, hjm, hml⟩ := Joint.goes_append.1 hgoes
    have hm : m.source = n := hjm.source_eq hj h.passes
    rw [Outline.count_append] at hb
    have hready := hback.ready m l hm hml hl
    obtain ⟨x', halike, henters⟩ := h.enters j m hj hjm (hready.mono
      ⟨by simp, fun h => decide_eq_true (hblunt h)⟩) b (by omega)
    obtain ⟨nodes', hnodes', halike', -⟩ := hback.reads m l hm hml hl b (by omega)
      [x'.withRole .left] (halike.withRole .left) trivial
    obtain ⟨draft', hdraft', hfinish⟩ := Option.bind_eq_some_iff.1 hnodes'
    obtain ⟨rfl, hcursor⟩ : [draft'.toNode .binaryExpression] = nodes' ∧ draft'.cursor = l.woven := by
      simpa [Draft.finish] using hfinish
    refine ⟨_, halike', fun level' hlevel' nodes r hr => henters level' hlevel' nodes r ?_⟩
    -- The operator that comes next in the result is the same one.
    obtain ⟨i, hintact, hsource, hwoven⟩ := exists_intact hready
    rw [hm, hu] at hsource
    obtain rfl := Option.some.inj hsource
    obtain ⟨draft'', htake, -⟩ := Option.bind_eq_some_iff.1 hdraft'
    obtain ⟨comments, e, token, next, htrivia, htoken, -⟩ := take_eq_some htake
    obtain rfl : i.woven = e := by
      have he : upcoming? m.woven = some e := Option.map_eq_some_iff.2 ⟨_, htrivia, rfl⟩
      exact Option.some.inj (hwoven.symm.trans he)
    obtain ⟨found', hfound⟩ := hintact.operatorAt? hop htoken
    have hdepth : operators + 1 + b = operators + b + 1 := by omega
    rw [hdepth, rules, rule, operators_eq, hwoven]
    simp only [Option.bind_eq_bind, Option.bind_some, hfound]
    rw [if_pos (Nat.le_trans hlevel' hlevel)]
    have hbinary : binary op (rules .lua (operators + b)) (.ofNode (x'.withRole .left) m.woven)
        = some draft' := hdraft'
    rw [hbinary]
    dsimp only [Option.bind_some]
    rw [hcursor]
    exact hr

end Entered

/-! ## Expressions -/

/-- What is read as an expression within a depth is entered. -/
def Enters (w : Writing) (depth : Nat) : Prop := ∀ level c nodes n, Landed c →
  rules .lua depth (.expression level) c = some (nodes, n) → ∃ x outline blunt operators,
    nodes = [x] ∧ Entered w depth operators level c x n outline blunt false ∧ 1 ≤ operators
      ∧ operators < depth ∧ (blunt = true → level ≤ 2) ∧ Stops level n

namespace Enters
variable {depth : Nat}

/-- An expression weaves. If it may have a logical operator, what follows has to be blunt. -/
theorem weaves (h : Enters w depth) (level : Nat) :
    Weaves w (.expression none level (decide (level ≤ 2)) false) (rules .lua depth (.expression level))
      fun b => rules .lua (depth + b) (.expression level) := by
  intro c nodes n hc _ hread
  obtain ⟨x, outline, blunt, operators, rfl, hentered, hpos, -, hblunt, hstops⟩ :=
    h level c nodes n hc hread
  exact ⟨⟨hentered.spans, hstops⟩, outline, (hentered.reads hpos hstops).mono (fun _ => id) id
    ⟨fun _ => id, fun h => decide_eq_true (hblunt h)⟩ rfl fun _ _ h => h⟩

/-- An expression weaves with a call around it. -/
theorem weaves_wrapped (h : Enters w depth) (level : Nat) :
    Weaves w (.expression none level true true) (rules .lua depth (.expression level))
      fun b => rules .lua (depth + b) (.expression level) := by
  intro c nodes n hc _ hread
  obtain ⟨x, outline, blunt, operators, rfl, hentered, hpos, hlt, -, hstops⟩ :=
    h level c nodes n hc hread
  exact ⟨⟨hentered.spans, hstops⟩, _, (hentered.wrap hpos hlt level).reads hpos hstops⟩

end Enters

theorem level_of_isLogicalText {op : Dialect.Infix} {u found : Cursor}
    (h : operatorAt? .lua u = some (op, found)) :
    isLogicalText op.text = decide (op.level ≤ 2) ∧ (op.level ≤ 2 → 2 ≤ floor op ∧ floor op ≤ 3)
      ∧ (2 < op.level → 3 ≤ floor op) := by
  have hall : ∀ op ∈ Dialect.wordOperators ++ Dialect.lua.markOperators,
      isLogicalText op.text = decide (op.level ≤ 2) ∧ (op.level ≤ 2 → 2 ≤ floor op ∧ floor op ≤ 3)
        ∧ (2 < op.level → 3 ≤ floor op) := by decide
  refine hall op (List.mem_append.2 ?_)
  cases hword : Lexeme.word? .lua u with
  | none => exact .inr (sees_of_operator hword h).1
  | some word => exact .inl (word_of_operatorAt? hword h).1

/-- All operators behind what has been entered are entered with it. -/
theorem Entered.operators {depth operators level : Nat} {c n m : Cursor} {x : Node}
    {outline : Outline} {blunt : Bool} {nodes : List Node} (hc : Landed c)
    (h : Entered w depth operators level c x n outline blunt false) (hlt : operators < depth)
    (hright : ∀ d < operators, Enters w d)
    (hblunt : blunt = true → level ≤ 2 ∧ Stops 3 n)
    (hread : rules .lua operators (.operators level x) n = some (nodes, m)) :
    ∃ y outline' blunt' operators', nodes = [y]
      ∧ Entered w depth operators' level c y m outline' blunt' false ∧ 1 ≤ operators'
      ∧ operators' < depth ∧ (blunt' = true → level ≤ 2) ∧ Stops level m := by
  induction operators generalizing x n outline blunt with
  | zero => cases hread
  | succ operators ih =>
    rw [rules, rule, operators_eq] at hread
    obtain ⟨u, hu, hread⟩ := Option.bind_eq_some_iff.1 hread
    have hstop (hread : some ([x], n) = some (nodes, m))
        (hstops : ∀ op found, operatorAt? .lua u = some (op, found) → op.level < level) :
        ∃ y outline' blunt' operators', nodes = [y]
          ∧ Entered w depth operators' level c y m outline' blunt' false ∧ 1 ≤ operators'
          ∧ operators' < depth ∧ (blunt' = true → level ≤ 2) ∧ Stops level m := by
      cases hread
      refine ⟨x, outline, blunt, operators + 1, rfl, h, by omega, hlt, fun hb => (hblunt hb).1, ?_⟩
      intro u' op found hu' hop
      obtain rfl : u = u' := Option.some.inj (hu.symm.trans hu')
      exact hstops op found hop
    cases hop : operatorAt? .lua u with
    | none =>
      rw [hop] at hread
      exact hstop hread (by simp [hop])
    | some found =>
      obtain ⟨op, found⟩ := found
      rw [hop] at hread
      dsimp only at hread
      split at hread
      · next hlevel =>
        obtain ⟨draft, hdraft, hread⟩ := Option.bind_eq_some_iff.1 hread
        obtain ⟨hlogical, hfloor, hfloor'⟩ := level_of_isLogicalText hop
        have henters := hright operators (Nat.lt_succ_self _)
        by_cases hle : op.level ≤ 2
        · -- A logical operator: its right operand is wrapped, and the left one if it is no link.
          have hweaves : Weaves w (.expression none (floor op) true (isLogicalText op.text))
              (rules .lua operators (.expression (floor op)))
              fun b => rules .lua (operators + b) (.expression (floor op)) := by
            rw [hlogical, decide_eq_true hle]
            exact henters.weaves_wrapped _
          have hstep {outline' : Outline} {blunt' wrapped : Bool}
              (h' : Entered w depth (operators + 1) level c x n outline' blunt' wrapped)
              (hwrapped : wrapped = !x.isLogical op.text) := by
            refine h'.step hc hu hop hlevel (fun _ => hle) ?_ hweaves hdraft
            rw [hlogical, decide_eq_true hle, Bool.true_and, hwrapped]
          have hnext : Stops (floor op) draft.cursor ∧ ∃ outline', Entered w depth operators level c
              (draft.toNode .binaryExpression) draft.cursor outline' true false := by
            cases hsame : x.isLogical op.text with
            | true => exact hstep h (by rw [hsame]; rfl)
            | false => exact hstep (h.wrap (by omega) hlt level) (by rw [hsame]; rfl)
          obtain ⟨hstops, outline', hentered⟩ := hnext
          exact ih hentered (by omega) (fun d hd => hright d (by omega))
            (fun _ => ⟨by omega, hstops.mono (hfloor hle).2⟩) hread
        · have hweaves : Weaves w (.expression none (floor op) false (isLogicalText op.text))
              (rules .lua operators (.expression (floor op)))
              fun b => rules .lua (operators + b) (.expression (floor op)) := by
            have hplain := henters.weaves (floor op)
            have hhigh := hfloor' (by omega)
            rw [hlogical, decide_eq_false hle]
            rwa [decide_eq_false (show ¬ floor op ≤ 2 by omega)] at hplain
          obtain ⟨hstops, outline', hentered⟩ := h.step hc hu hop hlevel
            (fun hb => absurd ((hblunt hb).2 u op found hu hop) (by omega))
            (by rw [hlogical, decide_eq_false hle]; rfl) hweaves hdraft
          exact ih hentered (by omega) (fun d hd => hright d (by omega)) (by simp) hread
      · next hlevel =>
        refine hstop hread fun op' found' hop' => ?_
        rw [hop] at hop'
        cases hop'
        omega

end LuaCoverage.Instrument
