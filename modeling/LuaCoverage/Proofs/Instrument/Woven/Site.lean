import LuaCoverage.Proofs.Instrument.Woven.Call

/-!
# What is read at a site

In front of a statement of a block the call that was written is read as two more statements, the
call and its semicolon. A missing `else` arm is read as an arm with such a call in it. The call
around an operand is read as a prefix expression, and what is left of it is the operand.

Results:
* `Joint.block_mark`: a block that starts with a call that was written.
* `Joint.alternatives_mark`: an `else` arm that was written.
* `Joint.expression_wrap`: a call around an operand.
-/

namespace LuaCoverage.Instrument
open LuaCoverage.Lua LuaCoverage.Text LuaCoverage.Lua.Cursor LuaCoverage.Lua.Grammar
open LuaCoverage.Analysis LuaCoverage.Decimal

namespace Joint
variable {w : Writing} {j k l m : Joint w} {depth level : Nat}

/-- Where the text of a site stands, and what stands behind it. -/
theorem goes_text {slot : Site.Slot} (h : j.Goes [.mark slot] l) : ∃ s, s.slot = slot
    ∧ j.woven = ⟨j.position, w.text s ++ l.woven.rest⟩
    ∧ l.position = j.position + width (w.text s) ∧ (j.position, l.position) ∈ w.written := by
  obtain ⟨s, hslot, -, -, hpass, hwritten⟩ := goes_mark h
  refine ⟨s, hslot, ?_, hpass.offset, hwritten⟩
  rw [← hpass.rest]
  rfl

/-- The call of a statement site: where it starts, and what it is. -/
theorem entry_statement (h : j.Goes [.mark .statement] l) : ∃ s : Site,
    j.entry = ⟨j.position + 1, glyphsOf w.name.text ++ .ofChar '(' :: (Writing.joined (w.arguments s)
      ++ .ofChar ')' :: .ofChar ';' :: l.woven.rest)⟩
    ∧ l.position = j.position + 1 + width (glyphsOf w.name.text) + 1
      + width (Writing.joined (w.arguments s)) + 2 := by
  obtain ⟨s, hslot, hwoven, hposition, -⟩ := goes_text h
  have htext : w.text s = glyphsOf " " ++ (glyphsOf w.name.text ++ (.ofChar '('
      :: (Writing.joined (w.arguments s) ++ [.ofChar ')', .ofChar ';']))) := by
    rw [w.text_eq, hslot]
    simp only [Writing.callHead, List.append_assoc]
    rfl
  refine ⟨s, ?_, ?_⟩
  · have hdrop := dropWhile_word (isWord_name w) j.position (.ofChar '('
      :: (Writing.joined (w.arguments s) ++ .ofChar ')' :: .ofChar ';' :: l.woven.rest))
    rw [entry, hwoven, htext, ← hdrop]
    simp only [List.append_assoc, List.cons_append, List.nil_append]
  · have hone : width (glyphsOf " ") = 1 ∧ (Glyph.ofChar '(').width = 1
        ∧ (Glyph.ofChar ')').width = 1 ∧ (Glyph.ofChar ';').width = 1 := by decide
    rw [hposition, htext]
    simp only [width_append, width_cons, width_nil, hone]
    omega

/-- A block may start with a call that was written. -/
theorem block_mark {closers : List String} {comments more : List Node} {next behind : Cursor}
    (h : j.Goes [.mark .statement] l) (hclosers : ∀ word ∈ closers, word ∈ reservedWords)
    (hdepth : 8 ≤ depth) (htrivia : Lexeme.trivia? l.woven = some (comments, next))
    (hmore : rules .lua depth (.block closers) next = some (more, behind)) :
    ∃ statements, Node.erasedIn w.result w.written statements = [] ∧ statements ≠ []
      ∧ rules .lua (depth + 2) (.block closers) j.entry
        = some (if more.isEmpty then (statements, l.woven)
          else (statements ++ comments ++ more, behind)) := by
  obtain ⟨-, -, -, -, -, hwritten⟩ := goes_mark h
  obtain ⟨s, hentry, hposition⟩ := entry_statement h
  obtain ⟨hne, hlength⟩ := arguments_ne_nil w s
  obtain ⟨statements, herases, hstatements, hread⟩ := block_literals (o := j.position + 1) w
    (literal_of_mem_arguments w) hne hclosers (by omega) hposition htrivia hmore
  refine ⟨statements, herases _ _ ⟨_, hwritten, by dsimp only; omega, Nat.le_refl _⟩, hstatements, ?_⟩
  rw [hentry]
  exact hread

/-- The arm of an `else` site: where the call in it starts, and what it is. -/
theorem entry_elseArm (h : j.Goes [.mark .elseArm] l) : ∃ s : Site,
    j.entry = ⟨j.position + 1, glyphsOf "else" ++ .ofChar ' ' :: (glyphsOf w.name.text
      ++ .ofChar '(' :: (Writing.joined (w.arguments s)
        ++ .ofChar ')' :: .ofChar ';' :: .ofChar ' ' :: l.woven.rest))⟩
    ∧ l.position = j.position + 6 + width (glyphsOf w.name.text) + 1
      + width (Writing.joined (w.arguments s)) + 3 := by
  obtain ⟨s, hslot, hwoven, hposition, -⟩ := goes_text h
  have htext : w.text s = glyphsOf " " ++ (glyphsOf "else" ++ .ofChar ' ' :: (glyphsOf w.name.text
      ++ (.ofChar '(' :: (Writing.joined (w.arguments s)
        ++ [.ofChar ')', .ofChar ';', .ofChar ' '])))) := by
    rw [w.text_eq, hslot]
    simp only [Writing.callHead, List.append_assoc]
    rfl
  refine ⟨s, ?_, ?_⟩
  · have hdrop := dropWhile_word isWord_else j.position (.ofChar ' ' :: (glyphsOf w.name.text
      ++ .ofChar '(' :: (Writing.joined (w.arguments s)
        ++ .ofChar ')' :: .ofChar ';' :: .ofChar ' ' :: l.woven.rest)))
    rw [entry, hwoven, htext, ← hdrop]
    simp only [List.append_assoc, List.cons_append, List.nil_append]
  · have hone : width (glyphsOf " ") = 1 ∧ width (glyphsOf "else") = 4
        ∧ (Glyph.ofChar '(').width = 1 ∧ (Glyph.ofChar ')').width = 1
        ∧ (Glyph.ofChar ';').width = 1 ∧ (Glyph.ofChar ' ').width = 1 := by decide
    rw [hposition, htext]
    simp only [width_append, width_cons, width_nil, hone]
    omega

theorem take_else (o : Nat) (rest : List Glyph) :
    (Draft.start ⟨o, glyphsOf "else" ++ .ofChar ' ' :: rest⟩).take (keyword .lua "else")
      = some ⟨⟨o + 4, .ofChar ' ' :: rest⟩, [.mk (.token "else") none o (o + 4) []]⟩ := rfl

/-- A body of some statements is taken as a block. -/
theorem take_body (draft : Draft) {table : Rules} {closers : List String} {u n : Cursor}
    {statements : List Node} (htrivia : Lexeme.trivia? draft.cursor = some ([], u))
    (hread : table (.block closers) u = some (statements, n)) (hne : statements ≠ []) :
    draft.body table closers = some ⟨n, draft.children
      ++ [((Draft.mk n statements).toNode .block).withRole .body]⟩ := by
  simp [Draft.body, htrivia, hread, hne]

/-- An `else` arm that was written is read in front of an `end`. -/
theorem alternatives_mark (h : j.Goes [.mark .elseArm] l)
    (hl : Lexeme.trivia? l.woven = some ([], l.woven))
    (hend : seesStatement .lua ["end"] l.woven = false) (hdepth : 8 ≤ depth) :
    ∃ arm e, Node.erasedIn w.result w.written [arm] = []
      ∧ Lexeme.trivia? e = some ([], l.woven)
      ∧ rules .lua (depth + 3) .alternatives j.entry = some ([arm], e) := by
  obtain ⟨-, -, -, -, -, hwritten⟩ := goes_mark h
  obtain ⟨s, hentry, hposition⟩ := entry_elseArm h
  obtain ⟨hne, hlength⟩ := arguments_ne_nil w s
  let e : Nat := j.position + 6 + width (glyphsOf w.name.text) + 1
    + width (Writing.joined (w.arguments s)) + 2
  have htrivia : Lexeme.trivia? ⟨e, .ofChar ' ' :: l.woven.rest⟩ = some ([], l.woven) := by
    have hlast : (⟨e + 1, l.woven.rest⟩ : Cursor) = l.woven := by
      have hoffset : l.woven.offset = e + 1 := by
        show l.position = e + 1
        omega
      rw [← hoffset]
    exact trivia?_blank (by rw [hlast]; exact hl)
  have hmore : rules .lua depth (.block ["end"]) l.woven = some ([], l.woven) := by
    obtain ⟨d, rfl⟩ : ∃ d, depth = d + 1 := ⟨depth - 1, by omega⟩
    rw [rules, rule, block, hend]
    rfl
  obtain ⟨statements, herases, hstatements, hread⟩ := block_literals (o := j.position + 6) w
    (literal_of_mem_arguments w) hne (by decide) (by omega) rfl htrivia hmore
  have hblank := trivia?_blank (trivia?_name (o := j.position + 6) w
    (endsWord_paren (Writing.joined (w.arguments s)
      ++ .ofChar ')' :: .ofChar ';' :: .ofChar ' ' :: l.woven.rest)))
  have htake := take_else (j.position + 1) (glyphsOf w.name.text
    ++ .ofChar '(' :: (Writing.joined (w.arguments s)
      ++ .ofChar ')' :: .ofChar ';' :: .ofChar ' ' :: l.woven.rest))
  have hword : Lexeme.wordAt .lua j.entry = "else" := by
    rw [hentry]
    rfl
  rw [← hentry] at htake
  let token : Node := .mk (.token "else") none (j.position + 1) (j.position + 5) []
  let body : Node := (Draft.mk ⟨e, .ofChar ' ' :: l.woven.rest⟩ statements).toNode .block
  have hbody := take_body ⟨⟨j.position + 5, _⟩, [token]⟩ hblank hread hstatements
  refine ⟨.mk .elseStatement none (j.position + 1) e [token, body.withRole .body],
    ⟨e, .ofChar ' ' :: l.woven.rest⟩, ?_, htrivia, ?_⟩
  · have hspan : ∃ span ∈ w.written, span.1 ≤ j.position + 1 ∧ e ≤ span.2 :=
      ⟨_, hwritten, by dsimp only; omega, by dsimp only; omega⟩
    have htoken : Erases (j.position + 1) e [token] :=
      (erases_leaf _).mono (Nat.le_refl _) (show j.position + 5 ≤ e by omega)
    have hblock : Erases (j.position + 1) e [body.withRole .body] :=
      erases_node (herases.mono (by omega) (Nat.le_refl _)) hstatements
    exact erases_node (htoken.append hblock) (by simp) _ _ hspan
  · have halternatives : rules .lua (depth + 3) .alternatives j.entry
        = alternatives .lua (rules .lua (depth + 2)) j.entry := rfl
    rw [halternatives, alternatives, hword]
    simp only [String.reduceEq, if_false, htake, Option.bind_eq_bind, Option.bind_some]
    refine (congrArg (Option.bind · _) hbody).trans ?_
    rfl

/-! ## Blunt lexemes -/

theorem Ready.exists_blunt {sight : Sight} (h : j.Ready sight) (hblunt : sight.blunt = true) :
    ∃ e, upcoming? j.woven = some e ∧ isBlunt e = true := by
  obtain ⟨i, hi, ⟨-, hintact, hsource⟩ | ⟨s, rest, hpieces, -⟩⟩ := h
  · refine ⟨_, hi, ?_⟩
    rw [hintact.entry, isBlunt, hintact.char?, hintact.pairs "::" (by decide)]
    exact hsource hblunt
  · refine ⟨_, hi, ?_⟩
    obtain ⟨ch, hch, hcases⟩ := (entry_mark hpieces).char?
    have hnone : ch ∉ ['.', ':', '(', '\x7b', '"', '\'', '[', '='] := by
      intro hmem
      simp only [List.mem_cons, List.not_mem_nil, or_false] at hmem
      rcases hcases with rfl | hstart
      · revert hmem
        decide
      · rcases hmem with rfl | rfl | rfl | rfl | rfl | rfl | rfl | rfl <;> revert hstart <;> decide
    rw [isBlunt, hch]
    simpa using Or.inr (by simpa using hnone)

end Joint

theorem char?_of_isBlunt {c : Cursor} (h : isBlunt c = true) {t : Char}
    (ht : t ∈ ['.', '(', '\x7b', '"', '\'', '[', '=']) : c.char? ≠ some t := by
  intro hchar
  rw [isBlunt, Bool.or_eq_true] at h
  rcases h with h | h
  · rw [char?_of_sees (t := ':') rfl h] at hchar
    cases hchar
    revert ht
    decide
  · rw [hchar] at h
    simp only [List.mem_cons, List.not_mem_nil, or_false] at ht
    rcases ht with rfl | rfl | rfl | rfl | rfl | rfl | rfl <;> revert h <;> decide

theorem seesArguments_of_char? {c : Cursor}
    (h : ∀ t ∈ ['(', '\x7b', '"', '\'', '['], c.char? ≠ some t) : seesArguments .lua c = false := by
  have hopen : (Lexeme.longOpen? c).isSome = false := by
    have hsees := sees_eq_false "[" rfl (h '[' (by decide))
    rw [Cursor.sees, Option.isSome_eq_false_iff, Option.isNone_iff_eq_none] at hsees
    rw [Lexeme.longOpen?_eq, hsees]
    rfl
  simp [seesArguments, seesString, Lexeme.startsString, hopen, h '"' (by decide), h '\'' (by decide),
    sees_eq_false "(" rfl (h '(' (by decide)),
    sees_eq_false "\x7b" rfl (h '\x7b' (by decide))]

/-- A prefix expression ends where nothing follows that may belong to it. -/
theorem suffixes_of_char? {c e : Cursor} {depth : Nat} {head : Node} (hc : upcoming? c = some e)
    (h : ∀ t ∈ ['.', '(', '\x7b', '"', '\'', '['], e.char? ≠ some t)
    (hcolon : (e.sees ":" && !e.sees "::") = false) :
    rules .lua (depth + 1) (.suffixes head) c = some ([head], c) := by
  have hdot := sees_eq_false "." rfl (h '.' (by decide))
  have hbracket := sees_eq_false "[" rfl (h '[' (by decide))
  have harguments := seesArguments_of_char? (c := e) fun t ht => h t (List.mem_cons_of_mem _ ht)
  simp only [rules, rule, suffixes, hc, Option.bind_eq_bind, Option.bind_some, hdot, hbracket,
    hcolon, harguments, Bool.false_and]
  rfl

/-- A prefix expression ends in front of a blunt lexeme. -/
theorem suffixes_of_isBlunt {c e : Cursor} {depth : Nat} {head : Node} (hc : upcoming? c = some e)
    (h : isBlunt e = true) :
    rules .lua (depth + 1) (.suffixes head) c = some ([head], c) := by
  refine suffixes_of_char? hc (fun t ht => char?_of_isBlunt h (List.mem_append_left ['='] ht)) ?_
  cases hsees : e.sees ":" with
  | false => rfl
  | true =>
    have hchar := char?_of_sees (t := ':') rfl hsees
    have hpair : e.sees "::" = true := by simpa [isBlunt, hchar] using h
    rw [hpair]
    rfl

namespace Joint
variable {w : Writing} {j k l m : Joint w} {depth level : Nat}

/-- The call of an opener: where it starts, and where its operand does. -/
theorem entry_opener (h : j.Goes [.mark .opener] k) : ∃ s : Site,
    j.entry = ⟨j.position + 1, glyphsOf w.name.text ++ .ofChar '(' :: (Writing.joined (w.arguments s)
      ++ .ofChar ',' :: .ofChar ' ' :: k.woven.rest)⟩
    ∧ k.position = j.position + 1 + width (glyphsOf w.name.text) + 1
      + width (Writing.joined (w.arguments s)) + 2 ∧ (w.arguments s).length = 4 := by
  obtain ⟨s, hslot, hwoven, hposition, -⟩ := goes_text h
  have htext : w.text s = glyphsOf " " ++ (glyphsOf w.name.text ++ (.ofChar '('
      :: (Writing.joined (w.arguments s) ++ [.ofChar ',', .ofChar ' ']))) := by
    rw [w.text_eq, hslot]
    simp only [Writing.callHead, List.append_assoc]
    rfl
  refine ⟨s, ?_, ?_, ?_⟩
  · have hdrop := dropWhile_word (isWord_name w) j.position (.ofChar '('
      :: (Writing.joined (w.arguments s) ++ .ofChar ',' :: .ofChar ' ' :: k.woven.rest))
    rw [entry, hwoven, htext, ← hdrop]
    simp only [List.append_assoc, List.cons_append, List.nil_append]
  · have hone : width (glyphsOf " ") = 1 ∧ (Glyph.ofChar '(').width = 1
        ∧ (Glyph.ofChar ',').width = 1 ∧ (Glyph.ofChar ' ').width = 1 := by decide
    rw [hposition, htext]
    simp only [width_append, width_cons, width_nil, hone]
    omega
  · unfold Writing.arguments
    unfold Site.slot at hslot
    cases hstyle : s.style <;> simp_all

theorem isWithin_of_mem {written : List Span} {span : Span} {o e : Nat} (h : span ∈ written)
    (ho : span.1 ≤ o) (he : e ≤ span.2) : isWithin written (o, e) = true :=
  List.any_eq_true.2 ⟨span, h, by simp [ho, he]⟩

/-- Of a call around an operand the operand is left. -/
theorem erased_callOf {head x' : Node} {nodes : List Node} {p e : Nat}
    (hhead : Node.erasedIn w.result w.written [head] = [])
    (hopen : isWithin w.written (p, p + 1) = true)
    (hnodes : Node.erasedIn w.result w.written nodes = [])
    (hclose : isWithin w.written (e, e + 1) = true) :
    Node.erased w.result w.written (callOf head (nodes ++ [x']) p e)
      = (Node.erased w.result w.written x').map (Tree.withRole none) := by
  have hmap : (Tree.withRole none) ∘ (Tree.withRole none) = Tree.withRole none := by
    funext t
    exact Node.withRole_withRole none none t
  have hfirst : head.erased w.result w.written = [] := by simpa using hhead
  have hparen := Node.erased_of_within w.result (.token "(") none hopen
  have hlast := Node.erased_of_within w.result (.token ")") none hclose
  rw [callOf, Node.erased_call rfl hfirst, Node.erasedIn_cons, Node.erasedIn_nil, List.append_nil,
    argumentsOf, List.cons_append, Node.erased_call rfl hparen, List.map_map, hmap]
  simp [hnodes, hlast]

theorem Starts.trivia? {allow : Site.Slot → Prop} (h : k.Starts allow) :
    Lexeme.trivia? k.woven = some ([], k.entry) ∧ Lexeme.trivia? k.entry = some ([], k.entry) := by
  refine ⟨?_, trivia?_of_lands h.lands h.comment⟩
  have hcomment : Lexeme.comment? (k.woven.dropWhile Lexeme.isSpace) = none := h.comment
  unfold Lexeme.trivia?
  cases hrest : k.woven.rest with
  | nil =>
    have hentry : k.entry = k.woven := dropFrom_eq_of_head _ (by rw [hrest]; rfl)
    rw [hentry]
    rfl
  | cons g rest =>
    simp only [Lexeme.triviaWithin, hcomment]
    rfl

/-- A call around an operand is read as a prefix expression of which the operand is left. -/
theorem expression_wrap (depth : Nat) {x' : Node} {sight : Sight} {allow : Site.Slot → Prop}
    (hjk : j.Goes [.mark .opener] k) (hlm : l.Goes [.mark .closer] m) (hk : k.Starts allow)
    (hread : rules .lua (depth + 2) (.expression 0) k.entry = some ([x'], l.woven))
    (hm : m.Ready sight) (hblunt : sight.blunt = true) :
    ∃ call : Node, Node.erased w.result w.written call
        = (Node.erased w.result w.written x').map (Tree.withRole none)
      ∧ ∀ level r, rules .lua (depth + 8) (.operators level call) m.woven = some r →
        rules .lua (depth + 9) (.expression level) j.entry = some r := by
  obtain ⟨-, -, -, -, -, hopened⟩ := goes_mark hjk
  obtain ⟨-, -, -, -, -, hclosed⟩ := goes_mark hlm
  obtain ⟨s, hentry, hposition, hlength⟩ := entry_opener hjk
  have hargs := literal_of_mem_arguments w (s := s)
  obtain ⟨hne, -⟩ := arguments_ne_nil w s
  obtain ⟨s', hslot, hwoven, hoffset, -⟩ := goes_text hlm
  rw [w.text_eq, hslot] at hwoven hoffset
  have hclose : l.woven = ⟨l.position, .ofChar ')' :: m.woven.rest⟩ := hwoven
  have hbehind : m.woven = ⟨l.position + 1, m.woven.rest⟩ := by
    have hm : m.woven.offset = l.position + 1 := hoffset
    rw [← hm]
  -- The operand is the last of the arguments.
  have hlist : rules .lua (depth + 3) (.separated .expression) k.entry = some ([x'], l.woven) := by
    refine separated_of_last (rules .lua (depth + 2)) hk.trivia?.2 hread ?_ ?_
    · rw [hclose]
      rfl
    · rw [hclose]
      rfl
  generalize ha : j.position + 1 + width (glyphsOf w.name.text) = a at *
  have hblank : Lexeme.trivia? ⟨a + 1 + width (Writing.joined (w.arguments s)) + 1,
      .ofChar ' ' :: k.woven.rest⟩ = some ([], k.entry) := by
    refine trivia?_blank ?_
    have hcursor : k.woven = ⟨a + 1 + width (Writing.joined (w.arguments s)) + 1 + 1, k.woven.rest⟩ := by
      have hk : k.woven.offset = a + 1 + width (Writing.joined (w.arguments s)) + 1 + 1 := hposition
      rw [← hk]
    rw [← hcursor]
    exact hk.trivia?.1
  obtain ⟨nodes, hnodes, hall⟩ := separated_before depth hargs hne hblank hlist
  rw [hlength] at hall
  have htrivia := trivia?_joined (o := a + 1) hargs hne (.ofChar ',' :: .ofChar ' ' :: k.woven.rest)
  have hfirst := sees_of_isStart (isStart_of_separated htrivia hall) ")" rfl (by decide)
  let call := callOf (nameNode w (j.position + 1)) (nodes ++ [x']) a l.position
  have hsuffixes : rules .lua (depth + 8) (.suffixes (nameNode w (j.position + 1)))
      ⟨a, .ofChar '(' :: (Writing.joined (w.arguments s)
        ++ (.ofChar ',' :: .ofChar ' ' :: k.woven.rest))⟩ = some ([call], m.woven) := by
    obtain ⟨e, he, hisBlunt⟩ := hm.exists_blunt hblunt
    have hcall := suffixes_call (nameNode w (j.position + 1)) htrivia hfirst hall
      (show l.woven.rest = .ofChar ')' :: m.woven.rest by rw [hclose])
    rw [hcall]
    have hcursor : (⟨l.woven.offset + 1, m.woven.rest⟩ : Cursor) = m.woven := hbehind.symm
    rw [hcursor]
    exact suffixes_of_isBlunt he hisBlunt
  refine ⟨call, erased_callOf ?_ ?_ ?_ ?_, fun level r hr => ?_⟩
  · exact erases_leaf _ _ _ ⟨_, hopened, by dsimp only; omega, by dsimp only; omega⟩
  · exact isWithin_of_mem hopened (by dsimp only; omega) (by dsimp only; omega)
  · exact hnodes _ _ ⟨_, hopened, by dsimp only; omega, by dsimp only; omega⟩
  · exact isWithin_of_mem hclosed (Nat.le_refl _) (Nat.le_of_eq hoffset.symm)
  · have hsimple : simpleExpression .lua (rules .lua (depth + 8)) j.entry = some ([call], m.woven) := by
      rw [hentry, simpleExpression_name w (endsWord_paren _),
        prefixExpression_name w _ (endsWord_paren _), ha, hsuffixes]
    have hunary : unaryAt? .lua j.entry = none := by
      rw [hentry]
      exact unaryAt?_name w (endsWord_paren _)
    rw [rules, rule, expression, hunary]
    simp only [hsimple, Option.bind_eq_bind, Option.bind_some]
    exact hr

end Joint

end LuaCoverage.Instrument
