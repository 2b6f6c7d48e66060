import LuaCoverage.Config.Problem
import LuaCoverage.Instrument.Call
import LuaCoverage.Instrument.Prelude
import LuaCoverage.Proofs.Lua.Front
import LuaCoverage.Proofs.Lua.Moved.Grammar

/-!
# Probe names and well-formed Lua

A text is taken for a probe name if it is an identifier. That is more than a name of Lua: an
identifier may hold letters of any script, and it may be a word that Lua reserves. A probe call and
the assignments of the prelude are well-formed exactly for those that are names.

Results:
* `Prelude.text_eq`: the two assignments in the prelude.
* `wellFormed_call_iff`, `IsValue.wellFormed_iff`: when calls and assignments are well-formed.
* `ProbeName.wellFormed_iff_isName`: what is accepted, and what of it is well-formed.
-/

namespace LuaCoverage
open LuaCoverage.Lua LuaCoverage.Text

/-! ## The texts -/

namespace Prelude

def unlines (lines : List String) : String := String.join (lines.map fun line => line ++ "\n")

def probeFunction : List String :=
  "function(path, kind, id, arm, ...)" :: (lines .standard).extract 24 31

def dumpFunction : List String := "function()" :: (lines .standard).drop 48

def probeAssignment (name : ProbeName) : String := name.text ++ " = " ++ unlines probeFunction

/-- The assignment of the function that prints the counts. -/
def dumpAssignment (name : ProbeName) : String := name.text ++ "_dump = " ++ unlines dumpFunction

theorem unlines_append (a b : List String) : unlines (a ++ b) = unlines a ++ unlines b := by
  simp [unlines, String.join_append]

theorem toList_unlines (lines : List String) :
    (unlines lines).toList = lines.flatMap fun line => line.toList ++ ['\n'] := by
  simp [unlines, String.toList_join, List.flatMap_map]

theorem toList_probeAssignment (name : ProbeName) : (probeAssignment name).toList
    = name.text.toList ++ equalsThen (unlines probeFunction).toList := by
  simp [probeAssignment, equalsThen]

theorem toList_dumpAssignment (name : ProbeName) : (dumpAssignment name).toList
    = (name.text.toList ++ "_dump".toList) ++ equalsThen (unlines dumpFunction).toList := by
  simp [dumpAssignment, equalsThen]

/-- The first lines of the assignments are those of the functions behind the names. -/
theorem unlines_lines (name : ProbeName) :
    unlines ((lines name).extract 23 31) = probeAssignment name
      ∧ unlines ((lines name).drop 47) = dumpAssignment name := by
  have hprobe : (lines name).extract 23 31
    = (name.text ++ " = function(path, kind, id, arm, ...)")
      :: (lines .standard).extract 24 31 := rfl
  have hdump : (lines name).drop 47
    = (name.text ++ "_dump = function()") :: (lines .standard).drop 48 := rfl
  constructor
  · rw [← String.toList_inj, toList_probeAssignment, hprobe]
    simp only [probeFunction, toList_unlines, List.flatMap_cons, String.toList_append,
      String.reduceToList, equalsThen, List.append_assoc, List.cons_append, List.nil_append]
  · rw [← String.toList_inj, toList_dumpAssignment, hdump]
    simp only [dumpFunction, toList_unlines, List.flatMap_cons, String.toList_append,
      String.reduceToList, equalsThen, List.append_assoc, List.cons_append, List.nil_append]

/-- The two assignments stand on lines of their own in the prelude. -/
theorem text_eq (name : ProbeName) : text name
    = unlines ((lines name).take 23) ++ probeAssignment name
      ++ unlines ((lines name).extract 31 47) ++ dumpAssignment name := by
  have hlines : lines name = (lines name).take 23 ++ (lines name).extract 23 31
    ++ (lines name).extract 31 47 ++ (lines name).drop 47 := rfl
  obtain ⟨hprobe, hdump⟩ := unlines_lines name
  rw [← hprobe, ← hdump, ← unlines_append, ← unlines_append, ← unlines_append, ← hlines]
  rfl

end Prelude

/-- What stands behind the name in a call of the probe. -/
def callTail : List Char :=
  ['(', '"', 'p', '"', ',', ' ', '"', 's', '"', ',', ' ', '0', ')', ';']

theorem toList_alone (name : ProbeName) (offset : Nat) (depth : Int) :
    (Call.alone name "p" ⟨offset, depth, .statement, .statement, 0, none⟩).toList
      = name.text.toList ++ callTail := by
  have hpath : (Lua.quote "p").toList = ['"', 'p', '"'] := by
    simp [Lua.quote, quoteChars, quoteChar]
  have hid : (Decimal.intText 0).toList = ['0'] := by
    have hdigits : Decimal.digits 0 = ['0'] := by
      rw [Decimal.digits]
      rfl
    rw [Decimal.intText, String.toList_ofList]
    exact hdigits
  simp [Call.alone, Call.opening, ProbeKind.code, String.toList_append, hpath, hid, callTail]

/-! ## A call -/

section
variable {word : List Char}

/-- The call that a word with `callTail` behind it is read as. -/
def callNode (word : List Char) : Node :=
  let o := (Utf8.encode word).length
  .mk .functionCall none 0 (o + 13) [Fronts.node word 0,
    .mk .arguments none o (o + 13) [.mk (.token "(") none o (o + 1) [],
      .mk .string none (o + 1) (o + 4) [], .mk (.token ",") none (o + 4) (o + 5) [],
      .mk .string none (o + 6) (o + 9) [], .mk (.token ",") none (o + 9) (o + 10) [],
      .mk .number none (o + 11) (o + 12) [], .mk (.token ")") none (o + 12) (o + 13) []]]

/-- The semicolon behind it, a statement of its own. -/
def semicolonNode (word : List Char) : Node :=
  let o := (Utf8.encode word).length
  .mk .emptyStatement none (o + 13) (o + 14) [.mk (.token ";") none (o + 13) (o + 14) []]

open Grammar

theorem expressionStatement_call (depth : Nat) (h : Fronts word callTail) :
    expressionStatement .lua (rules .lua (depth + 10)) (.before 0 (word ++ callTail))
      = some ([callNode word], .before ((Utf8.encode word).length + 13) [';']) := by
  have hsuffixes : rules .lua (depth + 10) (.suffixes (Fronts.node word 0))
      (.before (Utf8.encode word).length callTail)
      = some ([callNode word], .before ((Utf8.encode word).length + 13) [';']) := rfl
  rw [expressionStatement, h.prefixExpression, Nat.zero_add, hsuffixes]
  rfl

/-- A call of the probe is well-formed if and only if its name is a name of Lua. -/
theorem wellFormed_call_iff (hword : isIdentifier word = true) :
    WellFormed .functionCall (Utf8.encode (word ++ callTail)) ↔ isName word = true := by
  have h : Fronts word callTail := by
    refine ⟨hword, fun c hc => ?_⟩
    cases hc
    decide
  by_cases hstatement : String.ofList word ∈ Dialect.lua.statementWords
  · have hnone : ∀ w ∈ Dialect.lua.statementWords,
        (Node.ofSource? .lua (Utf8.encode (w.toList ++ callTail))).isNone = true := by
      decide +kernel
    have hword := hnone _ hstatement
    rw [String.toList_ofList] at hword
    exact wellFormed_iff_of_isNone hword hstatement
  · obtain ⟨depth, hdepth⟩ : ∃ depth, depthFor (word ++ callTail).length = depth + 10 + 2 := by
      refine ⟨16 * word.length + 244, ?_⟩
      simp only [depthFor, callTail, List.length_append, List.length_cons, List.length_nil]
      omega
    have hsemicolon : rules .lua (depth + 10 + 1) (.block [])
        (.before ((Utf8.encode word).length + 13) [';'])
        = some ([semicolonNode word], .before ((Utf8.encode word).length + 14) []) := rfl
    have htree := h.ofSource? hstatement hdepth (expressionStatement_call depth h) rfl hsemicolon
      rfl nofun
    have hidentifiers : Node.identifiersIn [callNode word, semicolonNode word]
      = [Fronts.node word 0] := rfl
    exact wellFormed_iff htree hidentifiers nofun

end

/-! ## An assignment -/

section
variable {word value : List Char}

open Grammar

/-- Whether a text is read as the values of an assignment up to the end of a line, all identifiers
in it being names. -/
def readsNames (value : List Char) : Bool :=
  match expressionList (rules .lua 70) (.before 3 value) with
  | some ([values], behind) => behind.rest == [Glyph.ofChar '\n']
    && values.identifiers.all (Node.spellsName (Utf8.encode (equalsThen value)))
  | _ => false

/-- A text is a value: it is read behind a name, and not behind the words that start a statement of
their own. -/
structure IsValue (value : List Char) : Prop where
  starts : value.head? = some 'f'
  reads : readsNames value = true
  refused : ∀ w ∈ Dialect.lua.statementWords,
    (Node.ofSource? .lua (Utf8.encode (w.toList ++ equalsThen value))).isNone = true

namespace IsValue
variable (hvalue : IsValue value)
include hvalue

/-- What a value is read as behind a word: all identifiers in it are names there too. -/
theorem exists_values {depth : Nat} (hdepth : 70 ≤ depth) (word : List Char) : ∃ values stop,
    expressionList (rules .lua depth) ((Cursor.before 3 value).move (Utf8.encode word).length)
      = some ([values], .before stop ['\n'])
    ∧ ∀ n ∈ values.identifiers,
      n.spellsName (Utf8.encode (word ++ equalsThen value)) = true := by
  have hreads := hvalue.reads
  unfold readsNames at hreads
  split at hreads
  · next values behind hread =>
    obtain ⟨offset, rest⟩ := behind
    rw [Bool.and_eq_true, beq_iff_eq, List.all_eq_true] at hreads
    obtain ⟨rfl, hnames⟩ := hreads
    have hmoved := moves_expressionList (moves_rules (k := (Utf8.encode word).length) hdepth)
      _ _ hread
    refine ⟨values.move (Utf8.encode word).length, (Utf8.encode word).length + offset, hmoved, ?_⟩
    rw [Node.identifiers_move]
    refine List.forall_mem_map.2 fun n hn => ?_
    rw [Utf8.encode_append, Node.spellsName_move]
    exact hnames n hn
  · cases hreads

theorem trivia? (offset : Nat) :
    Lexeme.trivia? (.before offset (' ' :: value)) = some ([], .before (offset + 1) value) := by
  obtain ⟨more, rfl⟩ := List.head?_eq_some_iff.1 hvalue.starts
  rfl

/-- The assignment of a value to a word is well-formed if and only if the word is a name of Lua. -/
theorem wellFormed_iff (hword : isIdentifier word = true) :
    WellFormed .assignmentStatement (Utf8.encode (word ++ equalsThen value))
      ↔ isName word = true := by
  by_cases hstatement : String.ofList word ∈ Dialect.lua.statementWords
  · have hnone := hvalue.refused _ hstatement
    rw [String.toList_ofList] at hnone
    exact wellFormed_iff_of_isNone hnone hstatement
  · have h : Fronts word (equalsThen value) := by
      refine ⟨hword, fun c hc => ?_⟩
      cases hc
      decide
    obtain ⟨depth, hdepth, hdeep⟩ : ∃ depth,
        depthFor (word ++ equalsThen value).length = depth + 1 + 2 ∧ 70 ≤ depth + 1 := by
      refine ⟨16 * (word ++ equalsThen value).length + 29, ?_, ?_⟩
      · simp only [depthFor]
        omega
      · simp only [equalsThen, List.length_append, List.length_cons]
        omega
    obtain ⟨values, stop, hread, hnames⟩ := hvalue.exists_values hdeep word
    have hend : rules .lua (depth + 1 + 1) (.block []) (.before (stop + 1) [])
        = some ([], .before (stop + 1) []) := rfl
    have htree := h.ofSource? hstatement hdepth (h.assignment hvalue.trivia? hread) rfl hend rfl
      fun _ => rfl
    refine Lua.wellFormed_iff htree ?_ hnames
    simp [Node.identifiers, targetNode, equalsNode, Node.identifiersIn, Fronts.node]

end IsValue

end

namespace Prelude

theorem isValue_probeFunction : IsValue (unlines probeFunction).toList := by
  rw [toList_unlines]
  simp only [probeFunction, lines, List.extract_eq_take_drop, Nat.reduceSub, List.drop_succ_cons,
    List.drop_zero, List.take_succ_cons, List.take_zero, List.flatMap_cons, List.flatMap_nil,
    String.reduceToList]
  exact ⟨rfl, by decide +kernel, by decide +kernel⟩

theorem isValue_dumpFunction : IsValue (unlines dumpFunction).toList := by
  rw [toList_unlines]
  simp only [dumpFunction, lines, Dump.marker, List.drop_succ_cons, List.drop_zero,
    List.flatMap_cons, List.flatMap_nil, String.toList_append, String.reduceToList]
  exact ⟨rfl, by decide +kernel, by decide +kernel⟩

/-- The assignment of the probe function is well-formed if and only if its name is a name of Lua. -/
theorem wellFormed_probeAssignment_iff (name : ProbeName) :
    WellFormed .assignmentStatement (Utf8.ofString (probeAssignment name))
      ↔ isName name.text.toList = true := by
  rw [Utf8.ofString, toList_probeAssignment]
  exact isValue_probeFunction.wellFormed_iff name.isIdentifier

theorem isIdentifier_append {a b : List Char} (ha : isIdentifier a = true)
    (hb : b.all isIdentifierPart = true) : isIdentifier (a ++ b) = true := by
  cases a with
  | nil => cases ha
  | cons c rest =>
    rw [isIdentifier, Bool.and_eq_true] at ha
    rw [List.cons_append, isIdentifier, List.all_append, ha.1, ha.2, hb]
    rfl

/-- The assignment of the function that prints the counts is well-formed if and only if the name of
the probe is ASCII, since no reserved word ends as its name does. -/
theorem wellFormed_dumpAssignment_iff (name : ProbeName) :
    WellFormed .assignmentStatement (Utf8.ofString (dumpAssignment name))
      ↔ name.text.toList.all isAscii = true := by
  have hidentifier : isIdentifier (name.text.toList ++ "_dump".toList) = true :=
    isIdentifier_append name.isIdentifier (by decide +kernel)
  have hascii : "_dump".toList.all isAscii = true := by decide +kernel
  have hlast : ∀ w ∈ reservedWords, w.toList.getLast? ≠ some 'p' := by decide +kernel
  have hreserved : String.ofList (name.text.toList ++ "_dump".toList) ∉ reservedWords := by
    intro hmem
    exact hlast _ hmem (by simp)
  rw [Utf8.ofString, toList_dumpAssignment, isValue_dumpFunction.wellFormed_iff hidentifier,
    isName_iff, List.all_append, hascii, Bool.and_true]
  exact ⟨fun h => h.2.1, fun h => ⟨hidentifier, h, hreserved⟩⟩

end Prelude

/-! ## Probe names -/

theorem Config.probeName_notMem_negativeProblem (e : InvalidName) (key : String) (n : Int) :
    ConfigProblem.probeName e ∉ negativeProblem key n := by
  unfold negativeProblem
  split <;> simp

/-- The validation of a configuration is content with the same names. -/
theorem Config.probeName_notMem_problems_iff (c : Config) :
    (∀ e, ConfigProblem.probeName e ∉ c.problems)
      ↔ Text.isIdentifier c.instrument.probeName.toList = true := by
  rw [← ProbeName.ofString?_eq_ok_iff]
  cases hname : ProbeName.ofString? c.instrument.probeName with
  | ok name => simp [problems, instrumentProblems, probeName_notMem_negativeProblem, hname]
  | error e =>
    have hmem : ConfigProblem.probeName e ∈ c.problems := by
      simp [problems, instrumentProblems, hname]
    refine ⟨fun h => absurd hmem (h e), ?_⟩
    rintro ⟨name, ⟨⟩⟩

namespace ProbeName

/-- What is accepted as a probe name is an identifier. It is a name of Lua if it is ASCII and no
reserved word, and for no other name a call of the probe is well-formed, nor is the assignment of
the probe function in the prelude. The second assignment is to a longer word, which is never
reserved. -/
theorem wellFormed_iff_isName (text : String) (c : Config) (name : ProbeName) :
    ((∃ accepted, ofString? text = .ok accepted) ↔ Text.isIdentifier text.toList = true)
    ∧ ((∀ e, ConfigProblem.probeName e ∉ c.problems)
      ↔ Text.isIdentifier c.instrument.probeName.toList = true)
    ∧ (isName name.text.toList = true
      ↔ name.text.toList.all isAscii = true ∧ name.text ∉ reservedWords)
    ∧ (∀ offset depth, WellFormed .functionCall (Utf8.ofString
        (Call.alone name "p" ⟨offset, depth, .statement, .statement, 0, none⟩))
      ↔ isName name.text.toList = true)
    ∧ (∃ front middle, Prelude.text name = Prelude.unlines front ++ Prelude.probeAssignment name
      ++ Prelude.unlines middle ++ Prelude.dumpAssignment name)
    ∧ (WellFormed .assignmentStatement (Utf8.ofString (Prelude.probeAssignment name))
      ↔ isName name.text.toList = true)
    ∧ (WellFormed .assignmentStatement (Utf8.ofString (Prelude.dumpAssignment name))
      ↔ name.text.toList.all isAscii = true) := by
  refine ⟨ofString?_eq_ok_iff text, Config.probeName_notMem_problems_iff c, ?_, ?_,
    ⟨_, _, Prelude.text_eq name⟩, Prelude.wellFormed_probeAssignment_iff name,
    Prelude.wellFormed_dumpAssignment_iff name⟩
  · rw [isName_iff, String.ofList_toList]
    simp [name.isIdentifier]
  · intro offset depth
    rw [Utf8.ofString, toList_alone]
    exact wellFormed_call_iff name.isIdentifier

/-- A reserved word is accepted everywhere, and what is written for it is no Lua. -/
theorem accepts_end : ∃ name, ofString? "end" = .ok name
    ∧ { Config.standard "" with
        instrument := { InstrumentOptions.standard with probeName := "end" } }.problems = []
    ∧ isName name.text.toList = false
    ∧ ¬WellFormed .functionCall
        (Utf8.ofString (Call.alone name "p" ⟨0, 0, .statement, .statement, 0, none⟩))
    ∧ ¬WellFormed .assignmentStatement (Utf8.ofString (Prelude.probeAssignment name)) := by
  have hidentifier : Text.isIdentifier "end".toList = true := by decide +kernel
  have hname : isName "end".toList = false := by decide +kernel
  have hok : ofString? "end" = .ok ⟨"end", hidentifier⟩ := dif_pos hidentifier
  refine ⟨⟨"end", hidentifier⟩, hok, ?_, hname, ?_, ?_⟩
  · simp only [Config.problems, Config.instrumentProblems, hok]
    simp [Config.standard, InstrumentOptions.standard, ReportOptions.standard,
      StatsDefaults.standard, Scope.standardIncludes, Config.negativeProblem, Lua.Dialect.ofName?]
  · rw [Utf8.ofString, toList_alone, wellFormed_call_iff hidentifier, hname]
    exact Bool.false_ne_true
  · rw [Prelude.wellFormed_probeAssignment_iff, hname]
    exact Bool.false_ne_true

end ProbeName

end LuaCoverage
