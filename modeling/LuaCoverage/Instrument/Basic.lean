import LuaCoverage.Analysis.Basic
import LuaCoverage.Instrument.Call

/-!
# Instrumented modules

A module is instrumented by writing a probe call at every site of its analysis; nothing is taken
away, and no line is added. Calls around operands nest at most 32 deep, because each of them holds
registers of the function around it. The result is parsed once more if that is asked for, and has
to be UTF-8.

Results:
* `splice_nil`: without sites a source stays as it is.
-/

namespace LuaCoverage
open LuaCoverage.Text

/-- Why a module is not instrumented. -/
inductive InstrumentCause
  | tooDeep
  | notParsed
  | notUtf8 (e : Utf8.DecodeError)
  deriving DecidableEq, Repr

/-- A module that is not instrumented, or a language that cannot be parsed again. -/
inductive InstrumentError
  | failed (path : String) (cause : InstrumentCause)
  | unknownLanguage (name : String)
  deriving DecidableEq, Repr

namespace Instrument

/-- How deep calls around operands may nest. -/
def maxDepth : Nat := 32

end Instrument

def InstrumentCause.message : InstrumentCause → String
  | .tooDeep =>
    "operand wrappers nest deeper than " ++ Decimal.natText Instrument.maxDepth ++ " levels"
  | .notParsed => "instrumented source failed to parse"
  | .notUtf8 e => "source is not valid UTF-8 (" ++ e.message ++ ")"

def InstrumentError.message : InstrumentError → String
  | .failed path cause => path ++ ": " ++ cause.message
  | .unknownLanguage name => (Analysis.Cause.unknownLanguage name).message

namespace Instrument

/-- The source behind `cursor` with the text of every site written at its offset. -/
def splice (render : Site → Bytes) (source : Bytes) : (cursor : Nat) → List Site → Bytes
  | cursor, [] => source.drop cursor
  | cursor, s :: rest =>
    (source.take s.offset).drop cursor ++ render s ++ splice render source s.offset rest

@[simp] theorem splice_nil (render : Site → Bytes) (source : Bytes) :
    splice render source 0 [] = source := by
  simp [splice]

/-- Whether the calls that the sites open stay within the greatest depth. -/
def fitsDepth : (depth : Int) → List Site → Bool
  | _, [] => true
  | depth, s :: rest =>
    if s.isCloser then fitsDepth (depth - 1) rest
    else if s.isOpener then
      if depth + 1 > maxDepth then false else fitsDepth (depth + 1) rest
    else fitsDepth depth rest

end Instrument

/-- How modules are instrumented: the parser, the name of the probe function, and whether the
result is parsed once more. -/
structure Instrumenter where
  parser : Lua.Parser
  name : ProbeName
  validate : Bool

namespace Instrumenter

def bytes (i : Instrumenter) (a : Analysis) : Bytes :=
  Instrument.splice (fun s => Utf8.ofString (Call.text i.name a.map.path s)) a.source 0 a.sites

def check (i : Instrumenter) (a : Analysis) (result : Bytes) : Except InstrumentError Unit :=
  match Lua.Dialect.ofName? a.language with
  | none => .error (.unknownLanguage a.language)
  | some dialect =>
    match i.parser dialect result with
    | .ok _ => .ok ()
    | .error _ => .error (.failed a.map.path .notParsed)

def instrument (i : Instrumenter) (a : Analysis) : Except InstrumentError String := do
  if !Instrument.fitsDepth 0 a.sites then
    .error (.failed a.map.path .tooDeep)
  else
    let result := i.bytes a
    if i.validate then i.check a result
    match Utf8.decode result with
    | .ok chars => .ok (String.ofList chars)
    | .error e => .error (.failed a.map.path (.notUtf8 e))

end Instrumenter

end LuaCoverage
