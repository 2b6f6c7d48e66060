import LuaCoverage.Text.Class.Basic
import LuaCoverage.Yaml.Fault
import LuaCoverage.Yaml.Plain

/-!
# Quoted scalars

Between single quotes only the quote itself is special and is written twice. Between double quotes
a backslash escapes. Line ends are folded as in plain scalars, whatever the indentation.

Results:
* `escape?_quote`: a quote escapes itself.
-/

namespace LuaCoverage.Yaml
open LuaCoverage.Text

/-- The character that an escape of one letter stands for. -/
def escape? : Char → Option Char
  | '0' => some '\x00'
  | 'a' => some '\x07'
  | 'b' => some '\x08'
  | 't' => some '\t'
  | '\t' => some '\t'
  | 'n' => some '\n'
  | 'v' => some '\x0b'
  | 'f' => some '\x0c'
  | 'r' => some '\r'
  | 'e' => some '\x1b'
  | ' ' => some ' '
  | '"' => some '"'
  | '\\' => some '\\'
  | '/' => some '/'
  | 'N' => some '\x85'
  | '_' => some '\xa0'
  | 'L' => some '\u2028'
  | 'P' => some '\u2029'
  | _ => none

theorem escape?_quote : escape? '"' = some '"' := rfl

/-- How many digits follow the letter of a numeric escape. -/
def escapeDigits? : Char → Option Nat
  | 'x' => some 2
  | 'u' => some 4
  | 'U' => some 8
  | _ => none

def hexNumber? (digits : List Char) : Option Nat :=
  digits.foldlM (fun n c => (hexValue? c).map fun d => n * 16 + d) 0

def charOf (n : Nat) : Except Fault Char :=
  if n < 0x110000 then
    .ok (if 0xd800 ≤ n && n < 0xe000 then '\ufffd' else Char.ofNat n)
  else .error (.codePoint (n ≥ 0x80000000))

/-- Passes over empty lines inside quotes; no document may start or end there. -/
def quotedLines : (bound : Nat) → Place → Except Fault (List Char × Place)
  | 0, p => .ok ([], p)
  | bound + 1, p =>
    if p.atDocument then .error .malformed
    else
      let p := p.dropWhile isIndent
      match p.lineEnd? with
      | none => .ok ([], p)
      | some (c, p) => do
        let (more, p) ← quotedLines bound p
        .ok (c :: more, p)

/-- What white space inside quotes stands for. -/
def quotedBetween (p : Place) : Except Fault (List Char × Place) :=
  let q := p.dropWhile isIndent
  match q.lineEnd? with
  | none => if q.rest.isEmpty then .error .malformed else .ok (p.takeWhile isIndent, q)
  | some (c, q) => do
    let (more, q) ← quotedLines (q.rest.length + 1) q
    .ok (foldedEnds c more, q)

/-- What an escape stands for, read behind its backslash. -/
def readEscape (p : Place) : Except Fault (List Char × Place) :=
  match p.char? with
  | none => .error .malformed
  | some c =>
    match escape? c, escapeDigits? c with
    | some e, _ => .ok ([e], p.next)
    | none, some n =>
      let digits := p.next.rest.take n
      match hexNumber? digits with
      | some code =>
        if digits.length = n then do
          let e ← charOf code
          .ok ([e], p.next.advance n)
        else .error .malformed
      | none => .error .malformed
    | none, none =>
      match p.lineEnd? with
      | some (_, p) => quotedLines (p.rest.length + 1) p
      | none => .error .malformed

/-- Reads behind the opening quote, up to and with the closing one. -/
def quotedRest (quote : Char) : (bound : Nat) → Place → Except Fault (List Char × Place)
  | 0, _ => .error .malformed
  | bound + 1, p =>
    let continued := fun (piece : List Char × Place) => do
      let (more, q) ← quotedRest quote bound piece.2
      .ok (piece.1 ++ more, q)
    match p.char? with
    | none => .error .malformed
    | some c =>
      if c = quote then
        if quote = '\'' && p.next.sees '\'' then continued (['\''], p.next.next)
        else .ok ([], p.next)
      else if quote = '"' && c = '\\' then do continued (← readEscape p.next)
      else if isGap (some c) then do continued (← quotedBetween p)
      else continued ([c], p.next)

def readQuoted (quote : Char) (p : Place) : Except Fault (List Char × Place) :=
  quotedRest quote (p.rest.length + 1) p.next

end LuaCoverage.Yaml
