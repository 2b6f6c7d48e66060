/-!
# Character classes as tables of ranges

A class of characters is a list of closed ranges of code points. The tables of this folder hold
the part of a Unicode property above ASCII; the ASCII part is written as a rule beside each.

The characters of general category `Nd` come in runs of ten, from the digit zero of a script to
its digit nine; their table lists the zeros.

Results:
* `isIn_nil`, `isIn_cons`: membership is membership in one of the ranges.
* `digitValue?_ascii`: an ASCII digit has its usual value.
-/

namespace LuaCoverage.Text

/-- Ranges of code points, both ends included. -/
abbrev Ranges := List (Nat × Nat)

/-- Whether the code point of `c` lies in one of the ranges. -/
def isIn (table : Ranges) (c : Char) : Bool :=
  table.any fun range => range.1 ≤ c.toNat && c.toNat ≤ range.2

@[simp] theorem isIn_nil (c : Char) : isIn [] c = false := rfl

theorem isIn_cons (range : Nat × Nat) (table : Ranges) (c : Char) :
    isIn (range :: table) c =
      ((range.1 ≤ c.toNat && c.toNat ≤ range.2) || isIn table c) := rfl

def isAscii (c : Char) : Bool := c.toNat < 0x80

/-- The letters `A` to `Z` and `a` to `z`. -/
def isAsciiLetter (c : Char) : Bool :=
  (0x41 ≤ c.toNat && c.toNat ≤ 0x5a) || (0x61 ≤ c.toNat && c.toNat ≤ 0x7a)

def isAsciiDigit (c : Char) : Bool := 0x30 ≤ c.toNat && c.toNat ≤ 0x39

def hexValue? (c : Char) : Option Nat :=
  let n := c.toNat
  if 0x30 ≤ n && n ≤ 0x39 then some (n - 0x30)
  else if 0x41 ≤ n && n ≤ 0x46 then some (n - 0x37)
  else if 0x61 ≤ n && n ≤ 0x66 then some (n - 0x57)
  else none

def isHexDigit (c : Char) : Bool := (hexValue? c).isSome

/-- The control characters of general category `Cc`. -/
def isControl (c : Char) : Bool := c.toNat < 0x20 || (0x7f ≤ c.toNat && c.toNat < 0xa0)

/-- The ASCII characters that are white space: blank, tab, newline and their kin. -/
def isAsciiSpace (c : Char) : Bool := c == ' ' || (0x9 ≤ c.toNat && c.toNat ≤ 0xd)

def isWhiteSpace (c : Char) : Bool :=
  isIn [(0x9, 0xd), (0x20, 0x20), (0x85, 0x85), (0xa0, 0xa0), (0x1680, 0x1680),
    (0x2000, 0x200a), (0x2028, 0x2029), (0x202f, 0x202f), (0x205f, 0x205f), (0x3000, 0x3000)] c

/-- What is stripped from the ends of a text: white space and the four separator controls. -/
def isBlank (c : Char) : Bool := isWhiteSpace c || (0x1c ≤ c.toNat && c.toNat ≤ 0x1f)

/-- The digit zero of every script that has decimal digits. -/
def digitZeros : List Nat :=
  [0x30, 0x660, 0x6f0, 0x7c0, 0x966, 0x9e6, 0xa66, 0xae6, 0xb66, 0xbe6, 0xc66, 0xce6, 0xd66,
   0xde6, 0xe50, 0xed0, 0xf20, 0x1040, 0x1090, 0x17e0, 0x1810, 0x1946, 0x19d0, 0x1a80, 0x1a90,
   0x1b50, 0x1bb0, 0x1c40, 0x1c50, 0xa620, 0xa8d0, 0xa900, 0xa9d0, 0xa9f0, 0xaa50, 0xabf0,
   0xff10, 0x104a0, 0x10d30, 0x11066, 0x110f0, 0x11136, 0x111d0, 0x112f0, 0x11450, 0x114d0,
   0x11650, 0x116c0, 0x11730, 0x118e0, 0x11950, 0x11c50, 0x11d50, 0x11da0, 0x16a60, 0x16ac0,
   0x16b50, 0x1d7ce, 0x1d7d8, 0x1d7e2, 0x1d7ec, 0x1d7f6, 0x1e140, 0x1e2f0, 0x1e950, 0x1fbf0]

/-- The value of a decimal digit of any script. -/
def digitValue? (c : Char) : Option Nat :=
  (digitZeros.find? fun first => first ≤ c.toNat && c.toNat < first + 10).map (c.toNat - ·)

def isDecimalDigit (c : Char) : Bool := (digitValue? c).isSome

theorem digitValue?_ascii (c : Char) (h : isAsciiDigit c = true) :
    digitValue? c = some (c.toNat - 0x30) := by
  have bounds : 0x30 ≤ c.toNat ∧ c.toNat ≤ 0x39 := by simpa [isAsciiDigit] using h
  have first : (decide (48 ≤ c.toNat) && decide (c.toNat < 48 + 10)) = true := by
    simp only [Bool.and_eq_true, decide_eq_true_eq]
    omega
  simp only [digitValue?, digitZeros, List.find?, first, Option.map_some]

end LuaCoverage.Text
