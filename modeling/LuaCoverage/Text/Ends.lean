/-!
# The ends of texts and of lines

Dropping a class of characters from both ends of a text. A file that is read as text has one line
end: a carriage return, alone or in front of a newline, is a newline.

Results:
* `trim_nil`: nothing is left of nothing.
* `unifyNewlines_of_not_mem`: a text without carriage returns stays as it is.
-/

namespace LuaCoverage.Text

/-- Drops the characters of a class from both ends. -/
def trim (p : Char → Bool) (text : List Char) : List Char :=
  ((text.dropWhile p).reverse.dropWhile p).reverse

@[simp] theorem trim_nil (p : Char → Bool) : trim p [] = [] := rfl

/-- A text in which every line ends with a newline. -/
def unifyNewlines : List Char → List Char
  | [] => []
  | '\r' :: '\n' :: rest => '\n' :: unifyNewlines rest
  | c :: rest => (if c = '\r' then '\n' else c) :: unifyNewlines rest

theorem unifyNewlines_of_not_mem {text : List Char} (h : '\r' ∉ text) :
    unifyNewlines text = text := by
  fun_induction unifyNewlines text with
  | case1 => rfl
  | case2 rest ih => simp at h
  | case3 c rest hc ih =>
    simp only [List.mem_cons, not_or] at h
    have hne : c ≠ '\r' := fun e => h.1 e.symm
    simp [hne, ih h.2]

end LuaCoverage.Text
