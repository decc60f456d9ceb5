/-!
# Cutting a text in two

A cut keeps what stands before and after one separating character and drops that character.  Both
directions are defined by recursion on the characters, so that a cut is undone by writing the
separator back.
-/

namespace Ambient.Text

/-- The parts around the first character satisfying `p`. -/
def cutFirst? (p : Char → Bool) : List Char → Option (List Char × List Char)
  | [] => none
  | c :: cs => if p c then some ([], cs) else (cutFirst? p cs).map fun ab => (c :: ab.1, ab.2)

/-- The parts around the last character satisfying `p`. -/
def cutLast? (p : Char → Bool) : List Char → Option (List Char × List Char)
  | [] => none
  | c :: cs =>
    match cutLast? p cs with
    | some ab => some (c :: ab.1, ab.2)
    | none => if p c then some ([], cs) else none

/-- What follows `word` at the front of a text. -/
def after? : List Char → List Char → Option (List Char)
  | [], cs => some cs
  | _ :: _, [] => none
  | w :: ws, c :: cs => if w = c then after? ws cs else none

/-- The parts of a text around the first `sep`. -/
def splitFirst? (sep : Char) (s : String) : Option (String × String) :=
  (cutFirst? (· == sep) s.toList).map fun ab => (String.ofList ab.1, String.ofList ab.2)

/-- The parts of a text around the last `sep`. -/
def splitLast? (sep : Char) (s : String) : Option (String × String) :=
  (cutLast? (· == sep) s.toList).map fun ab => (String.ofList ab.1, String.ofList ab.2)

/-- The text has the character `c`. -/
def hasChar (c : Char) (s : String) : Bool :=
  s.toList.any (· == c)

/-- The text begins with `word`. -/
def startsWith (word s : String) : Bool :=
  (after? word.toList s.toList).isSome

/-- What stands before `word` at the back of a text. -/
def before? (word s : String) : Option String :=
  (after? word.toList.reverse s.toList.reverse).map fun cs => String.ofList cs.reverse

/-- The pieces of a text between separating characters; there is one more piece than separators. -/
def piecesOf (p : Char → Bool) : List Char → List (List Char)
  | [] => [[]]
  | c :: cs =>
    if p c then [] :: piecesOf p cs
    else
      match piecesOf p cs with
      | [] => [[c]]
      | l :: ls => (c :: l) :: ls

theorem cutFirst?_append_cons {p : Char → Bool} {a : List Char} {c : Char} (b : List Char)
    (ha : ∀ x ∈ a, p x = false) (hc : p c = true) :
    cutFirst? p (a ++ c :: b) = some (a, b) := by
  induction a with
  | nil => simp [cutFirst?, hc]
  | cons x a ih =>
    simp [cutFirst?, ha x (by simp), ih fun y hy => ha y (by simp [hy])]

theorem after?_append (word rest : List Char) : after? word (word ++ rest) = some rest := by
  induction word with
  | nil => rfl
  | cons w ws ih => simp [after?, ih]

theorem eq_append_of_after? {word cs rest : List Char} (h : after? word cs = some rest) :
    cs = word ++ rest := by
  induction word generalizing cs with
  | nil => simpa [after?] using h
  | cons w ws ih =>
    cases cs with
    | nil => simp [after?] at h
    | cons c cs =>
      rw [after?] at h
      split at h
      · rename_i hw
        rw [List.cons_append, ← ih h, hw]
      · cases h

end Ambient.Text
