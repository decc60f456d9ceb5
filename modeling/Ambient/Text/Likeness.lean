/-!
# Likeness of words

How much two words have in common: the longest run that both have, and what the parts before it
and the parts behind it have in common.  Two words are alike when at least three in five of their
characters are matched in this way.
-/

namespace Ambient.Text

/-- A run of characters that stands in two words. -/
structure Run where
  left : Nat
  right : Nat
  size : Nat
  deriving DecidableEq, Repr

/-- How many characters two words begin with alike. -/
def commonStart : List Char → List Char → Nat
  | a :: as, b :: bs => if a = b then commonStart as bs + 1 else 0
  | _, _ => 0

/-- The longest run that stands in both words: the first in the left one, then in the right one. -/
def longestRun (a b : List Char) : Run :=
  (List.range a.length).foldl (fun best i =>
    (List.range b.length).foldl (fun best j =>
      let n := commonStart (a.drop i) (b.drop j)
      if best.size < n then ⟨i, j, n⟩ else best) best) ⟨0, 0, 0⟩

/-- How many characters of two words are matched. -/
def matched (a b : List Char) : Nat :=
  match longestRun a b with
  | ⟨i, j, n⟩ =>
    if 0 < n ∧ i + n ≤ a.length then
      matched (a.take i) (b.take j) + n + matched (a.drop (i + n)) (b.drop (j + n))
    else 0
termination_by a.length
decreasing_by
  · simp only [List.length_take]
    omega
  · simp only [List.length_drop]
    omega

/-- Of the characters of both words at least three in five are matched. -/
def isAlike (a b : String) : Bool :=
  3 * (a.toList.length + b.toList.length) ≤ 10 * matched a.toList b.toList

end Ambient.Text
