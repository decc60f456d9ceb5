/-!
# Blanks

The characters that count as white space around a text, and trimming by them.  The trimming
functions work on lists of characters; their `String` forms only convert.
-/

namespace Ambient.Text

/-- White space of every script, the four separator controls included. -/
def isBlank (c : Char) : Bool :=
  let n := c.toNat
  (0x09 ≤ n && n ≤ 0x0d) || (0x1c ≤ n && n ≤ 0x20) || n == 0x85 || n == 0xa0 || n == 0x1680 ||
    (0x2000 ≤ n && n ≤ 0x200a) || n == 0x2028 || n == 0x2029 || n == 0x202f || n == 0x205f ||
    n == 0x3000

/-- Drops the longest run at the front whose characters satisfy `p`. -/
def trimFront (p : Char → Bool) (cs : List Char) : List Char :=
  cs.dropWhile p

/-- Drops the longest run at the back whose characters satisfy `p`. -/
def trimBack (p : Char → Bool) : List Char → List Char
  | [] => []
  | c :: cs =>
    match trimBack p cs with
    | [] => if p c then [] else [c]
    | rest => c :: rest

/-- Drops such runs at both ends. -/
def trimEnds (p : Char → Bool) (cs : List Char) : List Char :=
  trimBack p (trimFront p cs)

@[simp]
theorem trimBack_nil (p : Char → Bool) : trimBack p [] = [] := rfl

theorem trimBack_append_singleton_of_neg {p : Char → Bool} (cs : List Char) {c : Char}
    (h : p c = false) : trimBack p (cs ++ [c]) = cs ++ [c] := by
  induction cs with
  | nil => simp [trimBack, h]
  | cons d ds ih =>
    rw [List.cons_append, trimBack, ih]
    cases ds <;> rfl

theorem trimBack_append_singleton_of_pos {p : Char → Bool} (cs : List Char) {c : Char}
    (h : p c = true) : trimBack p (cs ++ [c]) = trimBack p cs := by
  induction cs with
  | nil => simp [trimBack, h]
  | cons d ds ih => rw [List.cons_append, trimBack, ih, trimBack]

/-- Trimming removes nothing but what satisfies `p`. -/
theorem exists_trimBack_append (p : Char → Bool) (cs : List Char) :
    ∃ tail, cs = trimBack p cs ++ tail ∧ tail.all p := by
  induction cs with
  | nil => exact ⟨[], rfl, rfl⟩
  | cons c cs ih =>
    obtain ⟨tail, hcs, htail⟩ := ih
    rw [trimBack]
    split
    · rename_i h
      rw [h, List.nil_append] at hcs
      by_cases hc : p c = true
      · exact ⟨c :: cs, by simp [hc], by simp [hc, hcs ▸ htail]⟩
      · exact ⟨cs, by simp [hc], hcs ▸ htail⟩
    · exact ⟨tail, by rw [List.cons_append, ← hcs], htail⟩

/-- A text without the blanks at its back. -/
def trimRight (s : String) : String :=
  String.ofList (trimBack isBlank s.toList)

/-- A text without the blanks at its ends. -/
def trim (s : String) : String :=
  String.ofList (trimEnds isBlank s.toList)

/-- The empty text counts as absent. -/
def nonEmpty? (s : String) : Option String :=
  if s.isEmpty then none else some s

end Ambient.Text
