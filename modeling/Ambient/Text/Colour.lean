/-!
# Colour sequences

A colour sequence is an escape character, an opening bracket, digits, semicolons and question
marks, and a letter.  A stream that is no terminal is written without them.
-/

namespace Ambient.Text

/-- What follows the rest of a colour sequence. -/
def afterColour? : List Char → Option (List Char)
  | [] => none
  | c :: cs =>
    if c.isAlpha then some cs
    else if c.isDigit || c == ';' || c == '?' then afterColour? cs
    else none

theorem length_lt_of_afterColour? {cs rest : List Char} (h : afterColour? cs = some rest) :
    rest.length < cs.length := by
  induction cs with
  | nil => cases h
  | cons c cs ih =>
    rw [afterColour?] at h
    split at h
    · cases h
      simp
    · split at h
      · have := ih h
        simp only [List.length_cons]
        omega
      · cases h

/-- A text without its colour sequences. -/
def dropColours : List Char → List Char
  | [] => []
  | '\x1b' :: '[' :: cs =>
    match _h : afterColour? cs with
    | some rest => dropColours rest
    | none => '\x1b' :: dropColours ('[' :: cs)
  | c :: cs => c :: dropColours cs
termination_by cs => cs.length
decreasing_by
  · have := length_lt_of_afterColour? _h
    simp only [List.length_cons]
    omega
  · simp
  · simp

/-- A text without its colour sequences. -/
def plain (s : String) : String :=
  String.ofList (dropColours s.toList)

end Ambient.Text
