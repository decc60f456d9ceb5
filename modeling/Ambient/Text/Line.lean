/-!
# Lines

A text is cut into lines at every character that ends a line in any convention, and a carriage
return with the line feed after it ends one line, not two.  A break at the very end opens no
further line.
-/

namespace Ambient.Text

/-- The characters that end a line. -/
def isBreak (c : Char) : Bool :=
  let n := c.toNat
  (0x0a ≤ n && n ≤ 0x0d) || (0x1c ≤ n && n ≤ 0x1e) || n == 0x85 || n == 0x2028 || n == 0x2029

/-- The lines of a text, without the characters that end them. -/
def linesOf : List Char → List (List Char)
  | [] => []
  | '\r' :: '\n' :: cs => [] :: linesOf cs
  | c :: cs =>
    if isBreak c then [] :: linesOf cs
    else
      match linesOf cs with
      | [] => [[c]]
      | l :: ls => (c :: l) :: ls

/-- The lines of a text, without the characters that end them. -/
def lines (s : String) : List String :=
  (linesOf s.toList).map String.ofList

/-- Carriage returns, alone or before a line feed, become line feeds. -/
def unifyBreaks : List Char → List Char
  | [] => []
  | '\r' :: '\n' :: cs => '\n' :: unifyBreaks cs
  | '\r' :: cs => '\n' :: unifyBreaks cs
  | c :: cs => c :: unifyBreaks cs

/-- Lines written one after another, a line feed between them. -/
def joinLines (ls : List String) : String :=
  String.intercalate "\n" ls

@[simp]
theorem linesOf_nil : linesOf [] = [] := rfl

end Ambient.Text
