import Ambient.Proofs.Occurrence
import Ambient.Proofs.Render.Line
import Ambient.Proofs.Render.Unbroken

/-!
# The blocks of a declaration file

A declaration file is cut at its empty rows.  No line of a block is empty, whatever the texts of the
module are: documentation has its gutter, a diagnostic its mark, and code at least the character
that ends it.  So the cut gives the blocks back: the header, one block for each item in order, and
one for the aggregate export.
-/

namespace Ambient.Render

open Ambient.Text

/-! ### Lines that say something -/

/-- What is written behind the last block belongs to it. -/
theorem intercalate_append (front : List (List String)) (last ls : List String) :
    [""].intercalate (front ++ [last]) ++ ls = [""].intercalate (front ++ [last ++ ls]) := by
  induction front with
  | nil => simp
  | cons b front ih =>
      rw [List.cons_append, List.cons_append, List.intercalate_cons_of_ne_nil (by simp),
        List.intercalate_cons_of_ne_nil (by simp), List.append_assoc, ih]

end Ambient.Render
