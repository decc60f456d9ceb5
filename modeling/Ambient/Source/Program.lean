import Ambient.Source.Statement

/-!
# Programs

A source is read by a grammar with as many layers as the source can nest.  The whole source must
be read, and no object may be left that only makes sense as a pattern.

The reading of sources is a part that can be exchanged: whatever gives a tree for a source will do,
as long as these facts hold, on which the handlers of constructs rely:

* a construct is a node, its kind says which construct it is, and the role of a child says which
  part of the construct it is;
* the children of a node stand in source order, words and punctuation among them; the text of a
  node is what was written from its first token to its last, and its line is that of the first;
* a comment is a node of its own and stands among the children of the construct in which it was
  written; one that is written before a construct stands beside it, so a declaration of variables
  begins with its keyword;
* a source has no tree when any part of it is in error.
-/

namespace Ambient.Source

open Reader

/-- The grammar one layer deeper. -/
def layer (g : Grammar) : Grammar :=
  { limit := g.limit
    expression := expression g
    operand := operand g
    statement := statement g
    element := element g }

/-- The grammar with `n` layers over `g`. -/
def layers : (n : Nat) → Grammar → Grammar
  | 0, g => g
  | n + 1, g => layers n (layer g)

/-- The first line of a script. -/
def hashBang : Reader (List Node) := do
  match ← ahead with
  | '#' :: '!' :: cs => return [← leaf .hashBangLine ((cs.takeWhile (· != '\n')).length + 2)]
  | _ => return []

/-- A program up to the end of its source. -/
def program (g : Grammar) : Reader Node := do
  let a ← get
  let line ← hashBang
  let comments ← lead
  let body ← statements g
  require (← ahead).isEmpty
  let children := line ++ comments ++ body
  let b ← get
  match children with
  | [] => return ⟨.program, none, "", b.line, b.offset, []⟩
  | c :: _ =>
    return ⟨.program, none, a.slice c.start (b.offset - c.start), c.line, c.start, children⟩

/-- The tree of a source, none when it is no program. -/
def parse? (source : String) : Option Node :=
  let cs := source.toList
  let g := layers (4 * cs.length + 16) (.empty (cs.length + 1))
  match program g (Cursor.start cs) with
  | some (tree, _) => if tree.isSound then some tree else none
  | none => none

end Ambient.Source
