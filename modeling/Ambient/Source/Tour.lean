import Ambient.Failure
import Ambient.Source.Node
import Ambient.Trail

/-!
# Tours

A tour visits a tree by a table of kinds: nodes of some kinds are recorded, nodes of others are
entered, and a node of any other kind ends the tour.
-/

namespace Ambient.Source

/-- A node as a tour records it. -/
structure Sight where
  trail : Trail
  line : Nat
  text : String

mutual

/-- Visits a node: what was recorded, and why the tour ended when it did. -/
def tour (descend leaf : List String) (trail : Trail) : Node → List Sight × Option Failure
  | ⟨k, _, text, line, _, cs⟩ =>
    let inside := trail.enter k.name
    if leaf.contains k.name then ([⟨inside, line, text⟩], none)
    else if descend.contains k.name then tourAll descend leaf inside cs
    else ([], some (.unhandled k.name inside (some line)))

/-- Visits the constructs of a list, comments aside, until the tour ends. -/
def tourAll (descend leaf : List String) (trail : Trail) :
    List Node → List Sight × Option Failure
  | [] => ([], none)
  | c :: cs =>
    if c.isNamed && !c.isComment then
      match tour descend leaf trail c with
      | (seen, some f) => (seen, some f)
      | (seen, none) =>
        let others := tourAll descend leaf trail cs
        (seen ++ others.1, others.2)
    else tourAll descend leaf trail cs

end

end Ambient.Source
