import Ambient.Failure

/-!
# Trails

A trail is the stack of kinds that a traversal stands in, outermost first.  Entering a construct
pushes its kind, leaving it pops, whether the construct was finished or given up.  `Visit` is a
nest of such steps: it can give up anywhere and be resumed at any level, and `Visit.run` records
the trail after every step.
-/

namespace Ambient

/-- The kinds of the constructs in progress, outermost first. -/
abbrev Trail := List String

namespace Trail

/-- The trail inside a construct. -/
def enter (t : Trail) (kind : String) : Trail :=
  t ++ [kind]

/-- The trail after leaving the innermost construct. -/
def leave (t : Trail) : Trail :=
  t.dropLast

/-- The trail as one text. -/
def text (t : Trail) : String :=
  Failure.showTrail t

@[simp]
theorem leave_enter (t : Trail) (kind : String) : (t.enter kind).leave = t := by
  simp [enter, leave]

end Trail

/-- A step of a traversal. -/
inductive Visit where
  /-- Give up. -/
  | abandon
  /-- Enter a construct, run the steps inside, leave; `resume` says whether giving up inside is
  caught here. -/
  | construct (kind : String) (body : List Visit) (resume : Bool)

namespace Visit

instance : Inhabited Visit := ⟨abandon⟩

/-- What a traversal leaves behind: the trail, the trails recorded on the way, and whether it was
given up. -/
structure Course where
  trail : Trail
  states : List Trail
  abandoned : Bool

mutual

/-- Runs one step. -/
def run (t : Trail) : Visit → Course
  | abandon => ⟨t, [], true⟩
  | construct kind body resume =>
    let inside := runAll (t.enter kind) body
    let outside := inside.trail.leave
    ⟨outside, t.enter kind :: inside.states ++ [outside], inside.abandoned && !resume⟩

/-- Runs steps until one gives up. -/
def runAll (t : Trail) : List Visit → Course
  | [] => ⟨t, [], false⟩
  | v :: vs =>
    let first := run t v
    if first.abandoned then first
    else
      let others := runAll first.trail vs
      ⟨others.trail, first.states ++ others.states, others.abandoned⟩

end

end Visit

end Ambient
