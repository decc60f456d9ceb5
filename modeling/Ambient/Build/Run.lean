import Ambient.Build.Statement
import Ambient.Render.Module
import Ambient.Source.Program
import Ambient.Validation

/-!
# From a source to its module

A source is read into a tree, its statements build a module, and the module is validated.  The
outcome of a run keeps the module as far as it was built and all notices, whether the run failed
or not.
-/

namespace Ambient

/-- What a run leaves behind. -/
structure Outcome where
  /-- The validated module, or why there is none. -/
  result : Except Failure Module
  /-- The module as far as it was built. -/
  partialModule : Module
  log : Log

namespace Build

/-- Builds a module from the tree of a source. -/
def ofTree (resolver : Resolver) (name : String) (tree : Node) : Outcome :=
  let start : BuildState := { module := { name } }
  match (statements { resolver } [] tree.children).run.run start with
  | (.ok (), s) =>
    { result := .ok (s.module.validate resolver.extraTypes)
      partialModule := s.module
      log := s.log ++ s.module.validationLog resolver.extraTypes }
  | (.error f, s) => { result := .error f, partialModule := s.module, log := s.log }

/-- Builds the module of a source. -/
def ofSource (resolver : Resolver) (name source : String) : Outcome :=
  match Source.parse? source with
  | some tree => ofTree resolver name tree
  | none => { result := .error .malformed, partialModule := { name }, log := [] }

end Build

/-- The module of a source. -/
def moduleOf (resolver : Resolver) (name source : String) : Except Failure Module :=
  (Build.ofSource resolver name source).result

/-- The modules of several sources; the first failure counts. -/
def modulesOf (resolver : Resolver) : List (String × String) → Except Failure (List Module)
  | [] => return []
  | (name, source) :: rest => do
    let m ← moduleOf resolver name source
    let ms ← modulesOf resolver rest
    return m :: ms

end Ambient
