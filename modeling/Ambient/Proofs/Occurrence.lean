import Ambient.Module

/-!
# What stands in a module

A declaration holds its members, theirs, and so on; a module declares what its items and its
aggregate export hold.  `Decl.Holds` and `Module.Declares` say this without following any
traversal, so that a statement about every declaration of a module is a statement about what it
declares.  `TypeRef.Within` does the same for the arguments of a type, at every depth.  The walk
down of `TypeRef.Exposed` stops at a reference with a namespace, whose arguments are taken on trust
with it.
-/

namespace Ambient

namespace TypeRef

/-- Induction over a reference and its arguments. -/
@[elab_as_elim]
theorem induct {motive : TypeRef → Prop}
    (mk : ∀ scope name args, (∀ a ∈ args, motive a) → motive ⟨scope, name, args⟩) (t : TypeRef) :
    motive t := by
  obtain ⟨scope, name, args⟩ := t
  refine mk scope name args fun a ha => ?_
  have hlt := List.sizeOf_lt_of_mem ha
  exact induct mk a
termination_by sizeOf t

/-- The references met on the way down from `t` through references without a namespace.  A
reference with a namespace is met itself, but nothing inside it is. -/
inductive Exposed : TypeRef → TypeRef → Prop where
  | here (t : TypeRef) : Exposed t t
  | arg {t a u : TypeRef} (hscope : t.scope = none) (ha : a ∈ t.args) (hu : Exposed a u) :
      Exposed t u

/-- The reference itself and its arguments, at any depth. -/
inductive Within : TypeRef → TypeRef → Prop where
  | here (t : TypeRef) : Within t t
  | arg {t a u : TypeRef} (ha : a ∈ t.args) (hu : Within a u) : Within t u

theorem forall_within_iff {t : TypeRef} {P : TypeRef → Prop} :
    (∀ u, Within t u → P u) ↔ P t ∧ ∀ a ∈ t.args, ∀ u, Within a u → P u := by
  constructor
  · intro h
    exact ⟨h t (.here t), fun a ha u hu => h u (.arg ha hu)⟩
  · rintro ⟨ht, hargs⟩ u hu
    cases hu with
    | here => exact ht
    | arg ha hu => exact hargs _ ha u hu

end TypeRef

/-- The types of a function: those of its parameters in order, then those of its result. -/
def Callable.types (fn : Callable) : List TypeRef :=
  fn.params.flatMap Parameter.types ++ fn.result

namespace Decl

/-- The members of a class or an object. -/
def members : Decl → Table Decl
  | classDef _ _ ms _ => ms
  | object _ ms => ms
  | _ => []

/-- The declaration itself and everything among its members, at any depth. -/
inductive Holds : Decl → Decl → Prop where
  | self (d : Decl) : Holds d d
  | member {d e f : Decl} {name : String} (he : (name, e) ∈ d.members) (hf : Holds e f) :
      Holds d f

/-- The types that a declaration names itself: a class names those of its constructor, and the
types of a member are the member's. -/
def ownTypes : Decl → List TypeRef
  | binding _ ts _ => ts
  | typedef _ ts => ts
  | function fn => fn.types
  | classDef _ c _ _ => c.toList.flatMap Callable.types
  | _ => []

/-- The class that a class extends. -/
def base? : Decl → Option String
  | classDef _ _ _ b => b
  | _ => none

/-- The name that an alias stands for. -/
def target? : Decl → Option String
  | aliasOf _ t => some t
  | _ => none

end Decl

/-- A declaration stands in a module: as an item, as what the module is exported as, or inside one
of these. -/
def Module.Declares (m : Module) (d : Decl) : Prop :=
  (∃ e ∈ m.items, e.2.Holds d) ∨ ∃ a ∈ m.aggregate, a.Holds d

end Ambient
