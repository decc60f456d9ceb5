import Ambient.Proofs.Build.Trace

/-!
# Readings do not depend on the state

The declaration that a value without assignments stands for is decided by the value, the comment
that documents it and the loading functions: neither the state nor the trail has a part in it.
`Alike x y` says that two steps succeed together, with equal results, from any two states; the
trail only shows in the failure of a step that fails.  A value is always read as a local
declaration: what exports it is where it is registered.
-/

namespace Ambient

/-- No assignment stands in the node, outside the functions in it. -/
def Node.AssignmentFree (n : Node) : Prop :=
  ∀ e, n.Contains e → e.kind ≠ .assignmentExpression

theorem Node.AssignmentFree.allows {P : Act → Prop} {n : Node} (h : n.AssignmentFree) :
    Build.Allows P n := by
  rintro path ⟨e, he, hk, _⟩
  exact (h e he hk).elim

namespace Build

variable {α β : Type}

/-- Two steps that succeed together and with equal results, from any two states. -/
def Alike (x y : Build α) : Prop :=
  ∀ s t, (runFrom x s).1.toOption = (runFrom y t).1.toOption

theorem Alike.bind {x y : Build α} {f g : α → Build β} (hx : Alike x y)
    (hf : ∀ a, Alike (f a) (g a)) : Alike (x >>= f) (y >>= g) := by
  intro s t
  have hst := hx s t
  rw [runFrom_bind, runFrom_bind]
  rcases hs : runFrom x s with ⟨_ | a, s'⟩ <;> rcases ht : runFrom y t with ⟨_ | b, t'⟩ <;>
    rw [hs, ht] at hst
  · rfl
  · cases hst
  · cases hst
  · cases hst
    exact hf a s' t'

theorem runFrom_readComment_result (n : Node) (s : BuildState) :
    (runFrom (readComment n) s).1 = .ok (Doc.Comment.read n.text) := by
  rw [readComment, runFrom_bind_of_ok (runFrom_get s)]
  split
  · rfl
  · rfl

theorem congruence_alike : Congruence Node.SameCode Context.Alike fun _ x y => Alike x y where
  toLikeness := Node.likeness_sameCode
  toAgreement := Context.agreement_alike
  pure _ := fun _ _ => rfl
  throw _ := fun _ _ => rfl
  unhandled _ _ := fun _ _ => rfl
  bind := .bind
  notify := fun _ _ => rfl
  readComment h := fun s t => by
    rw [runFrom_readComment_result, runFrom_readComment_result, h]

/-- A value without assignments is read alike wherever it stands. -/
theorem alike_value {n : Node} (hn : n.AssignmentFree) {c c' : Context} (h : c.Alike c') :
    Alike (value c n) (value c' n) := by
  refine related_value congruence_alike n ?_ n (.refl n) c c' h
  intro e _ he _ hk
  exact (hn e he hk).elim

/-! ### What is read is not exported -/

/-- The declaration is a local one. -/
def IsLocal (d : Decl) : Prop :=
  d.exported = false

theorem gives_variableOf (ctx : Context) (types : List TypeRef) (keyword : String) :
    Gives IsLocal (variableOf ctx types keyword) := by
  refine .bind fun doc => ?_
  split
  · exact .bind fun _ => .pure rfl
  · exact .bind fun _ => .pure rfl

theorem gives_variableNamed (ctx : Context) (type : String) :
    Gives IsLocal (variableNamed ctx type) :=
  .bind fun _ => gives_variableOf ctx _ "var"

theorem gives_functionDecl (ctx : Context) (n : Node) : Gives IsLocal (functionDecl ctx n) := by
  refine .bind fun doc => ?_
  have hfn : Gives (fun fn => fn.header.exported = false) (callableOf ctx doc n) :=
    .bind fun _ => .bind fun _ => .pure rfl
  refine hfn.bind_of fun fn hlocal => ?_
  split
  · exact .pure hlocal
  · exact .pure hlocal

theorem gives_classValue (ctx : Context) (n : Node) : Gives IsLocal (classValue ctx n) := by
  rw [classValue]
  refine .bind fun doc => ?_
  split
  · exact .bind fun parts => .pure rfl
  · exact .unhandled _ n

/-- A value is read as a local declaration. -/
theorem gives_value (ctx : Context) (n : Node) : Gives IsLocal (value ctx n) := by
  rw [value]
  dsimp only
  split
  · exact gives_functionDecl _ n
  · exact gives_functionDecl _ n
  · exact gives_functionDecl _ n
  · exact gives_classValue _ n
  · exact .bind fun doc => .bind fun members => .pure rfl
  · exact .bind fun doc => .pure rfl
  · unfold callValue
    split
    · exact .bind fun doc => .pure rfl
    · exact gives_variableOf _ _ _
  · unfold newValue
    split
    · split
      · exact gives_variableNamed _ _
      · exact gives_variableOf _ _ _
    · exact gives_variableOf _ _ _
  · refine .bind fun _ => ?_
    split
    · rename_i right hright
      have hlt := Node.sizeOf_lt_of_mem_children (Node.mem_children_of_child? hright)
      exact gives_value _ right
    · exact .unhandled _ n
  · split
    · rename_i c cs hc
      have hmem : c ∈ n.codeChildren := by simp [hc]
      have hlt := Node.sizeOf_lt_of_mem_children (Node.mem_children_of_codeChildren hmem)
      exact gives_value _ c
    · exact .unhandled _ n
  all_goals first | exact gives_variableNamed _ _ | exact .unhandled _ n
termination_by sizeOf n

end Build

end Ambient
