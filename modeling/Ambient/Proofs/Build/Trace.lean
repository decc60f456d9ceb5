import Ambient.Proofs.Build.Reader

/-!
# Traces of the readers

Reading a value gives notices and, for each assignment in it that is not inside a function, performs
the acts that serve the target of that assignment.
-/

namespace Ambient

/-- The act is one that an assignment to the target performs. -/
def Act.Serves (a : Act) : Build.Target → Prop
  | .aggregate => ∃ d, a = .aggregate d
  | .exported name =>
      a = .memberwise ∨ a = .mark name ∨ ∃ d : Decl, d.exported = true ∧ a = .register name d
  | .prototype owner => a = .promote owner ∨ ∃ f, a = .members owner f
  | .prototypeMember owner _ => a = .promote owner ∨ ∃ f, a = .members owner f
  | .other => False

namespace Build

variable {α : Type} {P : Act → Prop}

/-! ### Parts of an assignment -/

theorem traced_exportMember {name : String} (right : Node) {value : Build Decl}
    (hserves : ∀ a : Act, a.Serves (.exported name) → P a) (hvalue : Traced P value) :
    Traced P (exportMember name right value) := by
  refine .bind (.of_act fun s => ⟨.memberwise, hserves _ (.inl rfl), rfl⟩) fun _ =>
    .bind (.item? name) fun old => ?_
  dsimp only
  split
  · exact .of_act fun s => ⟨.mark name, hserves _ (.inr (.inl rfl)), rfl⟩
  · refine .bind hvalue fun d => .of_act fun s => ⟨.register name (d.setExported true), ?_, rfl⟩
    exact hserves _ (.inr (.inr ⟨_, d.exported_setExported true, rfl⟩))

theorem traced_withClass {name : String} {value : Build Decl}
    {change : Decl → Build (Table Decl → Table Decl)} (hmembers : ∀ f, P (.members name f))
    (hvalue : Traced P value) (hchange : ∀ d, Traced P (change d)) :
    Traced P (withClass name value change) := by
  refine .bind (.registrations name) fun before => .bind hvalue fun d =>
    .bind (hchange d) fun f => .bind (.registrations name) fun now => ?_
  split
  · exact .of_act fun s => ⟨.members name f, hmembers f, rfl⟩
  · exact .pure _

theorem traced_promote {name : String} (hpromote : P (.promote name)) :
    Traced P (promote name) :=
  .of_act fun s => ⟨.promote name, hpromote, by rw [runFrom_promote]⟩

/-! ### Readers -/

theorem traced_notify (hnote : ∀ a : Act, a.IsNote → P a) (notices : Log) :
    Traced P (notify notices) :=
  .of_act fun _ => ⟨.notice notices, hnote _ trivial, rfl⟩

theorem traced_readComment (hnote : ∀ a : Act, a.IsNote → P a) (n : Node) :
    Traced P (readComment n) := by
  have hread : Traced P
      (modify fun s => { s with commentsRead := n.start :: s.commentsRead } : Build Unit) :=
    .of_act fun _ => ⟨.commentRead n.start, hnote _ trivial, rfl⟩
  unfold readComment
  refine .bind .get fun s => ?_
  split
  · exact .bind hread fun _ => .bind (traced_notify hnote _) fun _ => .pure _
  · exact .pure _

/-- Readers perform only acts that give notices, assignments aside. -/
theorem congruence_traced (hnote : ∀ a : Act, a.IsNote → P a) :
    Congruence Node.SameCode Context.Alike fun _ x _ => Traced P x where
  toLikeness := Node.likeness_sameCode
  toAgreement := Context.agreement_alike
  pure a := .pure a
  throw f := .throw f
  unhandled _ _ := .bind (traced_notify hnote _) fun _ => .throw _
  bind hx hf := .bind hx hf
  notify := traced_notify hnote _
  readComment _ := traced_readComment hnote _

variable (hnote : ∀ a : Act, a.IsNote → P a)

include hnote

theorem traced_unhandled (ctx : Context) (n : Node) : Traced P (unhandled ctx n : Build α) :=
  .bind (traced_notify hnote _) fun _ => .throw _

/-! ### Assignments -/

theorem traced_assignTo {path : String} (line : Nat) (right : Node) {value : Build Decl}
    (hserves : ∀ a : Act, a.Serves (Target.ofPath path) → P a) (hvalue : Traced P value) :
    Traced P (assignTo path line right value) := by
  unfold assignTo
  split
  · rename_i ht
    rw [ht] at hserves
    exact .bind hvalue fun d => .of_act fun s => ⟨.aggregate d, hserves _ ⟨d, rfl⟩, rfl⟩
  · rename_i name ht
    rw [ht] at hserves
    exact traced_exportMember right hserves hvalue
  · rename_i owner ht
    rw [ht] at hserves
    have hmembers : ∀ f, P (.members owner f) := fun f => hserves _ (.inr ⟨f, rfl⟩)
    refine .bind (traced_promote (hserves _ (.inl rfl))) fun b => ?_
    split
    · refine traced_withClass hmembers hvalue fun d => ?_
      split
      · exact .pure _
      · exact .bind (traced_notify hnote _) fun _ => .pure _
    · exact traced_notify hnote _
  · rename_i owner member ht
    rw [ht] at hserves
    have hmembers : ∀ f, P (.members owner f) := fun f => hserves _ (.inr ⟨f, rfl⟩)
    refine .bind (traced_promote (hserves _ (.inl rfl))) fun b => ?_
    split
    · exact traced_withClass hmembers hvalue fun d => .pure _
    · exact traced_notify hnote _
  · refine .bind (traced_notify hnote _) fun _ => ?_
    split
    · exact .bind hvalue fun _ => .pure _
    · exact .pure _

/-! ### Values -/

/-- The acts that serve the assignments of a node satisfy `P`. -/
def Allows (P : Act → Prop) (n : Node) : Prop :=
  ∀ path, n.Assigns path → ∀ a : Act, a.Serves (Target.ofPath path) → P a

/-- An assignment is traced when its right side is. -/
theorem traced_assign (ctx : Context) (n : Node)
    (hk : n.kind = .assignmentExpression) (h : Allows P n)
    (hvalue : ∀ right ∈ n.children, Traced P (value ctx right)) : Traced P (assign ctx n) := by
  rw [assign]
  split
  · rename_i left right hleft hright
    intro s
    rcases chain_cases ctx left s with ⟨path, hpath, hrun⟩ | ⟨f, notices, hrun⟩
    · rw [runFrom_bind_of_ok hrun]
      exact traced_assignTo hnote n.line right (h path ⟨n, .self n, hk, left, hleft, hpath⟩)
        (hvalue right (Node.mem_children_of_child? hright)) s
    · rw [runFrom_bind, hrun]
      exact ⟨[.notice notices], List.forall_mem_singleton.2 (hnote _ trivial), rfl⟩
  · exact traced_unhandled hnote _ n

/-- Reading a value performs the acts that serve the assignments in it, and notices. -/
theorem traced_value (ctx : Context) (n : Node) (h : Allows P n) : Traced P (value ctx n) := by
  refine related_value (congruence_traced hnote) n ?_ n (.refl n) ctx ctx (.refl ctx)
  intro e _ he _ hk hright c _ _
  exact traced_assign hnote c e hk (fun path hpath => h path (hpath.of_contains he))
    fun v hv => hright v hv v (.refl v) c c (.refl c)

end Build

end Ambient
