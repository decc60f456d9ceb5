import Ambient.Proofs.Build.Chain
import Ambient.Proofs.Build.Kept
import Ambient.Proofs.Build.Pass

/-!
# Two ways of exporting

A module is exported as a whole or member by member, never both.  Every act of a pass keeps the two
apart, except that marking a name or registering an exported declaration needs the module to be in
the memberwise way before.  An assignment to an exported member sees to that first, so what is left
is that nothing changes the way back while the assigned value is read.
-/

namespace Ambient

/-- No assignment stands in the value of another one, outside the functions in the node. -/
def Node.FlatAssignments (n : Node) : Prop :=
  ∀ e, n.Contains e → e.kind = .assignmentExpression →
    ∀ v, e.child? .right = some v → v.AssignmentFree

namespace Module

/-- A module that is exported as a whole exports no item on its own. -/
def OneMode (m : Module) : Prop :=
  m.aggregate ≠ none → ∀ e ∈ m.items, e.2.exported = false

variable {m : Module}

theorem oneMode_of_aggregate (h : m.aggregate = none) : m.OneMode :=
  fun hne => (hne h).elim

theorem OneMode.set (h : m.OneMode) {name : String} {d : Decl}
    (hd : m.aggregate ≠ none → d.exported = false) :
    ({ m with items := m.items.set name d } : Module).OneMode := by
  intro hne e he
  rcases Table.eq_or_mem_of_mem_set he with rfl | he
  · exact hd hne
  · exact h hne e he

theorem OneMode.update (h : m.OneMode) {name : String} {f : Decl → Decl}
    (hf : ∀ d, (f d).exported = d.exported) :
    ({ m with items := m.items.update name f } : Module).OneMode := by
  intro hne e he
  obtain ⟨b, hb, rfl⟩ := List.mem_map.1 he
  split
  · exact (hf b.2).trans (h hne b hb)
  · exact h hne b hb

/-- Without exported items nothing is handed over. -/
theorem OneMode.add (h : m.OneMode) (name : String) {d : Decl} (hd : d.exported = false) :
    (m.add name d).OneMode := by
  refine h.set fun hne => ?_
  have hpending : ¬ m.Pending name := by
    rintro ⟨hdr, hget, hexported⟩
    have hlocal := h hne _ (Table.mem_of_get? hget)
    rw [Decl.exported, Decl.header, hexported] at hlocal
    cases hlocal
  rw [m.handOver_of_not_pending hpending]
  exact hd

theorem OneMode.promote (h : m.OneMode) (name : String) : (m.promote name).OneMode := by
  cases hget : m.items.get? name with
  | none =>
      rw [m.promote_eq_of_none hget]
      exact h
  | some d =>
      rw [m.promote_eq_of_get? hget]
      refine h.set fun hne => ?_
      rw [d.exported_promote]
      exact h hne _ (Table.mem_of_get? hget)

theorem OneMode.modifyMembers (h : m.OneMode) (name : String) (f : Table Decl → Table Decl) :
    (m.modifyMembers name f).OneMode := by
  rw [modifyMembers_eq]
  exact h.update (Decl.exported_mapMembers f)

theorem OneMode.describe (h : m.OneMode) (text : String) : (m.describe text).OneMode := by
  rw [Module.describe]
  split
  · exact h
  · exact h

theorem oneMode_setAggregate (d : Decl) : (m.setAggregate d).OneMode := by
  intro _ e he
  obtain ⟨b, -, rfl⟩ := List.mem_map.1 he
  exact b.2.exported_setExported false

theorem OneMode.validate (h : m.OneMode) (extra : List String) : (m.validate extra).OneMode := by
  intro hne e he
  obtain ⟨b, hb, rfl⟩ := List.mem_map.1 he
  have haggregate : m.aggregate ≠ none := by
    intro hnone
    exact hne (by rw [Module.validate, hnone]; rfl)
  exact (Validation.exported_settleItem _ _ _).trans (h haggregate b hb)

end Module

/-! ### Acts -/

/-- The act keeps the two ways of exporting apart. -/
def Act.KeepsMode (a : Act) : Prop :=
  ∀ s : BuildState, s.module.OneMode → (s.after a).module.OneMode

namespace Act

theorem keepsMode_of_isNote {a : Act} (h : a.IsNote) : a.KeepsMode := by
  intro s hs
  cases a with
  | notice l => exact hs
  | commentRead start => exact hs
  | _ => exact h.elim

theorem keepsMode_register (name : String) {d : Decl} (hd : d.exported = false) :
    (register name d).KeepsMode :=
  fun _ hs => hs.add name hd

theorem keepsMode_describe (text : String) : (describe text).KeepsMode :=
  fun _ hs => hs.describe text

/-- Only an assignment to an exported member performs acts that may mix the two ways. -/
theorem keepsMode_of_serves {a : Act} {target : Build.Target}
    (htarget : ∀ name, target ≠ .exported name) (h : a.Serves target) : a.KeepsMode := by
  have hclass (owner : String) (h : a = .promote owner ∨ ∃ f, a = .members owner f) :
      a.KeepsMode := by
    rcases h with rfl | ⟨f, rfl⟩
    · exact fun _ hs => hs.promote owner
    · exact fun _ hs => hs.modifyMembers owner f
  cases target with
  | aggregate =>
      obtain ⟨d, rfl⟩ := h
      exact fun _ _ => Module.oneMode_setAggregate d
  | exported name => exact (htarget name rfl).elim
  | prototype owner => exact hclass owner h
  | prototypeMember owner member => exact hclass owner h
  | other => exact h.elim

end Act

theorem BuildState.aggregate_afterAll {acts : List Act} (h : ∀ a ∈ acts, ¬ a.IsAggregate)
    {s : BuildState} (hs : s.module.aggregate = none) :
    (s.afterAll acts).module.aggregate = none := by
  induction acts generalizing s with
  | nil => exact hs
  | cons a acts ih =>
      obtain ⟨ha, hacts⟩ := List.forall_mem_cons.1 h
      refine ih hacts ?_
      cases a with
      | aggregate d => exact (ha trivial).elim
      | memberwise => rfl
      | promote name =>
          rw [after, Module.promote]
          split
          · exact hs
          · exact hs
      | describe text =>
          rw [after, Module.describe]
          split
          · exact hs
          · exact hs
      | _ => exact hs

namespace Build

variable {α β : Type}

/-- Every run, finished or not, keeps the two ways of exporting apart. -/
def KeepsMode (x : Build α) : Prop :=
  ∀ s : BuildState, s.module.OneMode → (runFrom x s).2.module.OneMode

theorem keepsMode_of_traced {x : Build α} (h : Traced Act.KeepsMode x) : KeepsMode x := by
  intro s hs
  obtain ⟨acts, hacts, heq⟩ := h s
  rw [heq]
  clear heq
  induction acts generalizing s with
  | nil => exact hs
  | cons a acts ih =>
      obtain ⟨ha, hacts⟩ := List.forall_mem_cons.1 hacts
      exact ih (s.after a) (ha s hs) hacts

theorem KeepsMode.bind_of {Q : α → Prop} {x : Build α} {f : α → Build β} (hx : KeepsMode x)
    (hgives : Gives Q x) (hf : ∀ a, Q a → KeepsMode (f a)) : KeepsMode (x >>= f) := by
  intro s hs
  have hmid := hx s hs
  rw [runFrom_bind]
  rcases hrun : runFrom x s with ⟨_ | a, mid⟩
  · rw [hrun] at hmid
    exact hmid
  · rw [hrun] at hmid
    exact hf a (hgives s a mid hrun) mid hmid

theorem congruence_keepsMode :
    PassCongruence Node.SameCode Context.Alike fun _ x _ => KeepsMode x where
  toLikeness := Node.likeness_sameCode
  toAgreement := Context.agreement_alike
  pure a := keepsMode_of_traced (.pure a)
  throw f := keepsMode_of_traced (.throw f)
  unhandled _ _ := keepsMode_of_traced (traced_unhandled (fun _ => Act.keepsMode_of_isNote) _ _)
  bind hx hf := hx.bind_of (Q := fun _ => True) (fun _ _ _ _ => trivial) fun a _ => hf a
  notify := keepsMode_of_traced (traced_notify (fun _ => Act.keepsMode_of_isNote) _)
  readComment _ := keepsMode_of_traced (traced_readComment (fun _ => Act.keepsMode_of_isNote) _)
  bind_of hx hgives hf := hx.bind_of hgives hf
  register name _ hd :=
    keepsMode_of_traced (.of_act fun _ => ⟨_, Act.keepsMode_register name hd, rfl⟩)
  describe text := keepsMode_of_traced (.of_act fun _ => ⟨_, Act.keepsMode_describe text, rfl⟩)

/-! ### Assignments -/

/-- An exported member leaves the module in the memberwise way. -/
theorem aggregate_exportMember (name : String) (right : Node) {value : Build Decl}
    (hvalue : Traced (fun a => ¬ a.IsAggregate) value) (s : BuildState) :
    (runFrom (exportMember name right value) s).2.module.aggregate = none := by
  have hclear : runFrom (modifyModule fun m => { m with aggregate := none }) s =
      (.ok (), s.after .memberwise) := rfl
  rw [exportMember, runFrom_bind_of_ok hclear, runFrom_bind_of_ok (runFrom_item? ..)]
  dsimp only
  split
  · rfl
  · have hregister : Traced (fun a => ¬ a.IsAggregate)
        (value >>= fun d => register name (d.setExported true)) :=
      .bind hvalue fun d => .of_act fun _ => ⟨.register name (d.setExported true), id, rfl⟩
    obtain ⟨acts, hacts, heq⟩ := hregister (s.after .memberwise)
    rw [heq]
    exact BuildState.aggregate_afterAll hacts rfl

theorem keepsMode_assignTo (path : String) (line : Nat) (right : Node) {value : Build Decl}
    (hvalue : Traced Act.IsNote value) : KeepsMode (assignTo path line right value) := by
  have hmono {P : Act → Prop} (hP : ∀ a : Act, a.IsNote → P a) : Traced P value := by
    intro s
    obtain ⟨acts, hacts, heq⟩ := hvalue s
    exact ⟨acts, fun a ha => hP a (hacts a ha), heq⟩
  by_cases htarget : ∃ name, Target.ofPath path = .exported name
  · obtain ⟨name, ht⟩ := htarget
    intro s _
    rw [assignTo, ht]
    refine Module.oneMode_of_aggregate (aggregate_exportMember name right (hmono ?_) s)
    intro a ha haggregate
    cases a <;> first | exact ha | exact haggregate
  · refine keepsMode_of_traced (traced_assignTo (fun _ => Act.keepsMode_of_isNote) line right ?_
      (hmono fun _ => Act.keepsMode_of_isNote))
    intro a ha
    exact Act.keepsMode_of_serves (fun name ht => htarget ⟨name, ht⟩) ha

theorem keepsMode_assign (ctx : Context) (n : Node)
    (h : ∀ v, n.child? .right = some v → v.AssignmentFree) : KeepsMode (assign ctx n) := by
  rw [assign]
  split
  · rename_i left right hleft hright
    have hvalue : Traced Act.IsNote (value ctx right) :=
      traced_value (fun _ ha => ha) ctx right (h right hright).allows
    intro s hs
    rcases chain_cases ctx left s with ⟨path, -, hrun⟩ | ⟨f, notices, hrun⟩
    · rw [runFrom_bind_of_ok hrun]
      exact keepsMode_assignTo path n.line right hvalue s hs
    · rw [runFrom_bind, hrun]
      exact hs
  · exact keepsMode_of_traced (traced_unhandled (fun _ ha => Act.keepsMode_of_isNote ha) ctx n)

/-! ### Statements -/

theorem keepsMode_statement (ctx : Context) {st : Node} (hexport : st.kind ≠ .exportStatement)
    (hflat : st.FlatAssignments) : KeepsMode (statement ctx st) := by
  refine related_statement congruence_keepsMode (.refl ctx) (.refl st) ?_
    fun hk => (hexport hk).elim
  intro e _ he _ hk _ c _ _
  exact keepsMode_assign c e (hflat e he hk)

theorem keepsMode_statements (ctx : Context) (before : List Node) {nodes : List Node}
    (hexport : ∀ st ∈ nodes, st.kind ≠ .exportStatement)
    (hflat : ∀ st ∈ nodes, st.FlatAssignments) : KeepsMode (statements ctx before nodes) := by
  induction nodes generalizing before with
  | nil => exact congruence_keepsMode.pure ()
  | cons n nodes ih =>
      obtain ⟨hn, hexport⟩ := List.forall_mem_cons.1 hexport
      obtain ⟨hn', hflat⟩ := List.forall_mem_cons.1 hflat
      have hstep : KeepsMode (step ctx before n) := by
        rw [step]
        split
        · exact keepsMode_statement _ hn hn'
        · exact congruence_keepsMode.pure ()
      rw [statements_cons]
      exact congruence_keepsMode.bind (y := step ctx before n)
        (g := fun _ => statements ctx (n :: before) nodes) hstep
        fun _ => ih (n :: before) hexport hflat

theorem partialModule_ofTree (resolver : Resolver) (modName : String) (tree : Node) :
    (ofTree resolver modName tree).partialModule =
      (runFrom (statements { resolver } [] tree.children) (start modName)).2.module := by
  have hrun : (statements { resolver } [] tree.children).run.run (start modName) =
      runFrom (statements { resolver } [] tree.children) (start modName) := rfl
  unfold ofTree
  dsimp only
  rw [show ({ module := { name := modName } } : BuildState) = start modName from rfl, hrun]
  rcases runFrom (statements { resolver } [] tree.children) (start modName) with ⟨_ | _, s⟩
  · rfl
  · rfl

/-- In a source without export statements, where no assignment stands in the value of another one, a
module that is exported as a whole exports no item on its own: after every statement, where a
failing statement leaves off, and after validation. -/
theorem export_modes_exclude_each_other (resolver : Resolver) (modName : String) (tree : Node)
    (hexport : ∀ st ∈ tree.children, st.kind ≠ .exportStatement)
    (hflat : ∀ st ∈ tree.children, st.FlatAssignments) :
    (∀ before behind s, tree.children = before ++ behind →
      runFrom (statements { resolver } [] before) (start modName) = (.ok (), s) →
        s.module.OneMode) ∧
      (ofTree resolver modName tree).partialModule.OneMode ∧
      ∀ m, (ofTree resolver modName tree).result = .ok m → m.OneMode := by
  have hstart : (start modName).module.OneMode := Module.oneMode_of_aggregate rfl
  have hwhole := keepsMode_statements { resolver } [] hexport hflat (start modName) hstart
  refine ⟨?_, ?_, ?_⟩
  · intro before behind s htree hrun
    rw [htree] at hexport hflat
    have hbefore := keepsMode_statements { resolver } []
      (List.forall_mem_append.1 hexport).1 (List.forall_mem_append.1 hflat).1 (start modName) hstart
    rw [hrun] at hbefore
    exact hbefore
  · rw [partialModule_ofTree]
    exact hwhole
  · intro m hm
    obtain ⟨s, hrun, -, rfl⟩ := runFrom_of_ofTree hm
    rw [hrun] at hwhole
    exact hwhole.validate _

/-! ### A source that changes the way of exporting -/

theorem flatAssignments_of_assignmentFree {n : Node} (h : n.AssignmentFree) :
    n.FlatAssignments :=
  fun e he hk => (h e he hk).elim

theorem flatAssignments_of_children {n : Node} (hbody : n.child? .body = none)
    (hright : n.kind = .assignmentExpression →
      ∀ v, n.child? .right = some v → v.AssignmentFree)
    (h : ∀ c ∈ n.children, c.FlatAssignments) : n.FlatAssignments := by
  intro e he
  cases he with
  | self => exact hright
  | child _ hc he => exact h _ hc e he
  | member _ hbody' _ _ =>
      rw [hbody] at hbody'
      cases hbody'

theorem assignmentFree_memberOf (receiver property : String) (r : Role) :
    ((memberOf (leaf .identifier receiver)
      (leaf .propertyIdentifier property)).as r).AssignmentFree := by
  intro e he
  cases he with
  | self =>
      intro hk
      cases hk
  | child _ hc he =>
      rcases List.mem_cons.1 hc with rfl | hc
      · exact assignmentFree_leaf (by decide) receiver .receiver e he
      · rw [List.mem_singleton.1 hc] at he
        exact assignmentFree_leaf (by decide) property .property e he
  | member _ hbody _ _ => cases hbody

theorem flatAssignments_assignment (receiver property text : String) :
    (statementOf (assignment (memberOf (leaf .identifier receiver)
      (leaf .propertyIdentifier property)) (leaf .number text))).FlatAssignments := by
  have hvalue := assignmentFree_leaf (show Kind.number ≠ .assignmentExpression by decide) text
    .right
  have hassignment : (assignment (memberOf (leaf .identifier receiver)
      (leaf .propertyIdentifier property)) (leaf .number text)).FlatAssignments := by
    refine flatAssignments_of_children rfl ?_ (List.forall_mem_cons.2 ⟨?_, ?_⟩)
    · intro _ v hv
      cases hv
      exact hvalue
    · exact flatAssignments_of_assignmentFree (assignmentFree_memberOf receiver property .left)
    · exact List.forall_mem_singleton.2 (flatAssignments_of_assignmentFree hvalue)
  exact flatAssignments_of_children rfl (fun hk => by cases hk)
    (List.forall_mem_singleton.2 hassignment)

/-- `module.exports = value;` -/
def wholeExportOf (v : Node) : Node :=
  statementOf
    (assignment (memberOf (leaf .identifier "module") (leaf .propertyIdentifier "exports")) v)

theorem runFrom_wholeExportOf {ctx : Context} (hctx : ctx.comment = none) (text : String)
    (s : BuildState) :
    runFrom (statement ctx (wholeExportOf (leaf .number text))) s =
      (.ok (), s.after (.aggregate number)) := by
  have hspells : ((memberOf (leaf .identifier "module") (leaf .propertyIdentifier "exports")).as
      .left).Spells ("module" ++ "." ++ "exports") :=
    spells_memberOf .left (.name (.inl rfl)) (.name (.inr (.inl rfl)))
  have htarget : Target.ofPath ("module" ++ "." ++ "exports") = .aggregate := by decide
  have hassign (c : Context) (hc : c.comment = none) :
      runFrom (assign c (assignment (memberOf (leaf .identifier "module")
        (leaf .propertyIdentifier "exports")) (leaf .number text))) s =
        (.ok (), s.after (.aggregate number)) := by
    rw [assign_eq c rfl rfl, runFrom_bind_of_ok (runFrom_chain_of_spells hspells c s), assignTo,
      htarget]
    exact runFrom_bind_of_ok (runFrom_number hc text .right s) _
  exact hassign _ hctx

/-- `exports.a = 1; module.exports = 2;` takes the export of `a` back. -/
theorem export_modes_exclude_each_other_switched :
    let sts := [exportOf "a" (leaf .number "1"), wholeExportOf (leaf .number "2")]
    ∃ m, (ofTree {} "m" (sourceOf sts)).result = .ok m ∧ m.aggregate ≠ none ∧
      m.items.names = ["a"] ∧ ∀ e ∈ m.items, e.2.exported = false := by
  intro sts
  have hfirst : runFrom (step {} [] (exportOf "a" (leaf .number "1"))) (start "m") = _ :=
    runFrom_exportOf rfl (show '.' ∉ "a".toList by decide) "1" (start "m")
  have hsecond (s : BuildState) : runFrom (step {} [exportOf "a" (leaf .number "1")]
      (wholeExportOf (leaf .number "2"))) s = _ := runFrom_wholeExportOf rfl "2" s
  have hrun : runFrom (statements {} [] sts) (start "m") = (.ok (), (start "m").afterAll
      [.memberwise, .register "a" (number.setExported true), .aggregate number]) := by
    rw [statements_cons, runFrom_bind_of_ok hfirst, statements_cons,
      runFrom_bind_of_ok (hsecond _)]
    rfl
  have hresult : (ofTree {} "m" (sourceOf sts)).result = _ := result_ofTree hrun
  have hflat : ∀ st ∈ sts, st.FlatAssignments :=
    List.forall_mem_cons.2 ⟨flatAssignments_assignment "exports" "a" "1",
      List.forall_mem_singleton.2 (flatAssignments_assignment "module" "exports" "2")⟩
  have hmode := (export_modes_exclude_each_other {} "m" (sourceOf sts)
    (List.forall_mem_cons.2 ⟨by decide, List.forall_mem_singleton.2 (by decide)⟩) hflat).2.2 _
    hresult
  have haggregate : (((start "m").afterAll [.memberwise, .register "a" (number.setExported true),
      .aggregate number]).module.validate []).aggregate ≠ none := nofun
  exact ⟨_, hresult, haggregate, rfl, hmode haggregate⟩

end Build

end Ambient
