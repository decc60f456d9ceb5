import Ambient.Proofs.Build.Declared

/-!
# Exports that are kept

A name that a statement exports is an item of the finished module, whatever the other statements
are, and it is exported there unless a later local declaration of the same name takes its slot.  A
slot that exports its own name before the name is declared is the exception: it hands its flag over.
-/

namespace Ambient

namespace Build

variable {name : String} {s s' : BuildState} {u : Unit}

/-! ### All statements -/

/-- The part of a run that belongs to one node. -/
def step (ctx : Context) (before : List Node) (n : Node) : Build Unit :=
  if n.isNamed then statement (ctx.behind before) n else pure ()

theorem boundNames_of_not_isNamed {n : Node} (h : ¬ n.isNamed = true) : n.boundNames = [] := by
  obtain ⟨text, hk⟩ : ∃ text, n.kind = .token text := by
    cases hk : n.kind with
    | token text => exact ⟨text, rfl⟩
    | _ =>
        rw [Node.isNamed, hk] at h
        exact (h rfl).elim
  rw [Node.boundNames, hk, Node.declaredNames, hk]

theorem statements_cons (ctx : Context) (before : List Node) (n : Node) (rest : List Node) :
    statements ctx before (n :: rest) =
      step ctx before n >>= fun _ => statements ctx (n :: before) rest := by
  rw [statements, step]
  split
  · rfl
  · rfl

theorem runFrom_statements_append {ctx : Context} {before nodes rest : List Node}
    (hrun : runFrom (statements ctx before (nodes ++ rest)) s = (.ok u, s')) :
    ∃ mid, runFrom (statements ctx before nodes) s = (.ok (), mid) ∧
      runFrom (statements ctx (nodes.reverse ++ before) rest) mid = (.ok u, s') := by
  induction nodes generalizing s before with
  | nil => exact ⟨s, rfl, hrun⟩
  | cons n nodes ih =>
      rw [List.cons_append, statements_cons] at hrun
      obtain ⟨_, between, hstep, hrest⟩ := runFrom_bind_ok hrun
      obtain ⟨mid, hmid, hlast⟩ := ih hrest
      refine ⟨mid, ?_, ?_⟩
      · rw [statements_cons, runFrom_bind_of_ok hstep]
        exact hmid
      · rw [List.reverse_cons, List.append_assoc]
        exact hlast

/-- Every node performs acts of its own, in the order of the nodes. -/
theorem exists_acts_of_statements {ctx : Context} {before nodes : List Node}
    (hfree : ∀ c ∈ nodes, ¬ c.Assigns "module.exports")
    (hrun : runFrom (statements ctx before nodes) s = (.ok u, s')) :
    ∃ acts : List (List Act),
      List.Forall₂ (fun c as => Account c.MayExport c.boundNames as) nodes acts ∧
        s' = s.afterAll acts.flatten := by
  induction nodes generalizing s before with
  | nil =>
      cases hrun
      exact ⟨[], .nil, rfl⟩
  | cons n nodes ih =>
      have hfree' := List.forall_mem_cons.1 hfree
      have hn : Binds n.MayExport n.boundNames (step ctx before n) := by
        rw [step]
        split
        · exact binds_statement _ hfree'.1
        · rename_i hnamed
          rw [boundNames_of_not_isNamed hnamed]
          exact .pure _
      rw [statements_cons] at hrun
      obtain ⟨_, mid, hstep, hrest⟩ := runFrom_bind_ok hrun
      obtain ⟨own, hown, rfl⟩ := hn s _ mid hstep
      obtain ⟨acts, hacts, rfl⟩ := ih hfree'.2 hrest
      refine ⟨own :: acts, .cons hown hacts, ?_⟩
      rw [List.flatten_cons, BuildState.afterAll_append]

theorem exists_account_of_mem {nodes : List Node} {acts : List (List Act)}
    (h : List.Forall₂ (fun c as => Account c.MayExport c.boundNames as) nodes acts) {a : Act}
    (ha : a ∈ acts.flatten) :
    ∃ c ∈ nodes, ∃ as : List Act, Account c.MayExport c.boundNames as ∧ a ∈ as := by
  induction h with
  | nil => cases ha
  | @cons c as nodes acts hown _ ih =>
      rw [List.flatten_cons] at ha
      rcases List.mem_append.1 ha with ha | ha
      · exact ⟨c, List.mem_cons_self .., as, hown, ha⟩
      · obtain ⟨e, he, hacts⟩ := ih ha
        exact ⟨e, List.mem_cons_of_mem _ he, hacts⟩

theorem not_isAggregate_of_mem {nodes : List Node} {acts : List (List Act)}
    (h : List.Forall₂ (fun c as => Account c.MayExport c.boundNames as) nodes acts) :
    ∀ a ∈ acts.flatten, ¬ a.IsAggregate := by
  intro a ha
  obtain ⟨c, -, as, has, ha⟩ := exists_account_of_mem h ha
  exact has.memberwise a ha

/-- An exported name stays exported where no node leaves a local declaration under it. -/
theorem flag?_of_statements {ctx : Context} {before nodes : List Node}
    (hfree : ∀ c ∈ nodes, ¬ c.Assigns "module.exports") (hlocal : ∀ c ∈ nodes, name ∉ c.localNames)
    (hflag : s.module.flag? name = some true)
    (hrun : runFrom (statements ctx before nodes) s = (.ok u, s')) :
    s'.module.flag? name = some true := by
  induction nodes generalizing s before with
  | nil =>
      cases hrun
      exact hflag
  | cons n nodes ih =>
      have hfree' := List.forall_mem_cons.1 hfree
      have hlocal' := List.forall_mem_cons.1 hlocal
      rw [statements_cons] at hrun
      obtain ⟨_, mid, hstep, hrest⟩ := runFrom_bind_ok hrun
      refine ih hfree'.2 hlocal'.2 ?_ hrest
      rw [step] at hstep
      split at hstep
      · exact flag?_of_statement hfree'.1 hlocal'.1 (.inl hflag) hstep
      · cases hstep
        exact hflag

/-- A name is not exported at the end when a node declares it into a slot that is not pending, and
nothing from there on exports it. -/
theorem flag?_of_local {ctx : Context} {before nodes : List Node} {c : Node} {mid : BuildState}
    (hfree : ∀ e ∈ c :: nodes, ¬ e.Assigns "module.exports") (hname : name ∈ c.boundNames)
    (hexports : ∀ e ∈ c :: nodes, ¬ e.MayExport name) (hpending : ¬ mid.module.Pending name)
    (hmid : runFrom (statements ctx [] before) s = (.ok (), mid))
    (hrun : runFrom (statements ctx [] (before ++ c :: nodes)) s = (.ok u, s')) :
    s'.module.flag? name = some false := by
  obtain ⟨_, hmid', hrest⟩ := runFrom_statements_append hrun
  rw [hmid] at hmid'
  cases hmid'
  obtain ⟨acts, hacts, rfl⟩ := exists_acts_of_statements hfree hrest
  have hsilent : ∀ a ∈ acts.flatten, ¬ a.Exports name := by
    intro a ha ha'
    obtain ⟨e, he, as, has, ha⟩ := exists_account_of_mem hacts ha
    exact hexports e he (has.exports a ha name ha')
  refine BuildState.flag?_of_lost (not_isAggregate_of_mem hacts) ?_
  cases hacts with
  | cons hown _ =>
      obtain ⟨a, ha, hbinds⟩ := hown.exists_binds_of_mem hname
      refine BuildState.lost_of_binds hpending hsilent ?_ hbinds
      rw [List.flatten_cons]
      exact List.mem_append_left _ ha

/-! ### A whole source -/

/-- The state in which a source is begun. -/
def start (modName : String) : BuildState :=
  { module := { name := modName } }

theorem runFrom_of_ofTree {resolver : Resolver} {modName : String} {tree : Node} {m : Module}
    (h : (ofTree resolver modName tree).result = .ok m) :
    ∃ s, runFrom (statements { resolver } [] tree.children) (start modName) = (.ok (), s) ∧
      (ofTree resolver modName tree).partialModule = s.module ∧
      m = s.module.validate resolver.extraTypes := by
  unfold ofTree at h ⊢
  dsimp only at h ⊢
  split at h
  · rename_i s hrun
    cases h
    exact ⟨s, hrun, rfl, rfl⟩
  · cases h

theorem isNamed_of_exports {st : Node} (h : st.Exports name) : st.isNamed = true := by
  have hkind : st.kind = .expressionStatement ∨ st.kind = .variableDeclaration ∨
      st.kind = .lexicalDeclaration ∨ st.kind = .exportStatement := by
    cases h with
    | assigned hk _ _ => exact .inl hk
    | declared h => exact h.1.elim (fun hk => .inr (.inl hk)) fun hk => .inr (.inr (.inl hk))
    | declaredExported hk _ _ => exact .inr (.inr (.inr hk))
    | specified hk _ _ _ _ _ _ => exact .inr (.inr (.inr hk))
  rcases hkind with hk | hk | hk | hk
  all_goals
    rw [Node.isNamed, hk]
    rfl

/-- After all statements the item is there, and it is exported when no statement from the exporting
one on leaves a local declaration under the name. -/
theorem flag?_of_exports {ctx : Context} {before behind : List Node} {st : Node}
    (hfree : ∀ c ∈ before ++ st :: behind, ¬ c.Assigns "module.exports") (hst : st.Exports name)
    (hrun : runFrom (statements ctx [] (before ++ st :: behind)) s = (.ok u, s')) :
    (s'.module.flag? name).isSome ∧
      ((∀ c ∈ st :: behind, name ∉ c.localNames) → s'.module.flag? name = some true) := by
  obtain ⟨-, hfree'⟩ := List.forall_mem_append.1 hfree
  obtain ⟨hstfree, hbehind⟩ := List.forall_mem_cons.1 hfree'
  obtain ⟨mid, -, hrun⟩ := runFrom_statements_append hrun
  rw [statements_cons, step, if_pos (isNamed_of_exports hst)] at hrun
  obtain ⟨_, next, hstep, hrest⟩ := runFrom_bind_ok hrun
  constructor
  · obtain ⟨acts, -, rfl⟩ := exists_acts_of_statements hbehind hrest
    have hsome := (establishes_statement _ hst hstfree).isSome_flag? hstep
    exact BuildState.isSome_flag?_afterAll hsome acts.flatten
  · intro hlocal
    obtain ⟨hstlocal, hlocal⟩ := List.forall_mem_cons.1 hlocal
    have hflag := flag?_of_statement hstfree hstlocal (.inr hst) hstep
    exact flag?_of_statements hbehind hlocal hflag hrest

/-! ### Runs of small sources -/

theorem exports_exportOf {name : String} (hname : '.' ∉ name.toList) (v : Node) :
    (exportOf name v).Exports name :=
  .assigned rfl rfl ⟨hname, "exports", .inl rfl, rfl, _, rfl, spells_exports name .left⟩

/-- The declaration of a number. -/
def number : Decl :=
  .binding {} [⟨none, "number", []⟩] "var"

theorem runFrom_number {ctx : Context} (hctx : ctx.comment = none) (text : String) (r : Role)
    (s : BuildState) : runFrom (value ctx ((leaf .number text).as r)) s = (.ok number, s) := by
  rw [value]
  obtain ⟨resolver, trail, comment⟩ := ctx
  cases hctx
  rfl

theorem runFrom_assign_export {ctx : Context} (hctx : ctx.comment = none) {name : String}
    (hname : '.' ∉ name.toList) {text : String} {e : Node}
    (hleft : e.child? .left = some
      ((memberOf (leaf .identifier "exports") (leaf .propertyIdentifier name)).as .left))
    (hright : e.child? .right = some ((leaf .number text).as .right)) (s : BuildState) :
    runFrom (assign ctx e) s =
      (.ok (), s.afterAll [.memberwise, .register name (number.setExported true)]) := by
  rw [assign_eq ctx hleft hright,
    runFrom_bind_of_ok (runFrom_chain_of_spells (spells_exports name .left) ctx s), assignTo,
    ofPath_member (.inl rfl) hname]
  exact runFrom_bind_of_ok (runFrom_number hctx text .right (s.after .memberwise)) _

theorem runFrom_exportOf {ctx : Context} (hctx : ctx.comment = none) {name : String}
    (hname : '.' ∉ name.toList) (text : String) (s : BuildState) :
    runFrom (statement ctx (exportOf name (leaf .number text))) s =
      (.ok (), s.afterAll [.memberwise, .register name (number.setExported true)]) :=
  runFrom_assign_export (show ((ctx.enter _).enter _).comment = none from hctx) hname rfl rfl s

theorem runFrom_declarationOf_of_value {ctx : Context} (hctx : ctx.comment = none) (name : String)
    {v : Node} {d : Decl} (hkeyword : ∀ h ts k, d = .binding h ts k → k = "var")
    {s s' : BuildState}
    (hvalue : ∀ c : Context, c.comment = none → runFrom (value c (v.as .value)) s = (.ok d, s')) :
    runFrom (statement ctx (declarationOf name v)) s = (.ok (), s'.after (.register name d)) := by
  have hbinding (c : Context) (hc : c.comment = none) :
      runFrom (bindingValue c "var" (some (v.as .value))) s = (.ok d, s') := by
    have hrun := hvalue c hc
    obtain ⟨resolver, trail, comment⟩ := c
    cases hc
    refine (runFrom_bind_of_ok hrun _).trans ?_
    cases d with
    | binding h ts k =>
        rw [hkeyword h ts k rfl]
        rfl
    | _ => rfl
  have hdeclarator (c : Context) (hc : c.comment = none) :
      runFrom (declaratorNames "var" c (declaratorOf name v)) s =
        (.ok [name], s'.after (.register name d)) :=
    runFrom_bind_of_ok (hbinding (c.enter ((leaf .identifier name).as .name)) hc) _
  have hall (c : Context) (hc : c.comment = none) :
      runFrom (declaratorsNames "var" c [declaratorOf name v]) s =
        (.ok [name], s'.after (.register name d)) :=
    runFrom_bind_of_ok (hdeclarator (c.enter (declaratorOf name v)) hc) _
  exact runFrom_bind_of_ok (hall (ctx.enter (declarationOf name v)) hctx) _

theorem keyword_number : ∀ h ts k, number = .binding h ts k → k = "var" := by
  intro h ts k hd
  cases hd
  rfl

theorem runFrom_declarationOf {ctx : Context} (hctx : ctx.comment = none) (name text : String)
    (s : BuildState) :
    runFrom (statement ctx (declarationOf name (leaf .number text))) s =
      (.ok (), s.after (.register name number)) :=
  runFrom_declarationOf_of_value hctx name keyword_number fun _ hc =>
    runFrom_number hc text .value s

theorem result_ofTree {resolver : Resolver} {modName : String} {tree : Node} {s : BuildState}
    (h : runFrom (statements { resolver } [] tree.children) (start modName) = (.ok (), s)) :
    (ofTree resolver modName tree).result = .ok (s.module.validate resolver.extraTypes) := by
  have hrun : (statements { resolver } [] tree.children).run.run (start modName) = (.ok (), s) := h
  unfold ofTree
  dsimp only
  rw [show ({ module := { name := modName } } : BuildState) = start modName from rfl, hrun]

theorem result_ofTree_of_error {resolver : Resolver} {modName : String} {tree : Node}
    {s : BuildState} {f : Failure}
    (h : runFrom (statements { resolver } [] tree.children) (start modName) = (.error f, s)) :
    (ofTree resolver modName tree).result = .error f := by
  have hrun : (statements { resolver } [] tree.children).run.run (start modName) = (.error f, s) := h
  unfold ofTree
  dsimp only
  rw [show ({ module := { name := modName } } : BuildState) = start modName from rfl, hrun]

/-! ### The main theorem -/

/-- What a statement exports is an item of the finished module.  The item is exported when neither
that statement nor one behind it leaves a local declaration under the name; it is not when one
behind it declares the name into a slot that is not pending and nothing from there on exports it.
In general, with the acts of each statement laid out in order, it is exported exactly when no local
declaration takes the slot, other than a pending one, after the last export. -/
theorem exports_kept (resolver : Resolver) (modName : String) (tree : Node) (m : Module)
    (name : String) (before : List Node) (st : Node) (behind : List Node)
    (htree : tree.children = before ++ st :: behind)
    (hresult : (ofTree resolver modName tree).result = .ok m)
    (hfree : ∀ c ∈ tree.children, ¬ c.Assigns "module.exports") (hst : st.Exports name) :
    ∃ d, m.items.get? name = some d ∧
      ((∀ c ∈ st :: behind, name ∉ c.localNames) → d.exported = true) ∧
      (∀ mid c rest s, behind = mid ++ c :: rest →
        runFrom (statements { resolver } [] (before ++ st :: mid)) (start modName) = (.ok (), s) →
        ¬ s.module.Pending name → name ∈ c.boundNames → (∀ e ∈ c :: rest, ¬ e.MayExport name) →
        d.exported = false) ∧
      ∃ acts : List (List Act),
        List.Forall₂ (fun c as => Account c.MayExport c.boundNames as) tree.children acts ∧
        (ofTree resolver modName tree).partialModule =
          ((start modName).afterAll acts.flatten).module ∧
        (d.exported = true ↔ ¬ BuildState.Lost name (start modName) acts.flatten) := by
  obtain ⟨s, hrun, hpartial, rfl⟩ := runFrom_of_ofTree hresult
  obtain ⟨acts, hacts, hs⟩ := exists_acts_of_statements hfree hrun
  have hlost : s.module.flag? name = some false ↔
      BuildState.Lost name (start modName) acts.flatten := by
    rw [hs]
    exact BuildState.flag?_afterAll_eq_false_iff (by simp [start, Module.flag?])
      (not_isAggregate_of_mem hacts)
  rw [htree] at hfree hrun
  obtain ⟨hsome, hkept⟩ := flag?_of_exports hfree hst hrun
  -- Validation changes what is declared, never the flag.
  have hvalidate := s.module.flag?_validate resolver.extraTypes name
  rw [← hvalidate, Module.flag?, Option.isSome_map] at hsome
  obtain ⟨d, hd⟩ := Option.isSome_iff_exists.1 hsome
  have hflag : s.module.flag? name = some d.exported := by
    rw [← hvalidate, Module.flag?, hd]
    rfl
  rw [hflag] at hkept hlost
  refine ⟨d, hd, fun hlocal => Option.some.inj (hkept hlocal), ?_, acts, hacts, ?_, ?_⟩
  · rintro mid c rest t rfl hmid hpending hname hexports
    have hsplit : before ++ st :: (mid ++ c :: rest) = (before ++ st :: mid) ++ c :: rest := by simp
    rw [hsplit] at hfree hrun
    have hrest := (List.forall_mem_append.1 hfree).2
    have hfalse := flag?_of_local hrest hname hexports hpending hmid hrun
    exact Option.some.inj (hflag.symm.trans hfalse)
  · rw [hpartial, hs]
  · rw [← hlost]
    cases d.exported with
    | false => simp
    | true => simp

/-- `var n = 2; exports.n = 1; exports.k = 3;` keeps the export of `n`. -/
theorem exports_kept_after_local :
    let sts := [declarationOf "n" (leaf .number "2"), exportOf "n" (leaf .number "1"),
      exportOf "k" (leaf .number "3")]
    ∃ m d, (ofTree {} "m" (sourceOf sts)).result = .ok m ∧ m.items.get? "n" = some d ∧
      d.exported = true := by
  intro sts
  have hname : '.' ∉ "n".toList := by decide
  have hfirst : runFrom (step {} [] (declarationOf "n" (leaf .number "2"))) (start "m") = _ :=
    runFrom_declarationOf rfl "n" "2" (start "m")
  have hsecond (s : BuildState) : runFrom (step {} [declarationOf "n" (leaf .number "2")]
      (exportOf "n" (leaf .number "1"))) s = _ := runFrom_exportOf rfl hname "1" s
  have hthird (s : BuildState) : runFrom (step {} [exportOf "n" (leaf .number "1"),
      declarationOf "n" (leaf .number "2")] (exportOf "k" (leaf .number "3"))) s = _ :=
    runFrom_exportOf rfl (show '.' ∉ "k".toList by decide) "3" s
  obtain ⟨s, hrun⟩ : ∃ s, runFrom (statements {} [] sts) (start "m") = (.ok (), s) := by
    rw [statements_cons, runFrom_bind_of_ok hfirst, statements_cons,
      runFrom_bind_of_ok (hsecond _), statements_cons, runFrom_bind_of_ok (hthird _)]
    exact ⟨_, rfl⟩
  have hresult : (ofTree {} "m" (sourceOf sts)).result = _ := result_ofTree hrun
  have hfree : ∀ c ∈ sts, ¬ c.Assigns "module.exports" :=
    List.forall_mem_cons.2 ⟨not_assigns_declarationOf "n" "2" _,
      List.forall_mem_cons.2 ⟨not_assigns_exportOf (by decide) "1",
        List.forall_mem_singleton.2 (not_assigns_exportOf (by decide) "3")⟩⟩
  obtain ⟨d, hd, hkept, -⟩ := exports_kept {} "m" (sourceOf sts) _ "n" [_] _ [_] rfl hresult
    hfree (exports_exportOf hname _)
  refine ⟨_, d, hresult, hd, hkept ?_⟩
  exact List.forall_mem_cons.2 ⟨by decide, List.forall_mem_singleton.2 (by decide)⟩

/-- `exports.n = 1; var n = 2;` loses the export: the local declaration takes the slot. -/
theorem export_lost_to_local :
    let sts := [exportOf "n" (leaf .number "1"), declarationOf "n" (leaf .number "2")]
    (exportOf "n" (leaf .number "1")).Exports "n" ∧
      (∀ c ∈ sts, ¬ c.Assigns "module.exports") ∧
      ∃ m d, (ofTree {} "m" (sourceOf sts)).result = .ok m ∧ m.items.get? "n" = some d ∧
        d.exported = false := by
  intro sts
  have hname : '.' ∉ "n".toList := by decide
  have hfirst : runFrom (step {} [] (exportOf "n" (leaf .number "1"))) (start "m") = _ :=
    runFrom_exportOf rfl hname "1" (start "m")
  have hsecond (s : BuildState) : runFrom (step {} [exportOf "n" (leaf .number "1")]
      (declarationOf "n" (leaf .number "2"))) s = _ :=
    runFrom_declarationOf rfl "n" "2" s
  have hrun : runFrom (statements {} [] sts) (start "m") = (.ok (), (start "m").afterAll
      [.memberwise, .register "n" (number.setExported true), .register "n" number]) := by
    rw [statements_cons, runFrom_bind_of_ok hfirst, statements_cons,
      runFrom_bind_of_ok (hsecond _)]
    rfl
  refine ⟨exports_exportOf hname _, ?_, _, _, result_ofTree hrun, rfl, rfl⟩
  exact List.forall_mem_cons.2 ⟨not_assigns_exportOf (by decide) "1",
    List.forall_mem_singleton.2 (not_assigns_declarationOf "n" "2" _)⟩

end Build

end Ambient
