import Ambient.Proofs.Build.Lockstep

/-!
# Exporting a name as itself

`exports.n = n` and `export { n }` export a name as itself.  An item that is a declaration of its
own is marked where it stands, so that both forms come to what `export` before the declaration comes
to.  An item that is another name for something is replaced by an alias of its own name: it no longer
says what it stood for.
-/

namespace Ambient

namespace Node

/-- The statement exports the name as itself. -/
inductive ExportsOwn (name : String) : Node → Prop
  | assigned {st e right : Node} (hk : st.kind = .expressionStatement)
      (he : st.codeChildren.head? = some e) (h : e.ExportsMember name)
      (hright : e.child? .right = some right) (hkright : right.kind = .identifier)
      (hname : right.text = name) : ExportsOwn name st
  | listed {st clause specifier target : Node} (hk : st.kind = .exportStatement)
      (hdefault : st.children.any (·.kind == .token "default") = false)
      (hd : st.child? .declaration = none) (hsource : st.child? .source = none)
      (hclause : st.codeChildren = [clause]) (hkclause : clause.kind = .exportClause)
      (hspecifier : clause.codeChildren = [specifier])
      (hkspecifier : specifier.kind = .exportSpecifier)
      (htarget : specifier.child? .name = some target) (hname : target.text = name)
      (hrenamed : specifier.specifierName = name) : ExportsOwn name st

/-- The node declares variables, a function or a class. -/
def IsDeclaration (n : Node) : Prop :=
  n.kind = .variableDeclaration ∨ n.kind = .lexicalDeclaration ∨ n.kind = .functionDeclaration ∨
    n.kind = .generatorFunctionDeclaration ∨ n.kind = .classDeclaration

/-- The statement is an export of a declaration with the code of the given one. -/
structure ExportsDeclaration (st declaration : Node) : Prop where
  kind : st.kind = .exportStatement
  default : st.children.any (·.kind == .token "default") = false
  declaration : ∃ d, st.child? .declaration = some d ∧ declaration.SameCode d

end Node

namespace Build

variable {name : String} {ctx : Context} {st : Node}

/-! ### The two forms -/

/-- The acts that export a name as itself. -/
def ownExportActs (name : String) (old : Option Decl) : List Act :=
  if old.any Decl.isOwn then [.mark name] else [.register name (.aliasOf { exported := true } name)]

theorem runFrom_identifier (hctx : ctx.comment = none) {n : Node} (hk : n.kind = .identifier)
    (s : BuildState) : runFrom (value ctx n) s = (.ok (.aliasOf {} n.text), s) := by
  obtain ⟨resolver, trail, comment⟩ := ctx
  cases hctx
  rw [value]
  simp only [hk]
  rfl

theorem runFrom_exportMember_own {right : Node} (hk : right.kind = .identifier)
    (hname : right.text = name) (hctx : ctx.comment = none) (s : BuildState) :
    runFrom (exportMember name right (value ctx right)) s =
      (.ok (), s.afterAll (.memberwise :: ownExportActs name (s.module.items.get? name))) := by
  have hkind : (right.kind == .identifier && right.text == name) = true := by
    rw [hk, hname, beq_self_eq_true, beq_self_eq_true, Bool.and_self]
  have hitem : runFrom (item? name) (s.after .memberwise) =
      (.ok (s.module.items.get? name), s.after .memberwise) := rfl
  have hmode : runFrom (modifyModule fun m => { m with aggregate := none }) s =
      (.ok (), s.after .memberwise) := rfl
  rw [exportMember, runFrom_bind_of_ok hmode, runFrom_bind_of_ok hitem]
  dsimp only
  rw [hkind, Bool.true_and, Decl.any_not_isAlias, ownExportActs]
  split
  · rfl
  · rw [runFrom_bind_of_ok (runFrom_identifier hctx hk _), hname]
    rfl

theorem runFrom_exportSpecifier_own {n target : Node} (htarget : n.child? .name = some target)
    (hname : target.text = name) (hrenamed : n.specifierName = name) (s : BuildState) :
    runFrom (exportSpecifier none n) s =
      (.ok (), s.afterAll (ownExportActs name (s.module.items.get? name))) := by
  have htext : ((n.child? .name).map (·.text)).getD "" = name := by
    rw [htarget]
    exact hname
  unfold exportSpecifier
  dsimp only
  rw [n.getD_renamed, hrenamed, htext, runFrom_bind_of_ok (runFrom_item? name s),
    decide_eq_true rfl, Bool.true_and, Decl.any_not_isAlias, ownExportActs]
  split
  · rfl
  · rfl

theorem runFrom_exportClause_own {clause specifier target : Node}
    (hk : clause.kind = .exportClause) (hspecifier : clause.codeChildren = [specifier])
    (hkspecifier : specifier.kind = .exportSpecifier)
    (htarget : specifier.child? .name = some target) (hname : target.text = name)
    (hrenamed : specifier.specifierName = name) (ctx : Context) (s : BuildState) :
    runFrom (exportClause ctx none clause) s =
      (.ok (), s.afterAll (ownExportActs name (s.module.items.get? name))) := by
  have hspecifiers : clause.children.filter (fun n => n.isNamed && !n.isComment) = [specifier] :=
    hspecifier
  have hone (c : Context) : runFrom (onlyKind c .exportSpecifier
      (fun _ e => exportSpecifier none e) specifier) s =
        (.ok (), s.afterAll (ownExportActs name (s.module.items.get? name))) := by
    rw [onlyKind, hkspecifier, beq_self_eq_true, if_pos rfl]
    exact runFrom_exportSpecifier_own htarget hname hrenamed s
  rw [exportClause]
  simp only [hk]
  rw [eachCode_eq, hspecifiers]
  exact runFrom_bind_of_ok (hone _) _

theorem runFrom_assigned_own {e right : Node} (hk : st.kind = .expressionStatement)
    (he : st.codeChildren.head? = some e) (h : e.ExportsMember name)
    (hright : e.child? .right = some right) (hkright : right.kind = .identifier)
    (hname : right.text = name) (hctx : ctx.comment = none) (s : BuildState) :
    runFrom (statement ctx st) s =
      (.ok (), s.afterAll (.memberwise :: ownExportActs name (s.module.items.get? name))) := by
  obtain ⟨hdots, owner, howner, hke, left, hleft, hspells⟩ := h
  rw [statement]
  simp only [hk]
  rw [expressionStatement, he]
  simp only [hke]
  rw [assign_eq _ hleft hright, runFrom_bind_of_ok (runFrom_chain_of_spells hspells _ s),
    assignTo, ofPath_member howner hdots]
  exact runFrom_exportMember_own hkright hname
    (show ((ctx.enter st).enter e).comment = none from hctx) s

/-- Either form marks the item, or registers an alias of its own name. -/
theorem runFrom_exportsOwn (h : st.ExportsOwn name) (hctx : ctx.comment = none) (s : BuildState) :
    ∃ mode : List Act, (mode = [] ∨ mode = [.memberwise]) ∧
      runFrom (statement ctx st) s =
        (.ok (), s.afterAll (mode ++ ownExportActs name (s.module.items.get? name))) := by
  cases h with
  | assigned hk he h hright hkright hname =>
      exact ⟨[.memberwise], .inr rfl, runFrom_assigned_own hk he h hright hkright hname hctx s⟩
  | @listed clause specifier target hk hdefault hd hsource hclause hkclause hspecifier hkspecifier
      htarget hname hrenamed =>
      have hclauses : st.codeChildren.filter (·.kind != .decorator) = [clause] := by
        rw [hclause, List.filter_cons, hkclause]
        rfl
      have hone (c : Context) := runFrom_exportClause_own hkclause hspecifier hkspecifier htarget
        hname hrenamed c s
      refine ⟨[], .inl rfl, ?_⟩
      rw [statement]
      simp only [hk]
      rw [exportStatement, hdefault, if_neg Bool.false_ne_true, hd, exportList, hsource, hclauses]
      exact runFrom_bind_of_ok (runFrom_bind_of_ok (hone _) _) _

/-! ### What becomes of the items -/

theorem items_afterAll_mode (s : BuildState) {mode : List Act}
    (hmode : mode = [] ∨ mode = [.memberwise]) :
    (s.afterAll mode).module.items = s.module.items := by
  rcases hmode with rfl | rfl
  · rfl
  · rfl

/-- A declaration of its own is marked where it stands. -/
theorem exists_runFrom_exportsOwn_of_own (h : st.ExportsOwn name) (hctx : ctx.comment = none)
    (s : BuildState) (hown : (s.module.items.get? name).any Decl.isOwn = true) :
    ∃ t, runFrom (statement ctx st) s = (.ok (), t) ∧
      t.module.items = (s.module.markExported name).items := by
  obtain ⟨mode, hmode, hrun⟩ := runFrom_exportsOwn h hctx s
  refine ⟨_, hrun, ?_⟩
  rw [ownExportActs, if_pos hown, BuildState.afterAll_append, BuildState.afterAll_cons,
    BuildState.afterAll_nil, BuildState.after, Module.markExported, items_afterAll_mode s hmode]
  rfl

/-- Another name for something is replaced by an alias of its own name. -/
theorem exists_runFrom_exportsOwn_of_alias (h : st.ExportsOwn name) (hctx : ctx.comment = none)
    (s : BuildState) {hd : Header} {target : String}
    (halias : s.module.items.get? name = some (.aliasOf hd target)) :
    ∃ t, runFrom (statement ctx st) s = (.ok (), t) ∧
      t.module.items = s.module.items.set name (.aliasOf
        { exported := true
          description := if target = name ∧ hd.exported then hd.description else "" } name) := by
  obtain ⟨mode, hmode, hrun⟩ := runFrom_exportsOwn h hctx s
  have hown : ¬ (s.module.items.get? name).any Decl.isOwn = true := by
    rw [halias]
    exact Bool.false_ne_true
  refine ⟨_, hrun, ?_⟩
  rw [ownExportActs, if_neg hown, BuildState.afterAll_append, BuildState.afterAll_cons,
    BuildState.afterAll_nil, BuildState.after, Module.add, items_afterAll_mode s hmode, halias,
    Module.handOver]
  split
  · rfl
  · rfl

/-- Several declarations are marked one by one. -/
theorem exists_runFrom_exportsOwn_all {names : List String} {sts : List Node}
    (h : List.Forall₂ Node.ExportsOwn names sts) (hctx : ctx.comment = none) (s : BuildState)
    {m : Module} (hitems : s.module.items = m.items)
    (hown : ∀ k ∈ names, (m.items.get? k).any Decl.isOwn = true) :
    ∃ t, runFrom (sts.forM (statement ctx)) s = (.ok (), t) ∧
      t.module.items = (names.foldl Module.markExported m).items := by
  induction h generalizing s m with
  | nil => exact ⟨s, rfl, hitems⟩
  | @cons k st names sts hk _ ih =>
      obtain ⟨hfirst, hothers⟩ := List.forall_mem_cons.1 hown
      rw [← hitems] at hfirst
      obtain ⟨mid, hrun, hmid⟩ := exists_runFrom_exportsOwn_of_own hk hctx s hfirst
      have hnext : mid.module.items = (m.markExported k).items := by
        rw [hmid, Module.markExported, hitems]
        rfl
      have hkept (other : String) (hother : other ∈ names) :
          ((m.markExported k).items.get? other).any Decl.isOwn = true := by
        rw [Module.get?_markExported]
        split
        · rw [Option.any_map]
          simp only [Decl.isOwn_setExported]
          exact hothers other hother
        · exact hothers other hother
      obtain ⟨t, hrest, ht⟩ := ih mid hnext hkept
      refine ⟨t, ?_, ht⟩
      exact (runFrom_bind_of_ok hrun _).trans hrest

/-! ### Exported declarations -/

theorem statement_eq_of_isDeclaration {n : Node} (h : n.IsDeclaration) (c : Context) :
    statement c n = declarationNames c n >>= fun _ => pure () := by
  rw [declarationNames]
  rcases h with hk | hk | hk | hk | hk
  all_goals
    simp only [statement, declarationNames?, hk, Option.getD_some]

theorem afterAll_mark (names : List String) (s : BuildState) :
    (s.afterAll (names.map .mark)).module = names.foldl Module.markExported s.module := by
  induction names generalizing s with
  | nil => rfl
  | cons k names ih => exact ih (s.after (.mark k))

/-- An exported declaration does what the declaration does, and marks the names it declares. -/
theorem exists_runFrom_exportsDeclaration {declaration e : Node} {c : Context} {s₀ s : BuildState}
    (hdeclaration : declaration.IsDeclaration) (he : e.ExportsDeclaration declaration)
    (hrun : runFrom (statement c declaration) s₀ = (.ok (), s)) :
    ∃ t, runFrom (statement c e) s₀ = (.ok (), t) ∧
      t.module = declaration.declaredNames.foldl Module.markExported s.module := by
  obtain ⟨hk, hdefault, d, hd, hdd⟩ := he
  rw [statement_eq_of_isDeclaration hdeclaration] at hrun
  obtain ⟨names, mid, hnames, hdone⟩ := runFrom_bind_ok hrun
  cases hdone
  obtain rfl := gives_declarationNames c declaration s₀ names s hnames
  have hlockstep : Lockstep (fun _ => True) (declarationNames c declaration)
      (declarationNames (c.enter e) d) :=
    related_declarationNames (congruence_lockstep fun _ _ => trivial).toPassCongruence (.refl c) hdd
      (assignsAlike_lockstep (fun _ _ => trivial) fun _ _ _ _ => trivial)
  obtain ⟨t, hrun', acts, -, hs, ht⟩ := hlockstep.exists_run (.of_progress rfl) hnames
  have hmodule : t.module = s.module := congrArg Progress.module (ht.trans hs.symm)
  refine ⟨t.afterAll (declaration.declaredNames.map .mark), ?_, ?_⟩
  · rw [statement]
    simp only [hk]
    rw [exportStatement, hdefault, if_neg Bool.false_ne_true, hd]
    exact (runFrom_bind_of_ok hrun' _).trans (runFrom_markAll _ t)
  · rw [afterAll_mark, hmodule]

/-- In every state that has an item under the name, exporting it as itself succeeds and leaves the
names, in their order, and every other item.  A declaration of its own is marked; another name for
something becomes an alias of its own name.  `export` before a declaration leaves what the
declaration leaves, with the declared names marked, and that is what exporting these names as
themselves comes to behind the declaration, when none is another name for something. -/
theorem own_export_marks_in_place (ctx : Context) (hctx : ctx.comment = none) :
    (∀ (name : String) (st : Node) (s : BuildState) (d : Decl), st.ExportsOwn name →
      s.module.items.get? name = some d →
      ∃ t, runFrom (statement ctx st) s = (.ok (), t) ∧
        t.module.items.names = s.module.items.names ∧
        (∀ other, other ≠ name → t.module.items.get? other = s.module.items.get? other) ∧
        (d.isAlias = false → t.module.items.get? name = some (d.setExported true) ∧
          t.module.items = (s.module.markExported name).items) ∧
        (∀ h target, d = .aliasOf h target → t.module.items.get? name = some (.aliasOf
          { exported := true
            description := if target = name ∧ h.exported then h.description else "" } name))) ∧
    (∀ (c : Context) (declaration e : Node) (s₀ s : BuildState), declaration.IsDeclaration →
      e.ExportsDeclaration declaration → runFrom (statement c declaration) s₀ = (.ok (), s) →
      ∃ t, runFrom (statement c e) s₀ = (.ok (), t) ∧
        t.module = declaration.declaredNames.foldl Module.markExported s.module ∧
        ((∀ k ∈ declaration.declaredNames,
            ∃ d, s.module.items.get? k = some d ∧ d.isAlias = false) →
          ∀ sts, List.Forall₂ Node.ExportsOwn declaration.declaredNames sts →
            ∃ t', runFrom (sts.forM (statement ctx)) s = (.ok (), t') ∧
              t'.module.items = t.module.items)) := by
  refine ⟨fun name st s d hst hd => ?_, fun c declaration e s₀ s hdeclaration he hrun => ?_⟩
  · cases halias : d.isAlias with
    | true =>
      obtain ⟨h, target, rfl⟩ : ∃ h target, d = .aliasOf h target := by
        cases d with
        | aliasOf h target => exact ⟨h, target, rfl⟩
        | _ => cases halias
      obtain ⟨t, hrun, hitems⟩ := exists_runFrom_exportsOwn_of_alias hst hctx s hd
      refine ⟨t, hrun, ?_, fun other hne => ?_, fun hown => ?_, fun h' target' heq => ?_⟩
      · rw [hitems, Table.names_set, if_pos (Table.mem_names_of_get? hd)]
      · rw [hitems, Table.get?_set_of_ne _ _ hne]
      · cases hown
      · cases heq
        rw [hitems, Table.get?_set_self]
    | false =>
      have hown : (s.module.items.get? name).any Decl.isOwn = true := by
        rw [hd, Option.any_some, Decl.isOwn, halias]
        rfl
      obtain ⟨t, hrun, hitems⟩ := exists_runFrom_exportsOwn_of_own hst hctx s hown
      refine ⟨t, hrun, ?_, fun other hne => ?_, fun _ => ⟨?_, hitems⟩, fun h target heq => ?_⟩
      · rw [hitems]
        exact Table.names_update _ _ _
      · rw [hitems, Module.get?_markExported, if_neg hne]
      · rw [hitems, Module.get?_markExported, if_pos rfl, hd]
        rfl
      · rw [heq] at halias
        cases halias
  · obtain ⟨t, ht, hmodule⟩ := exists_runFrom_exportsDeclaration hdeclaration he hrun
    refine ⟨t, ht, hmodule, fun hown sts hsts => ?_⟩
    rw [hmodule]
    refine exists_runFrom_exportsOwn_all hsts hctx s rfl fun k hk => ?_
    obtain ⟨d, hd, halias⟩ := hown k hk
    rw [hd, Option.any_some, Decl.isOwn, halias]
    rfl

/-- `export var name = value;` -/
def exportedDeclarationOf (name : String) (v : Node) : Node :=
  ⟨.exportStatement, none, "export " ++ (declarationOf name v).text, 1, 0,
    [leaf (.token "export") "export", (declarationOf name v).as .declaration]⟩

theorem exportsDeclaration_exportedDeclarationOf (name : String) (v : Node) :
    (exportedDeclarationOf name v).ExportsDeclaration (declarationOf name v) :=
  ⟨rfl, rfl, _, rfl, ⟨rfl, rfl, rfl⟩⟩

theorem exportsOwn_exportOf {name : String} (hname : '.' ∉ name.toList) :
    (exportOf name (leaf .identifier name)).ExportsOwn name :=
  .assigned rfl rfl ⟨hname, "exports", .inl rfl, rfl, _, rfl, spells_exports name .left⟩ rfl rfl rfl

theorem runFrom_exportOf_own (hctx : ctx.comment = none) (hname : '.' ∉ name.toList)
    (s : BuildState) :
    runFrom (statement ctx (exportOf name (leaf .identifier name))) s =
      (.ok (), s.afterAll (.memberwise :: ownExportActs name (s.module.items.get? name))) :=
  runFrom_assigned_own rfl rfl
    ⟨hname, "exports", .inl rfl, rfl, _, rfl, spells_exports name .left⟩ rfl rfl rfl hctx s

/-- `var n = 1; exports.n = n;` marks `n`, and `export var n = 1;` leaves the same items. -/
theorem own_export_marks_in_place_number :
    let marker := exportOf "n" (leaf .identifier "n")
    let s := (start "m").after (.register "n" number)
    ∃ t t' u, runFrom (statement {} marker) s = (.ok (), t) ∧
      t.module.items.get? "n" = some (number.setExported true) ∧
      runFrom (statement {} (exportedDeclarationOf "n" (leaf .number "1"))) (start "m") =
        (.ok (), u) ∧
      runFrom ([marker].forM (statement {})) s = (.ok (), t') ∧
      t'.module.items = u.module.items := by
  intro marker s
  have hmarker : marker.ExportsOwn "n" := exportsOwn_exportOf (by decide)
  have hrun : runFrom (statement {} (declarationOf "n" (leaf .number "1"))) (start "m") =
      (.ok (), s) := runFrom_declarationOf rfl "n" "1" (start "m")
  obtain ⟨hmarks, hwrapped⟩ := own_export_marks_in_place {} rfl
  obtain ⟨t, ht, -, -, hslot, -⟩ := hmarks "n" marker s number hmarker rfl
  obtain ⟨u, hu, -, hagree⟩ := hwrapped {} (declarationOf "n" (leaf .number "1"))
    (exportedDeclarationOf "n" (leaf .number "1")) (start "m") s (.inl rfl)
    (exportsDeclaration_exportedDeclarationOf "n" _) hrun
  have hown : ∀ k ∈ ["n"], ∃ d, s.module.items.get? k = some d ∧ d.isAlias = false :=
    List.forall_mem_singleton.2 ⟨number, rfl, rfl⟩
  obtain ⟨t', ht', hitems⟩ := hagree hown [marker] (.cons hmarker .nil)
  exact ⟨t, t', u, ht, (hslot rfl).1, hu, ht', hitems⟩

/-- `var a = 1; var n = a; exports.n = n;` loses what `n` stands for, and validation puts a constant
in its place; `export var n = a;` keeps it. -/
theorem own_export_replaces_alias :
    let a := declarationOf "a" (leaf .number "1")
    let n := declarationOf "n" (leaf .identifier "a")
    let marker := exportOf "n" (leaf .identifier "n")
    marker.ExportsOwn "n" ∧ ∃ s t u, runFrom (statements {} [] [a, n]) (start "m") = (.ok (), s) ∧
      s.module.items.get? "n" = some (.aliasOf {} "a") ∧
      runFrom (statement {} marker) s = (.ok (), t) ∧
      t.module.items.get? "n" = some (.aliasOf { exported := true } "n") ∧
      (t.module.validate []).items.get? "n" = some (.constant
        { exported := true, diagnostics := ["Alias target \"n\" was not found"] } none) ∧
      runFrom (statements {} [] [a, exportedDeclarationOf "n" (leaf .identifier "a")]) (start "m") =
        (.ok (), u) ∧
      u.module.items.get? "n" = some (.aliasOf { exported := true } "a") := by
  intro a n marker
  have hmarker : marker.ExportsOwn "n" := exportsOwn_exportOf (by decide)
  have ha (s : BuildState) : runFrom (step {} [] a) s = (.ok (), s.after (.register "a" number)) :=
    runFrom_declarationOf rfl "a" "1" s
  have hn (s : BuildState) :
      runFrom (step {} [a] n) s = (.ok (), s.after (.register "n" (.aliasOf {} "a"))) :=
    runFrom_declarationOf_of_value rfl "n" (fun _ _ _ h => by cases h)
      fun _ hc => runFrom_identifier hc rfl s
  have hs : runFrom (statements {} [] [a, n]) (start "m") = (.ok (), (start "m").afterAll
      [.register "a" number, .register "n" (.aliasOf {} "a")]) := by
    rw [statements_cons, runFrom_bind_of_ok (ha _), statements_cons, runFrom_bind_of_ok (hn _)]
    rfl
  have ht (s : BuildState) : runFrom (statement {} marker) s = _ :=
    runFrom_exportOf_own rfl (by decide) s
  obtain ⟨u, hu, hmodule⟩ := exists_runFrom_exportsDeclaration (.inl rfl)
    (exportsDeclaration_exportedDeclarationOf "n" (leaf .identifier "a"))
    (hn ((start "m").after (.register "a" number)))
  refine ⟨hmarker, _, _, u, hs, rfl, ht _, rfl, rfl, ?_, ?_⟩
  · rw [statements_cons, runFrom_bind_of_ok (ha _), statements_cons]
    exact runFrom_bind_of_ok hu _
  · rw [hmodule]
    rfl

end Build

end Ambient
