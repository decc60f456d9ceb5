import Ambient.Proofs.Build.Kept
import Ambient.Proofs.Build.Pass

/-!
# Relations that exports keep

What `Relations that a pass keeps` says of local declarations, carried on to exports and to all
statements of a source.  An export marks a name that it has just declared, marks or registers a name
under itself, or registers a name of another module.  That a declared name was registered is what a
relation may ask before it is marked, so it is shown first.
-/

namespace Ambient.Build

variable {α β : Type}

/-! ### Declared names are registered -/

/-- Names that were registered stay so. -/
def Grows (x : Build α) : Prop :=
  ∀ s, s.registered ⊆ (runFrom x s).2.registered

theorem registered_subset_afterAll (s : BuildState) (acts : List Act) :
    s.registered ⊆ (s.afterAll acts).registered := by
  induction acts generalizing s with
  | nil => exact List.Subset.refl _
  | cons a acts ih =>
      refine List.Subset.trans ?_ (ih (s.after a))
      cases a with
      | register name d => exact List.subset_cons_self name s.registered
      | _ => exact List.Subset.refl _

theorem Traced.grows {P : Act → Prop} {x : Build α} (h : Traced P x) : Grows x := by
  intro s
  obtain ⟨acts, -, hs⟩ := h s
  rw [hs]
  exact registered_subset_afterAll s acts

theorem Grows.bind_of {Q : α → Prop} {x : Build α} {f : α → Build β} (hx : Grows x)
    (hgives : Gives Q x) (hf : ∀ a, Q a → Grows (f a)) : Grows (x >>= f) := by
  intro s
  have hfirst := hx s
  rw [runFrom_bind]
  rcases hrun : runFrom x s with ⟨_ | a, mid⟩
  · rw [hrun] at hfirst
    exact hfirst
  · rw [hrun] at hfirst
    exact List.Subset.trans hfirst (hf a (hgives s a mid hrun) mid)

theorem Grows.bind {x : Build α} {f : α → Build β} (hx : Grows x) (hf : ∀ a, Grows (f a)) :
    Grows (x >>= f) :=
  hx.bind_of (Q := fun _ => True) (fun _ _ _ _ => trivial) fun a _ => hf a

theorem congruence_grows : PassCongruence Node.SameCode Context.Alike fun _ x _ => Grows x where
  toLikeness := Node.likeness_sameCode
  toAgreement := Context.agreement_alike
  pure _ := fun _ => List.Subset.refl _
  throw _ := fun _ => List.Subset.refl _
  unhandled _ _ := fun _ => List.Subset.refl _
  bind := .bind
  notify := fun _ => List.Subset.refl _
  readComment _ := (traced_readComment (P := fun _ => True) (fun _ _ => trivial) _).grows
  bind_of := .bind_of
  register name _ _ := fun s => List.subset_cons_self name s.registered
  describe _ := fun _ => List.Subset.refl _

theorem assignsAlike_grows (n : Node) :
    AssignsAlike Node.SameCode Context.Alike (fun _ x _ => Grows x) n := by
  intro e _ _ _ hk _ c _ _
  have hnote : ∀ a : Act, a.IsNote → (fun _ => True) a := fun _ _ => trivial
  exact (traced_assign hnote c e hk (fun _ _ _ _ => trivial) fun v _ =>
    traced_value hnote c v fun _ _ _ _ => trivial).grows

/-- Every name that the step gives is registered by then. -/
def Registers (x : Build (List String)) : Prop :=
  ∀ s names s', runFrom x s = (.ok names, s') → names ⊆ s'.registered

namespace Registers

theorem nil : Registers (pure []) := by
  intro s names s' hrun
  cases hrun
  exact List.nil_subset _

theorem unhandled (ctx : Context) (n : Node) : Registers (unhandled ctx n) := by
  intro s names s' hrun
  cases hrun

theorem registered (x : Build Decl) (name : String) :
    Registers (do
      let d ← x
      register name d
      return [name]) := by
  intro s names s' hrun
  obtain ⟨d, mid, -, hlast⟩ := runFrom_bind_ok hrun
  cases hlast
  exact List.cons_subset.2 ⟨List.mem_cons_self .., List.nil_subset _⟩

theorem append {x y : Build (List String)} (hx : Registers x) (hy : Registers y) (hgrows : Grows y) :
    Registers (do
      let first ← x
      let others ← y
      return first ++ others) := by
  intro s names s' hrun
  obtain ⟨first, mid, hfirst, hrun⟩ := runFrom_bind_ok hrun
  obtain ⟨others, last, hothers, hrun⟩ := runFrom_bind_ok hrun
  cases hrun
  have hkept : mid.registered ⊆ s'.registered := by
    have hgrown := hgrows mid
    rwa [hothers] at hgrown
  exact List.append_subset.2
    ⟨List.Subset.trans (hx s first mid hfirst) hkept, hy mid others s' hothers⟩

end Registers

theorem registers_onlyKind (ctx : Context) (k : Kind) {f : Context → Node → Build (List String)}
    {n : Node} (h : ∀ ctx, Registers (f ctx n)) : Registers (onlyKind ctx k f n) := by
  rw [onlyKind]
  split
  · exact h _
  · exact .unhandled _ n

theorem registers_bindMember (ctx : Context) (path : Option String) (own imported : String) :
    Registers (bindMember ctx path own imported) := by
  unfold bindMember
  split
  · exact .registered _ own
  · exact .registered _ own

theorem registers_patternMember (ctx : Context) (path : Option String) (n : Node) :
    Registers (patternMember ctx path n) := by
  unfold patternMember
  dsimp only
  split
  · exact registers_bindMember _ path _ _
  · split
    · exact registers_onlyKind _ _ fun _ => registers_bindMember _ path _ _
    · exact .unhandled _ n
  · exact .unhandled _ n

theorem registers_patternNames (ctx : Context) (path : Option String) (nodes : List Node) :
    Registers (patternNames ctx path nodes) := by
  induction nodes with
  | nil => exact .nil
  | cons n nodes ih =>
      have hsame : List.Forall₂ Node.SameCode nodes nodes := Node.forall₂_sameCode rfl
      have hgrows := related_patternNames congruence_grows (.refl ctx) path hsame
      exact .append (registers_patternMember ctx path n) ih hgrows

theorem registers_declaratorNames (keyword : String) (ctx : Context) (n : Node) :
    Registers (declaratorNames keyword ctx n) := by
  unfold declaratorNames
  split
  · exact .unhandled _ n
  · dsimp only
    split
    · exact .registered _ _
    · exact registers_patternNames _ _ _
    · exact .unhandled _ _

theorem registers_declaratorsNames (keyword : String) (ctx : Context) (nodes : List Node) :
    Registers (declaratorsNames keyword ctx nodes) := by
  induction nodes with
  | nil => exact .nil
  | cons n nodes ih =>
      have hsame : List.Forall₂ Node.SameCode nodes nodes := Node.forall₂_sameCode rfl
      have hgrows := related_declaratorsNames congruence_grows (.refl ctx) keyword hsame fun e _ =>
        assignsAlike_grows e
      exact .append (registers_onlyKind ctx _ fun c => registers_declaratorNames keyword c n) ih
        hgrows

theorem registers_registerNamed (ctx : Context) (n : Node) (x : Build Decl) :
    Registers (registerNamed ctx n x) := by
  unfold registerNamed
  split
  · exact .unhandled _ n
  · exact .registered _ _

theorem registers_declarationNames (ctx : Context) (n : Node) :
    Registers (declarationNames ctx n) := by
  rw [declarationNames, declarationNames?]
  split
  · exact registers_declaratorsNames _ _ _
  · exact registers_declaratorsNames _ _ _
  · exact registers_registerNamed _ _ _
  · exact registers_registerNamed _ _ _
  · exact registers_registerNamed _ _ _
  · exact .unhandled _ n

/-! ### Exports -/

/-- Exports a name, as itself or under another one. -/
def exportOwn (exported name : String) : Build Unit := do
  if exported = name && ((← item? name).any fun d => !d.isAlias) then
    modifyModule (·.markExported name)
  else register exported (.aliasOf { exported := true } name)

/-- A relation between steps that is kept by composing them, by registering declarations and by
exporting names. -/
structure ExportCongruence (S : Node → Node → Prop) (K : Context → Context → Prop)
    (R : (α : Type) → Build α → Build α → Prop) : Prop extends PassCongruence S K R where
  registerAny (name : String) (d : Decl) : R Unit (Build.register name d) (Build.register name d)
  exportOwn (exported name : String) : R Unit (exportOwn exported name) (exportOwn exported name)
  exportAll {x y : Build (List String)} (hx : R _ x y) (hregisters : Registers x) :
    R Unit (x >>= fun names => names.forM fun name => modifyModule (·.markExported name))
      (y >>= fun names => names.forM fun name => modifyModule (·.markExported name))

theorem statements_cons_of_isLineComment {d : Node} (hd : d.IsLineComment) (ctx : Context)
    (before nodes : List Node) :
    statements ctx before (d :: nodes) = statements ctx (d :: before) nodes := by
  have hskip : statement (ctx.behind before) d = pure () := by
    unfold statement
    simp only [hd.kind]
    rw [commentStatement, hd.not_isBlock]
    rfl
  rw [statements_cons, step, if_pos hd.isNamed, hskip]
  exact pure_bind ..

variable {S : Node → Node → Prop} {K : Context → Context → Prop}
  {R : (α : Type) → Build α → Build α → Prop} (hR : ExportCongruence S K R)
  {c c' : Context} {n n' : Node}

include hR

theorem related_exportSpecifier (path : Option String) (hn : S n n')
    (hk : n.kind = .exportSpecifier) :
    R _ (exportSpecifier path n) (exportSpecifier path n') := by
  unfold exportSpecifier
  rw [hR.map_text hn hk rfl, hR.map_text hn hk rfl]
  cases path with
  | some path => exact hR.registerAny _ _
  | none => exact hR.exportOwn _ _

theorem related_exportClause (h : K c c') (path : Option String) (hn : S n n') :
    R _ (exportClause c path n) (exportClause c' path n') := by
  have hinner := hR.enter h hn
  unfold exportClause
  rw [← hR.kind hn]
  dsimp only
  split
  · refine related_eachCode hR.toPassCongruence (hR.children hn) fun s s' _ hs => ?_
    exact related_onlyKind hR.toPassCongruence hinner _ hs fun hk _ _ _ =>
      related_exportSpecifier hR path hs hk
  · rename_i hk
    rw [exportNamespace, exportNamespace, hR.namespaceName hn (hk ▸ rfl)]
    exact hR.registerAny _ _
  · exact hR.pure _
  · exact hR.unhandled hinner hn

theorem related_exportList (h : K c c') (hn : S n n') (hk : n.kind = .exportStatement) :
    R _ (exportList c n) (exportList c' n') := by
  have hclauses : List.Forall₂ S (n.codeChildren.filter (·.kind != .decorator))
      (n'.codeChildren.filter (·.kind != .decorator)) := by
    rw [Node.codeChildren, Node.codeChildren, List.filter_filter, List.filter_filter]
    refine (hR.children hn).filter (fun e e' he => ?_) fun e he => ?_
    · rw [hR.kind he, hR.isNamed he, hR.isComment he]
    · rw [he.isComment, Bool.not_true, Bool.and_false, Bool.and_false]
  have hpath : (n.child? .source).map (·.unquoted) = (n'.child? .source).map (·.unquoted) :=
    hR.map_unquoted hn hk rfl
  unfold exportList
  rw [hpath]
  dsimp only
  generalize n.codeChildren.filter (·.kind != .decorator) = clauses at hclauses ⊢
  generalize n'.codeChildren.filter (·.kind != .decorator) = clauses' at hclauses ⊢
  have hall : (clauses.all fun c => c.kind != .exportClause && c.kind != .namespaceExport) =
      clauses'.all fun c => c.kind != .exportClause && c.kind != .namespaceExport := by
    induction hclauses with
    | nil => rfl
    | cons hc _ ih => rw [List.all_cons, List.all_cons, hR.kind hc, ih]
  refine hR.bind (related_nodes hR.toPassCongruence hclauses fun e e' _ he =>
    related_exportClause hR h _ he) fun _ => ?_
  split
  · rw [hall]
    split
    · exact hR.registerAny _ _
    · exact hR.pure _
  · exact hR.pure _

theorem related_exportDefault (h : K c c') (hn : S n n') (hf : n.isFunction = false)
    (hassign : AssignsAlike S K R n) : R _ (exportDefault c n) (exportDefault c' n') := by
  have hregister (d : Decl) : R _ (register "default" (d.setExported true))
      (register "default" (d.setExported true)) := hR.registerAny _ _
  unfold exportDefault
  rcases hR.child? hn .declaration with ⟨d, d', hd, hd', hdd⟩ | ⟨hd, hd'⟩
  · have hnames := related_declarationNames hR.toPassCongruence h hdd
      (hassign.child hf (Node.mem_children_of_child? hd))
    rw [hd, hd']
    refine hR.bind hnames fun names => ?_
    split
    · exact hR.bind (hR.pure _) hregister
    · exact hR.bind (hR.throw _) hregister
  · rcases hR.child? hn .value with ⟨v, v', hv, hv', hvv⟩ | ⟨hv, hv'⟩
    · have hvalue := related_value hR.toCongruence v
        (hassign.child hf (Node.mem_children_of_child? hv)) v' hvv c c' h
      rw [hd, hd', hv, hv']
      exact hR.bind hvalue hregister
    · rw [hd, hd', hv, hv']
      exact hR.bind (hR.unhandled h hn) hregister

theorem related_exportStatement (h : K c c') (hn : S n n') (hk : n.kind = .exportStatement)
    (hassign : AssignsAlike S K R n) : R _ (exportStatement c n) (exportStatement c' n') := by
  have hf := Node.isFunction_eq_false hk rfl
  unfold exportStatement
  rw [hR.any_kind hn (k := .token "default") (by nofun)]
  split
  · exact related_exportDefault hR h hn hf hassign
  · rcases hR.child? hn .declaration with ⟨d, d', hd, hd', hdd⟩ | ⟨hd, hd'⟩
    · have hnames := related_declarationNames hR.toPassCongruence h hdd
        (hassign.child hf (Node.mem_children_of_child? hd))
      rw [hd, hd']
      exact hR.exportAll hnames (registers_declarationNames c d)
    · rw [hd, hd']
      exact related_exportList hR h hn hk

/-! ### All statements -/

/-- The statements of a source are related when the assignments in them are. -/
theorem related_statements (h : K c c') {host : Bool} {before before' nodes nodes' : List Node}
    (hbefore : (Context.documenting before).map Node.text =
      (Context.documenting before').map Node.text)
    (hnodes : Node.Padded host S nodes nodes') (hassign : ∀ e ∈ nodes, AssignsAlike S K R e) :
    R _ (statements c before nodes) (statements c' before' nodes') := by
  induction hnodes generalizing before before' with
  | nil => exact hR.pure ()
  | pad _ hd _ ih =>
      rw [statements_cons_of_isLineComment hd]
      refine ih ?_ hassign
      rw [Context.documenting_cons_of_isLineComment hd]
      exact hbefore
  | @cons n n' nodes nodes' hn _ _ ih =>
      obtain ⟨hfirst, hothers⟩ := List.forall_mem_cons.1 hassign
      have hstep : R _ (step c before n) (step c' before' n') := by
        rw [step, step, ← hR.isNamed hn]
        split
        · exact related_statement hR.toPassCongruence (hR.behind h hbefore) hn hfirst
            fun hk _ _ hc => related_exportStatement hR hc hn hk hfirst
        · exact hR.pure ()
      rw [statements_cons, statements_cons]
      exact hR.bind hstep fun _ =>
        ih (Context.map_text_documenting_cons hR.toLikeness hn hbefore) hothers

end Ambient.Build
