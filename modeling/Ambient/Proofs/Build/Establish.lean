import Ambient.Proofs.Build.Statement

/-!
# Statements that export a name

The forms in which a statement exports a name, and what they come to: every finished run of such a
statement exports the name at some point, and from there on registers only the names that the
statement declares.
-/

namespace Ambient

namespace Node

/-- The node is an assignment that exports the name. -/
def ExportsMember (e : Node) (name : String) : Prop :=
  '.' ∉ name.toList ∧ ∃ owner, (owner = "exports" ∨ owner = "module.exports") ∧
    e.AssignsTo (owner ++ "." ++ name)

/-- The node declares a plain name, and its initialiser exports the name. -/
def DeclaratorExports (n : Node) (name : String) : Prop :=
  ∃ target v, n.child? .name = some target ∧ target.kind = .identifier ∧
    n.child? .value = some v ∧ v.ExportsMember name

/-- The node declares variables, and the initialiser of one exports the name. -/
def DeclarationExports (n : Node) (name : String) : Prop :=
  (n.kind = .variableDeclaration ∨ n.kind = .lexicalDeclaration) ∧
    ∃ c ∈ n.codeChildren, c.DeclaratorExports name

/-- The statement exports the name. -/
inductive Exports (name : String) : Node → Prop
  | assigned {st e : Node} (hk : st.kind = .expressionStatement)
      (he : st.codeChildren.head? = some e) (h : e.ExportsMember name) : Exports name st
  | declared {st : Node} (h : st.DeclarationExports name) : Exports name st
  | declaredExported {st d : Node} (hk : st.kind = .exportStatement)
      (hd : st.child? .declaration = some d) (h : d.DeclarationExports name) : Exports name st
  | specified {st clause specifier : Node} (hk : st.kind = .exportStatement)
      (hdefault : st.children.any (·.kind == .token "default") = false)
      (hd : st.child? .declaration = none) (hclause : clause ∈ st.codeChildren)
      (hkclause : clause.kind = .exportClause) (hspecifier : specifier ∈ clause.codeChildren)
      (h : specifier.specifierName = name) : Exports name st

end Node

/-- The act registers local declarations under the given names only and does not export the module
as a whole. -/
def Act.Within (names : List String) (a : Act) : Prop :=
  ¬ a.IsAggregate ∧ ∀ name, a.Binds name → name ∈ names

namespace Build

variable {α β : Type} {E : String → Prop} {names others : List String} {name : String}

/-- Every finished run performs acts within the given names. -/
def Keeps (names : List String) (x : Build α) : Prop :=
  ∀ s a s', runFrom x s = (.ok a, s') →
    ∃ acts : List Act, (∀ b ∈ acts, b.Within names) ∧ s' = s.afterAll acts

theorem Binds.keeps {x : Build α} (h : Binds E others x) (hnames : ∀ k ∈ others, k ∈ names) :
    Keeps names x := by
  intro s a s' hrun
  obtain ⟨acts, hacts, hs⟩ := h s a s' hrun
  refine ⟨acts, fun b hb => ⟨hacts.memberwise b hb, fun k hk => ?_⟩, hs⟩
  exact hnames k (hacts.mem_of_binds hb hk)

theorem Traced.keeps {x : Build α} (h : Traced (Act.Spares E) x) : Keeps names x :=
  (Binds.of_traced h).keeps (List.forall_mem_nil _)

theorem keeps_pure (a : α) : Keeps names (pure a : Build α) :=
  fun s _ _ hrun => ⟨[], List.forall_mem_nil _, by cases hrun; rfl⟩

theorem Keeps.bind {x : Build α} {f : α → Build β} (hx : Keeps names x)
    (hf : ∀ a, Keeps names (f a)) : Keeps names (x >>= f) := by
  intro s b s' hrun
  obtain ⟨a, mid, hx', hf'⟩ := runFrom_bind_ok hrun
  obtain ⟨acts, hacts, rfl⟩ := hx s a mid hx'
  obtain ⟨rest, hrest, rfl⟩ := hf a _ b s' hf'
  refine ⟨acts ++ rest, List.forall_mem_append.2 ⟨hacts, hrest⟩, ?_⟩
  rw [BuildState.afterAll_append]

theorem Keeps.forM {xs : List β} {f : β → Build Unit} (h : ∀ b ∈ xs, Keeps names (f b)) :
    Keeps names (xs.forM f) := by
  induction xs with
  | nil => exact keeps_pure _
  | cons b xs ih =>
      exact (h b (List.mem_cons_self ..)).bind fun _ =>
        ih fun c hc => h c (List.mem_cons_of_mem _ hc)

theorem keeps_register (h : name ∈ names) (d : Decl) (a : α) :
    Keeps names (do
      register name d
      return a) := by
  intro s b s' hrun
  cases hrun
  refine ⟨[.register name d], List.forall_mem_singleton.2 ⟨fun h => h, ?_⟩, rfl⟩
  rintro k ⟨rfl, -⟩
  exact h

/-- Every finished run exports the name at some point and performs acts within the given names from
there on. -/
def Establishes (names : List String) (name : String) (x : Build α) : Prop :=
  ∀ s a s', runFrom x s = (.ok a, s') → ∃ (mid : BuildState) (acts : List Act),
    mid.module.flag? name = some true ∧ (∀ b ∈ acts, b.Within names) ∧ s' = mid.afterAll acts

namespace Establishes

theorem of_ok {x : Build α}
    (h : ∀ s a s', runFrom x s = (.ok a, s') → s'.module.flag? name = some true) :
    Establishes names name x :=
  fun s a s' hrun => ⟨s', [], h s a s' hrun, List.forall_mem_nil _, rfl⟩

theorem unhandled (ctx : Context) (n : Node) :
    Establishes names name (unhandled ctx n : Build α) :=
  of_ok fun _ _ _ hrun => by cases hrun

theorem bind_left {x : Build α} {f : α → Build β} (hx : Establishes names name x)
    (hf : ∀ a, Keeps names (f a)) : Establishes names name (x >>= f) := by
  intro s b s' hrun
  obtain ⟨a, between, hx', hf'⟩ := runFrom_bind_ok hrun
  obtain ⟨mid, acts, hmid, hacts, rfl⟩ := hx s a between hx'
  obtain ⟨rest, hrest, rfl⟩ := hf a _ b s' hf'
  refine ⟨mid, acts ++ rest, hmid, List.forall_mem_append.2 ⟨hacts, hrest⟩, ?_⟩
  rw [BuildState.afterAll_append]

theorem bind_right {x : Build α} {f : α → Build β} (hf : ∀ a, Establishes names name (f a)) :
    Establishes names name (x >>= f) := by
  intro s b s' hrun
  obtain ⟨a, between, -, hf'⟩ := runFrom_bind_ok hrun
  exact hf a between b s' hf'

theorem forM {xs : List β} {f : β → Build Unit} {b : β} (hb : b ∈ xs)
    (h : Establishes names name (f b)) (hkeeps : ∀ c ∈ xs, Keeps names (f c)) :
    Establishes names name (xs.forM f) := by
  induction xs with
  | nil => cases hb
  | cons c xs ih =>
      have htail := fun e he => hkeeps e (List.mem_cons_of_mem _ he)
      rcases List.mem_cons.1 hb with rfl | hb
      · exact bind_left h fun _ => .forM htail
      · exact bind_right fun _ => ih hb htail

/-- The item is there after the run. -/
theorem isSome_flag? {x : Build α} (hx : Establishes names name x) {s s' : BuildState} {a : α}
    (hrun : runFrom x s = (.ok a, s')) : (s'.module.flag? name).isSome := by
  obtain ⟨mid, acts, hmid, -, rfl⟩ := hx s a s' hrun
  exact BuildState.isSome_flag?_afterAll (by rw [hmid]; rfl) acts

/-- The item is exported after the run, unless the run declares the name. -/
theorem flag?_eq_true {x : Build α} (hx : Establishes names name x) (hname : name ∉ names)
    {s s' : BuildState} {a : α} (hrun : runFrom x s = (.ok a, s')) :
    s'.module.flag? name = some true := by
  obtain ⟨mid, acts, hmid, hacts, rfl⟩ := hx s a s' hrun
  exact BuildState.flag?_afterAll_eq_true hmid (fun b hb => (hacts b hb).1)
    fun b hb hbinds => hname ((hacts b hb).2 name hbinds)

end Establishes

/-! ### Assignments that export -/

/-- An item that is not an alias is marked where it stands. -/
theorem flag?_markExported_of_any {m : Module}
    (h : (m.items.get? name).any (fun d => !d.isAlias) = true) :
    (m.markExported name).flag? name = some true := by
  rw [Module.flag?_markExported, if_pos rfl, Module.flag?]
  cases hget : m.items.get? name with
  | none =>
      rw [hget] at h
      cases h
  | some d => rfl

theorem flag?_of_runFrom_exportMember {right : Node} {value : Build Decl} {s s' : BuildState}
    {u : Unit} (hrun : runFrom (exportMember name right value) s = (.ok u, s')) :
    s'.module.flag? name = some true := by
  obtain ⟨_, _, hfirst, hrest⟩ := runFrom_bind_ok hrun
  cases hfirst
  obtain ⟨_, _, hfirst, hrest⟩ := runFrom_bind_ok hrest
  cases hfirst
  dsimp only at hrest
  split at hrest
  · rename_i hplace
    cases hrest
    exact flag?_markExported_of_any (Bool.and_eq_true_iff.1 hplace).2
  · obtain ⟨d, mid, -, hregister⟩ := runFrom_bind_ok hrest
    cases hregister
    exact Module.flag?_add_of_exported (d.exported_setExported true)

theorem establishes_assign (ctx : Context) {e : Node} (h : e.ExportsMember name) :
    Establishes names name (assign ctx e) := by
  obtain ⟨hname, owner, howner, -, left, hleft, hspells⟩ := h
  refine .of_ok fun s u s' hrun => ?_
  cases hright : e.child? .right with
  | none =>
      rw [assign, hleft] at hrun
      split at hrun
      · rename_i r _ hr
        rw [hright] at hr
        cases hr
      · cases hrun
  | some right =>
      rw [assign_eq ctx hleft hright,
        runFrom_bind_of_ok (runFrom_chain_of_spells hspells ctx s), assignTo,
        ofPath_member howner hname] at hrun
      exact flag?_of_runFrom_exportMember hrun

theorem establishes_value (ctx : Context) {e : Node} (h : e.ExportsMember name)
    (hwithin : e.ExportsWithin E) : Establishes names name (value ctx e) := by
  have hk : e.kind = .assignmentExpression := by
    obtain ⟨-, _, -, hk, -⟩ := h
    exact hk
  rw [value]
  simp only [hk]
  refine .bind_left (establishes_assign _ h) fun _ => ?_
  split
  · rename_i right hright
    have hright' := hwithin.child (Node.isFunction_eq_false hk rfl) (Node.mem_children_of_child? hright)
    exact (traced_value_of_exportsWithin _ hright').keeps
  · exact (Binds.unhandled (E := E) _ e).keeps (List.forall_mem_nil _)

/-! ### Declarations -/

theorem establishes_bindingValue (ctx : Context) (keyword : String) {v : Node}
    (h : v.ExportsMember name) (hwithin : v.ExportsWithin E) :
    Establishes names name (bindingValue ctx keyword (some v)) := by
  have hliteral : isLiteral v = false := by
    obtain ⟨-, _, -, hk, -⟩ := h
    rw [isLiteral, hk]
    rfl
  refine .bind_right fun doc => ?_
  rw [hliteral, Bool.and_false, Bool.false_and, if_neg Bool.false_ne_true]
  refine .bind_left (establishes_value ctx h hwithin) fun d => ?_
  split
  · exact keeps_pure _
  · exact keeps_pure _

theorem establishes_declaratorNames (keyword : String) (ctx : Context) {n : Node}
    (hk : n.kind = .variableDeclarator) (h : n.DeclaratorExports name) (hwithin : n.ExportsWithin E)
    (hnames : ∀ k ∈ n.declaratorNames, k ∈ names) :
    Establishes names name (declaratorNames keyword ctx n) := by
  obtain ⟨target, v, htarget, hkind, hv, hexports⟩ := h
  have hv' := hwithin.child (Node.isFunction_eq_false hk rfl) (Node.mem_children_of_child? hv)
  have hmem : target.text ∈ names := by
    refine hnames _ ?_
    rw [Node.declaratorNames, htarget]
    simp [hkind]
  rw [declaratorNames, htarget]
  simp only [hkind, hv]
  exact .bind_left (establishes_bindingValue _ keyword hexports hv') fun d =>
    keeps_register hmem d _

theorem establishes_declaratorsNames (keyword : String) (ctx : Context) {nodes : List Node}
    {c : Node} (hc : c ∈ nodes) (h : c.DeclaratorExports name)
    (hwithin : ∀ n ∈ nodes, n.ExportsWithin E)
    (hnames : ∀ k ∈ nodes.flatMap Node.declaratorNames, k ∈ names) :
    Establishes names name (declaratorsNames keyword ctx nodes) := by
  induction nodes with
  | nil => cases hc
  | cons n ns ih =>
      obtain ⟨hn, hns⟩ := List.forall_mem_cons.1 hwithin
      rw [List.flatMap_cons] at hnames
      obtain ⟨hfirst, hothers⟩ := List.forall_mem_append.1 hnames
      rcases List.mem_cons.1 hc with rfl | hc
      · refine .bind_left ?_ fun first =>
          ((binds_declaratorsNames keyword ctx hns).followed fun _ => .pure _).keeps hothers
        rw [onlyKind]
        split
        · rename_i hk
          exact establishes_declaratorNames keyword _ (eq_of_beq hk) h hn hfirst
        · exact .unhandled _ c
      · exact .bind_right fun _ => .bind_left (ih hc hns hothers) fun _ => keeps_pure _

theorem establishes_declarationNames? (ctx : Context) {n : Node} {x : Build (List String)}
    (hx : declarationNames? ctx n = some x) (h : n.DeclarationExports name)
    (hwithin : n.ExportsWithin E) (hnames : ∀ k ∈ n.declaredNames, k ∈ names) :
    Establishes names name x := by
  obtain ⟨hk, c, hc, hexports⟩ := h
  have hn : n.isFunction = false := by
    rcases hk with hk | hk
    · exact Node.isFunction_eq_false hk rfl
    · exact Node.isFunction_eq_false hk rfl
  have hx' : x = declaratorsNames (keywordOf n) ctx n.codeChildren := by
    rcases hk with hk | hk
    · simpa [declarationNames?, hk] using hx.symm
    · simpa [declarationNames?, hk] using hx.symm
  have hdeclared : n.declaredNames = n.codeChildren.flatMap Node.declaratorNames := by
    rcases hk with hk | hk
    · simp [Node.declaredNames, hk]
    · simp [Node.declaredNames, hk]
  rw [hx']
  rw [hdeclared] at hnames
  have hchildren : ∀ e ∈ n.codeChildren, e.ExportsWithin E := fun e he =>
    hwithin.child hn (Node.mem_children_of_codeChildren he)
  exact establishes_declaratorsNames _ ctx hc hexports hchildren hnames

theorem establishes_declarationNames (ctx : Context) {n : Node} (h : n.DeclarationExports name)
    (hwithin : n.ExportsWithin E) (hnames : ∀ k ∈ n.declaredNames, k ∈ names) :
    Establishes names name (declarationNames ctx n) := by
  rw [declarationNames]
  cases hx : declarationNames? (ctx.enter n) n with
  | none => exact .unhandled _ n
  | some x => exact establishes_declarationNames? _ hx h hwithin hnames

/-! ### Export statements -/

theorem establishes_exportSpecifier (path : Option String) {n : Node}
    (h : n.specifierName = name) : Establishes names name (exportSpecifier path n) := by
  refine .of_ok fun s u s' hrun => ?_
  unfold exportSpecifier at hrun
  dsimp only at hrun
  rw [n.getD_renamed, h] at hrun
  split at hrun
  · cases hrun
    exact Module.flag?_add_of_exported rfl
  · obtain ⟨_, _, hfirst, hrest⟩ := runFrom_bind_ok hrun
    cases hfirst
    split at hrest
    · rename_i hplace
      have hboth := Bool.and_eq_true_iff.1 hplace
      have hname := of_decide_eq_true hboth.1
      rw [← hname] at hrest hboth
      cases hrest
      exact flag?_markExported_of_any hboth.2
    · cases hrest
      exact Module.flag?_add_of_exported rfl

theorem establishes_exportList (ctx : Context) {n clause specifier : Node}
    (hclause : clause ∈ n.codeChildren) (hk : clause.kind = .exportClause)
    (hspecifier : specifier ∈ clause.codeChildren) (h : specifier.specifierName = name) :
    Establishes names name (exportList ctx n) := by
  have hspecifiers (path : Option String) (c : Node) :
      Traced (Act.Spares fun _ => True) (exportSpecifier path c) :=
    traced_exportSpecifier (fun _ => trivial) path c
  have hclauses (path : Option String) (c : Node) :
      Traced (Act.Spares fun _ => True) (exportClause ctx path c) :=
    traced_exportClause (fun _ => trivial) ctx path c
  have hone (path : Option String) : Establishes names name (exportClause ctx path clause) := by
    have hmem := List.mem_filter.1 hspecifier
    rw [exportClause]
    simp only [hk]
    refine .forM hmem.1 ?_ fun c _ => ?_
    · rw [if_pos hmem.2, onlyKind]
      split
      · exact establishes_exportSpecifier path h
      · exact .unhandled _ specifier
    · split
      · exact (binds_onlyKind _ _ fun _ => .of_traced (hspecifiers path c)).keeps
          (List.forall_mem_nil _)
      · exact keeps_pure _
  refine .bind_left (.forM ?_ (hone _) fun c _ => (hclauses _ c).keeps) fun _ => ?_
  · exact List.mem_filter.2 ⟨hclause, by rw [hk]; rfl⟩
  · split
    · split
      · exact (traced_register (E := fun _ => True) rfl trivial).keeps
      · exact keeps_pure _
    · exact keeps_pure _

theorem establishes_exportStatement (ctx : Context) {n d : Node} (hn : n.isFunction = false)
    (hd : n.child? .declaration = some d) (h : d.DeclarationExports name)
    (hwithin : n.ExportsWithin E) (hnames : ∀ k ∈ d.declaredNames, k ∈ names) :
    Establishes names name (exportStatement ctx n) := by
  have hd' := hwithin.child hn (Node.mem_children_of_child? hd)
  have hdeclared : Establishes names name (declarationNames ctx d) :=
    establishes_declarationNames ctx h hd' hnames
  have hregister (e : Decl) : Keeps names (register "default" (e.setExported true)) :=
    (traced_register (E := fun _ => True) (e.exported_setExported true) trivial).keeps
  unfold exportStatement
  split
  · rw [exportDefault, hd]
    refine .bind_left hdeclared fun declared => ?_
    split
    · exact (keeps_pure _).bind hregister
    · exact .bind (fun _ _ _ hrun => by cases hrun) hregister
  · rw [hd]
    refine .bind_left hdeclared fun declared => .forM fun k _ => ?_
    exact (traced_markExported (E := fun _ => True) trivial).keeps

/-- A statement that exports a name exports it, and may declare the names that it binds after
that. -/
theorem establishes_statement (ctx : Context) {st : Node} (h : st.Exports name)
    (hfree : ¬ st.Assigns "module.exports") :
    Establishes st.boundNames name (statement ctx st) := by
  have hwithin := exportsWithin_mayExport hfree
  unfold statement
  dsimp only
  cases h with
  | @assigned e hk he hexports =>
      have hek : e.kind = .assignmentExpression := by
        obtain ⟨-, _, -, hek, -⟩ := hexports
        exact hek
      simp only [hk]
      rw [expressionStatement, he]
      simp only [hek]
      exact establishes_assign _ hexports
  | declared hexports =>
      have hbound : st.boundNames = st.declaredNames := by
        rcases hexports.1 with hk | hk
        · simp [Node.boundNames, hk]
        · simp [Node.boundNames, hk]
      have hdeclaration : ∀ x, declarationNames? (ctx.enter st) st = some x →
          Establishes st.boundNames name x := by
        intro x hx
        refine establishes_declarationNames? _ hx hexports hwithin ?_
        rw [hbound]
        exact fun k hk => hk
      rcases hexports.1 with hk | hk
      all_goals
        simp only [hk]
        split
        · rename_i x hx
          exact .bind_left (hdeclaration x hx) fun _ => keeps_pure _
        · exact .unhandled _ st
  | @declaredExported d hk hd hexports =>
      simp only [hk]
      refine establishes_exportStatement _ (Node.isFunction_eq_false hk rfl) hd hexports hwithin ?_
      intro k hmem
      rw [Node.boundNames, hk, hd]
      exact hmem
  | @specified clause specifier hk hdefault hd hclause hkclause hspecifier hexports =>
      simp only [hk]
      rw [exportStatement, hdefault, if_neg Bool.false_ne_true, hd]
      exact establishes_exportList _ hclause hkclause hspecifier hexports

end Build

end Ambient
