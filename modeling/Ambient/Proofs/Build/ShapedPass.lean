import Ambient.Proofs.Build.Shaped
import Ambient.Proofs.Source.Statement

/-!
# Passes keep modules in shape

The statements of a spelt source register only declarations in shape, so the module that a pass
builds is in shape, and validation keeps it so.  No source fails for want of a type name.
-/

namespace Ambient.Build

open TypeRef

variable {α : Type}

theorem keepsShape_eachCode {nodes : List Node} {f : Node → Build Unit}
    (h : ∀ n ∈ nodes, KeepsShape (f n)) : KeepsShape (eachCode nodes f) := by
  refine .forM fun n hn => ?_
  split
  · exact h n hn
  · exact .pure trivial

theorem keepsShape_onlyKind (ctx : Context) (k : Kind) {f : Context → Node → Build α} {n : Node}
    (h : ∀ ctx, KeepsShape (f ctx n)) : KeepsShape (onlyKind ctx k f n) := by
  unfold onlyKind
  dsimp only
  split
  · exact h _
  · exact .unhandled _ n

/-! ### Comments -/

theorem keepsShape_addTypedef {doc : Doc.Comment} (hdoc : doc.Sound) {tag : Doc.Tag}
    (htag : tag.Sound) : KeepsShape (addTypedef doc tag) := by
  unfold addTypedef
  split
  · exact .notify _
  · dsimp only
    split
    · rename_i e he
      have hexpands : e.Expands := by
        rcases Option.or_eq_some_iff.1 he with he | ⟨-, he⟩
        · exact htag.type e he
        · exact hdoc.expands_first? he
      exact .bind (.ofTypes hexpands) fun ts hts => .register _ (Decl.shaped_typedef.2 hts)
    · exact .bind (.pure (alternatives_singleton (named_plain (by decide)))) fun ts hts =>
        .register _ (Decl.shaped_typedef.2 hts)

theorem keepsShape_commentStatement (n : Node) : KeepsShape (commentStatement n) := by
  unfold commentStatement
  split
  · refine .bind (.readComment n) fun doc hdoc => ?_
    have htypedefs : KeepsShape ((doc.find "typedef").forM (addTypedef doc)) :=
      .forM fun tag htag => keepsShape_addTypedef hdoc (hdoc.find "typedef" tag htag)
    split
    · exact .behind (.of_act fun s => ⟨(), .describe doc.description, trivial, trivial, rfl⟩)
        fun _ => htypedefs
    · exact htypedefs
  · exact .pure trivial

/-! ### Declarations -/

theorem shapes_bindingValue (ctx : Context) {keyword : String}
    (hk : keyword ∈ ["var", "let", "const"]) {v? : Option Node} (hv : ∀ v ∈ v?, v.Spelt) :
    Shapes Decl.Inner (bindingValue ctx keyword v?) := by
  cases v? with
  | none => exact shapes_variableOf ctx alternatives_any hk
  | some v =>
      refine .bind (shapes_documentation ctx) fun doc _ => ?_
      split
      · exact .pure ⟨Decl.shaped_constant, rfl⟩
      · refine .bind (shapes_value ctx (hv v rfl)) fun d hd => ?_
        split
        · have hshaped := Decl.shaped_binding.1 hd.shaped
          exact .pure ⟨Decl.shaped_binding.2 ⟨hshaped.1, hk⟩, hd.exported⟩
        · exact .pure hd

theorem keepsShape_bindMember (ctx : Context) (path : Option String) (own imported : String) :
    KeepsShape (bindMember ctx path own imported) := by
  unfold bindMember
  split
  · exact .bind (.pure Decl.shaped_imported) fun d hd =>
      .behind (.register own hd) fun _ => .pure trivial
  · exact .bind (shapes_variableAny ctx) fun d hd =>
      .behind (.register own hd.shaped) fun _ => .pure trivial

theorem keepsShape_patternMember (ctx : Context) (path : Option String) (n : Node) :
    KeepsShape (patternMember ctx path n) := by
  unfold patternMember
  dsimp only
  split
  · exact keepsShape_bindMember _ path _ _
  · split
    · exact keepsShape_onlyKind _ _ fun ctx => keepsShape_bindMember ctx path _ _
    · exact .unhandled _ n
  · exact .unhandled _ n

theorem keepsShape_patternNames (ctx : Context) (path : Option String) (nodes : List Node) :
    KeepsShape (patternNames ctx path nodes) := by
  induction nodes with
  | nil => exact .pure trivial
  | cons n nodes ih =>
      exact .behind (keepsShape_patternMember ctx path n) fun _ => .behind ih fun _ => .pure trivial

theorem keepsShape_declaratorNames {keyword : String} (hk : keyword ∈ ["var", "let", "const"])
    (ctx : Context) {n : Node} (hn : n.Spelt) : KeepsShape (declaratorNames keyword ctx n) := by
  unfold declaratorNames
  split
  · exact .unhandled ctx n
  · dsimp only
    split
    · exact .bind (shapes_bindingValue _ hk fun v hv => hn.child? hv) fun d hd =>
        .behind (.register _ hd.shaped) fun _ => .pure trivial
    · exact keepsShape_patternNames _ _ _
    · exact .unhandled _ _

theorem keepsShape_declaratorsNames {keyword : String} (hk : keyword ∈ ["var", "let", "const"])
    (ctx : Context) {nodes : List Node} (hnodes : Node.AllSpelt nodes) :
    KeepsShape (declaratorsNames keyword ctx nodes) := by
  induction nodes with
  | nil => exact .pure trivial
  | cons n nodes ih =>
      obtain ⟨hn, hnodes⟩ := Node.allSpelt_cons.1 hnodes
      have hdeclarator := keepsShape_onlyKind ctx .variableDeclarator fun ctx =>
        keepsShape_declaratorNames hk ctx hn
      exact .behind hdeclarator fun _ => .behind (ih hnodes) fun _ => .pure trivial

theorem keepsShape_registerNamed (ctx : Context) (n : Node) {decl : Build Decl}
    (h : Shapes Decl.Inner decl) : KeepsShape (registerNamed ctx n decl) := by
  unfold registerNamed
  split
  · exact .unhandled ctx n
  · exact .bind h fun d hd => .behind (.register _ hd.shaped) fun _ => .pure trivial

theorem keepsShape_declarationNames? (ctx : Context) {n : Node} (hn : n.Spelt)
    {names : Build (List String)} (h : declarationNames? ctx n = some names) :
    KeepsShape names := by
  unfold declarationNames? at h
  split at h
  · rename_i hk
    cases h
    exact keepsShape_declaratorsNames (hn.keyword (by rw [hk]; rfl)) ctx hn.codeChildren
  · rename_i hk
    cases h
    exact keepsShape_declaratorsNames (hn.keyword (by rw [hk]; rfl)) ctx hn.codeChildren
  · cases h
    exact keepsShape_registerNamed ctx n (shapes_functionDecl ctx n)
  · cases h
    exact keepsShape_registerNamed ctx n (shapes_functionDecl ctx n)
  · cases h
    refine keepsShape_registerNamed ctx n (shapes_classValue ctx n ?_)
    intro body hbody m hm v hv ctx
    exact shapes_value ctx (((hn.child? hbody).inner m hm).inner v hv)
  · cases h

theorem keepsShape_declarationNames (ctx : Context) {n : Node} (hn : n.Spelt) :
    KeepsShape (declarationNames ctx n) := by
  rw [declarationNames]
  cases hnames : declarationNames? (ctx.enter n) n with
  | none => exact .unhandled _ n
  | some names => exact keepsShape_declarationNames? _ hn hnames

/-! ### Exports and imports -/

theorem keepsShape_exportDefault (ctx : Context) {n : Node} (hn : n.Spelt) :
    KeepsShape (exportDefault ctx n) := by
  have hregister (d : Decl) (hd : d.Inner) : KeepsShape (register "default" (d.setExported true)) :=
    .register _ (hd.shaped.setExported true)
  unfold exportDefault
  dsimp only
  split
  · rename_i declaration hdeclaration
    refine .behind (keepsShape_declarationNames ctx (hn.child? hdeclaration)) fun names => ?_
    split
    · exact .bind (.pure ⟨Decl.shaped_aliasOf, rfl⟩) hregister
    · exact .bind (.throw (by nofun)) hregister
  · rename_i v _ hv
    exact .bind (shapes_value ctx (hn.child? hv)) hregister
  · exact .bind (.unhandled ctx n) hregister

theorem keepsShape_exportSpecifier (path : Option String) (n : Node) :
    KeepsShape (exportSpecifier path n) := by
  unfold exportSpecifier
  dsimp only
  split
  · exact .register _ Decl.shaped_imported
  · refine .behind (.item? _) fun old => ?_
    split
    · exact .markExported _
    · exact .register _ Decl.shaped_aliasOf

theorem keepsShape_exportClause (ctx : Context) (path : Option String) (n : Node) :
    KeepsShape (exportClause ctx path n) := by
  unfold exportClause
  dsimp only
  split
  · exact keepsShape_eachCode fun s _ => keepsShape_onlyKind _ _ fun _ =>
      keepsShape_exportSpecifier path s
  · exact .register _ Decl.shaped_imported
  · exact .pure trivial
  · exact .unhandled _ n

theorem keepsShape_exportList (ctx : Context) (n : Node) : KeepsShape (exportList ctx n) := by
  refine .behind (.forM fun c _ => keepsShape_exportClause ctx _ c) fun _ => ?_
  split
  · split
    · exact .register _ Decl.shaped_imported
    · exact .pure trivial
  · exact .pure trivial

theorem keepsShape_exportStatement (ctx : Context) {n : Node} (hn : n.Spelt) :
    KeepsShape (exportStatement ctx n) := by
  unfold exportStatement
  split
  · exact keepsShape_exportDefault ctx hn
  · split
    · rename_i d hd
      exact .behind (keepsShape_declarationNames ctx (hn.child? hd)) fun names =>
        .forM fun name _ => .markExported name
    · exact keepsShape_exportList ctx n

theorem keepsShape_importClause (ctx : Context) (path : String) (n : Node) :
    KeepsShape (importClause ctx path n) := by
  unfold importClause
  dsimp only
  split
  · exact .register _ Decl.shaped_imported
  · exact .register _ Decl.shaped_imported
  · exact keepsShape_eachCode fun s _ => keepsShape_onlyKind _ _ fun _ =>
      .register _ Decl.shaped_imported
  · exact .unhandled _ n

theorem keepsShape_importStatement (ctx : Context) (n : Node) :
    KeepsShape (importStatement ctx n) := by
  unfold importStatement
  dsimp only
  split
  · exact .notify _
  · exact keepsShape_eachCode fun e _ => keepsShape_importClause ctx _ e

/-! ### Statements -/

theorem keepsShape_expressionStatement (ctx : Context) {n : Node} (hn : n.Spelt) :
    KeepsShape (expressionStatement ctx n) := by
  unfold expressionStatement
  split
  · exact .pure trivial
  · rename_i e he
    have hspelt : e.Spelt := hn.codeChildren e (List.mem_of_mem_head? he)
    dsimp only
    split
    · exact keepsShape_assign _ e fun right hright ctx => shapes_value ctx (hspelt.inner right hright)
    · exact .pure trivial
    · exact .notify _
    · exact .unhandled _ e

/-- A statement of a spelt source keeps the shape of the module. -/
theorem keepsShape_statement (ctx : Context) {n : Node} (hn : n.Spelt) :
    KeepsShape (statement ctx n) := by
  unfold statement
  dsimp only
  split
  · exact keepsShape_commentStatement n
  · exact keepsShape_expressionStatement _ hn
  · exact keepsShape_exportStatement _ hn
  · exact keepsShape_importStatement _ n
  · exact .pure trivial
  · exact .pure trivial
  · split
    · rename_i names hnames
      exact .behind (keepsShape_declarationNames? _ hn hnames) fun _ => .pure trivial
    · exact .unhandled _ n

/-- So do all of its statements. -/
theorem keepsShape_statements (ctx : Context) (before : List Node) {nodes : List Node}
    (hnodes : Node.AllSpelt nodes) : KeepsShape (statements ctx before nodes) := by
  induction nodes generalizing before with
  | nil => exact .pure trivial
  | cons n rest ih =>
      obtain ⟨hn, hrest⟩ := Node.allSpelt_cons.1 hnodes
      rw [statements]
      split
      · exact .behind (keepsShape_statement _ hn) fun _ => ih (n :: before) hrest
      · exact ih (n :: before) hrest

/-! ### Sources -/

/-- The module of a spelt tree is in shape, and the tree does not fail for want of a type name. -/
theorem shaped_ofTree (resolver : Resolver) (name : String) {tree : Node} (h : tree.Spelt) :
    match (ofTree resolver name tree).result with
    | .ok m => m.Shaped
    | .error f => f ≠ .type .emptyName := by
  have hkeeps := keepsShape_statements { resolver } [] h.inner
  have hstart : ({ module := { name } } : BuildState).module.Shaped :=
    Module.shaped_iff.2 ⟨List.forall_mem_nil _, by nofun⟩
  obtain ⟨acts, hacts, hstate⟩ := hkeeps.acts { module := { name } }
  have hfinal := BuildState.shaped_afterAll hacts hstart
  rw [← hstate] at hfinal
  unfold ofTree
  dsimp only
  rcases hrun : (statements { resolver } [] tree.children).run.run { module := { name } } with
    ⟨f | ⟨⟩, s⟩
  · exact hkeeps.fails _ f s hrun
  · rw [runFrom, hrun] at hfinal
    exact hfinal.validate resolver.extraTypes

/-- **Every module is in shape.**  In the module of any source, types have names at every depth and
come in non-empty lists, parameters have names, variables are declared by `var`, `let` or `const`,
and no member, constructor or whole export carries an export flag; and no source fails for want of a
type name. -/
theorem ofSource_in_shape (resolver : Resolver) (name source : String) :
    match (ofSource resolver name source).result with
    | .ok m => m.Shaped
    | .error f => f ≠ .type .emptyName := by
  unfold ofSource
  cases htree : Source.parse? source with
  | none => nofun
  | some tree => exact shaped_ofTree resolver name (Source.spelt_of_parse? htree)

example : ((ofSource {} "m" "let a").result.toOption.map fun m =>
    m.items.map fun e => (e.1, e.2.keyword?, e.2.types?.map fun ts => ts.map TypeRef.name)) =
      some [("a", some "let", some ["any"])] := by
  decide +kernel

end Ambient.Build
