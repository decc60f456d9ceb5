import Ambient.Proofs.Build.Binding

/-!
# What declarations register

One lemma for each part of a declaration, in the order in which the parts are defined: the names it
registers as local declarations are those that its node binds.
-/

namespace Ambient.Build

variable {α : Type} {E : String → Prop} {names : List String}

theorem eq_of_ofPath_aggregate {path : String} (h : Target.ofPath path = .aggregate) :
    path = "module.exports" := by
  by_contra hne
  simp only [Target.ofPath, if_neg hne] at h
  split at h
  · cases h
  · split at h
    · cases h
    · split at h
      · cases h
      · cases h

/-- A statement that does not assign `module.exports` exports what it may export. -/
theorem exportsWithin_mayExport {st : Node} (h : ¬ st.Assigns "module.exports") :
    st.ExportsWithin st.MayExport := by
  intro path hpath
  refine ⟨fun ht => h ?_, fun name ht => .inr ⟨path, hpath, ht⟩⟩
  rw [← eq_of_ofPath_aggregate ht]
  exact hpath

/-! ### Acts -/

theorem spares_of_isNote (a : Act) (h : a.IsNote) : a.Spares E := by
  cases a with
  | notice l => exact ⟨fun h => h, rfl, fun _ h => h.elim⟩
  | commentRead start => exact ⟨fun h => h, rfl, fun _ h => h.elim⟩
  | _ => exact h.elim

theorem spares_register {name : String} {d : Decl} (hd : d.exported = true) (hname : E name) :
    (Act.register name d).Spares E := by
  refine ⟨fun h => h, ?_, ?_⟩
  · rw [Act.localName?, if_pos hd]
  · rintro _ ⟨rfl, -⟩
    exact hname

theorem spares_mark {name : String} (hname : E name) : (Act.mark name).Spares E := by
  refine ⟨fun h => h, rfl, ?_⟩
  rintro _ rfl
  exact hname

theorem spares_of_serves {a : Act} {target : Target} (haggregate : target ≠ .aggregate)
    (hexported : ∀ name, target = .exported name → E name) (h : a.Serves target) : a.Spares E := by
  have hclass (owner : String) (h : a = .promote owner ∨ ∃ f, a = .members owner f) :
      a.Spares E := by
    rcases h with rfl | ⟨f, rfl⟩
    · exact ⟨fun h => h, rfl, fun _ h => h.elim⟩
    · exact ⟨fun h => h, rfl, fun _ h => h.elim⟩
  cases target with
  | aggregate => exact (haggregate rfl).elim
  | exported name =>
      rcases h with rfl | rfl | ⟨d, hd, rfl⟩
      · exact ⟨fun h => h, rfl, fun _ h => h.elim⟩
      · exact spares_mark (hexported name rfl)
      · exact spares_register hd (hexported name rfl)
  | prototype owner => exact hclass owner h
  | prototypeMember owner member => exact hclass owner h
  | other => exact h.elim

theorem allows_spares {n : Node} (h : n.ExportsWithin E) : Allows (Act.Spares E) n := by
  intro path hpath a ha
  obtain ⟨haggregate, hexported⟩ := h path hpath
  exact spares_of_serves haggregate hexported ha

/-! ### Readers -/

theorem traced_variableOf (ctx : Context) (types : List TypeRef) (keyword : String) :
    Traced (Act.Spares E) (variableOf ctx types keyword) :=
  related_variableOf (congruence_traced spares_of_isNote) (.refl ctx) types keyword

theorem traced_value_of_exportsWithin (ctx : Context) {v : Node} (h : v.ExportsWithin E) :
    Traced (Act.Spares E) (value ctx v) :=
  traced_value spares_of_isNote ctx v (allows_spares h)

theorem traced_classValue_of_exportsWithin (ctx : Context) {n : Node} (hn : n.isFunction = false)
    (h : n.ExportsWithin E) : Traced (Act.Spares E) (classValue ctx n) := by
  refine related_classValue (congruence_traced spares_of_isNote) (.refl ctx) (.refl n) ?_
  intro body hbody d hd hfun v hv _ _ c _ _
  refine traced_value_of_exportsWithin c fun path hpath => h path ?_
  exact hpath.of_contains (.member hn hbody hd (.child hfun hv (.self v)))

theorem traced_markExported {name : String} (hname : E name) :
    Traced (Act.Spares E) (modifyModule (·.markExported name)) :=
  .of_act fun _ => ⟨.mark name, spares_mark hname, rfl⟩

theorem traced_register {name : String} {d : Decl} (hd : d.exported = true) (hname : E name) :
    Traced (Act.Spares E) (register name d) :=
  .of_act fun _ => ⟨.register name d, spares_register hd hname, rfl⟩

theorem binds_register {name : String} {d : Decl} (hd : d.exported = false) :
    Binds E [name] (register name d) := by
  intro s u s' hrun
  cases hrun
  refine ⟨[.register name d], ⟨?_, ?_, ?_⟩, rfl⟩
  · exact List.forall_mem_singleton.2 fun h => h
  · rw [List.filterMap_cons, Act.localName?, hd]
    rfl
  · refine List.forall_mem_singleton.2 ?_
    rintro _ ⟨-, hexported⟩
    rw [hd] at hexported
    cases hexported

/-- A declaration is read and registered, and its name is given. -/
theorem binds_registered {x : Build Decl} (hx : Traced (Act.Spares E) x) (hlocal : Gives IsLocal x)
    (name : String) :
    Binds E [name] (do
      let d ← x
      register name d
      return [name]) :=
  .behind_of hx hlocal fun _ hd => (binds_register hd).followed fun _ => .pure _

theorem binds_onlyKind (ctx : Context) (k : Kind) {f : Context → Node → Build α} {n : Node}
    (h : n.kind = k → Binds E names (f (ctx.enter n) n)) : Binds E names (onlyKind ctx k f n) := by
  rw [onlyKind]
  split
  · rename_i hk
    exact h (eq_of_beq hk)
  · exact .unhandled _ n

theorem eachCode_eq (nodes : List Node) (f : Node → Build Unit) :
    eachCode nodes f = (nodes.filter fun n => n.isNamed && !n.isComment).forM f := by
  induction nodes with
  | nil => rfl
  | cons n nodes ih =>
      have hsplit : eachCode (n :: nodes) f =
          (if n.isNamed && !n.isComment then f n else pure ()) >>= fun _ => eachCode nodes f := rfl
      rw [hsplit, List.filter_cons, ih]
      split
      · rfl
      · exact pure_bind _ _

theorem binds_eachCode {nodes : List Node} {f : Node → Build Unit} {g : Node → List String}
    (h : ∀ n ∈ nodes, Binds E (g n) (f n)) :
    Binds E ((nodes.filter fun n => n.isNamed && !n.isComment).flatMap g) (eachCode nodes f) := by
  rw [eachCode_eq]
  exact .forM fun n hn => h n (List.mem_of_mem_filter hn)

/-! ### Comments -/

theorem binds_addTypedef (doc : Doc.Comment) (tag : Doc.Tag) :
    Binds E tag.name.toList (addTypedef doc tag) := by
  unfold addTypedef
  split
  · rename_i hname
    rw [hname]
    exact .of_traced (traced_notify spares_of_isNote _)
  · rename_i name hname
    rw [hname]
    dsimp only
    split
    · exact .behind (.ofTypes _) fun _ => binds_register rfl
    · exact .behind (.pure _) fun _ => binds_register rfl

theorem binds_commentStatement (n : Node) : Binds E n.typedefNames (commentStatement n) := by
  have hdescribe (text : String) : Traced (Act.Spares E) (modifyModule fun m =>
      if m.description.isEmpty then { m with description := text } else m) :=
    .of_act fun _ => ⟨.describe text, ⟨fun h => h, rfl, fun _ h => h.elim⟩, rfl⟩
  have hread : Gives (· = Doc.Comment.read n.text) (readComment n) := by
    intro s doc s' hrun
    have hresult := runFrom_readComment_result n s
    rw [hrun] at hresult
    exact Except.ok.inj hresult
  rw [Node.typedefNames]
  unfold commentStatement
  split
  · refine .behind_of (traced_readComment spares_of_isNote n) hread fun doc hdoc => ?_
    rw [← hdoc]
    have htypedefs : Binds E ((doc.find "typedef").flatMap (·.name.toList))
        ((doc.find "typedef").forM (addTypedef doc)) := .forM fun tag _ => binds_addTypedef doc tag
    split
    · exact .behind (hdescribe _) fun _ => htypedefs
    · exact htypedefs
  · exact .pure _

/-! ### Declarations -/

theorem gives_bindingValue (ctx : Context) (keyword : String) (v : Option Node) :
    Gives IsLocal (bindingValue ctx keyword v) := by
  cases v with
  | none => exact gives_variableOf ctx _ keyword
  | some e =>
      refine .bind fun doc => ?_
      split
      · exact .pure rfl
      · refine (gives_value ctx e).bind_of fun d hd => ?_
        split
        · exact .pure hd
        · exact .pure hd

theorem traced_bindingValue (ctx : Context) (keyword : String) {v : Option Node}
    (h : ∀ e ∈ v, e.ExportsWithin E) : Traced (Act.Spares E) (bindingValue ctx keyword v) := by
  cases v with
  | none => exact traced_variableOf ctx _ keyword
  | some e =>
      have hdoc : Traced (Act.Spares E) (documentation ctx) :=
        related_documentation (congruence_traced spares_of_isNote) (.refl ctx)
      refine .bind hdoc fun doc => ?_
      split
      · exact .pure _
      · refine .bind (traced_value_of_exportsWithin ctx (h e rfl)) fun d => ?_
        split
        · exact .pure _
        · exact .pure _

theorem binds_bindMember (ctx : Context) (path : Option String) (own imported : String) :
    Binds E [own] (bindMember ctx path own imported) := by
  unfold bindMember
  split
  · refine binds_registered (.pure _) (.pure ?_) own
    rfl
  · exact binds_registered (traced_variableOf ctx _ _) (gives_variableOf ctx _ _) own

theorem binds_patternMember (ctx : Context) (path : Option String) (n : Node) :
    Binds E n.memberNames (patternMember ctx path n) := by
  unfold patternMember
  dsimp only
  split
  · rename_i hk
    rw [Node.memberNames, hk]
    exact binds_bindMember _ path n.text n.text
  · rename_i hk
    split
    · rename_i target key htarget hkey
      rw [Node.memberNames, hk, htarget]
      exact binds_onlyKind _ _ fun _ => binds_bindMember _ path target.text key.text
    · exact .unhandled _ n
  · exact .unhandled _ n

theorem binds_patternNames (ctx : Context) (path : Option String) (nodes : List Node) :
    Binds E (nodes.flatMap Node.memberNames) (patternNames ctx path nodes) := by
  induction nodes with
  | nil => exact .pure _
  | cons n ns ih =>
      exact (binds_patternMember ctx path n).bind fun _ => ih.followed fun _ => .pure _

theorem binds_declaratorNames (keyword : String) (ctx : Context) {n : Node}
    (hk : n.kind = .variableDeclarator) (h : n.ExportsWithin E) :
    Binds E n.declaratorNames (declaratorNames keyword ctx n) := by
  unfold declaratorNames
  split
  · exact .unhandled _ n
  · rename_i target htarget
    dsimp only
    split
    · rename_i hkind
      rw [Node.declaratorNames, htarget]
      simp only [hkind]
      refine binds_registered (traced_bindingValue _ keyword fun e he => ?_)
        (gives_bindingValue _ keyword _) target.text
      exact h.child (Node.isFunction_eq_false hk rfl) (Node.mem_children_of_child? he)
    · rename_i hkind
      rw [Node.declaratorNames, htarget]
      simp only [hkind]
      exact binds_patternNames _ _ _
    · exact .unhandled _ target

theorem binds_declaratorsNames (keyword : String) (ctx : Context) {nodes : List Node}
    (h : ∀ n ∈ nodes, n.ExportsWithin E) :
    Binds E (nodes.flatMap Node.declaratorNames) (declaratorsNames keyword ctx nodes) := by
  induction nodes with
  | nil => exact .pure _
  | cons n ns ih =>
      obtain ⟨hn, hns⟩ := List.forall_mem_cons.1 h
      have hfirst := binds_onlyKind ctx .variableDeclarator fun hk =>
        binds_declaratorNames keyword (ctx.enter n) hk hn
      exact hfirst.bind fun _ => (ih hns).followed fun _ => .pure _

theorem binds_registerNamed (ctx : Context) (n : Node) {decl : Build Decl}
    (hdecl : Traced (Act.Spares E) decl) (hlocal : Gives IsLocal decl) :
    Binds E ((n.child? .name).map (·.text)).toList (registerNamed ctx n decl) := by
  unfold registerNamed
  split
  · exact .unhandled _ n
  · rename_i target htarget
    rw [htarget]
    exact binds_registered hdecl hlocal target.text

/-- A declaration registers the names that it binds. -/
theorem binds_declarationNames? (ctx : Context) {n : Node} {x : Build (List String)}
    (hx : declarationNames? ctx n = some x) (h : n.ExportsWithin E) :
    Binds E n.declaredNames x := by
  have hdeclarators (hn : n.isFunction = false) :
      Binds E (n.codeChildren.flatMap Node.declaratorNames)
        (declaratorsNames (keywordOf n) ctx n.codeChildren) :=
    binds_declaratorsNames _ ctx fun c hc => h.child hn (Node.mem_children_of_codeChildren hc)
  have hfunction : Binds E ((n.child? .name).map (·.text)).toList
      (registerNamed ctx n (functionDecl ctx n)) :=
    binds_registerNamed ctx n
      (related_functionDecl (congruence_traced spares_of_isNote) (.refl ctx) (.refl n))
      (gives_functionDecl ctx n)
  unfold declarationNames? at hx
  split at hx
  · rename_i hk
    cases hx
    rw [Node.declaredNames, hk]
    exact hdeclarators (Node.isFunction_eq_false hk rfl)
  · rename_i hk
    cases hx
    rw [Node.declaredNames, hk]
    exact hdeclarators (Node.isFunction_eq_false hk rfl)
  · rename_i hk
    cases hx
    rw [Node.declaredNames, hk]
    exact hfunction
  · rename_i hk
    cases hx
    rw [Node.declaredNames, hk]
    exact hfunction
  · rename_i hk
    cases hx
    rw [Node.declaredNames, hk]
    exact binds_registerNamed ctx n
      (traced_classValue_of_exportsWithin ctx (Node.isFunction_eq_false hk rfl) h)
      (gives_classValue ctx n)
  · cases hx

theorem binds_declarationNames (ctx : Context) {n : Node} (h : n.ExportsWithin E) :
    Binds E n.declaredNames (declarationNames ctx n) := by
  rw [declarationNames]
  cases hx : declarationNames? (ctx.enter n) n with
  | none => exact .unhandled _ n
  | some x => exact binds_declarationNames? _ hx h

end Ambient.Build
