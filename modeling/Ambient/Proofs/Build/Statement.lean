import Ambient.Proofs.Build.Registration

/-!
# What statements register

Exports register nothing but what they declare, imports register the names they bring in, and an
expression registers no local declaration at all.
-/

namespace Ambient.Build

variable {E : String → Prop}

/-! ### Exports and imports -/

section Exports

variable (hE : ∀ name, E name)

include hE

theorem binds_exportDefault (ctx : Context) {n : Node} (hn : n.isFunction = false)
    (h : n.ExportsWithin E) :
    Binds E (((n.child? .declaration).map Node.declaredNames).getD []) (exportDefault ctx n) := by
  have hregister (d : Decl) : Traced (Act.Spares E) (register "default" (d.setExported true)) :=
    traced_register (d.exported_setExported true) (hE _)
  unfold exportDefault
  split
  · rename_i d hd
    rw [hd]
    have hd' := h.child hn (Node.mem_children_of_child? hd)
    refine (binds_declarationNames ctx hd').followed fun declared => ?_
    split
    · exact .bind (.pure _) hregister
    · exact .bind (.throw _) hregister
  · rename_i v hnone hv
    rw [hnone]
    have hv' := h.child hn (Node.mem_children_of_child? hv)
    exact .of_traced (.bind (traced_value_of_exportsWithin ctx hv') hregister)
  · rename_i hnone _
    rw [hnone]
    exact .of_traced (.bind (traced_unhandled spares_of_isNote _ n) hregister)

theorem traced_exportSpecifier (path : Option String) (n : Node) :
    Traced (Act.Spares E) (exportSpecifier path n) := by
  unfold exportSpecifier
  dsimp only
  split
  · exact traced_register rfl (hE _)
  · refine .bind (.item? _) fun old => ?_
    split
    · exact traced_markExported (hE _)
    · exact traced_register rfl (hE _)

theorem traced_exportClause (ctx : Context) (path : Option String) (n : Node) :
    Traced (Act.Spares E) (exportClause ctx path n) := by
  unfold exportClause
  dsimp only
  split
  · refine .forM fun s _ => ?_
    split
    · rw [onlyKind]
      split
      · exact traced_exportSpecifier hE path s
      · exact traced_unhandled spares_of_isNote _ s
    · exact .pure _
  · exact traced_register rfl (hE _)
  · exact .pure _
  · exact traced_unhandled spares_of_isNote _ n

theorem traced_exportList (ctx : Context) (n : Node) :
    Traced (Act.Spares E) (exportList ctx n) := by
  refine .bind (.forM fun c _ => traced_exportClause hE ctx _ c) fun _ => ?_
  split
  · split
    · exact traced_register rfl (hE _)
    · exact .pure _
  · exact .pure _

theorem binds_exportStatement (ctx : Context) {n : Node} (hn : n.isFunction = false)
    (h : n.ExportsWithin E) :
    Binds E (((n.child? .declaration).map Node.declaredNames).getD []) (exportStatement ctx n) := by
  unfold exportStatement
  split
  · exact binds_exportDefault hE ctx hn h
  · split
    · rename_i d hd
      rw [hd]
      have hd' := h.child hn (Node.mem_children_of_child? hd)
      exact (binds_declarationNames ctx hd').followed fun declared =>
        .forM fun name _ => traced_markExported (hE name)
    · rename_i hnone
      rw [hnone]
      exact .of_traced (traced_exportList hE ctx n)

end Exports

theorem binds_importSpecifier (path : String) (n : Node) :
    Binds E [n.specifierName] (importSpecifier path n) := by
  unfold importSpecifier
  dsimp only
  rw [n.getD_renamed]
  exact binds_register rfl

theorem binds_importClause (ctx : Context) (path : String) (n : Node) :
    Binds E n.clauseNames (importClause ctx path n) := by
  unfold importClause
  dsimp only
  split
  · rename_i hk
    rw [Node.clauseNames, hk]
    exact binds_register rfl
  · rename_i hk
    rw [Node.clauseNames, hk]
    exact binds_register rfl
  · rename_i hk
    rw [Node.clauseNames, hk]
    dsimp only
    rw [List.map_eq_flatMap]
    exact binds_eachCode fun s _ => binds_onlyKind _ _ fun _ => binds_importSpecifier path s
  · exact .unhandled _ n

theorem binds_importStatement (ctx : Context) (n : Node) :
    Binds E (((n.childOfKind? .importClause).map fun c =>
      c.codeChildren.flatMap Node.clauseNames).getD []) (importStatement ctx n) := by
  unfold importStatement
  dsimp only
  split
  · rename_i hclause
    rw [hclause]
    exact .of_traced (traced_notify spares_of_isNote _)
  · rename_i clause hclause
    rw [hclause]
    exact binds_eachCode fun c _ => binds_importClause ctx _ c

/-! ### Statements -/

theorem traced_expressionStatement (ctx : Context) {n : Node} (hn : n.isFunction = false)
    (h : n.ExportsWithin E) : Traced (Act.Spares E) (expressionStatement ctx n) := by
  unfold expressionStatement
  split
  · exact .pure _
  · rename_i e he
    have hmem : e ∈ n.children := Node.mem_children_of_codeChildren (List.mem_of_mem_head? he)
    have he' := h.child hn hmem
    dsimp only
    split
    · rename_i hk
      refine traced_assign spares_of_isNote _ e hk (allows_spares he') fun right hright => ?_
      exact traced_value_of_exportsWithin _ (he'.child (Node.isFunction_eq_false hk rfl) hright)
    · exact .pure _
    · exact traced_notify spares_of_isNote _
    · exact traced_unhandled spares_of_isNote _ e

/-- A statement that does not assign `module.exports` registers the names that it binds and no
others, and exports no name but those that it may export. -/
theorem binds_statement (ctx : Context) {st : Node} (hfree : ¬ st.Assigns "module.exports") :
    Binds st.MayExport st.boundNames (statement ctx st) := by
  have h := exportsWithin_mayExport hfree
  unfold statement
  dsimp only
  split
  · rename_i hk
    rw [Node.boundNames, hk]
    exact binds_commentStatement st
  · rename_i hk
    have hnames : st.boundNames = [] := by
      rw [Node.boundNames, hk, Node.declaredNames, hk]
    rw [hnames]
    exact .of_traced (traced_expressionStatement _ (Node.isFunction_eq_false hk rfl) h)
  · rename_i hk
    rw [Node.boundNames, hk]
    exact binds_exportStatement (fun _ => .inl hk) _ (Node.isFunction_eq_false hk rfl) h
  · rename_i hk
    rw [Node.boundNames, hk]
    exact binds_importStatement _ st
  · rename_i hk
    have hnames : st.boundNames = [] := by
      rw [Node.boundNames, hk, Node.declaredNames, hk]
    rw [hnames]
    exact .pure _
  · rename_i hk
    have hnames : st.boundNames = [] := by
      rw [Node.boundNames, hk, Node.declaredNames, hk]
    rw [hnames]
    exact .pure _
  · rename_i hcomment _ hexport himport _ _
    have hnames : st.boundNames = st.declaredNames := by
      rw [Node.boundNames]
      split
      · rename_i hk
        exact (hcomment hk).elim
      · rename_i hk
        exact (himport hk).elim
      · rename_i hk
        exact (hexport hk).elim
      · rfl
    rw [hnames]
    split
    · rename_i x hx
      exact (binds_declarationNames? _ hx h).followed fun _ => .pure _
    · exact .unhandled _ st

end Ambient.Build
