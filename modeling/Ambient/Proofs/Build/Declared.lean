import Ambient.Proofs.Build.Establish

/-!
# Local and exported declarations

An exported declaration registers its names as any declaration does and then marks them, so what it
binds is exported behind it.  A statement that leaves no local declaration under a name keeps the
name exported.
-/

namespace Ambient

/-- The names that a statement leaves as local declarations: an exported declaration binds its names
and marks them. -/
def Node.localNames (st : Node) : List String :=
  if st.kind == .exportStatement && !st.children.any (·.kind == .token "default") then []
  else st.boundNames

namespace Build

variable {names : List String} {name : String} {s s' : BuildState} {u : Unit}

/-! ### Exported declarations -/

theorem gives_onlyKind {ctx : Context} {k : Kind} {f : Context → Node → Build (List String)}
    {n : Node} (h : Gives (· = names) (f (ctx.enter n) n)) :
    Gives (· = names) (onlyKind ctx k f n) := by
  rw [onlyKind]
  split
  · exact h
  · exact .unhandled _ n

theorem gives_bindMember (ctx : Context) (path : Option String) (own imported : String) :
    Gives (· = [own]) (bindMember ctx path own imported) := by
  unfold bindMember
  split
  · exact .bind fun _ => .bind fun _ => .pure rfl
  · exact .bind fun _ => .bind fun _ => .pure rfl

theorem gives_patternMember (ctx : Context) (path : Option String) (n : Node) :
    Gives (· = n.memberNames) (patternMember ctx path n) := by
  unfold patternMember
  dsimp only
  split
  · rename_i hk
    rw [Node.memberNames, hk]
    exact gives_bindMember _ path n.text n.text
  · rename_i hk
    split
    · rename_i target key htarget hkey
      rw [Node.memberNames, hk, htarget]
      exact gives_onlyKind (gives_bindMember _ path target.text key.text)
    · exact .unhandled _ n
  · exact .unhandled _ n

theorem gives_patternNames (ctx : Context) (path : Option String) (nodes : List Node) :
    Gives (· = nodes.flatMap Node.memberNames) (patternNames ctx path nodes) := by
  induction nodes with
  | nil => exact .pure rfl
  | cons n ns ih =>
      refine (gives_patternMember ctx path n).bind_of fun first hfirst =>
        ih.bind_of fun rest hrest => .pure ?_
      rw [hfirst, hrest, List.flatMap_cons]

theorem gives_declaratorNames (keyword : String) (ctx : Context) (n : Node) :
    Gives (· = n.declaratorNames) (declaratorNames keyword ctx n) := by
  unfold declaratorNames
  split
  · exact .unhandled _ n
  · rename_i target htarget
    dsimp only
    split
    · rename_i hk
      rw [Node.declaratorNames, htarget]
      simp only [hk]
      exact .bind fun _ => .bind fun _ => .pure rfl
    · rename_i hk
      rw [Node.declaratorNames, htarget]
      simp only [hk]
      exact gives_patternNames _ _ _
    · exact .unhandled _ target

theorem gives_declaratorsNames (keyword : String) (ctx : Context) (nodes : List Node) :
    Gives (· = nodes.flatMap Node.declaratorNames) (declaratorsNames keyword ctx nodes) := by
  induction nodes with
  | nil => exact .pure rfl
  | cons n ns ih =>
      have hn : Gives (· = n.declaratorNames)
          (onlyKind ctx .variableDeclarator (declaratorNames keyword) n) :=
        gives_onlyKind (gives_declaratorNames keyword _ n)
      refine hn.bind_of fun first hfirst => ih.bind_of fun rest hrest => .pure ?_
      rw [hfirst, hrest, List.flatMap_cons]

theorem gives_registerNamed (ctx : Context) (n : Node) (decl : Build Decl) :
    Gives (· = ((n.child? .name).map (·.text)).toList) (registerNamed ctx n decl) := by
  unfold registerNamed
  split
  · exact .unhandled _ n
  · rename_i target htarget
    rw [htarget]
    exact .bind fun _ => .bind fun _ => .pure rfl

/-- A declaration gives the names that it binds. -/
theorem gives_declarationNames (ctx : Context) (n : Node) :
    Gives (· = n.declaredNames) (declarationNames ctx n) := by
  rw [declarationNames, declarationNames?]
  split
  · rename_i hk
    rw [Node.declaredNames, hk]
    exact gives_declaratorsNames _ _ _
  · rename_i hk
    rw [Node.declaredNames, hk]
    exact gives_declaratorsNames _ _ _
  · rename_i hk
    rw [Node.declaredNames, hk]
    exact gives_registerNamed _ n _
  · rename_i hk
    rw [Node.declaredNames, hk]
    exact gives_registerNamed _ n _
  · rename_i hk
    rw [Node.declaredNames, hk]
    exact gives_registerNamed _ n _
  · exact .unhandled _ n

/-- What a step registers is there after it. -/
theorem Binds.isSome_flag? {α : Type} {E : String → Prop} {x : Build α} {a : α}
    (h : Binds E names x) (hrun : runFrom x s = (.ok a, s')) (hname : name ∈ names) :
    (s'.module.flag? name).isSome := by
  obtain ⟨acts, hacts, rfl⟩ := h s a s' hrun
  obtain ⟨b, hb, hbinds⟩ := hacts.exists_binds_of_mem hname
  obtain ⟨before, behind, rfl⟩ := List.append_of_mem hb
  rw [BuildState.afterAll_append, BuildState.afterAll_cons]
  refine BuildState.isSome_flag?_afterAll ?_ behind
  cases b with
  | register other d =>
      obtain ⟨rfl, -⟩ := hbinds
      exact Option.isSome_of_eq_some (Module.flag?_add_self d)
  | _ => exact hbinds.elim

theorem runFrom_markAll (names : List String) (s : BuildState) :
    runFrom (names.forM fun k => modifyModule (·.markExported k)) s =
      (.ok (), s.afterAll (names.map .mark)) := by
  induction names generalizing s with
  | nil => rfl
  | cons k names ih => exact ih (s.after (.mark k))

/-- The items that are marked are exported. -/
theorem flag?_afterAll_mark (hmem : name ∈ names) (hsome : (s.module.flag? name).isSome) :
    (s.afterAll (names.map .mark)).module.flag? name = some true := by
  obtain ⟨before, behind, rfl⟩ := List.append_of_mem hmem
  have hbefore := BuildState.isSome_flag?_afterAll hsome (before.map .mark)
  obtain ⟨b, hb⟩ := Option.isSome_iff_exists.1 hbefore
  rw [List.map_append, BuildState.afterAll_append, List.map_cons, BuildState.afterAll_cons]
  refine BuildState.flag?_afterAll_eq_true ?_ ?_ ?_
  · rw [BuildState.after, Module.flag?_markExported, if_pos rfl, hb]
    rfl
  · intro a ha
    obtain ⟨k, -, rfl⟩ := List.mem_map.1 ha
    exact fun h => h
  · intro a ha
    obtain ⟨k, -, rfl⟩ := List.mem_map.1 ha
    exact fun h => h

/-! ### One statement -/

/-- What an exported declaration binds is exported. -/
theorem flag?_of_mem_boundNames {ctx : Context} {st : Node} (hfree : ¬ st.Assigns "module.exports")
    (hmem : name ∈ st.boundNames) (hlocal : name ∉ st.localNames)
    (hrun : runFrom (statement ctx st) s = (.ok u, s')) : s'.module.flag? name = some true := by
  rw [Node.localNames] at hlocal
  split at hlocal
  · rename_i hexport
    obtain ⟨hk, hdefault⟩ := Bool.and_eq_true_iff.1 hexport
    have hk' := eq_of_beq hk
    rw [Bool.not_eq_true'] at hdefault
    rw [Node.boundNames, hk'] at hmem
    cases hd : st.child? .declaration with
    | none =>
        rw [hd] at hmem
        cases hmem
    | some d =>
        have hd' := (exportsWithin_mayExport hfree).child (Node.isFunction_eq_false hk' rfl)
          (Node.mem_children_of_child? hd)
        rw [statement] at hrun
        simp only [hk'] at hrun
        rw [exportStatement, hdefault, if_neg Bool.false_ne_true, hd] at hrun
        obtain ⟨declared, mid, hdeclared, hmarks⟩ := runFrom_bind_ok hrun
        obtain rfl := gives_declarationNames _ d s declared mid hdeclared
        rw [runFrom_markAll] at hmarks
        cases hmarks
        rw [hd] at hmem
        exact flag?_afterAll_mark hmem ((binds_declarationNames _ hd').isSome_flag? hdeclared hmem)
  · exact (hlocal hmem).elim

/-- A name is exported after a statement that leaves no local declaration under it, when it was
exported before or the statement exports it. -/
theorem flag?_of_statement {ctx : Context} {st : Node} (hfree : ¬ st.Assigns "module.exports")
    (hlocal : name ∉ st.localNames) (h : s.module.flag? name = some true ∨ st.Exports name)
    (hrun : runFrom (statement ctx st) s = (.ok u, s')) : s'.module.flag? name = some true := by
  by_cases hmem : name ∈ st.boundNames
  · exact flag?_of_mem_boundNames hfree hmem hlocal hrun
  · rcases h with hflag | hexports
    · obtain ⟨acts, hacts, rfl⟩ := binds_statement ctx hfree s u s' hrun
      exact BuildState.flag?_afterAll_eq_true hflag hacts.memberwise
        fun a ha hbinds => hmem (hacts.mem_of_binds ha hbinds)
    · exact (establishes_statement ctx hexports hfree).flag?_eq_true hmem hrun

end Build

end Ambient
