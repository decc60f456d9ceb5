import Ambient.Proofs.Build.Reading
import Ambient.Proofs.Build.Trace
import Ambient.Proofs.Shape
import Ambient.Proofs.Source.Yield

/-!
# Readers give declarations in shape

`Shapes Q x` says of a step that it brings nothing out of shape into the module, that what it gives
satisfies `Q`, and that it never fails for want of a type name.  It holds of a composed step when it
holds of its parts.  One lemma for each reader, in the order in which the readers are defined: what
is documented has names because it was read by the grammar of types, what is made by a constructor
because identifiers are spelt, and everything else has a fixed name.
-/

namespace Ambient.Build

open TypeRef

variable {α β : Type} {Q : α → Prop} {R : β → Prop}

/-- The step keeps the shape of the module, gives what satisfies `Q`, and does not fail for want of
a type name. -/
structure Shapes (Q : α → Prop) (x : Build α) : Prop where
  acts : Traced Act.Shaped x
  gives : Gives Q x
  fails : ∀ s f s', runFrom x s = (.error f, s') → f ≠ .type .emptyName

/-- The step keeps the shape of the module; nothing is said of what it gives. -/
abbrev KeepsShape (x : Build α) : Prop :=
  Shapes (fun _ => True) x

namespace Shapes

theorem pure {a : α} (h : Q a) : Shapes Q (pure a : Build α) :=
  ⟨.pure a, .pure h, by nofun⟩

theorem throw {f : Failure} (h : f ≠ .type .emptyName) : Shapes Q (throw f : Build α) := by
  refine ⟨.throw f, by nofun, ?_⟩
  rintro s _ s' ⟨⟩
  exact h

theorem bind {x : Build α} {f : α → Build β} (hx : Shapes Q x) (hf : ∀ a, Q a → Shapes R (f a)) :
    Shapes R (x >>= f) := by
  refine ⟨.bind_of_runs hx.acts fun s a s' hrun => (hf a (hx.gives s a s' hrun)).acts,
    hx.gives.bind_of fun a ha => (hf a ha).gives, ?_⟩
  intro s e s' hrun
  rw [runFrom_bind] at hrun
  rcases hfirst : runFrom x s with ⟨e' | a, mid⟩
  · rw [hfirst] at hrun
    cases hrun
    exact hx.fails s e s' hfirst
  · rw [hfirst] at hrun
    exact (hf a (hx.gives s a mid hfirst)).fails mid e s' hrun

/-- Nothing is asked of what the first step gives. -/
theorem behind {x : Build α} {f : α → Build β} (hx : KeepsShape x) (hf : ∀ a, Shapes R (f a)) :
    Shapes R (x >>= f) :=
  hx.bind fun a _ => hf a

/-- A step that always succeeds by one act. -/
theorem of_act {x : Build α} (h : ∀ s, ∃ a act, act.Shaped ∧ Q a ∧ runFrom x s = (.ok a, s.after act)) :
    Shapes Q x := by
  refine ⟨.of_act fun s => ?_, fun s a s' hrun => ?_, fun s f s' hrun => ?_⟩
  · obtain ⟨a, act, hact, -, hrun⟩ := h s
    exact ⟨act, hact, by rw [hrun]⟩
  · obtain ⟨b, act, -, hb, hrun'⟩ := h s
    cases hrun'.symm.trans hrun
    exact hb
  · obtain ⟨b, act, -, -, hrun'⟩ := h s
    cases hrun'.symm.trans hrun

theorem notify (notices : Log) : KeepsShape (notify notices) :=
  of_act fun _ => ⟨(), .notice notices, trivial, trivial, rfl⟩

theorem register (name : String) {d : Decl} (hd : d.Shaped) : KeepsShape (register name d) :=
  of_act fun _ => ⟨(), .register name d, hd, trivial, rfl⟩

theorem markExported (name : String) : KeepsShape (modifyModule (·.markExported name)) :=
  of_act fun _ => ⟨(), .mark name, trivial, trivial, rfl⟩

theorem promote (name : String) : KeepsShape (promote name) :=
  of_act fun s => ⟨_, .promote name, trivial, trivial, runFrom_promote name s⟩

/-- Looking at the state. -/
theorem item? (name : String) : KeepsShape (item? name) :=
  ⟨.item? name, fun _ _ _ _ => trivial, by nofun⟩

theorem registrations (name : String) : KeepsShape (registrations name) :=
  ⟨.registrations name, fun _ _ _ _ => trivial, by nofun⟩

theorem unhandled (ctx : Context) (n : Node) : Shapes Q (unhandled ctx n : Build α) :=
  behind (notify _) fun _ => throw (by nofun)

theorem ofTypes {x : Except Fault α} (h : Supplies Q x) : Shapes Q (ofTypes x) := by
  cases h with
  | ok ha => exact pure ha
  | error he => exact throw fun hf => he (Failure.type.inj hf)

theorem forM {xs : List β} {f : β → Build Unit} (h : ∀ b ∈ xs, KeepsShape (f b)) : KeepsShape (xs.forM f) := by
  induction xs with
  | nil => exact pure trivial
  | cons b xs ih =>
      obtain ⟨hb, hxs⟩ := List.forall_mem_cons.1 h
      exact behind hb fun _ => ih hxs

theorem readComment (n : Node) : Shapes Doc.Comment.Sound (readComment n) := by
  have hnote (a : Act) (ha : a.IsNote) : a.Shaped := by
    cases a <;> trivial
  refine ⟨traced_readComment hnote n, fun s doc s' hrun => ?_, fun s f s' hrun => ?_⟩
  · have hresult := runFrom_readComment_result n s
    rw [hrun] at hresult
    rw [Except.ok.inj hresult]
    exact Doc.Comment.sound_read n.text
  · have hresult := runFrom_readComment_result n s
    rw [hrun] at hresult
    cases hresult

end Shapes

/-! ### Comments and variables -/

theorem shapes_documentation (ctx : Context) : Shapes Doc.Comment.Sound (documentation ctx) := by
  unfold documentation
  split
  · exact .readComment _
  · exact .pure (List.forall_mem_nil _)

theorem shapes_variableOf (ctx : Context) {types : List TypeRef} (ht : Alternatives types)
    {keyword : String} (hk : keyword ∈ ["var", "let", "const"]) :
    Shapes Decl.Inner (variableOf ctx types keyword) := by
  refine .bind (shapes_documentation ctx) fun doc hdoc => ?_
  split
  · rename_i e he
    exact .bind (.ofTypes (hdoc.expands_first? he)) fun ts hts =>
      .pure ⟨Decl.shaped_binding.2 ⟨hts, hk⟩, rfl⟩
  · exact .bind (.pure ht) fun ts hts => .pure ⟨Decl.shaped_binding.2 ⟨hts, hk⟩, rfl⟩

theorem shapes_variableAny (ctx : Context) : Shapes Decl.Inner (variableOf ctx [any] "var") :=
  shapes_variableOf ctx alternatives_any (by decide)

theorem shapes_variableNamed (ctx : Context) {type : String} (h : type ≠ "") :
    Shapes Decl.Inner (variableNamed ctx type) :=
  .bind (.ofTypes (supplies_named h (List.forall_mem_nil _))) fun _ ht =>
    shapes_variableOf ctx (alternatives_singleton ht) (by decide)

/-! ### Functions -/

theorem keepsShape_sourceParameter (ctx : Context) (n : Node) : KeepsShape (sourceParameter ctx n) := by
  rw [sourceParameter]
  dsimp only
  split
  · exact .pure trivial
  · exact .pure trivial
  · exact .pure trivial
  · split
    · rename_i c hc
      have hlt := Node.sizeOf_lt_of_mem_children (Node.mem_children_of_child? hc)
      exact .behind (keepsShape_sourceParameter _ c) fun _ => .pure trivial
    · exact .unhandled _ n
  · split
    · rename_i c cs hc
      have hmem : c ∈ n.codeChildren := by simp [hc]
      have hlt := Node.sizeOf_lt_of_mem_children (Node.mem_children_of_codeChildren hmem)
      exact .behind (keepsShape_sourceParameter _ c) fun _ => .pure trivial
    · exact .unhandled _ n
  · exact .unhandled _ n
termination_by sizeOf n

theorem positionalNames_ne {doc : Doc.Comment} (hdoc : doc.Sound) :
    ∀ name ∈ positionalNames doc, name ≠ "" := by
  intro name hname
  obtain ⟨t, ht, hfilter⟩ := List.mem_filterMap.1 hname
  rintro rfl
  exact (hdoc.find "param" t ht).name (Option.filter_eq_some_iff.1 hfilter).1

/-- A parameter has its own name, that of its documentation, or one that tells its position. -/
theorem parameterName_ne {positional : List String} (h : ∀ name ∈ positional, name ≠ "")
    (index : Nat) (own : String) : parameterName positional index own ≠ "" := by
  rw [parameterName]
  split
  · rw [List.getD_eq_getElem?_getD]
    cases hget : positional[index]? with
    | none =>
        intro hempty
        have hlength := congrArg String.length hempty
        simp [String.length_append] at hlength
    | some name => exact h name (List.mem_of_getElem? hget)
  · rename_i hown
    simpa using hown

theorem supplies_documented {doc : Doc.Comment} (hdoc : doc.Sound) {p : Parameter}
    (hp : p.name ≠ "") : Supplies (fun r => r.1.Shaped) (documented doc p) := by
  unfold documented
  dsimp only
  split
  · rename_i e he
    obtain ⟨t, ht, hte⟩ := Option.bind_eq_some_iff.1 he
    refine .bind ((hdoc.params ht).type e hte) fun types htypes => .pure ⟨?_, htypes⟩
    dsimp only
    split <;> exact hp
  · refine .pure ⟨?_, alternatives_any⟩
    dsimp only
    split <;> exact hp

theorem shapes_parametersFrom (ctx : Context) {doc : Doc.Comment} (hdoc : doc.Sound) (index : Nat)
    (nodes : List Node) :
    Shapes (fun r => ∀ p ∈ r.1, p.Shaped) (parametersFrom ctx doc index nodes) := by
  induction nodes generalizing index with
  | nil => exact .pure (List.forall_mem_nil _)
  | cons n nodes ih =>
      refine .behind (keepsShape_sourceParameter ctx n) fun p => .bind (.ofTypes
        (supplies_documented hdoc (parameterName_ne (positionalNames_ne hdoc) index p.name)))
          fun ⟨q, own⟩ hq => .bind (ih (index + 1)) fun ⟨qs, others⟩ hqs => .pure ?_
      exact List.forall_mem_cons.2 ⟨hq, hqs⟩

theorem supplies_resultOf {doc : Doc.Comment} (hdoc : doc.Sound) (n : Node) :
    Supplies (fun r => Alternatives r.1) (resultOf doc n) := by
  rw [resultOf]
  split
  · split
    · rename_i e he
      exact .bind (hdoc.expands_first? he) fun types htypes => .pure htypes
    · exact .pure alternatives_any
  · exact .pure (alternatives_singleton (named_plain (by decide)))

theorem shapes_callableOf (ctx : Context) {doc : Doc.Comment} (hdoc : doc.Sound) (n : Node) :
    Shapes (fun fn => fn.Shaped ∧ fn.header.exported = false) (callableOf ctx doc n) :=
  .bind (shapes_parametersFrom ctx hdoc 0 _) fun ⟨_, _⟩ hparams =>
    .bind (.ofTypes (supplies_resultOf hdoc n)) fun ⟨_, _⟩ hresult => .pure ⟨⟨hparams, hresult⟩, rfl⟩

theorem shapes_functionDecl (ctx : Context) (n : Node) :
    Shapes Decl.Inner (functionDecl ctx n) := by
  refine .bind (shapes_documentation ctx) fun doc hdoc =>
    .bind (shapes_callableOf ctx hdoc n) fun fn hfn => ?_
  split
  · exact .pure ⟨Decl.shaped_classOf hfn.1 _ _, hfn.2⟩
  · exact .pure ⟨Decl.shaped_function.2 hfn.1, hfn.2⟩

/-- All entries of the table may be members. -/
abbrev Members (ms : Table Decl) : Prop :=
  ∀ e ∈ ms, e.2.Inner

theorem shapes_addMethod (ctx : Context) {members : Table Decl} (hms : Members members)
    (n : Node) : Shapes Members (addMethod ctx members n) := by
  unfold addMethod
  split
  · exact .unhandled ctx n
  · split
    · exact .pure hms
    · refine .bind (shapes_documentation ctx) fun doc hdoc =>
        .bind (shapes_callableOf ctx hdoc n) fun fn hfn => ?_
      obtain ⟨hshaped, hlocal⟩ := hfn
      split
      · have hgetter : (Decl.binding fn.header fn.result "var").Inner :=
          ⟨Decl.shaped_binding.2 ⟨hshaped.result, by decide⟩, hlocal⟩
        exact .pure (Decl.inner_set hms hgetter)
      · split
        · split
          · exact .pure hms
          · have htypes : Alternatives ((fn.params.head?.map (·.types)).getD [any]) := by
              cases hparams : fn.params.head? with
              | none => exact alternatives_any
              | some p => exact (hshaped.params p (List.mem_of_mem_head? hparams)).types
            exact .pure (Decl.inner_set hms ⟨Decl.shaped_binding.2 ⟨htypes, by decide⟩, hlocal⟩)
        · have hmethod : Callable.Shaped { fn with isStatic := (modifierWords n).contains "static" } :=
            ⟨hshaped.params, hshaped.result⟩
          exact .pure (Decl.inner_set hms ⟨Decl.shaped_function.2 hmethod, hlocal⟩)

/-! ### Assignments -/

theorem keepsShape_chain (ctx : Context) (n : Node) : KeepsShape (chain ctx n) := by
  rw [chain]
  dsimp only
  split
  · exact .pure trivial
  · exact .pure trivial
  · exact .pure trivial
  · split
    · rename_i receiver property hr hp
      have hlt := Node.sizeOf_lt_of_mem_children (Node.mem_children_of_child? hr)
      have hlt' := Node.sizeOf_lt_of_mem_children (Node.mem_children_of_child? hp)
      exact .behind (keepsShape_chain _ receiver) fun _ =>
        .behind (keepsShape_chain _ property) fun _ => .pure trivial
    · exact .unhandled _ n
  · exact .unhandled _ n
termination_by sizeOf n

section

variable {value : Build Decl} (hvalue : Shapes Decl.Inner value)

include hvalue

theorem keepsShape_exportMember (name : String) (right : Node) :
    KeepsShape (exportMember name right value) := by
  refine .behind (.of_act fun s => ⟨(), .memberwise, trivial, trivial, rfl⟩) fun _ =>
    .behind (.item? name) fun old => ?_
  dsimp only
  split
  · exact .markExported name
  · exact .bind hvalue fun d hd => .register name (hd.shaped.setExported true)

theorem keepsShape_withClass (name : String) {change : Decl → Build (Table Decl → Table Decl)}
    (hchange : ∀ d : Decl, d.Inner → Shapes Decl.KeepsInner (change d)) :
    KeepsShape (withClass name value change) := by
  refine .behind (.registrations name) fun before => .bind hvalue fun d hd =>
    .bind (hchange d hd) fun f hf => .behind (.registrations name) fun now => ?_
  split
  · exact .of_act fun s => ⟨(), .members name f, hf, trivial, rfl⟩
  · exact .pure trivial

theorem keepsShape_assignPrototype (owner : String) (right : Node) :
    KeepsShape (assignPrototype owner right value) := by
  refine .behind (.promote owner) fun b => ?_
  split
  · refine keepsShape_withClass hvalue owner fun d hd => ?_
    split
    · exact .pure fun ms hms => Decl.inner_setAll hms (Decl.shaped_object.1 hd.shaped)
    · exact .behind (.notify _) fun _ => .pure fun ms hms => hms
  · exact .notify _

theorem keepsShape_assignPrototypeMember (owner member : String) (right : Node) :
    KeepsShape (assignPrototypeMember owner member right value) := by
  refine .behind (.promote owner) fun b => ?_
  split
  · exact keepsShape_withClass hvalue owner fun d hd =>
      .pure fun ms hms => Decl.inner_set hms hd
  · exact .notify _

theorem keepsShape_assignTo (path : String) (line : Nat) (right : Node) :
    KeepsShape (assignTo path line right value) := by
  unfold assignTo
  split
  · exact .bind hvalue fun d hd => .of_act fun s => ⟨(), .aggregate d, hd, trivial, rfl⟩
  · exact keepsShape_exportMember hvalue _ right
  · exact keepsShape_assignPrototype hvalue _ right
  · exact keepsShape_assignPrototypeMember hvalue _ _ right
  · refine .behind (.notify _) fun _ => ?_
    split
    · exact .bind hvalue fun _ _ => .pure trivial
    · exact .pure trivial

end

/-! ### Values -/

theorem shapes_callValue (ctx : Context) (n : Node) : Shapes Decl.Inner (callValue ctx n) := by
  unfold callValue
  split
  · exact .bind (shapes_documentation ctx) fun _ _ => .pure ⟨Decl.shaped_imported, rfl⟩
  · exact shapes_variableAny ctx

/-- The constructor of a new object is spelt, so it names a type. -/
theorem shapes_newValue (ctx : Context) {n : Node} (hn : n.Spelt) :
    Shapes Decl.Inner (newValue ctx n) := by
  unfold newValue
  split
  · rename_i ctor hctor
    split
    · rename_i hk
      exact shapes_variableNamed ctx ((hn.child? hctor).own (eq_of_beq hk))
    · exact shapes_variableAny ctx
  · exact shapes_variableAny ctx

theorem shapes_aliasValue (ctx : Context) (n : Node) : Shapes Decl.Inner (aliasValue ctx n) :=
  .bind (shapes_documentation ctx) fun _ _ => .pure ⟨Decl.shaped_aliasOf, rfl⟩

/-- The parts of a class under construction are in shape. -/
structure ClassParts.Shaped (parts : ClassParts) : Prop where
  ctor : ∀ fn ∈ parts.ctor, fn.Shaped ∧ fn.header.exported = false
  members : Members parts.members

theorem shapes_addClassMethod (ctx : Context) {parts : ClassParts} (hparts : parts.Shaped)
    (n : Node) : Shapes ClassParts.Shaped (addClassMethod ctx parts n) := by
  unfold addClassMethod
  split
  · refine .bind (shapes_documentation ctx) fun doc hdoc =>
      .bind (shapes_callableOf ctx hdoc n) fun fn hfn => .pure ⟨?_, hparts.members⟩
    rintro _ ⟨⟩
    exact hfn
  · exact .bind (shapes_addMethod ctx hparts.members n) fun members hmembers =>
      .pure ⟨hparts.ctor, hmembers⟩

theorem shapes_objectMembers (ctx : Context) (before : List Node) {nodes : List Node}
    (hvalue : ∀ n ∈ nodes, ∀ v ∈ n.children, ∀ ctx, Shapes Decl.Inner (value ctx v))
    {members : Table Decl} (hms : Members members) :
    Shapes Members (objectMembers ctx before nodes members) := by
  induction nodes generalizing before members with
  | nil =>
      rw [objectMembers]
      exact .pure hms
  | cons n rest ih =>
      obtain ⟨hfirst, hrest⟩ := List.forall_mem_cons.1 hvalue
      have hnext (ms : Table Decl) (h : Members ms) := ih (n :: before) hrest h
      rw [objectMembers]
      split
      · dsimp only
        split
        · split
          · rename_i key v hkey hv
            have hv := hfirst v (Node.mem_children_of_child? hv)
            split
            · exact .behind (.notify _) fun _ => .bind (.pure hms) hnext
            · exact .bind (hv _) fun d hd => .bind (.pure (Decl.inner_set hms hd)) hnext
          · exact .bind (.unhandled _ n) hnext
        · exact .bind (shapes_aliasValue _ n) fun d hd =>
            .bind (.pure (Decl.inner_set hms hd)) hnext
        · exact .bind (shapes_addMethod _ hms n) hnext
        · exact .behind (.notify _) fun _ => .bind (.pure hms) hnext
        · exact .bind (.unhandled _ n) hnext
      · exact .bind (.pure hms) hnext

theorem shapes_classMembers (ctx : Context) (before : List Node) {nodes : List Node}
    (hvalue : ∀ n ∈ nodes, ∀ v ∈ n.children, ∀ ctx, Shapes Decl.Inner (value ctx v))
    {parts : ClassParts} (hparts : parts.Shaped) :
    Shapes ClassParts.Shaped (classMembers ctx before nodes parts) := by
  induction nodes generalizing before parts with
  | nil =>
      rw [classMembers]
      exact .pure hparts
  | cons n rest ih =>
      obtain ⟨hfirst, hrest⟩ := List.forall_mem_cons.1 hvalue
      have hnext (parts : ClassParts) (h : parts.Shaped) := ih (n :: before) hrest h
      have hset (name : String) (d : Decl) (hd : d.Inner) :
          ClassParts.Shaped { parts with members := parts.members.set name d } :=
        ⟨hparts.ctor, Decl.inner_set hparts.members hd⟩
      rw [classMembers]
      split
      · dsimp only
        split
        · exact .bind (shapes_addClassMethod _ hparts n) hnext
        · split
          · split
            · exact .bind (.pure hparts) hnext
            · split
              · rename_i v hv _ _
                exact .bind (hfirst v (Node.mem_children_of_child? hv) _) fun d hd =>
                  .bind (.pure (hset _ d hd)) hnext
              · exact .bind (shapes_variableAny _) fun d hd => .bind (.pure (hset _ d hd)) hnext
          · exact .bind (.unhandled _ n) hnext
        · exact .bind (.pure hparts) hnext
        · exact .bind (.unhandled _ n) hnext
      · exact .bind (.pure hparts) hnext

theorem shapes_classValue (ctx : Context) (n : Node)
    (hvalue : ∀ body, n.child? .body = some body → ∀ m ∈ body.children, ∀ v ∈ m.children,
      ∀ ctx, Shapes Decl.Inner (value ctx v)) : Shapes Decl.Inner (classValue ctx n) := by
  rw [classValue]
  refine .bind (shapes_documentation ctx) fun doc hdoc => ?_
  split
  · rename_i body hbody
    exact .bind (shapes_classMembers ctx [] (hvalue body hbody) ⟨by nofun, by nofun⟩)
      fun parts hparts => .pure ⟨Decl.shaped_classDef.2 ⟨hparts.ctor, hparts.members⟩, rfl⟩
  · exact .unhandled ctx n

theorem keepsShape_assign (ctx : Context) (n : Node)
    (hvalue : ∀ right ∈ n.children, ∀ ctx, Shapes Decl.Inner (value ctx right)) :
    KeepsShape (assign ctx n) := by
  rw [assign]
  split
  · rename_i left right hleft hright
    exact .behind (keepsShape_chain ctx left) fun path =>
      keepsShape_assignTo (hvalue right (Node.mem_children_of_child? hright) ctx) path n.line right
  · exact .unhandled ctx n

/-- A value of a spelt source is read as a declaration in shape that is not exported. -/
theorem shapes_value (ctx : Context) {n : Node} (hn : n.Spelt) :
    Shapes Decl.Inner (value ctx n) := by
  have hchild (d : Node) (hd : d ∈ n.children) (ctx : Context) : Shapes Decl.Inner (value ctx d) := by
    have hlt := Node.sizeOf_lt_of_mem_children hd
    exact shapes_value ctx (hn.inner d hd)
  have hgrandchild (d : Node) (hd : d ∈ n.children) (v : Node) (hv : v ∈ d.children)
      (ctx : Context) : Shapes Decl.Inner (value ctx v) := by
    have hlt := Node.sizeOf_lt_of_mem_children hd
    have hlt' := Node.sizeOf_lt_of_mem_children hv
    exact shapes_value ctx ((hn.inner d hd).inner v hv)
  rw [value]
  dsimp only
  split
  · exact shapes_functionDecl _ n
  · exact shapes_functionDecl _ n
  · exact shapes_functionDecl _ n
  · refine shapes_classValue _ n fun body hbody m hm v hv ctx => ?_
    have hmem := Node.mem_children_of_child? hbody
    have hlt := Node.sizeOf_lt_of_mem_children hmem
    have hlt' := Node.sizeOf_lt_of_mem_children hm
    have hlt'' := Node.sizeOf_lt_of_mem_children hv
    exact shapes_value ctx (((hn.inner body hmem).inner m hm).inner v hv)
  · exact .bind (shapes_documentation _) fun doc _ =>
      .bind (shapes_objectMembers _ [] hgrandchild (List.forall_mem_nil _)) fun members hms =>
        .pure ⟨Decl.shaped_object.2 hms, rfl⟩
  · exact shapes_aliasValue _ n
  · exact shapes_callValue _ n
  · exact shapes_newValue _ hn
  · refine .behind (keepsShape_assign _ n hchild) fun _ => ?_
    split
    · rename_i right hright
      exact hchild right (Node.mem_children_of_child? hright) _
    · exact .unhandled _ n
  · split
    · rename_i c cs hc
      exact hchild c (Node.mem_children_of_codeChildren (by simp [hc])) _
    · exact .unhandled _ n
  all_goals first | exact shapes_variableNamed _ (by decide) | exact .unhandled _ n
termination_by sizeOf n

end Ambient.Build
