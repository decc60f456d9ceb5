import Ambient.Proofs.Build.Call
import Ambient.Proofs.Build.Reading
import Ambient.Proofs.Walk

/-!
# What failures report

A reader is given the trail of what is in progress and hands it on, longer by what it enters, so no
trail is ever taken back.  Wherever a reader runs, the trail of its context is that of the calls in
progress, and a construct that its table has no handler for is reported with this trail, which ends
with that construct.  There is one lemma for each reader, in the order in which the readers are
defined.
-/

namespace Ambient

variable {st n : Node} {ctx : Context} {hs hs' : Handlers}

/-- The trail inside each of the nodes is that of the calls in progress when the node is looked up
in the table. -/
def Context.Enters (ctx : Context) (st : Node) (hs : Handlers) (nodes : List Node) : Prop :=
  ∀ e ∈ nodes, st.InProgress (ctx.enter e).trail hs e

/-- The failure, if it is about a construct that nothing handles, reports a construct of the
statement that was looked up in a table without a handler for it, and the calls in progress then. -/
def Failure.PointsInto (st : Node) (f : Failure) : Prop :=
  ∀ kind trail line, f = .unhandled kind trail line →
    ∃ hs n, st.InProgress trail hs n ∧ ¬ n.HandledBy hs ∧ kind = n.kind.name ∧
      line = some (n.line : Int)

namespace Node

theorem InProgress.into (h : st.InProgress ctx.trail hs n) (hs' : Handlers) (e : Node)
    (he : (hs', e) ∈ n.entered hs) : st.InProgress (ctx.enter e).trail hs' e :=
  h.enter he

theorem InProgress.enters {nodes : List Node} (h : st.InProgress ctx.trail hs n)
    (he : n.entered hs = hs'.each nodes) : ctx.Enters st hs' nodes :=
  fun e hmem => h.into hs' e (he ▸ Handlers.mem_each.2 ⟨rfl, hmem⟩)

theorem not_handledBy_of_not_mem (h : n.kind ∉ hs.kinds) : ¬ n.HandledBy hs :=
  fun hn => h hn.1

theorem not_handledBy_of_incomplete (h : n.isComplete = false) : ¬ n.HandledBy hs := by
  intro hn
  rw [hn.2] at h
  cases h

/-- A handler that asks for two parts finds that one of them is missing. -/
theorem isComplete_eq_false {r r' : Role}
    (he : n.isComplete = ((n.child? r).isSome && (n.child? r').isSome))
    (hparts : ∀ c c', n.child? r = some c → n.child? r' = some c' → False) :
    n.isComplete = false := by
  rw [he, Bool.eq_false_iff]
  intro hsome
  obtain ⟨hc, hc'⟩ := Bool.and_eq_true_iff.1 hsome
  obtain ⟨c, hc⟩ := Option.isSome_iff_exists.1 hc
  obtain ⟨c', hc'⟩ := Option.isSome_iff_exists.1 hc'
  exact hparts c c' hc hc'

end Node

namespace Build

variable {α β : Type}

/-- Every failure of the step reports a construct of the statement. -/
def Reports (st : Node) (x : Build α) : Prop :=
  ∀ s f s', runFrom x s = (.error f, s') → f.PointsInto st

namespace Reports

/-- A step that does not fail. -/
theorem of_ok {x : Build α} (h : ∀ s, ∃ a, (runFrom x s).1 = .ok a) : Reports st x := by
  intro s f s' hrun
  obtain ⟨a, ha⟩ := h s
  rw [hrun] at ha
  cases ha

theorem pure (a : α) : Reports st (pure a : Build α) :=
  of_ok fun _ => ⟨a, rfl⟩

/-- A failure about something else. -/
theorem throw {f : Failure} (h : f.isUnhandled = false) : Reports st (throw f : Build α) := by
  intro s g s' hrun
  cases hrun
  rintro kind trail line rfl
  cases h

theorem unhandled (h : st.InProgress ctx.trail hs n) (hn : ¬ n.HandledBy hs) :
    Reports st (unhandled ctx n : Build α) := by
  intro s f s' hrun
  rw [runFrom_unhandled] at hrun
  cases hrun
  rintro kind trail line ⟨⟩
  exact ⟨hs, n, h, hn, rfl, rfl⟩

/-- A construct of a kind that the table does not have. -/
theorem unknown (h : st.InProgress ctx.trail hs n) (hn : n.kind ∉ hs.kinds) :
    Reports st (Build.unhandled ctx n : Build α) :=
  unhandled h (Node.not_handledBy_of_not_mem hn)

/-- A construct without a part that its handler asks for. -/
theorem incomplete (h : st.InProgress ctx.trail hs n) (hn : n.isComplete = false) :
    Reports st (Build.unhandled ctx n : Build α) :=
  unhandled h (Node.not_handledBy_of_incomplete hn)

theorem bind {x : Build α} {f : α → Build β} (hx : Reports st x) (hf : ∀ a, Reports st (f a)) :
    Reports st (x >>= f) := by
  intro s e s' hrun
  rw [runFrom_bind] at hrun
  rcases hfirst : runFrom x s with ⟨g | a, mid⟩
  · rw [hfirst] at hrun
    cases hrun
    exact hx s _ _ hfirst
  · rw [hfirst] at hrun
    exact hf a mid e s' hrun

theorem notify (notices : Log) : Reports st (notify notices) :=
  of_ok fun _ => ⟨(), rfl⟩

theorem modifyModule (f : Module → Module) : Reports st (modifyModule f) :=
  of_ok fun _ => ⟨(), rfl⟩

theorem register (name : String) (d : Decl) : Reports st (register name d) :=
  of_ok fun _ => ⟨(), rfl⟩

theorem item? (name : String) : Reports st (item? name) :=
  of_ok fun _ => ⟨_, rfl⟩

theorem registrations (name : String) : Reports st (registrations name) :=
  of_ok fun _ => ⟨_, rfl⟩

theorem ofTypes (x : Except TypeRef.Fault α) : Reports st (ofTypes x) := by
  cases x with
  | ok a => exact pure a
  | error f => exact throw rfl

theorem readComment (n : Node) : Reports st (readComment n) :=
  of_ok fun s => ⟨_, runFrom_readComment_result n s⟩

theorem forM {xs : List β} {f : β → Build Unit} (h : ∀ b ∈ xs, Reports st (f b)) :
    Reports st (xs.forM f) := by
  induction xs with
  | nil => exact pure ()
  | cons b xs ih =>
      obtain ⟨hb, hxs⟩ := List.forall_mem_cons.1 h
      exact bind hb fun _ => ih hxs

end Reports

/-! ### Comments and variables -/

theorem reports_documentation (ctx : Context) : Reports st (documentation ctx) := by
  unfold documentation
  split
  · exact .readComment _
  · exact .pure _

theorem reports_variableOf (ctx : Context) (types : List TypeRef) (keyword : String) :
    Reports st (variableOf ctx types keyword) := by
  refine .bind (reports_documentation ctx) fun doc => ?_
  split
  · exact .bind (.ofTypes _) fun _ => .pure _
  · exact .bind (.pure _) fun _ => .pure _

theorem reports_variableNamed (ctx : Context) (type : String) :
    Reports st (variableNamed ctx type) :=
  .bind (.ofTypes _) fun _ => reports_variableOf ctx _ _

/-! ### Functions -/

theorem reports_sourceParameter {ctx : Context} {n : Node}
    (h : st.InProgress (ctx.enter n).trail .parameter n) : Reports st (sourceParameter ctx n) := by
  rw [sourceParameter]
  dsimp only
  split
  · exact .pure _
  · exact .pure _
  · exact .pure _
  · rename_i hk
    split
    · rename_i c hc
      have hlt := Node.sizeOf_lt_of_mem_children (Node.mem_children_of_child? hc)
      have hinner := h.into .parameter c (by simp [Node.entered, hk, hc])
      exact .bind (reports_sourceParameter hinner) fun _ => .pure _
    · rename_i hc
      exact .incomplete h (by simp [Node.isComplete, hk, hc])
  · rename_i hk
    split
    · rename_i c cs hcs
      have hmem : c ∈ n.codeChildren := by simp [hcs]
      have hlt := Node.sizeOf_lt_of_mem_children (Node.mem_children_of_codeChildren hmem)
      have hinner := h.into .parameter c (by simp [Node.entered, hk, hcs])
      exact .bind (reports_sourceParameter hinner) fun _ => .pure _
    · rename_i hcs
      exact .incomplete h (by simp [Node.isComplete, hk, hcs])
  · exact .unknown h (by simp_all [Handlers.kinds])
termination_by sizeOf n

theorem reports_parametersFrom (doc : Doc.Comment) (index : Nat) {nodes : List Node}
    (h : ctx.Enters st .parameter nodes) : Reports st (parametersFrom ctx doc index nodes) := by
  induction nodes generalizing index with
  | nil => exact .pure _
  | cons n ns ih =>
      obtain ⟨hn, hns⟩ := List.forall_mem_cons.1 h
      exact .bind (reports_sourceParameter hn) fun _ => .bind (.ofTypes _) fun _ =>
        .bind (ih _ hns) fun _ => .pure _

theorem reports_callableOf (doc : Doc.Comment) (h : ctx.Enters st .parameter n.parameterNodes) :
    Reports st (callableOf ctx doc n) :=
  .bind (reports_parametersFrom doc 0 h) fun _ => .bind (.ofTypes _) fun _ => .pure _

theorem reports_functionDecl (h : ctx.Enters st .parameter n.parameterNodes) :
    Reports st (functionDecl ctx n) := by
  refine .bind (reports_documentation ctx) fun doc => ?_
  refine .bind (reports_callableOf doc h) fun fn => ?_
  split
  · exact .pure _
  · exact .pure _

theorem reports_addMethod (members : Table Decl) (h : st.InProgress ctx.trail hs n)
    (hk : n.kind = .methodDefinition) (hparams : ctx.Enters st .parameter n.parameterNodes) :
    Reports st (addMethod ctx members n) := by
  unfold addMethod
  split
  · rename_i hname
    exact .incomplete h (by simp [Node.isComplete, hk, hname])
  · split
    · exact .pure _
    · refine .bind (reports_documentation ctx) fun doc =>
        .bind (reports_callableOf doc hparams) fun fn => ?_
      split
      · exact .pure _
      · split
        · split
          · exact .pure _
          · exact .pure _
        · exact .pure _

/-! ### Assignments -/

theorem reports_chain {ctx : Context} {n : Node}
    (h : st.InProgress (ctx.enter n).trail .path n) : Reports st (chain ctx n) := by
  rw [chain]
  dsimp only
  split
  · exact .pure _
  · exact .pure _
  · exact .pure _
  · rename_i hk
    have hinner : (ctx.enter n).Enters st .path (n.part .receiver ++ n.part .property) :=
      h.enters (by simp [Node.entered, hk])
    obtain ⟨hreceivers, hproperties⟩ := List.forall_mem_append.1 hinner
    split
    · rename_i receiver property hreceiver hproperty
      have hlt := Node.sizeOf_lt_of_mem_children (Node.mem_children_of_child? hreceiver)
      have hlt' := Node.sizeOf_lt_of_mem_children (Node.mem_children_of_child? hproperty)
      exact .bind (reports_chain (hreceivers _ (Node.mem_part.2 hreceiver))) fun _ =>
        .bind (reports_chain (hproperties _ (Node.mem_part.2 hproperty))) fun _ => .pure _
    · rename_i hparts
      exact .incomplete h (Node.isComplete_eq_false (by simp [Node.isComplete, hk]) hparts)
  · exact .unknown h (by simp_all [Handlers.kinds])
termination_by sizeOf n

theorem reports_exportMember (name : String) (right : Node) {value : Build Decl}
    (hvalue : Reports st value) : Reports st (exportMember name right value) := by
  refine .bind (.modifyModule _) fun _ => .bind (.item? name) fun _ => ?_
  dsimp only
  split
  · exact .modifyModule _
  · exact .bind hvalue fun _ => .register _ _

theorem reports_promote (name : String) : Reports st (promote name) := by
  refine .bind (.item? name) fun old => ?_
  split
  · exact .pure _
  · exact .bind (.modifyModule _) fun _ => .pure _
  · exact .pure _

theorem reports_withClass (name : String) {value : Build Decl}
    {change : Decl → Build (Table Decl → Table Decl)} (hvalue : Reports st value)
    (hchange : ∀ d, Reports st (change d)) : Reports st (withClass name value change) := by
  refine .bind (.registrations name) fun _ => .bind hvalue fun d => .bind (hchange d) fun f =>
    .bind (.registrations name) fun _ => ?_
  split
  · exact .modifyModule _
  · exact .pure _

theorem reports_assignTo (path : String) (line : Nat) (right : Node) {value : Build Decl}
    (hvalue : Reports st value) : Reports st (assignTo path line right value) := by
  unfold assignTo
  split
  · exact .bind hvalue fun _ => .modifyModule _
  · exact reports_exportMember _ right hvalue
  · refine .bind (reports_promote _) fun _ => ?_
    split
    · refine reports_withClass _ hvalue fun d => ?_
      split
      · exact .pure _
      · exact .bind (.notify _) fun _ => .pure _
    · exact .notify _
  · refine .bind (reports_promote _) fun _ => ?_
    split
    · exact reports_withClass _ hvalue fun _ => .pure _
    · exact .notify _
  · refine .bind (.notify _) fun _ => ?_
    split
    · exact .bind hvalue fun _ => .pure _
    · exact .pure _

/-! ### Values -/

theorem reports_callValue (ctx : Context) (n : Node) : Reports st (callValue ctx n) := by
  unfold callValue
  split
  · exact .bind (reports_documentation ctx) fun _ => .pure _
  · exact reports_variableOf ctx _ _

theorem reports_newValue (ctx : Context) (n : Node) : Reports st (newValue ctx n) := by
  unfold newValue
  split
  · split
    · exact reports_variableNamed ctx _
    · exact reports_variableOf ctx _ _
  · exact reports_variableOf ctx _ _

theorem reports_aliasValue (ctx : Context) (n : Node) : Reports st (aliasValue ctx n) :=
  .bind (reports_documentation ctx) fun _ => .pure _

theorem reports_addClassMethod (parts : ClassParts) (h : st.InProgress ctx.trail hs n)
    (hk : n.kind = .methodDefinition) (hparams : ctx.Enters st .parameter n.parameterNodes) :
    Reports st (addClassMethod ctx parts n) := by
  unfold addClassMethod
  split
  · exact .bind (reports_documentation ctx) fun doc =>
      .bind (reports_callableOf doc hparams) fun _ => .pure _
  · exact .bind (reports_addMethod _ h hk hparams) fun _ => .pure _

/-- Wherever the value is read in the statement, failures report a construct of it. -/
def ReportsRead (st v : Node) : Prop :=
  ∀ ctx : Context, st.InProgress (ctx.enter v).trail .value v → Reports st (value ctx v)

theorem reports_assign (h : st.InProgress ctx.trail hs n) (hk : n.kind = .assignmentExpression)
    (he : n.entered hs = n.enteredByAssignment) (hvalue : ∀ v ∈ n.children, ReportsRead st v) :
    Reports st (assign ctx n) := by
  rw [assign]
  split
  · rename_i left right hleft hright
    have hpath := h.into .path left (by simp [he, Node.enteredByAssignment, hleft])
    have hread := h.into .value right (by simp [he, Node.enteredByAssignment, hright])
    exact .bind (reports_chain hpath) fun path => reports_assignTo path _ right
      (hvalue right (Node.mem_children_of_child? hright) ctx hread)
  · rename_i hparts
    exact .incomplete h (Node.isComplete_eq_false (by simp [Node.isComplete, hk]) hparts)

/-- The constructs among the nodes are entered, and the values in them are read. -/
structure EntersMembers (st : Node) (ctx : Context) (hs : Handlers) (nodes : List Node) :
    Prop where
  enters : ∀ e ∈ nodes, (e.isNamed && !e.isComment) = true →
    st.InProgress (ctx.enter e).trail hs e
  reads : ∀ e ∈ nodes, ∀ v ∈ e.children, ReportsRead st v

theorem EntersMembers.of_enters {nodes : List Node}
    (h : ctx.Enters st hs (nodes.filter fun c => c.isNamed && !c.isComment))
    (hreads : ∀ e ∈ nodes, ∀ v ∈ e.children, ReportsRead st v) :
    EntersMembers st ctx hs nodes :=
  ⟨fun e he hcode => h e (List.mem_filter.2 ⟨he, hcode⟩), hreads⟩

theorem EntersMembers.tail {nodes : List Node} (h : EntersMembers st ctx hs (n :: nodes)) :
    EntersMembers st ctx hs nodes :=
  ⟨(List.forall_mem_cons.1 h.enters).2, (List.forall_mem_cons.1 h.reads).2⟩

theorem reports_objectMembers (before : List Node) {nodes : List Node} (members : Table Decl)
    (h : EntersMembers st ctx .objectMember nodes) :
    Reports st (objectMembers ctx before nodes members) := by
  induction nodes generalizing before members with
  | nil =>
      rw [objectMembers_nil]
      exact .pure _
  | cons n rest ih =>
      have hread := h.reads n (List.mem_cons_self ..)
      have hnext (members : Table Decl) := ih (n :: before) members h.tail
      rw [objectMembers]
      split
      · rename_i hcode
        have hinner : st.InProgress ((ctx.behind before).enter n).trail .objectMember n :=
          h.enters n (List.mem_cons_self ..) hcode
        dsimp only
        split
        · rename_i hk
          split
          · rename_i key v _ hv
            split
            · exact .bind (.notify _) fun _ => .bind (.pure _) hnext
            · have hvalue := hinner.into .value v (by simp [Node.entered, hk, hv])
              exact .bind (hread v (Node.mem_children_of_child? hv) _ hvalue) fun _ =>
                .bind (.pure _) hnext
          · rename_i hparts
            have hmissing := Node.isComplete_eq_false (by simp [Node.isComplete, hk]) hparts
            exact .bind (.incomplete hinner hmissing) hnext
        · exact .bind (reports_aliasValue _ n) fun _ => .bind (.pure _) hnext
        · rename_i hk
          exact .bind (reports_addMethod _ hinner hk (hinner.enters (by simp [Node.entered, hk])))
            hnext
        · exact .bind (.notify _) fun _ => .bind (.pure _) hnext
        · exact .bind (.unknown hinner (by simp_all [Handlers.kinds])) hnext
      · exact .bind (.pure _) hnext

theorem reports_classMembers (before : List Node) {nodes : List Node} (parts : ClassParts)
    (h : EntersMembers st ctx .classMember nodes) :
    Reports st (classMembers ctx before nodes parts) := by
  induction nodes generalizing before parts with
  | nil =>
      rw [classMembers_nil]
      exact .pure _
  | cons n rest ih =>
      have hread := h.reads n (List.mem_cons_self ..)
      have hnext (parts : ClassParts) := ih (n :: before) parts h.tail
      rw [classMembers]
      split
      · rename_i hcode
        have hinner : st.InProgress ((ctx.behind before).enter n).trail .classMember n :=
          h.enters n (List.mem_cons_self ..) hcode
        dsimp only
        split
        · rename_i hk
          have hparams : ((ctx.behind before).enter n).Enters st .parameter n.parameterNodes :=
            hinner.enters (by simp [Node.entered, hk])
          exact .bind (reports_addClassMethod _ hinner hk hparams) hnext
        · rename_i hk
          split
          · split
            · exact .bind (.pure _) hnext
            · split
              · rename_i v hv _ _
                have hvalue := hinner.into .value v (by simp [Node.entered, hk, hv])
                exact .bind (hread v (Node.mem_children_of_child? hv) _ hvalue) fun _ =>
                  .bind (.pure _) hnext
              · exact .bind (reports_variableOf _ _ _) fun _ => .bind (.pure _) hnext
          · rename_i hproperty
            exact .bind (.incomplete hinner (by simp [Node.isComplete, hk, hproperty])) hnext
        · exact .bind (.pure _) hnext
        · exact .bind (.unknown hinner (by simp_all [Handlers.kinds])) hnext
      · exact .bind (.pure _) hnext

theorem reports_classValue (h : st.InProgress ctx.trail hs n)
    (hbody : n.child? .body = none → n.isComplete = false)
    (he : n.entered hs = Handlers.classMember.each n.classMembers)
    (hvalue : ∀ body, n.child? .body = some body → ∀ d ∈ body.children, ∀ v ∈ d.children,
      ReportsRead st v) : Reports st (classValue ctx n) := by
  rw [classValue]
  refine .bind (reports_documentation ctx) fun doc => ?_
  split
  · rename_i body hsome
    have hmembers : ctx.Enters st .classMember body.codeChildren :=
      h.enters (by simp [he, Node.classMembers, Node.part, hsome])
    exact .bind (reports_classMembers [] {} (.of_enters hmembers (hvalue body hsome))) fun _ =>
      .pure _
  · rename_i hnone
    exact .incomplete h (hbody hnone)

theorem reports_value (n : Node) : ReportsRead st n := by
  intro ctx h
  have hchild : ∀ v ∈ n.children, ReportsRead st v := by
    intro v hv
    have hlt := Node.sizeOf_lt_of_mem_children hv
    exact reports_value v
  have hmember : ∀ d : Node, sizeOf d < sizeOf n → ∀ v ∈ d.children, ReportsRead st v := by
    intro d hlt v hv
    have hlt' := Node.sizeOf_lt_of_mem_children hv
    exact reports_value v
  rw [value]
  dsimp only
  split
  · rename_i hk
    exact reports_functionDecl (h.enters (by simp [Node.entered, Node.enteredByValue, hk]))
  · rename_i hk
    exact reports_functionDecl (h.enters (by simp [Node.entered, Node.enteredByValue, hk]))
  · rename_i hk
    exact reports_functionDecl (h.enters (by simp [Node.entered, Node.enteredByValue, hk]))
  · rename_i hk
    refine reports_classValue h (fun hbody => by simp [Node.isComplete, hk, hbody])
      (by simp [Node.entered, Node.enteredByValue, hk]) fun body hbody d hd => ?_
    have hlt := Node.sizeOf_lt_of_mem_children (Node.mem_children_of_child? hbody)
    have hlt' := Node.sizeOf_lt_of_mem_children hd
    exact hmember d (by omega)
  · rename_i hk
    have hmembers : EntersMembers st (ctx.enter n) .objectMember n.children :=
      .of_enters (h.enters (by simp [Node.entered, Node.enteredByValue, hk, Node.codeChildren]))
        fun d hd => hmember d (Node.sizeOf_lt_of_mem_children hd)
    exact .bind (reports_documentation _) fun _ => .bind (reports_objectMembers [] [] hmembers)
      fun _ => .pure _
  · exact reports_aliasValue _ n
  · exact reports_callValue _ n
  · exact reports_newValue _ n
  · rename_i hk
    have he : n.entered .value = n.enteredByAssignment := by
      simp [Node.entered, Node.enteredByValue, hk]
    refine .bind (reports_assign h hk he hchild) fun _ => ?_
    split
    · rename_i right hright
      have hread := h.into .value right (by simp [he, Node.enteredByAssignment, hright])
      exact hchild right (Node.mem_children_of_child? hright) _ hread
    · rename_i hright
      exact .incomplete h (by simp [Node.isComplete, hk, hright])
  · rename_i hk
    split
    · rename_i c cs hcs
      have hmem : c ∈ n.codeChildren := by simp [hcs]
      have hread := h.into .value c (by simp [Node.entered, Node.enteredByValue, hk, hcs])
      exact hchild c (Node.mem_children_of_codeChildren hmem) _ hread
    · rename_i hcs
      exact .incomplete h (by simp [Node.isComplete, hk, hcs])
  all_goals first
    | exact reports_variableNamed _ _
    | exact .unknown h (by simp_all [Handlers.kinds])
termination_by sizeOf n

/-! ### Comments and declarations -/

theorem reports_eachCode {f : Node → Build Unit} (h : ∀ d ∈ n.codeChildren, Reports st (f d)) :
    Reports st (eachCode n.children f) := by
  refine .forM fun d hd => ?_
  split
  · rename_i hcode
    exact h d (List.mem_filter.2 ⟨hd, hcode⟩)
  · exact .pure _

theorem reports_onlyKind {k : Kind} (hk : hs.kinds = [k])
    (h : st.InProgress (ctx.enter n).trail hs n) {f : Context → Node → Build α}
    (hf : n.kind = k → Reports st (f (ctx.enter n) n)) : Reports st (onlyKind ctx k f n) := by
  rw [onlyKind]
  split
  · rename_i heq
    exact hf (by simpa using heq)
  · rename_i hne
    exact .unknown h (by simpa [hk] using hne)

theorem reports_addTypedef (doc : Doc.Comment) (tag : Doc.Tag) :
    Reports st (addTypedef doc tag) := by
  unfold addTypedef
  split
  · exact .notify _
  · dsimp only
    split
    · exact .bind (.ofTypes _) fun _ => .register _ _
    · exact .bind (.pure _) fun _ => .register _ _

theorem reports_commentStatement (n : Node) : Reports st (commentStatement n) := by
  unfold commentStatement
  split
  · refine .bind (.readComment n) fun doc => ?_
    have htypedefs : Reports st ((doc.find "typedef").forM (addTypedef doc)) :=
      .forM fun tag _ => reports_addTypedef doc tag
    split
    · exact .bind (.modifyModule _) fun _ => htypedefs
    · exact htypedefs
  · exact .pure _

theorem reports_bindingValue (keyword : String) {v : Option Node}
    (h : ctx.Enters st .value v.toList) : Reports st (bindingValue ctx keyword v) := by
  cases v with
  | none => exact reports_variableOf ctx _ _
  | some m =>
      refine .bind (reports_documentation ctx) fun doc => ?_
      split
      · exact .pure _
      · refine .bind (reports_value m ctx (h m (List.mem_singleton_self m))) fun d => ?_
        split
        · exact .pure _
        · exact .pure _

theorem reports_registered {x : Build Decl} (hx : Reports st x) (name : String) :
    Reports st (do
      let d ← x
      register name d
      return [name]) :=
  .bind hx fun _ => .bind (.register _ _) fun _ => .pure _

theorem reports_bindMember (ctx : Context) (path : Option String) (own imported : String) :
    Reports st (bindMember ctx path own imported) := by
  unfold bindMember
  split
  · exact reports_registered (.pure _) own
  · exact reports_registered (reports_variableOf ctx _ _) own

theorem reports_patternMember (path : Option String)
    (h : st.InProgress (ctx.enter n).trail .patternMember n) :
    Reports st (patternMember ctx path n) := by
  unfold patternMember
  dsimp only
  split
  · exact reports_bindMember _ path _ _
  · rename_i hk
    split
    · rename_i target key htarget _
      have hinner := h.into .renamed target (by simp [Node.entered, hk, htarget])
      exact reports_onlyKind rfl hinner fun _ => reports_bindMember _ path _ _
    · rename_i hparts
      exact .incomplete h (Node.isComplete_eq_false (by simp [Node.isComplete, hk])
        fun key target hkey htarget => hparts target key htarget hkey)
  · exact .unknown h (by simp_all [Handlers.kinds])

theorem reports_patternNames (path : Option String) {nodes : List Node}
    (h : ctx.Enters st .patternMember nodes) : Reports st (patternNames ctx path nodes) := by
  induction nodes with
  | nil => exact .pure _
  | cons n ns ih =>
      obtain ⟨hn, hns⟩ := List.forall_mem_cons.1 h
      exact .bind (reports_patternMember path hn) fun _ => .bind (ih hns) fun _ => .pure _

theorem reports_declaratorNames (keyword : String) (h : st.InProgress ctx.trail .declarator n)
    (hk : n.kind = .variableDeclarator) : Reports st (declaratorNames keyword ctx n) := by
  unfold declaratorNames
  split
  · rename_i hname
    exact .incomplete h (by simp [Node.isComplete, hk, hname])
  · rename_i target htarget
    have hinner := h.into (.target (n.child? .value)) target (by simp [Node.entered, hk, htarget])
    dsimp only
    split
    · rename_i hident
      have hbound : (ctx.enter target).Enters st .value (n.child? .value).toList :=
        hinner.enters (by simp [Node.entered, hident])
      exact reports_registered (reports_bindingValue keyword hbound) _
    · rename_i hpattern
      exact reports_patternNames _ (hinner.enters (by simp [Node.entered, hpattern]))
    · exact .unknown hinner (by simp_all [Handlers.kinds])

theorem reports_declaratorsNames (keyword : String) {nodes : List Node}
    (h : ctx.Enters st .declarator nodes) : Reports st (declaratorsNames keyword ctx nodes) := by
  induction nodes with
  | nil => exact .pure _
  | cons n ns ih =>
      obtain ⟨hn, hns⟩ := List.forall_mem_cons.1 h
      exact .bind (reports_onlyKind rfl hn (reports_declaratorNames keyword hn)) fun _ =>
        .bind (ih hns) fun _ => .pure _

theorem reports_registerNamed (h : st.InProgress ctx.trail hs n)
    (hname : n.child? .name = none → n.isComplete = false) {x : Build Decl}
    (hx : Reports st x) : Reports st (registerNamed ctx n x) := by
  unfold registerNamed
  split
  · rename_i hnone
    exact .incomplete h (hname hnone)
  · exact reports_registered hx _

/-- What is no declaration has a kind of its own. -/
theorem not_mem_declarations (h : declarationNames? ctx n = none) :
    n.kind ∉ Handlers.declarations := by
  unfold declarationNames? at h
  split at h
  case h_6 => simp_all [Handlers.declarations]
  all_goals cases h

theorem reports_declarationNames? (h : st.InProgress ctx.trail hs n)
    (he : n.entered hs = n.enteredByDeclaration) {x : Build (List String)}
    (hx : declarationNames? ctx n = some x) : Reports st x := by
  unfold declarationNames? at hx
  split at hx
  · rename_i hk
    cases hx
    exact reports_declaratorsNames _ (h.enters (by simp [he, Node.enteredByDeclaration, hk]))
  · rename_i hk
    cases hx
    exact reports_declaratorsNames _ (h.enters (by simp [he, Node.enteredByDeclaration, hk]))
  · rename_i hk
    cases hx
    refine reports_registerNamed h (fun hname => by simp [Node.isComplete, hk, hname]) ?_
    exact reports_functionDecl (h.enters (by simp [he, Node.enteredByDeclaration, hk]))
  · rename_i hk
    cases hx
    refine reports_registerNamed h (fun hname => by simp [Node.isComplete, hk, hname]) ?_
    exact reports_functionDecl (h.enters (by simp [he, Node.enteredByDeclaration, hk]))
  · rename_i hk
    cases hx
    refine reports_registerNamed h (fun hname => by simp [Node.isComplete, hk, hname]) ?_
    exact reports_classValue h (fun hbody => by simp [Node.isComplete, hk, hbody])
      (by simp [he, Node.enteredByDeclaration, hk]) fun _ _ _ _ v _ => reports_value v
  · cases hx

theorem reports_declarationNames (h : st.InProgress (ctx.enter n).trail .declaration n) :
    Reports st (declarationNames ctx n) := by
  rw [declarationNames]
  cases hx : declarationNames? (ctx.enter n) n with
  | none => exact .unknown h (not_mem_declarations hx)
  | some x => exact reports_declarationNames? h rfl hx

/-! ### Exports and imports -/

theorem reports_exportDefault (h : st.InProgress ctx.trail .statement n)
    (hk : n.kind = .exportStatement) (he : n.entered .statement = n.enteredByExport)
    (hdefault : n.children.any (·.kind == .token "default")) :
    Reports st (exportDefault ctx n) := by
  have hregister (d : Decl) : Reports st (register "default" (d.setExported true)) :=
    .register _ _
  unfold exportDefault
  split
  · rename_i d hd
    have hinner := h.into .declaration d (by simp [he, Node.enteredByExport, hd])
    refine .bind (reports_declarationNames hinner) fun names => ?_
    split
    · exact .bind (.pure _) hregister
    · exact .bind (.throw rfl) hregister
  · rename_i v hd hv
    have hinner := h.into .value v (by simp [he, Node.enteredByExport, hd, hdefault, hv])
    exact .bind (reports_value v ctx hinner) hregister
  · rename_i hd hv
    exact .bind (.incomplete h (by simp [Node.isComplete, hk, hdefault, hd, hv])) hregister

theorem reports_exportSpecifier (path : Option String) (n : Node) :
    Reports st (exportSpecifier path n) := by
  unfold exportSpecifier
  dsimp only
  split
  · exact .register _ _
  · refine .bind (.item? _) fun old => ?_
    split
    · exact .modifyModule _
    · exact .register _ _

theorem reports_exportClause (path : Option String)
    (h : st.InProgress (ctx.enter n).trail .exportClause n) :
    Reports st (exportClause ctx path n) := by
  unfold exportClause
  dsimp only
  split
  · rename_i hk
    have hinner : (ctx.enter n).Enters st .exportSpecifier n.codeChildren :=
      h.enters (by simp [Node.entered, hk])
    exact reports_eachCode fun s hs => reports_onlyKind rfl (hinner s hs) fun _ =>
      reports_exportSpecifier path s
  · exact .register _ _
  · exact .pure _
  · exact .unknown h (by simp_all [Handlers.kinds])

theorem reports_exportList (h : ctx.Enters st .exportClause
    (n.codeChildren.filter (·.kind != .decorator))) : Reports st (exportList ctx n) := by
  refine .bind (.forM fun c hc => reports_exportClause _ (h c hc)) fun _ => ?_
  split
  · split
    · exact .register _ _
    · exact .pure _
  · exact .pure _

theorem reports_exportStatement (h : st.InProgress ctx.trail .statement n)
    (hk : n.kind = .exportStatement) : Reports st (exportStatement ctx n) := by
  have he : n.entered .statement = n.enteredByExport := by
    simp [Node.entered, Node.enteredByStatement, hk]
  unfold exportStatement
  split
  · rename_i hdefault
    exact reports_exportDefault h hk he hdefault
  · rename_i hdefault
    split
    · rename_i d hd
      have hinner := h.into .declaration d (by simp [he, Node.enteredByExport, hd])
      exact .bind (reports_declarationNames hinner) fun names =>
        .forM fun name _ => .modifyModule _
    · rename_i hd
      refine reports_exportList (h.enters ?_)
      rw [he, Node.enteredByExport, hd]
      exact if_neg hdefault

theorem reports_importClause (path : String)
    (h : st.InProgress (ctx.enter n).trail .importClause n) :
    Reports st (importClause ctx path n) := by
  unfold importClause
  dsimp only
  split
  · exact .register _ _
  · exact .register _ _
  · rename_i hk
    have hinner : (ctx.enter n).Enters st .importSpecifier n.codeChildren :=
      h.enters (by simp [Node.entered, hk])
    exact reports_eachCode fun s hs => reports_onlyKind rfl (hinner s hs) fun _ => .register _ _
  · exact .unknown h (by simp_all [Handlers.kinds])

theorem reports_importStatement (h : st.InProgress ctx.trail .statement n)
    (hk : n.kind = .importStatement) : Reports st (importStatement ctx n) := by
  unfold importStatement
  dsimp only
  split
  · exact .notify _
  · rename_i clause hclause
    have hinner : ctx.Enters st .importClause clause.codeChildren :=
      h.enters (by simp [Node.entered, Node.enteredByStatement, hk, hclause])
    exact reports_eachCode fun c hc => reports_importClause _ (hinner c hc)

/-! ### Statements -/

theorem reports_expressionStatement (h : st.InProgress ctx.trail .statement n)
    (hk : n.kind = .expressionStatement) : Reports st (expressionStatement ctx n) := by
  unfold expressionStatement
  split
  · exact .pure _
  · rename_i e he
    have hinner := h.into .expression e (by simp [Node.entered, Node.enteredByStatement, hk, he])
    dsimp only
    split
    · rename_i hassign
      exact reports_assign hinner hassign (by simp [Node.entered, hassign])
        fun v _ => reports_value v
    · exact .pure _
    · exact .notify _
    · exact .unknown hinner (by simp_all [Handlers.kinds])

/-- A statement that is read where no construct is in progress reports its own constructs. -/
theorem reports_statement {ctx : Context} (hctx : ctx.trail = []) (st : Node) :
    Reports st (statement ctx st) := by
  have hinner : st.InProgress (ctx.enter st).trail .statement st := by
    have htrail : (ctx.enter st).trail = [st.kind.name] := by
      rw [Context.enter, hctx]
      rfl
    rw [htrail]
    exact .statement
  unfold statement
  dsimp only
  split
  · exact reports_commentStatement st
  · rename_i hk
    exact reports_expressionStatement hinner hk
  · rename_i hk
    exact reports_exportStatement hinner hk
  · rename_i hk
    exact reports_importStatement hinner hk
  · exact .pure _
  · exact .pure _
  · split
    · rename_i x hx
      have he : st.entered .statement = st.enteredByDeclaration := by
        simp [Node.entered, Node.enteredByStatement, *]
      exact .bind (reports_declarationNames? hinner he hx) fun _ => .pure _
    · rename_i hx
      have hk := not_mem_declarations hx
      exact .unknown hinner (by simp_all [Handlers.kinds])

/-- The statements of a source report constructs of one of them. -/
theorem runFrom_statements_error {ctx : Context} (hctx : ctx.trail = []) {before nodes : List Node}
    {s s' : BuildState} {f : Failure}
    (hrun : runFrom (statements ctx before nodes) s = (.error f, s')) :
    ∃ st ∈ nodes, st.isNamed = true ∧ f.PointsInto st := by
  induction nodes generalizing before s with
  | nil => cases hrun
  | cons st rest ih =>
      rw [statements] at hrun
      have hrest {t : BuildState}
          (h : runFrom (statements ctx (st :: before) rest) t = (.error f, s')) :
          ∃ st' ∈ st :: rest, st'.isNamed = true ∧ f.PointsInto st' := by
        obtain ⟨st', hmem, hst'⟩ := ih h
        exact ⟨st', List.mem_cons_of_mem _ hmem, hst'⟩
      by_cases hnamed : st.isNamed = true
      · rw [if_pos hnamed, runFrom_bind] at hrun
        rcases hfirst : runFrom (statement (ctx.behind before) st) s with ⟨g | u, mid⟩
        · rw [hfirst] at hrun
          cases hrun
          have hbehind : (ctx.behind before).trail = [] := hctx
          exact ⟨st, List.mem_cons_self .., hnamed, reports_statement hbehind st s _ _ hfirst⟩
        · rw [hfirst] at hrun
          exact hrest hrun
      · rw [if_neg hnamed] at hrun
        exact hrest hrun

/-! ### Sources -/

/-- A construct of a source that nothing handles is reported with the trail from its statement. -/
theorem unhandled_of_ofSource {resolver : Resolver} {name source kind : String} {trail : Trail}
    {line : Option Int}
    (h : (ofSource resolver name source).result = .error (.unhandled kind trail line)) :
    ∃ tree, Source.parse? source = some tree ∧ ∃ st ∈ tree.namedChildren, ∃ hs n,
      st.InProgress trail hs n ∧ ¬ n.HandledBy hs ∧ kind = n.kind.name ∧
        line = some (n.line : Int) := by
  rw [ofSource] at h
  split at h
  · rename_i tree htree
    rw [ofTree] at h
    split at h
    · cases h
    · rename_i f s hrun
      obtain ⟨st, hst, hnamed, hpoints⟩ := runFrom_statements_error rfl hrun
      cases h
      exact ⟨tree, htree, st, List.mem_filter.2 ⟨hst, hnamed⟩, hpoints _ _ _ rfl⟩
  · cases h

/-- The trail is balanced and reported whole.  A walk leaves the stack as it was, however failures
are raised and caught in it; inside a block the stack is longer by the kind of the block; and a node
that a table has no handler for is reported with what is in progress around it.  The visits and the
tours of the program are such walks.  A construct of a source that nothing handles is reported with
the calls in progress when it was looked up in vain, from its statement down to itself, and the
message ends with this trail. -/
theorem trail_balanced_and_reported :
    (∀ (t : Trail) (w : Walk), (w.run t).trail = t) ∧
    (∀ (t : Trail) (kind : String) (steps : List Walk), (Walk.block kind steps).run t =
      ⟨t, (t ++ [kind]) :: (Walk.runAll (t ++ [kind]) steps).seen ++ [t],
        (Walk.runAll (t ++ [kind]) steps).failure⟩) ∧
    (∀ (t : Trail) (n : Node) (handlers : Table (List Walk)),
      handlers.get? n.kind.name = none → (Walk.visit n handlers).run t =
        ⟨t, [t ++ [n.kind.name], t],
          some (.unhandled n.kind.name (t ++ [n.kind.name]) (some n.line))⟩) ∧
    (∀ (t : Trail) (w : Walk) (kind : String) (path : List String) (line : Option Int),
      (w.run t).failure = some (.unhandled kind path line) →
        ∃ n kinds, Walk.InProgress n w kinds ∧ kinds.getLast? = some kind ∧
          kind = n.kind.name ∧ path = t ++ kinds ∧ line = some (n.line : Int)) ∧
    (∀ (t : Trail) (v : Visit), v.run t = Visit.courseOf (v.walk.run t)) ∧
    (∀ (descend leaf : List String) (t : Trail) (n : Node), (Source.tour descend leaf t n).2 =
      ((Source.tourWalk descend leaf n).run t).failure) ∧
    (∀ (resolver : Resolver) (name source kind : String) (trail : Trail) (line : Option Int),
      (ofSource resolver name source).result = .error (.unhandled kind trail line) →
        ∃ tree, Source.parse? source = some tree ∧ ∃ st ∈ tree.namedChildren, ∃ hs n,
          st.InProgress trail hs n ∧ st.Holds n ∧ ¬ n.HandledBy hs ∧
            trail ≠ [] ∧ trail.head? = some st.kind.name ∧
            trail.getLast? = some kind ∧ kind = n.kind.name ∧ line = some (n.line : Int) ∧
            ∃ front, (Failure.unhandled kind trail line).message =
              front ++ String.intercalate " -> " trail) := by
  refine ⟨Walk.trail_run, Walk.run_block, fun t n handlers h => Walk.run_visit_eq_unhandled h t,
    ?_, Visit.run_eq_walk, Source.tour_eq_walk, ?_⟩
  · intro t w kind path line h
    obtain ⟨n, kinds, hn, hkind, hpath, hline⟩ := Walk.reported_run t w _ h kind path line rfl
    exact ⟨n, kinds, hn, hkind ▸ hn.getLast?, hkind, hpath, hline⟩
  · intro resolver name source kind trail line h
    obtain ⟨tree, htree, st, hst, hs, n, hn, hnot, hkind, hline⟩ := unhandled_of_ofSource h
    have hhead := hn.head?_trail
    refine ⟨tree, htree, st, hst, hs, n, hn, hn.holds, hnot, ?_, hhead,
      hkind ▸ hn.getLast?_trail, hkind, hline, _, rfl⟩
    rintro rfl
    cases hhead

/-- The result is this failure. -/
def failsWith (f : Failure) : Except Failure Module → Bool
  | .error g => decide (f = g)
  | .ok _ => false

theorem eq_error_of_failsWith {f : Failure} {result : Except Failure Module}
    (h : failsWith f result = true) : result = .error f := by
  cases result with
  | error g => rw [of_decide_eq_true h]
  | ok m => cases h

/-- A visit with an empty table reports its node, with what is in progress around it.  In
`export var {a:[b]}=c`, the pattern inside the pattern is reported with the calls that lead there. -/
theorem trail_balanced_and_reported_in_pattern :
    (Walk.visit default []).run ["program"] = ⟨["program"],
      [["program", (default : Node).kind.name], ["program"]],
      some (.unhandled (default : Node).kind.name ["program", (default : Node).kind.name]
        (some (default : Node).line))⟩ ∧
    (∃ n kinds, Walk.InProgress n (.visit default []) kinds ∧
      kinds.getLast? = some (default : Node).kind.name ∧
      ["program", (default : Node).kind.name] = ["program"] ++ kinds) ∧
    (ofSource {} "m" "export var \x7ba:[b]\x7d=c").result = .error (.unhandled "array_pattern"
      ["export_statement", "variable_declaration", "variable_declarator", "object_pattern",
        "pair_pattern", "array_pattern"] (some 1)) ∧
    ∃ tree, Source.parse? "export var \x7ba:[b]\x7d=c" = some tree ∧
      ∃ st ∈ tree.namedChildren, ∃ hs n, st.InProgress ["export_statement", "variable_declaration",
        "variable_declarator", "object_pattern", "pair_pattern", "array_pattern"] hs n ∧
        st.Holds n ∧ ¬ n.HandledBy hs ∧ n.kind.name = "array_pattern" ∧ n.line = 1 := by
  obtain ⟨-, -, hvisit, hwalk, -, -, hsource⟩ := trail_balanced_and_reported
  have hempty := hvisit ["program"] default [] rfl
  have hpattern : (ofSource {} "m" "export var \x7ba:[b]\x7d=c").result = .error (.unhandled
      "array_pattern" ["export_statement", "variable_declaration", "variable_declarator",
        "object_pattern", "pair_pattern", "array_pattern"] (some 1)) :=
    eq_error_of_failsWith (by decide +kernel)
  refine ⟨hempty, ?_, hpattern, ?_⟩
  · obtain ⟨n, kinds, hn, hlast, -, hpath, -⟩ :=
      hwalk ["program"] (.visit default []) _ _ _ (by rw [hempty])
    exact ⟨n, kinds, hn, hlast, hpath⟩
  · obtain ⟨tree, htree, st, hst, hs, n, hn, hin, hnot, -, -, -, hkind, hline, -⟩ :=
      hsource {} "m" "export var \x7ba:[b]\x7d=c" _ _ _ hpattern
    have hone := Option.some.inj hline
    exact ⟨tree, htree, st, hst, hs, n, hn, hin, hnot, hkind.symm, by omega⟩

end Build

end Ambient
