import Ambient.Proofs.Build.Path
import Ambient.Proofs.Source.Code

/-!
# Relations that readers keep

Two runs of one reader, on alike nodes and in alike contexts, are related whenever the relation
between steps is kept by composing them and holds of the steps that give notices or fail.  What
makes nodes and contexts alike are parameters, `S` and `K`.  One lemma for each reader, in the order
in which the readers are defined; values are related when the assignments in them are.  What a
reader does to the state, and that its result does not depend on the state, are two such relations.
-/

namespace Ambient

/-- A relation under which contexts are alike to every reader. -/
structure Context.Agreement (S : Node → Node → Prop) (K : Context → Context → Prop) : Prop where
  resolver {c c' : Context} (h : K c c') : c.resolver = c'.resolver
  comment {c c' : Context} (h : K c c') : c.comment.map Node.text = c'.comment.map Node.text
  enter {c c' : Context} (h : K c c') {n n' : Node} (hn : S n n') : K (c.enter n) (c'.enter n')
  behind {c c' : Context} (h : K c c') {before before' : List Node}
    (hbefore : (documenting before).map Node.text = (documenting before').map Node.text) :
    K (c.behind before) (c'.behind before')

/-- Two contexts that differ in the trail and in where the comment stands. -/
def Context.Alike (c c' : Context) : Prop :=
  c.resolver = c'.resolver ∧ c.comment.map Node.text = c'.comment.map Node.text

theorem Context.Alike.refl (c : Context) : c.Alike c :=
  ⟨rfl, rfl⟩

theorem Context.agreement_alike {S : Node → Node → Prop} : Agreement S Alike where
  resolver h := h.1
  comment h := h.2
  enter h _ _ _ := h
  behind h _ _ hbefore := ⟨h.1, hbefore⟩

namespace Build

/-- A relation between steps that is kept by composing steps, over alike nodes and contexts. -/
structure Congruence (S : Node → Node → Prop) (K : Context → Context → Prop)
    (R : (α : Type) → Build α → Build α → Prop) : Prop
    extends Node.Likeness S, Context.Agreement S K where
  pure {α : Type} (a : α) : R α (pure a) (pure a)
  throw {α : Type} (f : Failure) : R α (throw f) (throw f)
  unhandled {α : Type} {c c' : Context} {n n' : Node} (h : K c c') (hn : S n n') :
    R α (unhandled c n) (unhandled c' n')
  bind {α β : Type} {x y : Build α} {f g : α → Build β} (hx : R α x y)
    (hf : ∀ a, R β (f a) (g a)) : R β (x >>= f) (y >>= g)
  notify {l l' : Log} : R Unit (notify l) (notify l')
  readComment {n n' : Node} (h : n.text = n'.text) :
    R Doc.Comment (readComment n) (readComment n')

theorem Congruence.ofTypes {α : Type} {S : Node → Node → Prop} {K : Context → Context → Prop}
    {R : (α : Type) → Build α → Build α → Prop} (hR : Congruence S K R)
    (x : Except TypeRef.Fault α) : R α (ofTypes x) (ofTypes x) := by
  cases x with
  | ok a => exact hR.pure a
  | error f => exact hR.throw _

/-- A value is read alike wherever it stands. -/
def Reads (S : Node → Node → Prop) (K : Context → Context → Prop)
    (R : (α : Type) → Build α → Build α → Prop) (v : Node) : Prop :=
  ∀ v' : Node, S v v' → ∀ c c' : Context, K c c' → R Decl (value c v) (value c' v')

/-- The assignments in a node are applied alike when their right sides are read alike. -/
def AssignsAlike (S : Node → Node → Prop) (K : Context → Context → Prop)
    (R : (α : Type) → Build α → Build α → Prop) (n : Node) : Prop :=
  ∀ e e' : Node, n.Contains e → S e e' → e.kind = .assignmentExpression →
    (∀ v ∈ e.children, Reads S K R v) → ∀ c c' : Context, K c c' →
      R Unit (assign c e) (assign c' e')

variable {S : Node → Node → Prop} {K : Context → Context → Prop}
  {R : (α : Type) → Build α → Build α → Prop}

theorem AssignsAlike.contains {n c : Node} (h : AssignsAlike S K R n) (hc : n.Contains c) :
    AssignsAlike S K R c :=
  fun e e' he => h e e' (hc.trans he)

theorem AssignsAlike.child {n c : Node} (h : AssignsAlike S K R n) (hn : n.isFunction = false)
    (hc : c ∈ n.children) : AssignsAlike S K R c :=
  h.contains (.child hn hc (.self c))

/-! ### Comments between members -/

theorem objectMembers_cons_of_isLineComment {d : Node} (hd : d.IsLineComment) (ctx : Context)
    (before nodes : List Node) (members : Table Decl) :
    objectMembers ctx before (d :: nodes) members =
      objectMembers ctx (d :: before) nodes members := by
  rw [objectMembers, hd.isNamed, hd.isComment]
  exact pure_bind ..

theorem classMembers_cons_of_isLineComment {d : Node} (hd : d.IsLineComment) (ctx : Context)
    (before nodes : List Node) (parts : ClassParts) :
    classMembers ctx before (d :: nodes) parts = classMembers ctx (d :: before) nodes parts := by
  rw [classMembers, hd.isNamed, hd.isComment]
  exact pure_bind ..

variable (hR : Congruence S K R) {c c' : Context} {n n' : Node}

include hR

/-! ### Comments and variables -/

theorem related_documentation (h : K c c') : R _ (documentation c) (documentation c') := by
  have htext := hR.comment h
  rw [documentation, documentation]
  rcases hc : c.comment with _ | d <;> rcases hc' : c'.comment with _ | d' <;> rw [hc, hc'] at htext
  · exact hR.pure _
  · cases htext
  · cases htext
  · exact hR.readComment (Option.some.inj htext)

theorem related_variableOf (h : K c c') (types : List TypeRef) (keyword : String) :
    R _ (variableOf c types keyword) (variableOf c' types keyword) := by
  refine hR.bind (related_documentation hR h) fun doc => ?_
  split
  · exact hR.bind (hR.ofTypes _) fun _ => hR.pure _
  · exact hR.bind (hR.pure _) fun _ => hR.pure _

theorem related_variableNamed (h : K c c') (type : String) :
    R _ (variableNamed c type) (variableNamed c' type) :=
  hR.bind (hR.ofTypes _) fun _ => related_variableOf hR h _ _

/-! ### Functions -/

theorem related_sourceParameter {c c' : Context} (h : K c c') {n n' : Node} (hn : S n n') :
    R _ (sourceParameter c n) (sourceParameter c' n') := by
  have hinner := hR.enter h hn
  rw [sourceParameter, sourceParameter, ← hR.kind hn]
  dsimp only
  split
  · rename_i hk
    rw [hR.text_of_kind hn hk rfl]
    exact hR.pure _
  · exact hR.pure _
  · exact hR.pure _
  · rcases hR.child? hn .left with ⟨d, d', hd, hd', hdd⟩ | ⟨hd, hd'⟩
    · have hlt := Node.sizeOf_lt_of_mem_children (Node.mem_children_of_child? hd)
      rw [hd, hd']
      exact hR.bind (related_sourceParameter hinner hdd) fun _ => hR.pure _
    · rw [hd, hd']
      exact hR.unhandled hinner hn
  · have hcode := hR.codeChildren hn
    rcases hd : n.codeChildren with _ | ⟨d, ds⟩ <;> rcases hd' : n'.codeChildren with _ | ⟨d', ds'⟩
    all_goals rw [hd, hd'] at hcode
    · exact hR.unhandled hinner hn
    · cases hcode
    · cases hcode
    · have hmem : d ∈ n.codeChildren := by simp [hd]
      have hlt := Node.sizeOf_lt_of_mem_children (Node.mem_children_of_codeChildren hmem)
      obtain ⟨hdd, -⟩ := List.forall₂_cons.1 hcode
      exact hR.bind (related_sourceParameter hinner hdd) fun _ => hR.pure _
  · exact hR.unhandled hinner hn
termination_by sizeOf n

theorem related_parametersFrom (h : K c c') (doc : Doc.Comment) (index : Nat)
    {nodes nodes' : List Node} (hnodes : List.Forall₂ S nodes nodes') :
    R _ (parametersFrom c doc index nodes) (parametersFrom c' doc index nodes') := by
  induction hnodes generalizing index with
  | nil => exact hR.pure _
  | cons hn _ ih =>
      exact hR.bind (related_sourceParameter hR h hn) fun _ =>
        hR.bind (hR.ofTypes _) fun _ => hR.bind (ih _) fun _ => hR.pure _

theorem related_callableOf (h : K c c') (doc : Doc.Comment) (hn : S n n') :
    R _ (callableOf c doc n) (callableOf c' doc n') := by
  refine hR.bind (related_parametersFrom hR h doc 0 (hR.parameterNodes hn)) fun _ => ?_
  rw [resultOf, resultOf, hR.givesValue hn]
  exact hR.bind (hR.ofTypes _) fun _ => hR.pure _

theorem related_functionDecl (h : K c c') (hn : S n n') :
    R _ (functionDecl c n) (functionDecl c' n') := by
  refine hR.bind (related_documentation hR h) fun doc =>
    hR.bind (related_callableOf hR h doc hn) fun fn => ?_
  split
  · exact hR.pure _
  · exact hR.pure _

theorem related_addMethod (h : K c c') (members : Table Decl) (hn : S n n')
    (hk : n.kind = .methodDefinition) : R _ (addMethod c members n) (addMethod c' members n') := by
  rw [addMethod, addMethod]
  rcases hR.child? hn .name with ⟨d, d', hd, hd', hdd⟩ | ⟨hd, hd'⟩
  · have hname := hR.nameText hdd (hR.text_of_child? hn hk hd hd' rfl)
    simp only [hd, hd', hR.kind hdd, hname, hR.modifierWords hn]
    split
    · exact hR.pure _
    · refine hR.bind (related_documentation hR h) fun doc =>
        hR.bind (related_callableOf hR h doc hn) fun fn => ?_
      split
      · exact hR.pure _
      · split
        · split
          · exact hR.pure _
          · exact hR.pure _
        · exact hR.pure _
  · rw [hd, hd']
    exact hR.unhandled h hn

/-! ### Paths -/

theorem related_chain {c c' : Context} (h : K c c') {n n' : Node} (hn : S n n') :
    R _ (chain c n) (chain c' n') := by
  have hinner := hR.enter h hn
  rw [chain, chain, ← hR.kind hn]
  dsimp only
  split
  · rename_i hk
    rw [hR.text_of_kind hn hk rfl]
    exact hR.pure _
  · rename_i hk
    rw [hR.text_of_kind hn hk rfl]
    exact hR.pure _
  · rename_i hk
    rw [hR.text_of_kind hn hk rfl]
    exact hR.pure _
  · rcases hR.child? hn .receiver with ⟨r, r', hr, hr', hrr⟩ | ⟨hr, hr'⟩
    · rcases hR.child? hn .property with ⟨p, p', hp, hp', hpp⟩ | ⟨hp, hp'⟩
      · have hlt := Node.sizeOf_lt_of_mem_children (Node.mem_children_of_child? hr)
        have hlt' := Node.sizeOf_lt_of_mem_children (Node.mem_children_of_child? hp)
        rw [hr, hr', hp, hp']
        exact hR.bind (related_chain hinner hrr) fun _ =>
          hR.bind (related_chain hinner hpp) fun _ => hR.pure _
      · rw [hr, hr', hp, hp']
        exact hR.unhandled hinner hn
    · rw [hr, hr']
      exact hR.unhandled hinner hn
  · exact hR.unhandled hinner hn
termination_by sizeOf n

/-! ### Values -/

theorem related_callValue (h : K c c') (hn : S n n') :
    R _ (callValue c n) (callValue c' n') := by
  rw [callValue, callValue, hR.loadedModule? hn (hR.resolver h)]
  split
  · exact hR.bind (related_documentation hR h) fun _ => hR.pure _
  · exact related_variableOf hR h _ _

theorem related_newValue (h : K c c') (hn : S n n') :
    R _ (newValue c n) (newValue c' n') := by
  rw [newValue, newValue]
  rcases hR.child? hn .constructor with ⟨d, d', hd, hd', hdd⟩ | ⟨hd, hd'⟩
  · rw [hd, hd']
    dsimp only
    rw [← hR.kind hdd]
    split
    · rename_i hk
      rw [hR.text_of_kind hdd (eq_of_beq hk) rfl]
      exact related_variableNamed hR h _
    · exact related_variableOf hR h _ _
  · rw [hd, hd']
    exact related_variableOf hR h _ _

theorem related_aliasValue (h : K c c') (htext : n.text = n'.text) :
    R _ (aliasValue c n) (aliasValue c' n') := by
  rw [aliasValue, aliasValue, htext]
  exact hR.bind (related_documentation hR h) fun _ => hR.pure _

theorem related_addClassMethod (h : K c c') (parts : ClassParts) (hn : S n n')
    (hk : n.kind = .methodDefinition) :
    R _ (addClassMethod c parts n) (addClassMethod c' parts n') := by
  have hname : (n.child? .name).any (·.text == "constructor") =
      (n'.child? .name).any (·.text == "constructor") := by
    have htext := congrArg (Option.any (· == "constructor")) (hR.map_text hn (r := .name) hk rfl)
    rwa [Option.any_map, Option.any_map] at htext
  rw [addClassMethod, addClassMethod, hname]
  split
  · exact hR.bind (related_documentation hR h) fun doc =>
      hR.bind (related_callableOf hR h doc hn) fun _ => hR.pure _
  · exact hR.bind (related_addMethod hR h _ hn hk) fun _ => hR.pure _

theorem related_objectMembers (h : K c c') {host : Bool} {before before' nodes nodes' : List Node}
    (hbefore : (Context.documenting before).map Node.text =
      (Context.documenting before').map Node.text)
    (hnodes : Node.Padded host S nodes nodes') (members : Table Decl)
    (hvalue : ∀ d ∈ nodes, d.isFunction = false → ∀ v ∈ d.children, Reads S K R v) :
    R _ (objectMembers c before nodes members) (objectMembers c' before' nodes' members) := by
  induction hnodes generalizing before before' members with
  | nil =>
      rw [objectMembers_nil, objectMembers_nil]
      exact hR.pure _
  | pad _ hd _ ih =>
      rw [objectMembers_cons_of_isLineComment hd]
      refine ih ?_ members hvalue
      rw [Context.documenting_cons_of_isLineComment hd]
      exact hbefore
  | @cons n n' rest rest' hn _ hrest ih =>
      have hvalue' := List.forall_mem_cons.1 hvalue
      have hnext (members : Table Decl) :=
        ih (Context.map_text_documenting_cons hR.toLikeness hn hbefore) members hvalue'.2
      have hinner := hR.enter (hR.behind h hbefore) hn
      rw [objectMembers, objectMembers, ← hR.isNamed hn, ← hR.isComment hn]
      split
      · dsimp only
        rw [← hR.kind hn]
        split
        · rename_i hk
          have hpair := hvalue'.1 (Node.isFunction_eq_false hk rfl)
          rcases hR.child? hn .key with ⟨key, key', hkey, hkey', hkk⟩ | ⟨hkey, hkey'⟩
          · rcases hR.child? hn .value with ⟨v, v', hv, hv', hvv⟩ | ⟨hv, hv'⟩
            · have hname := hR.nameText hkk (hR.text_of_child? hn hk hkey hkey' rfl)
              rw [hkey, hkey', hv, hv']
              simp only [hR.kind hkk, hname]
              split
              · exact hR.bind hR.notify fun _ => hR.bind (hR.pure _) hnext
              · exact hR.bind (hpair v (Node.mem_children_of_child? hv) v' hvv _ _ hinner)
                  fun _ => hR.bind (hR.pure _) hnext
            · rw [hkey, hkey', hv, hv']
              exact hR.bind (hR.unhandled hinner hn) hnext
          · rw [hkey, hkey']
            exact hR.bind (hR.unhandled hinner hn) hnext
        · rename_i hk
          have htext := hR.text_of_kind hn hk rfl
          rw [htext]
          exact hR.bind (related_aliasValue hR hinner htext) fun _ => hR.bind (hR.pure _) hnext
        · rename_i hk
          exact hR.bind (related_addMethod hR hinner _ hn hk) hnext
        · exact hR.bind hR.notify fun _ => hR.bind (hR.pure _) hnext
        · exact hR.bind (hR.unhandled hinner hn) hnext
      · exact hR.bind (hR.pure _) hnext

theorem related_classMembers (h : K c c') {host : Bool} {before before' nodes nodes' : List Node}
    (hbefore : (Context.documenting before).map Node.text =
      (Context.documenting before').map Node.text)
    (hnodes : Node.Padded host S nodes nodes') (parts : ClassParts)
    (hvalue : ∀ d ∈ nodes, d.isFunction = false → ∀ v ∈ d.children, Reads S K R v) :
    R _ (classMembers c before nodes parts) (classMembers c' before' nodes' parts) := by
  induction hnodes generalizing before before' parts with
  | nil =>
      rw [classMembers_nil, classMembers_nil]
      exact hR.pure _
  | pad _ hd _ ih =>
      rw [classMembers_cons_of_isLineComment hd]
      refine ih ?_ parts hvalue
      rw [Context.documenting_cons_of_isLineComment hd]
      exact hbefore
  | @cons n n' rest rest' hn _ hrest ih =>
      have hvalue' := List.forall_mem_cons.1 hvalue
      have hnext (parts : ClassParts) :=
        ih (Context.map_text_documenting_cons hR.toLikeness hn hbefore) parts hvalue'.2
      have hinner := hR.enter (hR.behind h hbefore) hn
      rw [classMembers, classMembers, ← hR.isNamed hn, ← hR.isComment hn]
      split
      · dsimp only
        rw [← hR.kind hn]
        split
        · rename_i hk
          exact hR.bind (related_addClassMethod hR hinner _ hn hk) hnext
        · rename_i hk
          have hfield := hvalue'.1 (Node.isFunction_eq_false hk rfl)
          rcases hR.child? hn .property with ⟨p, p', hp, hp', hpp⟩ | ⟨hp, hp'⟩
          · simp only [hp, hp', hR.kind hpp, hR.text_of_child? hn hk hp hp' rfl]
            split
            · exact hR.bind (hR.pure _) hnext
            · rcases hR.child? hn .value with ⟨v, v', hv, hv', hvv⟩ | ⟨hv, hv'⟩
              · split
                · rename_i w hw _ _
                  cases hv.symm.trans hw
                  split
                  · rename_i w' hw' _ _
                    cases hv'.symm.trans hw'
                    exact hR.bind (hfield v (Node.mem_children_of_child? hv) v' hvv _ _ hinner)
                      fun _ => hR.bind (hR.pure _) hnext
                  · rename_i hw' _ _
                    cases hv'.symm.trans hw'
                · rename_i hw _ _
                  cases hv.symm.trans hw
              · split
                · rename_i hw _ _
                  cases hv.symm.trans hw
                · split
                  · rename_i hw _ _
                    cases hv'.symm.trans hw
                  · exact hR.bind (related_variableOf hR hinner _ _) fun _ =>
                      hR.bind (hR.pure _) hnext
          · rw [hp, hp']
            exact hR.bind (hR.unhandled hinner hn) hnext
        · exact hR.bind (hR.pure _) hnext
        · exact hR.bind (hR.unhandled hinner hn) hnext
      · exact hR.bind (hR.pure _) hnext

theorem related_classValue (h : K c c') (hn : S n n')
    (hvalue : ∀ body, n.child? .body = some body → ∀ d ∈ body.children, d.isFunction = false →
      ∀ v ∈ d.children, Reads S K R v) : R _ (classValue c n) (classValue c' n') := by
  rw [classValue, classValue, hR.baseName? hn]
  refine hR.bind (related_documentation hR h) fun doc => ?_
  dsimp only
  rcases hR.child? hn .body with ⟨b, b', hb, hb', hbb⟩ | ⟨hb, hb'⟩
  · have hmembers := related_classMembers hR h (Eq.refl ((Context.documenting []).map Node.text))
      (hR.children hbb) {} (hvalue b hb)
    rw [hb, hb']
    exact hR.bind hmembers fun _ => hR.pure _
  · rw [hb, hb']
    exact hR.unhandled h hn

/-- Values are related when the assignments in them are. -/
theorem related_value (n : Node) (hassign : AssignsAlike S K R n) : Reads S K R n := by
  intro n' hn c c' h
  have hinner := hR.enter h hn
  have hchild (hn : n.isFunction = false) : ∀ d ∈ n.children, Reads S K R d := by
    intro d hd
    have hlt := Node.sizeOf_lt_of_mem_children hd
    exact related_value d (hassign.child hn hd)
  rw [value, value, ← hR.kind hn]
  dsimp only
  split
  · exact related_functionDecl hR hinner hn
  · exact related_functionDecl hR hinner hn
  · exact related_functionDecl hR hinner hn
  · rename_i hk
    have hfunction := Node.isFunction_eq_false hk rfl
    refine related_classValue hR hinner hn ?_
    intro body hbody d hd hfun v hv
    have hlt := Node.sizeOf_lt_of_mem_children (Node.mem_children_of_child? hbody)
    have hlt' := Node.sizeOf_lt_of_mem_children hd
    have hlt'' := Node.sizeOf_lt_of_mem_children hv
    exact related_value v (hassign.contains (.member hfunction hbody hd (.child hfun hv (.self v))))
  · rename_i hk
    have hfunction := Node.isFunction_eq_false hk rfl
    have hmembers : ∀ d ∈ n.children, d.isFunction = false → ∀ v ∈ d.children, Reads S K R v := by
      intro d hd hfun v hv
      have hlt := Node.sizeOf_lt_of_mem_children hd
      have hlt' := Node.sizeOf_lt_of_mem_children hv
      exact related_value v ((hassign.child hfunction hd).child hfun hv)
    have hobject := related_objectMembers hR hinner
      (Eq.refl ((Context.documenting []).map Node.text)) (hR.children hn) [] hmembers
    exact hR.bind (related_documentation hR hinner) fun _ => hR.bind hobject fun _ => hR.pure _
  · rename_i hk
    exact related_aliasValue hR hinner (hR.text_of_kind hn hk rfl)
  · exact related_callValue hR hinner hn
  · exact related_newValue hR hinner hn
  · rename_i hk
    have hright := hchild (Node.isFunction_eq_false hk rfl)
    refine hR.bind (hassign n n' (.self n) hn hk hright _ _ hinner) fun _ => ?_
    rcases hR.child? hn .right with ⟨r, r', hr, hr', hrr⟩ | ⟨hr, hr'⟩
    · rw [hr, hr']
      exact hright r (Node.mem_children_of_child? hr) r' hrr _ _ hinner
    · rw [hr, hr']
      exact hR.unhandled hinner hn
  · rename_i hk
    have hcode := hR.codeChildren hn
    rcases hd : n.codeChildren with _ | ⟨d, ds⟩ <;> rcases hd' : n'.codeChildren with _ | ⟨d', ds'⟩
    all_goals rw [hd, hd'] at hcode
    · exact hR.unhandled hinner hn
    · cases hcode
    · cases hcode
    · obtain ⟨hdd, -⟩ := List.forall₂_cons.1 hcode
      exact hchild (Node.isFunction_eq_false hk rfl) d
        (Node.mem_children_of_codeChildren (by simp [hd])) d' hdd _ _ hinner
  all_goals first | exact related_variableNamed hR hinner _ | exact hR.unhandled hinner hn
termination_by sizeOf n

end Build

end Ambient
