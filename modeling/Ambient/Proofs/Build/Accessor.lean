import Ambient.Proofs.Build.Lockstep
import Ambient.Proofs.Build.Member
import Ambient.Proofs.Occurrence

/-!
# Which definition of a member counts

The members of an object or a class are what the gifts of its nodes add up to: the last definition
of a name counts, setters aside, and where there are setters only, the first one.  What a node gives
depends on the comment before it and not on the members before it, so a getter and a setter of one
name change places, each with its comments, and nothing else changes.
-/

namespace Ambient

namespace Node

/-- A token that only keeps members apart. -/
def isSeparator (n : Node) : Bool :=
  n.kind == .token ";" || n.kind == .token ","

/-- A comment or a separator. -/
def isRemark (n : Node) : Bool :=
  n.isSeparator || n.isComment

theorem isRemark_of_isSeparator {n : Node} (h : n.isSeparator = true) : n.isRemark = true := by
  rw [isRemark, h]
  rfl

theorem not_code_of_isRemark {n : Node} (h : n.isRemark = true) :
    ¬ (n.isNamed && !n.isComment) = true := by
  simp only [isRemark, isSeparator, isComment, Bool.or_eq_true, beq_iff_eq] at h
  obtain (hk | hk) | hk := h
  all_goals
    rw [isNamed, isComment, hk]
    decide

theorem kind_of_isGetter {n : Node} (h : n.isGetter = true) : n.kind = .methodDefinition := by
  rw [isGetter, Bool.and_eq_true, beq_iff_eq] at h
  exact h.1

theorem kind_of_isSetter {n : Node} (h : n.isSetter = true) : n.kind = .methodDefinition := by
  rw [isSetter, Bool.and_assoc, Bool.and_eq_true, beq_iff_eq] at h
  exact h.1

theorem not_isSetter_of_isGetter {n : Node} (h : n.isGetter = true) : n.isSetter = false := by
  rw [isGetter, Bool.and_eq_true] at h
  rw [isSetter, h.2, Bool.not_true, Bool.and_false, Bool.false_and]

end Node

namespace Context

theorem documenting_append {xs : List Node} (h : ∀ n ∈ xs, n.isRemark = true) (ys : List Node) :
    documenting (xs ++ ys) = (documenting xs).or (documenting ys) := by
  induction xs with
  | nil => rfl
  | cons n xs ih =>
      obtain ⟨hn, hxs⟩ := List.forall_mem_cons.1 h
      rw [List.cons_append, documenting, documenting, ih hxs]
      split
      · rfl
      · rename_i hseparator
        rw [Node.isRemark, Node.isSeparator, eq_false_of_ne_true hseparator, Bool.false_or] at hn
        rw [if_pos hn, if_pos hn]
        split
        · rfl
        · rfl

theorem documenting_separators {xs : List Node} (h : ∀ n ∈ xs, n.isSeparator = true)
    (ys : List Node) : documenting (xs ++ ys) = documenting ys := by
  induction xs with
  | nil => rfl
  | cons n xs ih =>
      obtain ⟨hn, hxs⟩ := List.forall_mem_cons.1 h
      rw [List.cons_append, documenting]
      exact (if_pos hn).trans (ih hxs)

theorem documenting_cons_of_method {n : Node} (hk : n.kind = .methodDefinition)
    (before : List Node) : documenting (n :: before) = none := by
  rw [documenting, Node.isComment, hk]
  rfl

end Context

/-- The constructor of a class. -/
def Decl.ctor? : Decl → Option Callable
  | .classDef _ ctor _ _ => ctor
  | _ => none

namespace Build

/-! ### What nodes give, in two places -/

section Related

variable {S : Node → Node → Prop} {K : Context → Context → Prop}
  {R : (α : Type) → Build α → Build α → Prop} (hR : Congruence S K R) {c c' : Context}
  {before before' : List Node}

include hR

theorem isSetter_of_likeness {n n' : Node} (hn : S n n') : n.isSetter = n'.isSetter := by
  rw [Node.isSetter, Node.isSetter, hR.kind hn, hR.modifierWords hn]

theorem related_gift (b : Body) (h : K c c')
    (hbefore : (Context.documenting before).map Node.text =
      (Context.documenting before').map Node.text)
    {n n' : Node} (hn : S n n') (hrole : n.role = n'.role)
    (hvalue : n.isFunction = false → ∀ v ∈ n.children, Reads S K R v) :
    R _ (b.gift c before n) (b.gift c' before' n') := by
  have hnodes : Node.Padded false S [n] [n'] := .cons hn hrole .nil
  have hvalues : ∀ d ∈ [n], d.isFunction = false → ∀ v ∈ d.children, Reads S K R v :=
    List.forall_mem_singleton.2 hvalue
  rw [Body.gift, Body.gift, isSetter_of_likeness hR hn]
  refine hR.bind ?_ fun own => hR.pure _
  cases b with
  | object =>
      exact hR.bind (related_objectMembers hR h hbefore hnodes _ hvalues) fun _ => hR.pure _
  | classBody => exact related_classMembers hR h hbefore hnodes _ hvalues

end Related

variable {b : Body} {ctx c c' : Context} {before before' nodes nodes' : List Node} {n : Node}

/-- What nodes with the same code give is decided alike. -/
theorem lockstep_gifts (b : Body) (h : c.Alike c')
    (hbefore : (Context.documenting before).map Node.text =
      (Context.documenting before').map Node.text)
    (hnodes : nodes.map Node.code = nodes'.map Node.code) :
    Lockstep (fun _ => True) (b.gifts c before nodes) (b.gifts c' before' nodes') := by
  have hR := congruence_lockstep (P := fun _ => True) fun _ _ => trivial
  have hread (v : Node) :=
    related_value hR.toCongruence v (assignsAlike_lockstep (fun _ _ => trivial) fun _ _ _ _ => trivial)
  induction nodes generalizing before before' nodes' with
  | nil =>
      cases nodes' with
      | nil => exact hR.pure _
      | cons n' rest' => cases hnodes
  | cons n rest ih =>
      cases nodes' with
      | nil => cases hnodes
      | cons n' rest' =>
          obtain ⟨hcode, hrest⟩ := List.cons.inj hnodes
          have hn := Node.sameCode_of_code_eq hcode
          have hrole : n.role = n'.role := by
            rw [← Node.role_code n, hcode, Node.role_code]
          have hnext := Context.map_text_documenting_cons hR.toLikeness hn hbefore
          exact hR.bind (related_gift hR.toCongruence b h hbefore hn hrole fun _ v _ => hread v)
            fun g => hR.bind (ih hnext hrest) fun gs => hR.pure _

/-- What a method gives is decided by the method and its comment. -/
theorem alike_gift (b : Body) (ctx : Context) (hk : n.kind = .methodDefinition)
    (hbefore : (Context.documenting before).map Node.text =
      (Context.documenting before').map Node.text) :
    Alike (b.gift ctx before n) (b.gift ctx before' n) := by
  refine related_gift congruence_alike b (.refl ctx) hbefore (.refl n) rfl fun hn => ?_
  rw [Node.isFunction, hk] at hn
  cases hn

theorem silent_gift (b : Body) (ctx : Context) (before : List Node)
    (hk : n.kind = .methodDefinition) : Silent (b.gift ctx before n) := by
  have htraced : Traced Act.IsNote (b.gift ctx before n) := by
    refine related_gift (congruence_traced fun _ ha => ha) b (.refl ctx) rfl (.refl n) rfl
      fun hn => ?_
    rw [Node.isFunction, hk] at hn
    cases hn
  intro s
  obtain ⟨acts, hacts, hstate⟩ := htraced s
  rw [hstate, progress_afterAll hacts]

/-! ### The table of a body -/

/-- The members that nodes behind the given siblings leave. -/
def Body.table (b : Body) (ctx : Context) (before nodes : List Node) (members : Table Decl) :
    Build (Table Decl) := do
  let gs ← b.gifts ctx before nodes
  return gs.foldl Gift.into members

theorem table_nil (b : Body) (ctx : Context) (before : List Node) (members : Table Decl) :
    b.table ctx before [] members = pure members :=
  rfl

theorem table_cons (b : Body) (ctx : Context) (before : List Node) (n : Node) (rest : List Node)
    (members : Table Decl) :
    b.table ctx before (n :: rest) members =
      b.gift ctx before n >>= fun g => b.table ctx (n :: before) rest (g.into members) := by
  simp only [Body.table, Body.gifts, bind_assoc, pure_bind, List.foldl_cons]

theorem table_append (b : Body) (ctx : Context) (before nodes rest : List Node)
    (members : Table Decl) :
    b.table ctx before (nodes ++ rest) members =
      b.table ctx before nodes members >>= b.table ctx (nodes.reverse ++ before) rest := by
  induction nodes generalizing before members with
  | nil => rw [table_nil, pure_bind, List.nil_append, List.reverse_nil, List.nil_append]
  | cons n nodes ih =>
      rw [List.cons_append, table_cons, table_cons, bind_assoc]
      simp [ih]

theorem gift_of_isRemark (hn : n.isRemark = true) :
    b.gift ctx before n = pure .nothing := by
  have hcode := Node.not_code_of_isRemark hn
  rw [Body.gift]
  cases b with
  | object =>
      rw [Body.read, objectMembers, if_neg hcode]
      simp only [objectMembers_nil]
      rfl
  | classBody =>
      rw [Body.read, classMembers, if_neg hcode]
      simp only [classMembers_nil]
      rfl

theorem table_remarks {remarks : List Node} (h : ∀ c ∈ remarks, c.isRemark = true)
    (rest : List Node) (members : Table Decl) :
    b.table ctx before (remarks ++ rest) members =
      b.table ctx (remarks.reverse ++ before) rest members := by
  induction remarks generalizing before with
  | nil => rfl
  | cons c remarks ih =>
      obtain ⟨hc, hremarks⟩ := List.forall_mem_cons.1 h
      have hnone : Gift.into members .nothing = members := rfl
      rw [List.cons_append, table_cons, gift_of_isRemark hc, pure_bind, hnone, ih hremarks]
      simp

/-- The siblings before the second of two neighbours, each behind its own remarks. -/
def between (remarks : List Node) (n : Node) (sep others before : List Node) : List Node :=
  others.reverse ++ (sep.reverse ++ n :: (remarks.reverse ++ before))

/-- The table of a body that begins with two neighbours, each behind its own remarks. -/
theorem table_pair {remarks sep others : List Node} {n m : Node}
    (hremarks : ∀ c ∈ remarks, c.isRemark = true) (hsep : ∀ c ∈ sep, c.isSeparator = true)
    (hothers : ∀ c ∈ others, c.isRemark = true) (rest : List Node) (members : Table Decl) :
    b.table ctx before (remarks ++ n :: (sep ++ (others ++ m :: rest))) members =
      (b.gift ctx (remarks.reverse ++ before) n >>= fun g =>
        b.gift ctx (between remarks n sep others before) m >>= fun g' =>
          pure (g'.into (g.into members))) >>=
        b.table ctx (m :: between remarks n sep others before) rest := by
  rw [table_remarks hremarks, table_cons]
  simp only [table_remarks fun c hc => Node.isRemark_of_isSeparator (hsep c hc),
    table_remarks hothers, table_cons, bind_assoc, pure_bind]
  rfl

/-- A member and a setter of the same name may be added in either order. -/
theorem into_comm {g g' : Gift} (hname : g.name? = g'.name?) (hg : g.isSetter = false)
    (hg' : g'.isSetter = true ∨ g'.name? = none) (members : Table Decl) :
    g'.into (g.into members) = g.into (g'.into members) := by
  cases g' with
  | nothing => rfl
  | ctor fn => rfl
  | member name d =>
      obtain h | h := hg'
      · cases h
      · cases h
  | setter name d =>
      cases g with
      | nothing => cases hname
      | ctor fn => cases hname
      | setter own e => cases hg
      | member own e =>
          obtain rfl : own = name := Option.some.inj hname
          have hset : (members.set own e).has own = true :=
            Table.has_iff.2 (Table.mem_names_set.2 (.inl rfl))
          simp only [Gift.into, hset, if_true]
          split
          · rfl
          · rw [Table.set_set]

/-- One of the two nodes is a getter, the other one a setter, of the same name if any. -/
structure Body.Accessors (b : Body) (n m : Node) : Prop where
  pair : n.isGetter = true ∧ m.isSetter = true ∨ n.isSetter = true ∧ m.isGetter = true
  name : b.definedName? n = b.definedName? m

theorem Body.Accessors.kind {n m : Node} (h : b.Accessors n m) :
    n.kind = .methodDefinition ∧ m.kind = .methodDefinition := by
  obtain ⟨hn, hm⟩ | ⟨hn, hm⟩ := h.pair
  · exact ⟨Node.kind_of_isGetter hn, Node.kind_of_isSetter hm⟩
  · exact ⟨Node.kind_of_isSetter hn, Node.kind_of_isGetter hm⟩

/-- What two accessors of one name give may be added in either order. -/
theorem Body.Accessors.into_comm {n m : Node} (h : b.Accessors n m) {g g' : Gift}
    (hg : b.Describes n g) (hg' : b.Describes m g') (members : Table Decl) :
    g'.into (g.into members) = g.into (g'.into members) := by
  have hname : g.name? = g'.name? := hg.name.trans (h.name.trans hg'.name.symm)
  have hgetter {n : Node} {g : Gift} (hn : n.isGetter = true) (hg : b.Describes n g) :
      g.isSetter = false := by
    rw [hg.setter, Node.not_isSetter_of_isGetter hn, Bool.false_and]
  have hsetter {n : Node} {g : Gift} (hn : n.isSetter = true) (hg : b.Describes n g) :
      g.isSetter = true ∨ g.name? = none := by
    rw [hg.setter, hn, Bool.true_and, hg.name]
    cases b.definedName? n with
    | none => exact .inr rfl
    | some name => exact .inl rfl
  obtain ⟨hn, hm⟩ | ⟨hn, hm⟩ := h.pair
  · exact Build.into_comm hname (hgetter hn hg) (hsetter hm hg') members
  · exact (Build.into_comm hname.symm (hgetter hm hg') (hsetter hn hg) members).symm

/-! ### Neighbours that change places -/

/-- The comment of the first of two neighbours is one of its own remarks. -/
theorem documenting_first {remarks : List Node} (hremarks : ∀ c ∈ remarks, c.isRemark = true)
    (hbefore : Context.documenting before = none) :
    Context.documenting (remarks.reverse ++ before) = Context.documenting remarks.reverse := by
  rw [Context.documenting_append (fun c hc => hremarks c (List.mem_reverse.1 hc)), hbefore,
    Option.or_none]

/-- The comment of the second of two neighbours is one of its own remarks. -/
theorem documenting_between (remarks : List Node) {sep others : List Node}
    (hk : n.kind = .methodDefinition) (hsep : ∀ c ∈ sep, c.isSeparator = true)
    (hothers : ∀ c ∈ others, c.isRemark = true) (before : List Node) :
    Context.documenting (between remarks n sep others before) =
      Context.documenting others.reverse := by
  rw [between, Context.documenting_append (fun c hc => hothers c (List.mem_reverse.1 hc)),
    Context.documenting_separators (fun c hc => hsep c (List.mem_reverse.1 hc)),
    Context.documenting_cons_of_method hk, Option.or_none]

theorem lockstep_table (b : Body) (ctx : Context) (members : Table Decl)
    (hbefore : (Context.documenting before).map Node.text =
      (Context.documenting before').map Node.text)
    (hnodes : nodes.map Node.code = nodes'.map Node.code) :
    Lockstep (fun _ => True) (b.table ctx before nodes members)
      (b.table ctx before' nodes' members) :=
  .bind (lockstep_gifts b (.refl ctx) hbefore hnodes) fun _ =>
    .of_quiet (fun _ _ => rfl) (silent_pure _) (silent_pure _)

/-- A getter and a setter of one name change places, each with its remarks. -/
theorem lockstep_table_pair {remarks sep others : List Node} {n m : Node}
    (hbefore : Context.documenting before = none) (h : b.Accessors n m)
    (hremarks : ∀ c ∈ remarks, c.isRemark = true) (hsep : ∀ c ∈ sep, c.isSeparator = true)
    (hothers : ∀ c ∈ others, c.isRemark = true) (rest : List Node) (members : Table Decl) :
    Lockstep (fun _ => True)
      (b.table ctx before (remarks ++ n :: (sep ++ (others ++ m :: rest))) members)
      (b.table ctx before (others ++ m :: (sep ++ (remarks ++ n :: rest))) members) := by
  obtain ⟨hn, hm⟩ := h.kind
  rw [table_pair hremarks hsep hothers, table_pair hothers hsep hremarks]
  -- In either order each accessor has its own comment, and what follows has none of theirs.
  refine .bind (lockstep_swap (alike_gift b ctx hn ?_) (alike_gift b ctx hm ?_)
    ⟨silent_gift b ctx _ hn, silent_gift b ctx _ hn, silent_gift b ctx _ hm,
      silent_gift b ctx _ hm⟩ (gives_gift b ctx _ n) (gives_gift b ctx _ m)
    fun g g' hg hg' => h.into_comm hg hg' members) fun members => ?_
  · rw [documenting_first hremarks hbefore, documenting_between others hm hsep hremarks]
  · rw [documenting_between remarks hn hsep hothers, documenting_first hothers hbefore]
  · refine lockstep_table b ctx members ?_ rfl
    rw [Context.documenting_cons_of_method hm, Context.documenting_cons_of_method hn]

/-- The two bodies say the same, but for the order of two neighbours: a getter and a setter of one
name, each behind its own remarks. -/
inductive Body.Swapped (b : Body) : List Node → List Node → Prop
  | neighbours {front remarks sep others rest nodes' : List Node} {n m : Node}
      (hfront : Context.documenting front.reverse = none) (hpair : b.Accessors n m)
      (hremarks : ∀ c ∈ remarks, c.isRemark = true) (hsep : ∀ c ∈ sep, c.isSeparator = true)
      (hothers : ∀ c ∈ others, c.isRemark = true)
      (hcode : nodes'.map Node.code =
        (front ++ (others ++ m :: (sep ++ (remarks ++ n :: rest)))).map Node.code) :
      Swapped b (front ++ (remarks ++ n :: (sep ++ (others ++ m :: rest)))) nodes'

/-- Swapped neighbours leave the same table. -/
theorem Body.Swapped.toOption_table (h : b.Swapped nodes nodes') (ctx : Context) (s : BuildState) :
    (runFrom (b.table ctx [] nodes []) s).1.toOption =
      (runFrom (b.table ctx [] nodes' []) s).1.toOption := by
  have hself : Akin (fun _ => 0) s s := .of_progress rfl
  cases h with
  | @neighbours front remarks sep others rest _ n m hfront hpair hremarks hsep hothers hcode =>
      have hswap : Lockstep (fun _ => True)
          (b.table ctx [] (front ++ (remarks ++ n :: (sep ++ (others ++ m :: rest)))) [])
          (b.table ctx [] (front ++ (others ++ m :: (sep ++ (remarks ++ n :: rest)))) []) := by
        have hbefore : Context.documenting (front.reverse ++ []) = none := by
          rw [List.append_nil, hfront]
        rw [table_append, table_append]
        exact .bind (lockstep_table b ctx [] rfl rfl) fun members =>
          lockstep_table_pair hbefore hpair hremarks hsep hothers rest members
      have hmoved : Lockstep (fun _ => True) (b.table ctx [] nodes' [])
          (b.table ctx [] (front ++ (others ++ m :: (sep ++ (remarks ++ n :: rest)))) []) :=
        lockstep_table b ctx [] rfl hcode
      exact (hswap _ s s hself).1.trans (hmoved _ s s hself).1.symm

/-! ### The main theorem -/

/-- The step converts the nodes as the members of an object or of a class; the context is the one
inside it. -/
inductive Converts : Body → Context → List Node → Build Decl → Prop
  | object {ctx : Context} {n : Node} (hk : n.kind = .object) :
      Converts .object (ctx.enter n) n.children (value ctx n)
  | classBody {ctx : Context} {n body : Node} (hbody : n.child? .body = some body) :
      Converts .classBody ctx body.children (classValue ctx n)

/-- A conversion reads its documentation and the members, and makes a declaration of them. -/
theorem Converts.exists_eq {x : Build Decl} (h : Converts b ctx nodes x) :
    ∃ make : Doc.Comment → ClassParts → Decl,
      x = (do
        let doc ← documentation ctx
        let parts ← b.read ctx [] nodes {}
        return make doc parts) ∧
      ∀ doc parts, (make doc parts).members = parts.members ∧
        (b = .classBody → (make doc parts).ctor? = parts.ctor) := by
  cases h with
  | @object outer n hk =>
      refine ⟨fun doc parts => .object { description := doc.description } parts.members, ?_,
        fun doc parts => ⟨rfl, fun hb => by cases hb⟩⟩
      rw [value]
      simp only [hk, Body.read, bind_assoc, pure_bind]
  | @classBody _ n body hbody =>
      refine ⟨fun doc parts => .classDef { description := classDescription doc } parts.ctor
        parts.members (baseName? n), ?_, fun doc parts => ⟨rfl, fun _ => rfl⟩⟩
      rw [classValue]
      congr 1
      funext doc
      split
      · rename_i body' hbody'
        obtain rfl : body = body' := Option.some.inj (hbody.symm.trans hbody')
        rfl
      · rename_i hnone
        rw [hbody] at hnone
        cases hnone

theorem filterMap_name? {gs : List Gift} (h : List.Forall₂ b.Describes nodes gs) :
    gs.filterMap Gift.name? = nodes.filterMap b.definedName? := by
  induction h with
  | nil => rfl
  | cons hg _ ih => rw [List.filterMap_cons, List.filterMap_cons, hg.name, ih]

variable {x : Build Decl} {s s' mid : BuildState} {d : Decl} {doc : Doc.Comment} {gs : List Gift}

/-- What a finished conversion gives, from the gifts of its nodes. -/
theorem Converts.exists_gifts (h : Converts b ctx nodes x) (hrun : runFrom x s = (.ok d, s')) :
    ∃ doc mid gs, runFrom (documentation ctx) s = (.ok doc, mid) ∧
      runFrom (b.gifts ctx [] nodes) mid = (.ok gs, s') ∧ d.members = gs.foldl Gift.into [] ∧
      (b = .classBody → d.ctor? = (gs.filterMap Gift.ctor?).getLast?) := by
  obtain ⟨make, rfl, hmake⟩ := h.exists_eq
  obtain ⟨doc, mid, hdoc, hrest⟩ := runFrom_bind_ok hrun
  obtain ⟨parts, last, hread, hlast⟩ := runFrom_bind_ok hrest
  cases hlast
  rw [read_eq_gifts] at hread
  obtain ⟨gs, last, hgifts, hparts⟩ := runFrom_bind_ok hread
  cases hparts
  obtain ⟨hmembers, hctor⟩ := hmake doc (gs.foldl ClassParts.add {})
  rw [foldl_add] at hmembers hctor ⊢
  refine ⟨doc, mid, gs, hdoc, hgifts, hmembers, fun hb => ?_⟩
  rw [hctor hb, Option.or_none]

/-- A conversion succeeds when its nodes give what they give. -/
theorem Converts.exists_run (h : Converts b ctx nodes x)
    (hdoc : runFrom (documentation ctx) s = (.ok doc, mid))
    (hgifts : runFrom (b.gifts ctx [] nodes) mid = (.ok gs, s')) :
    ∃ d, runFrom x s = (.ok d, s') ∧ d.members = gs.foldl Gift.into [] := by
  obtain ⟨make, rfl, hmake⟩ := h.exists_eq
  have hread : runFrom (b.read ctx [] nodes {}) mid = (.ok (gs.foldl ClassParts.add {}), s') := by
    rw [read_eq_gifts, runFrom_bind_of_ok hgifts]
    rfl
  refine ⟨make doc (gs.foldl ClassParts.add {}), ?_, ?_⟩
  · rw [runFrom_bind_of_ok hdoc, runFrom_bind_of_ok hread]
    rfl
  · rw [(hmake doc _).1, foldl_add]

/-- Where neighbours are swapped, other gifts add up to the same members. -/
theorem Body.Swapped.exists_gifts (h : b.Swapped nodes nodes')
    (hgifts : runFrom (b.gifts ctx [] nodes) mid = (.ok gs, s')) :
    ∃ gs' t, runFrom (b.gifts ctx [] nodes') mid = (.ok gs', t) ∧
      gs'.foldl Gift.into [] = gs.foldl Gift.into [] := by
  have htable := h.toOption_table ctx mid
  rw [Body.table, Body.table, runFrom_bind_of_ok hgifts, runFrom_bind] at htable
  rcases hrun : runFrom (b.gifts ctx [] nodes') mid with ⟨_ | gs', t⟩
  · rw [hrun] at htable
    cases htable
  · rw [hrun] at htable
    exact ⟨gs', t, rfl, (Option.some.inj htable).symm⟩

/-- The members of an object or a class that is converted, from what its nodes give one by one.
There is one member for each name that a node defines, where it is defined first.  It is what the
last definition gives that is not a setter, and among setters alone the first; the constructor is
the last one.  A getter and a setter of one name change places, each with its own comments, and the
members stay as they are. -/
theorem last_definition_counts (b : Body) (ctx : Context) (nodes : List Node) (x : Build Decl)
    (hx : Converts b ctx nodes x) (s s' : BuildState) (d : Decl)
    (hrun : runFrom x s = (.ok d, s')) :
    (∃ doc mid gs, runFrom (documentation ctx) s = (.ok doc, mid) ∧
      runFrom (b.gifts ctx [] nodes) mid = (.ok gs, s') ∧ List.Forall₂ b.Describes nodes gs ∧
      d.members.names = (nodes.filterMap b.definedName?).eraseDups ∧
      (∀ name, d.members.get? name = (gs.filterMap (Gift.memberOf? name)).getLast?.or
        (gs.filterMap (Gift.setterOf? name)).head?) ∧
      (b = .classBody → d.ctor? = (gs.filterMap Gift.ctor?).getLast?)) ∧
    ∀ nodes' x', b.Swapped nodes nodes' → Converts b ctx nodes' x' →
      ∃ d' t, runFrom x' s = (.ok d', t) ∧ d'.members = d.members := by
  obtain ⟨doc, mid, gs, hdoc, hgifts, hmembers, hctor⟩ := hx.exists_gifts hrun
  have hdescribes := gives_gifts b ctx [] nodes mid gs s' hgifts
  refine ⟨⟨doc, mid, gs, hdoc, hgifts, hdescribes, ?_, ?_, hctor⟩, ?_⟩
  · rw [hmembers, names_foldl_into, filterMap_name? hdescribes]
  · intro name
    rw [hmembers, get?_foldl_into]
  · intro nodes' x' hswapped hx'
    obtain ⟨gs', t, hgifts', hequal⟩ := hswapped.exists_gifts hgifts
    obtain ⟨d', hrun', hmembers'⟩ := hx'.exists_run hdoc hgifts'
    exact ⟨d', t, hrun', by rw [hmembers', hequal, hmembers]⟩

/-! ### A getter behind a setter -/

/-- `word name(parameters) { }` -/
def accessorOf (word name : String) (parameters : List Node) : Node :=
  ⟨.methodDefinition, none, "", 1, 0,
    [leaf (.token word) word, (leaf .propertyIdentifier name).as .name,
      ⟨.formalParameters, some .parameters, "", 1, 0, parameters⟩,
      (leaf .statementBlock "").as .body]⟩

/-- An object of the given members. -/
def objectOfNodes (nodes : List Node) : Node :=
  ⟨.object, none, "", 1, 0, nodes⟩

theorem runFrom_gift_get (name : String) {before : List Node}
    (hbefore : Context.documenting before = none) (ctx : Context) (s : BuildState) :
    runFrom (Body.object.gift ctx before (accessorOf "get" name [])) s =
      (.ok (.member name (.binding {} [TypeRef.plain "void"] "var")), s) := by
  rw [Body.gift, Body.read, objectMembers]
  simp only [objectMembers_nil, Context.behind, hbefore]
  rfl

theorem runFrom_gift_set (name : String) {before : List Node}
    (hbefore : Context.documenting before = none) (ctx : Context) (s : BuildState) :
    runFrom (Body.object.gift ctx before (accessorOf "set" name [leaf .identifier "v"])) s =
      (.ok (.setter name (.binding { diagnostics := [untypedParameter "v"] } [TypeRef.any] "var")),
        s) := by
  have hcallable (c : Context) :
      runFrom (callableOf c {} (accessorOf "set" name [leaf .identifier "v"])) s =
        (.ok { header := { diagnostics := [untypedParameter "v"] },
               params := [{ name := "v", types := [TypeRef.any] }],
               result := [TypeRef.plain "void"] }, s) := by
    have hparameter : sourceParameter c (leaf .identifier "v") = pure { name := "v" } := by
      rw [sourceParameter]
      rfl
    have hparameters : runFrom (parametersFrom c {} 0 [leaf .identifier "v"]) s =
        (.ok ([{ name := "v", types := [TypeRef.any] }], [untypedParameter "v"]), s) := by
      rw [parametersFrom, hparameter]
      rfl
    exact runFrom_bind_of_ok hparameters _
  have hmethod (c : Context) (hc : c.comment = none) :
      runFrom (addMethod c [] (accessorOf "set" name [leaf .identifier "v"])) s =
        (.ok [(name, .binding { diagnostics := [untypedParameter "v"] } [TypeRef.any] "var")], s) := by
    obtain ⟨resolver, trail, comment⟩ := c
    cases hc
    exact runFrom_bind_of_ok (hcallable _) _
  have hread : runFrom (Body.object.read ctx before
      [accessorOf "set" name [leaf .identifier "v"]] {}) s = (.ok
        { members := [(name, .binding { diagnostics := [untypedParameter "v"] } [TypeRef.any]
          "var")] }, s) := by
    rw [Body.read, objectMembers]
    simp only [objectMembers_nil]
    exact runFrom_bind_of_ok (runFrom_bind_of_ok (hmethod ((ctx.behind before).enter _) hbefore) _) _
  exact runFrom_bind_of_ok hread _

/-- A setter of `x` and a getter behind it: `x` is the one member, it is what the getter gives, and
so it is with the getter in front. -/
theorem last_definition_counts_accessors :
    let get := accessorOf "get" "x" []
    let set := accessorOf "set" "x" [leaf .identifier "v"]
    let comma := leaf (.token ",") ","
    ∃ d d' s' t,
      runFrom (value {} (objectOfNodes [set, comma, get])) (start "m") = (.ok d, s') ∧
      d.members.names = ["x"] ∧
      d.members.get? "x" = some (.binding {} [TypeRef.plain "void"] "var") ∧
      runFrom (value {} (objectOfNodes [get, comma, set])) (start "m") = (.ok d', t) ∧
      d'.members = d.members := by
  intro get set comma
  have hgifts : runFrom (Body.object.gifts (({} : Context).enter (objectOfNodes [set, comma, get]))
      [] [set, comma, get]) (start "m") = (.ok [
        .setter "x" (.binding { diagnostics := [untypedParameter "v"] } [TypeRef.any] "var"),
        .nothing, .member "x" (.binding {} [TypeRef.plain "void"] "var")], start "m") := by
    rw [Body.gifts, runFrom_bind_of_ok (runFrom_gift_set "x" rfl _ _), Body.gifts,
      gift_of_isRemark rfl, pure_bind, Body.gifts]
    simp only [bind_assoc]
    exact runFrom_bind_of_ok (runFrom_gift_get "x" rfl _ _) _
  obtain ⟨d, hrun, hmembers⟩ := Converts.exists_run (.object rfl) rfl hgifts
  obtain ⟨⟨_, _, _, -, -, -, hnames, -, -⟩, hswap⟩ :=
    last_definition_counts .object _ _ _ (.object rfl) (start "m") (start "m") d hrun
  have hswapped : Body.object.Swapped ([] ++ ([] ++ set :: ([comma] ++ ([] ++ get :: []))))
      [get, comma, set] :=
    .neighbours rfl ⟨.inr ⟨rfl, rfl⟩, rfl⟩ (List.forall_mem_nil _)
      (List.forall_mem_singleton.2 rfl) (List.forall_mem_nil _) rfl
  have hother : Converts .object (({} : Context).enter (objectOfNodes [get, comma, set]))
      [get, comma, set] (value {} (objectOfNodes [get, comma, set])) := .object rfl
  obtain ⟨d', t, hrun', hsame⟩ := hswap [get, comma, set] _ hswapped hother
  exact ⟨d, d', _, t, hrun, hnames, by rw [hmembers]; rfl, hrun', hsame⟩

end Build

end Ambient
