import Ambient.Proofs.Build.Act

/-!
# Assignments of a source tree

Which dotted path a node spells, and which paths a node assigns outside the bodies of functions.
Reading a path is the same as spelling it: `chain` succeeds exactly on the nodes that spell a path,
gives that path, and changes nothing.
-/

namespace Ambient

namespace Node

/-- The node spells a dotted path. -/
inductive Spells : Node → String → Prop
  | name {n : Node} (h : n.kind = .identifier ∨ n.kind = .propertyIdentifier ∨
      n.kind = .thisValue) : Spells n n.text
  | member {n receiver property : Node} {owner member : String} (h : n.kind = .memberExpression)
      (hreceiver : n.child? .receiver = some receiver) (hproperty : n.child? .property = some property)
      (howner : Spells receiver owner) (hmember : Spells property member) :
      Spells n (owner ++ "." ++ member)

/-- A function of any form. -/
def isFunction (n : Node) : Bool :=
  [.functionExpression, .functionDeclaration, .generatorFunction, .generatorFunctionDeclaration,
   .arrowFunction, .methodDefinition].contains n.kind

/-- The second node stands in the first, or is it, outside the functions in it.  The members of a
class are met through its body, whatever kind of node that is. -/
inductive Contains : Node → Node → Prop
  | self (n : Node) : Contains n n
  | child {n c e : Node} (hn : n.isFunction = false) (hc : c ∈ n.children) (h : Contains c e) :
      Contains n e
  | member {n body c e : Node} (hn : n.isFunction = false) (hbody : n.child? .body = some body)
      (hc : c ∈ body.children) (h : Contains c e) : Contains n e

/-- The node is an assignment to the path. -/
def AssignsTo (n : Node) (path : String) : Prop :=
  n.kind = .assignmentExpression ∧ ∃ left, n.child? .left = some left ∧ left.Spells path

/-- An assignment to the path stands in the node, outside the functions in it. -/
def Assigns (n : Node) (path : String) : Prop :=
  ∃ e, n.Contains e ∧ e.AssignsTo path

theorem Contains.trans {n c e : Node} (h : n.Contains c) (h' : c.Contains e) : n.Contains e := by
  induction h with
  | self n => exact h'
  | child hn hc _ ih => exact .child hn hc (ih h')
  | member hn hbody hc _ ih => exact .member hn hbody hc (ih h')

theorem Assigns.of_contains {n c : Node} {path : String} (hc : c.Assigns path)
    (h : n.Contains c) : n.Assigns path := by
  obtain ⟨e, he, hpath⟩ := hc
  exact ⟨e, h.trans he, hpath⟩

theorem not_assigns_of_children {n : Node} {path : String} (hbody : n.child? .body = none)
    (hn : ¬ n.AssignsTo path) (h : ∀ c ∈ n.children, ¬ c.Assigns path) : ¬ n.Assigns path := by
  rintro ⟨e, he, hpath⟩
  cases he with
  | self => exact hn hpath
  | child _ hc he => exact h _ hc ⟨e, he, hpath⟩
  | member _ hbody' _ _ =>
      rw [hbody] at hbody'
      cases hbody'

theorem isFunction_eq_false {n : Node} {k : Kind} (h : n.kind = k)
    (hk : [.functionExpression, .functionDeclaration, .generatorFunction,
      .generatorFunctionDeclaration, .arrowFunction, .methodDefinition].contains k = false) :
    n.isFunction = false := by
  rw [isFunction, h, hk]

end Node

namespace Build

/-- Spelling a path reads it and changes nothing. -/
theorem runFrom_chain_of_spells {n : Node} {path : String} (h : n.Spells path) (ctx : Context)
    (s : BuildState) : runFrom (chain ctx n) s = (.ok path, s) := by
  induction h generalizing ctx s with
  | @name n h =>
      rw [chain]
      rcases h with h | h | h <;> simp [h]
  | @member n receiver property owner member h hreceiver hproperty _ _ ihowner ihmember =>
      rw [chain]
      simp only [h]
      split
      · rename_i r p hr hp
        obtain rfl : receiver = r := Option.some.inj (hreceiver.symm.trans hr)
        obtain rfl : property = p := Option.some.inj (hproperty.symm.trans hp)
        rw [runFrom_bind_of_ok (ihowner _ s), runFrom_bind_of_ok (ihmember _ s)]
        rfl
      · rename_i hnone
        exact (hnone receiver property hreceiver hproperty).elim

/-- A run of `chain` reads the path that the node spells, or ends with a notice. -/
theorem chain_cases (ctx : Context) (n : Node) (s : BuildState) :
    (∃ path, n.Spells path ∧ runFrom (chain ctx n) s = (.ok path, s)) ∨
      ∃ f notices, runFrom (chain ctx n) s = (.error f, s.after (.notice notices)) := by
  rw [chain]
  dsimp only
  split
  · rename_i h
    exact .inl ⟨n.text, .name (.inl h), rfl⟩
  · rename_i h
    exact .inl ⟨n.text, .name (.inr (.inl h)), rfl⟩
  · rename_i h
    exact .inl ⟨n.text, .name (.inr (.inr h)), rfl⟩
  · rename_i h
    split
    · rename_i receiver property hreceiver hproperty
      have hlt := Node.sizeOf_lt_of_mem_children (Node.mem_children_of_child? hreceiver)
      have hlt' := Node.sizeOf_lt_of_mem_children (Node.mem_children_of_child? hproperty)
      rcases chain_cases (ctx.enter n) receiver s with ⟨owner, howner, hrun⟩ | ⟨f, l, hrun⟩
      · rcases chain_cases (ctx.enter n) property s with ⟨member, hmember, hrun'⟩ | ⟨f, l, hrun'⟩
        · refine .inl ⟨_, .member h hreceiver hproperty howner hmember, ?_⟩
          rw [runFrom_bind_of_ok hrun, runFrom_bind_of_ok hrun']
          rfl
        · refine .inr ⟨f, l, ?_⟩
          rw [runFrom_bind_of_ok hrun, runFrom_bind, hrun']
      · refine .inr ⟨f, l, ?_⟩
        rw [runFrom_bind, hrun]
    · exact .inr ⟨_, _, rfl⟩
  · exact .inr ⟨_, _, rfl⟩
termination_by sizeOf n

/-- The path that a step reads is one that the node spells. -/
theorem gives_chain (ctx : Context) (n : Node) : Gives n.Spells (chain ctx n) := by
  intro s path s' hrun
  rcases chain_cases ctx n s with ⟨other, hother, hrun'⟩ | ⟨f, notices, hrun'⟩
  · rw [hrun'] at hrun
    cases hrun
    exact hother
  · rw [hrun'] at hrun
    cases hrun

theorem spells_unique {n : Node} {path other : String} (h : n.Spells path) (h' : n.Spells other) :
    path = other := by
  have hrun := runFrom_chain_of_spells h {} { module := { name := "" } }
  rw [runFrom_chain_of_spells h'] at hrun
  exact (Except.ok.inj (congrArg Prod.fst hrun)).symm

/-! ### Assignments -/

theorem assign_eq {n left right : Node} (ctx : Context) (hleft : n.child? .left = some left)
    (hright : n.child? .right = some right) :
    assign ctx n =
      chain ctx left >>= fun path => assignTo path n.line right (value ctx right) := by
  rw [assign]
  split
  · rename_i l r hl hr
    obtain rfl : left = l := Option.some.inj (hleft.symm.trans hl)
    obtain rfl : right = r := Option.some.inj (hright.symm.trans hr)
    rfl
  · rename_i hnone
    exact (hnone left right hleft hright).elim

theorem assign_eq_unhandled {n : Node} (ctx : Context)
    (h : n.child? .left = none ∨ n.child? .right = none) : assign ctx n = unhandled ctx n := by
  rw [assign]
  split
  · rename_i hl hr
    rw [hl, hr] at h
    simp at h
  · rfl

theorem value_assignment_eq {n right : Node} (ctx : Context)
    (hk : n.kind = .assignmentExpression) (hright : n.child? .right = some right) :
    value ctx n = assign (ctx.enter n) n >>= fun _ => value (ctx.enter n) right := by
  rw [value]
  simp only [hk]
  congr 1
  funext _
  split
  · rename_i r hr
    obtain rfl : right = r := Option.some.inj (hright.symm.trans hr)
    rfl
  · rename_i hnone
    rw [hright] at hnone
    cases hnone

/-! ### Exported members -/

theorem cutLast?_append_cons {p : Char → Bool} (before : List Char) {c : Char} (behind : List Char)
    (hc : p c = true) (hbehind : ∀ x ∈ behind, p x = false) :
    Text.cutLast? p (before ++ c :: behind) = some (before, behind) := by
  have hnone : Text.cutLast? p behind = none := by
    induction behind with
    | nil => rfl
    | cons x behind ih =>
        rw [Text.cutLast?, ih fun y hy => hbehind y (List.mem_cons_of_mem _ hy)]
        simp [hbehind x (List.mem_cons_self ..)]
  induction before with
  | nil => simp [Text.cutLast?, hnone, hc]
  | cons x before ih => simp [Text.cutLast?, ih]

theorem splitLast?_member (owner : String) {name : String} (hname : '.' ∉ name.toList) :
    Text.splitLast? '.' (owner ++ "." ++ name) = some (owner, name) := by
  have hlist : (owner ++ "." ++ name).toList = owner.toList ++ '.' :: name.toList := by
    simp
  have hdots : ∀ x ∈ name.toList, (x == '.') = false := by
    intro x hx
    rw [beq_eq_false_iff_ne]
    rintro rfl
    exact hname hx
  rw [Text.splitLast?, hlist, cutLast?_append_cons owner.toList name.toList rfl hdots]
  simp

/-- An assignment to a member of either export object exports that member. -/
theorem ofPath_member {owner name : String} (howner : owner = "exports" ∨ owner = "module.exports")
    (hname : '.' ∉ name.toList) : Target.ofPath (owner ++ "." ++ name) = .exported name := by
  have hne : owner ++ "." ++ name ≠ "module.exports" := by
    intro h
    have hsplit := splitLast?_member owner hname
    have hwhole := splitLast?_member "module" (show '.' ∉ "exports".toList by decide)
    have howner' : owner = "module" := by
      rw [h] at hsplit
      exact congrArg Prod.fst (Option.some.inj (hsplit.symm.trans hwhole))
    rw [howner'] at howner
    revert howner
    decide
  simp only [Target.ofPath, splitLast?_member owner hname, Option.getD_some, if_neg hne]
  rcases howner with rfl | rfl
  · simp
  · simp

/-! ### Small trees -/

/-- A node without children. -/
def leaf (kind : Kind) (text : String) : Node :=
  ⟨kind, none, text, 1, 0, []⟩

/-- A member of something. -/
def memberOf (receiver property : Node) : Node :=
  ⟨.memberExpression, none, receiver.text ++ "." ++ property.text, 1, 0,
    [receiver.as .receiver, property.as .property]⟩

/-- An assignment. -/
def assignment (left right : Node) : Node :=
  ⟨.assignmentExpression, none, left.text ++ " = " ++ right.text, 1, 0,
    [left.as .left, right.as .right]⟩

/-- A statement that consists of an expression. -/
def statementOf (e : Node) : Node :=
  ⟨.expressionStatement, none, e.text ++ ";", 1, 0, [e]⟩

theorem spells_memberOf {receiver property : Node} {owner member : String} (r : Role)
    (howner : (receiver.as .receiver).Spells owner) (hmember : (property.as .property).Spells member) :
    ((memberOf receiver property).as r).Spells (owner ++ "." ++ member) :=
  .member rfl rfl rfl howner hmember

theorem spells_exports (name : String) (r : Role) :
    ((memberOf (leaf .identifier "exports") (leaf .propertyIdentifier name)).as r).Spells
      ("exports" ++ "." ++ name) :=
  spells_memberOf r (.name (.inl rfl)) (.name (.inr (.inl rfl)))

/-- `exports.name = value;` -/
def exportOf (name : String) (v : Node) : Node :=
  statementOf (assignment (memberOf (leaf .identifier "exports") (leaf .propertyIdentifier name)) v)

/-- `name = value`, in a declaration. -/
def declaratorOf (name : String) (v : Node) : Node :=
  ⟨.variableDeclarator, none, name ++ " = " ++ v.text, 1, 0,
    [(leaf .identifier name).as .name, v.as .value]⟩

/-- `var name = value;` -/
def declarationOf (name : String) (v : Node) : Node :=
  ⟨.variableDeclaration, none, "var " ++ name ++ " = " ++ v.text ++ ";", 1, 0,
    [leaf (.token "var") "var", declaratorOf name v]⟩

/-- A source of the given statements. -/
def sourceOf (sts : List Node) : Node :=
  ⟨.program, none, "", 1, 0, sts⟩

theorem not_assigns_leaf {kind : Kind} (hk : kind ≠ .assignmentExpression) (text : String)
    (r : Role) (path : String) : ¬ ((leaf kind text).as r).Assigns path :=
  Node.not_assigns_of_children rfl (fun h => hk h.1) (List.forall_mem_nil _)

theorem not_assigns_keyword (text path : String) : ¬ (leaf (.token text) text).Assigns path :=
  Node.not_assigns_of_children rfl (fun h => by cases h.1) (List.forall_mem_nil _)

theorem not_assigns_declarationOf_of_value (name : String) {v : Node} {path : String}
    (hv : ¬ (v.as .value).Assigns path) : ¬ (declarationOf name v).Assigns path := by
  have hdeclarator : ¬ (declaratorOf name v).Assigns path :=
    Node.not_assigns_of_children rfl (fun h => by cases h.1)
      (List.forall_mem_cons.2 ⟨not_assigns_leaf (by decide) name .name path,
        List.forall_mem_singleton.2 hv⟩)
  exact Node.not_assigns_of_children rfl (fun h => by cases h.1)
    (List.forall_mem_cons.2 ⟨not_assigns_keyword "var" path,
      List.forall_mem_singleton.2 hdeclarator⟩)

theorem not_assigns_declarationOf (name text path : String) :
    ¬ (declarationOf name (leaf .number text)).Assigns path :=
  not_assigns_declarationOf_of_value name (not_assigns_leaf (by decide) text .value path)

theorem not_assigns_exportAssignment {name path : String} (hpath : path ≠ "exports" ++ "." ++ name)
    (text : String) (r : Option Role) :
    ¬ ({ assignment (memberOf (leaf .identifier "exports") (leaf .propertyIdentifier name))
      (leaf .number text) with role := r } : Node).Assigns path := by
  have hleft : ¬ ((memberOf (leaf .identifier "exports")
      (leaf .propertyIdentifier name)).as .left).Assigns path :=
    Node.not_assigns_of_children rfl (fun h => by cases h.1)
      (List.forall_mem_cons.2 ⟨not_assigns_leaf (by decide) "exports" .receiver path,
        List.forall_mem_singleton.2 (not_assigns_leaf (by decide) name .property path)⟩)
  refine Node.not_assigns_of_children rfl ?_ (List.forall_mem_cons.2 ⟨hleft,
    List.forall_mem_singleton.2 (not_assigns_leaf (by decide) text .right path)⟩)
  rintro ⟨-, left, heq, hspells⟩
  cases heq
  exact hpath (spells_unique hspells (spells_exports name .left))

theorem not_assigns_exportOf {name path : String} (hpath : path ≠ "exports" ++ "." ++ name)
    (text : String) : ¬ (exportOf name (leaf .number text)).Assigns path :=
  Node.not_assigns_of_children rfl (fun h => by cases h.1)
    (List.forall_mem_singleton.2 (not_assigns_exportAssignment hpath text none))

end Build

end Ambient
