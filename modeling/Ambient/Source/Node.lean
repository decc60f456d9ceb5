import Ambient.Source.Kind

/-!
# Source trees

A node knows its kind, the role it plays in its parent, the text it covers, where it starts, and
its children in source order.  Comments are nodes like any other and stand where they were written,
so the documentation of a construct is found among the nodes before it.
-/

namespace Ambient

/-- A node of a source tree. -/
structure Node where
  kind : Kind
  role : Option Role
  text : String
  line : Nat
  start : Nat
  children : List Node
  deriving Inhabited

namespace Node

/-- A construct, not a mere token. -/
def isNamed (n : Node) : Bool :=
  n.kind.isNamed

/-- A comment in either style. -/
def isComment (n : Node) : Bool :=
  n.kind == .comment

/-- The constructs among the children. -/
def namedChildren (n : Node) : List Node :=
  n.children.filter (·.isNamed)

/-- The constructs among the children, comments aside. -/
def codeChildren (n : Node) : List Node :=
  n.children.filter fun c => c.isNamed && !c.isComment

/-- The child that plays a role. -/
def child? (n : Node) (r : Role) : Option Node :=
  n.children.find? (·.role == some r)

/-- The first child of a kind. -/
def childOfKind? (n : Node) (k : Kind) : Option Node :=
  n.children.find? (·.kind == k)

/-- The node in another role. -/
def as (n : Node) (r : Role) : Node :=
  { n with role := some r }

/-- The node as another kind. -/
def recast (n : Node) (k : Kind) : Node :=
  { n with kind := k }

/-- The text between the quotes of a string. -/
def unquoted (n : Node) : String :=
  String.ofList (n.text.toList.drop 1).dropLast

theorem sizeOf_lt_of_mem_children {n c : Node} (h : c ∈ n.children) : sizeOf c < sizeOf n := by
  cases n with
  | mk kind role text line start children =>
    have := List.sizeOf_lt_of_mem h
    simp only [Node.mk.sizeOf_spec]
    simp only at this
    omega

theorem sizeOf_children_lt (n : Node) : sizeOf n.children < sizeOf n := by
  cases n with
  | mk kind role text line start children =>
    simp only [Node.mk.sizeOf_spec]
    omega

theorem mem_children_of_child? {n c : Node} {r : Role} (h : n.child? r = some c) :
    c ∈ n.children :=
  List.mem_of_find?_eq_some h

theorem mem_children_of_codeChildren {n c : Node} (h : c ∈ n.codeChildren) : c ∈ n.children :=
  (List.mem_filter.1 h).1

/-! ### Equality -/

mutual

/-- Nodes are compared part by part, down to the leaves. -/
def decideEq : (n n' : Node) → Decidable (n = n')
  | ⟨k, r, t, l, s, cs⟩, ⟨k', r', t', l', s', cs'⟩ =>
    have := decideEqAll cs cs'
    decidable_of_iff (k = k' ∧ r = r' ∧ t = t' ∧ l = l' ∧ s = s' ∧ cs = cs')
      (by rw [Node.mk.injEq])

/-- Lists of nodes are compared node by node. -/
def decideEqAll : (ns ns' : List Node) → Decidable (ns = ns')
  | [], [] => isTrue rfl
  | n :: ns, n' :: ns' =>
    have := decideEq n n'
    have := decideEqAll ns ns'
    decidable_of_iff (n = n' ∧ ns = ns') (by rw [List.cons.injEq])
  | [], _ :: _ => isFalse nofun
  | _ :: _, [] => isFalse nofun

end

instance : DecidableEq Node :=
  decideEq

end Node

end Ambient
