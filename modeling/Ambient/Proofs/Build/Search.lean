import Ambient.Proofs.Build.Return
import Mathlib.Logic.Relation

/-!
# Searches for a return

A search through a body keeps the constructs that it has still to look at and takes any of them
next.  What it looks at is the return that it is after, or leads it to further constructs, or is done
with: a function, a class and a return lead nowhere.  Every search ends, whichever construct it takes each
time, and its answer is that of the function that gives a value; so it makes no difference that the
constructs are kept on a stack.
-/

namespace Ambient

namespace Node

/-! ### Returns that are reached -/

/-- A return with a value. -/
def isValueReturn (n : Node) : Bool :=
  n.kind == .returnStatement && !n.codeChildren.isEmpty

/-- The constructs that a search goes on with behind a node. -/
def leadsTo (n : Node) : List Node :=
  if opensScope n.kind || n.kind == .returnStatement then [] else n.namedChildren

/-- A construct that is reached from a body through constructs, the way down passing neither through
a function or a class nor through a return. -/
inductive Reaches (body : Node) : Node → Prop where
  | child {c : Node} (hc : c ∈ body.namedChildren) : Reaches body c
  | deeper {n c : Node} (h : Reaches body n) (hscope : opensScope n.kind = false)
      (hk : n.kind ≠ .returnStatement) (hc : c ∈ n.namedChildren) : Reaches body c

theorem isValueReturn_iff {n : Node} :
    n.isValueReturn = true ↔ n.kind = .returnStatement ∧ ∃ c, c ∈ n.codeChildren := by
  rw [isValueReturn, Bool.and_eq_true, beq_iff_eq, Bool.not_eq_true',
    List.isEmpty_eq_false_iff_exists_mem]

theorem mem_leadsTo {n c : Node} :
    c ∈ n.leadsTo ↔ opensScope n.kind = false ∧ n.kind ≠ .returnStatement ∧
      c ∈ n.namedChildren := by
  rw [leadsTo]
  split
  · rename_i hstop
    simp only [Bool.or_eq_true, beq_iff_eq] at hstop
    refine ⟨by nofun, fun ⟨hscope, hk, _⟩ => ?_⟩
    rcases hstop with hstop | hstop
    · rw [hstop] at hscope
      cases hscope
    · exact (hk hstop).elim
  · rename_i hgo
    simp only [Bool.or_eq_true, beq_iff_eq, not_or, Bool.not_eq_true] at hgo
    exact ⟨fun hc => ⟨hgo.1, hgo.2, hc⟩, fun h => h.2.2⟩

theorem returns_iff {n : Node} :
    n.Returns ↔ n.isValueReturn = true ∨ ∃ c ∈ n.leadsTo, c.Returns := by
  constructor
  · rintro (⟨hk, hc⟩ | ⟨hk, hscope, hc, h⟩)
    · exact .inl (isValueReturn_iff.2 ⟨hk, _, hc⟩)
    · exact .inr ⟨_, mem_leadsTo.2 ⟨hscope, hk, hc⟩, h⟩
  · rintro (h | ⟨c, hc, h⟩)
    · obtain ⟨hk, c, hc⟩ := isValueReturn_iff.1 h
      exact .here hk hc
    · obtain ⟨hscope, hk, hmem⟩ := mem_leadsTo.1 hc
      exact .inside hk hscope hmem h

theorem Returns.reached {n body : Node} (h : n.Returns) (hn : body.Reaches n) :
    ∃ r, body.Reaches r ∧ r.isValueReturn = true := by
  induction h with
  | here hk hc => exact ⟨_, hn, isValueReturn_iff.2 ⟨hk, _, hc⟩⟩
  | inside hk hscope hc _ ih => exact ih (.deeper hn hscope hk hc)

theorem Reaches.returns {n body : Node} (hn : body.Reaches n) (h : n.Returns) :
    ∃ c ∈ body.namedChildren, c.Returns := by
  induction hn with
  | child hc => exact ⟨_, hc, h⟩
  | deeper _ hscope hk hc ih => exact ih (.inside hk hscope hc h)

/-- A return with a value stands among the constructs of the body exactly when one is reached. -/
theorem exists_returns_iff (body : Node) :
    (∃ c ∈ body.namedChildren, c.Returns) ↔ ∃ r, body.Reaches r ∧ r.isValueReturn = true := by
  constructor
  · rintro ⟨c, hc, h⟩
    exact h.reached (.child hc)
  · rintro ⟨r, hr, hreturn⟩
    exact hr.returns (returns_iff.2 (.inl hreturn))

/-! ### Weights -/

/-- The size of all nodes of a list together. -/
noncomputable def weight : List Node → Nat
  | [] => 0
  | n :: ns => sizeOf n + weight ns

theorem weight_append (ns ms : List Node) : weight (ns ++ ms) = weight ns + weight ms := by
  induction ns with
  | nil => exact (Nat.zero_add _).symm
  | cons n ns ih => rw [List.cons_append, weight, weight, ih, Nat.add_assoc]

theorem weight_perm {ns ms : List Node} (h : ns.Perm ms) : weight ns = weight ms := by
  induction h with
  | nil => rfl
  | cons n _ ih => rw [weight, weight, ih]
  | swap n m ns => rw [weight, weight, weight, weight, Nat.add_left_comm]
  | trans _ _ ih ih' => exact ih.trans ih'

theorem weight_filter_le (p : Node → Bool) (ns : List Node) :
    weight (ns.filter p) ≤ weight ns := by
  induction ns with
  | nil => exact Nat.le_refl _
  | cons n ns ih =>
      rw [List.filter_cons]
      split
      · exact Nat.add_le_add_left ih _
      · exact Nat.le_trans ih (Nat.le_add_left ..)

theorem weight_lt_sizeOf (ns : List Node) : weight ns < sizeOf ns := by
  induction ns with
  | nil => exact Nat.zero_lt_one
  | cons n ns ih =>
      rw [weight, List.cons.sizeOf_spec]
      omega

theorem weight_leadsTo_lt (n : Node) : weight n.leadsTo < sizeOf n := by
  have hchildren : weight n.namedChildren < sizeOf n :=
    calc weight n.namedChildren
      _ ≤ weight n.children := weight_filter_le _ _
      _ < sizeOf n.children := weight_lt_sizeOf _
      _ < sizeOf n := n.sizeOf_children_lt
  rw [leadsTo]
  split
  · exact Nat.zero_lt_of_lt hchildren
  · exact hchildren

end Node

/-! ### Searches -/

/-- A search under way, with the constructs that are still to be looked at, or its answer. -/
inductive Search where
  | pending (ns : List Node)
  | answer (found : Bool)

namespace Search

/-- One step of a search, which takes any of the pending constructs. -/
inductive Step : Search → Search → Prop where
  | empty : Step (pending []) (answer false)
  | hit {ns rest : List Node} {n : Node} (htake : ns.Perm (n :: rest))
      (hn : n.isValueReturn = true) : Step (pending ns) (answer true)
  | look {ns rest : List Node} {n : Node} (htake : ns.Perm (n :: rest))
      (hn : n.isValueReturn = false) : Step (pending ns) (pending (rest ++ n.leadsTo))

/-- Several steps of a search. -/
def Run : Search → Search → Prop :=
  Relation.ReflTransGen Step

/-- The return that is searched for is there. -/
def Finds : Search → Prop
  | pending ns => ∃ n ∈ ns, n.Returns
  | answer found => found = true

/-- What is still to be done. -/
noncomputable def toDo : Search → Nat
  | pending ns => Node.weight ns + 1
  | answer _ => 0

theorem toDo_lt_of_step {s t : Search} (h : s.Step t) : t.toDo < s.toDo := by
  cases h with
  | empty => exact Nat.succ_pos _
  | hit _ _ => exact Nat.succ_pos _
  | @look ns rest n htake hn =>
      have hlt := n.weight_leadsTo_lt
      have htaken : Node.weight ns = sizeOf n + Node.weight rest := Node.weight_perm htake
      rw [toDo, toDo, Node.weight_append, htaken]
      omega

/-- Every search ends. -/
theorem wellFounded_step : WellFounded fun t s : Search => s.Step t :=
  Subrelation.wf toDo_lt_of_step (measure toDo).wf

/-- A search goes on until it has an answer. -/
theorem exists_step (ns : List Node) : ∃ t, (pending ns).Step t := by
  cases ns with
  | nil => exact ⟨_, .empty⟩
  | cons n rest =>
      cases hn : n.isValueReturn with
      | true => exact ⟨_, .hit (.refl _) hn⟩
      | false => exact ⟨_, .look (.refl _) hn⟩

/-- What is searched for is neither lost nor made up by a step. -/
theorem finds_iff_of_step {s t : Search} (h : s.Step t) : s.Finds ↔ t.Finds := by
  cases h with
  | empty => simp [Finds]
  | @hit ns rest n htake hn =>
      have hmem : n ∈ ns := htake.mem_iff.2 (List.mem_cons_self ..)
      exact ⟨fun _ => rfl, fun _ => ⟨n, hmem, Node.returns_iff.2 (.inl hn)⟩⟩
  | @look ns rest n htake hn =>
      have hlook : n.Returns ↔ ∃ c ∈ n.leadsTo, c.Returns := by
        rw [Node.returns_iff, hn]
        simp
      simp only [Finds, htake.mem_iff, List.mem_cons, List.mem_append, or_and_right, exists_or,
        exists_eq_left, hlook]
      exact or_comm

theorem finds_iff_of_run {s t : Search} (h : s.Run t) : s.Finds ↔ t.Finds := by
  induction h with
  | refl => exact Iff.rfl
  | tail _ hstep ih => exact ih.trans (finds_iff_of_step hstep)

/-! ### The stack -/

/-- The search that takes the construct on top of a stack, which comes first in the list, and puts
the constructs behind it on the stack in their order. -/
def onStack : List Node → Bool
  | [] => false
  | n :: rest => if n.isValueReturn then true else onStack (n.leadsTo.reverse ++ rest)
termination_by ns => Node.weight ns
decreasing_by
  have hlt := n.weight_leadsTo_lt
  rw [Node.weight_append, Node.weight_perm (List.reverse_perm _), Node.weight]
  omega

theorem run_perm {ns ms : List Node} (h : ns.Perm ms) {found : Bool}
    (hrun : (pending ms).Run (answer found)) : (pending ns).Run (answer found) := by
  rcases Relation.ReflTransGen.cases_head hrun with heq | ⟨t, hstep, hrest⟩
  · cases heq
  · refine .head ?_ hrest
    cases hstep with
    | empty => exact h.eq_nil ▸ .empty
    | hit htake hn => exact .hit (h.trans htake) hn
    | look htake hn => exact .look (h.trans htake) hn

/-- The search on a stack is one of the searches. -/
theorem run_onStack (ns : List Node) : (pending ns).Run (answer (onStack ns)) := by
  fun_induction onStack ns with
  | case1 => exact .single .empty
  | case2 n rest hn => exact .single (.hit (.refl _) hn)
  | case3 n rest hn ih =>
      have hperm : (rest ++ n.leadsTo).Perm (n.leadsTo.reverse ++ rest) :=
        List.perm_append_comm.trans ((List.reverse_perm _).symm.append_right rest)
      exact .head (.look (.refl _) (by simpa using hn)) (run_perm hperm ih)

/-- Every search through the constructs of a block that has an answer has the answer of the
function. -/
theorem answer_eq_givesValue {n body : Node} (hbody : n.child? .body = some body)
    (hk : body.kind = .statementBlock) {ns : List Node} (hns : ns.Perm body.namedChildren)
    {found : Bool} (h : (pending ns).Run (answer found)) : found = n.givesValue := by
  have hfinds : (pending ns).Finds ↔ n.GivesValue := by
    simp only [Finds, hns.mem_iff, Node.GivesValue, hbody, Option.some.injEq, exists_eq_left', hk,
      ne_eq, not_true, false_or]
  rw [Bool.eq_iff_iff, n.givesValue_iff, ← hfinds]
  exact (finds_iff_of_run h).symm

end Search

/-- A function gives a value exactly when its body is there and is an expression, or reaches a
return with a value.  A search for that return ends in whichever order it goes, the order of a stack among
them, and has the same answer. -/
theorem return_search_exact (n : Node) :
    (n.givesValue = true ↔ ∃ body, n.child? .body = some body ∧ (body.kind ≠ .statementBlock ∨
      ∃ r, body.Reaches r ∧ r.kind = .returnStatement ∧
        ∃ c ∈ r.namedChildren, c.isComment = false)) ∧
    (WellFounded fun t s : Search => s.Step t) ∧
    (∀ ns, ∃ t, (Search.pending ns).Step t) ∧
    ∀ body, n.child? .body = some body → body.kind = .statementBlock →
      Search.onStack body.namedChildren.reverse = n.givesValue ∧
      ∀ found, (Search.pending body.namedChildren).Run (.answer found) → found = n.givesValue := by
  have hreturn (r : Node) : r.isValueReturn = true ↔
      r.kind = .returnStatement ∧ ∃ c ∈ r.namedChildren, c.isComment = false := by
    simp [Node.isValueReturn_iff, Node.codeChildren, Node.namedChildren, and_assoc]
  refine ⟨?_, Search.wellFounded_step, Search.exists_step,
    fun body hbody hk => ⟨?_, fun found h => ?_⟩⟩
  · simp only [n.givesValue_iff, Node.GivesValue, Node.exists_returns_iff, hreturn]
  · exact Search.answer_eq_givesValue hbody hk (List.reverse_perm _) (Search.run_onStack _)
  · exact Search.answer_eq_givesValue hbody hk (.refl _) h

end Ambient
