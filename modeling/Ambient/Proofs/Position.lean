import Mathlib.Data.List.Basic

/-!
# Positions in trees

A position is the list of the choices on the way down: which tree of a list, which child of its
root, which child of that.  So the positions below a node are compared as lists are, and the order
of positions is the order from left to right.

`Enumerates` says of a list that it gives everything that stands somewhere, each thing once and from
left to right.  It is stated about positions only, so a traversal has to be shown to enumerate and
cannot do so by definition.

`Before` is the other order of positions, in which what stands below a node comes before the node;
`First` says of a position that nothing stands before it in that order.
-/

namespace Ambient.Position

variable {α β γ : Type}

/-- What stands at a position below `x`. -/
def descend (children : α → List α) (x : α) : List Nat → Option α
  | [] => some x
  | i :: p => (children x)[i]?.bind fun y => descend children y p

@[simp]
theorem descend_nil (children : α → List α) (x : α) : descend children x [] = some x := rfl

theorem descend_cons (children : α → List α) (x : α) (i : Nat) (p : List Nat) :
    descend children x (i :: p) = (children x)[i]?.bind fun y => descend children y p := rfl

/-- Something stands at a position in one of several trees: the first choice is the tree. -/
def Among (P : α → List Nat → β → Prop) (xs : List α) (q : List Nat) (b : β) : Prop :=
  ∃ i p x, q = i :: p ∧ xs[i]? = some x ∧ P x p b

/-- The list has everything that stands at some position, once each and from left to right. -/
structure Enumerates (P : List Nat → β → Prop) (found : List (List Nat × β)) : Prop where
  ordered : found.Pairwise fun a b => a.1 < b.1
  exact : ∀ p b, (p, b) ∈ found ↔ P p b

namespace Enumerates

variable {P Q : List Nat → β → Prop} {found others : List (List Nat × β)}

theorem congr (h : Enumerates P found) (hPQ : ∀ p b, P p b ↔ Q p b) : Enumerates Q found :=
  ⟨h.ordered, fun p b => (h.exact p b).trans (hPQ p b)⟩

theorem nil (h : ∀ p b, ¬ P p b) : Enumerates P [] :=
  ⟨.nil, fun p b => ⟨fun hm => absurd hm List.not_mem_nil, fun hP => absurd hP (h p b)⟩⟩

theorem singleton (p : List Nat) (b : β) : Enumerates (fun q c => q = p ∧ c = b) [(p, b)] :=
  ⟨List.pairwise_singleton .., fun q c => by simp⟩

/-- What stands below the choice `i`. -/
theorem under (h : Enumerates P found) (i : Nat) :
    Enumerates (fun q b => ∃ p, q = i :: p ∧ P p b) (found.map fun o => (i :: o.1, o.2)) where
  ordered := by
    refine List.pairwise_map.2 (h.ordered.imp ?_)
    intro a b hab
    exact List.cons_lt_cons_iff.2 (.inr ⟨rfl, hab⟩)
  exact q b := by
    constructor
    · intro hm
      obtain ⟨⟨p, c⟩, ho, hq⟩ := List.mem_map.1 hm
      cases hq
      exact ⟨p, rfl, (h.exact p c).1 ho⟩
    · rintro ⟨p, rfl, hP⟩
      exact List.mem_map.2 ⟨(p, b), (h.exact p b).2 hP, rfl⟩

/-- One part stands wholly to the left of the other. -/
theorem append (h : Enumerates P found) (h' : Enumerates Q others)
    (hleft : ∀ p b q c, P p b → Q q c → p < q) :
    Enumerates (fun q b => P q b ∨ Q q b) (found ++ others) where
  ordered := by
    refine List.pairwise_append.2 ⟨h.ordered, h'.ordered, ?_⟩
    intro a ha b hb
    exact hleft _ _ _ _ ((h.exact a.1 a.2).1 ha) ((h'.exact b.1 b.2).1 hb)
  exact q b := by rw [List.mem_append, h.exact, h'.exact]

end Enumerates

/-- `Among`, with the first `k` choices taken by trees before these. -/
private def Behind (P : α → List Nat → β → Prop) (k : Nat) (xs : List α) (q : List Nat) (b : β) :
    Prop :=
  ∃ i p x, q = (k + i) :: p ∧ xs[i]? = some x ∧ P x p b

variable {P : α → List Nat → β → Prop}

private theorem behind_cons {k : Nat} {x : α} {xs : List α} (q : List Nat) (b : β) :
    ((∃ p, q = k :: p ∧ P x p b) ∨ Behind P (k + 1) xs q b) ↔ Behind P k (x :: xs) q b := by
  constructor
  · rintro (⟨p, rfl, hP⟩ | ⟨i, p, y, rfl, hy, hP⟩)
    · exact ⟨0, p, x, rfl, rfl, hP⟩
    · exact ⟨i + 1, p, y, by rw [Nat.add_assoc, Nat.add_comm 1 i], by simpa using hy, hP⟩
  · rintro ⟨i, p, y, rfl, hy, hP⟩
    cases i with
    | zero =>
        cases hy
        exact .inl ⟨p, rfl, hP⟩
    | succ i => exact .inr ⟨i, p, y, by rw [Nat.add_assoc, Nat.add_comm 1 i], by simpa using hy, hP⟩

private theorem exists_enumerates_behind {f : α → List γ} {g : β → γ} (xs : List α) (k : Nat)
    (h : ∀ x ∈ xs, ∃ found, Enumerates (P x) found ∧ found.map (fun o => g o.2) = f x) :
    ∃ found, Enumerates (Behind P k xs) found ∧
      found.map (fun o => g o.2) = xs.flatMap f := by
  induction xs generalizing k with
  | nil =>
      refine ⟨[], .nil ?_, rfl⟩
      rintro q b ⟨i, p, x, -, hx, -⟩
      cases hx
  | cons x xs ih =>
      obtain ⟨found, hfound, hf⟩ := h x List.mem_cons_self
      obtain ⟨others, hothers, hg⟩ := ih (k + 1) fun y hy => h y (List.mem_cons_of_mem _ hy)
      refine ⟨found.map (fun o => (k :: o.1, o.2)) ++ others, ?_, ?_⟩
      · refine ((hfound.under k).append hothers ?_).congr behind_cons
        rintro _ b _ c ⟨p, rfl, -⟩ ⟨i, q, y, rfl, -, -⟩
        exact List.cons_lt_cons_iff.2 (.inl (by omega))
      · rw [List.map_append, List.map_map, hg, List.flatMap_cons, ← hf]
        rfl

/-- Enumerating several trees one after another enumerates what stands among them. -/
theorem exists_enumerates_among {f : α → List γ} {g : β → γ} {xs : List α}
    (h : ∀ x ∈ xs, ∃ found, Enumerates (P x) found ∧ found.map (fun o => g o.2) = f x) :
    ∃ found, Enumerates (Among P xs) found ∧ found.map (fun o => g o.2) = xs.flatMap f := by
  obtain ⟨found, hfound, hf⟩ := exists_enumerates_behind xs 0 h
  refine ⟨found, hfound.congr fun q b => ?_, hf⟩
  simp only [Behind, Among, Nat.zero_add]

/-! ### What is below comes first -/

/-- The order of positions from left to right, and from the inside out. -/
inductive Before : List Nat → List Nat → Prop where
  | inside (i : Nat) (p : List Nat) : Before (i :: p) []
  | left {i j : Nat} (h : i < j) (p q : List Nat) : Before (i :: p) (j :: q)
  | under (i : Nat) {p q : List Nat} (h : Before p q) : Before (i :: p) (i :: q)

theorem Before.asymm {p q : List Nat} (h : Before p q) : ¬ Before q p := by
  induction h with
  | inside i p => nofun
  | left hij p q =>
      intro hqp
      cases hqp with
      | left hji => omega
      | under _ _ => omega
  | under i _ ih =>
      intro hqp
      cases hqp with
      | left hii => omega
      | under _ hqp => exact ih hqp

/-- Something stands at the position, and everything else that does stands behind it. -/
structure First (P : List Nat → β → Prop) (p : List Nat) (b : β) : Prop where
  here : P p b
  least : ∀ q c, P q c → q = p ∨ Before p q

theorem First.congr {P Q : List Nat → β → Prop} {p : List Nat} {b : β} (h : First P p b)
    (hPQ : ∀ q c, P q c ↔ Q q c) : First Q p b :=
  ⟨(hPQ p b).1 h.here, fun q c hq => h.least q c ((hPQ q c).2 hq)⟩

theorem First.unique {P : List Nat → β → Prop} {p q : List Nat} {b c : β} (hp : First P p b)
    (hq : First P q c) : p = q := by
  rcases hp.least q c hq.here with rfl | hpq
  · rfl
  · rcases hq.least p b hp.here with rfl | hqp
    · rfl
    · exact absurd hqp hpq.asymm

theorem not_among_nil (q : List Nat) (b : β) : ¬ Among P [] q b := by
  rintro ⟨i, p, x, -, hx, -⟩
  cases hx

/-- What stands among several trees stands in the first of them, or among the others. -/
theorem among_cons_iff {x : α} {xs : List α} {q : List Nat} {b : β} :
    Among P (x :: xs) q b ↔
      (∃ p, q = 0 :: p ∧ P x p b) ∨ ∃ i p, q = (i + 1) :: p ∧ Among P xs (i :: p) b := by
  constructor
  · rintro ⟨i, p, y, rfl, hy, hP⟩
    cases i with
    | zero =>
        cases hy
        exact .inl ⟨p, rfl, hP⟩
    | succ i => exact .inr ⟨i, p, rfl, i, p, y, rfl, by simpa using hy, hP⟩
  · rintro (⟨p, rfl, hP⟩ | ⟨i, p, rfl, j, r, y, heq, hy, hP⟩)
    · exact ⟨0, p, x, rfl, rfl, hP⟩
    · cases heq
      exact ⟨i + 1, p, y, rfl, by simpa using hy, hP⟩

/-- The first thing in the first tree is the first among all. -/
theorem First.among_head {x : α} {p : List Nat} {b : β} (h : First (P x) p b) (xs : List α) :
    First (Among P (x :: xs)) (0 :: p) b := by
  refine ⟨among_cons_iff.2 (.inl ⟨p, rfl, h.here⟩), fun q c hq => ?_⟩
  rcases among_cons_iff.1 hq with ⟨r, rfl, hr⟩ | ⟨i, r, rfl, -⟩
  · rcases h.least r c hr with rfl | hbefore
    · exact .inl rfl
    · exact .inr (.under 0 hbefore)
  · exact .inr (.left (Nat.succ_pos i) p r)

/-- Where nothing stands in the first tree, the first thing among the others is the first. -/
theorem First.among_tail {x : α} {xs : List α} {i : Nat} {p : List Nat} {b : β}
    (hclear : ∀ q c, ¬ P x q c) (h : First (Among P xs) (i :: p) b) :
    First (Among P (x :: xs)) ((i + 1) :: p) b := by
  refine ⟨among_cons_iff.2 (.inr ⟨i, p, rfl, h.here⟩), fun q c hq => ?_⟩
  rcases among_cons_iff.1 hq with ⟨r, rfl, hr⟩ | ⟨j, r, rfl, hr⟩
  · exact absurd hr (hclear r c)
  · rcases h.least (j :: r) c hr with heq | hbefore
    · cases heq
      exact .inl rfl
    · cases hbefore with
      | left hij => exact .inr (.left (Nat.succ_lt_succ hij) p r)
      | under _ hbefore => exact .inr (.under (i + 1) hbefore)

end Ambient.Position
