import Ambient.Proofs.Module

/-!
# Assignments to a module

What one assignment does to a module, for each meaning its target can have, and what several
assignments of one value do one by one.  An assignment to one target commutes with the changes that
another target makes elsewhere; these laws are what chains of assignments are compared by.
-/

namespace Ambient.Build

/-- The constructor whose prototype a target changes. -/
def Target.owner? : Target → Option String
  | .prototype owner => some owner
  | .prototypeMember owner _ => some owner
  | _ => none

/-- What is assigned: a declaration and, when the value is a bare name, that name. -/
structure Assigned where
  decl : Decl
  name : Option String
  isAlias : ∀ n, name = some n → ∃ h, decl = .aliasOf h n

namespace Assigned

variable (v : Assigned)

/-- The value is the name of an item that is marked where it stands. -/
def marks (name : String) (m : Module) : Bool :=
  v.name == some name && (m.items.get? name).any fun d => !d.isAlias

/-- What an assignment to a prototype changes in the members of the class. -/
def change : Target → Table Decl → Table Decl
  | .prototype _ =>
      match v.decl with
      | .object _ ms => fun members => members.setAll ms
      | _ => id
  | .prototypeMember _ member => fun members => members.set member v.decl
  | _ => id

/-- A module after one assignment. -/
def assign (t : Target) (m : Module) : Module :=
  match t with
  | .aggregate => m.setAggregate v.decl
  | .exported name =>
      if v.marks name m then m.memberwise.markExported name
      else m.memberwise.add name (v.decl.setExported true)
  | .prototype owner => m.extend owner (v.change (.prototype owner))
  | .prototypeMember owner member => m.extend owner (v.change (.prototypeMember owner member))
  | .other => m

/-- A module after the assignments one by one, from the right. -/
def inTurn (ts : List Target) (m : Module) : Module :=
  ts.foldr v.assign m

variable {v} {t : Target} {m : Module}

/-! ### What an assignment leaves alone -/

theorem assign_of_owner {o : String} (h : t.owner? = some o) (m : Module) :
    v.assign t m = m.extend o (v.change t) := by
  cases t <;> cases h <;> rfl

theorem inTurn_cons (t : Target) (ts : List Target) (m : Module) :
    v.inTurn (t :: ts) m = v.assign t (v.inTurn ts m) := rfl

theorem marks_iff {n : String} : v.marks n m = true ↔
    v.name = some n ∧ ∃ e, m.items.get? n = some e ∧ e.isAlias = false := by
  rw [marks, Bool.and_eq_true, beq_iff_eq]
  cases m.items.get? n <;> simp

theorem assign_of_marks {n : String} (h : v.marks n m = true) :
    v.assign (.exported n) m = m.memberwise.markExported n :=
  if_pos h

theorem assign_of_not_marks {n : String} (h : ¬ v.marks n m = true) :
    v.assign (.exported n) m = m.memberwise.add n (v.decl.setExported true) :=
  if_neg h

theorem marks_congr {n : String} {m' : Module} (h : m'.items.get? n = m.items.get? n) :
    v.marks n m' = v.marks n m := by
  rw [marks, marks, h]

theorem hasConstructor_assign {o : String} (ht : t ≠ .exported o) (m : Module) :
    (v.assign t m).hasConstructor o = m.hasConstructor o := by
  cases t with
  | aggregate => exact m.hasConstructor_setAggregate _ _
  | exported n =>
      have hne : o ≠ n := fun h => ht (h ▸ rfl)
      rw [assign]
      split
      · rw [Module.hasConstructor_markExported, Module.hasConstructor_memberwise]
      · rw [Module.hasConstructor_add_of_ne _ _ hne, Module.hasConstructor_memberwise]
  | prototype owner => exact m.hasConstructor_extend _ _ _
  | prototypeMember owner member => exact m.hasConstructor_extend _ _ _
  | other => rfl

theorem assign_memberwise (ht : t ≠ .aggregate) (m : Module) :
    v.assign t m.memberwise = (v.assign t m).memberwise := by
  cases t with
  | aggregate => exact (ht rfl).elim
  | exported n =>
      have hmarks : v.marks n m.memberwise = v.marks n m := rfl
      rw [assign, assign, hmarks]
      split <;> rfl
  | prototype owner => exact m.extend_memberwise _ _
  | prototypeMember owner member => exact m.extend_memberwise _ _
  | other => rfl

theorem assign_promote {o : String} (ht : t ≠ .exported o) (h : m.hasConstructor o = true) :
    v.assign t (m.promote o) = (v.assign t m).promote o := by
  cases hto : t.owner? with
  | some o' =>
      rw [assign_of_owner hto, assign_of_owner hto]
      by_cases ho : o = o'
      · rw [ho, Module.extend_promote, Module.promote_extend]
      · rw [Module.promote_extend_of_ne _ _ ho]
  | none =>
      cases t with
      | aggregate => exact (m.promote_setAggregate o v.decl).symm
      | exported n =>
          have hne : o ≠ n := fun h => ht (h ▸ rfl)
          have hmarks : v.marks n (m.promote o) = v.marks n m := by
            refine marks_congr ?_
            rw [Module.get?_promote, if_neg (Ne.symm hne)]
          obtain ⟨e, he⟩ := m.exists_get?_of_hasConstructor h
          rw [assign, assign, hmarks, ← Module.promote_memberwise]
          split
          · exact (Module.promote_markExported _ hne).symm
          · exact (Module.promote_add m.memberwise _ hne he).symm
      | prototype owner => cases hto
      | prototypeMember owner member => cases hto
      | other => rfl

theorem inTurn_memberwise {ts : List Target} (h : .aggregate ∉ ts) (m : Module) :
    v.inTurn ts m.memberwise = (v.inTurn ts m).memberwise := by
  induction ts with
  | nil => rfl
  | cons t ts ih =>
      rw [List.mem_cons, not_or] at h
      rw [inTurn_cons, inTurn_cons, ih h.2, assign_memberwise (Ne.symm h.1)]

theorem hasConstructor_inTurn {ts : List Target} {o : String} (h : .exported o ∉ ts) (m : Module) :
    (v.inTurn ts m).hasConstructor o = m.hasConstructor o := by
  induction ts with
  | nil => rfl
  | cons t ts ih =>
      rw [List.mem_cons, not_or] at h
      rw [inTurn_cons, hasConstructor_assign (Ne.symm h.1), ih h.2]

theorem inTurn_promote {ts : List Target} {o : String} (h : .exported o ∉ ts)
    (hm : m.hasConstructor o = true) :
    v.inTurn ts (m.promote o) = (v.inTurn ts m).promote o := by
  induction ts with
  | nil => rfl
  | cons t ts ih =>
      rw [List.mem_cons, not_or] at h
      have hturn : (v.inTurn ts m).hasConstructor o = true := by
        rw [hasConstructor_inTurn h.2, hm]
      rw [inTurn_cons, inTurn_cons, ih h.2, assign_promote (Ne.symm h.1) hturn]

/-- Without its constructor a prototype is not changed. -/
theorem inTurn_of_not_hasConstructor {ts : List Target} {o : String}
    (h : ∀ t ∈ ts, t = .other ∨ t.owner? = some o) (hm : ¬ m.hasConstructor o = true) :
    v.inTurn ts m = m := by
  induction ts with
  | nil => rfl
  | cons t ts ih =>
      rw [inTurn_cons, ih fun t' ht' => h t' (List.mem_cons_of_mem _ ht')]
      rcases h t (List.mem_cons_self ..) with rfl | ht
      · rfl
      · rw [assign_of_owner ht, Module.extend_of_not_hasConstructor _ _ hm]

/-! ### Assignments that commute -/

theorem get?_assign {n : String} (hmode : t ≠ .aggregate) (hname : t ≠ .exported n)
    (howner : t.owner? ≠ some n) (m : Module) :
    (v.assign t m).items.get? n = m.items.get? n := by
  cases hto : t.owner? with
  | some o =>
      have ho : ¬ (n = o ∧ m.hasConstructor o = true) := fun h => howner (h.1 ▸ hto)
      rw [assign_of_owner hto, Module.get?_extend, if_neg ho]
  | none =>
      cases t with
      | aggregate => exact (hmode rfl).elim
      | exported name =>
          have hne : n ≠ name := fun h => hname (h ▸ rfl)
          rw [assign]
          split
          · rw [Module.get?_markExported, if_neg hne]
            rfl
          · rw [Module.get?_add_of_ne _ _ hne]
            rfl
      | prototype owner => cases hto
      | prototypeMember owner member => cases hto
      | other => rfl

theorem assign_markExported {n : String} (hmode : t ≠ .aggregate) (hname : t ≠ .exported n)
    (howner : t.owner? ≠ some n) (m : Module) :
    v.assign t (m.markExported n) = (v.assign t m).markExported n := by
  cases hto : t.owner? with
  | some o =>
      have hne : o ≠ n := fun h => howner (h ▸ hto)
      rw [assign_of_owner hto, assign_of_owner hto, Module.extend_markExported _ _ hne]
  | none =>
      cases t with
      | aggregate => exact (hmode rfl).elim
      | exported name =>
          have hne : name ≠ n := fun h => hname (h ▸ rfl)
          have hmarks : v.marks name (m.markExported n) = v.marks name m := by
            refine marks_congr ?_
            rw [Module.get?_markExported, if_neg hne]
          rw [assign, assign, hmarks, ← Module.markExported_memberwise]
          split
          · exact Module.markExported_comm _ hne
          · exact Module.add_markExported _ _ hne
      | prototype owner => cases hto
      | prototypeMember owner member => cases hto
      | other => rfl

theorem assign_add {n : String} {d : Decl} (hmode : t ≠ .aggregate) (hname : t ≠ .exported n)
    (howner : t.owner? ≠ some n) (hmem : n ∈ m.items.names) :
    v.assign t (m.add n d) = (v.assign t m).add n d := by
  cases hto : t.owner? with
  | some o =>
      have hne : o ≠ n := fun h => howner (h ▸ hto)
      rw [assign_of_owner hto, assign_of_owner hto, Module.extend_add _ _ _ hne]
  | none =>
      cases t with
      | aggregate => exact (hmode rfl).elim
      | exported name =>
          have hne : name ≠ n := fun h => hname (h ▸ rfl)
          have hmarks : v.marks name (m.add n d) = v.marks name m :=
            marks_congr (Module.get?_add_of_ne _ _ hne)
          rw [assign, assign, hmarks, ← Module.add_memberwise]
          split
          · exact (Module.add_markExported _ _ (Ne.symm hne)).symm
          · exact (Module.add_comm m.memberwise _ _ (Ne.symm hne) hmem).symm
      | prototype owner => cases hto
      | prototypeMember owner member => cases hto
      | other => rfl

theorem assign_setAggregate (ht : ∀ n, t ≠ .exported n) (m : Module) :
    v.assign t (m.setAggregate v.decl) = (v.assign t m).setAggregate v.decl := by
  cases t with
  | aggregate => rfl
  | exported n => exact (ht n rfl).elim
  | prototype owner => exact m.extend_setAggregate _ _ _
  | prototypeMember owner member => exact m.extend_setAggregate _ _ _
  | other => rfl

theorem assign_extend {o : String} (f : Table Decl → Table Decl) (hname : t ≠ .exported o)
    (howner : t.owner? ≠ some o) (m : Module) :
    v.assign t (m.extend o f) = (v.assign t m).extend o f := by
  cases hto : t.owner? with
  | some o' =>
      have hne : o' ≠ o := fun h => howner (h ▸ hto)
      rw [assign_of_owner hto, assign_of_owner hto, Module.extend_extend_of_ne _ _ _ hne]
  | none =>
      cases t with
      | aggregate => exact (m.extend_setAggregate _ _ _).symm
      | exported name =>
          have hne : o ≠ name := fun h => hname (h ▸ rfl)
          have hmarks : v.marks name (m.extend o f) = v.marks name m := by
            refine marks_congr ?_
            rw [Module.get?_extend, if_neg fun h => hne h.1.symm]
          rw [assign, assign, hmarks, ← Module.extend_memberwise]
          split
          · exact (Module.extend_markExported _ _ hne).symm
          · exact (Module.extend_add _ _ _ hne).symm
      | prototype owner => cases hto
      | prototypeMember owner member => cases hto
      | other => rfl

end Assigned

end Ambient.Build
