import Ambient.Proofs.Module
import Ambient.Proofs.Validation.Recognition
import Mathlib.Data.List.Induction

/-!
# The export flag of a name

What a run does to the slot of one name.  A slot is filled once and for all, and its flag is set by
the acts that export the name and cleared by a registration of a local declaration, unless the slot
was pending.  The flag is lost exactly when such a registration comes after the last export.
-/

namespace Ambient

namespace Module

variable {m : Module} {name other : String}

/-- Whether the item under a name is exported; nothing when there is no such item. -/
def flag? (m : Module) (name : String) : Option Bool :=
  (m.items.get? name).map Decl.exported

theorem flag?_of_pending (h : m.Pending name) : m.flag? name = some true := by
  obtain ⟨hd, hget, hexported⟩ := h
  rw [flag?, hget]
  exact congrArg some hexported

theorem flag?_add_self (d : Decl) :
    (m.add name d).flag? name = some (handOver name (m.items.get? name) d).exported := by
  rw [flag?, get?_add_self]
  rfl

theorem flag?_add_of_exported {d : Decl} (hd : d.exported = true) :
    (m.add name d).flag? name = some true := by
  rw [flag?_add_self, exported_handOver hd]

theorem flag?_add_of_pending (h : m.Pending name) (d : Decl) :
    (m.add name d).flag? name = some true := by
  obtain ⟨hd, hget, hexported⟩ := h
  rw [flag?_add_self, hget, handOver_of_pending hexported, Decl.exported, Decl.header_mapHeader]

theorem flag?_add_of_not_pending (h : ¬ m.Pending name) (d : Decl) :
    (m.add name d).flag? name = some d.exported := by
  rw [flag?_add_self, m.handOver_of_not_pending h]

theorem flag?_add_of_ne (d : Decl) (h : other ≠ name) :
    (m.add name d).flag? other = m.flag? other := by
  rw [flag?, m.get?_add_of_ne d h, flag?]

theorem flag?_markExported (name other : String) :
    (m.markExported name).flag? other =
      if other = name then (m.flag? other).map fun _ => true else m.flag? other := by
  rw [flag?, get?_markExported]
  by_cases h : other = name
  · rw [if_pos h, if_pos h, flag?, Option.map_map, Option.map_map]
    congr 1
    funext d
    exact d.exported_setExported true
  · rw [if_neg h, if_neg h, flag?]

theorem flag?_setAggregate (d : Decl) (name : String) :
    (m.setAggregate d).flag? name = (m.flag? name).map fun _ => false := by
  rw [flag?, get?_setAggregate, flag?, Option.map_map, Option.map_map]
  congr 1
  funext e
  exact e.exported_setExported false

@[simp]
theorem flag?_describe (text name : String) : (m.describe text).flag? name = m.flag? name := by
  rw [describe]
  split
  · rfl
  · rfl

@[simp]
theorem flag?_promote (name other : String) : (m.promote name).flag? other = m.flag? other := by
  rw [flag?, get?_promote]
  split
  · rw [Option.map_map, flag?]
    congr 1
    funext d
    exact d.exported_promote
  · rfl

@[simp]
theorem flag?_modifyMembers (name other : String) (f : Table Decl → Table Decl) :
    (m.modifyMembers name f).flag? other = m.flag? other := by
  rw [flag?, get?_modifyMembers]
  split
  · rw [Option.map_map, flag?]
    congr 1
    funext d
    exact d.exported_mapMembers f
  · rfl

/-- A slot is not made pending by a change that makes no exports. -/
theorem pending_of_updated {m' : Module} {f : Decl → Decl} {h : Header}
    (hupdated : m'.items.get? name =
      if name = other then (m.items.get? name).map f else m.items.get? name)
    (hf : ∀ (d : Decl) (h : Header), f d = .aliasOf h name → d = .aliasOf h name)
    (hget : m'.items.get? name = some (.aliasOf h name)) (hexported : h.exported = true) :
    m.Pending name := by
  rw [hupdated] at hget
  split at hget
  · obtain ⟨d, hd, heq⟩ := Option.map_eq_some_iff.1 hget
    exact ⟨h, hd.trans (congrArg some (hf d h heq)), hexported⟩
  · exact ⟨h, hget, hexported⟩

end Module

/-! ### Validation -/

theorem Validation.exported_settle (s : Scope) (d : Decl) :
    (settle s d).exported = d.exported := by
  cases d with
  | classDef h c ms b =>
      cases b with
      | none => rfl
      | some b =>
          rw [settle, Decl.exported, Decl.header, classHeader]
          split
          · rfl
          · rfl
  | aliasOf h t =>
      rw [settle]
      split
      · rfl
      · rfl
  | _ => rfl

theorem Validation.exported_settleItem (s : Scope) (name : String) (d : Decl) :
    (settleItem s name d).exported = d.exported := by
  cases d with
  | aliasOf h t =>
      rw [settleItem]
      split
      · rfl
      · exact exported_settle s _
  | _ => exact exported_settle s _

/-- Validation neither adds nor drops an export. -/
theorem Module.flag?_validate (m : Module) (extra : List String) (name : String) :
    (m.validate extra).flag? name = m.flag? name := by
  have hget : (m.validate extra).items.get? name =
      (m.items.get? name).map (Validation.settleItem (m.scope extra) name) :=
    Table.get?_map m.items (Validation.settleItem (m.scope extra)) name
  rw [flag?, hget, Option.map_map, flag?]
  congr 1
  funext d
  exact Validation.exported_settleItem _ name d

/-! ### Acts -/

namespace Act

/-- The act exports the name. -/
def Exports (name : String) : Act → Prop
  | .mark other => other = name
  | .register other d => other = name ∧ d.exported = true
  | _ => False

/-- The act registers a local declaration under the name. -/
def Binds (name : String) : Act → Prop
  | .register other d => other = name ∧ d.exported = false
  | _ => False

/-- The act exports the module as a whole. -/
def IsAggregate : Act → Prop
  | .aggregate _ => True
  | _ => False

theorem ne_of_register {name other : String} {d : Decl}
    (hexports : ¬ (register other d).Exports name) (hbinds : ¬ (register other d).Binds name) :
    name ≠ other := by
  rintro rfl
  cases hd : d.exported with
  | false => exact hbinds ⟨rfl, hd⟩
  | true => exact hexports ⟨rfl, hd⟩

end Act

namespace BuildState

variable {s : BuildState} {a : Act} {acts : List Act} {name : String}

theorem flag?_after_of_exports (h : a.Exports name) :
    (s.after a).module.flag? name ≠ some false := by
  cases a with
  | mark other =>
      obtain rfl : other = name := h
      rw [after, Module.flag?_markExported, if_pos rfl]
      cases s.module.flag? other with
      | none => simp
      | some b => simp
  | register other d =>
      obtain ⟨rfl, hd⟩ := h
      rw [after, Module.flag?_add_of_exported hd]
      simp
  | _ => exact h.elim

/-- A local declaration clears the flag unless it fills a pending slot. -/
theorem flag?_after_of_binds (h : a.Binds name) :
    (s.after a).module.flag? name = some false ↔ ¬ s.module.Pending name := by
  cases a with
  | register other d =>
      obtain ⟨rfl, hd⟩ := h
      rw [after]
      constructor
      · intro hflag hpending
        rw [Module.flag?_add_of_pending hpending] at hflag
        cases hflag
      · intro hpending
        rw [Module.flag?_add_of_not_pending hpending, hd]
  | _ => exact h.elim

theorem flag?_after_of_other (hexports : ¬ a.Exports name) (hbinds : ¬ a.Binds name)
    (haggregate : ¬ a.IsAggregate) :
    (s.after a).module.flag? name = s.module.flag? name := by
  cases a with
  | register other d =>
      have hne := Act.ne_of_register hexports hbinds
      exact Module.flag?_add_of_ne d hne
  | mark other =>
      have hne : name ≠ other := fun h => hexports h.symm
      rw [after, Module.flag?_markExported, if_neg hne]
  | aggregate d => exact (haggregate trivial).elim
  | promote other => exact Module.flag?_promote other name
  | members other f => exact Module.flag?_modifyMembers other name f
  | describe text => exact Module.flag?_describe text name
  | _ => rfl

/-- No act takes an item out of the module. -/
theorem isSome_flag?_after (h : (s.module.flag? name).isSome) (a : Act) :
    ((s.after a).module.flag? name).isSome := by
  cases a with
  | register other d =>
      by_cases hne : name = other
      · rw [after, hne, Module.flag?_add_self]
        rfl
      · rw [after, Module.flag?_add_of_ne d hne]
        exact h
  | mark other =>
      rw [after, Module.flag?_markExported]
      split
      · rw [Option.isSome_map]
        exact h
      · exact h
  | aggregate d =>
      rw [after, Module.flag?_setAggregate, Option.isSome_map]
      exact h
  | promote other =>
      rw [after, Module.flag?_promote]
      exact h
  | members other f =>
      rw [after, Module.flag?_modifyMembers]
      exact h
  | describe text =>
      rw [after, Module.flag?_describe]
      exact h
  | _ => exact h

theorem isSome_flag?_afterAll (h : (s.module.flag? name).isSome) (acts : List Act) :
    ((s.afterAll acts).module.flag? name).isSome := by
  induction acts generalizing s with
  | nil => exact h
  | cons a acts ih => exact ih (isSome_flag?_after h a)

/-- The flag is lost: a local declaration takes a slot that was not pending, and the name is not
exported again. -/
def Lost (name : String) (s : BuildState) (acts : List Act) : Prop :=
  ∃ before a behind, acts = before ++ a :: behind ∧ a.Binds name ∧
    ¬ (s.afterAll before).module.Pending name ∧ ∀ b ∈ behind, ¬ b.Exports name

theorem not_lost_nil : ¬ Lost name s [] := by
  rintro ⟨before, a, behind, heq, -⟩
  simp at heq

/-- The last act of a run decides, unless it has nothing to do with the name. -/
theorem lost_concat : Lost name s (acts ++ [a]) ↔
    (a.Binds name ∧ ¬ (s.afterAll acts).module.Pending name) ∨
      (¬ a.Exports name ∧ Lost name s acts) := by
  constructor
  · rintro ⟨before, b, behind, heq, hb, hpending, hbehind⟩
    rcases List.eq_nil_or_concat behind with rfl | ⟨init, c, rfl⟩
    · obtain ⟨rfl, hab⟩ := List.append_inj' heq rfl
      cases hab
      exact .inl ⟨hb, hpending⟩
    · rw [List.concat_eq_append, ← List.cons_append, ← List.append_assoc] at heq
      obtain ⟨rfl, hac⟩ := List.append_inj' heq rfl
      cases hac
      refine .inr ⟨hbehind a (by simp), before, b, init, rfl, hb, hpending, ?_⟩
      intro e he
      exact hbehind e (by simp [he])
  · rintro (⟨ha, hpending⟩ | ⟨ha, before, b, behind, rfl, hb, hpending, hbehind⟩)
    · exact ⟨acts, a, [], rfl, ha, hpending, List.forall_mem_nil _⟩
    · refine ⟨before, b, behind ++ [a], by simp, hb, hpending, ?_⟩
      exact List.forall_mem_append.2 ⟨hbehind, List.forall_mem_singleton.2 ha⟩

theorem not_pending_of_flag? (h : s.module.flag? name = some false) : ¬ s.module.Pending name := by
  intro hpending
  rw [Module.flag?_of_pending hpending] at h
  cases h

theorem flag?_of_lost (hacts : ∀ a ∈ acts, ¬ a.IsAggregate) (h : Lost name s acts) :
    (s.afterAll acts).module.flag? name = some false := by
  induction acts using List.reverseRecOn with
  | nil => exact (not_lost_nil h).elim
  | append_singleton acts a ih =>
      obtain ⟨hinit, hlast⟩ := List.forall_mem_append.1 hacts
      rw [afterAll_append]
      rcases lost_concat.1 h with ⟨hbinds, hpending⟩ | ⟨hexports, hlost⟩
      · exact (flag?_after_of_binds hbinds).2 hpending
      · have hfalse := ih hinit hlost
        by_cases hbinds : a.Binds name
        · exact (flag?_after_of_binds hbinds).2 (not_pending_of_flag? hfalse)
        · have ha : ¬ a.IsAggregate := hlast a (List.mem_singleton_self a)
          exact (flag?_after_of_other hexports hbinds ha).trans hfalse

/-- The flag is cleared at the end of a run exactly when it is lost in it. -/
theorem flag?_afterAll_eq_false_iff (hs : s.module.flag? name ≠ some false)
    (hacts : ∀ a ∈ acts, ¬ a.IsAggregate) :
    (s.afterAll acts).module.flag? name = some false ↔ Lost name s acts := by
  refine ⟨fun hfalse => ?_, flag?_of_lost hacts⟩
  induction acts using List.reverseRecOn with
  | nil => exact (hs hfalse).elim
  | append_singleton acts a ih =>
      obtain ⟨hinit, hlast⟩ := List.forall_mem_append.1 hacts
      rw [afterAll_append] at hfalse
      rw [lost_concat]
      by_cases hexports : a.Exports name
      · exact (flag?_after_of_exports hexports hfalse).elim
      by_cases hbinds : a.Binds name
      · exact .inl ⟨hbinds, (flag?_after_of_binds hbinds).1 hfalse⟩
      · have ha : ¬ a.IsAggregate := hlast a (List.mem_singleton_self a)
        have hkept := flag?_after_of_other (s := s.afterAll acts) hexports hbinds ha
        exact .inr ⟨hexports, ih hinit (hkept.symm.trans hfalse)⟩

/-- Only an export or a registration of the name makes its slot pending. -/
theorem pending_of_after (hexports : ¬ a.Exports name) (hbinds : ¬ a.Binds name)
    (h : (s.after a).module.Pending name) : s.module.Pending name := by
  obtain ⟨hd, hget, hexported⟩ := h
  cases a with
  | register other d =>
      have hne := Act.ne_of_register hexports hbinds
      rw [after, Module.get?_add_of_ne _ d hne] at hget
      exact ⟨hd, hget, hexported⟩
  | mark other =>
      have hne : name ≠ other := fun h => hexports h.symm
      rw [after, Module.get?_markExported, if_neg hne] at hget
      exact ⟨hd, hget, hexported⟩
  | aggregate d =>
      rw [after, Module.get?_setAggregate] at hget
      obtain ⟨e, -, heq⟩ := Option.map_eq_some_iff.1 hget
      have hfalse := e.exported_setExported false
      rw [heq] at hfalse
      exact (Bool.false_ne_true (hfalse.symm.trans hexported)).elim
  | promote other =>
      rw [after] at hget
      refine Module.pending_of_updated (Module.get?_promote ..) (fun e _ he => ?_) hget hexported
      cases e <;> cases he
      rfl
  | members other f =>
      rw [after] at hget
      refine Module.pending_of_updated (Module.get?_modifyMembers ..) (fun e _ he => ?_) hget
        hexported
      cases e <;> cases he
      rfl
  | describe text =>
      rw [after, Module.describe] at hget
      split at hget
      · exact ⟨hd, hget, hexported⟩
      · exact ⟨hd, hget, hexported⟩
  | _ => exact ⟨hd, hget, hexported⟩

/-- A local declaration loses the flag when the slot is not pending and nothing exports the name. -/
theorem lost_of_binds (hpending : ¬ s.module.Pending name)
    (hexports : ∀ a ∈ acts, ¬ a.Exports name) (ha : a ∈ acts) (hbinds : a.Binds name) :
    Lost name s acts := by
  induction acts generalizing s with
  | nil => cases ha
  | cons b acts ih =>
      obtain ⟨hb, hrest⟩ := List.forall_mem_cons.1 hexports
      by_cases hfirst : b.Binds name
      · exact ⟨[], b, acts, rfl, hfirst, hpending, hrest⟩
      · have hmem : a ∈ acts := by
          rcases List.mem_cons.1 ha with rfl | hmem
          · exact (hfirst hbinds).elim
          · exact hmem
        have hpending' := mt (pending_of_after hb hfirst) hpending
        obtain ⟨before, c, behind, rfl, hlost⟩ := ih hpending' hrest hmem
        exact ⟨b :: before, c, behind, rfl, hlost⟩

/-- The flag of an item stays where nothing clears it. -/
theorem flag?_afterAll_eq_true (h : s.module.flag? name = some true)
    (hacts : ∀ a ∈ acts, ¬ a.IsAggregate) (hbinds : ∀ a ∈ acts, ¬ a.Binds name) :
    (s.afterAll acts).module.flag? name = some true := by
  have hsome : (s.module.flag? name).isSome := by rw [h]; rfl
  have hlost : ¬ Lost name s acts := by
    rintro ⟨before, a, behind, rfl, ha, -⟩
    exact hbinds a (by simp) ha
  have hfalse := mt (flag?_afterAll_eq_false_iff (by rw [h]; simp) hacts).1 hlost
  obtain ⟨b, hb⟩ := Option.isSome_iff_exists.1 (isSome_flag?_afterAll hsome acts)
  cases b with
  | false => exact (hfalse hb).elim
  | true => exact hb

end BuildState

end Ambient
