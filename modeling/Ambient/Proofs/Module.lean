import Ambient.Proofs.Build.Act
import Ambient.Proofs.Table

/-!
# Laws of modules

The operations that build a module, seen from the slot of one name, and how they commute.  An
operation on one name leaves the other slots alone; exporting the module as a whole only turns flags
off; turning a function into a class keeps its flag.
-/

namespace Ambient

namespace Decl

/-- A class, or a function that can become one. -/
def isConstructor : Decl → Bool
  | classDef .. => true
  | function .. => true
  | _ => false

@[simp]
theorem isAlias_mapHeader (f : Header → Header) (d : Decl) :
    (d.mapHeader f).isAlias = d.isAlias := by
  cases d <;> rfl

@[simp]
theorem isAlias_setExported (d : Decl) (b : Bool) : (d.setExported b).isAlias = d.isAlias :=
  isAlias_mapHeader _ d

@[simp]
theorem isConstructor_mapHeader (f : Header → Header) (d : Decl) :
    (d.mapHeader f).isConstructor = d.isConstructor := by
  cases d <;> rfl

@[simp]
theorem isConstructor_setExported (d : Decl) (b : Bool) :
    (d.setExported b).isConstructor = d.isConstructor :=
  isConstructor_mapHeader _ d

@[simp]
theorem setExported_setExported (d : Decl) (b b' : Bool) :
    (d.setExported b).setExported b' = d.setExported b' := by
  cases d <;> rfl

theorem mapHeader_eq_self {f : Header → Header} {d : Decl} (h : f d.header = d.header) :
    d.mapHeader f = d := by
  cases d with
  | function fn =>
      have hfn : f fn.header = fn.header := h
      rw [mapHeader, hfn]
  | _ => simpa [mapHeader, header] using h

/-- The members of a class changed; anything else stays. -/
def mapMembers (f : Table Decl → Table Decl) : Decl → Decl
  | classDef h c ms b => classDef h c (f ms) b
  | d => d

@[simp]
theorem isAlias_mapMembers (f : Table Decl → Table Decl) (d : Decl) :
    (d.mapMembers f).isAlias = d.isAlias := by
  cases d <;> rfl

@[simp]
theorem isConstructor_mapMembers (f : Table Decl → Table Decl) (d : Decl) :
    (d.mapMembers f).isConstructor = d.isConstructor := by
  cases d <;> rfl

@[simp]
theorem exported_mapMembers (f : Table Decl → Table Decl) (d : Decl) :
    (d.mapMembers f).exported = d.exported := by
  cases d <;> rfl

theorem mapMembers_setExported (f : Table Decl → Table Decl) (b : Bool) (d : Decl) :
    (d.mapMembers f).setExported b = (d.setExported b).mapMembers f := by
  cases d <;> rfl

theorem mapMembers_mapMembers (f g : Table Decl → Table Decl) (d : Decl) :
    (d.mapMembers f).mapMembers g = d.mapMembers (g ∘ f) := by
  cases d <;> rfl

/-- A function as a class; anything else stays. -/
def promote : Decl → Decl
  | function fn => Build.classOf fn fn.header.description none
  | d => d

@[simp]
theorem isAlias_promote (d : Decl) : d.promote.isAlias = d.isAlias := by
  cases d <;> rfl

@[simp]
theorem isConstructor_promote (d : Decl) : d.promote.isConstructor = d.isConstructor := by
  cases d <;> rfl

@[simp]
theorem exported_promote (d : Decl) : d.promote.exported = d.exported := by
  cases d <;> rfl

@[simp]
theorem promote_promote (d : Decl) : d.promote.promote = d.promote := by
  cases d <;> rfl

theorem promote_setExported (d : Decl) (b : Bool) :
    (d.setExported b).promote = d.promote.setExported b := by
  cases d <;> rfl

theorem promote_mapMembers (f : Table Decl → Table Decl) (d : Decl) :
    (d.promote.mapMembers f).promote = d.promote.mapMembers f := by
  cases d <;> rfl

end Decl

namespace Module

variable (m : Module) {name other : String}

theorem hasConstructor_eq (name : String) :
    m.hasConstructor name = (m.items.get? name).any Decl.isConstructor := by
  rw [hasConstructor]
  cases m.items.get? name with
  | none => rfl
  | some d => cases d <;> rfl

/-- Promoting sets the slot of a name that is there. -/
theorem promote_eq_of_get? {d : Decl} (h : m.items.get? name = some d) :
    m.promote name = { m with items := m.items.set name d.promote } := by
  rw [promote, h]
  cases d with
  | function fn => rfl
  | _ => simp only [Decl.promote, Table.set_eq_self h]

theorem promote_eq_of_none (h : m.items.get? name = none) : m.promote name = m := by
  rw [promote, h]

theorem modifyMembers_eq (name : String) (f : Table Decl → Table Decl) :
    m.modifyMembers name f = { m with items := m.items.update name (Decl.mapMembers f) } :=
  rfl

/-! ### What a slot hands over -/

/-- The name is exported as itself and waits for its declaration. -/
def Pending (m : Module) (name : String) : Prop :=
  ∃ h : Header, m.items.get? name = some (.aliasOf h name) ∧ h.exported = true

theorem handOver_of_pending {h : Header} (hh : h.exported = true) (d : Decl) :
    handOver name (some (.aliasOf h name)) d =
      d.mapHeader fun own =>
        { own with
          exported := true
          description := if own.description.isEmpty then h.description else own.description } := by
  rw [handOver, if_pos ⟨rfl, hh⟩]

theorem handOver_of_not_pending (h : ¬ m.Pending name) (d : Decl) :
    handOver name (m.items.get? name) d = d := by
  unfold handOver
  split
  · rename_i hd target hget
    split
    · rename_i hpending
      obtain ⟨rfl, hexported⟩ := hpending
      exact (h ⟨hd, hget, hexported⟩).elim
    · rfl
  · rfl

/-- An exported declaration takes nothing from itself. -/
theorem handOver_self {d : Decl} (hd : d.exported = true) (name : String) :
    handOver name (some d) d = d := by
  cases d with
  | aliasOf h target =>
      have hh : h.exported = true := hd
      rw [handOver]
      split
      · simp [Decl.mapHeader, ← hh]
      · rfl
  | _ => rfl

theorem exported_handOver {d : Decl} (hd : d.exported = true) (name : String)
    (old : Option Decl) : (handOver name old d).exported = true := by
  unfold handOver
  split
  · split
    · simp [Decl.exported]
    · exact hd
  · exact hd

theorem isAlias_handOver (d : Decl) (name : String) (old : Option Decl) :
    (handOver name old d).isAlias = d.isAlias := by
  unfold handOver
  split
  · split
    · exact d.isAlias_mapHeader _
    · rfl
  · rfl

/-- A slot that takes another name takes it as it was. -/
theorem eq_aliasOf_of_handOver {d : Decl} {old : Option Decl} {hd : Header} {target : String}
    (h : handOver name old d = .aliasOf hd target) : ∃ own, d = .aliasOf own target := by
  have halias : d.isAlias = true := by
    rw [← isAlias_handOver d name old, h]
    rfl
  cases d with
  | aliasOf own t =>
      have ht : t = target := by
        unfold handOver at h
        split at h
        · split at h <;> cases h <;> rfl
        · cases h
          rfl
      exact ⟨own, by rw [ht]⟩
  | _ => cases halias

/-! ### One slot -/

theorem get?_add_self (d : Decl) :
    (m.add name d).items.get? name = some (handOver name (m.items.get? name) d) :=
  Table.get?_set_self ..

theorem get?_add_of_ne (d : Decl) (h : other ≠ name) :
    (m.add name d).items.get? other = m.items.get? other :=
  Table.get?_set_of_ne _ _ h

theorem get?_promote (name other : String) :
    (m.promote name).items.get? other =
      if other = name then (m.items.get? other).map Decl.promote else m.items.get? other := by
  cases h : m.items.get? name with
  | none =>
      rw [m.promote_eq_of_none h]
      by_cases ho : other = name
      · rw [if_pos ho, ho, h]
        rfl
      · rw [if_neg ho]
  | some d =>
      rw [m.promote_eq_of_get? h]
      by_cases ho : other = name
      · rw [if_pos ho, ho, h]
        exact Table.get?_set_self ..
      · rw [if_neg ho]
        exact Table.get?_set_of_ne _ _ ho

theorem get?_modifyMembers (name other : String) (f : Table Decl → Table Decl) :
    (m.modifyMembers name f).items.get? other =
      if other = name then (m.items.get? other).map (Decl.mapMembers f)
      else m.items.get? other := by
  rw [modifyMembers_eq]
  exact Table.get?_update ..

theorem get?_markExported (name other : String) :
    (m.markExported name).items.get? other =
      if other = name then (m.items.get? other).map (·.setExported true)
      else m.items.get? other :=
  Table.get?_update ..

theorem get?_setAggregate (d : Decl) (name : String) :
    (m.setAggregate d).items.get? name = (m.items.get? name).map (·.setExported false) :=
  Table.get?_mapEntries ..

/-! ### Marks and registrations -/

theorem markExported_memberwise (name : String) :
    m.memberwise.markExported name = (m.markExported name).memberwise := rfl

theorem add_memberwise (name : String) (d : Decl) :
    m.memberwise.add name d = (m.add name d).memberwise := rfl

theorem markExported_markExported (name : String) :
    (m.markExported name).markExported name = m.markExported name := by
  rw [markExported, markExported]
  simp only
  rw [Table.update_update]
  congr 2
  funext d
  exact d.setExported_setExported true true

theorem markExported_comm (hne : name ≠ other) :
    (m.markExported other).markExported name = (m.markExported name).markExported other := by
  rw [markExported, markExported, markExported, markExported]
  simp only
  rw [Table.update_comm _ _ _ (Ne.symm hne)]

theorem add_markExported (d : Decl) (hne : name ≠ other) :
    (m.markExported other).add name d = (m.add name d).markExported other := by
  have hget : (m.markExported other).items.get? name = m.items.get? name := by
    rw [get?_markExported, if_neg hne]
  rw [add, add, hget, markExported, markExported]
  simp only
  rw [Table.update_set_comm _ _ _ (Ne.symm hne)]

theorem add_comm (d e : Decl) (hne : name ≠ other) (h : name ∈ m.items.names) :
    (m.add other e).add name d = (m.add name d).add other e := by
  have hget : (m.add other e).items.get? name = m.items.get? name := get?_add_of_ne _ _ hne
  have hget' : (m.add name d).items.get? other = m.items.get? other :=
    get?_add_of_ne _ _ (Ne.symm hne)
  rw [add, hget, add, add, hget', add]
  simp only
  rw [Table.set_comm _ _ _ hne h]

theorem memberwise_eq_self (h : m.aggregate = none) : m.memberwise = m := by
  rw [memberwise, ← h]

theorem add_eq_self {d : Decl}
    (h : m.items.get? name = some (handOver name (m.items.get? name) d)) : m.add name d = m := by
  rw [add, Table.set_eq_self h]

/-! ### Promotion and the other operations -/

theorem promote_memberwise (name : String) :
    m.memberwise.promote name = (m.promote name).memberwise := by
  cases h : m.items.get? name with
  | none =>
      have h' : m.memberwise.items.get? name = none := h
      rw [promote_eq_of_none _ h, promote_eq_of_none _ h']
  | some d =>
      have h' : m.memberwise.items.get? name = some d := h
      rw [promote_eq_of_get? _ h, promote_eq_of_get? _ h']
      rfl

theorem promote_add {e : Decl} (d : Decl) (hne : name ≠ other)
    (h : m.items.get? name = some e) :
    (m.add other d).promote name = (m.promote name).add other d := by
  have h' : (m.add other d).items.get? name = some e := by rw [get?_add_of_ne _ _ hne, h]
  have hother : (m.promote name).items.get? other = m.items.get? other := by
    rw [get?_promote, if_neg (Ne.symm hne)]
  rw [promote_eq_of_get? _ h', add, add, hother, promote_eq_of_get? _ h]
  simp only
  rw [Table.set_comm _ _ _ hne (Table.mem_names_of_get? h)]

theorem promote_markExported (hne : name ≠ other) :
    (m.markExported other).promote name = (m.promote name).markExported other := by
  have hget : (m.markExported other).items.get? name = m.items.get? name := by
    rw [get?_markExported, if_neg hne]
  cases h : m.items.get? name with
  | none => rw [promote_eq_of_none _ h, promote_eq_of_none _ (hget.trans h)]
  | some d =>
      rw [promote_eq_of_get? _ h, promote_eq_of_get? _ (hget.trans h), markExported, markExported]
      simp only
      rw [Table.update_set_comm _ _ _ (Ne.symm hne)]

theorem promote_setAggregate (name : String) (d : Decl) :
    (m.setAggregate d).promote name = (m.promote name).setAggregate d := by
  cases h : m.items.get? name with
  | none =>
      have h' : (m.setAggregate d).items.get? name = none := by
        rw [get?_setAggregate, h]
        rfl
      rw [promote_eq_of_none _ h, promote_eq_of_none _ h']
  | some e =>
      have h' : (m.setAggregate d).items.get? name = some (e.setExported false) := by
        rw [get?_setAggregate, h]
        rfl
      rw [promote_eq_of_get? _ h, promote_eq_of_get? _ h', Decl.promote_setExported, setAggregate,
        setAggregate]
      simp only
      rw [Table.mapEntries_set]

theorem promote_modifyMembers_of_ne (f : Table Decl → Table Decl) (hne : name ≠ other) :
    (m.modifyMembers other f).promote name = (m.promote name).modifyMembers other f := by
  have hget : (m.modifyMembers other f).items.get? name = m.items.get? name := by
    rw [get?_modifyMembers, if_neg hne]
  cases h : m.items.get? name with
  | none => rw [promote_eq_of_none _ h, promote_eq_of_none _ (hget.trans h)]
  | some d =>
      rw [promote_eq_of_get? _ h, promote_eq_of_get? _ (hget.trans h), modifyMembers_eq,
        modifyMembers_eq]
      simp only
      rw [Table.update_set_comm _ _ _ (Ne.symm hne)]

theorem promote_comm (hne : name ≠ other) :
    (m.promote other).promote name = (m.promote name).promote other := by
  have hget : (m.promote other).items.get? name = m.items.get? name := by
    rw [get?_promote, if_neg hne]
  have hget' : (m.promote name).items.get? other = m.items.get? other := by
    rw [get?_promote, if_neg (Ne.symm hne)]
  cases h : m.items.get? name with
  | none => rw [promote_eq_of_none _ h, promote_eq_of_none _ (hget.trans h)]
  | some d =>
      cases h' : m.items.get? other with
      | none => rw [promote_eq_of_none _ h', promote_eq_of_none _ (hget'.trans h')]
      | some e =>
          rw [promote_eq_of_get? _ (hget.trans h), promote_eq_of_get? _ (hget'.trans h'),
            promote_eq_of_get? _ h, promote_eq_of_get? _ h']
          simp only
          rw [Table.set_comm _ _ _ hne (Table.mem_names_of_get? h)]

/-- A slot that holds its promotion is not changed by promoting it. -/
theorem promote_eq_self (h : ∀ d, m.items.get? name = some d → d.promote = d) :
    m.promote name = m := by
  cases hd : m.items.get? name with
  | none => exact promote_eq_of_none _ hd
  | some d =>
      rw [promote_eq_of_get? _ hd, h d hd, Table.set_eq_self hd]

@[simp]
theorem names_promote (name : String) : (m.promote name).items.names = m.items.names := by
  cases hd : m.items.get? name with
  | none => rw [promote_eq_of_none m hd]
  | some d =>
      rw [promote_eq_of_get? m hd, Table.names_set, if_pos (Table.mem_names_of_get? hd)]

/-- Promoting changes nothing but the items. -/
theorem promote_eq_with_items (name : String) :
    m.promote name = { m with items := (m.promote name).items } := by
  rw [promote]
  split
  · rfl
  · rfl

theorem description_promote (name : String) : (m.promote name).description = m.description := by
  rw [promote_eq_with_items]

/-! ### Extending a class -/

/-- The class under a name, a function counted as one, with its members changed. -/
def extend (m : Module) (name : String) (f : Table Decl → Table Decl) : Module :=
  if m.hasConstructor name then (m.promote name).modifyMembers name f else m

theorem exists_get?_of_hasConstructor (h : m.hasConstructor name = true) :
    ∃ d, m.items.get? name = some d := by
  rw [hasConstructor_eq] at h
  cases hd : m.items.get? name with
  | none =>
      rw [hd] at h
      cases h
  | some d => exact ⟨d, rfl⟩

theorem promote_of_not_hasConstructor (h : ¬ m.hasConstructor name = true) :
    m.promote name = m := by
  refine promote_eq_self _ fun d hd => ?_
  rw [hasConstructor_eq, hd] at h
  cases d with
  | function fn => exact (h rfl).elim
  | _ => rfl

theorem extend_of_hasConstructor (f : Table Decl → Table Decl)
    (h : m.hasConstructor name = true) :
    m.extend name f = (m.promote name).modifyMembers name f :=
  if_pos h

theorem extend_of_not_hasConstructor (f : Table Decl → Table Decl)
    (h : ¬ m.hasConstructor name = true) : m.extend name f = m :=
  if_neg h

theorem get?_extend (name other : String) (f : Table Decl → Table Decl) :
    (m.extend name f).items.get? other =
      if other = name ∧ m.hasConstructor name = true then
        (m.items.get? other).map fun d => d.promote.mapMembers f
      else m.items.get? other := by
  by_cases h : m.hasConstructor name = true
  · rw [extend_of_hasConstructor _ _ h, get?_modifyMembers, get?_promote]
    by_cases ho : other = name
    · simp only [ho, h, and_self, if_true, Option.map_map]
      rfl
    · simp only [ho, false_and, if_false]
  · rw [extend_of_not_hasConstructor _ _ h, if_neg fun hc => h hc.2]

@[simp]
theorem hasConstructor_memberwise (name : String) :
    m.memberwise.hasConstructor name = m.hasConstructor name :=
  rfl

theorem hasConstructor_add_of_ne (d : Decl) (h : other ≠ name) :
    (m.add name d).hasConstructor other = m.hasConstructor other := by
  rw [hasConstructor_eq, hasConstructor_eq, get?_add_of_ne _ _ h]

@[simp]
theorem hasConstructor_markExported (name other : String) :
    (m.markExported name).hasConstructor other = m.hasConstructor other := by
  rw [hasConstructor_eq, hasConstructor_eq, get?_markExported]
  cases m.items.get? other <;> split <;> simp

@[simp]
theorem hasConstructor_setAggregate (d : Decl) (name : String) :
    (m.setAggregate d).hasConstructor name = m.hasConstructor name := by
  rw [hasConstructor_eq, hasConstructor_eq, get?_setAggregate]
  cases m.items.get? name <;> simp

@[simp]
theorem hasConstructor_promote (name other : String) :
    (m.promote name).hasConstructor other = m.hasConstructor other := by
  rw [hasConstructor_eq, hasConstructor_eq, get?_promote]
  cases m.items.get? other <;> split <;> simp

@[simp]
theorem hasConstructor_modifyMembers (name other : String) (f : Table Decl → Table Decl) :
    (m.modifyMembers name f).hasConstructor other = m.hasConstructor other := by
  rw [hasConstructor_eq, hasConstructor_eq, get?_modifyMembers]
  cases m.items.get? other <;> split <;> simp

@[simp]
theorem hasConstructor_extend (name other : String) (f : Table Decl → Table Decl) :
    (m.extend name f).hasConstructor other = m.hasConstructor other := by
  rw [hasConstructor_eq, hasConstructor_eq, get?_extend]
  cases m.items.get? other <;> split <;> simp

theorem extend_memberwise (name : String) (f : Table Decl → Table Decl) :
    m.memberwise.extend name f = (m.extend name f).memberwise := by
  rw [extend, extend, hasConstructor_memberwise, promote_memberwise]
  split <;> rfl

theorem extend_setAggregate (name : String) (f : Table Decl → Table Decl) (d : Decl) :
    (m.setAggregate d).extend name f = (m.extend name f).setAggregate d := by
  rw [extend, extend, hasConstructor_setAggregate, promote_setAggregate]
  split
  · have hcomm := Table.mapEntries_update (m.promote name).items (·.setExported false)
      (Decl.mapMembers f) name (Decl.mapMembers_setExported f false)
    rw [modifyMembers_eq, modifyMembers_eq, setAggregate, setAggregate]
    simp only
    rw [hcomm]
  · rfl

theorem extend_add (f : Table Decl → Table Decl) (d : Decl) (hne : name ≠ other) :
    (m.add other d).extend name f = (m.extend name f).add other d := by
  rw [extend, extend, hasConstructor_add_of_ne _ _ hne]
  split
  · rename_i h
    obtain ⟨e, he⟩ := m.exists_get?_of_hasConstructor h
    have hget : ((m.promote name).modifyMembers name f).items.get? other =
        (m.promote name).items.get? other := by
      rw [get?_modifyMembers, if_neg (Ne.symm hne)]
    rw [promote_add _ _ hne he, add, add, hget, modifyMembers_eq, modifyMembers_eq]
    simp only
    rw [Table.update_set_comm _ _ _ hne]
  · rfl

theorem extend_markExported (f : Table Decl → Table Decl) (hne : name ≠ other) :
    (m.markExported other).extend name f = (m.extend name f).markExported other := by
  rw [extend, extend, hasConstructor_markExported, promote_markExported _ hne]
  split
  · rw [modifyMembers_eq, modifyMembers_eq, markExported, markExported]
    simp only
    rw [Table.update_comm _ _ _ (Ne.symm hne)]
  · rfl

theorem promote_extend_of_ne (f : Table Decl → Table Decl) (hne : name ≠ other) :
    (m.extend other f).promote name = (m.promote name).extend other f := by
  rw [extend, extend, hasConstructor_promote]
  split
  · rw [promote_modifyMembers_of_ne _ _ hne, promote_comm _ hne]
  · rfl

theorem modifyMembers_extend_of_ne (f g : Table Decl → Table Decl) (hne : name ≠ other) :
    (m.extend other g).modifyMembers name f = (m.modifyMembers name f).extend other g := by
  rw [extend, extend, hasConstructor_modifyMembers, promote_modifyMembers_of_ne _ _ (Ne.symm hne)]
  split
  · rw [modifyMembers_eq, modifyMembers_eq, modifyMembers_eq, modifyMembers_eq]
    simp only
    rw [Table.update_comm _ _ _ (Ne.symm hne)]
  · rfl

theorem extend_extend_of_ne (f g : Table Decl → Table Decl) (hne : name ≠ other) :
    (m.extend other g).extend name f = (m.extend name f).extend other g := by
  by_cases h : m.hasConstructor name = true
  · have h' : (m.extend other g).hasConstructor name = true := by
      rw [hasConstructor_extend, h]
    rw [extend_of_hasConstructor _ _ h, extend_of_hasConstructor _ _ h',
      promote_extend_of_ne _ _ hne, modifyMembers_extend_of_ne _ _ _ hne]
  · have h' : ¬ (m.extend other g).hasConstructor name = true := by
      rw [hasConstructor_extend]
      exact h
    rw [extend_of_not_hasConstructor _ _ h, extend_of_not_hasConstructor _ _ h']

@[simp]
theorem names_extend (name : String) (f : Table Decl → Table Decl) :
    (m.extend name f).items.names = m.items.names := by
  rw [extend]
  split
  · rw [modifyMembers_eq, Table.names_update, names_promote]
  · rfl

/-- Extending a class changes nothing but the items. -/
theorem extend_eq_with_items (name : String) (f : Table Decl → Table Decl) :
    m.extend name f = { m with items := (m.extend name f).items } := by
  rw [extend]
  split
  · rw [modifyMembers_eq, promote_eq_with_items]
  · rfl

/-- Extending a class that was promoted already. -/
theorem extend_promote (name : String) (f : Table Decl → Table Decl) :
    (m.promote name).extend name f = m.extend name f := by
  have hself : (m.promote name).promote name = m.promote name := by
    refine promote_eq_self _ fun d hd => ?_
    rw [get?_promote, if_pos rfl] at hd
    obtain ⟨e, _, rfl⟩ := Option.map_eq_some_iff.1 hd
    exact e.promote_promote
  rw [extend, extend, hasConstructor_promote, hself]
  split
  · rfl
  · rename_i h
    exact m.promote_of_not_hasConstructor h

/-- An extended class is a class. -/
theorem promote_extend (name : String) (f : Table Decl → Table Decl) :
    (m.extend name f).promote name = m.extend name f := by
  refine promote_eq_self _ fun d hd => ?_
  rw [get?_extend] at hd
  split at hd
  · obtain ⟨e, _, rfl⟩ := Option.map_eq_some_iff.1 hd
    exact e.promote_mapMembers f
  · rename_i h
    rw [hasConstructor_eq, hd] at h
    cases d <;> first | rfl | exact (h ⟨rfl, rfl⟩).elim

/-- Extending a class twice is extending it by both changes. -/
theorem extend_extend (name : String) (f g : Table Decl → Table Decl) :
    (m.extend name f).extend name g = m.extend name (g ∘ f) := by
  by_cases h : m.hasConstructor name = true
  · have h' : (m.extend name f).hasConstructor name = true := by
      rw [hasConstructor_extend, h]
    rw [extend_of_hasConstructor _ _ h', promote_extend, extend_of_hasConstructor _ _ h,
      extend_of_hasConstructor _ _ h, modifyMembers_eq, modifyMembers_eq, modifyMembers_eq]
    simp only
    rw [Table.update_update]
    congr 2
    funext d
    exact d.mapMembers_mapMembers f g
  · have h' : ¬ (m.extend name f).hasConstructor name = true := by
      rw [hasConstructor_extend]
      exact h
    rw [extend_of_not_hasConstructor _ _ h', extend_of_not_hasConstructor _ _ h,
      extend_of_not_hasConstructor _ _ h]

end Module

end Ambient
