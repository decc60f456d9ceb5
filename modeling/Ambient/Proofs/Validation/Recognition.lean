import Ambient.Proofs.Occurrence
import Ambient.Validation

/-!
# Recognised types after validation

A declaration is recognised against a list of type names and a list of item names when every type
it exposes is among the former, its base class is among them or dotted, and what it is an alias of
is among the latter.  The main statement is that everything in a validated module is recognised,
at every depth, against the very types that the module recognised before validation.

The walk over a declaration is not repeated here.  `Validation.settle` commutes with going to a
member, so an induction over `Decl.Holds` reduces everything to one declaration without its
members, and likewise for a type and its arguments.
-/

namespace Ambient

namespace TypeRef

theorem settleAll_eq_map (known : List String) (ts : List TypeRef) :
    settleAll known ts = ts.map (settle known) := by
  induction ts with
  | nil => rfl
  | cons t ts ih => rw [settleAll, ih, List.map_cons]

theorem settle_of_scope (known : List String) {t : TypeRef} (h : t.scope ≠ none) :
    settle known t = t := by
  obtain ⟨scope, name, args⟩ := t
  cases scope with
  | none => exact absurd rfl h
  | some s => rfl

theorem settle_of_mem {known : List String} {t : TypeRef} (hs : t.scope = none)
    (hn : t.name ∈ known) :
    settle known t = ⟨none, t.name, t.args.map (settle known)⟩ := by
  obtain ⟨scope, name, args⟩ := t
  cases hs
  have hc : known.contains name = true := List.contains_iff_mem.2 hn
  rw [settle, if_pos hc, settleAll_eq_map]

theorem settle_of_not_mem {known : List String} {t : TypeRef} (hs : t.scope = none)
    (hn : t.name ∉ known) : settle known t = any := by
  obtain ⟨scope, name, args⟩ := t
  cases hs
  have hc : ¬ known.contains name = true := fun h => hn (List.contains_iff_mem.1 h)
  rw [settle, if_neg hc]

/-- A settled reference without a namespace has a recognised name, since `any` is recognised. -/
theorem name_mem_of_settle {known : List String} (hany : "any" ∈ known) (t : TypeRef)
    (hs : (settle known t).scope = none) : (settle known t).name ∈ known := by
  by_cases hscope : t.scope = none
  · by_cases hn : t.name ∈ known
    · rw [settle_of_mem hscope hn]
      exact hn
    · rw [settle_of_not_mem hscope hn]
      exact hany
  · rw [settle_of_scope known hscope] at hs
    exact absurd hs hscope

/-- An argument of a settled reference without a namespace is itself settled. -/
theorem exists_settle_of_mem_args {known : List String} {t a : TypeRef}
    (hs : (settle known t).scope = none) (ha : a ∈ (settle known t).args) :
    ∃ b, a = settle known b := by
  by_cases hscope : t.scope = none
  · by_cases hn : t.name ∈ known
    · rw [settle_of_mem hscope hn] at ha
      obtain ⟨b, _, hb⟩ := List.mem_map.1 ha
      exact ⟨b, hb.symm⟩
    · rw [settle_of_not_mem hscope hn] at ha
      cases ha
  · rw [settle_of_scope known hscope] at hs
    exact absurd hs hscope

theorem name_mem_of_exposed_settle {known : List String} (hany : "any" ∈ known) {t u : TypeRef}
    (h : (settle known t).Exposed u) (hu : u.scope = none) : u.name ∈ known := by
  generalize ht : settle known t = s at h
  induction h generalizing t with
  | here s =>
      subst ht
      exact name_mem_of_settle hany t hu
  | arg hscope ha _ ih =>
      subst ht
      obtain ⟨b, rfl⟩ := exists_settle_of_mem_args hscope ha
      exact ih hu rfl

end TypeRef

/-- A declaration fits a list of type names and a list of item names.  Only what the declaration
says itself counts; its members are declarations of their own. -/
structure Decl.Recognised (known items : List String) (d : Decl) : Prop where
  types : ∀ t ∈ d.ownTypes, ∀ u, t.Exposed u → u.scope = none → u.name ∈ known
  base : ∀ b, d.base? = some b → b ∈ known ∨ '.' ∈ b.toList
  target : ∀ t, d.target? = some t → t ∈ items

namespace Validation

theorem settleTable_eq_map (s : Scope) (ms : Table Decl) :
    settleTable s ms = ms.map fun e => (e.1, settle s e.2) := by
  induction ms with
  | nil => rfl
  | cons e ms ih => rw [settleTable, ih, List.map_cons]

/-- Settling a declaration settles its members. -/
theorem members_settle (s : Scope) (d : Decl) :
    (settle s d).members = d.members.map fun e => (e.1, settle s e.2) := by
  cases d with
  | classDef h c ms b => exact settleTable_eq_map s ms
  | object h ms => exact settleTable_eq_map s ms
  | aliasOf h t =>
      rw [settle]
      split <;> rfl
  | _ => rfl

theorem types_settleCallable (s : Scope) (fn : Callable) :
    (settleCallable s fn).types = fn.types.map (TypeRef.settle s.known) := by
  simp only [Callable.types, settleCallable, TypeRef.settleAll_eq_map, List.map_append,
    List.map_flatMap, List.flatMap_map]

/-- The types of a settled declaration are the types it had before, each settled. -/
theorem ownTypes_settle (s : Scope) (d : Decl) :
    (settle s d).ownTypes = d.ownTypes.map (TypeRef.settle s.known) := by
  cases d with
  | binding h ts k => exact TypeRef.settleAll_eq_map s.known ts
  | typedef h ts => exact TypeRef.settleAll_eq_map s.known ts
  | function fn => exact types_settleCallable s fn
  | classDef h c ms b =>
      cases c with
      | none => rfl
      | some fn =>
          simp only [settle, Decl.ownTypes, Option.map_some, Option.toList_some,
            List.flatMap_singleton, types_settleCallable]
  | aliasOf h t =>
      rw [settle]
      split <;> rfl
  | _ => rfl

theorem base?_settle (s : Scope) (d : Decl) :
    (settle s d).base? = d.base?.filter (baseStands s) := by
  cases d with
  | aliasOf h t =>
      rw [settle]
      split <;> rfl
  | _ => rfl

theorem target?_settle (s : Scope) (d : Decl) :
    (settle s d).target? = d.target?.filter (s.items.contains ·) := by
  cases d with
  | aliasOf h t =>
      by_cases ht : s.items.contains t = true
      · rw [settle, if_pos ht]
        exact (Option.filter_some_pos ht).symm
      · rw [settle, if_neg ht]
        exact (Option.filter_some_eq_none.2 ht).symm
  | _ => rfl

/-- A settled declaration is recognised, its members aside. -/
theorem recognised_settle {s : Scope} (hany : "any" ∈ s.known) (d : Decl) :
    (settle s d).Recognised s.known s.items := by
  refine ⟨?_, ?_, ?_⟩
  · intro t ht u hu hscope
    rw [ownTypes_settle] at ht
    obtain ⟨v, _, rfl⟩ := List.mem_map.1 ht
    exact TypeRef.name_mem_of_exposed_settle hany hu hscope
  · intro b hb
    rw [base?_settle, Option.filter_eq_some_iff] at hb
    have hstands := hb.2
    simp only [baseStands, Bool.or_eq_true, List.contains_iff_mem] at hstands
    exact hstands
  · intro t ht
    rw [target?_settle, Option.filter_eq_some_iff] at ht
    exact List.contains_iff_mem.1 ht.2

/-- Everything a settled declaration holds is recognised.  The induction goes down the members:
each of them is settled as well. -/
theorem recognised_of_holds_settle {s : Scope} (hany : "any" ∈ s.known) {d e : Decl}
    (h : (settle s d).Holds e) : e.Recognised s.known s.items := by
  generalize hd : settle s d = f at h
  induction h generalizing d with
  | self f =>
      subst hd
      exact recognised_settle hany d
  | member he _ ih =>
      subst hd
      rw [members_settle] at he
      obtain ⟨⟨name, g⟩, _, hg⟩ := List.mem_map.1 he
      cases hg
      exact ih rfl

/-- An item is settled like any other declaration, or it is a constant without a value. -/
theorem settleItem_eq (s : Scope) (name : String) (d : Decl) :
    settleItem s name d = settle s d ∨
      ∃ h t, settleItem s name d = placeholder h t := by
  cases d with
  | aliasOf h t =>
      by_cases ht : t = name
      · exact .inr ⟨h, t, if_pos ht⟩
      · exact .inl (if_neg ht)
  | _ => exact .inl rfl

theorem recognised_of_holds_settleItem {s : Scope} (hany : "any" ∈ s.known) {name : String}
    {d e : Decl} (h : (settleItem s name d).Holds e) : e.Recognised s.known s.items := by
  rcases settleItem_eq s name d with hd | ⟨g, t, hd⟩
  · rw [hd] at h
    exact recognised_of_holds_settle hany h
  · -- The constant that takes the place of an alias is what settling leaves of it as well.
    have hconst : placeholder g t = settle s (placeholder g t) := rfl
    rw [hd, hconst] at h
    exact recognised_of_holds_settle hany h

/-- An item that is still an alias after validation was one before, and not of itself. -/
theorem target_ne_of_settleItem {s : Scope} {name target : String} {d : Decl} {h : Header}
    (hd : settleItem s name d = .aliasOf h target) : target ≠ name := by
  cases d with
  | aliasOf g t =>
      by_cases ht : t = name
      · rw [settleItem, if_pos ht] at hd
        cases hd
      · rw [settleItem, if_neg ht, settle] at hd
        split at hd
        · cases hd
          exact ht
        · cases hd
  | _ => cases hd

/-- Settling keeps types types: neither a class nor a typedef changes its kind, and what takes the
place of an alias is no type. -/
theorem isType_settleItem (s : Scope) (name : String) (d : Decl) :
    (settleItem s name d).isType = d.isType := by
  cases d with
  | aliasOf h t =>
      rw [settleItem, settle]
      split
      · rfl
      · split <;> rfl
  | _ => rfl

end Validation

namespace Module

theorem any_mem_knownTypes (m : Module) (extra : List String) : "any" ∈ m.knownTypes extra := by
  have h : "any" ∈ TypeRef.builtins := by decide
  rw [knownTypes, List.append_assoc]
  exact List.mem_append_left _ h

@[simp] theorem names_items_validate (m : Module) (extra : List String) :
    (m.validate extra).items.names = m.items.names := by
  simp [validate, Table.names, Function.comp_def]

theorem knownTypes_validate (m : Module) (extra : List String) :
    (m.validate extra).knownTypes extra = m.knownTypes extra := by
  have hfilter : ((m.validate extra).items.filter (·.2.isType)).map Prod.fst =
      (m.items.filter (·.2.isType)).map Prod.fst := by
    simp only [validate, List.filter_map, List.map_map, Function.comp_def,
      Validation.isType_settleItem]
  rw [knownTypes, knownTypes, hfilter]

theorem recognised_of_declares_validate (m : Module) (extra : List String) {d : Decl}
    (h : (m.validate extra).Declares d) : d.Recognised (m.knownTypes extra) m.items.names := by
  have hany : "any" ∈ (m.scope extra).known := any_mem_knownTypes m extra
  rcases h with ⟨e, he, hd⟩ | ⟨a, ha, hd⟩
  · obtain ⟨f, _, rfl⟩ := List.mem_map.1 he
    exact Validation.recognised_of_holds_settleItem hany hd
  · obtain ⟨b, _, rfl⟩ := Option.map_eq_some_iff.1 ha
    exact Validation.recognised_of_holds_settle hany hd

/-- **Validation leaves nothing unrecognised.**  It keeps the recognised types; everything in the
module, at any depth, is recognised against them and against the names of the items; and no item is
an alias of itself. -/
theorem validate_recognised (m : Module) (extra : List String) :
    (m.validate extra).knownTypes extra = m.knownTypes extra ∧
      (∀ d, (m.validate extra).Declares d →
        d.Recognised (m.knownTypes extra) (m.validate extra).items.names) ∧
      ∀ name h target, (name, Decl.aliasOf h target) ∈ (m.validate extra).items →
        target ≠ name := by
  refine ⟨knownTypes_validate m extra, ?_, ?_⟩
  · intro d hd
    rw [names_items_validate]
    exact recognised_of_declares_validate m extra hd
  · intro name h target hmem
    obtain ⟨e, _, he⟩ := List.mem_map.1 hmem
    obtain ⟨rfl, hd⟩ := Prod.mk.inj he
    exact Validation.target_ne_of_settleItem hd

end Module

end Ambient
