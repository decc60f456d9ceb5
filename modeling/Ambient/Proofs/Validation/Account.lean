import Ambient.Proofs.Validation.Downgrade
import Mathlib.Data.List.Forall2

/-!
# Every change of validation is accounted for

Every declaration of a module has an address: which root of the module, which part of it, which part
of that.  Validation keeps the addresses.  What stands at one of them afterwards is what stood there
before, revised: an alias that leads nowhere is replaced by a constant without a value, and anything
else keeps its frame and changes in its types and its base class only, with one diagnostic for each
change after the diagnostics it had.  The notices of the run tell the same changes once more, over
the whole module from left to right.
-/

namespace Ambient

open Position Validation

/-- Types of a declaration that are reported in one wording. -/
structure TypeSlot where
  message : String → String
  types : List TypeRef

/-- The name of an unrecognised type and the diagnostic that reports it. -/
structure Complaint where
  name : String
  message : String

namespace Decl

/-- The types that a declaration owns, slot by slot.  A class owns none: its constructor is a part of
it, like a member. -/
def slots : Decl → List TypeSlot
  | binding _ ts _ => [⟨typeMessage, ts⟩]
  | typedef _ ts => [⟨typeMessage, ts⟩]
  | function fn =>
    fn.params.map (fun p => ⟨paramMessage p.name, p.types⟩) ++ [⟨resultMessage, fn.result⟩]
  | _ => []

/-- The declarations right inside a declaration: the constructor of a class, then the members. -/
def parts : Decl → List Decl
  | classDef _ c ms _ => c.toList.map function ++ ms.map Prod.snd
  | object _ ms => ms.map Prod.snd
  | _ => []

/-- The declaration with blanks for what validation may write: types, diagnostics, the base of a
class, and what stands inside its parts. -/
def frame : Decl → Decl
  | binding h _ k => binding { h with diagnostics := [] } [] k
  | constant h v => constant { h with diagnostics := [] } v
  | imported h p n => imported { h with diagnostics := [] } p n
  | function fn =>
    function
      { header := { fn.header with diagnostics := [] }
        params := fn.params.map fun p => { p with types := [] }
        result := []
        isStatic := fn.isStatic }
  | classDef h c ms _ =>
    classDef { h with diagnostics := [] } (c.map fun _ => {}) (ms.map fun e => (e.1, default)) none
  | object h ms => object { h with diagnostics := [] } (ms.map fun e => (e.1, default))
  | aliasOf h t => aliasOf { h with diagnostics := [] } t
  | typedef h _ => typedef { h with diagnostics := [] } []

/-- The declaration owns an outermost unrecognised type: the position is that of the slot and then
of the type in it. -/
def Misses (known : List String) (d : Decl) : List Nat → Complaint → Prop :=
  Among (fun slot p c => TypeRef.MissingIn known slot.types p c.name ∧
    c.message = slot.message c.name) d.slots

/-- The base of a class that is neither recognised nor dotted. -/
def lostBase? (known : List String) (d : Decl) : Option String :=
  d.base?.filter fun b => !(known.contains b || b.toList.contains '.')

/-- What validation makes of a declaration that is no alias leading nowhere, its parts aside. -/
structure Amended (known : List String) (d d' : Decl) : Prop where
  frame : d'.frame = d.frame
  types : List.Forall₂ (fun slot slot' => TypeRef.Downgraded known slot.types slot'.types)
    d.slots d'.slots
  base : d'.base? = if (d.lostBase? known).isSome then none else d.base?
  diagnostics : ∃ found, Enumerates (d.Misses known) found ∧
    d'.header.diagnostics = d.header.diagnostics ++
      (d.lostBase? known).toList.map baseMessage ++ found.map (·.2.message)

/-- What validation makes of a declaration, its parts aside; `own` is the name of an item. -/
inductive Revised (s : Scope) (own : Option String) : Decl → Decl → Prop where
  /-- An alias of nothing, or an item that is an alias of itself. -/
  | replaced (h : Header) (t : String) (hlost : t ∉ s.items ∨ own = some t) :
      Revised s own (aliasOf h t)
        (constant { h with diagnostics := h.diagnostics ++ [aliasMessage t] } none)
  | amended {d d' : Decl} (hstands : ∀ t, d.target? = some t → t ∈ s.items ∧ own ≠ some t)
      (h : d.Amended s.known d') : Revised s own d d'

end Decl

namespace Module

/-- The declarations that stand in no other: the items, then what the module is exported as. -/
def roots (m : Module) : List Decl :=
  m.items.map Prod.snd ++ m.aggregate.toList

/-- The declaration at an address. -/
def at? (m : Module) : List Nat → Option Decl
  | [] => none
  | i :: a => m.roots[i]?.bind fun d => descend Decl.parts d a

/-- The name of the item at an address. -/
def itemName? (m : Module) : List Nat → Option String
  | [i] => m.items[i]?.map Prod.fst
  | _ => none

/-- A declaration of the module owns an outermost unrecognised type: the path is the address of the
declaration and then the position in it. -/
def Misses (known : List String) (m : Module) (path : List Nat) (c : Complaint) : Prop :=
  ∃ a p d, path = a ++ p ∧ m.at? a = some d ∧ d.Misses known p c

end Module

/-- The type that a notice reports as replaced. -/
def Notice.downgraded? : Notice → Option String
  | .typeDowngraded name => some name
  | _ => none

@[simp]
theorem Notice.downgraded?_typeDowngraded (name : String) :
    (Notice.typeDowngraded name).downgraded? = some name := rfl

/-! ### One declaration -/

namespace Decl

variable (known : List String)

/-- What a declaration reports about the types it owns. -/
def complaints (d : Decl) : List Complaint :=
  d.slots.flatMap fun slot =>
    (TypeRef.unknownAll known slot.types).map fun name => ⟨name, slot.message name⟩

theorem exists_enumerates_misses (d : Decl) :
    ∃ found, Enumerates (d.Misses known) found ∧ found.map Prod.snd = d.complaints known := by
  refine exists_enumerates_among (g := id) fun slot _ => ?_
  obtain ⟨found, hfound, hnames⟩ := TypeRef.exists_enumerates_missingIn known slot.types
  refine ⟨found.map fun o => (o.1, ⟨o.2, slot.message o.2⟩), ⟨?_, ?_⟩, ?_⟩
  · exact List.pairwise_map.2 hfound.ordered
  · intro p c
    constructor
    · intro hm
      obtain ⟨⟨q, name⟩, ho, hc⟩ := List.mem_map.1 hm
      cases hc
      exact ⟨(hfound.exact q name).1 ho, rfl⟩
    · rintro ⟨hmissing, hmessage⟩
      refine List.mem_map.2 ⟨(p, c.name), (hfound.exact p c.name).2 hmissing, ?_⟩
      rw [← hmessage]
  · rw [← hnames, List.map_map, List.map_map]
    rfl

end Decl

namespace Validation

theorem frame_settle (s : Scope) (d : Decl) (hd : d.target? = none) :
    (settle s d).frame = d.frame := by
  cases d with
  | function fn => simp [settle, settleCallable, Decl.frame]
  | classDef h c ms b =>
      rw [settle, settleTable_eq_map]
      simp only [Decl.frame, Option.map_map, List.map_map, Function.comp_def]
      cases b with
      | none => rfl
      | some b =>
          rw [classHeader]
          split <;> rfl
  | object h ms =>
      rw [settle, settleTable_eq_map]
      simp only [Decl.frame, List.map_map, Function.comp_def]
  | aliasOf h t => cases hd
  | _ => rfl

theorem slots_settle (s : Scope) (d : Decl) :
    List.Forall₂ (fun slot slot' => TypeRef.Downgraded s.known slot.types slot'.types)
      d.slots (settle s d).slots := by
  cases d with
  | binding h ts k => exact .cons (TypeRef.downgraded_settleAll s.known ts) .nil
  | typedef h ts => exact .cons (TypeRef.downgraded_settleAll s.known ts) .nil
  | function fn =>
      simp only [settle, Decl.slots, settleCallable, List.map_map]
      refine List.rel_append ?_ (.cons (TypeRef.downgraded_settleAll s.known fn.result) .nil)
      refine List.forall₂_map_left_iff.2 (List.forall₂_map_right_iff.2 (List.forall₂_same.2 ?_))
      intro p _
      exact TypeRef.downgraded_settleAll s.known p.types
  | aliasOf h t =>
      rw [settle]
      split <;> exact .nil
  | _ => exact .nil

theorem lostBase?_eq_some_iff (s : Scope) (d : Decl) (b : String) :
    d.lostBase? s.known = some b ↔ d.base? = some b ∧ baseStands s b = false := by
  rw [Decl.lostBase?, Option.filter_eq_some_iff]
  simp only [baseStands, Bool.not_eq_true']

theorem base?_settle_eq_ite (s : Scope) (d : Decl) :
    (settle s d).base? = if (d.lostBase? s.known).isSome then none else d.base? := by
  rw [base?_settle]
  cases hb : d.base? with
  | none => rw [Decl.lostBase?, hb]; rfl
  | some b =>
      cases hstands : baseStands s b with
      | false =>
          rw [(lostBase?_eq_some_iff s d b).2 ⟨hb, hstands⟩]
          simp [hstands]
      | true =>
          have hnone : d.lostBase? s.known = none := by
            refine Option.eq_none_iff_forall_ne_some.2 fun b' hb' => ?_
            obtain ⟨hbase, hfalse⟩ := (lostBase?_eq_some_iff s d b').1 hb'
            cases hb.symm.trans hbase
            exact Bool.false_ne_true (hfalse.symm.trans hstands)
          rw [hnone]
          simp [hstands]

theorem messages_complaints (s : Scope) (fn : Callable) :
    ((Decl.function fn).complaints s.known).map Complaint.message = messagesOf s fn := by
  simp only [Decl.complaints, Decl.slots, messagesOf, List.flatMap_append, List.flatMap_map,
    List.map_append, List.map_flatMap, List.map_map, List.flatMap_singleton]
  rfl

theorem diagnostics_classHeader (s : Scope) (h : Header) (c : Option Callable) (ms : Table Decl)
    (b : Option String) :
    (classHeader s h b).diagnostics = h.diagnostics ++
      ((Decl.classDef h c ms b).lostBase? s.known).toList.map baseMessage := by
  cases b with
  | none => exact (List.append_nil _).symm
  | some b =>
      rw [classHeader, Decl.lostBase?, Decl.base?, Option.filter_some]
      change _ = _ ++ List.map _ (if (!baseStands s b) = true then some b else none).toList
      cases baseStands s b with
      | false => rfl
      | true => exact (List.append_nil _).symm

/-- The diagnostics of a settled declaration are its old ones and those of what it lost. -/
theorem diagnostics_settle (s : Scope) (d : Decl) (hd : d.target? = none) :
    (settle s d).header.diagnostics = d.header.diagnostics ++
      (d.lostBase? s.known).toList.map baseMessage ++
        (d.complaints s.known).map Complaint.message := by
  cases d with
  | function fn =>
      rw [messages_complaints]
      simp [settle, settleCallable, Decl.header, Decl.lostBase?, Decl.base?]
  | classDef h c ms b =>
      have hbase := diagnostics_classHeader s h c ms b
      simpa [settle, Decl.header, Decl.complaints, Decl.slots] using hbase
  | aliasOf h t => cases hd
  | _ =>
      simp [settle, Decl.header, Header.warnEach, Decl.complaints, Decl.slots, Decl.lostBase?,
        Decl.base?, Function.comp_def]

/-- A declaration that is no alias is amended. -/
theorem amended_settle (s : Scope) (d : Decl) (hd : d.target? = none) :
    d.Amended s.known (settle s d) := by
  obtain ⟨found, hfound, hcomplaints⟩ := d.exists_enumerates_misses s.known
  refine ⟨frame_settle s d hd, slots_settle s d, base?_settle_eq_ite s d, found, hfound, ?_⟩
  rw [diagnostics_settle s d hd, ← hcomplaints, List.map_map]
  rfl

theorem amended_aliasOf (known : List String) (h : Header) (t : String) :
    (Decl.aliasOf h t).Amended known (.aliasOf h t) := by
  obtain ⟨found, hfound, hcomplaints⟩ := (Decl.aliasOf h t).exists_enumerates_misses known
  refine ⟨rfl, .nil, rfl, found, hfound, ?_⟩
  have hnil : found = [] := List.map_eq_nil_iff.1 hcomplaints
  rw [hnil]
  exact ((List.append_nil _).trans (List.append_nil _)).symm

/-- A declaration that is not an alias of its own name is revised by settling it. -/
theorem revised_settle (s : Scope) {own : Option String} (d : Decl)
    (hown : ∀ t, d.target? = some t → own ≠ some t) : d.Revised s own (settle s d) := by
  cases hd : d.target? with
  | none =>
      refine .amended (fun t ht => ?_) (amended_settle s d hd)
      cases hd.symm.trans ht
  | some t =>
      cases d with
      | aliasOf h u =>
          cases hd
          by_cases ht : t ∈ s.items
          · rw [settle, if_pos (List.contains_iff_mem.2 ht)]
            refine .amended (fun u hu => ?_) (amended_aliasOf s.known h t)
            cases hu
            exact ⟨ht, hown t rfl⟩
          · rw [settle, if_neg fun h => ht (List.contains_iff_mem.1 h)]
            exact .replaced h t (.inl ht)
      | _ => cases hd

theorem revised_settleItem (s : Scope) (name : String) (d : Decl) :
    d.Revised s (some name) (settleItem s name d) := by
  cases d with
  | aliasOf h t =>
      by_cases ht : t = name
      · rw [settleItem, if_pos ht]
        exact .replaced h t (.inr (congrArg some ht.symm))
      · rw [settleItem, if_neg ht]
        refine revised_settle s _ fun u hu hname => ?_
        cases hu
        exact ht (Option.some.inj hname).symm
  | _ =>
      refine revised_settle s _ fun t ht => ?_
      cases ht

/-! ### Addresses -/

theorem parts_settle (s : Scope) (d : Decl) : (settle s d).parts = d.parts.map (settle s) := by
  cases d with
  | classDef h c ms b =>
      rw [settle, settleTable_eq_map]
      cases c <;> simp [Decl.parts, settle]
  | object h ms =>
      rw [settle, settleTable_eq_map]
      simp [Decl.parts]
  | aliasOf h t =>
      rw [settle]
      split <;> rfl
  | _ => rfl

theorem descend_settle (s : Scope) (d : Decl) (a : List Nat) :
    descend Decl.parts (settle s d) a = (descend Decl.parts d a).map (settle s) := by
  induction a generalizing d with
  | nil => rfl
  | cons i a ih =>
      rw [descend_cons, descend_cons, parts_settle, List.getElem?_map, Option.bind_map,
        Option.map_bind]
      refine Option.bind_congr fun e _ => ?_
      exact ih e

/-- Below an item it makes no difference that it is one. -/
theorem descend_settleItem_cons (s : Scope) (name : String) (d : Decl) (i : Nat) (a : List Nat) :
    descend Decl.parts (settleItem s name d) (i :: a) =
      descend Decl.parts (settle s d) (i :: a) := by
  have hparts : (settleItem s name d).parts = (settle s d).parts := by
    cases d with
    | aliasOf h t =>
        rw [settleItem, settle]
        split
        · split <;> rfl
        · rfl
    | _ => rfl
  rw [descend_cons, descend_cons, hparts]

end Validation

namespace Module

variable (m : Module) (extra : List String)

theorem roots_validate :
    (m.validate extra).roots =
      m.items.map (fun e => settleItem (m.scope extra) e.1 e.2) ++
        m.aggregate.toList.map (settle (m.scope extra)) := by
  simp only [roots, validate, List.map_map, Function.comp_def]
  cases m.aggregate <;> rfl

theorem getElem?_roots_validate (i : Nat) :
    (m.validate extra).roots[i]? =
      match m.items[i]? with
      | some e => some (settleItem (m.scope extra) e.1 e.2)
      | none => m.roots[i]?.map (settle (m.scope extra)) := by
  rw [roots_validate, roots]
  rcases Nat.lt_or_ge i m.items.length with hi | hi
  · rw [List.getElem?_append_left (by simpa using hi), List.getElem?_map,
      List.getElem?_eq_getElem hi]
    rfl
  · rw [List.getElem?_append_right (by simpa using hi), List.getElem?_eq_none hi,
      List.getElem?_append_right (by simpa using hi)]
    simp only [List.length_map, List.getElem?_map]

theorem getElem?_roots_of_items {i : Nat} {e : String × Decl} (h : m.items[i]? = some e) :
    m.roots[i]? = some e.2 := by
  obtain ⟨hi, he⟩ := List.getElem?_eq_some_iff.1 h
  rw [roots, List.getElem?_append_left (by simpa using hi), List.getElem?_map, h]
  rfl

/-- What stands at an address after validation, in terms of what stood there before. -/
theorem at?_validate (a : List Nat) :
    (m.validate extra).at? a = (m.at? a).map fun d =>
      match m.itemName? a with
      | some name => settleItem (m.scope extra) name d
      | none => settle (m.scope extra) d := by
  match a with
  | [] => rfl
  | [i] =>
      rw [at?, at?, itemName?, getElem?_roots_validate]
      cases hi : m.items[i]? with
      | none => simp [descend]
      | some e =>
          rw [getElem?_roots_of_items m hi]
          rfl
  | i :: j :: a =>
      rw [at?, at?, itemName?, getElem?_roots_validate]
      · cases hi : m.items[i]? with
        | none =>
            rw [Option.bind_map, Option.map_bind]
            refine Option.bind_congr fun e _ => ?_
            exact descend_settle (m.scope extra) e (j :: a)
        | some e =>
            rw [getElem?_roots_of_items m hi]
            exact (descend_settleItem_cons (m.scope extra) e.1 e.2 j a).trans
              (descend_settle (m.scope extra) e.2 (j :: a))
      · nofun

/-- What stands at an address after validation is what stood there before, revised. -/
theorem exists_revised {a : List Nat} {d : Decl} (h : m.at? a = some d) :
    ∃ d', (m.validate extra).at? a = some d' ∧
      d.Revised (m.scope extra) (m.itemName? a) d' := by
  rw [at?_validate, h]
  refine ⟨_, rfl, ?_⟩
  cases m.itemName? a with
  | none => exact revised_settle (m.scope extra) d nofun
  | some name => exact revised_settleItem (m.scope extra) name d

theorem exists_at?_of_validate {a : List Nat} {d' : Decl}
    (h : (m.validate extra).at? a = some d') : ∃ d, m.at? a = some d := by
  rw [at?_validate] at h
  obtain ⟨d, hd, -⟩ := Option.map_eq_some_iff.1 h
  exact ⟨d, hd⟩

end Module

/-! ### Notices -/

namespace Decl

/-- Induction over a declaration and its parts. -/
@[elab_as_elim]
theorem induct_parts {motive : Decl → Prop} (mk : ∀ d, (∀ e ∈ d.parts, motive e) → motive d)
    (d : Decl) : motive d := by
  refine mk d fun e he => ?_
  have hlt : sizeOf e < sizeOf d := by
    cases d with
    | classDef h c ms b =>
        rcases List.mem_append.1 he with hc | hm
        · cases c with
          | none => cases hc
          | some fn =>
              cases List.mem_singleton.1 hc
              simp only [function.sizeOf_spec, classDef.sizeOf_spec, Option.some.sizeOf_spec]
              omega
        · obtain ⟨⟨name, f⟩, hf, rfl⟩ := List.mem_map.1 hm
          have := List.sizeOf_lt_of_mem hf
          simp only [classDef.sizeOf_spec, Prod.mk.sizeOf_spec] at this ⊢
          omega
    | object h ms =>
        obtain ⟨⟨name, f⟩, hf, rfl⟩ := List.mem_map.1 he
        have := List.sizeOf_lt_of_mem hf
        simp only [object.sizeOf_spec, Prod.mk.sizeOf_spec] at this ⊢
        omega
    | _ => cases he
  exact induct_parts mk e
termination_by sizeOf d

/-- The declaration or something inside it owns an outermost unrecognised type. -/
def MissesWithin (known : List String) (d : Decl) (path : List Nat) (c : Complaint) : Prop :=
  ∃ a p e, path = a ++ p ∧ descend parts d a = some e ∧ e.Misses known p c

theorem missesWithin_iff {known : List String} {d : Decl} (path : List Nat) (c : Complaint) :
    (d.Misses known path c ∨ Among (MissesWithin known) d.parts path c) ↔
      d.MissesWithin known path c := by
  constructor
  · rintro (h | ⟨i, q, e, rfl, he, a, p, f, rfl, hf, hp⟩)
    · exact ⟨[], path, d, rfl, rfl, h⟩
    · exact ⟨i :: a, p, f, rfl, Option.bind_eq_some_iff.2 ⟨e, he, hf⟩, hp⟩
  · rintro ⟨a, p, f, rfl, hf, hp⟩
    cases a with
    | nil =>
        cases hf
        exact .inl hp
    | cons i a =>
        obtain ⟨e, he, hef⟩ := Option.bind_eq_some_iff.1 hf
        exact .inr ⟨i, a ++ p, e, rfl, he, a, p, f, rfl, hef, hp⟩

/-- A declaration owns types or has parts, never both. -/
theorem slots_eq_nil_or_parts_eq_nil (d : Decl) : d.slots = [] ∨ d.parts = [] := by
  cases d with
  | binding h ts k => exact .inr rfl
  | typedef h ts => exact .inr rfl
  | function fn => exact .inr rfl
  | _ => exact .inl rfl

end Decl

namespace Validation

theorem reportTable_eq_flatMap (s : Scope) (ms : Table Decl) :
    reportTable s ms = ms.flatMap fun e => report s e.1 e.2 := by
  induction ms with
  | nil => rfl
  | cons e ms ih => rw [reportTable, ih, List.flatMap_cons]

theorem names_complaints (s : Scope) (fn : Callable) :
    ((Decl.function fn).complaints s.known).map Complaint.name = unknownOf s fn := by
  simp [Decl.complaints, Decl.slots, unknownOf, List.flatMap_map, List.map_flatMap,
    Function.comp_def]

/-- The name under which a declaration stands is of no account for its types. -/
theorem filterMap_report_name (s : Scope) (name name' : String) (d : Decl) :
    (report s name d).filterMap Notice.downgraded? =
      (report s name' d).filterMap Notice.downgraded? := by
  cases d with
  | aliasOf h t =>
      simp only [report]
      split <;> rfl
  | _ => rfl

/-- The types reported for a declaration are those it owns and those reported for its parts. -/
theorem filterMap_report (s : Scope) (name : String) (d : Decl) :
    (report s name d).filterMap Notice.downgraded? =
      (d.complaints s.known).map Complaint.name ++
        d.parts.flatMap fun e => (report s "" e).filterMap Notice.downgraded? := by
  have hmembers (ms : Table Decl) : (reportTable s ms).filterMap Notice.downgraded? =
      (ms.map Prod.snd).flatMap fun e => (report s "" e).filterMap Notice.downgraded? := by
    rw [reportTable_eq_flatMap, List.filterMap_flatMap, List.flatMap_map]
    exact congrArg (List.flatMap · ms) (funext fun e => filterMap_report_name s e.1 "" e.2)
  cases d with
  | function fn =>
      rw [names_complaints]
      simp [report, Decl.parts, Function.comp_def]
  | classDef h c ms b =>
      rw [report, List.filterMap_append, hmembers, Decl.parts, List.flatMap_append]
      cases c <;> simp [Decl.complaints, Decl.slots, report, Function.comp_def]
  | object h ms =>
      rw [report, hmembers]
      rfl
  | aliasOf h t =>
      rw [report]
      split <;> rfl
  | _ =>
      simp [report, Decl.complaints, Decl.slots, Decl.parts, Function.comp_def]

/-- The types reported for a declaration are the outermost unrecognised ones in it, from left to
right. -/
theorem exists_enumerates_missesWithin (s : Scope) (name : String) (d : Decl) :
    ∃ found, Enumerates (d.MissesWithin s.known) found ∧
      found.map (fun o => o.2.name) = (report s name d).filterMap Notice.downgraded? := by
  induction d using Decl.induct_parts generalizing name with
  | mk d ih =>
    obtain ⟨own, hown, hcomplaints⟩ := d.exists_enumerates_misses s.known
    obtain ⟨others, hothers, hnames⟩ :=
      exists_enumerates_among (g := Complaint.name) fun e he => ih e he ""
    refine ⟨own ++ others, (hown.append hothers ?_).congr Decl.missesWithin_iff, ?_⟩
    · -- One of the two is empty, so nothing has to be compared.
      rintro p b q c ⟨i, -, slot, -, hslot, -⟩ ⟨j, -, e, -, he, -⟩
      rcases d.slots_eq_nil_or_parts_eq_nil with hnil | hnil
      · rw [hnil] at hslot
        cases hslot
      · rw [hnil] at he
        cases he
    · rw [filterMap_report, List.map_append, ← hnames, ← hcomplaints, List.map_map]
      rfl

theorem filterMap_reportItem (s : Scope) (name : String) (d : Decl) :
    (reportItem s name d).filterMap Notice.downgraded? =
      (report s "" d).filterMap Notice.downgraded? := by
  cases d with
  | aliasOf h t =>
      simp only [reportItem, report]
      split
      · split <;> rfl
      · split <;> rfl
  | _ => exact filterMap_report_name s name "" _

end Validation

namespace Module

variable (m : Module) (extra : List String)

theorem misses_iff {known : List String} (path : List Nat) (c : Complaint) :
    Among (Decl.MissesWithin known) m.roots path c ↔ m.Misses known path c := by
  constructor
  · rintro ⟨i, q, d, rfl, hd, a, p, e, rfl, he, hp⟩
    exact ⟨i :: a, p, e, rfl, Option.bind_eq_some_iff.2 ⟨d, hd, he⟩, hp⟩
  · rintro ⟨a, p, e, rfl, he, hp⟩
    cases a with
    | nil => cases he
    | cons i a =>
        obtain ⟨d, hd, hde⟩ := Option.bind_eq_some_iff.1 he
        exact ⟨i, a ++ p, d, rfl, hd, a, p, e, rfl, hde, hp⟩

theorem exists_enumerates_validationLog :
    ∃ found, Enumerates (m.Misses (m.scope extra).known) found ∧
      (m.validationLog extra).filterMap Notice.downgraded? = found.map (·.2.name) := by
  have hroots : ∀ d ∈ m.roots, ∃ found, Enumerates (d.MissesWithin (m.scope extra).known) found ∧
      found.map (fun o => Complaint.name o.2) =
        (Validation.report (m.scope extra) "" d).filterMap Notice.downgraded? :=
    fun d _ => exists_enumerates_missesWithin (m.scope extra) "" d
  obtain ⟨found, hfound, hnames⟩ := exists_enumerates_among hroots
  refine ⟨found, hfound.congr m.misses_iff, ?_⟩
  rw [hnames, validationLog, List.filterMap_append, List.filterMap_flatMap, List.filterMap_flatMap,
    roots, List.flatMap_append, List.flatMap_map]
  simp only [filterMap_reportItem]

/-- **Validation changes nothing silently.**  It keeps the names and the order of the items and the
addresses of all declarations; each declaration is revised, with one diagnostic for each change; and
the notices name every type that was replaced, once each and from left to right. -/
theorem validate_accounts_for_every_change :
    (m.validate extra).name = m.name ∧ (m.validate extra).description = m.description ∧
      (m.validate extra).items.names = m.items.names ∧
      (m.validate extra).aggregate.isSome = m.aggregate.isSome ∧
      (∀ a d, m.at? a = some d → ∃ d', (m.validate extra).at? a = some d' ∧
        d.Revised (m.scope extra) (m.itemName? a) d') ∧
      (∀ a d', (m.validate extra).at? a = some d' → ∃ d, m.at? a = some d) ∧
      ∃ found, Enumerates (m.Misses (m.knownTypes extra)) found ∧
        (m.validationLog extra).filterMap Notice.downgraded? = found.map (·.2.name) := by
  refine ⟨rfl, rfl, names_items_validate m extra, ?_, ?_, ?_, ?_⟩
  · simp only [validate, Option.isSome_map]
  · intro a d h
    exact m.exists_revised extra h
  · intro a d' h
    exact m.exists_at?_of_validate extra h
  · exact m.exists_enumerates_validationLog extra

end Module

end Ambient
