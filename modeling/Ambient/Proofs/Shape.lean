import Ambient.Proofs.Build.Slot
import Ambient.Proofs.Doc.Named

/-!
# The shape of a module

What can be relied on in every declaration of a module: types have names and come in non-empty
lists, parameters have names, variables have a keyword, and only items carry an export flag.  The
operations that build a module keep it in shape, and so does validation.
-/

namespace Ambient

open TypeRef

/-! ### Declarations in shape -/

/-- The parameter has a name and types. -/
structure Parameter.Shaped (p : Parameter) : Prop where
  name : p.name ≠ ""
  types : Alternatives p.types

/-- The parameters of the function are in shape, and its result has types. -/
structure Callable.Shaped (fn : Callable) : Prop where
  params : ∀ p ∈ fn.params, p.Shaped
  result : Alternatives fn.result

namespace Decl

/-- The types of a variable or a typedef. -/
def types? : Decl → Option (List TypeRef)
  | binding _ ts _ => some ts
  | typedef _ ts => some ts
  | _ => none

/-- The word that declares a variable. -/
def keyword? : Decl → Option String
  | binding _ _ k => some k
  | _ => none

/-- The constructor of a class. -/
def constructor? : Decl → Option Callable
  | classDef _ c _ _ => c
  | _ => none

/-- A function as such, or the constructor of a class. -/
def callable? : Decl → Option Callable
  | function fn => some fn
  | d => d.constructor?

/-- What a declaration says itself is in shape.  Its members are declarations of their own, but
that they are not exported is said here. -/
structure InShape (d : Decl) : Prop where
  types : ∀ ts ∈ d.types?, Alternatives ts
  callable : ∀ fn ∈ d.callable?, fn.Shaped
  keyword : ∀ k ∈ d.keyword?, k ∈ ["var", "let", "const"]
  ctor : ∀ fn ∈ d.constructor?, fn.header.exported = false
  members : ∀ e ∈ d.members, e.2.exported = false

/-- Everything that the declaration holds is in shape. -/
def Shaped (d : Decl) : Prop :=
  ∀ e, d.Holds e → e.InShape

/-- The declaration is in shape and not exported: it may be a member. -/
structure Inner (d : Decl) : Prop where
  shaped : d.Shaped
  exported : d.exported = false

variable {d : Decl} {h : Header} {ms : Table Decl}

theorem shaped_iff : d.Shaped ↔ d.InShape ∧ ∀ e ∈ d.members, e.2.Shaped := by
  constructor
  · intro hd
    exact ⟨hd d (.self d), fun e he f hf => hd f (.member he hf)⟩
  · rintro ⟨hown, hmembers⟩ f hf
    cases hf with
    | self => exact hown
    | member he hf => exact hmembers _ he f hf

theorem shaped_binding {ts : List TypeRef} {k : String} :
    (binding h ts k).Shaped ↔ Alternatives ts ∧ k ∈ ["var", "let", "const"] := by
  constructor
  · intro hd
    exact ⟨(shaped_iff.1 hd).1.types ts rfl, (shaped_iff.1 hd).1.keyword k rfl⟩
  · rintro ⟨ht, hk⟩
    exact shaped_iff.2 ⟨⟨by rintro _ ⟨⟩; exact ht, by nofun, by rintro _ ⟨⟩; exact hk, by nofun,
      by nofun⟩, by nofun⟩

theorem shaped_typedef {ts : List TypeRef} : (typedef h ts).Shaped ↔ Alternatives ts := by
  refine ⟨fun hd => (shaped_iff.1 hd).1.types ts rfl, fun ht => ?_⟩
  exact shaped_iff.2 ⟨⟨by rintro _ ⟨⟩; exact ht, by nofun, by nofun, by nofun, by nofun⟩, by nofun⟩

theorem shaped_constant {v : Option String} : (constant h v).Shaped :=
  shaped_iff.2 ⟨⟨by nofun, by nofun, by nofun, by nofun, by nofun⟩, by nofun⟩

theorem shaped_imported {path : String} {name : Option String} : (imported h path name).Shaped :=
  shaped_iff.2 ⟨⟨by nofun, by nofun, by nofun, by nofun, by nofun⟩, by nofun⟩

theorem shaped_aliasOf {target : String} : (aliasOf h target).Shaped :=
  shaped_iff.2 ⟨⟨by nofun, by nofun, by nofun, by nofun, by nofun⟩, by nofun⟩

theorem shaped_function {fn : Callable} : (function fn).Shaped ↔ fn.Shaped := by
  refine ⟨fun hd => (shaped_iff.1 hd).1.callable fn rfl, fun hfn => ?_⟩
  exact shaped_iff.2 ⟨⟨by nofun, by rintro _ ⟨⟩; exact hfn, by nofun, by nofun, by nofun⟩, by nofun⟩

theorem shaped_object : (object h ms).Shaped ↔ ∀ e ∈ ms, e.2.Inner := by
  constructor
  · intro hd e he
    exact ⟨(shaped_iff.1 hd).2 e he, (shaped_iff.1 hd).1.members e he⟩
  · intro hms
    exact shaped_iff.2 ⟨⟨by nofun, by nofun, by nofun, by nofun, fun e he => (hms e he).exported⟩,
      fun e he => (hms e he).shaped⟩

theorem shaped_classDef {c : Option Callable} {b : Option String} :
    (classDef h c ms b).Shaped ↔
      (∀ fn ∈ c, fn.Shaped ∧ fn.header.exported = false) ∧ ∀ e ∈ ms, e.2.Inner := by
  constructor
  · intro hd
    obtain ⟨hown, hmembers⟩ := shaped_iff.1 hd
    exact ⟨fun fn hfn => ⟨hown.callable fn hfn, hown.ctor fn hfn⟩,
      fun e he => ⟨hmembers e he, hown.members e he⟩⟩
  · rintro ⟨hc, hms⟩
    exact shaped_iff.2 ⟨⟨by nofun, fun fn hfn => (hc fn hfn).1, by nofun, fun fn hfn => (hc fn hfn).2,
      fun e he => (hms e he).exported⟩, fun e he => (hms e he).shaped⟩

/-- The header of a declaration does not matter. -/
theorem Shaped.mapHeader (hd : d.Shaped) (f : Header → Header) : (d.mapHeader f).Shaped := by
  obtain ⟨hown, hmembers⟩ := shaped_iff.1 hd
  cases d with
  | function fn =>
      have hfn := shaped_function.1 hd
      exact shaped_function.2 ⟨hfn.params, hfn.result⟩
  | _ => exact shaped_iff.2 ⟨⟨hown.types, hown.callable, hown.keyword, hown.ctor, hown.members⟩,
      hmembers⟩

theorem Shaped.setExported (hd : d.Shaped) (b : Bool) : (d.setExported b).Shaped :=
  hd.mapHeader _

theorem shaped_classOf {fn : Callable} (hfn : fn.Shaped) (description : String)
    (base : Option String) : (Build.classOf fn description base).Shaped := by
  refine shaped_classDef.2 ⟨?_, by nofun⟩
  rintro _ ⟨⟩
  exact ⟨⟨hfn.params, hfn.result⟩, rfl⟩

theorem Shaped.promote (hd : d.Shaped) : d.promote.Shaped := by
  cases d with
  | function fn => exact shaped_classOf (shaped_function.1 hd) _ _
  | _ => exact hd

/-- The change keeps members members. -/
def KeepsInner (f : Table Decl → Table Decl) : Prop :=
  ∀ ms : Table Decl, (∀ e ∈ ms, e.2.Inner) → ∀ e ∈ f ms, e.2.Inner

theorem Shaped.mapMembers {f : Table Decl → Table Decl} (hd : d.Shaped) (hf : KeepsInner f) :
    (d.mapMembers f).Shaped := by
  cases d with
  | classDef h c ms b =>
      obtain ⟨hc, hms⟩ := shaped_classDef.1 hd
      exact shaped_classDef.2 ⟨hc, hf ms hms⟩
  | _ => exact hd

theorem inner_set {name : String} (hms : ∀ e ∈ ms, e.2.Inner) (hd : d.Inner) :
    ∀ e ∈ ms.set name d, e.2.Inner := by
  intro e he
  rcases Table.eq_or_mem_of_mem_set he with rfl | he
  · exact hd
  · exact hms e he

theorem inner_setAll {us : Table Decl} (hms : ∀ e ∈ ms, e.2.Inner) (hus : ∀ e ∈ us, e.2.Inner) :
    ∀ e ∈ ms.setAll us, e.2.Inner := by
  intro e he
  rcases Table.mem_or_mem_of_mem_setAll he with he | he
  · exact hms e he
  · exact hus e he

end Decl

/-! ### Modules in shape -/

namespace Module

/-- Everything in the module is in shape, and what the module is exported as is not exported on its
own. -/
structure Shaped (m : Module) : Prop where
  declared : ∀ d, m.Declares d → d.InShape
  aggregate : ∀ d ∈ m.aggregate, d.exported = false

variable {m : Module}

theorem shaped_iff :
    m.Shaped ↔ (∀ e ∈ m.items, e.2.Shaped) ∧ ∀ d ∈ m.aggregate, d.Inner := by
  constructor
  · intro h
    exact ⟨fun e he d hd => h.declared d (.inl ⟨e, he, hd⟩),
      fun a ha => ⟨fun d hd => h.declared d (.inr ⟨a, ha, hd⟩), h.aggregate a ha⟩⟩
  · rintro ⟨hitems, haggregate⟩
    refine ⟨?_, fun a ha => (haggregate a ha).exported⟩
    rintro d (⟨e, he, hd⟩ | ⟨a, ha, hd⟩)
    · exact hitems e he d hd
    · exact (haggregate a ha).shaped d hd

namespace Shaped

theorem item (h : m.Shaped) {name : String} {d : Decl} (hd : m.items.get? name = some d) :
    d.Shaped :=
  (shaped_iff.1 h).1 (name, d) (Table.mem_of_get? hd)

/-- Setting an entry keeps the shape of the items. -/
theorem set (h : m.Shaped) (name : String) {d : Decl} (hd : d.Shaped) :
    Shaped { m with items := m.items.set name d } := by
  refine shaped_iff.2 ⟨fun e he => ?_, (shaped_iff.1 h).2⟩
  rcases Table.eq_or_mem_of_mem_set he with rfl | he
  · exact hd
  · exact (shaped_iff.1 h).1 e he

theorem update (h : m.Shaped) (name : String) {f : Decl → Decl}
    (hf : ∀ d : Decl, d.Shaped → (f d).Shaped) :
    Shaped { m with items := m.items.update name f } := by
  refine shaped_iff.2 ⟨fun e he => ?_, (shaped_iff.1 h).2⟩
  obtain ⟨b, hb, rfl⟩ := List.mem_map.1 he
  have hshaped := (shaped_iff.1 h).1 b hb
  split
  · exact hf b.2 hshaped
  · exact hshaped

theorem add (h : m.Shaped) (name : String) {d : Decl} (hd : d.Shaped) :
    (m.add name d).Shaped := by
  refine h.set name ?_
  unfold handOver
  split
  · split
    · exact hd.mapHeader _
    · exact hd
  · exact hd

theorem markExported (h : m.Shaped) (name : String) : (m.markExported name).Shaped :=
  h.update name fun _ hd => hd.setExported true

theorem setAggregate (h : m.Shaped) {d : Decl} (hd : d.Inner) : (m.setAggregate d).Shaped := by
  refine shaped_iff.2 ⟨fun e he => ?_, by rintro _ ⟨⟩; exact hd⟩
  obtain ⟨b, hb, rfl⟩ := List.mem_map.1 he
  exact ((shaped_iff.1 h).1 b hb).setExported false

theorem memberwise (h : m.Shaped) : m.memberwise.Shaped :=
  shaped_iff.2 ⟨(shaped_iff.1 h).1, by nofun⟩

theorem promote (h : m.Shaped) (name : String) : (m.promote name).Shaped := by
  cases hd : m.items.get? name with
  | none =>
      rw [promote_eq_of_none m hd]
      exact h
  | some d =>
      rw [promote_eq_of_get? m hd]
      exact h.set name (h.item hd).promote

theorem modifyMembers (h : m.Shaped) (name : String) {f : Table Decl → Table Decl}
    (hf : Decl.KeepsInner f) : (m.modifyMembers name f).Shaped :=
  h.update name fun _ hd => hd.mapMembers hf

theorem describe (h : m.Shaped) (text : String) : (m.describe text).Shaped := by
  rw [Module.describe]
  split
  · exact ⟨h.declared, h.aggregate⟩
  · exact h

end Shaped

end Module

/-! ### Acts that keep the shape -/

/-- What the act brings into a module is in shape. -/
def Act.Shaped : Act → Prop
  | .register _ d => d.Shaped
  | .aggregate d => d.Inner
  | .members _ f => Decl.KeepsInner f
  | _ => True

/-- One act keeps a module in shape. -/
theorem Act.Shaped.after {a : Act} (ha : a.Shaped) {s : BuildState} (hs : s.module.Shaped) :
    (s.after a).module.Shaped := by
  cases a with
  | notice notices => exact hs
  | commentRead start => exact hs
  | register name d => exact hs.add name ha
  | mark name => exact hs.markExported name
  | aggregate d => exact hs.setAggregate ha
  | memberwise => exact hs.memberwise
  | promote name => exact hs.promote name
  | members name f => exact hs.modifyMembers name ha
  | describe text => exact hs.describe text

/-- All acts of a run keep a module in shape. -/
theorem BuildState.shaped_afterAll {acts : List Act} (hacts : ∀ a ∈ acts, a.Shaped)
    {s : BuildState} (hs : s.module.Shaped) : (s.afterAll acts).module.Shaped := by
  induction acts generalizing s with
  | nil => exact hs
  | cons a acts ih =>
      obtain ⟨ha, hacts⟩ := List.forall_mem_cons.1 hacts
      exact ih hacts (ha.after hs)

/-! ### Validation -/

namespace TypeRef

theorem Named.settle {t : TypeRef} (h : t.Named) (known : List String) :
    (settle known t).Named := by
  induction t using TypeRef.induct with
  | mk scope name args ih =>
      obtain ⟨hname, hargs⟩ := forall_within_iff.1 h
      by_cases hs : scope = none
      · by_cases hn : name ∈ known
        · rw [settle_of_mem hs hn]
          refine named_mk hname fun a ha => ?_
          obtain ⟨b, hb, rfl⟩ := List.mem_map.1 ha
          exact ih b hb (hargs b hb)
        · rw [settle_of_not_mem hs hn]
          exact named_any
      · rw [settle_of_scope known hs]
        exact h

theorem Alternatives.settleAll {ts : List TypeRef} (h : Alternatives ts) (known : List String) :
    Alternatives (settleAll known ts) := by
  rw [settleAll_eq_map]
  refine ⟨by simpa using h.ne_nil, fun t ht => ?_⟩
  obtain ⟨u, hu, rfl⟩ := List.mem_map.1 ht
  exact (h.named u hu).settle known

end TypeRef

namespace Validation

variable {s : Scope}

theorem shaped_settleCallable {fn : Callable} (h : fn.Shaped) : (settleCallable s fn).Shaped := by
  refine ⟨fun p hp => ?_, h.result.settleAll s.known⟩
  obtain ⟨q, hq, rfl⟩ := List.mem_map.1 hp
  exact ⟨(h.params q hq).name, (h.params q hq).types.settleAll s.known⟩

mutual

/-- Settling keeps everything that a declaration holds in shape. -/
theorem shaped_settle : ∀ d : Decl, d.Shaped → (settle s d).Shaped
  | .binding _ _ _, hd => by
    obtain ⟨ht, hk⟩ := Decl.shaped_binding.1 hd
    exact Decl.shaped_binding.2 ⟨ht.settleAll s.known, hk⟩
  | .typedef _ _, hd => Decl.shaped_typedef.2 ((Decl.shaped_typedef.1 hd).settleAll s.known)
  | .function _, hd => Decl.shaped_function.2 (shaped_settleCallable (Decl.shaped_function.1 hd))
  | .classDef _ _ ms _, hd => by
    obtain ⟨hc, hms⟩ := Decl.shaped_classDef.1 hd
    refine Decl.shaped_classDef.2 ⟨fun fn hfn => ?_, inner_settleTable ms hms⟩
    obtain ⟨g, hg, rfl⟩ := Option.map_eq_some_iff.1 hfn
    exact ⟨shaped_settleCallable (hc g hg).1, (hc g hg).2⟩
  | .object _ ms, hd => Decl.shaped_object.2 (inner_settleTable ms (Decl.shaped_object.1 hd))
  | .aliasOf _ _, hd => by
    rw [settle]
    split
    · exact hd
    · exact Decl.shaped_constant
  | .constant _ _, hd => hd
  | .imported _ _ _, hd => hd

theorem inner_settleTable :
    ∀ ms : Table Decl, (∀ e ∈ ms, e.2.Inner) → ∀ e ∈ settleTable s ms, e.2.Inner
  | [], _ => List.forall_mem_nil _
  | (_, d) :: ms, hms => by
    obtain ⟨hd, hms⟩ := List.forall_mem_cons.1 hms
    refine List.forall_mem_cons.2 ⟨⟨shaped_settle d hd.shaped, ?_⟩, inner_settleTable ms hms⟩
    exact (exported_settle s d).trans hd.exported

end

theorem shaped_settleItem {name : String} {d : Decl} (h : d.Shaped) :
    (settleItem s name d).Shaped := by
  rcases settleItem_eq s name d with hd | ⟨g, t, hd⟩
  · rw [hd]
    exact shaped_settle d h
  · rw [hd]
    exact Decl.shaped_constant

end Validation

/-- Validation keeps a module in shape. -/
theorem Module.Shaped.validate {m : Module} (h : m.Shaped) (extra : List String) :
    (m.validate extra).Shaped := by
  refine shaped_iff.2 ⟨fun e he => ?_, fun d hd => ?_⟩
  · obtain ⟨b, hb, rfl⟩ := List.mem_map.1 he
    exact Validation.shaped_settleItem ((shaped_iff.1 h).1 b hb)
  · obtain ⟨b, hb, rfl⟩ := Option.map_eq_some_iff.1 hd
    have hinner := (shaped_iff.1 h).2 b hb
    exact ⟨Validation.shaped_settle b hinner.shaped,
      (Validation.exported_settle _ b).trans hinner.exported⟩

end Ambient
