import Ambient.Proofs.Validation.Account

/-!
# Validation is a projection

A module is settled when validation finds nothing to act on: everything in it is recognised, at every
depth, and no item is an alias of itself.  Validation keeps a settled module as it is and reports
nothing, and what it leaves of any module is settled.  So the settled modules are exactly its image,
and a second run does nothing.
-/

namespace Ambient

/-- Nothing in the module is left to validate. -/
structure Module.Settled (m : Module) (extra : List String) : Prop where
  recognised : ∀ d, m.Declares d → d.Recognised (m.knownTypes extra) m.items.names
  proper : ∀ name h target, (name, Decl.aliasOf h target) ∈ m.items → target ≠ name

/-! ### Types -/

namespace TypeRef

/-- Every name that the reference exposes is recognised. -/
def Familiar (known : List String) (t : TypeRef) : Prop :=
  ∀ u, t.Exposed u → u.scope = none → u.name ∈ known

variable {known : List String} {t : TypeRef} {ts : List TypeRef}

theorem Familiar.not_missing (h : t.Familiar known) (p : List Nat) (name : String) :
    ¬ Missing known t p name := by
  induction p generalizing t with
  | nil =>
      intro hmissing
      obtain ⟨hscope, rfl, hunknown⟩ := missing_nil_iff.1 hmissing
      exact hunknown (h t (.here t) hscope)
  | cons i p ih =>
      intro hmissing
      obtain ⟨hscope, -, hin⟩ := missing_cons_iff.1 hmissing
      obtain ⟨a, ha, hbelow⟩ := missingIn_cons_iff.1 hin
      have harg : a.Familiar known := fun u hu =>
        h u (.arg hscope (List.mem_of_getElem? ha) hu)
      exact ih harg hbelow

theorem Familiar.settle_eq (h : t.Familiar known) : settle known t = t :=
  settle_eq_self h.not_missing

theorem Familiar.unknown_eq_nil (h : t.Familiar known) : unknown known t = [] := by
  obtain ⟨found, hfound, hnames⟩ := exists_enumerates_missing known t
  rw [← hnames, List.map_eq_nil_iff, List.eq_nil_iff_forall_not_mem]
  intro o ho
  exact h.not_missing o.1 o.2 ((hfound.exact o.1 o.2).1 ho)

theorem settleAll_eq_self (h : ∀ t ∈ ts, t.Familiar known) : settleAll known ts = ts := by
  rw [settleAll_eq_map]
  exact (List.map_congr_left fun t ht => (h t ht).settle_eq).trans (List.map_id' ts)

theorem unknownAll_eq_nil (h : ∀ t ∈ ts, t.Familiar known) : unknownAll known ts = [] := by
  rw [unknownAll_eq_flatMap, List.flatMap_eq_nil_iff]
  intro t ht
  exact (h t ht).unknown_eq_nil

end TypeRef

/-! ### Declarations -/

theorem Decl.mem_parts_of_mem_members {d : Decl} {e : String × Decl} (he : e ∈ d.members) :
    e.2 ∈ d.parts := by
  cases d with
  | classDef g c ms b => exact List.mem_append_right _ (List.mem_map_of_mem he)
  | object g ms => exact List.mem_map_of_mem he
  | _ => cases he

namespace Validation

variable {s : Scope}

theorem unknownOf_eq_nil {fn : Callable} (h : ∀ t ∈ fn.types, t.Familiar s.known) :
    unknownOf s fn = [] := by
  obtain ⟨hparams, hresult⟩ := List.forall_mem_append.1 h
  rw [unknownOf, TypeRef.unknownAll_eq_nil hresult, List.append_nil, List.flatMap_eq_nil_iff]
  intro p hp
  exact TypeRef.unknownAll_eq_nil fun t ht => hparams t (List.mem_flatMap.2 ⟨p, hp, ht⟩)

theorem settleCallable_eq_self {fn : Callable} (h : ∀ t ∈ fn.types, t.Familiar s.known) :
    settleCallable s fn = fn := by
  have hmessages : messagesOf s fn = [] := by
    rw [← messages_complaints, List.map_eq_nil_iff, ← List.map_eq_nil_iff (f := Complaint.name),
      names_complaints]
    exact unknownOf_eq_nil h
  obtain ⟨hparams, hresult⟩ := List.forall_mem_append.1 h
  have htypes : ∀ p ∈ fn.params, { p with types := TypeRef.settleAll s.known p.types } = p := by
    intro p hp
    rw [TypeRef.settleAll_eq_self fun t ht => hparams t (List.mem_flatMap.2 ⟨p, hp, ht⟩)]
  rw [settleCallable, hmessages, List.append_nil, TypeRef.settleAll_eq_self hresult,
    List.map_congr_left htypes, List.map_id']

/-- A base class that stands is kept and leaves no diagnostic. -/
theorem classHeader_eq_self {base : Option String} (h : ∀ b, base = some b → baseStands s b = true)
    (g : Header) : classHeader s g base = g ∧ base.filter (baseStands s) = base := by
  cases base with
  | none => exact ⟨rfl, rfl⟩
  | some b =>
      have hb := h b rfl
      exact ⟨by rw [classHeader, if_pos hb], Option.filter_some_pos hb⟩

theorem warnEach_of_familiar {ts : List TypeRef} (h : ∀ t ∈ ts, t.Familiar s.known) (g : Header) :
    g.warnEach typeMessage (TypeRef.unknownAll s.known ts) = g := by
  rw [TypeRef.unknownAll_eq_nil h, Header.warnEach, List.map_nil, List.append_nil]

/-- A recognised declaration is kept when its members are. -/
theorem settle_eq_self_of_members {d : Decl} (h : d.Recognised s.known s.items)
    (hmembers : ∀ e ∈ d.members, settle s e.2 = e.2) : settle s d = d := by
  have htable : settleTable s d.members = d.members := by
    rw [settleTable_eq_map]
    refine (List.map_congr_left fun e he => ?_).trans (List.map_id' d.members)
    rw [hmembers e he]
  obtain ⟨htypes, hbase, htarget⟩ := h
  cases d with
  | binding g ts k =>
      have hts : ∀ t ∈ ts, t.Familiar s.known := htypes
      rw [settle, warnEach_of_familiar hts, TypeRef.settleAll_eq_self hts]
  | typedef g ts =>
      have hts : ∀ t ∈ ts, t.Familiar s.known := htypes
      rw [settle, warnEach_of_familiar hts, TypeRef.settleAll_eq_self hts]
  | function fn => rw [settle, settleCallable_eq_self htypes]
  | classDef g c ms b =>
      have hstands : ∀ b', b = some b' → baseStands s b' = true := by
        intro b' hb'
        simpa [baseStands] using hbase b' hb'
      have hctor : c.map (settleCallable s) = c := by
        cases c with
        | none => rfl
        | some fn =>
            have hfn : ∀ t ∈ fn.types, t.Familiar s.known := fun t ht =>
              htypes t (List.mem_flatMap.2 ⟨fn, List.mem_singleton_self fn, ht⟩)
            rw [Option.map_some, settleCallable_eq_self hfn]
      obtain ⟨hheader, hkept⟩ := classHeader_eq_self hstands g
      rw [settle, hheader, hctor, hkept]
      exact congrArg (Decl.classDef g c · b) htable
  | object g ms =>
      rw [settle]
      exact congrArg (Decl.object g) htable
  | aliasOf g t => rw [settle, if_pos (List.contains_iff_mem.2 (htarget t rfl))]
  | _ => rw [settle]

/-- A recognised declaration is passed over in silence when its members are. -/
theorem report_eq_nil_of_members {d : Decl} (h : d.Recognised s.known s.items)
    (hmembers : ∀ e ∈ d.members, report s e.1 e.2 = []) (name : String) : report s name d = [] := by
  have htable : reportTable s d.members = [] := by
    rw [reportTable_eq_flatMap, List.flatMap_eq_nil_iff]
    exact hmembers
  obtain ⟨htypes, -, htarget⟩ := h
  cases d with
  | binding g ts k =>
      have hts : ∀ t ∈ ts, t.Familiar s.known := htypes
      rw [report, TypeRef.unknownAll_eq_nil hts, List.map_nil]
  | typedef g ts =>
      have hts : ∀ t ∈ ts, t.Familiar s.known := htypes
      rw [report, TypeRef.unknownAll_eq_nil hts, List.map_nil]
  | function fn => rw [report, unknownOf_eq_nil htypes, List.map_nil]
  | classDef g c ms b =>
      have hctor : c.toList.flatMap (unknownOf s) = [] := by
        rw [List.flatMap_eq_nil_iff]
        intro fn hfn
        exact unknownOf_eq_nil fun t ht => htypes t (List.mem_flatMap.2 ⟨fn, hfn, ht⟩)
      rw [report, hctor, List.map_nil, List.nil_append]
      exact htable
  | object g ms => exact htable
  | aliasOf g t => rw [report, if_pos (List.contains_iff_mem.2 (htarget t rfl))]
  | _ => rw [report]

/-- Nothing is done to a declaration in which everything is recognised, and nothing is said. -/
theorem settle_eq_self_of_holds {d : Decl} (h : ∀ e, d.Holds e → e.Recognised s.known s.items) :
    settle s d = d ∧ ∀ name, report s name d = [] := by
  induction d using Decl.induct_parts with
  | mk d ih =>
    have hmembers : ∀ e ∈ d.members, settle s e.2 = e.2 ∧ ∀ name, report s name e.2 = [] :=
      fun e he => ih e.2 (Decl.mem_parts_of_mem_members he) fun f hf => h f (.member he hf)
    have hown := h d (.self d)
    exact ⟨settle_eq_self_of_members hown fun e he => (hmembers e he).1,
      report_eq_nil_of_members hown fun e he => (hmembers e he).2 e.1⟩

/-- An item that is no alias of itself is treated like any other declaration. -/
theorem settleItem_of_proper {name : String} {d : Decl}
    (h : ∀ g target, d = .aliasOf g target → target ≠ name) :
    settleItem s name d = settle s d ∧ reportItem s name d = report s name d := by
  cases d with
  | aliasOf g t =>
      have hne : t ≠ name := h g t rfl
      exact ⟨if_neg hne, if_neg hne⟩
  | _ => exact ⟨rfl, rfl⟩

end Validation

/-! ### Modules -/

namespace Module

variable {m : Module} {extra : List String}

theorem Settled.item (h : m.Settled extra) {e : String × Decl} (he : e ∈ m.items) :
    Validation.settleItem (m.scope extra) e.1 e.2 = e.2 ∧
      Validation.reportItem (m.scope extra) e.1 e.2 = [] := by
  have hproper : ∀ g target, e.2 = .aliasOf g target → target ≠ e.1 := by
    intro g target htarget
    refine h.proper e.1 g target ?_
    rw [← htarget]
    exact he
  obtain ⟨hsettle, hreport⟩ := Validation.settleItem_of_proper (s := m.scope extra) hproper
  obtain ⟨hkept, hsilent⟩ := Validation.settle_eq_self_of_holds (s := m.scope extra)
    fun d hd => h.recognised d (.inl ⟨e, he, hd⟩)
  exact ⟨hsettle.trans hkept, hreport.trans (hsilent e.1)⟩

theorem Settled.aggregate (h : m.Settled extra) {a : Decl} (ha : a ∈ m.aggregate) :
    Validation.settle (m.scope extra) a = a ∧ Validation.report (m.scope extra) "" a = [] := by
  obtain ⟨hkept, hsilent⟩ := Validation.settle_eq_self_of_holds (s := m.scope extra)
    fun d hd => h.recognised d (.inr ⟨a, ha, hd⟩)
  exact ⟨hkept, hsilent ""⟩

/-- Validation keeps a settled module as it is. -/
theorem Settled.validate_eq (h : m.Settled extra) : m.validate extra = m := by
  have hitems : m.items.map (fun e => (e.1, Validation.settleItem (m.scope extra) e.1 e.2)) =
      m.items := by
    refine (List.map_congr_left fun e he => ?_).trans (List.map_id' m.items)
    rw [(h.item he).1]
  have haggregate : m.aggregate.map (Validation.settle (m.scope extra)) = m.aggregate := by
    cases ha : m.aggregate with
    | none => rfl
    | some a => rw [Option.map_some, (h.aggregate ha).1]
  rw [validate, hitems, haggregate]

/-- Validation says nothing about a settled module. -/
theorem Settled.validationLog_eq_nil (h : m.Settled extra) : m.validationLog extra = [] := by
  rw [validationLog, List.append_eq_nil_iff, List.flatMap_eq_nil_iff, List.flatMap_eq_nil_iff]
  constructor
  · intro e he
    exact (h.item he).2
  · intro a ha
    exact (h.aggregate (Option.mem_toList.1 ha)).2

variable (m extra)

/-- What validation leaves is settled, against the types that it recognises itself. -/
theorem settled_validate : (m.validate extra).Settled extra where
  recognised d hd := by
    rw [knownTypes_validate, names_items_validate]
    exact recognised_of_declares_validate m extra hd
  proper name h target hmem := by
    obtain ⟨e, -, he⟩ := List.mem_map.1 hmem
    obtain ⟨rfl, hd⟩ := Prod.mk.inj he
    exact Validation.target_ne_of_settleItem hd

/-- **Validation is a projection.**  It changes nothing in a settled module and says nothing about
it; what it leaves of any module is settled, so validating twice is validating once, with nothing
said the second time. -/
theorem validate_projection :
    (m.Settled extra → m.validate extra = m ∧ m.validationLog extra = []) ∧
      (m.validate extra).Settled extra ∧
      (m.validate extra).validate extra = m.validate extra ∧
      (m.validate extra).validationLog extra = [] := by
  have hsettled := settled_validate m extra
  refine ⟨fun h => ⟨h.validate_eq, h.validationLog_eq_nil⟩, hsettled, ?_, ?_⟩
  · exact hsettled.validate_eq
  · exact hsettled.validationLog_eq_nil

/-- A class with a lost base and an unknown type in its constructor, a member that stands for an item,
and an item that stands for itself: what the first run leaves, the second one keeps. -/
theorem validate_projection_class :
    let raw : Module :=
      { name := "box"
        items := [
          ("Box", .classDef {} (some { params := [{ name := "of", types :=
            [⟨none, "Array", [TypeRef.plain "Lid"]⟩, ⟨some "external", "Lid", []⟩] }] })
            [("size", .aliasOf {} "count")] (some "Crate")),
          ("count", .binding {} [TypeRef.plain "number"] "var"),
          ("self", .aliasOf {} "self")] }
    let settled : Module :=
      { name := "box"
        items := [
          ("Box", .classDef { diagnostics := ["Base class \"Crate\" was not found"] }
            (some { header := { diagnostics := ["Parameter \"of\" type \"Lid\" was not found"] }
                    params := [{ name := "of", types :=
                      [⟨none, "Array", [TypeRef.any]⟩, ⟨some "external", "Lid", []⟩] }] })
            [("size", .aliasOf {} "count")] none),
          ("count", .binding {} [TypeRef.plain "number"] "var"),
          ("self", .constant { diagnostics := ["Alias target \"self\" was not found"] } none)] }
    raw.validate [] = settled ∧ settled.Settled [] ∧ settled.validate [] = settled ∧
      settled.validationLog [] = [] := by
  intro raw settled
  have hfirst : raw.validate [] = settled := by rfl
  have hsettled : settled.Settled [] := hfirst ▸ (validate_projection raw []).2.1
  exact ⟨hfirst, hsettled, (validate_projection settled []).1 hsettled⟩

end Module

end Ambient
