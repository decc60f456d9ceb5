import Ambient.Proofs.Build.InPlace
import Ambient.Proofs.Build.Mode
import Ambient.Proofs.Validation.Order

/-!
# Where a name is exported as itself

A statement that exports a name as itself may stand anywhere, before the declaration of the name or
behind it, when the source registers the name once.  The passes with and without the statement are
in lockstep from there on, so it is enough to follow one slot: behind the declaration the two slots
differ in the flag, and before it an alias waits and hands its flag over.
-/

namespace Ambient

/-! ### States of a pass -/

namespace BuildState

/-- The items have distinct names, and all of them were registered. -/
structure Coherent (s : BuildState) : Prop where
  nodup : s.module.items.names.Nodup
  registered : ∀ name ∈ s.module.items.names, name ∈ s.registered

theorem coherent_start (modName : String) : (Build.start modName).Coherent :=
  ⟨List.nodup_nil, fun _ h => by cases h⟩

/-- An act keeps the names of the items, or registers one more. -/
theorem names_after (s : BuildState) (a : Act) :
    (s.after a).module.items.names = s.module.items.names ∨
      ∃ name d, a = .register name d ∧ name ∉ s.module.items.names ∧
        (s.after a).module.items.names = s.module.items.names ++ [name] := by
  cases a with
  | register name d =>
      have hnames : (s.after (.register name d)).module.items.names = _ :=
        Table.names_set s.module.items name _
      by_cases hmem : name ∈ s.module.items.names
      · rw [hnames, if_pos hmem]
        exact .inl rfl
      · rw [hnames, if_neg hmem]
        exact .inr ⟨name, d, rfl, hmem, rfl⟩
  | mark name => exact .inl (Table.names_update _ _ _)
  | aggregate d =>
      left
      simp [after, Module.setAggregate, Table.mapEntries, Table.names, Function.comp_def]
  | promote name => exact .inl (s.module.names_promote name)
  | members name f =>
      left
      rw [after, Module.modifyMembers_eq]
      exact Table.names_update _ _ _
  | describe text =>
      left
      rw [after, Module.describe]
      split
      · rfl
      · rfl
  | _ => exact .inl rfl

theorem count_registered_le_after (s : BuildState) (a : Act) (name : String) :
    s.registered.count name ≤ (s.after a).registered.count name := by
  cases a with
  | register other d => exact List.count_le_count_cons
  | _ => exact Nat.le_refl _

theorem count_registered_le_afterAll (s : BuildState) (acts : List Act) (name : String) :
    s.registered.count name ≤ (s.afterAll acts).registered.count name := by
  induction acts generalizing s with
  | nil => exact Nat.le_refl _
  | cons a acts ih => exact Nat.le_trans (s.count_registered_le_after a name) (ih (s.after a))

theorem Coherent.after {s : BuildState} (h : s.Coherent) (a : Act) : (s.after a).Coherent := by
  have hkept : ∀ name ∈ s.registered, name ∈ (s.after a).registered := by
    intro name hname
    have hle := s.count_registered_le_after a name
    exact List.count_pos_iff.1 (Nat.lt_of_lt_of_le (List.count_pos_iff.2 hname) hle)
  rcases s.names_after a with hnames | ⟨name, d, rfl, hnew, hnames⟩
  · constructor
    · rw [hnames]
      exact h.nodup
    · rw [hnames]
      exact fun name hname => hkept name (h.registered name hname)
  · constructor
    · rw [hnames]
      exact (List.nodup_append_comm.1 (List.nodup_cons.2 ⟨hnew, h.nodup⟩))
    · rw [hnames, List.forall_mem_append, List.forall_mem_singleton]
      exact ⟨fun other hother => hkept other (h.registered other hother), List.mem_cons_self ..⟩

theorem Coherent.afterAll {s : BuildState} (h : s.Coherent) (acts : List Act) :
    (s.afterAll acts).Coherent := by
  induction acts generalizing s with
  | nil => exact h
  | cons a acts ih => exact ih (h.after a)

theorem name_after (s : BuildState) (a : Act) : (s.after a).module.name = s.module.name := by
  cases a with
  | promote name =>
      rw [after, Module.promote]
      split
      · rfl
      · rfl
  | describe text =>
      rw [after, Module.describe]
      split
      · rfl
      · rfl
  | _ => rfl

theorem description_after_congr {s t : BuildState}
    (h : s.module.description = t.module.description) (a : Act) :
    (s.after a).module.description = (t.after a).module.description := by
  cases a with
  | promote name => rw [after, after, Module.description_promote, Module.description_promote, h]
  | describe text =>
      rw [after, after, Module.describe, Module.describe, h]
      split
      · rfl
      · exact h
  | _ => exact h

end BuildState

/-! ### One slot, with and without the export -/

/-- What stands under a name without and with its own export: the same declaration, which is then
exported, or nothing and an alias that waits for a declaration.  Where another name stands for
something, another name stays. -/
def Decl.Exposes (name : String) (old new : Option Decl) : Prop :=
  (∃ d, old = some d ∧ new = some (d.setExported true)) ∨
    (old = none ∧ new = some (.aliasOf { exported := true } name)) ∨
      ∃ d e, old = some d ∧ new = some e ∧ d.isAlias = true ∧ e.isAlias = true

/-- An undescribed alias hands over its flag and nothing else. -/
theorem Module.handOver_waiting (name : String) (d : Decl) :
    handOver name (some (.aliasOf { exported := true } name)) d = d.setExported true := by
  rw [handOver_of_pending rfl, Decl.setExported]
  congr 1
  funext own
  by_cases hempty : own.description.isEmpty = true
  · rw [if_pos hempty, String.isEmpty_iff.1 hempty]
  · rw [if_neg hempty]

theorem Act.exposes_onSlot {name : String} {old new : Option Decl} (h : Decl.Exposes name old new)
    {a : Act} (hmember : ¬ a.IsAggregate) (hfirst : ∀ d, a = .register name d → old = none) :
    Decl.Exposes name (a.onSlot name old) (a.onSlot name new) := by
  have hmap {f : Decl → Decl} (hf : ∀ d : Decl, f (d.setExported true) = (f d).setExported true)
      (halias : ∀ d : Decl, (f d).isAlias = d.isAlias)
      (hwaiting : f (.aliasOf { exported := true } name) = .aliasOf { exported := true } name) :
      Decl.Exposes name (old.map f) (new.map f) := by
    rcases h with ⟨d, rfl, rfl⟩ | ⟨rfl, rfl⟩ | ⟨d, e, rfl, rfl, hd, he⟩
    · exact .inl ⟨f d, rfl, congrArg some (hf d)⟩
    · exact .inr (.inl ⟨rfl, congrArg some hwaiting⟩)
    · exact .inr (.inr ⟨f d, f e, rfl, rfl, (halias d).trans hd, (halias e).trans he⟩)
  cases a with
  | register other d =>
      rw [onSlot, onSlot]
      split
      · rename_i heq
        subst heq
        cases hfirst d rfl
        rcases h with ⟨e, he, -⟩ | ⟨-, rfl⟩ | ⟨e, -, he, -⟩
        · cases he
        · exact .inl ⟨d, rfl, congrArg some (Module.handOver_waiting name d)⟩
        · cases he
      · exact h
  | mark other =>
      rw [onSlot, onSlot]
      split
      · exact hmap (fun _ => rfl) (fun d => d.isAlias_setExported true) rfl
      · exact h
  | aggregate d => exact (hmember trivial).elim
  | promote other =>
      rw [onSlot, onSlot]
      split
      · exact hmap (fun d => d.promote_setExported true) Decl.isAlias_promote rfl
      · exact h
  | members other f =>
      rw [onSlot, onSlot]
      split
      · exact hmap (fun d => (d.mapMembers_setExported f true).symm) (Decl.isAlias_mapMembers f) rfl
      · exact h
  | _ => exact h

/-! ### Runs of acts -/

/-- The second state is the first one with the name exported as itself. -/
structure Exposed (name : String) (s t : BuildState) : Prop where
  title : t.module.name = s.module.name
  description : t.module.description = s.module.description
  elsewhere : ∀ other, other ≠ name → t.module.items.get? other = s.module.items.get? other
  slot : Decl.Exposes name (s.module.items.get? name) (t.module.items.get? name)

namespace Exposed

variable {name : String} {s t : BuildState}

theorem after (h : Exposed name s t) {a : Act} (ha : ¬ a.IsAggregate)
    (hfirst : ∀ d, a = .register name d → s.module.items.get? name = none) :
    Exposed name (s.after a) (t.after a) where
  title := by rw [t.name_after, s.name_after, h.title]
  description := BuildState.description_after_congr h.description a
  elsewhere other hother := by rw [t.get?_after, s.get?_after, h.elsewhere other hother]
  slot := by
    rw [t.get?_after, s.get?_after]
    exact Act.exposes_onSlot h.slot ha hfirst

/-- The states stay so while the name is registered only once. -/
theorem afterAll (h : Exposed name s t) (hs : s.Coherent) {acts : List Act}
    (hacts : ∀ a ∈ acts, ¬ a.IsAggregate) (honce : (s.afterAll acts).registered.count name ≤ 1) :
    Exposed name (s.afterAll acts) (t.afterAll acts) := by
  induction acts generalizing s t with
  | nil => exact h
  | cons a acts ih =>
      obtain ⟨ha, hacts⟩ := List.forall_mem_cons.1 hacts
      refine ih (h.after ha ?_) (hs.after a) hacts honce
      rintro d rfl
      by_contra hsome
      obtain ⟨e, he⟩ := Option.ne_none_iff_exists'.1 hsome
      -- An item was registered before, so this is the second time.
      have hmem := hs.registered name (Table.mem_names_of_get? he)
      have hcount := List.count_pos_iff.2 hmem
      have hle := (s.after (.register name d)).count_registered_le_afterAll acts name
      have hcons : (s.after (.register name d)).registered.count name =
          s.registered.count name + 1 := List.count_cons_self
      rw [BuildState.afterAll_cons] at honce
      omega

theorem items_perm (h : Exposed name s t) (hs : s.Coherent) (ht : t.Coherent) {d : Decl}
    (hd : s.module.items.get? name = some d) (hown : d.isAlias = false) :
    t.module.items.Perm (s.module.markExported name).items := by
  have hnames : (s.module.markExported name).items.names = s.module.items.names :=
    Table.names_update _ _ _
  refine Table.perm_of_get? ht.nodup (hnames ▸ hs.nodup) fun other => ?_
  rw [Module.get?_markExported]
  split
  · rename_i heq
    rw [heq, hd]
    rcases h.slot with ⟨e, he, hnew⟩ | ⟨hnone, -⟩ | ⟨e, -, he, -, halias, -⟩
    · cases hd.symm.trans he
      exact hnew
    · cases hd.symm.trans hnone
    · cases hd.symm.trans he
      cases hown.symm.trans halias
  · rename_i hne
    exact h.elsewhere other hne

/-- What is asked of declarations of their own only is answered alike. -/
theorem any_get? (h : Exposed name s t) {p : Decl → Bool}
    (hexported : ∀ d : Decl, p (d.setExported true) = p d)
    (halias : ∀ d : Decl, d.isAlias = true → p d = false) (other : String) :
    (s.module.items.get? other).any p = (t.module.items.get? other).any p := by
  by_cases hother : other = name
  · rw [hother]
    rcases h.slot with ⟨d, hd, hnew⟩ | ⟨hnone, hnew⟩ | ⟨d, e, hd, hnew, hd', he'⟩
    · rw [hd, hnew, Option.any_some, Option.any_some, hexported]
    · rw [hnone, hnew, Option.any_some, halias _ rfl]
      rfl
    · rw [hd, hnew, Option.any_some, Option.any_some, halias d hd', halias e he']
  · rw [h.elsewhere other hother]

theorem akin (h : Exposed name s t) {extra : String → Nat}
    (hregistered : ∀ k, t.registered.count k = s.registered.count k + extra k) :
    Akin extra s t where
  own := by
    refine h.any_get? (fun d => d.isOwn_setExported true) fun d hd => ?_
    rw [Decl.isOwn, hd]
    rfl
  constructible other := by
    rw [Module.hasConstructor_eq, Module.hasConstructor_eq]
    refine h.any_get? (fun d => d.isConstructor_setExported true) (fun d hd => ?_) other
    cases d with
    | aliasOf hd' target => rfl
    | _ => cases hd
  registered := hregistered

end Exposed

namespace Build

variable {name : String}

/-- The acts that export a name as itself, where it has a declaration of its own and where not. -/
theorem ownExportActs_cases (name : String) (old : Option Decl) :
    (∃ d, old = some d ∧ ownExportActs name old = [.mark name]) ∨
      ((old = none ∨ ∃ d, old = some d ∧ d.isAlias = true) ∧
        ownExportActs name old = [.register name (.aliasOf { exported := true } name)]) := by
  cases old with
  | none => exact .inr ⟨.inl rfl, rfl⟩
  | some d =>
      cases d with
      | aliasOf h t => exact .inr ⟨.inr ⟨_, rfl, rfl⟩, rfl⟩
      | _ => exact .inl ⟨_, rfl, rfl⟩

theorem not_isAggregate_ownExportActs (name : String) (old : Option Decl) :
    ∀ a ∈ ownExportActs name old, ¬ a.IsAggregate := by
  rcases ownExportActs_cases name old with ⟨d, -, hacts⟩ | ⟨-, hacts⟩
  · rw [hacts]
    exact List.forall_mem_singleton.2 fun h => h
  · rw [hacts]
    exact List.forall_mem_singleton.2 fun h => h

theorem exposed_ownExportActs (s : BuildState) (name : String) :
    Exposed name s (s.afterAll (ownExportActs name (s.module.items.get? name))) := by
  rcases ownExportActs_cases name (s.module.items.get? name) with ⟨d, hd, hacts⟩ | ⟨hold, hacts⟩
  · rw [hacts]
    refine ⟨rfl, rfl, fun other hne => ?_, .inl ⟨d, hd, ?_⟩⟩
    · exact (s.get?_after (.mark name) other).trans (if_neg hne)
    · refine (s.get?_after (.mark name) name).trans ((if_pos rfl).trans ?_)
      rw [hd]
      rfl
  · rw [hacts]
    refine ⟨rfl, rfl, fun other hne => ?_, ?_⟩
    · exact (s.get?_after (.register name _) other).trans (if_neg hne)
    · have hnew : ((s.after (.register name (.aliasOf { exported := true } name))).module.items.get?
          name) = some (Module.handOver name (s.module.items.get? name) _) :=
        s.module.get?_add_self _
      rcases hold with hnone | ⟨d, hd, halias⟩
      · rw [hnone] at hnew
        exact .inr (.inl ⟨hnone, hnew⟩)
      · exact .inr (.inr ⟨d, _, hd, hnew, halias, Module.isAlias_handOver _ name _⟩)

/-- With the name exported as itself, a pass decides as it does without. -/
theorem exists_akin_ownExportActs (s : BuildState) (name : String) :
    ∃ extra, Akin extra s (s.afterAll (ownExportActs name (s.module.items.get? name))) := by
  have hexposed := exposed_ownExportActs s name
  rcases ownExportActs_cases name (s.module.items.get? name) with ⟨d, -, hacts⟩ | ⟨-, hacts⟩
  · rw [hacts] at hexposed ⊢
    exact ⟨fun _ => 0, hexposed.akin fun _ => rfl⟩
  · rw [hacts] at hexposed ⊢
    exact ⟨fun k => if name == k then 1 else 0, hexposed.akin fun k => List.count_cons⟩

/-! ### Whole sources -/

theorem allows_of_not_assigns {st : Node} (h : ¬ st.Assigns "module.exports") :
    Allows (fun a => ¬ a.IsAggregate) st :=
  fun path hpath a ha => (allows_spares (exportsWithin_mayExport h) path hpath a ha).1

theorem exports_of_exportsOwn {st : Node} (h : st.ExportsOwn name) : st.Exports name := by
  cases h with
  | assigned hk he h _ _ _ => exact .assigned hk he h
  | @listed clause specifier _ hk hdefault hd _ hclause hkclause hspecifier _ _ _ hrenamed =>
      refine .specified hk hdefault hd ?_ hkclause ?_ hrenamed
      · rw [hclause]
        exact List.mem_singleton_self _
      · rw [hspecifier]
        exact List.mem_singleton_self _

theorem documenting_of_exportsOwn {st : Node} (h : st.ExportsOwn name) (before : List Node) :
    Context.documenting (st :: before) = none := by
  have hkind : st.kind = .expressionStatement ∨ st.kind = .exportStatement := by
    cases h with
    | assigned hk => exact .inl hk
    | listed hk => exact .inr hk
  rcases hkind with hk | hk
  · simp [Context.documenting, Node.isComment, hk]
  · simp [Context.documenting, Node.isComment, hk]

theorem runFrom_statements_append_of_ok {ctx : Context} {before nodes rest : List Node}
    {s mid : BuildState} (h : runFrom (statements ctx before nodes) s = (.ok (), mid)) :
    runFrom (statements ctx before (nodes ++ rest)) s =
      runFrom (statements ctx (nodes.reverse ++ before) rest) mid := by
  induction nodes generalizing s before with
  | nil =>
      cases h
      rfl
  | cons n nodes ih =>
      rw [statements_cons] at h
      obtain ⟨_, between, hstep, hrest⟩ := runFrom_bind_ok h
      rw [List.cons_append, statements_cons, runFrom_bind_of_ok hstep, ih hrest, List.reverse_cons,
        List.append_assoc]
      rfl

theorem progress_afterAll_mode {s : BuildState} (h : s.module.aggregate = none) {mode : List Act}
    (hmode : mode = [] ∨ mode = [.memberwise]) : (s.afterAll mode).progress = s.progress := by
  rcases hmode with rfl | rfl
  · rfl
  · rw [BuildState.progress, BuildState.progress, BuildState.afterAll_cons, BuildState.afterAll_nil,
      BuildState.after, Module.memberwise_eq_self _ h]

/-- The run with the statement inserted performs the acts of the run without, and in between those
that export the name as itself. -/
theorem exists_runFrom_inserted {c : Context} {before before' behind behind' : List Node}
    {st : Node} {s₀ s : BuildState} (hbefore : before.map Node.code = before'.map Node.code)
    (hbehind : behind.map Node.code = behind'.map Node.code) (hst : st.ExportsOwn name)
    (hcomment : Context.documenting before.reverse = none)
    (hfree : ∀ e ∈ before ++ behind, ¬ e.Assigns "module.exports")
    (hmode : s₀.module.aggregate = none)
    (hrun : runFrom (statements c [] (before ++ behind)) s₀ = (.ok (), s)) :
    ∃ first rest t, (∀ a ∈ first ++ rest, ¬ a.IsAggregate) ∧
      s.progress = (s₀.afterAll (first ++ rest)).progress ∧
      runFrom (statements c [] (before' ++ st :: behind')) s₀ = (.ok (), t) ∧
      t.progress = ((s₀.afterAll first).afterAll
        (ownExportActs name ((s₀.afterAll first).module.items.get? name) ++ rest)).progress := by
  obtain ⟨hfree, hfree'⟩ := List.forall_mem_append.1 hfree
  obtain ⟨mid, hfirst, hrest⟩ := runFrom_statements_append hrun
  rw [List.append_nil] at hrest
  -- Both runs are level in front of the inserted statement.
  have hlockstep : Lockstep (fun a => ¬ a.IsAggregate) (statements c [] before)
      (statements c [] before') :=
    lockstep_statements (fun _ ha => ha) (.refl c) rfl hbefore fun e he =>
      allows_of_not_assigns (hfree e he)
  obtain ⟨mid', hfirst', first, hacts, hmid, hmid'⟩ :=
    hlockstep.exists_run (.of_progress rfl) hfirst
  have hmodule : mid'.module = (s₀.afterAll first).module := congrArg Progress.module hmid'
  have hmode' : mid'.module.aggregate = none := by
    rw [hmodule]
    exact BuildState.aggregate_afterAll hacts hmode
  -- The inserted statement has no comment of its own.
  have hcomment' : Context.documenting before'.reverse = none := by
    have htext := Context.map_text_documenting Node.likeness_sameCode
      (List.forall₂_reverse_iff.2 (Node.forall₂_sameCode hbefore))
    rw [hcomment, Option.map_none] at htext
    exact Option.map_eq_none_iff.1 htext.symm
  obtain ⟨mode, hmode'', hown⟩ := runFrom_exportsOwn hst
    (show (c.behind before'.reverse).comment = none from hcomment') mid'
  have hnext : (mid'.afterAll (mode ++ ownExportActs name (mid'.module.items.get? name))).progress =
      ((s₀.afterAll first).afterAll
        (ownExportActs name ((s₀.afterAll first).module.items.get? name))).progress := by
    rw [hmodule, BuildState.afterAll_append]
    exact BuildState.progress_afterAll_congr
      ((progress_afterAll_mode hmode' hmode'').trans hmid') _
  -- From here on the runs are in lockstep, one with the name exported.
  obtain ⟨extra, hakin⟩ := exists_akin_ownExportActs (s₀.afterAll first) name
  have hlockstep' : Lockstep (fun a => ¬ a.IsAggregate) (statements c before.reverse behind)
      (statements c (st :: before'.reverse) behind') := by
    refine lockstep_statements (fun _ ha => ha) (.refl c) ?_ hbehind fun e he =>
      allows_of_not_assigns (hfree' e he)
    rw [hcomment, documenting_of_exportsOwn hst]
  obtain ⟨t, hrest', rest, hacts', hs, ht⟩ := hlockstep'.exists_run (hakin.congr hmid hnext) hrest
  refine ⟨first, rest, t, List.forall_mem_append.2 ⟨hacts, hacts'⟩, ?_, ?_, ?_⟩
  · rw [BuildState.afterAll_append]
    exact hs.trans (BuildState.progress_afterAll_congr hmid rest)
  · rw [runFrom_statements_append_of_ok hfirst', List.append_nil, statements_cons, step,
      if_pos (isNamed_of_exports (exports_of_exportsOwn hst)), runFrom_bind_of_ok hown]
    exact hrest'
  · rw [BuildState.afterAll_append]
    exact ht.trans (BuildState.progress_afterAll_congr hnext rest)

/-- A statement that exports a name as itself may stand anywhere among the statements of a source
that does not assign `module.exports` and registers the name once, as a declaration of its own: the
source with the statement leaves the module of the source without it, with the item marked, in an
order of its own. -/
theorem own_export_stands_anywhere (resolver : Resolver) (modName : String) (tree tree' : Node)
    (name : String) (before before' : List Node) (st : Node) (behind behind' : List Node)
    (htree : tree.children = before ++ behind) (htree' : tree'.children = before' ++ st :: behind')
    (hbefore : before.map Node.code = before'.map Node.code)
    (hbehind : behind.map Node.code = behind'.map Node.code) (hst : st.ExportsOwn name)
    (hcomment : Context.documenting before.reverse = none)
    (hfree : ∀ e ∈ tree.children, ¬ e.Assigns "module.exports") (s : BuildState)
    (hrun : runFrom (statements { resolver } [] tree.children) (start modName) = (.ok (), s))
    (honce : s.registered.count name = 1) (d : Decl) (hd : s.module.items.get? name = some d)
    (hown : d.isAlias = false) :
    ∃ m m', (ofTree resolver modName tree).result = .ok m ∧
      (ofTree resolver modName tree').result = .ok m' ∧ m'.name = m.name ∧
      m'.description = m.description ∧ m'.aggregate = m.aggregate ∧
      m'.items.Perm (m.markExported name).items := by
  have hresult := result_ofTree hrun
  rw [htree] at hrun hfree
  obtain ⟨first, rest, t, hacts, hs, hrun', ht⟩ := exists_runFrom_inserted
    hbefore hbehind hst hcomment hfree rfl hrun
  rw [← htree'] at hrun'
  obtain ⟨hacts, hacts'⟩ := List.forall_mem_append.1 hacts
  -- What is left is the state in front of the statement and the acts on both sides of it.
  generalize hmid : (start modName).afterAll first = mid at ht
  have hcoherent : mid.Coherent := hmid ▸ (BuildState.coherent_start modName).afterAll first
  have hmode : mid.module.aggregate = none := hmid ▸ BuildState.aggregate_afterAll hacts rfl
  rw [BuildState.afterAll_append, hmid] at hs
  rw [BuildState.afterAll_append] at ht
  have hmodule : s.module = (mid.afterAll rest).module := congrArg Progress.module hs
  have hregistered : s.registered = (mid.afterAll rest).registered :=
    congrArg Progress.registered hs
  have hmodule' : t.module = _ := congrArg Progress.module ht
  rw [hregistered] at honce
  rw [hmodule] at hd
  have hexposed := (exposed_ownExportActs mid name).afterAll hcoherent hacts' (Nat.le_of_eq honce)
  have hperm := hexposed.items_perm (hcoherent.afterAll rest) ((hcoherent.afterAll _).afterAll rest)
    hd hown
  have hnone : s.module.aggregate = none := by
    rw [hmodule]
    exact BuildState.aggregate_afterAll hacts' hmode
  have hnone' : t.module.aggregate = none := by
    rw [hmodule']
    refine BuildState.aggregate_afterAll hacts' ?_
    exact BuildState.aggregate_afterAll (not_isAggregate_ownExportActs name _) hmode
  refine ⟨_, _, hresult, result_ofTree hrun', ?_, ?_, ?_, ?_⟩
  · rw [Module.validate, Module.validate, hmodule, hmodule']
    exact hexposed.title
  · rw [Module.validate, Module.validate, hmodule, hmodule']
    exact hexposed.description
  · rw [Module.validate, Module.validate, hnone, hnone']
    rfl
  · rw [← Module.validate_markExported, hmodule, hmodule']
    exact Module.items_validate_perm resolver.extraTypes hperm

/-- `exports.n = n;` in front of `var n = 1; exports.k = 3;` and behind it. -/
theorem own_export_stands_anywhere_both_ends :
    let marker := exportOf "n" (leaf .identifier "n")
    let sts := [declarationOf "n" (leaf .number "1"), exportOf "k" (leaf .number "3")]
    ∃ m m', (ofTree {} "m" (sourceOf (marker :: sts))).result = .ok m ∧
      (ofTree {} "m" (sourceOf (sts ++ [marker]))).result = .ok m' ∧
      m.aggregate = m'.aggregate ∧ m.items.Perm m'.items := by
  intro marker sts
  have hmarker : marker.ExportsOwn "n" := exportsOwn_exportOf (by decide)
  have hfirst : runFrom (step {} [] (declarationOf "n" (leaf .number "1"))) (start "m") = _ :=
    runFrom_declarationOf rfl "n" "1" (start "m")
  have hsecond (s : BuildState) : runFrom (step {} [declarationOf "n" (leaf .number "1")]
      (exportOf "k" (leaf .number "3"))) s = _ :=
    runFrom_exportOf rfl (show '.' ∉ "k".toList by decide) "3" s
  have hrun : runFrom (statements {} [] sts) (start "m") = (.ok (), (start "m").afterAll
      [.register "n" number, .memberwise, .register "k" (number.setExported true)]) := by
    rw [statements_cons, runFrom_bind_of_ok hfirst, statements_cons, runFrom_bind_of_ok (hsecond _)]
    rfl
  have hfree : ∀ e ∈ sts, ¬ e.Assigns "module.exports" :=
    List.forall_mem_cons.2 ⟨not_assigns_declarationOf "n" "1" _,
      List.forall_mem_singleton.2 (not_assigns_exportOf (by decide) "3")⟩
  obtain ⟨m, m', hm, hm', -, -, haggregate, hperm⟩ := own_export_stands_anywhere {} "m"
    (sourceOf sts) (sourceOf (marker :: sts)) "n" [] [] marker sts sts rfl rfl rfl rfl hmarker rfl
    hfree _ hrun rfl number rfl rfl
  obtain ⟨m₂, m'', hm₂, hm'', -, -, haggregate', hperm'⟩ := own_export_stands_anywhere {} "m"
    (sourceOf sts) (sourceOf (sts ++ [marker])) "n" sts sts marker [] [] rfl rfl rfl rfl hmarker rfl
    hfree _ hrun rfl number rfl rfl
  cases hm.symm.trans hm₂
  exact ⟨m', m'', hm', hm'', haggregate.trans haggregate'.symm, hperm.trans hperm'.symm⟩

/-- `var name = exports.name = value;` -/
def exportedInitialiser (name : String) (v : Node) : Node :=
  declarationOf name
    (assignment (memberOf (leaf .identifier "exports") (leaf .propertyIdentifier name)) v)

theorem runFrom_exportedInitialiser {ctx : Context} (hctx : ctx.comment = none)
    (hname : '.' ∉ name.toList) (text : String) (s : BuildState) :
    runFrom (statement ctx (exportedInitialiser name (leaf .number text))) s =
      (.ok (), s.afterAll [.memberwise, .register name (number.setExported true),
        .register name number]) := by
  have hvalue (c : Context) (hc : c.comment = none) :
      runFrom (value c ((assignment (memberOf (leaf .identifier "exports")
        (leaf .propertyIdentifier name)) (leaf .number text)).as .value)) s =
      (.ok number, s.afterAll [.memberwise, .register name (number.setExported true)]) := by
    have hinner (e : Node) : (c.enter e).comment = none := hc
    rw [value_assignment_eq c rfl rfl,
      runFrom_bind_of_ok (runFrom_assign_export (hinner _) hname rfl rfl s)]
    exact runFrom_number (hinner _) text .right _
  exact runFrom_declarationOf_of_value hctx name keyword_number hvalue

/-- `exports.n = n;` in front of `var n = exports.n = 1;` does not export `n`, and behind it does:
the export in the statement takes the place of the alias that waits, and the declaration that follows
finds nothing to take over. -/
theorem own_export_lost_in_front :
    let marker := exportOf "n" (leaf .identifier "n")
    let st := exportedInitialiser "n" (leaf .number "1")
    marker.ExportsOwn "n" ∧ st.boundNames = ["n"] ∧ ¬ st.Assigns "module.exports" ∧
      ∃ m m', (ofTree {} "m" (sourceOf [marker, st])).result = .ok m ∧
        (ofTree {} "m" (sourceOf [st, marker])).result = .ok m' ∧
        m.items.get? "n" = some number ∧ m'.items.get? "n" = some (number.setExported true) := by
  intro marker st
  have hname : '.' ∉ "n".toList := by decide
  have hmarker (s : BuildState) : runFrom (step {} [] marker) s = _ :=
    runFrom_exportOf_own rfl hname s
  have hmarker' (s : BuildState) : runFrom (step {} [st] marker) s = _ :=
    runFrom_exportOf_own rfl hname s
  have hst (s : BuildState) : runFrom (step {} [] st) s = _ :=
    runFrom_exportedInitialiser rfl hname "1" s
  have hst' (s : BuildState) : runFrom (step {} [marker] st) s = _ :=
    runFrom_exportedInitialiser rfl hname "1" s
  have hfront : runFrom (statements {} [] [marker, st]) (start "m") = (.ok (), (start "m").afterAll
      [.memberwise, .register "n" (.aliasOf { exported := true } "n"), .memberwise,
        .register "n" (number.setExported true), .register "n" number]) := by
    rw [statements_cons, runFrom_bind_of_ok (hmarker _), statements_cons,
      runFrom_bind_of_ok (hst' _)]
    rfl
  have hbehind : runFrom (statements {} [] [st, marker]) (start "m") = (.ok (), (start "m").afterAll
      [.memberwise, .register "n" (number.setExported true), .register "n" number, .memberwise,
        .mark "n"]) := by
    rw [statements_cons, runFrom_bind_of_ok (hst _), statements_cons,
      runFrom_bind_of_ok (hmarker' _)]
    rfl
  have hfree : ¬ st.Assigns "module.exports" :=
    not_assigns_declarationOf_of_value "n"
      (not_assigns_exportAssignment (by decide) "1" (some .value))
  exact ⟨exportsOwn_exportOf hname, rfl, hfree, _, _, result_ofTree hfront, result_ofTree hbehind,
    rfl, rfl⟩

end Build

end Ambient
