import Ambient.Proofs.Build.Lockstep

/-!
# Passes beside other entries

A pass does not see entries that it neither registers nor exports, as long as they are local and
neither functions nor classes.  The second state is beside the first one when it has the same module
but for such entries.  From there, alike nodes are passed with the same result, failures included,
but for the line that a failure names, and the states stay beside each other.  With no entries to
spare this says that alike nodes leave the same module.
-/

namespace Ambient

/-- A failure without the line at which it occurred. -/
def Failure.unplaced : Failure → Failure
  | unhandled kind trail _ => unhandled kind trail none
  | f => f

/-- A declaration that no export, prototype or class changes unless it names it. -/
def Decl.isIdle (d : Decl) : Bool :=
  !d.isConstructor && !d.exported

namespace Module

variable (m : Module) (names : List String) {name : String}

/-- The module without the items under the given names. -/
def without : Module :=
  { m with items := m.items.without names }

variable {names}

theorem get?_without_of_not_mem (h : name ∉ names) :
    (m.without names).items.get? name = m.items.get? name :=
  m.items.get?_without_of_not_mem h

theorem get?_without_of_mem (h : name ∈ names) : (m.without names).items.get? name = none :=
  m.items.get?_without_of_mem h

theorem without_add (h : name ∉ names) (d : Decl) :
    (m.add name d).without names = (m.without names).add name d := by
  rw [without, without, add, add, Table.get?_without_of_not_mem m.items h, Table.without_set,
    if_neg h]

theorem without_setAggregate (d : Decl) :
    (m.setAggregate d).without names = (m.without names).setAggregate d := by
  rw [without, without, setAggregate, setAggregate, Table.without_mapEntries]

theorem without_markExported (name : String) :
    (m.markExported name).without names = (m.without names).markExported name := by
  rw [without, without, markExported, markExported, Table.without_update]

theorem without_modifyMembers (name : String) (f : Table Decl → Table Decl) :
    (m.modifyMembers name f).without names = (m.without names).modifyMembers name f := by
  rw [without, without, modifyMembers, modifyMembers, Table.without_update]

theorem without_promote (h : name ∉ names) :
    (m.promote name).without names = (m.without names).promote name := by
  have hget := m.get?_without_of_not_mem h
  cases hd : m.items.get? name with
  | none => rw [m.promote_eq_of_none hd, promote_eq_of_none _ (hget.trans hd)]
  | some d =>
      rw [m.promote_eq_of_get? hd, promote_eq_of_get? _ (hget.trans hd), without, without,
        Table.without_set, if_neg h]

theorem without_describe (text : String) :
    (m.describe text).without names = (m.without names).describe text := by
  rw [describe, describe]
  cases hempty : m.description.isEmpty <;> simp [without, hempty]

end Module

/-- The act neither registers nor marks one of the names. -/
def Act.Avoids (names : List String) : Act → Prop
  | .register name _ => name ∉ names
  | .mark name => name ∉ names
  | _ => True

/-- An act leaves an idle entry alone unless it registers or marks it. -/
theorem Act.onSlot_of_avoids {a : Act} {names : List String} (ha : a.Avoids names) {name : String}
    (hname : name ∈ names) {d : Decl} (hd : d.isIdle = true) :
    a.onSlot name (some d) = some d := by
  rw [Decl.isIdle, Bool.and_eq_true, Bool.not_eq_true', Bool.not_eq_true'] at hd
  obtain ⟨hconstructor, hexported⟩ := hd
  cases a with
  | register other e =>
      have hne : name ≠ other := fun heq => ha (heq ▸ hname)
      exact if_neg hne
  | mark other =>
      have hne : name ≠ other := fun heq => ha (heq ▸ hname)
      exact if_neg hne
  | aggregate e =>
      refine congrArg some (Decl.mapHeader_eq_self ?_)
      rw [← hexported]
      rfl
  | promote other =>
      refine ite_eq_right_iff.2 fun _ => ?_
      cases d <;> first | rfl | cases hconstructor
  | members other f =>
      refine ite_eq_right_iff.2 fun _ => ?_
      cases d <;> first | rfl | cases hconstructor
  | _ => rfl

/-! ### States beside each other -/

/-- The second state is the first one with further entries in the module. -/
structure Beside (extra : Table Decl) (s t : BuildState) : Prop where
  module : s.module = t.module.without extra.names
  entry : ∀ name d, extra.get? name = some d → t.module.items.get? name = some d
  registered : s.registered = t.registered.filter fun name => !extra.names.contains name

namespace Beside

variable {extra : Table Decl} {s t : BuildState}

theorem refl (s : BuildState) : Beside [] s s where
  module := by
    rw [Module.without]
    exact (congrArg (fun items => { s.module with items }) (Table.without_nil _)).symm
  entry _ _ h := by cases h
  registered := by simp [Table.names]

/-- Without further entries the modules are the same. -/
theorem module_eq (h : Beside [] s t) : s.module = t.module := by
  rw [h.module, Module.without]
  exact congrArg (fun items => { t.module with items }) (Table.without_nil _)

theorem congr {s' t' : BuildState} (h : Beside extra s t) (hs : s'.progress = s.progress)
    (ht : t'.progress = t.progress) : Beside extra s' t' := by
  have hsm : s'.module = s.module := congrArg Build.Progress.module hs
  have hsr : s'.registered = s.registered := congrArg Build.Progress.registered hs
  have htm : t'.module = t.module := congrArg Build.Progress.module ht
  have htr : t'.registered = t.registered := congrArg Build.Progress.registered ht
  exact ⟨by rw [hsm, htm, h.module], by rw [htm]; exact h.entry, by rw [hsr, htr, h.registered]⟩

theorem get?_of_not_mem (h : Beside extra s t) {name : String} (hname : name ∉ extra.names) :
    s.module.items.get? name = t.module.items.get? name := by
  rw [h.module]
  exact Module.get?_without_of_not_mem _ hname

theorem get?_of_mem (h : Beside extra s t) {name : String} (hname : name ∈ extra.names) :
    s.module.items.get? name = none := by
  rw [h.module]
  exact Module.get?_without_of_mem _ hname

theorem count_registered (h : Beside extra s t) {name : String} (hname : name ∉ extra.names) :
    s.registered.count name = t.registered.count name := by
  rw [h.registered, List.count_filter]
  simpa using hname

variable (hidle : ∀ name d, extra.get? name = some d → d.isIdle = true)

include hidle

theorem hasConstructor_of_mem (h : Beside extra s t) {name : String} (hname : name ∈ extra.names) :
    s.module.hasConstructor name = false ∧ t.module.hasConstructor name = false := by
  obtain ⟨d, hd⟩ := Table.exists_get?_of_mem_names hname
  have hconstructor := hidle name d hd
  rw [Decl.isIdle, Bool.and_eq_true, Bool.not_eq_true'] at hconstructor
  rw [Module.hasConstructor_eq, Module.hasConstructor_eq, h.get?_of_mem hname, h.entry name d hd]
  exact ⟨rfl, hconstructor.1⟩

theorem hasConstructor_eq (h : Beside extra s t) (name : String) :
    s.module.hasConstructor name = t.module.hasConstructor name := by
  by_cases hname : name ∈ extra.names
  · obtain ⟨hs, ht⟩ := h.hasConstructor_of_mem hidle hname
    rw [hs, ht]
  · rw [Module.hasConstructor_eq, Module.hasConstructor_eq, h.get?_of_not_mem hname]

/-- Acts that avoid the further entries keep the states beside each other. -/
theorem after (h : Beside extra s t) {a : Act} (ha : a.Avoids extra.names) :
    Beside extra (s.after a) (t.after a) where
  module := by
    have hmodule := h.module
    cases a with
    | register name d =>
        rw [BuildState.after, BuildState.after, hmodule, Module.without_add _ ha]
    | mark name => rw [BuildState.after, BuildState.after, hmodule, Module.without_markExported]
    | aggregate d => rw [BuildState.after, BuildState.after, hmodule, Module.without_setAggregate]
    | memberwise =>
        rw [BuildState.after, BuildState.after, hmodule]
        rfl
    | promote name =>
        rw [BuildState.after, BuildState.after]
        by_cases hname : name ∈ extra.names
        · obtain ⟨hs, ht⟩ := h.hasConstructor_of_mem hidle hname
          rw [Module.promote_of_not_hasConstructor _ (Bool.eq_false_iff.1 hs),
            Module.promote_of_not_hasConstructor _ (Bool.eq_false_iff.1 ht), hmodule]
        · rw [hmodule, Module.without_promote _ hname]
    | members name f =>
        rw [BuildState.after, BuildState.after, hmodule, Module.without_modifyMembers]
    | describe text => rw [BuildState.after, BuildState.after, hmodule, Module.without_describe]
    | _ => exact hmodule
  entry name d hd := by
    rw [t.get?_after, h.entry name d hd]
    exact a.onSlot_of_avoids ha (Table.mem_names_of_get? hd) (hidle name d hd)
  registered := by
    cases a with
    | register name d =>
        have hname : name ∉ extra.names := ha
        rw [BuildState.after, BuildState.after, h.registered, List.filter_cons_of_pos]
        simpa using hname
    | _ => exact h.registered

theorem afterAll (h : Beside extra s t) {acts : List Act} (ha : ∀ a ∈ acts, a.Avoids extra.names) :
    Beside extra (s.afterAll acts) (t.afterAll acts) := by
  induction acts generalizing s t with
  | nil => exact h
  | cons a acts ih =>
      obtain ⟨ha, hacts⟩ := List.forall_mem_cons.1 ha
      exact ih (h.after hidle ha) hacts

end Beside

namespace Context

/-- Two contexts that differ only in where the comment stands. -/
def Level (c c' : Context) : Prop :=
  c.resolver = c'.resolver ∧ c.trail = c'.trail ∧
    c.comment.map Node.text = c'.comment.map Node.text

theorem Level.refl (c : Context) : c.Level c :=
  ⟨rfl, rfl, rfl⟩

theorem agreement_level {S : Node → Node → Prop} (hS : Node.Likeness S) : Agreement S Level where
  resolver h := h.1
  comment h := h.2.2
  enter {c c'} h n n' hn := by
    refine ⟨h.1, ?_, h.2.2⟩
    rw [enter, enter, h.2.1, hS.kind hn]
  behind h _ _ hbefore := ⟨h.1, h.2.1, hbefore⟩

end Context

namespace Build

variable {α β : Type} {extra : Table Decl}

/-! ### Steps beside each other -/

/-- From states beside each other, unless the first step registers one of the further names, the
two steps have the same result, but for lines, and leave states beside each other. -/
structure Follows (extra : Table Decl) (x y : Build α) : Prop where
  grows : Grows x
  run : ∀ s t, Beside extra s t → (∀ name ∈ extra.names, name ∉ (runFrom x s).2.registered) →
    (runFrom x s).1.mapError Failure.unplaced = (runFrom y t).1.mapError Failure.unplaced ∧
      Beside extra (runFrom x s).2 (runFrom y t).2

namespace Follows

/-- Steps that change nothing but notices. -/
theorem of_quiet {x y : Build α}
    (hresult : ∀ s t,
      (runFrom x s).1.mapError Failure.unplaced = (runFrom y t).1.mapError Failure.unplaced)
    (hx : ∀ s, (runFrom x s).2.progress = s.progress)
    (hy : ∀ s, (runFrom y s).2.progress = s.progress) : Follows extra x y where
  grows s := by
    have hregistered : (runFrom x s).2.registered = s.registered :=
      congrArg Progress.registered (hx s)
    rw [hregistered]
    exact List.Subset.refl _
  run s t hst _ := ⟨hresult s t, hst.congr (hx s) (hy t)⟩

/-- Composed steps; the second ones follow each other from the states that the first ones leave. -/
theorem bind_runs {x y : Build α} {f g : α → Build β} (hx : Follows extra x y)
    (hgrows : ∀ s a s', runFrom x s = (.ok a, s') → Grows (f a))
    (hf : ∀ s a s', runFrom x s = (.ok a, s') → ∀ t', Beside extra s' t' →
      (∀ name ∈ extra.names, name ∉ (runFrom (f a) s').2.registered) →
      (runFrom (f a) s').1.mapError Failure.unplaced =
          (runFrom (g a) t').1.mapError Failure.unplaced ∧
        Beside extra (runFrom (f a) s').2 (runFrom (g a) t').2) :
    Follows extra (x >>= f) (y >>= g) where
  grows := by
    refine hx.grows.bind_of (Q := fun a => ∃ s s', runFrom x s = (.ok a, s')) ?_ ?_
    · exact fun s a s' hrun => ⟨s, s', hrun⟩
    · rintro a ⟨s, s', hrun⟩
      exact hgrows s a s' hrun
  run s t hst hfree := by
    have hfirst := hx.run s t hst
    rw [runFrom_bind] at hfree ⊢
    rw [runFrom_bind]
    rcases hs : runFrom x s with ⟨e | a, s'⟩ <;> rw [hs] at hfree hfirst
    · obtain ⟨hresult, hst'⟩ := hfirst hfree
      rcases ht : runFrom y t with ⟨e' | b, t'⟩ <;> rw [ht] at hresult hst'
      · exact ⟨congrArg Except.error (Except.error.inj hresult), hst'⟩
      · cases hresult
    · obtain ⟨hresult, hst'⟩ := hfirst fun name hname hmem =>
        hfree name hname (hgrows s a s' hs s' hmem)
      rcases ht : runFrom y t with ⟨e' | b, t'⟩ <;> rw [ht] at hresult hst'
      · cases hresult
      · cases hresult
        exact hf s a s' hs t' hst' hfree

theorem bind_of {Q : α → Prop} {x y : Build α} {f g : α → Build β} (hx : Follows extra x y)
    (hgives : Gives Q x) (hf : ∀ a, Q a → Follows extra (f a) (g a)) :
    Follows extra (x >>= f) (y >>= g) :=
  hx.bind_runs (fun s a s' hrun => (hf a (hgives s a s' hrun)).grows) fun s a s' hrun t' =>
    (hf a (hgives s a s' hrun)).run s' t'

theorem bind {x y : Build α} {f g : α → Build β} (hx : Follows extra x y)
    (hf : ∀ a, Follows extra (f a) (g a)) : Follows extra (x >>= f) (y >>= g) :=
  hx.bind_of (Q := fun _ => True) (fun _ _ _ _ => trivial) fun a _ => hf a

theorem pure (a : α) : Follows extra (pure a) (pure a) :=
  of_quiet (fun _ _ => rfl) (fun _ => rfl) fun _ => rfl

theorem notify (l l' : Log) : Follows extra (notify l) (notify l') :=
  of_quiet (fun _ _ => rfl) (fun _ => rfl) fun _ => rfl

end Follows

section

variable (hidle : ∀ name d, extra.get? name = some d → d.isIdle = true)

include hidle

/-- Both steps perform one act, which avoids the further names if its registrations do. -/
theorem follows_act {x y : Build Unit} {a : Act} (hx : ∀ s, runFrom x s = (.ok (), s.after a))
    (hy : ∀ s, runFrom y s = (.ok (), s.after a))
    (ha : ∀ s : BuildState, (∀ name ∈ extra.names, name ∉ (s.after a).registered) →
      a.Avoids extra.names) : Follows extra x y where
  grows s := by
    rw [hx]
    exact registered_subset_afterAll s [a]
  run s t hst hfree := by
    rw [hx] at hfree
    rw [hx, hy]
    exact ⟨rfl, hst.after hidle (ha s hfree)⟩

theorem follows_register (name : String) (d : Decl) :
    Follows extra (register name d) (register name d) :=
  follows_act hidle (a := .register name d) (fun _ => rfl) (fun _ => rfl) fun _ hfree hname =>
    hfree name hname (List.mem_cons_self ..)

theorem follows_mark {name : String} (hname : name ∉ extra.names) :
    Follows extra (modifyModule (·.markExported name)) (modifyModule (·.markExported name)) :=
  follows_act hidle (a := .mark name) (fun _ => rfl) (fun _ => rfl) fun _ _ => hname

/-- A name that the first module has is exported alike; any other is registered. -/
theorem follows_exportOwn (exported name : String) :
    Follows extra (exportOwn exported name) (exportOwn exported name) := by
  have hregister := follows_register hidle exported (.aliasOf { exported := true } name)
  refine ⟨?_, fun s t hst hfree => ?_⟩
  · refine .bind (fun s => List.Subset.refl _) fun old => ?_
    split
    · exact fun s => List.Subset.refl _
    · exact hregister.grows
  · rw [exportOwn, runFrom_bind_of_ok (runFrom_item? name s)] at hfree ⊢
    rw [runFrom_bind_of_ok (runFrom_item? name t)]
    by_cases hname : name ∈ extra.names
    · -- The first run registers what it exports, so it is another name.
      rw [hst.get?_of_mem hname, Option.any_none, Bool.and_false] at hfree ⊢
      have hne : exported ≠ name := by
        rintro rfl
        exact hfree exported hname (List.mem_cons_self ..)
      rw [decide_eq_false hne, Bool.false_and]
      exact hregister.run s t hst hfree
    · rw [hst.get?_of_not_mem hname] at hfree ⊢
      split at hfree
      · rename_i hmark
        rw [if_pos hmark]
        exact (follows_mark hidle hname).run s t hst hfree
      · rename_i hmark
        rw [if_neg hmark]
        exact hregister.run s t hst hfree

/-- Declared names that are exported were registered, so they are none of the further ones. -/
theorem follows_exportAll {x y : Build (List String)} (hx : Follows extra x y)
    (hregisters : Registers x) :
    Follows extra (x >>= fun names => names.forM fun name => modifyModule (·.markExported name))
      (y >>= fun names => names.forM fun name => modifyModule (·.markExported name)) := by
  refine hx.bind_runs (fun _ names _ _ s => ?_) fun s names s' hrun t' hst hfree => ?_
  · rw [runFrom_markAll]
    exact registered_subset_afterAll s _
  · have hkept := registered_subset_afterAll s' (names.map .mark)
    rw [runFrom_markAll] at hfree
    rw [runFrom_markAll, runFrom_markAll]
    refine ⟨rfl, hst.afterAll hidle (List.forall_mem_map.2 fun name hname hmem => ?_)⟩
    exact hfree name hmem (hkept (hregisters s names s' hrun hname))

theorem congruence_follows {S : Node → Node → Prop} (hS : Node.Likeness S) :
    ExportCongruence S Context.Level fun _ x y => Follows extra x y where
  toLikeness := hS
  toAgreement := Context.agreement_level hS
  pure := .pure
  throw _ := .of_quiet (fun _ _ => rfl) (fun _ => rfl) fun _ => rfl
  unhandled {α c c' n n'} h hn := by
    refine .of_quiet (fun s t => ?_) (fun _ => rfl) fun _ => rfl
    rw [runFrom_unhandled, runFrom_unhandled, h.2.1, hS.kind hn]
    rfl
  bind := .bind
  notify := .notify _ _
  readComment h := .of_quiet
    (fun s t => by rw [runFrom_readComment_result, runFrom_readComment_result, h])
    (progress_readComment _) (progress_readComment _)
  bind_of := .bind_of
  register name _ _ := follows_register hidle name _
  describe text :=
    follows_act hidle (a := .describe text) (fun _ => rfl) (fun _ => rfl) fun _ _ => trivial
  registerAny := follows_register hidle
  exportOwn := follows_exportOwn hidle
  exportAll := follows_exportAll hidle

/-! ### Assignments -/

omit hidle in
theorem grows_withClass {name : String} {x : Build Decl}
    {f : Decl → Build (Table Decl → Table Decl)} (hx : Grows x) (hf : ∀ d, Grows (f d)) :
    Grows (withClass name x f) := by
  have hlook : Grows (registrations name) := fun s => List.Subset.refl _
  refine hlook.bind fun before => hx.bind fun d => (hf d).bind fun change =>
    hlook.bind fun now => ?_
  split
  · exact fun s => List.Subset.refl _
  · exact fun s => List.Subset.refl _

omit hidle in
/-- Registrations of a name that is none of the further ones are counted alike. -/
theorem follows_registrations {name : String} (hname : name ∉ extra.names) {f g : Nat → Build α}
    (hf : ∀ k, Follows extra (f k) (g k)) :
    Follows extra (registrations name >>= f) (registrations name >>= g) where
  grows := .bind (fun s => List.Subset.refl _) fun k => (hf k).grows
  run s t hst hfree := by
    rw [runFrom_bind_of_ok (runFrom_registrations name s)] at hfree ⊢
    rw [runFrom_bind_of_ok (runFrom_registrations name t), ← hst.count_registered hname]
    exact (hf _).run s t hst hfree

/-- The class is changed in both runs or in none. -/
theorem follows_withClass {name : String} (hname : name ∉ extra.names) {x y : Build Decl}
    {f g : Decl → Build (Table Decl → Table Decl)} (hx : Follows extra x y)
    (hf : ∀ d, Follows extra (f d) (g d)) :
    Follows extra (withClass name x f) (withClass name y g) := by
  refine follows_registrations hname fun before => hx.bind fun d => (hf d).bind fun change =>
    follows_registrations hname fun now => ?_
  split
  · exact follows_act hidle (a := .members name change) (fun _ => rfl) (fun _ => rfl) fun _ _ =>
      trivial
  · exact .pure ()

/-- Whether a class can be had under a name is decided alike, and there is none under a further
name. -/
theorem follows_fill {owner : String} {x y : Build Decl}
    {f g : Decl → Build (Table Decl → Table Decl)} {skipped skipped' : Build Unit}
    (hx : Follows extra x y) (hf : ∀ d, Follows extra (f d) (g d))
    (hskipped : Follows extra skipped skipped') :
    Follows extra (do if ← promote owner then withClass owner x f else skipped)
      (do if ← promote owner then withClass owner y g else skipped') where
  grows := by
    have hpromote : Grows (promote owner) := fun s => by
      rw [runFrom_promote]
      exact registered_subset_afterAll s [.promote owner]
    refine hpromote.bind fun b => ?_
    split
    · exact grows_withClass hx.grows fun d => (hf d).grows
    · exact hskipped.grows
  run s t hst hfree := by
    have hnext := hst.after hidle (a := .promote owner) trivial
    rw [runFrom_bind_of_ok (runFrom_promote owner s)] at hfree ⊢
    rw [runFrom_bind_of_ok (runFrom_promote owner t), ← hst.hasConstructor_eq hidle owner]
    cases hclass : s.module.hasConstructor owner with
    | true =>
        have howner : owner ∉ extra.names := fun hmem => by
          rw [(hst.hasConstructor_of_mem hidle hmem).1] at hclass
          cases hclass
        rw [hclass] at hfree
        exact (follows_withClass hidle howner hx hf).run _ _ hnext hfree
    | false =>
        rw [hclass] at hfree
        exact hskipped.run _ _ hnext hfree

/-- Exporting a member under a further name registers it in the first run: the value that is
exported in place there is an identifier, and reading it does not fail. -/
theorem follows_exportMember {S : Node → Node → Prop} (hS : Node.Likeness S) (name : String)
    {right right' : Node} (hright : S right right') {x y : Build Decl} (hx : Follows extra x y)
    (hreads : right.kind = .identifier → ∀ s, ∃ d s', runFrom x s = (.ok d, s')) :
    Follows extra (exportMember name right x) (exportMember name right' y) := by
  have hsame : (right.kind == .identifier && right.text == name) =
      (right'.kind == .identifier && right'.text == name) := by
    rw [← hS.kind hright]
    by_cases hk : right.kind = .identifier
    · rw [hS.text_of_kind hright hk rfl]
    · rw [beq_false_of_ne hk, Bool.false_and, Bool.false_and]
  have hmember : Follows extra (modifyModule fun m => { m with aggregate := none })
      (modifyModule fun m => { m with aggregate := none }) :=
    follows_act hidle (a := .memberwise) (fun _ => rfl) (fun _ => rfl) fun _ _ => trivial
  have hregister : Follows extra (x >>= fun d => register name (d.setExported true))
      (y >>= fun d => register name (d.setExported true)) :=
    hx.bind fun d => follows_register hidle name _
  refine hmember.bind fun _ => ⟨?_, fun s t hst hfree => ?_⟩
  · refine .bind (fun s => List.Subset.refl _) fun old => ?_
    dsimp only
    split
    · exact fun s => List.Subset.refl _
    · exact hregister.grows
  · rw [runFrom_bind_of_ok (runFrom_item? name s)] at hfree ⊢
    rw [runFrom_bind_of_ok (runFrom_item? name t)]
    dsimp only at hfree ⊢
    rw [← hsame]
    by_cases hname : name ∈ extra.names
    · rw [hst.get?_of_mem hname, Option.any_none, Bool.and_false] at hfree ⊢
      rw [if_neg Bool.false_ne_true] at hfree ⊢
      by_cases hk : right.kind = .identifier
      · obtain ⟨d, s', hrun⟩ := hreads hk s
        rw [runFrom_bind_of_ok hrun] at hfree
        exact (hfree name hname (List.mem_cons_self ..)).elim
      · rw [beq_false_of_ne hk, Bool.false_and, Bool.false_and]
        exact hregister.run s t hst hfree
    · rw [hst.get?_of_not_mem hname] at hfree ⊢
      split at hfree
      · rename_i hmark
        rw [if_pos hmark, if_pos hmark]
        exact (follows_mark hidle hname).run s t hst hfree
      · rename_i hmark
        rw [if_neg hmark, if_neg hmark]
        exact hregister.run s t hst hfree

theorem follows_assignTo {S : Node → Node → Prop} (hS : Node.Likeness S) (path : String)
    (line line' : Nat) {right right' : Node} (hright : S right right') {x y : Build Decl}
    (hx : Follows extra x y)
    (hreads : right.kind = .identifier → ∀ s, ∃ d s', runFrom x s = (.ok d, s')) :
    Follows extra (assignTo path line right x) (assignTo path line' right' y) := by
  unfold assignTo
  split
  · exact hx.bind fun d =>
      follows_act hidle (a := .aggregate d) (fun _ => rfl) (fun _ => rfl) fun _ _ => trivial
  · exact follows_exportMember hidle hS _ hright hx hreads
  · refine follows_fill hidle hx (fun d => ?_) (.notify _ _)
    split
    · exact .pure _
    · exact .bind (.notify _ _) fun _ => .pure _
  · exact follows_fill hidle hx (fun d => .pure _) (.notify _ _)
  · refine .bind (.notify _ _) fun _ => ?_
    rw [hS.kind hright]
    split
    · exact hx.bind fun _ => .pure _
    · exact .pure _

omit hidle in
/-- Reading an identifier succeeds. -/
theorem exists_runFrom_identifier {v : Node} (hk : v.kind = .identifier) (c : Context)
    (s : BuildState) : ∃ d s', runFrom (value c v) s = (.ok d, s') := by
  have hdoc : ∃ doc s', runFrom (documentation (c.enter v)) s = (.ok doc, s') := by
    rw [documentation]
    split
    · rename_i n _
      exact ⟨_, _, Prod.ext (runFrom_readComment_result n s) rfl⟩
    · exact ⟨_, _, rfl⟩
  obtain ⟨doc, s', hrun⟩ := hdoc
  rw [value]
  simp only [hk]
  rw [aliasValue, runFrom_bind_of_ok hrun]
  exact ⟨_, _, rfl⟩

theorem assignsAlike_follows {S : Node → Node → Prop} (hS : Node.Likeness S) (n : Node) :
    AssignsAlike S Context.Level (fun _ x y => Follows extra x y) n := by
  intro e e' _ hee _ hvalue c c' hc
  refine related_assign (congruence_follows hidle hS).toPassCongruence hc hee
    fun l r r' _ hr hrr path _ => ?_
  exact follows_assignTo hidle hS path _ _ hrr (hvalue r hr r' hrr c c' hc)
    fun hk s => exists_runFrom_identifier hk c s

/-- The statements of two sources with alike nodes follow each other. -/
theorem follows_statements {S : Node → Node → Prop} (hS : Node.Likeness S) {c c' : Context}
    (h : c.Level c') {host : Bool} {before before' nodes nodes' : List Node}
    (hbefore : (Context.documenting before).map Node.text =
      (Context.documenting before').map Node.text)
    (hnodes : Node.Padded host S nodes nodes') :
    Follows extra (statements c before nodes) (statements c' before' nodes') :=
  related_statements (congruence_follows hidle hS) h hbefore hnodes fun e _ =>
    assignsAlike_follows hidle hS e

end

end Build

end Ambient
