import Ambient.Proofs.Build.Chain
import Ambient.Proofs.Build.ExportPass

/-!
# Passes in lockstep

A pass decides little by its state: whether a name has a declaration of its own, whether a class can
be had under it, and whether it was registered again.  From two states that agree in this, nodes
with the same code are passed in the same way: both runs succeed or fail together, with equal
results, and both perform the same acts, but for notices.  What differs between the two states is
then a matter of what these acts do to each slot.
-/

namespace Ambient

/-! ### What an act does to one slot -/

/-- The slot of a name after an act, from the slot before. -/
def Act.onSlot (name : String) (a : Act) (old : Option Decl) : Option Decl :=
  match a with
  | .register other d => if name = other then some (Module.handOver name old d) else old
  | .mark other => if name = other then old.map (·.setExported true) else old
  | .aggregate _ => old.map (·.setExported false)
  | .promote other => if name = other then old.map Decl.promote else old
  | .members other f => if name = other then old.map (Decl.mapMembers f) else old
  | _ => old

theorem BuildState.get?_after (s : BuildState) (a : Act) (name : String) :
    (s.after a).module.items.get? name = a.onSlot name (s.module.items.get? name) := by
  cases a with
  | register other d =>
      rw [after, Act.onSlot]
      split
      · rename_i h
        rw [h]
        exact s.module.get?_add_self d
      · rename_i h
        exact s.module.get?_add_of_ne d h
  | mark other => exact s.module.get?_markExported other name
  | aggregate d => exact s.module.get?_setAggregate d name
  | promote other => exact s.module.get?_promote other name
  | members other f => exact s.module.get?_modifyMembers other name f
  | describe text =>
      rw [after, Module.describe]
      split
      · rfl
      · rfl
  | _ => rfl

/-- A declaration that is not another name for something. -/
def Decl.isOwn (d : Decl) : Bool :=
  !d.isAlias

theorem Decl.any_not_isAlias (old : Option Decl) :
    (old.any fun d => !d.isAlias) = old.any isOwn := rfl

theorem Decl.isOwn_setExported (d : Decl) (b : Bool) : (d.setExported b).isOwn = d.isOwn := by
  rw [isOwn, isAlias_setExported, isOwn]

theorem Module.isConstructor_handOver (d : Decl) (name : String) (old : Option Decl) :
    (handOver name old d).isConstructor = d.isConstructor := by
  unfold handOver
  split
  · split
    · exact d.isConstructor_mapHeader _
    · rfl
  · rfl

/-- What an act leaves in a slot is decided by what was there, as far as decisions go. -/
theorem Act.any_onSlot {p : Decl → Bool}
    (hhandOver : ∀ d name old, p (Module.handOver name old d) = p d)
    (hexported : ∀ d b, p (d.setExported b) = p d) (hpromote : ∀ d : Decl, p d.promote = p d)
    (hmembers : ∀ f d, p (Decl.mapMembers f d) = p d) (name : String) (a : Act)
    {old old' : Option Decl} (h : old.any p = old'.any p) :
    (a.onSlot name old).any p = (a.onSlot name old').any p := by
  have hmap {f : Decl → Decl} (hf : ∀ d, p (f d) = p d) :
      (old.map f).any p = (old'.map f).any p := by
    have hcomp : (fun d => p (f d)) = p := funext hf
    rw [Option.any_map, Option.any_map, hcomp, h]
  cases a with
  | register other d =>
      rw [onSlot, onSlot]
      split
      · rw [Option.any_some, Option.any_some, hhandOver, hhandOver]
      · exact h
  | mark other =>
      rw [onSlot, onSlot]
      split
      · exact hmap fun d => hexported d true
      · exact h
  | aggregate d => exact hmap fun d => hexported d false
  | promote other =>
      rw [onSlot, onSlot]
      split
      · exact hmap hpromote
      · exact h
  | members other f =>
      rw [onSlot, onSlot]
      split
      · exact hmap (hmembers f)
      · exact h
  | _ => exact h

/-! ### States that decide alike -/

/-- A pass decides alike in the two states; names were registered more often in the second one. -/
structure Akin (extra : String → Nat) (s t : BuildState) : Prop where
  own : ∀ name,
    (s.module.items.get? name).any Decl.isOwn = (t.module.items.get? name).any Decl.isOwn
  constructible : ∀ name, s.module.hasConstructor name = t.module.hasConstructor name
  registered : ∀ name, t.registered.count name = s.registered.count name + extra name

namespace Akin

variable {extra : String → Nat} {s t : BuildState}

theorem of_progress (h : s.progress = t.progress) : Akin (fun _ => 0) s t := by
  obtain ⟨hmodule, hregistered⟩ : s.module = t.module ∧ s.registered = t.registered :=
    ⟨congrArg Build.Progress.module h, congrArg Build.Progress.registered h⟩
  exact ⟨fun _ => by rw [hmodule], fun _ => by rw [hmodule], fun _ => by rw [hregistered]; rfl⟩

theorem congr {s' t' : BuildState} (h : Akin extra s t) (hs : s'.progress = s.progress)
    (ht : t'.progress = t.progress) : Akin extra s' t' := by
  have hsm : s'.module = s.module := congrArg Build.Progress.module hs
  have hsr : s'.registered = s.registered := congrArg Build.Progress.registered hs
  have htm : t'.module = t.module := congrArg Build.Progress.module ht
  have htr : t'.registered = t.registered := congrArg Build.Progress.registered ht
  obtain ⟨hown, hconstructible, hregistered⟩ := h
  rw [← hsm, ← htm] at hown hconstructible
  rw [← hsr, ← htr] at hregistered
  exact ⟨hown, hconstructible, hregistered⟩

theorem after (h : Akin extra s t) (a : Act) : Akin extra (s.after a) (t.after a) where
  own name := by
    rw [s.get?_after, t.get?_after]
    refine Act.any_onSlot ?_ Decl.isOwn_setExported ?_ ?_ name a (h.own name)
    · intro d name old
      rw [Decl.isOwn, Module.isAlias_handOver, Decl.isOwn]
    · intro d
      rw [Decl.isOwn, Decl.isAlias_promote, Decl.isOwn]
    · intro f d
      rw [Decl.isOwn, Decl.isAlias_mapMembers, Decl.isOwn]
  constructible name := by
    have hold := h.constructible name
    rw [Module.hasConstructor_eq, Module.hasConstructor_eq] at hold
    rw [Module.hasConstructor_eq, Module.hasConstructor_eq, s.get?_after, t.get?_after]
    exact Act.any_onSlot Module.isConstructor_handOver Decl.isConstructor_setExported
      Decl.isConstructor_promote Decl.isConstructor_mapMembers name a hold
  registered name := by
    cases a with
    | register other d =>
        have hold := h.registered name
        simp only [BuildState.after, List.count_cons]
        omega
    | _ => exact h.registered name

theorem afterAll (h : Akin extra s t) (acts : List Act) :
    Akin extra (s.afterAll acts) (t.afterAll acts) := by
  induction acts generalizing s t with
  | nil => exact h
  | cons a acts ih => exact ih (h.after a)

end Akin

theorem BuildState.progress_after_congr {s t : BuildState} (h : s.progress = t.progress) (a : Act) :
    (s.after a).progress = (t.after a).progress := by
  have hmodule : s.module = t.module := congrArg Build.Progress.module h
  have hregistered : s.registered = t.registered := congrArg Build.Progress.registered h
  cases a <;> simp only [progress, after, hmodule, hregistered]

theorem BuildState.progress_afterAll_congr {s t : BuildState} (h : s.progress = t.progress)
    (acts : List Act) : (s.afterAll acts).progress = (t.afterAll acts).progress := by
  induction acts generalizing s t with
  | nil => exact h
  | cons a acts ih => exact ih (progress_after_congr h a)

namespace Build

variable {α β : Type} {P : Act → Prop}

/-- From states that decide alike, the two steps succeed together, with equal results, and both
perform the same acts, all satisfying `P`, but for notices. -/
def Lockstep (P : Act → Prop) (x y : Build α) : Prop :=
  ∀ (extra : String → Nat) (s t : BuildState), Akin extra s t →
    (runFrom x s).1.toOption = (runFrom y t).1.toOption ∧ ∃ acts : List Act, (∀ a ∈ acts, P a) ∧
      (runFrom x s).2.progress = (s.afterAll acts).progress ∧
      (runFrom y t).2.progress = (t.afterAll acts).progress

namespace Lockstep

theorem of_quiet {x y : Build α}
    (hresult : ∀ s t, (runFrom x s).1.toOption = (runFrom y t).1.toOption)
    (hx : ∀ s, (runFrom x s).2.progress = s.progress)
    (hy : ∀ s, (runFrom y s).2.progress = s.progress) : Lockstep P x y :=
  fun _ s t _ => ⟨hresult s t, [], List.forall_mem_nil _, hx s, hy t⟩

theorem of_act {x y : Build Unit} {a : Act} (ha : P a) (hx : ∀ s, runFrom x s = (.ok (), s.after a))
    (hy : ∀ s, runFrom y s = (.ok (), s.after a)) : Lockstep P x y := by
  intro extra s t _
  rw [hx, hy]
  exact ⟨rfl, [a], List.forall_mem_singleton.2 ha, rfl, rfl⟩

/-- A finished run has a counterpart. -/
theorem exists_run {x y : Build α} (h : Lockstep P x y) {extra : String → Nat}
    {s s' t : BuildState} {a : α} (hst : Akin extra s t) (hrun : runFrom x s = (.ok a, s')) :
    ∃ t', runFrom y t = (.ok a, t') ∧ ∃ acts : List Act, (∀ b ∈ acts, P b) ∧
      s'.progress = (s.afterAll acts).progress ∧ t'.progress = (t.afterAll acts).progress := by
  obtain ⟨hresult, acts, hacts, hs, ht⟩ := h extra s t hst
  rw [hrun] at hresult hs
  rcases hrun' : runFrom y t with ⟨_ | b, t'⟩
  · rw [hrun'] at hresult
    cases hresult
  · rw [hrun'] at hresult ht
    cases hresult
    exact ⟨t', rfl, acts, hacts, hs, ht⟩

/-- Composed runs; the second steps are in lockstep from the states that the first ones leave. -/
theorem bind_runs {x y : Build α} {f g : α → Build β} {extra : String → Nat} {s t : BuildState}
    (hst : Akin extra s t) (hx : Lockstep P x y)
    (hf : ∀ a s' t', runFrom x s = (.ok a, s') → runFrom y t = (.ok a, t') → Akin extra s' t' →
      (runFrom (f a) s').1.toOption = (runFrom (g a) t').1.toOption ∧
        ∃ acts : List Act, (∀ a ∈ acts, P a) ∧
          (runFrom (f a) s').2.progress = (s'.afterAll acts).progress ∧
          (runFrom (g a) t').2.progress = (t'.afterAll acts).progress) :
    (runFrom (x >>= f) s).1.toOption = (runFrom (y >>= g) t).1.toOption ∧
      ∃ acts : List Act, (∀ a ∈ acts, P a) ∧
        (runFrom (x >>= f) s).2.progress = (s.afterAll acts).progress ∧
        (runFrom (y >>= g) t).2.progress = (t.afterAll acts).progress := by
  obtain ⟨hresult, acts, hacts, hs, ht⟩ := hx extra s t hst
  rw [runFrom_bind, runFrom_bind]
  rcases hrun : runFrom x s with ⟨_ | a, s'⟩ <;> rcases hrun' : runFrom y t with ⟨_ | b, t'⟩ <;>
    rw [hrun, hrun'] at hresult <;> rw [hrun] at hs <;> rw [hrun'] at ht
  · exact ⟨rfl, acts, hacts, hs, ht⟩
  · cases hresult
  · cases hresult
  · cases hresult
    obtain ⟨hresult', others, hothers, hs', ht'⟩ :=
      hf a s' t' hrun hrun' ((hst.afterAll acts).congr hs ht)
    refine ⟨hresult', acts ++ others, List.forall_mem_append.2 ⟨hacts, hothers⟩, ?_, ?_⟩
    · rw [BuildState.afterAll_append]
      exact hs'.trans (BuildState.progress_afterAll_congr hs others)
    · rw [BuildState.afterAll_append]
      exact ht'.trans (BuildState.progress_afterAll_congr ht others)

theorem bind_of {Q : α → Prop} {x y : Build α} {f g : α → Build β} (hx : Lockstep P x y)
    (hgives : Gives Q x) (hf : ∀ a, Q a → Lockstep P (f a) (g a)) :
    Lockstep P (x >>= f) (y >>= g) :=
  fun extra s _ hst => bind_runs hst hx fun a s' t' hrun _ hst' =>
    hf a (hgives s a s' hrun) extra s' t' hst'

theorem bind {x y : Build α} {f g : α → Build β} (hx : Lockstep P x y)
    (hf : ∀ a, Lockstep P (f a) (g a)) : Lockstep P (x >>= f) (y >>= g) :=
  hx.bind_of (Q := fun _ => True) (fun _ _ _ _ => trivial) fun a _ => hf a

/-- Whether a name has a declaration of its own is decided alike. -/
theorem item?_bind {name : String} {f g : Option Decl → Build α}
    (h : ∀ old old', old.any Decl.isOwn = old'.any Decl.isOwn → Lockstep P (f old) (g old')) :
    Lockstep P (item? name >>= f) (item? name >>= g) := by
  intro extra s t hst
  rw [runFrom_bind_of_ok (runFrom_item? name s), runFrom_bind_of_ok (runFrom_item? name t)]
  exact h _ _ (hst.own name) extra s t hst

theorem promote {name : String} (ha : P (.promote name)) :
    Lockstep P (promote name) (promote name) := by
  intro extra s t hst
  rw [runFrom_promote, runFrom_promote, hst.constructible name]
  exact ⟨rfl, [.promote name], List.forall_mem_singleton.2 ha, rfl, rfl⟩

end Lockstep

theorem progress_readComment (n : Node) (s : BuildState) :
    (runFrom (readComment n) s).2.progress = s.progress := by
  obtain ⟨acts, hacts, heq⟩ := traced_readComment (P := Act.IsNote) (fun _ ha => ha) n s
  rw [heq, progress_afterAll hacts]

/-- A name is exported as itself in both runs or in none. -/
theorem lockstep_exportOwn (hP : ∀ a : Act, ¬ a.IsAggregate → P a) (exported name : String) :
    Lockstep P (exportOwn exported name) (exportOwn exported name) := by
  refine .item?_bind fun old old' hown => ?_
  rw [Decl.any_not_isAlias old, Decl.any_not_isAlias old', hown]
  split
  · exact .of_act (hP (.mark name) id) (fun _ => rfl) fun _ => rfl
  · exact .of_act (hP (.register exported _) id) (fun _ => rfl) fun _ => rfl

theorem congruence_lockstep (hP : ∀ a : Act, ¬ a.IsAggregate → P a) :
    ExportCongruence Node.SameCode Context.Alike fun _ x y => Lockstep P x y where
  toLikeness := Node.likeness_sameCode
  toAgreement := Context.agreement_alike
  pure _ := .of_quiet (fun _ _ => rfl) (fun _ => rfl) fun _ => rfl
  throw _ := .of_quiet (fun _ _ => rfl) (fun _ => rfl) fun _ => rfl
  unhandled _ _ := .of_quiet (fun _ _ => rfl) (fun _ => rfl) fun _ => rfl
  bind := .bind
  notify := .of_quiet (fun _ _ => rfl) (fun _ => rfl) fun _ => rfl
  readComment h := .of_quiet
    (fun s t => by rw [runFrom_readComment_result, runFrom_readComment_result, h])
    (progress_readComment _) (progress_readComment _)
  bind_of := .bind_of
  register name d _ := .of_act (hP (.register name d) id) (fun _ => rfl) fun _ => rfl
  describe text := .of_act (hP (.describe text) id) (fun _ => rfl) fun _ => rfl
  registerAny name d := .of_act (hP (.register name d) id) (fun _ => rfl) fun _ => rfl
  exportOwn := lockstep_exportOwn hP
  exportAll hx _ := .bind hx fun names => by
    induction names with
    | nil => exact .of_quiet (fun _ _ => rfl) (fun _ => rfl) fun _ => rfl
    | cons name names ih =>
        exact .bind (.of_act (hP (.mark name) id) (fun _ => rfl) fun _ => rfl) fun _ => ih

/-! ### Steps that change places -/

/-- The step gives notices at most. -/
def Silent {α : Type} (x : Build α) : Prop :=
  ∀ s, (runFrom x s).2.progress = s.progress

theorem Silent.bind {α β : Type} {x : Build α} {f : α → Build β} (hx : Silent x)
    (hf : ∀ a, Silent (f a)) : Silent (x >>= f) := by
  intro s
  have hs := hx s
  rw [runFrom_bind]
  rcases hrun : runFrom x s with ⟨_ | a, s'⟩
  · rw [hrun] at hs
    exact hs
  · rw [hrun] at hs
    exact (hf a s').trans hs

theorem silent_pure {α : Type} (a : α) : Silent (pure a) :=
  fun _ => rfl

theorem toOption_bind {α β : Type} (x : Build α) (f : α → Build β) (s : BuildState) :
    (runFrom (x >>= f) s).1.toOption =
      (runFrom x s).1.toOption.bind fun a => (runFrom (f a) (runFrom x s).2).1.toOption := by
  rw [runFrom_bind]
  rcases runFrom x s with ⟨_ | a, s'⟩ <;> rfl

/-- Two silent steps change places when what is made of their results is the same. -/
theorem lockstep_swap {α β γ : Type} {P : Act → Prop} {Q : α → Prop} {Q' : β → Prop}
    {x x' : Build α} {y y' : Build β} {f g : α → β → γ} (hx : Alike x x') (hy : Alike y y')
    (hsilent : Silent x ∧ Silent x' ∧ Silent y ∧ Silent y') (hQ : Gives Q x) (hQ' : Gives Q' y)
    (hfg : ∀ a b, Q a → Q' b → f a b = g a b) :
    Lockstep P (x >>= fun a => y >>= fun b => pure (f a b))
      (y' >>= fun b => x' >>= fun a => pure (g a b)) := by
  obtain ⟨hsx, hsx', hsy, hsy'⟩ := hsilent
  refine .of_quiet ?_ (hsx.bind fun a => hsy.bind fun b => silent_pure _)
    (hsy'.bind fun b => hsx'.bind fun a => silent_pure _)
  intro s t
  simp only [toOption_bind, runFrom_pure]
  rw [← hx s (runFrom y' t).2, ← hy (runFrom x s).2 t]
  rcases hrun : runFrom x s with ⟨_ | a, s'⟩
  · cases (runFrom y s').1.toOption <;> rfl
  · dsimp only
    rcases hrun' : runFrom y s' with ⟨_ | e, s''⟩
    · rfl
    · exact congrArg some (hfg a e (hQ s a s' hrun) (hQ' s' e s'' hrun'))

/-! ### Assignments -/

/-- The class is changed in both runs or in none: between its two looks, a step counts as many
registrations in one run as in the other. -/
theorem lockstep_withClass {name : String} {x y : Build Decl}
    {f g : Decl → Build (Table Decl → Table Decl)} (hmembers : ∀ change, P (.members name change))
    (hx : Lockstep P x y) (hf : ∀ d, Lockstep P (f d) (g d)) :
    Lockstep P (withClass name x f) (withClass name y g) := by
  intro extra s t hst
  rw [withClass, withClass, runFrom_bind_of_ok (runFrom_registrations name s),
    runFrom_bind_of_ok (runFrom_registrations name t)]
  refine Lockstep.bind_runs hst hx fun d s' t' _ _ hst' =>
    Lockstep.bind_runs hst' (hf d) fun change s'' t'' _ _ hst'' => ?_
  rw [runFrom_bind_of_ok (runFrom_registrations name s''),
    runFrom_bind_of_ok (runFrom_registrations name t'')]
  have hcount := hst.registered name
  have hcount' := hst''.registered name
  by_cases hsame : s''.registered.count name = s.registered.count name
  · have hsame' : t''.registered.count name = t.registered.count name := by omega
    rw [if_pos hsame, if_pos hsame']
    exact ⟨rfl, [.members name change], List.forall_mem_singleton.2 (hmembers change), rfl, rfl⟩
  · have hsame' : ¬ t''.registered.count name = t.registered.count name := by omega
    rw [if_neg hsame, if_neg hsame']
    exact ⟨rfl, [], List.forall_mem_nil _, rfl, rfl⟩

theorem lockstep_exportMember {name : String} {right right' : Node} (hright : right.SameCode right')
    {x y : Build Decl} (hserves : ∀ a : Act, a.Serves (.exported name) → P a)
    (hx : Lockstep P x y) :
    Lockstep P (exportMember name right x) (exportMember name right' y) := by
  have hmark : Lockstep P (modifyModule (·.markExported name))
      (modifyModule (·.markExported name)) :=
    .of_act (hserves (.mark name) (.inr (.inl rfl))) (fun _ => rfl) fun _ => rfl
  have hregister (d : Decl) : Lockstep P (register name (d.setExported true))
      (register name (d.setExported true)) := by
    refine .of_act (hserves (.register name (d.setExported true)) ?_) (fun _ => rfl) fun _ => rfl
    exact .inr (.inr ⟨_, d.exported_setExported true, rfl⟩)
  unfold exportMember
  rw [hright.kind, hright.text]
  refine .bind (.of_act (hserves .memberwise (.inl rfl)) (fun _ => rfl) fun _ => rfl) fun _ =>
    .item?_bind fun old old' hown => ?_
  dsimp only
  rw [Decl.any_not_isAlias old, Decl.any_not_isAlias old', hown]
  split
  · exact hmark
  · exact .bind hx hregister

theorem lockstep_assignTo (hP : ∀ a : Act, ¬ a.IsAggregate → P a) {path : String} (line line' : Nat)
    {right right' : Node} (hright : right.SameCode right') {x y : Build Decl}
    (hserves : ∀ a : Act, a.Serves (Target.ofPath path) → P a) (hx : Lockstep P x y) :
    Lockstep P (assignTo path line right x) (assignTo path line' right' y) := by
  have hR := congruence_lockstep hP
  unfold assignTo
  split
  · rename_i ht
    rw [ht] at hserves
    exact .bind hx fun d => .of_act (hserves (.aggregate d) ⟨d, rfl⟩) (fun _ => rfl) fun _ => rfl
  · rename_i name ht
    rw [ht] at hserves
    exact lockstep_exportMember hright hserves hx
  · rename_i owner ht
    refine .bind (.promote (hP (.promote owner) id)) fun b => ?_
    split
    · refine lockstep_withClass (fun change => hP (.members owner change) id) hx fun d => ?_
      split
      · exact hR.pure _
      · exact hR.bind hR.notify fun _ => hR.pure _
    · exact hR.notify
  · rename_i owner member ht
    refine .bind (.promote (hP (.promote owner) id)) fun b => ?_
    split
    · exact lockstep_withClass (fun change => hP (.members owner change) id) hx fun d => hR.pure _
    · exact hR.notify
  · rw [hright.kind]
    refine hR.bind hR.notify fun _ => ?_
    split
    · exact hR.bind hx fun _ => hR.pure _
    · exact hR.pure _

theorem assignsAlike_lockstep (hP : ∀ a : Act, ¬ a.IsAggregate → P a) {n : Node} (h : Allows P n) :
    AssignsAlike Node.SameCode Context.Alike (fun _ x y => Lockstep P x y) n := by
  intro e e' he hee hk hvalue c c' hc
  refine related_assign (congruence_lockstep hP).toPassCongruence hc hee
    fun l r r' hl hr hrr path hpath => ?_
  exact lockstep_assignTo hP _ _ hrr (h path ⟨e, he, hk, l, hl, hpath⟩) (hvalue r hr r' hrr c c' hc)

/-! ### Statements -/

/-- Statements with the same code, under comments with the same text, are in lockstep. -/
theorem lockstep_statements (hP : ∀ a : Act, ¬ a.IsAggregate → P a) {c c' : Context}
    (h : c.Alike c') {before before' : List Node}
    (hbefore : (Context.documenting before).map Node.text =
      (Context.documenting before').map Node.text) {nodes nodes' : List Node}
    (hnodes : nodes.map Node.code = nodes'.map Node.code) (hallows : ∀ e ∈ nodes, Allows P e) :
    Lockstep P (statements c before nodes) (statements c' before' nodes') :=
  have hpadded : Node.Padded false Node.SameCode nodes nodes' := Node.padded_sameCode hnodes
  related_statements (congruence_lockstep hP) h hbefore hpadded fun e he =>
    assignsAlike_lockstep hP (hallows e he)

end Build

end Ambient
