import Ambient.Build.Run

/-!
# What a pass does to its state

Every change that a pass makes to its state is one of a few acts, and a run is the list of acts it
performs, failed runs included.  `Traced P x` says that every run of `x` performs only acts that
satisfy `P`; it holds of a composed step when it holds of its parts, so it is proved once along the
definitions.  Invariants of a run are then proved by induction over its acts, one act at a time,
and do not look at the reader again.
-/

namespace Ambient

namespace Module

/-- The function under a name as a class; anything else stays. -/
def promote (m : Module) (name : String) : Module :=
  match m.items.get? name with
  | some (.function fn) =>
      { m with items := m.items.set name (Build.classOf fn fn.header.description none) }
  | _ => m

/-- A class, or a function that can become one, stands under the name. -/
def hasConstructor (m : Module) (name : String) : Bool :=
  match m.items.get? name with
  | some (.classDef ..) => true
  | some (.function ..) => true
  | _ => false

/-- The class under a name with its members changed. -/
def modifyMembers (m : Module) (name : String) (f : Table Decl → Table Decl) : Module :=
  { m with items := m.items.update name fun d =>
      match d with
      | .classDef h c ms b => .classDef h c (f ms) b
      | d => d }

/-- Items are exported one by one. -/
def memberwise (m : Module) : Module :=
  { m with aggregate := none }

/-- The description of a module is the first one given. -/
def describe (m : Module) (text : String) : Module :=
  if m.description.isEmpty then { m with description := text } else m

end Module

/-- One change of the state of a pass. -/
inductive Act where
  | notice (notices : Log)
  | commentRead (start : Nat)
  | register (name : String) (d : Decl)
  | mark (name : String)
  | aggregate (d : Decl)
  | memberwise
  | promote (name : String)
  | members (name : String) (f : Table Decl → Table Decl)
  | describe (text : String)

/-- An act that leaves the module and what was registered as they are. -/
def Act.IsNote : Act → Prop
  | .notice _ => True
  | .commentRead _ => True
  | _ => False

/-- The state after an act. -/
def BuildState.after (s : BuildState) : Act → BuildState
  | .notice notices => { s with log := s.log ++ notices }
  | .commentRead start => { s with commentsRead := start :: s.commentsRead }
  | .register name d => { s with module := s.module.add name d, registered := name :: s.registered }
  | .mark name => { s with module := s.module.markExported name }
  | .aggregate d => { s with module := s.module.setAggregate d }
  | .memberwise => { s with module := s.module.memberwise }
  | .promote name => { s with module := s.module.promote name }
  | .members name f => { s with module := s.module.modifyMembers name f }
  | .describe text => { s with module := s.module.describe text }

/-- The state after several acts. -/
def BuildState.afterAll (s : BuildState) (acts : List Act) : BuildState :=
  acts.foldl BuildState.after s

@[simp]
theorem BuildState.afterAll_nil (s : BuildState) : s.afterAll [] = s := rfl

@[simp]
theorem BuildState.afterAll_cons (s : BuildState) (a : Act) (acts : List Act) :
    s.afterAll (a :: acts) = (s.after a).afterAll acts := rfl

theorem BuildState.afterAll_append (s : BuildState) (acts others : List Act) :
    s.afterAll (acts ++ others) = (s.afterAll acts).afterAll others :=
  List.foldl_append ..

namespace Build

variable {α β : Type} {P : Act → Prop}

/-- A run of a step: its result and the state it leaves. -/
def runFrom (x : Build α) (s : BuildState) : Except Failure α × BuildState :=
  x.run.run s

@[simp]
theorem runFrom_pure (a : α) (s : BuildState) : runFrom (pure a) s = (.ok a, s) := rfl

@[simp]
theorem runFrom_throw (f : Failure) (s : BuildState) :
    runFrom (throw f : Build α) s = (.error f, s) := rfl

@[simp]
theorem runFrom_get (s : BuildState) : runFrom (get : Build BuildState) s = (.ok s, s) := rfl

@[simp]
theorem runFrom_modify (f : BuildState → BuildState) (s : BuildState) :
    runFrom (modify f : Build Unit) s = (.ok (), f s) := rfl

theorem runFrom_bind (x : Build α) (f : α → Build β) (s : BuildState) :
    runFrom (x >>= f) s =
      match runFrom x s with
      | (.ok a, s') => runFrom (f a) s'
      | (.error e, s') => (.error e, s') := by
  rcases h : runFrom x s with ⟨_ | _, s'⟩ <;>
  · simp only [runFrom] at h ⊢
    simp only [ExceptT.run_bind, StateT.run_bind, h]
    rfl

/-- From a finished run of two steps, the runs of each. -/
theorem runFrom_bind_ok {x : Build α} {f : α → Build β} {s s' : BuildState} {b : β}
    (h : runFrom (x >>= f) s = (.ok b, s')) :
    ∃ a mid, runFrom x s = (.ok a, mid) ∧ runFrom (f a) mid = (.ok b, s') := by
  rw [runFrom_bind] at h
  rcases hx : runFrom x s with ⟨_ | a, mid⟩
  · rw [hx] at h
    cases h
  · rw [hx] at h
    exact ⟨a, mid, rfl, h⟩

theorem runFrom_bind_of_ok {x : Build α} {s s' : BuildState} {a : α}
    (h : runFrom x s = (.ok a, s')) (f : α → Build β) :
    runFrom (x >>= f) s = runFrom (f a) s' := by
  rw [runFrom_bind, h]

/-! ### Runs of the primitive steps -/

@[simp]
theorem runFrom_notify (notices : Log) (s : BuildState) :
    runFrom (notify notices) s = (.ok (), s.after (.notice notices)) := rfl

@[simp]
theorem runFrom_modifyModule (f : Module → Module) (s : BuildState) :
    runFrom (modifyModule f) s = (.ok (), { s with module := f s.module }) := rfl

@[simp]
theorem runFrom_register (name : String) (d : Decl) (s : BuildState) :
    runFrom (register name d) s = (.ok (), s.after (.register name d)) := rfl

@[simp]
theorem runFrom_item? (name : String) (s : BuildState) :
    runFrom (item? name) s = (.ok (s.module.items.get? name), s) := rfl

@[simp]
theorem runFrom_registrations (name : String) (s : BuildState) :
    runFrom (registrations name) s = (.ok (s.registered.count name), s) := rfl

@[simp]
theorem runFrom_modifyMembers (name : String) (f : Table Decl → Table Decl) (s : BuildState) :
    runFrom (modifyMembers name f) s = (.ok (), s.after (.members name f)) := rfl

@[simp]
theorem runFrom_unhandled (ctx : Context) (n : Node) (s : BuildState) :
    runFrom (unhandled ctx n : Build α) s =
      (.error (.unhandled n.kind.name ctx.trail (some n.line)),
        s.after (.notice [.unhandled n.kind.name (Trail.text ctx.trail) n.line])) := rfl

@[simp]
theorem runFrom_promote (name : String) (s : BuildState) :
    runFrom (promote name) s = (.ok (s.module.hasConstructor name), s.after (.promote name)) := by
  rw [promote, runFrom_bind_of_ok (runFrom_item? name s)]
  cases h : s.module.items.get? name with
  | none => simp [BuildState.after, Module.promote, Module.hasConstructor, h]
  | some d =>
      cases d <;> simp [BuildState.after, Module.promote, Module.hasConstructor, h]
      rfl

/-! ### Traces -/

/-- Every run performs only acts that satisfy `P`. -/
def Traced (P : Act → Prop) (x : Build α) : Prop :=
  ∀ s, ∃ acts : List Act, (∀ a ∈ acts, P a) ∧ (runFrom x s).2 = s.afterAll acts

namespace Traced

theorem of_state {x : Build α} (h : ∀ s, (runFrom x s).2 = s) : Traced P x :=
  fun s => ⟨[], List.forall_mem_nil _, h s⟩

theorem of_act {x : Build α} (h : ∀ s, ∃ a, P a ∧ (runFrom x s).2 = s.after a) : Traced P x := by
  intro s
  obtain ⟨a, ha, hs⟩ := h s
  exact ⟨[a], List.forall_mem_singleton.2 ha, hs⟩

theorem pure (a : α) : Traced P (pure a : Build α) :=
  of_state fun _ => rfl

theorem throw (f : Failure) : Traced P (throw f : Build α) :=
  of_state fun _ => rfl

/-- The second step is traced for the results that the first one gives. -/
theorem bind_of_runs {x : Build α} {f : α → Build β} (hx : Traced P x)
    (hf : ∀ s a s', runFrom x s = (.ok a, s') → Traced P (f a)) : Traced P (x >>= f) := by
  intro s
  obtain ⟨acts, hacts, hs⟩ := hx s
  rw [runFrom_bind]
  rcases hrun : runFrom x s with ⟨_ | a, mid⟩
  · rw [hrun] at hs
    exact ⟨acts, hacts, hs⟩
  · obtain ⟨others, hothers, hmid⟩ := hf s a mid hrun mid
    rw [hrun] at hs
    refine ⟨acts ++ others, List.forall_mem_append.2 ⟨hacts, hothers⟩, ?_⟩
    rw [BuildState.afterAll_append, ← hs]
    exact hmid

theorem bind {x : Build α} {f : α → Build β} (hx : Traced P x) (hf : ∀ a, Traced P (f a)) :
    Traced P (x >>= f) :=
  bind_of_runs hx fun _ a _ _ => hf a

theorem get : Traced P (get : Build BuildState) :=
  of_state fun _ => rfl

theorem item? (name : String) : Traced P (item? name) :=
  of_state fun _ => rfl

theorem registrations (name : String) : Traced P (registrations name) :=
  of_state fun _ => rfl

theorem ofTypes (x : Except TypeRef.Fault α) : Traced P (ofTypes x) := by
  cases x with
  | ok a => exact pure a
  | error f => exact throw _

theorem forM {xs : List β} {f : β → Build Unit} (h : ∀ b ∈ xs, Traced P (f b)) :
    Traced P (xs.forM f) := by
  induction xs with
  | nil => exact pure ()
  | cons b xs ih =>
      exact bind (h b (List.mem_cons_self ..)) fun _ =>
        ih fun c hc => h c (List.mem_cons_of_mem _ hc)

end Traced

/-! ### Results -/

/-- Every finished run gives a result that satisfies `Q`. -/
def Gives (Q : α → Prop) (x : Build α) : Prop :=
  ∀ s a s', runFrom x s = (.ok a, s') → Q a

namespace Gives

variable {Q : α → Prop}

theorem pure {a : α} (h : Q a) : Gives Q (pure a : Build α) := by
  intro s b s' hrun
  cases hrun
  exact h

theorem unhandled (ctx : Context) (n : Node) : Gives Q (unhandled ctx n : Build α) := by
  intro s a s' hrun
  cases hrun

theorem bind_of {R : β → Prop} {x : Build α} {f : α → Build β} (hx : Gives Q x)
    (hf : ∀ a, Q a → Gives R (f a)) : Gives R (x >>= f) := by
  intro s b s' hrun
  obtain ⟨a, mid, hx', hf'⟩ := runFrom_bind_ok hrun
  exact hf a (hx s a mid hx') mid b s' hf'

theorem bind {R : β → Prop} {x : Build α} {f : α → Build β} (hf : ∀ a, Gives R (f a)) :
    Gives R (x >>= f) :=
  bind_of (Q := fun _ => True) (fun _ _ _ _ => trivial) fun a _ => hf a

/-- Only what the first step gives matters to the second one. -/
theorem bind_congr {x : Build α} {f g : α → Build β} (hx : Gives Q x)
    (h : ∀ a, Q a → f a = g a) : x >>= f = x >>= g := by
  funext s
  have hruns : runFrom (x >>= f) s = runFrom (x >>= g) s := by
    rw [runFrom_bind, runFrom_bind]
    rcases hrun : runFrom x s with ⟨_ | a, s'⟩
    · rfl
    · exact congrArg (runFrom · s') (h a (hx s a s' hrun))
  exact hruns

end Gives

end Build

end Ambient
