import Ambient.Proofs.Build.Reading
import Ambient.Proofs.Build.Replay

/-!
# Statements that chain assignments

A statement `t₁ = t₂ = … = tₖ = v` is read as a chain of assignments: its run is the replay of the
targets, whatever the state.  The single statements `tₖ = v`, …, `t₁ = v` under the same comment
assign the targets in turn.  For orderly chains both leave the same module.
-/

namespace Ambient

/-- The part of the state that assignments read and change. -/
def BuildState.progress (s : BuildState) : Build.Progress :=
  ⟨s.module, s.registered⟩

namespace Node

/-- The name that a value is. -/
def bareName? (v : Node) : Option String :=
  if v.kind = .identifier then some v.text else none

/-- The node assigns the value to the targets at the paths, the first one on the left. -/
inductive Chains (v : Node) : Node → List String → Prop
  | last {n left : Node} {path : String} (hk : n.kind = .assignmentExpression)
      (hleft : n.child? .left = some left) (hpath : left.Spells path)
      (hright : n.child? .right = some v) : Chains v n [path]
  | link {n left right : Node} {path : String} {paths : List String}
      (hk : n.kind = .assignmentExpression) (hleft : n.child? .left = some left)
      (hpath : left.Spells path) (hright : n.child? .right = some right)
      (h : Chains v right paths) : Chains v n (path :: paths)

/-- The statement consists of a chain of assignments. -/
def ChainStatement (v : Node) (paths : List String) (st : Node) : Prop :=
  st.kind = .expressionStatement ∧ ∃ n, st.codeChildren.head? = some n ∧ v.Chains n paths

end Node

namespace Build

variable {α β : Type}

/-- The step succeeds with the result and changes the progress by the function. -/
def Does (x : Build α) (a : α) (f : Progress → Progress) : Prop :=
  ∀ s, ∃ s', runFrom x s = (.ok a, s') ∧ s'.progress = f s.progress

namespace Does

theorem bind {x : Build α} {k : α → Build β} {a : α} {b : β} {f g : Progress → Progress}
    (hx : Does x a f) (hk : Does (k a) b g) : Does (x >>= k) b fun p => g (f p) := by
  intro s
  obtain ⟨s', hrun, hp⟩ := hx s
  obtain ⟨s'', hrun', hp'⟩ := hk s'
  exact ⟨s'', by rw [runFrom_bind_of_ok hrun, hrun'], by rw [hp', hp]⟩

theorem pure (a : α) : Does (pure a) a id :=
  fun s => ⟨s, rfl, rfl⟩

theorem notify (l : Log) : Does (notify l) () id :=
  fun s => ⟨s.after (.notice l), rfl, rfl⟩

theorem modifyModule (f : Module → Module) : Does (modifyModule f) () (·.on f) :=
  fun s => ⟨{ s with module := f s.module }, rfl, rfl⟩

end Does

variable {v : Assigned} {last : Bool} {right : Node} {x : Build Decl} {walk : Progress → Progress}

/-- A member is exported as the progress says. -/
theorem does_exportMember {name : String}
    (hname : (right.kind == .identifier && right.text == name) = (last && v.name == some name))
    (hx : Does x v.decl walk) :
    Does (exportMember name right x) () (v.perform (.exported name) last walk) := by
  intro s
  have hclear : runFrom (modifyModule fun m => { m with aggregate := none }) s =
      (.ok (), s.after .memberwise) := rfl
  have hmarks : (last && v.name == some name &&
      ((s.after .memberwise).module.items.get? name).any fun d => !d.isAlias) =
      (last && v.marks name s.progress.module) := Bool.and_assoc ..
  rw [exportMember, runFrom_bind_of_ok hclear, runFrom_bind_of_ok (runFrom_item? ..)]
  dsimp only
  rw [hname, hmarks, Assigned.perform]
  split
  · exact ⟨_, rfl, rfl⟩
  · obtain ⟨s', hrun, hp⟩ := hx (s.after .memberwise)
    refine ⟨s'.after (.register name (v.decl.setExported true)), ?_, ?_⟩
    · rw [runFrom_bind_of_ok hrun]
      rfl
    · exact congrArg (Progress.register · name (v.decl.setExported true)) hp

/-- The members of a class are changed as the progress says. -/
theorem does_fill {owner : String} {f : Table Decl → Table Decl} {skipped : Build Unit}
    {change : Decl → Build (Table Decl → Table Decl)} (hx : Does x v.decl walk)
    (hchange : Does (change v.decl) f id) (hskipped : Does skipped () id) :
    Does (do if ← promote owner then withClass owner x change else skipped) ()
      (Assigned.fill owner f walk) := by
  intro s
  rw [runFrom_bind_of_ok (runFrom_promote owner s)]
  have hmodule : s.progress.module = s.module := rfl
  rw [Assigned.fill, hmodule]
  split
  · obtain ⟨s', hrun, hp⟩ := hx (s.after (.promote owner))
    obtain ⟨s'', hrun', hp'⟩ := hchange s'
    have hopened : (s.after (.promote owner)).progress = s.progress.on (·.promote owner) := rfl
    have hwalked : s''.progress = walk (s.progress.on (·.promote owner)) := by
      rw [hp', id, hp, hopened]
    rw [withClass, runFrom_bind_of_ok (runFrom_registrations ..), runFrom_bind_of_ok hrun,
      runFrom_bind_of_ok hrun', runFrom_bind_of_ok (runFrom_registrations ..)]
    dsimp only
    rw [← hwalked]
    have hcount : s''.progress.registered.count owner = s''.registered.count owner := rfl
    have hcount' : (s.progress.on (·.promote owner)).registered.count owner =
        (s.after (.promote owner)).registered.count owner := rfl
    rw [hcount, hcount']
    split
    · exact ⟨_, rfl, rfl⟩
    · exact ⟨_, rfl, rfl⟩
  · rename_i hm
    have hsame : (s.after (.promote owner)).progress = s.progress :=
      congrArg (Progress.mk · s.registered) (s.module.promote_of_not_hasConstructor hm)
    obtain ⟨s', hrun, hp⟩ := hskipped (s.after (.promote owner))
    exact ⟨s', hrun, by rw [hp, id, hsame]⟩

/-- An assignment is applied as the progress says. -/
theorem does_assignTo {path : String} (line : Nat)
    (hname : ∀ n, (right.kind == .identifier && right.text == n) = (last && v.name == some n))
    (hother : right.kind ≠ .assignmentExpression → walk = id) (hx : Does x v.decl walk) :
    Does (assignTo path line right x) () (v.perform (Target.ofPath path) last walk) := by
  unfold assignTo
  split
  · rename_i ht
    rw [ht]
    have hset := hx.bind (k := fun d => modifyModule (·.setAggregate d)) (.modifyModule _)
    exact hset
  · rename_i name ht
    rw [ht]
    exact does_exportMember (hname name) hx
  · rename_i owner ht
    rw [ht]
    refine does_fill hx ?_ (.notify _)
    unfold Assigned.change
    cases v.decl with
    | object h ms => exact .pure _
    | _ => exact (Does.notify _).bind (.pure _)
  · rename_i owner member ht
    rw [ht]
    exact does_fill hx (.pure _) (.notify _)
  · rename_i ht
    rw [ht]
    refine (Does.notify _).bind ?_
    split
    · have hread := hx.bind (k := fun _ => pure ()) (.pure ())
      exact hread
    · rename_i hk
      have hwalk : walk = id := hother (by simpa using hk)
      rw [hwalk]
      exact .pure ()

/-! ### Values -/

theorem progress_afterAll {acts : List Act} (h : ∀ a ∈ acts, a.IsNote) (s : BuildState) :
    (s.afterAll acts).progress = s.progress := by
  induction acts generalizing s with
  | nil => rfl
  | cons a acts ih =>
      rw [BuildState.afterAll_cons, ih fun b hb => h b (List.mem_cons_of_mem _ hb)]
      have ha := h a (List.mem_cons_self ..)
      cases a <;> first | rfl | exact ha.elim

/-- A value without assignments that is read once is read the same everywhere. -/
theorem does_value {w : Node} {c c' : Context} {s : BuildState} {d : Decl}
    (hw : w.AssignmentFree) (h : c.Alike c') (hd : (runFrom (value c w) s).1 = .ok d) :
    Does (value c' w) d id := by
  intro t
  have hresult := alike_value hw h s t
  obtain ⟨acts, hacts, hstate⟩ :=
    traced_value (P := Act.IsNote) (fun a ha => ha) c' w hw.allows t
  rw [hd] at hresult
  rcases hrun : runFrom (value c' w) t with ⟨_ | d', t'⟩
  · rw [hrun] at hresult
    cases hresult
  · rw [hrun] at hresult hstate
    cases hresult
    refine ⟨t', rfl, ?_⟩
    rw [show t' = t.afterAll acts from hstate, progress_afterAll hacts]
    rfl

/-- A bare name is read as another name for it. -/
theorem exists_aliasOf_of_identifier {w : Node} {c : Context} {s : BuildState} {d : Decl}
    (hk : w.kind = .identifier) (hd : (runFrom (value c w) s).1 = .ok d) :
    ∃ h, d = .aliasOf h w.text := by
  rw [value] at hd
  simp only [hk] at hd
  rcases hrun : runFrom (aliasValue (c.enter w) w) s with ⟨_ | d', s'⟩
  · rw [hrun] at hd
    cases hd
  · rw [hrun] at hd
    cases hd
    obtain ⟨doc, mid, _, hpure⟩ := runFrom_bind_ok hrun
    cases hpure
    exact ⟨_, rfl⟩

/-! ### Chains -/

theorem kind_of_chains {w n : Node} {paths : List String} (h : w.Chains n paths) :
    n.kind = .assignmentExpression := by
  cases h with
  | last hk _ _ _ => exact hk
  | link hk _ _ _ _ => exact hk

/-- An assignment in a chain, from what its right side does. -/
theorem does_assign {n left right : Node} {path : String} (ctx : Context)
    (hleft : n.child? .left = some left) (hpath : left.Spells path)
    (hright : n.child? .right = some right)
    (hname : ∀ k, (right.kind == .identifier && right.text == k) = (last && v.name == some k))
    (hother : right.kind ≠ .assignmentExpression → walk = id)
    (hx : Does (value ctx right) v.decl walk) :
    Does (assign ctx n) () (v.perform (Target.ofPath path) last walk) := by
  have happly : Does (assignTo path n.line right (value ctx right)) ()
      (v.perform (Target.ofPath path) last walk) := does_assignTo n.line hname hother hx
  rw [assign_eq ctx hleft hright]
  intro s
  rw [runFrom_bind_of_ok (runFrom_chain_of_spells hpath ctx s)]
  exact happly s

/-- A chain is replayed when it is a statement, and walked when it is read as a value. -/
theorem does_chain {w n : Node} {paths : List String} {base : Context} (h : w.Chains n paths)
    (hname : v.name = w.bareName?)
    (hvalue : ∀ ctx : Context, base.Alike ctx → Does (value ctx w) v.decl id) :
    ∀ ctx : Context, base.Alike ctx →
      Does (assign ctx n) () (v.replay (paths.map Target.ofPath)) ∧
        Does (value ctx n) v.decl (v.walk (paths.map Target.ofPath)) := by
  induction h with
  | @last n left path hk hleft hpath hright =>
      intro ctx hctx
      have hbare : ∀ k, (w.kind == .identifier && w.text == k) = (true && v.name == some k) := by
        intro k
        rw [hname, Node.bareName?]
        by_cases hid : w.kind = .identifier <;> simp [hid]
      have happly (c : Context) (hc : base.Alike c) :
          Does (assign c n) () (v.perform (Target.ofPath path) true id) :=
        does_assign c hleft hpath hright hbare (fun _ => rfl) (hvalue c hc)
      refine ⟨happly ctx hctx, ?_⟩
      rw [value_assignment_eq ctx hk hright]
      exact (happly (ctx.enter n) hctx).bind (k := fun _ => value (ctx.enter n) w)
        (hvalue (ctx.enter n) hctx)
  | @link n left right path paths hk hleft hpath hright htail ih =>
      intro ctx hctx
      have hkright := kind_of_chains htail
      have hne : (paths.map Target.ofPath).isEmpty = false := by
        cases htail <;> rfl
      have hbare : ∀ k, (right.kind == .identifier && right.text == k) =
          ((paths.map Target.ofPath).isEmpty && v.name == some k) := by
        intro k
        rw [hkright, hne]
        rfl
      have happly (c : Context) (hc : base.Alike c) : Does (assign c n) ()
          (v.perform (Target.ofPath path) (paths.map Target.ofPath).isEmpty
            (v.walk (paths.map Target.ofPath))) :=
        does_assign c hleft hpath hright hbare (fun hne => (hne hkright).elim) (ih c hc).2
      refine ⟨happly ctx hctx, ?_⟩
      rw [value_assignment_eq ctx hk hright]
      exact (happly (ctx.enter n) hctx).bind (k := fun _ => value (ctx.enter n) right)
        (ih (ctx.enter n) hctx).2

/-- A statement that chains assignments replays them. -/
theorem does_chainStatement {w st : Node} {paths : List String} {base : Context}
    (h : w.ChainStatement paths st) (hname : v.name = w.bareName?)
    (hvalue : ∀ ctx : Context, base.Alike ctx → Does (value ctx w) v.decl id) :
    Does (statement base st) () (v.replay (paths.map Target.ofPath)) := by
  obtain ⟨hst, n, hn, hchain⟩ := h
  have hassign := (does_chain hchain hname hvalue ((base.enter st).enter n) (.refl base)).1
  rw [statement]
  simp only [hst]
  rw [expressionStatement, hn]
  simp only [kind_of_chains hchain]
  exact hassign

/-- A statement with one assignment assigns the value to what its path means. -/
theorem exists_run_single {w st : Node} {path : String} {base : Context}
    (h : w.ChainStatement [path] st) (hname : v.name = w.bareName?)
    (hvalue : ∀ ctx : Context, base.Alike ctx → Does (value ctx w) v.decl id) (s : BuildState) :
    ∃ s', runFrom (statement base st) s = (.ok (), s') ∧
      s'.module = v.assign (Target.ofPath path) s.module := by
  obtain ⟨s', hrun, hp⟩ := does_chainStatement h hname hvalue s
  exact ⟨s', hrun, (congrArg Progress.module hp).trans (Assigned.module_perform_last _ _)⟩

/-- Single statements assign their targets in turn. -/
theorem runFrom_singleStatements {w : Node} {paths : List String} {sts : List Node}
    {base : Context} (h : List.Forall₂ (fun path st => w.ChainStatement [path] st) paths sts)
    (hname : v.name = w.bareName?)
    (hvalue : ∀ ctx : Context, base.Alike ctx → Does (value ctx w) v.decl id) (s : BuildState) :
    ∃ s', runFrom (sts.reverse.forM (statement base)) s = (.ok (), s') ∧
      s'.module = v.inTurn (paths.map Target.ofPath) s.module := by
  induction h with
  | nil => exact ⟨s, rfl, rfl⟩
  | @cons path st paths sts hst _ ih =>
      obtain ⟨mid, hmid, hmodule⟩ := ih
      obtain ⟨s', hrun, hlast⟩ := exists_run_single hst hname hvalue mid
      refine ⟨s', ?_, ?_⟩
      · rw [List.reverse_cons]
        have happend : (sts.reverse ++ [st]).forM (statement base) =
            sts.reverse.forM (statement base) >>= fun _ => [st].forM (statement base) :=
          List.forM_append
        rw [happend, runFrom_bind_of_ok hmid]
        have hone : [st].forM (statement base) =
            statement base st >>= fun _ => pure PUnit.unit := rfl
        rw [hone, runFrom_bind_of_ok hrun]
        rfl
      · rw [hlast, hmodule]
        rfl

theorem exists_assigned {w : Node} {ctx : Context} {s : BuildState} {d : Decl}
    (hd : (runFrom (value ctx w) s).1 = .ok d) :
    ∃ v : Assigned, v.decl = d ∧ v.name = w.bareName? := by
  refine ⟨⟨d, w.bareName?, ?_⟩, rfl, rfl⟩
  intro n hn
  rw [Node.bareName?] at hn
  split at hn
  · rename_i hk
    cases hn
    exact exists_aliasOf_of_identifier hk hd
  · cases hn

/-- A statement that chains assignments of one value, and the single statements for its targets
from the right, under the same comment and from the same state.  Both succeed.  The chain leaves the
module of the replay, the single statements that of the assignments in turn, and these are equal
when the chain is orderly for the module it starts from. -/
theorem chained_assignments (ctx : Context) (w st : Node) (paths : List String)
    (sts : List Node) (d : Decl) (s₀ : BuildState) (hst : w.ChainStatement paths st)
    (hsts : List.Forall₂ (fun path st => w.ChainStatement [path] st) paths sts)
    (hw : w.AssignmentFree) (hd : (runFrom (value ctx w) s₀).1 = .ok d) :
    ∃ v : Assigned, v.decl = d ∧ v.name = w.bareName? ∧ ∀ s : BuildState, ∃ chained single,
      runFrom (statement ctx st) s = (.ok (), chained) ∧
      runFrom (sts.reverse.forM (statement ctx)) s = (.ok (), single) ∧
      chained.module = (v.replay (paths.map Target.ofPath) s.progress).module ∧
      single.module = v.inTurn (paths.map Target.ofPath) s.module ∧
      ∀ t ts, paths.map Target.ofPath = t :: ts → v.Orderly s.module t ts →
        chained.module = single.module := by
  obtain ⟨v, hdecl, hname⟩ := exists_assigned hd
  have hvalue : ∀ c : Context, ctx.Alike c → Does (value c w) v.decl id := by
    intro c hc
    rw [hdecl]
    exact does_value hw hc hd
  refine ⟨v, hdecl, hname, fun s => ?_⟩
  obtain ⟨chained, hrun, hp⟩ := does_chainStatement hst hname hvalue s
  obtain ⟨single, hrun', hmodule⟩ := runFrom_singleStatements hsts hname hvalue s
  have hreplay : chained.module = (v.replay (paths.map Target.ofPath) s.progress).module :=
    congrArg Progress.module hp
  refine ⟨chained, single, hrun, hrun', hreplay, hmodule, ?_⟩
  intro t ts hts horderly
  rw [hreplay, hmodule, hts]
  exact Assigned.module_replay horderly

/-! ### Two chains -/

theorem assignmentFree_leaf {kind : Kind} (h : kind ≠ .assignmentExpression) (text : String)
    (r : Role) : ((leaf kind text).as r).AssignmentFree := by
  intro e he
  cases he with
  | self => exact h
  | child _ hc _ => cases hc
  | member _ hbody _ _ => cases hbody

/-- `exports.a = exports.b = 1` exports both names, as `exports.b = 1; exports.a = 1` does. -/
theorem chained_assignments_two_exports :
    let a := memberOf (leaf .identifier "exports") (leaf .propertyIdentifier "a")
    let b := memberOf (leaf .identifier "exports") (leaf .propertyIdentifier "b")
    let one := leaf .number "1"
    let start : BuildState := { module := { name := "m" } }
    ∃ chained single,
      runFrom (statement {} (statementOf (assignment a (assignment b one)))) start =
        (.ok (), chained) ∧
      runFrom ([statementOf (assignment b one), statementOf (assignment a one)].forM
        (statement {})) start = (.ok (), single) ∧
      chained.module = single.module ∧ single.module.items.names = ["b", "a"] := by
  intro a b one start
  have hvalue : (runFrom (value {} (one.as .right)) start).1 =
      .ok (.binding {} [⟨none, "number", []⟩] "var") := by
    rw [value]
    rfl
  have hlast (n : Node) (name : String)
      (hn : (n.as .left).Spells name) :
      (one.as .right).ChainStatement [name] (statementOf (assignment n one)) :=
    ⟨rfl, assignment n one, rfl, .last rfl rfl hn rfl⟩
  have hchain : (one.as .right).ChainStatement ["exports" ++ "." ++ "a", "exports" ++ "." ++ "b"]
      (statementOf (assignment a (assignment b one))) :=
    ⟨rfl, _, rfl, .link rfl rfl (spells_exports "a" .left) rfl
      (.last rfl rfl (spells_exports "b" .left) rfl)⟩
  obtain ⟨⟨decl, name, halias⟩, rfl, rfl, hrun⟩ := chained_assignments {} (one.as .right) _ _
    [statementOf (assignment a one), statementOf (assignment b one)] _ start hchain
    (.cons (hlast a _ (spells_exports "a" .left)) (.cons (hlast b _ (spells_exports "b" .left)) .nil))
    (assignmentFree_leaf (by decide) _ _) hvalue
  obtain ⟨chained, single, hchained, hsingle, _, hmodule, hequal⟩ := hrun start
  refine ⟨chained, single, hchained, hsingle, ?_, ?_⟩
  · refine hequal (.exported "a") [.exported "b"] (by decide) ?_
    refine Assigned.orderly_of_exported "a" ["b"] rfl fun k hk => ?_
    obtain ⟨hd, hget, _⟩ := hk
    cases hget
  · rw [hmodule]
    rfl

/-- `exports.a = module.exports = 1` exports the module as a whole and `a` besides, where
`module.exports = 1; exports.a = 1` exports `a` alone: the chain leaves the export of the whole
module before it reads what sets it. -/
theorem chain_exports_twice :
    let a := memberOf (leaf .identifier "exports") (leaf .propertyIdentifier "a")
    let whole := memberOf (leaf .identifier "module") (leaf .propertyIdentifier "exports")
    let one := leaf .number "1"
    let start : BuildState := { module := { name := "m" } }
    ∃ chained single,
      runFrom (statement {} (statementOf (assignment a (assignment whole one)))) start =
        (.ok (), chained) ∧
      runFrom ([statementOf (assignment whole one), statementOf (assignment a one)].forM
        (statement {})) start = (.ok (), single) ∧
      chained.module.aggregate.isSome = true ∧ single.module.aggregate.isSome = false := by
  intro a whole one start
  let v : Assigned := ⟨.binding {} [⟨none, "number", []⟩] "var", none, nofun⟩
  have hread : (runFrom (value {} (one.as .right)) start).1 = .ok v.decl := by
    rw [value]
    rfl
  have hvalue (c : Context) (hc : ({} : Context).Alike c) :
      Does (value c (one.as .right)) v.decl id :=
    does_value (assignmentFree_leaf (by decide) _ _) hc hread
  have hwhole : (whole.as .left).Spells ("module" ++ "." ++ "exports") :=
    spells_memberOf .left (.name (.inl rfl)) (.name (.inr (.inl rfl)))
  have hchain : (one.as .right).ChainStatement ["exports" ++ "." ++ "a", "module" ++ "." ++ "exports"]
      (statementOf (assignment a (assignment whole one))) :=
    ⟨rfl, _, rfl, .link rfl rfl (spells_exports "a" .left) rfl (.last rfl rfl hwhole rfl)⟩
  have hsingle : List.Forall₂ (fun path st => (one.as .right).ChainStatement [path] st)
      ["exports" ++ "." ++ "a", "module" ++ "." ++ "exports"]
      [statementOf (assignment a one), statementOf (assignment whole one)] :=
    .cons ⟨rfl, _, rfl, .last rfl rfl (spells_exports "a" .left) rfl⟩
      (.cons ⟨rfl, _, rfl, .last rfl rfl hwhole rfl⟩ .nil)
  obtain ⟨chained, hrun, hp⟩ := does_chainStatement hchain (v := v) rfl hvalue start
  obtain ⟨single, hrun', hmodule⟩ := runFrom_singleStatements hsingle (v := v) rfl hvalue start
  refine ⟨chained, single, hrun, hrun', ?_, ?_⟩
  · rw [show chained.module = _ from congrArg Progress.module hp]
    rfl
  · rw [hmodule]
    rfl

end Build

end Ambient
