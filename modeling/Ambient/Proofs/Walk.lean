import Ambient.Source.Tour
import Ambient.Proofs.Table

/-!
# Walks

What the code that handles constructs does to a trail.  It enters blocks, visits nodes by tables of
handlers, raises failures and catches them, in any nest.  `Walk.run` keeps the trail as a stack: a
kind is pushed when its block is entered, and popped when the block is left, whichever way that is.
Every walk leaves the stack as it was, so what stands on it inside is what encloses the place, and a
construct without a handler is reported with the kinds of all that is in progress.  The visits and
the tours of the program are such walks.
-/

namespace Ambient

/-- The failure says that a construct has no handler. -/
def Failure.isUnhandled : Failure → Bool
  | .unhandled .. => true
  | _ => false

/-- A step of the code that handles constructs. -/
inductive Walk where
  /-- Raise a failure of its own. -/
  | raise (f : Failure) (own : f.isUnhandled = false)
  /-- Take steps inside a block. -/
  | block (kind : String) (steps : List Walk)
  /-- Visit a node: the steps are those of the handler for its kind. -/
  | visit (n : Node) (handlers : List (String × List Walk))
  /-- Take steps, and others when these raise a failure. -/
  | rescue (steps recovery : List Walk)

namespace Walk

/-- What a walk leaves behind: the trail, the trails seen on entering and on leaving each block, and
the failure that is still raised. -/
structure Course where
  trail : Trail
  seen : List Trail
  failure : Option Failure

/-- The course of a block, from the course of the steps inside it. -/
def Course.around (within : Trail) (inside : Course) : Course :=
  ⟨inside.trail.leave, within :: inside.seen ++ [inside.trail.leave], inside.failure⟩

/-- A node of a kind that has no handler. -/
def Course.unhandled (within : Trail) (n : Node) : Course :=
  ⟨within, [], some (.unhandled n.kind.name within (some n.line))⟩

/-- The steps of a handler are smaller than the table that holds it. -/
theorem sizeOf_lt_of_get? {handlers : Table (List Walk)} {name : String} {steps : List Walk}
    (h : handlers.get? name = some steps) : sizeOf steps < sizeOf handlers := by
  have hmem := List.sizeOf_lt_of_mem (Table.mem_of_get? h)
  rw [Prod.mk.sizeOf_spec] at hmem
  omega

mutual

/-- Takes one step. -/
def run (t : Trail) : Walk → Course
  | raise f _ => ⟨t, [], some f⟩
  | block kind steps => .around (t.enter kind) (runAll (t.enter kind) steps)
  | visit n handlers =>
    let within := t.enter n.kind.name
    match h : Table.get? handlers n.kind.name with
    | some steps =>
      have := sizeOf_lt_of_get? h
      .around within (runAll within steps)
    | none => .around within (.unhandled within n)
  | rescue steps recovery =>
    let first := runAll t steps
    match first.failure with
    | none => first
    | some _ =>
      let second := runAll first.trail recovery
      ⟨second.trail, first.seen ++ second.seen, second.failure⟩
termination_by w => sizeOf w

/-- Takes steps until one raises a failure. -/
def runAll (t : Trail) : List Walk → Course
  | [] => ⟨t, [], none⟩
  | w :: ws =>
    let first := run t w
    match first.failure with
    | some _ => first
    | none =>
      let others := runAll first.trail ws
      ⟨others.trail, first.seen ++ others.seen, others.failure⟩
termination_by ws => sizeOf ws

end

theorem run_visit_of_handler {n : Node} {handlers : Table (List Walk)} {steps : List Walk}
    (h : handlers.get? n.kind.name = some steps) (t : Trail) :
    (visit n handlers).run t = (block n.kind.name steps).run t := by
  rw [run, run]
  split
  · rename_i found hfound
    obtain rfl : steps = found := Option.some.inj (h.symm.trans hfound)
    rfl
  · rename_i hnone
    rw [h] at hnone
    cases hnone

theorem run_visit_of_none {n : Node} {handlers : Table (List Walk)}
    (h : handlers.get? n.kind.name = none) (t : Trail) :
    (visit n handlers).run t =
      .around (t.enter n.kind.name) (.unhandled (t.enter n.kind.name) n) := by
  rw [run]
  split
  · rename_i hsome
    rw [h] at hsome
    cases hsome
  · rfl

/-! ### The stack is left as it was -/

mutual

/-- A step leaves the trail as it found it, whether it raises a failure or not. -/
theorem trail_run (t : Trail) (w : Walk) : (w.run t).trail = t := by
  cases w with
  | raise f own => rw [run]
  | block kind steps =>
      rw [run, Course.around, trail_runAll (t.enter kind) steps, Trail.leave_enter]
  | visit n handlers =>
      cases h : Table.get? handlers n.kind.name with
      | none => rw [run_visit_of_none h, Course.around, Course.unhandled, Trail.leave_enter]
      | some steps =>
          have := sizeOf_lt_of_get? h
          rw [run_visit_of_handler h, run, Course.around, trail_runAll _ steps, Trail.leave_enter]
  | rescue steps recovery =>
      have hfirst := trail_runAll t steps
      rw [run]
      dsimp only
      split
      · exact hfirst
      · rw [hfirst]
        exact trail_runAll t recovery
termination_by sizeOf w

theorem trail_runAll (t : Trail) (ws : List Walk) : (runAll t ws).trail = t := by
  cases ws with
  | nil => rw [runAll]
  | cons w ws =>
      have hfirst := trail_run t w
      rw [runAll]
      dsimp only
      split
      · exact hfirst
      · rw [hfirst]
        exact trail_runAll t ws
termination_by sizeOf ws

end

/-- Inside a block the trail is the one before it and the kind; behind the block it is the one
before it. -/
theorem run_block (t : Trail) (kind : String) (steps : List Walk) :
    (block kind steps).run t =
      ⟨t, (t ++ [kind]) :: (runAll (t ++ [kind]) steps).seen ++ [t],
        (runAll (t ++ [kind]) steps).failure⟩ := by
  rw [run, Course.around, trail_runAll, Trail.leave_enter]
  rfl

/-- A visit without a handler is reported with the trail and the kind of the node. -/
theorem run_visit_eq_unhandled {n : Node} {handlers : Table (List Walk)}
    (h : handlers.get? n.kind.name = none) (t : Trail) :
    (visit n handlers).run t =
      ⟨t, [t ++ [n.kind.name], t],
        some (.unhandled n.kind.name (t ++ [n.kind.name]) (some n.line))⟩ := by
  rw [run_visit_of_none h, Course.around, Course.unhandled, Trail.leave_enter]
  rfl

theorem failure_runAll_cons (t : Trail) (w : Walk) (ws : List Walk) :
    (runAll t (w :: ws)).failure = (w.run t).failure.or (runAll t ws).failure := by
  rw [runAll]
  dsimp only
  split
  · rename_i f hf
    rw [hf, Option.some_or]
  · rename_i hnone
    rw [trail_run, hnone, Option.none_or]

theorem failure_run_rescue (t : Trail) (steps recovery : List Walk) :
    ((rescue steps recovery).run t).failure =
      (runAll t steps).failure.bind fun _ => (runAll t recovery).failure := by
  rw [run]
  dsimp only
  split
  · rename_i hnone
    rw [hnone, Option.bind_none]
  · rename_i f hf
    rw [hf, Option.bind_some]
    dsimp only
    rw [trail_runAll]

theorem runAll_singleton (t : Trail) (w : Walk) : runAll t [w] = w.run t := by
  rw [runAll]
  dsimp only
  split
  · rfl
  · rename_i hnone
    rw [runAll, List.append_nil]
    dsimp only
    rw [← hnone]

/-! ### What is in progress -/

/-- The node is visited without a handler in the midst of the given kinds: those of the blocks and
visits in progress, outermost first, its own last. -/
inductive InProgress (n : Node) : Walk → List String → Prop where
  | here {handlers : Table (List Walk)} (h : handlers.get? n.kind.name = none) :
      InProgress n (visit n handlers) [n.kind.name]
  | block {kind : String} {steps : List Walk} {w : Walk} {kinds : List String} (hw : w ∈ steps)
      (h : InProgress n w kinds) : InProgress n (block kind steps) (kind :: kinds)
  | visit {m : Node} {handlers : Table (List Walk)} {steps : List Walk} {w : Walk}
      {kinds : List String} (hsteps : handlers.get? m.kind.name = some steps) (hw : w ∈ steps)
      (h : InProgress n w kinds) : InProgress n (visit m handlers) (m.kind.name :: kinds)
  | steps {steps recovery : List Walk} {w : Walk} {kinds : List String} (hw : w ∈ steps)
      (h : InProgress n w kinds) : InProgress n (rescue steps recovery) kinds
  | recovery {steps recovery : List Walk} {w : Walk} {kinds : List String} (hw : w ∈ recovery)
      (h : InProgress n w kinds) : InProgress n (rescue steps recovery) kinds

theorem InProgress.getLast? {n : Node} {w : Walk} {kinds : List String}
    (h : InProgress n w kinds) : kinds.getLast? = some n.kind.name := by
  have hlast {kind : String} {kinds : List String} (h : kinds.getLast? = some n.kind.name) :
      (kind :: kinds).getLast? = some n.kind.name := by
    rw [List.getLast?_cons, h]
    rfl
  induction h with
  | here => rfl
  | block _ _ ih => exact hlast ih
  | visit _ _ _ ih => exact hlast ih
  | steps _ _ ih => exact ih
  | recovery _ _ ih => exact ih

/-- The failure, if it is about a construct without a handler, names a node visited by the walk, and
its path is the trail and the kinds in progress there. -/
def Reported (t : Trail) (visited : Node → List String → Prop) (f : Failure) : Prop :=
  ∀ kind path line, f = .unhandled kind path line → ∃ n kinds, visited n kinds ∧
    kind = n.kind.name ∧ path = t ++ kinds ∧ line = some (n.line : Int)

theorem Reported.imp {t t' : Trail} {visited visited' : Node → List String → Prop} {f : Failure}
    (h : Reported t visited f) (himp : ∀ n kinds, visited n kinds →
      ∃ kinds', visited' n kinds' ∧ t ++ kinds = t' ++ kinds') : Reported t' visited' f := by
  intro kind path line hf
  obtain ⟨n, kinds, hn, hkind, hpath, hline⟩ := h kind path line hf
  obtain ⟨kinds', hn', happend⟩ := himp n kinds hn
  exact ⟨n, kinds', hn', hkind, hpath.trans happend, hline⟩

mutual

/-- A failure about a construct without a handler is reported with all that is in progress. -/
theorem reported_run (t : Trail) (w : Walk) :
    ∀ f ∈ (w.run t).failure, Reported t (fun n => InProgress n w) f := by
  cases w with
  | raise g own =>
      rw [run]
      rintro _ ⟨⟩ kind path line rfl
      cases own
  | block kind steps =>
      intro f h
      rw [run_block] at h
      refine (reported_runAll (t ++ [kind]) steps f h).imp fun n kinds hn => ?_
      obtain ⟨w, hw, hprogress⟩ := hn
      exact ⟨_, .block hw hprogress, List.append_assoc ..⟩
  | visit m handlers =>
      cases hm : Table.get? handlers m.kind.name with
      | none =>
          rw [run_visit_eq_unhandled hm]
          rintro _ ⟨⟩ kind path line ⟨⟩
          exact ⟨m, _, .here hm, rfl, rfl, rfl⟩
      | some steps =>
          have := sizeOf_lt_of_get? hm
          intro f h
          rw [run_visit_of_handler hm, run_block] at h
          refine (reported_runAll (t ++ [m.kind.name]) steps f h).imp fun n kinds hn => ?_
          obtain ⟨w, hw, hprogress⟩ := hn
          exact ⟨_, .visit hm hw hprogress, List.append_assoc ..⟩
  | rescue steps recovery =>
      intro f h
      rw [failure_run_rescue] at h
      obtain ⟨-, -, hrecovery⟩ := Option.bind_eq_some_iff.1 h
      refine (reported_runAll t recovery f hrecovery).imp fun n kinds hn => ?_
      obtain ⟨w, hw, hprogress⟩ := hn
      exact ⟨_, .recovery hw hprogress, rfl⟩
termination_by sizeOf w

theorem reported_runAll (t : Trail) (ws : List Walk) :
    ∀ f ∈ (runAll t ws).failure, Reported t (fun n kinds => ∃ w ∈ ws, InProgress n w kinds) f := by
  cases ws with
  | nil =>
      rw [runAll]
      rintro _ ⟨⟩
  | cons w ws =>
      intro f h
      rw [failure_runAll_cons] at h
      rcases Option.or_eq_some_iff.1 h with hfirst | ⟨-, hothers⟩
      · exact (reported_run t w f hfirst).imp fun n kinds hn =>
          ⟨kinds, ⟨w, List.mem_cons_self .., hn⟩, rfl⟩
      · refine (reported_runAll t ws f hothers).imp fun n kinds hn => ?_
        obtain ⟨w', hw', hprogress⟩ := hn
        exact ⟨kinds, ⟨w', List.mem_cons_of_mem _ hw', hprogress⟩, rfl⟩
termination_by sizeOf ws

end

end Walk

/-! ### Visits -/

namespace Visit

mutual

/-- The walk that a visit is. -/
def walk : Visit → Walk
  | abandon => .raise .malformed (by decide)
  | construct kind body resume =>
    if resume then .rescue [.block kind (walks body)] [] else .block kind (walks body)

/-- The walks that visits are. -/
def walks : List Visit → List Walk
  | [] => []
  | v :: vs => walk v :: walks vs

end

/-- The course of a walk, as a visit tells it. -/
def courseOf (c : Walk.Course) : Course :=
  ⟨c.trail, c.seen, c.failure.isSome⟩

mutual

/-- Visits run as walks do. -/
theorem run_eq_walk (t : Trail) (v : Visit) : run t v = courseOf (v.walk.run t) := by
  cases v with
  | abandon => simp [run, walk, Walk.run, courseOf]
  | construct kind body resume =>
      have hinside := runAll_eq_walks (t.enter kind) body
      rw [run, walk, hinside]
      cases resume with
      | false =>
          rw [if_neg Bool.false_ne_true, Walk.run]
          simp [courseOf, Walk.Course.around]
      | true =>
          rw [if_pos rfl, Walk.run, Walk.runAll_singleton, Walk.run]
          dsimp only
          split
          · rename_i hnone
            rw [Walk.Course.around] at hnone
            simp [courseOf, Walk.Course.around, hnone]
          · rw [Walk.runAll]
            simp [courseOf, Walk.Course.around]

theorem runAll_eq_walks (t : Trail) (vs : List Visit) :
    runAll t vs = courseOf (Walk.runAll t (walks vs)) := by
  cases vs with
  | nil => rw [runAll, walks, Walk.runAll]; rfl
  | cons v vs =>
      rw [runAll, walks, Walk.runAll, run_eq_walk t v]
      dsimp only
      cases hfailure : (v.walk.run t).failure with
      | some f => simp [courseOf, hfailure]
      | none =>
          simp only [courseOf, hfailure, Option.isSome_none, Bool.false_eq_true, if_false]
          rw [runAll_eq_walks _ vs]
          rfl

end

end Visit

/-! ### Tours -/

namespace Source

mutual

/-- The walk that a tour is. -/
def tourWalk (descend leaf : List String) : Node → Walk
  | ⟨k, role, text, line, start, cs⟩ =>
    .visit ⟨k, role, text, line, start, cs⟩
      (leaf.map (·, []) ++ descend.map (·, tourWalks descend leaf cs))

/-- The walks that the tours of the constructs of a list are. -/
def tourWalks (descend leaf : List String) : List Node → List Walk
  | [] => []
  | c :: cs =>
    if c.isNamed && !c.isComment then tourWalk descend leaf c :: tourWalks descend leaf cs
    else tourWalks descend leaf cs

end

theorem get?_append_map {α : Type} (names : List String) (a : α) (t : Table α) (name : String) :
    Table.get? (names.map (·, a) ++ t) name =
      if names.contains name then some a else t.get? name := by
  induction names with
  | nil => rfl
  | cons other names ih =>
      rw [List.map_cons, List.cons_append, Table.get?, ih, List.contains_cons]
      by_cases h : other = name
      · simp [h]
      · simp [h, Ne.symm h]

/-- The handlers of a tour. -/
theorem get?_handlers (descend leaf : List String) (steps : List Walk) (name : String) :
    Table.get? (leaf.map (·, ([] : List Walk)) ++ descend.map (·, steps)) name =
      if leaf.contains name then some []
      else if descend.contains name then some steps else none := by
  have hdescend := get?_append_map descend steps [] name
  rw [List.append_nil] at hdescend
  rw [get?_append_map, hdescend]
  rfl

mutual

/-- A tour ends as its walk does. -/
theorem tour_eq_walk (descend leaf : List String) (t : Trail) (n : Node) :
    (tour descend leaf t n).2 = ((tourWalk descend leaf n).run t).failure := by
  have hhandlers := get?_handlers descend leaf (tourWalks descend leaf n.children) n.kind.name
  cases n with
  | mk k role text line start cs =>
      rw [tour, tourWalk]
      dsimp only at hhandlers ⊢
      split
      · rename_i hleaf
        rw [if_pos hleaf] at hhandlers
        rw [Walk.run_visit_of_handler hhandlers, Walk.run_block, Walk.runAll]
      · rename_i hleaf
        rw [if_neg hleaf] at hhandlers
        split
        · rename_i hdescend
          rw [if_pos hdescend] at hhandlers
          rw [Walk.run_visit_of_handler hhandlers, Walk.run_block]
          exact tourAll_eq_walks descend leaf _ cs
        · rename_i hdescend
          rw [if_neg hdescend] at hhandlers
          rw [Walk.run_visit_eq_unhandled hhandlers]
          rfl

theorem tourAll_eq_walks (descend leaf : List String) (t : Trail) (cs : List Node) :
    (tourAll descend leaf t cs).2 = (Walk.runAll t (tourWalks descend leaf cs)).failure := by
  cases cs with
  | nil => rw [tourAll, tourWalks, Walk.runAll]
  | cons c cs =>
      have hfirst := tour_eq_walk descend leaf t c
      have hothers := tourAll_eq_walks descend leaf t cs
      rw [tourAll, tourWalks]
      split
      · rw [Walk.failure_runAll_cons, ← hfirst, ← hothers]
        split
        · rename_i heq
          rw [heq, Option.some_or]
        · rename_i heq
          rw [heq, Option.none_or]
      · exact hothers

end

end Source

end Ambient
