import Ambient.Proofs.Build.Fixed

/-!
# Chains of assignments

`t₁ = t₂ = … = tₖ = v` assigns one value to several targets.  Assigned in turn, from the right, each
target takes the value once.  A chain does more: while a target reads its value, everything behind
it is assigned, and what stands behind that is then read again, so the targets from the third on are
assigned more than once, and a target may prepare its own change before the ones behind it are made.
`Assigned.replay` says what a chain does, `Assigned.inTurn` what the assignments do one by one.

The two agree on orderly chains: behind the first target every target is fixed by the assignments
already made, and what a target prepares commutes with them.
-/

namespace Ambient.Build

/-- The part of the state that assignments read and change. -/
structure Progress where
  module : Module
  registered : List String

namespace Progress

/-- The progress with its module changed. -/
def on (p : Progress) (f : Module → Module) : Progress :=
  { p with module := f p.module }

/-- The progress with a declaration registered. -/
def register (p : Progress) (name : String) (d : Decl) : Progress :=
  { module := p.module.add name d, registered := name :: p.registered }

end Progress

namespace Assigned

variable (v : Assigned)

/-- A change of a class around the reading of the value, lost when the class is replaced by it. -/
def fill (owner : String) (f : Table Decl → Table Decl) (walk : Progress → Progress)
    (p : Progress) : Progress :=
  if p.module.hasConstructor owner then
    let opened := p.on (·.promote owner)
    let walked := walk opened
    if walked.registered.count owner = opened.registered.count owner then
      walked.on (·.modifyMembers owner f)
    else walked
  else p

/-- An assignment whose value is read by `walk`; `last` when the value stands right behind it. -/
def perform (t : Target) (last : Bool) (walk : Progress → Progress) (p : Progress) : Progress :=
  match t with
  | .aggregate => (walk p).on (·.setAggregate v.decl)
  | .exported name =>
      if last && v.marks name p.module then p.on fun m => m.memberwise.markExported name
      else (walk (p.on Module.memberwise)).register name (v.decl.setExported true)
  | .prototype owner => fill owner (v.change (.prototype owner)) walk p
  | .prototypeMember owner member => fill owner (v.change (.prototypeMember owner member)) walk p
  | .other => walk p

/-- Reading what stands behind a target: it is assigned, and what stands behind it is read. -/
def walk : List Target → Progress → Progress
  | [], p => p
  | t :: r, p => walk r (v.perform t r.isEmpty (walk r) p)

/-- The effect of a chain of assignments. -/
def replay : List Target → Progress → Progress
  | [], p => p
  | t :: r, p => v.perform t r.isEmpty (v.walk r) p

variable {v} {t r : Target} {m : Module}

/-! ### Reading again what is assigned already -/

theorem module_fill_of_fixed {o : String} {f : Table Decl → Table Decl}
    {walk : Progress → Progress} {p : Progress} (hfixed : p.module.extend o f = p.module)
    (hwalk : ∀ q : Progress, q.module = p.module → (walk q).module = p.module) :
    (fill o f walk p).module = p.module := by
  rw [fill]
  split
  · rename_i hm
    have hpromote : p.module.promote o = p.module := by
      rw [← hfixed, Module.promote_extend]
    have hmembers : p.module.modifyMembers o f = p.module := by
      have heq := Module.extend_of_hasConstructor _ f hm
      rwa [hfixed, hpromote, eq_comm] at heq
    have hwalked := hwalk (p.on (·.promote o)) hpromote
    dsimp only
    split
    · exact (congrArg (Module.modifyMembers · o f) hwalked).trans hmembers
    · exact hwalked
  · rfl

/-- Performing an assignment that is fixed changes nothing. -/
theorem module_perform_of_fixed {last : Bool} {walk : Progress → Progress} {p : Progress}
    (hfixed : v.Fixed t p.module)
    (hwalk : ∀ q : Progress, q.module = p.module → (walk q).module = p.module)
    (hname : ∀ n, t = .exported n → last = true ∨ ¬ v.marks n p.module = true) :
    (v.perform t last walk p).module = p.module := by
  cases t with
  | aggregate =>
      exact (congrArg (Module.setAggregate · v.decl) (hwalk p rfl)).trans hfixed
  | exported n =>
      rw [perform]
      by_cases hmarks : v.marks n p.module = true
      · have hlast : last = true := (hname n rfl).resolve_right fun h => h hmarks
        rw [if_pos (by rw [hlast, hmarks]; rfl)]
        rw [Fixed, assign_of_marks hmarks] at hfixed
        exact hfixed
      · rw [if_neg (by simp [hmarks])]
        rw [Fixed, assign_of_not_marks hmarks] at hfixed
        have hmember : p.module.memberwise = p.module := by
          have hnone : p.module.aggregate = none := by
            rw [← hfixed]
            rfl
          exact Module.memberwise_eq_self _ hnone
        have hwalked := hwalk (p.on Module.memberwise) hmember
        refine (congrArg (Module.add · n (v.decl.setExported true)) hwalked).trans ?_
        rwa [hmember] at hfixed
  | prototype owner => exact module_fill_of_fixed hfixed hwalk
  | prototypeMember owner member => exact module_fill_of_fixed hfixed hwalk
  | other => exact hwalk p rfl

/-- Reading again targets that are fixed changes nothing. -/
theorem module_walk_of_fixed {ts : List Target} {p : Progress}
    (hfixed : ∀ r ∈ ts, v.Fixed r p.module)
    (hname : ∀ n, .exported n ∈ ts.dropLast → ¬ v.marks n p.module = true) :
    (v.walk ts p).module = p.module := by
  induction ts generalizing p with
  | nil => rfl
  | cons t ts ih =>
      have hdrop : ∀ n, .exported n ∈ ts.dropLast → ¬ v.marks n p.module = true := by
        intro n hn
        refine hname n ?_
        cases ts with
        | nil => cases hn
        | cons t' ts => exact List.mem_cons_of_mem _ hn
      have hwalk : ∀ q : Progress, q.module = p.module → (v.walk ts q).module = p.module := by
        intro q hq
        rw [← hq] at hfixed hdrop ⊢
        exact ih (fun r hr => hfixed r (List.mem_cons_of_mem _ hr)) hdrop
      have hlast : ∀ n, t = .exported n → ts.isEmpty = true ∨ ¬ v.marks n p.module = true := by
        intro n hn
        cases ts with
        | nil => exact .inl rfl
        | cons t' ts =>
            refine .inr (hname n ?_)
            rw [hn]
            exact List.mem_cons_self ..
      rw [walk]
      exact hwalk _ (module_perform_of_fixed (hfixed t (List.mem_cons_self ..)) hwalk hlast)

/-! ### Orderly chains -/

/-- The targets behind the first one of a chain do not disturb each other.  `named`: the value is
not the name of an item that one of them replaces; `lasting`: no description waits under a name
that is registered more than once; `present`: a constructor is there, or nothing but its prototype
is assigned behind it. -/
structure Settling (v : Assigned) (m : Module) (ts : List Target) : Prop where
  mode : .aggregate ∈ ts → ∀ n, .exported n ∉ ts
  named : ∀ n, .exported n ∈ ts.dropLast → ¬ v.marks n m = true
  lasting : ∀ n, .exported n ∈ ts.tail → v.Lasting n m
  present : ∀ l t r o, ts = l ++ t :: r → t.owner? = some o →
    m.hasConstructor o = true ∨ ∀ u ∈ r, u = .other ∨ u.owner? = some o
  owner : ∀ t ∈ ts, ∀ o, t.owner? = some o → .exported o ∉ ts
  members : ∀ o x h ms, .prototype o ∈ ts → .prototypeMember o x ∈ ts → v.decl = .object h ms →
    x ∉ Table.names ms

/-- A chain whose first target is not disturbed by the ones behind it, nor they by each other. -/
structure Orderly (v : Assigned) (m : Module) (t : Target) (ts : List Target) : Prop
    extends Settling v m ts where
  head_mode : .aggregate ∈ ts → ∀ n, t ≠ .exported n
  head_named : ts ≠ [] → ∀ n, t = .exported n → ¬ v.marks n m = true
  head_present : ∀ o, t.owner? = some o →
    m.hasConstructor o = true ∨ ∀ u ∈ ts, u = .other ∨ u.owner? = some o
  head_owner : ∀ o, t.owner? = some o → .exported o ∉ ts

theorem Settling.tail {ts : List Target} (h : v.Settling m (t :: ts)) : v.Settling m ts where
  mode ha n hn := h.mode (List.mem_cons_of_mem _ ha) n (List.mem_cons_of_mem _ hn)
  named n hn := by
    cases ts with
    | nil => cases hn
    | cons t' ts => exact h.named n (List.mem_cons_of_mem _ hn)
  lasting n hn := h.lasting n (List.mem_of_mem_tail hn)
  present l t' r o heq := h.present (t :: l) t' r o (by rw [heq]; rfl)
  owner t' ht' o ho hmem := h.owner t' (List.mem_cons_of_mem _ ht') o ho (List.mem_cons_of_mem _ hmem)
  members o x hd ms hp hm := h.members o x hd ms (List.mem_cons_of_mem _ hp) (List.mem_cons_of_mem _ hm)

theorem Settling.compatible {ts : List Target} (h : v.Settling m ts) (ht : t ∈ ts) (hr : r ∈ ts) :
    v.Compatible t r where
  mode n := by
    constructor
    · rintro rfl rfl
      exact h.mode ht n hr
    · rintro rfl rfl
      exact h.mode hr n ht
  owner o := by
    constructor
    · rintro ho rfl
      exact h.owner t ht o ho hr
    · rintro ho rfl
      exact h.owner r hr o ho ht
  members o x hd ms hdecl := by
    rintro (⟨rfl, rfl⟩ | ⟨rfl, rfl⟩)
    · exact h.members o x hd ms ht hr hdecl
    · exact h.members o x hd ms hr ht hdecl

theorem marks_promote (n o : String) : v.marks n (m.promote o) = v.marks n m := by
  rw [marks, marks, Module.get?_promote]
  split
  · cases m.items.get? n <;> simp
  · rfl

theorem Waits.of_promote {n o : String} (h : Waits (m.promote o) n) : Waits m n := by
  obtain ⟨hd, hget, hflags⟩ := h
  rw [Module.get?_promote] at hget
  split at hget
  · obtain ⟨e, he, heq⟩ := Option.map_eq_some_iff.1 hget
    cases e <;> cases heq
    exact ⟨hd, he, hflags⟩
  · exact ⟨hd, hget, hflags⟩

theorem Settling.memberwise {ts : List Target} (h : v.Settling m ts) :
    v.Settling m.memberwise ts :=
  ⟨h.mode, h.named, h.lasting, h.present, h.owner, h.members⟩

theorem Settling.promote {ts : List Target} (h : v.Settling m ts) (o : String) :
    v.Settling (m.promote o) ts where
  mode := h.mode
  named n hn := by
    rw [marks_promote]
    exact h.named n hn
  lasting n hn := (h.lasting n hn).imp_left fun hw hp => hw hp.of_promote
  present l t r o' heq ho := by
    rw [Module.hasConstructor_promote]
    exact h.present l t r o' heq ho
  owner := h.owner
  members := h.members

theorem not_marks_assign {n : String} (h : ¬ v.marks n m = true) (t : Target) :
    ¬ v.marks n (v.assign t m) = true := by
  intro hc
  obtain ⟨hname, e, he, halias⟩ := marks_iff.1 hc
  refine h ?_
  cases hto : t.owner? with
  | some o =>
      rw [assign_of_owner hto, Module.get?_extend] at he
      split at he
      · obtain ⟨e', he', heq⟩ := Option.map_eq_some_iff.1 he
        rw [← heq, Decl.isAlias_mapMembers, Decl.isAlias_promote] at halias
        exact marks_iff.2 ⟨hname, e', he', halias⟩
      · exact marks_iff.2 ⟨hname, e, he, halias⟩
  | none =>
      cases t with
      | aggregate =>
          rw [assign, Module.get?_setAggregate] at he
          obtain ⟨e', he', heq⟩ := Option.map_eq_some_iff.1 he
          rw [← heq, Decl.isAlias_setExported] at halias
          exact marks_iff.2 ⟨hname, e', he', halias⟩
      | exported name =>
          by_cases hn : n = name
          · rw [hn] at h he
            obtain ⟨hd, hdecl⟩ := v.isAlias n hname
            rw [assign_of_not_marks h, Module.get?_add_self] at he
            rw [← Option.some.inj he, Module.isAlias_handOver, hdecl] at halias
            cases halias
          · rw [get?_assign (by simp) (by simpa using Ne.symm hn) (by simp [Target.owner?])] at he
            exact marks_iff.2 ⟨hname, e, he, halias⟩
      | prototype owner => cases hto
      | prototypeMember owner member => cases hto
      | other => exact marks_iff.2 ⟨hname, e, he, halias⟩

theorem not_marks_inTurn {n : String} (h : ¬ v.marks n m = true) (ts : List Target) :
    ¬ v.marks n (v.inTurn ts m) = true := by
  induction ts with
  | nil => exact h
  | cons t ts ih => exact not_marks_assign ih t

/-! ### A class is replaced only by exporting its name -/

theorem count_perform {o : String} {last : Bool} {walk : Progress → Progress} (p : Progress)
    (ht : t ≠ .exported o)
    (hwalk : ∀ q : Progress, (walk q).registered.count o = q.registered.count o) :
    (v.perform t last walk p).registered.count o = p.registered.count o := by
  have hfill (owner : String) (f : Table Decl → Table Decl) :
      (fill owner f walk p).registered.count o = p.registered.count o := by
    rw [fill]
    split
    · dsimp only
      split <;> exact hwalk _
    · rfl
  cases t with
  | aggregate => exact hwalk p
  | exported n =>
      have hne : n ≠ o := fun h => ht (h ▸ rfl)
      rw [perform]
      split
      · rfl
      · rw [Progress.register, List.count_cons_of_ne hne]
        exact hwalk _
  | prototype owner => exact hfill _ _
  | prototypeMember owner member => exact hfill _ _
  | other => exact hwalk p

theorem count_walk {o : String} {ts : List Target} (h : .exported o ∉ ts) (p : Progress) :
    (v.walk ts p).registered.count o = p.registered.count o := by
  induction ts generalizing p with
  | nil => rfl
  | cons t ts ih =>
      rw [List.mem_cons, not_or] at h
      rw [walk, ih h.2, count_perform p (Ne.symm h.1) (ih h.2)]

/-! ### Orderly chains are assigned in turn -/

theorem module_fill {o : String} {f : Table Decl → Table Decl} {ts : List Target} {p : Progress}
    (hwalk : ∀ q : Progress, v.Settling q.module ts → (v.walk ts q).module = v.inTurn ts q.module)
    (hs : v.Settling p.module ts)
    (hpresent : p.module.hasConstructor o = true ∨ ∀ u ∈ ts, u = .other ∨ u.owner? = some o)
    (howner : .exported o ∉ ts) :
    (fill o f (v.walk ts) p).module = (v.inTurn ts p.module).extend o f := by
  rw [fill]
  by_cases hm : p.module.hasConstructor o = true
  · have hwalked : (v.walk ts (p.on (·.promote o))).module = (v.inTurn ts p.module).promote o := by
      rw [hwalk _ (hs.promote o)]
      exact inTurn_promote howner hm
    have hturn : (v.inTurn ts p.module).hasConstructor o = true := by
      rw [hasConstructor_inTurn howner, hm]
    rw [if_pos hm, Module.extend_of_hasConstructor _ _ hturn, ← hwalked]
    dsimp only
    rw [if_pos (count_walk howner _)]
    rfl
  · have hothers := hpresent.resolve_left hm
    rw [if_neg hm, inTurn_of_not_hasConstructor hothers hm,
      Module.extend_of_not_hasConstructor _ _ hm]

/-- A target with others behind it is assigned after them. -/
theorem module_perform_link {ts : List Target} {p : Progress}
    (hwalk : ∀ q : Progress, v.Settling q.module ts → (v.walk ts q).module = v.inTurn ts q.module)
    (hs : v.Settling p.module ts) (hmode : .aggregate ∈ ts → ∀ n, t ≠ .exported n)
    (hnamed : ∀ n, t = .exported n → ¬ v.marks n p.module = true)
    (hpresent : ∀ o, t.owner? = some o →
      p.module.hasConstructor o = true ∨ ∀ u ∈ ts, u = .other ∨ u.owner? = some o)
    (howner : ∀ o, t.owner? = some o → .exported o ∉ ts) :
    (v.perform t false (v.walk ts) p).module = v.assign t (v.inTurn ts p.module) := by
  cases t with
  | aggregate => exact congrArg (Module.setAggregate · v.decl) (hwalk p hs)
  | exported n =>
      have haggregate : .aggregate ∉ ts := fun h => hmode h n rfl
      have hmarks := not_marks_inTurn (hnamed n rfl) ts
      have hwalked : (v.walk ts (p.on Module.memberwise)).module =
          (v.inTurn ts p.module).memberwise := by
        rw [hwalk _ hs.memberwise]
        exact inTurn_memberwise haggregate p.module
      rw [assign_of_not_marks hmarks, ← hwalked]
      rfl
  | prototype owner => exact module_fill hwalk hs (hpresent owner rfl) (howner owner rfl)
  | prototypeMember owner member =>
      exact module_fill hwalk hs (hpresent owner rfl) (howner owner rfl)
  | other => exact hwalk p hs

/-- The last target of a chain takes the value itself. -/
theorem module_perform_last (t : Target) (p : Progress) :
    (v.perform t true (v.walk []) p).module = v.assign t p.module := by
  have hfill (o : String) (f : Table Decl → Table Decl) :
      (fill o f (v.walk []) p).module = p.module.extend o f := by
    rw [fill, Module.extend]
    split
    · dsimp only
      rw [if_pos (count_walk (List.not_mem_nil) _)]
      rfl
    · rfl
  cases t with
  | aggregate => rfl
  | exported n =>
      rw [perform, assign, Bool.true_and]
      split <;> rfl
  | prototype owner => exact hfill _ _
  | prototypeMember owner member => exact hfill _ _
  | other => rfl

/-- Reading what stands behind a target assigns it in turn, when it settles. -/
theorem module_walk {ts : List Target} {p : Progress} (h : v.Settling p.module ts) :
    (v.walk ts p).module = v.inTurn ts p.module := by
  induction ts generalizing p with
  | nil => rfl
  | cons t ts ih =>
      cases ts with
      | nil => exact module_perform_last t p
      | cons t' ts =>
          have hhead : t ∈ t :: t' :: ts := List.mem_cons_self ..
          have hperform : (v.perform t false (v.walk (t' :: ts)) p).module =
              v.assign t (v.inTurn (t' :: ts) p.module) := by
            refine module_perform_link (fun q hq => ih hq) h.tail ?_ ?_ ?_ ?_
            · rintro ha n rfl
              exact h.mode (List.mem_cons_of_mem _ ha) n hhead
            · rintro n rfl
              exact h.named n (List.mem_cons_self ..)
            · exact fun o ho => h.present [] t (t' :: ts) o rfl ho
            · exact fun o ho hmem => h.owner t hhead o ho (List.mem_cons_of_mem _ hmem)
          have hfixed : ∀ r ∈ t' :: ts, v.Fixed r (v.assign t (v.inTurn (t' :: ts) p.module)) := by
            intro r hr
            have hturn := fixed_inTurn h.lasting (fun a ha b hb => h.tail.compatible ha hb) r hr
            exact hturn.assign (h.compatible hhead (List.mem_cons_of_mem _ hr))
          rw [walk, inTurn_cons, ← hperform]
          rw [← hperform] at hfixed
          refine module_walk_of_fixed hfixed fun n hn => ?_
          have hmarks := not_marks_inTurn (h.named n (List.mem_cons_of_mem _ hn)) (t :: t' :: ts)
          rwa [inTurn_cons, ← hperform] at hmarks

/-- An orderly chain leaves the module that its assignments leave one by one. -/
theorem module_replay {ts : List Target} {p : Progress} (h : v.Orderly p.module t ts) :
    (v.replay (t :: ts) p).module = v.inTurn (t :: ts) p.module := by
  cases ts with
  | nil => exact module_perform_last t p
  | cons t' ts =>
      exact module_perform_link (fun q hq => module_walk hq) h.toSettling h.head_mode
        (h.head_named (List.cons_ne_nil t' ts)) h.head_present h.head_owner

/-- A chain that only exports names is orderly, when its value is no bare name and no described name
waits for its declaration. -/
theorem orderly_of_exported (name : String) (names : List String) (hname : v.name = none)
    (hwaits : ∀ n, ¬ Waits m n) : v.Orderly m (.exported name) (names.map .exported) := by
  have hmarks : ∀ n, ¬ v.marks n m = true := by
    intro n hn
    have hsome := (marks_iff.1 hn).1
    rw [hname] at hsome
    cases hsome
  have hexported : ∀ t ∈ names.map Target.exported, ∃ n, t = .exported n := by
    intro t ht
    obtain ⟨n, _, rfl⟩ := List.mem_map.1 ht
    exact ⟨n, rfl⟩
  have howner : ∀ t ∈ names.map Target.exported, t.owner? = none := by
    intro t ht
    obtain ⟨n, rfl⟩ := hexported t ht
    rfl
  have hmode : Target.aggregate ∉ names.map Target.exported := by
    intro ht
    obtain ⟨n, hn⟩ := hexported _ ht
    cases hn
  refine ⟨⟨?_, ?_, ?_, ?_, ?_, ?_⟩, ?_, ?_, ?_, ?_⟩
  · exact fun ha => (hmode ha).elim
  · exact fun n _ => hmarks n
  · exact fun n _ => .inl (hwaits n)
  · intro l t r o heq ho
    have hnone := howner t (by rw [heq]; simp)
    rw [ho] at hnone
    cases hnone
  · intro t ht o ho
    rw [howner t ht] at ho
    cases ho
  · intro o x h ms hp
    have hnone := howner _ hp
    cases hnone
  · exact fun ha => (hmode ha).elim
  · exact fun _ n _ => hmarks n
  · intro o ho
    cases ho
  · intro o ho
    cases ho

end Assigned

end Ambient.Build
