import Ambient.Proofs.Build.Chain
import Ambient.Proofs.Build.Kept

/-!
# Assignments to the prototype of a function

A function becomes a class with the first assignment to its prototype or to a member of it.  The
class takes the place, the flag and the description of the function, which stays as its constructor;
every assignment sets members, so what counts is the list of entries that the assignments give.
-/

namespace Ambient.Build

/-! ### Targets -/

/-- A plain name, other than that of the export object. -/
structure IsOwner (owner : String) : Prop where
  ne_empty : owner ≠ ""
  no_dot : '.' ∉ owner.toList
  ne_exports : owner ≠ "exports"

theorem ne_member_of_no_dot {path : String} (h : '.' ∉ path.toList) (owner name : String) :
    path ≠ owner ++ "." ++ name := by
  rintro rfl
  exact h (by simp)

theorem member_injective {owner name : String} (owner' name' : String)
    (h : owner ++ "." ++ name = owner' ++ "." ++ name') (hname : '.' ∉ name.toList)
    (hname' : '.' ∉ name'.toList) : owner = owner' ∧ name = name' := by
  have hsplit := splitLast?_member owner hname
  rw [h, splitLast?_member owner' hname'] at hsplit
  exact Prod.mk.inj (Option.some.inj hsplit.symm)

theorem prototype_ne_exports (owner : String) : owner ++ "." ++ "prototype" ≠ "module.exports" := by
  intro h
  have hname := (member_injective "module" "exports" h (by decide) (by decide)).2
  revert hname
  decide

/-- An assignment to the prototype of a plain name replaces that prototype. -/
theorem ofPath_prototype {owner : String} (h : IsOwner owner) :
    Target.ofPath (owner ++ "." ++ "prototype") = .prototype owner := by
  have hdot : '.' ∉ "prototype".toList := by decide
  have hmodule : owner ≠ "module.exports" := ne_member_of_no_dot h.no_dot "module" "exports"
  have hplain : Text.hasChar '.' owner = false := by
    simpa [Text.hasChar] using fun c hc (heq : c = '.') => h.no_dot (heq ▸ hc)
  simp [Target.ofPath, splitLast?_member owner hdot, prototype_ne_exports owner, h.ne_exports,
    hmodule, h.ne_empty, hplain]

theorem before?_append (owner word : String) : Text.before? word (owner ++ word) = some owner := by
  rw [Text.before?, String.toList_append, List.reverse_append, Text.after?_append]
  simp

/-- An assignment to a member of a prototype sets that member. -/
theorem ofPath_prototypeMember (owner : String) {name : String} (hname : '.' ∉ name.toList) :
    Target.ofPath (owner ++ "." ++ "prototype" ++ "." ++ name) = .prototypeMember owner name := by
  have hwhole : owner ++ "." ++ "prototype" ++ "." ++ name ≠ "module.exports" := by
    intro h
    have howner := (member_injective "module" "exports" h hname (by decide)).1
    exact ne_member_of_no_dot (by decide) owner "prototype" howner.symm
  have hexports : owner ++ "." ++ "prototype" ≠ "exports" :=
    (ne_member_of_no_dot (by decide) owner "prototype").symm
  have hchar : Text.hasChar '.' (owner ++ "." ++ "prototype") = true := by
    simp [Text.hasChar]
  have hbefore : Text.before? ".prototype" (owner ++ "." ++ "prototype") = some owner := by
    rw [String.append_assoc]
    exact before?_append owner ".prototype"
  simp only [Target.ofPath, splitLast?_member _ hname, Option.getD_some, if_neg hwhole, hexports,
    prototype_ne_exports owner, hchar, hbefore]
  simp

/-! ### Amendments -/

/-- What a statement gives to a prototype: one member, or a value that takes its place. -/
inductive Amendment where
  | member (name : String) (d : Decl)
  | whole (d : Decl)

namespace Amendment

/-- The members that an amendment sets, in order.  A value other than an object sets none. -/
def entries : Amendment → Table Decl
  | .member name d => [(name, d)]
  | .whole (.object _ members) => members
  | .whole _ => []

/-- The members that amendments leave, from the left to the right. -/
def members (as : List Amendment) : Table Decl :=
  as.foldl (fun members a => members.setAll a.entries) []

theorem foldl_entries (as : List Amendment) (members : Table Decl) :
    as.foldl (fun members a => members.setAll a.entries) members =
      members.setAll (as.flatMap entries) := by
  induction as generalizing members with
  | nil => rfl
  | cons a as ih => rw [List.foldl_cons, ih, List.flatMap_cons, Table.setAll_append]

theorem members_eq (as : List Amendment) : members as = Table.ofEntries (as.flatMap entries) :=
  foldl_entries as []

end Amendment

/-- The statement assigns a value without assignments to the prototype of the name, or to a member
of it. -/
inductive Amends (ctx : Context) (owner : String) (st : Node) : Amendment → Prop
  | member {w : Node} {name : String} {d : Decl} {s : BuildState} (hname : '.' ∉ name.toList)
      (hst : w.ChainStatement [owner ++ "." ++ "prototype" ++ "." ++ name] st)
      (hfree : w.AssignmentFree) (hd : (runFrom (value ctx w) s).1 = .ok d) :
      Amends ctx owner st (.member name d)
  | whole {w : Node} {d : Decl} {s : BuildState}
      (hst : w.ChainStatement [owner ++ "." ++ "prototype"] st)
      (hfree : w.AssignmentFree) (hd : (runFrom (value ctx w) s).1 = .ok d) :
      Amends ctx owner st (.whole d)

/-- A token, or a comment that does not stand for itself. -/
def Idle (n : Node) : Prop :=
  n.isNamed = false ∨
    n.kind = .comment ∧ (Doc.isBlock n.text && Doc.isDetached n.text) = false

/-- The nodes behind the given siblings assign to the prototype of the name one by one. -/
inductive AmendsAll (ctx : Context) (owner : String) :
    List Node → List Node → List Amendment → Prop
  | nil (before : List Node) : AmendsAll ctx owner before [] []
  | idle {before rest : List Node} {n : Node} {as : List Amendment} (hn : Idle n)
      (h : AmendsAll ctx owner (n :: before) rest as) : AmendsAll ctx owner before (n :: rest) as
  | amend {before rest : List Node} {st : Node} {a : Amendment} {as : List Amendment}
      (hst : Amends (ctx.behind before) owner st a)
      (h : AmendsAll ctx owner (st :: before) rest as) :
      AmendsAll ctx owner before (st :: rest) (a :: as)

variable {ctx : Context} {owner : String}

/-! ### One statement -/

/-- An amendment sets its entries in the class under the name. -/
theorem runFrom_amends (ho : IsOwner owner) {st : Node} {a : Amendment}
    (h : Amends ctx owner st a) (s : BuildState) :
    ∃ s', runFrom (statement ctx st) s = (.ok (), s') ∧
      s'.module = s.module.extend owner (·.setAll a.entries) := by
  cases h with
  | member hname hst hfree hd =>
      obtain ⟨v, rfl, hbare⟩ := exists_assigned hd
      obtain ⟨s', hrun, hmodule⟩ :=
        exists_run_single hst hbare (fun _ hc => does_value hfree hc hd) s
      rw [ofPath_prototypeMember owner hname] at hmodule
      exact ⟨s', hrun, hmodule⟩
  | whole hst hfree hd =>
      obtain ⟨v, rfl, hbare⟩ := exists_assigned hd
      obtain ⟨s', hrun, hmodule⟩ :=
        exists_run_single hst hbare (fun _ hc => does_value hfree hc hd) s
      rw [ofPath_prototype ho] at hmodule
      refine ⟨s', hrun, hmodule.trans (congrArg (s.module.extend owner) ?_)⟩
      rw [Assigned.change]
      cases v.decl <;> rfl

theorem runFrom_step_of_idle {n : Node} (hn : Idle n) (before : List Node) (s : BuildState) :
    runFrom (step ctx before n) s = (.ok (), s) := by
  rw [step]
  split
  · rename_i hnamed
    obtain hfalse | ⟨hk, hdoc⟩ := hn
    · rw [hfalse] at hnamed
      cases hnamed
    · rw [statement]
      simp only [hk]
      rw [commentStatement, hdoc]
      rfl
  · rfl

theorem step_of_amends {before : List Node} {st : Node} {a : Amendment}
    (h : Amends (ctx.behind before) owner st a) :
    step ctx before st = statement (ctx.behind before) st := by
  have hk : st.kind = .expressionStatement := by
    cases h with
    | member _ hst _ _ => exact hst.1
    | whole hst _ _ => exact hst.1
  have hnamed : st.isNamed = true := by
    rw [Node.isNamed, hk]
    rfl
  rw [step, if_pos hnamed]

/-! ### All statements -/

/-- Amendments extend the class under the name one by one. -/
theorem runFrom_amendsAll (ho : IsOwner owner) {before nodes : List Node} {as : List Amendment}
    (h : AmendsAll ctx owner before nodes as) (s : BuildState) :
    ∃ s', runFrom (statements ctx before nodes) s = (.ok (), s') ∧
      s'.module = as.foldl (fun m a => m.extend owner (·.setAll a.entries)) s.module := by
  induction h generalizing s with
  | nil before => exact ⟨s, rfl, rfl⟩
  | @idle before rest n as hn _ ih =>
      obtain ⟨s', hrun, hmodule⟩ := ih s
      refine ⟨s', ?_, hmodule⟩
      rw [statements_cons, runFrom_bind_of_ok (runFrom_step_of_idle hn before s)]
      exact hrun
  | @amend before rest st a as hst _ ih =>
      obtain ⟨mid, hstep, hmid⟩ := runFrom_amends ho hst s
      obtain ⟨s', hrun, hmodule⟩ := ih mid
      refine ⟨s', ?_, ?_⟩
      · rw [← step_of_amends hst] at hstep
        rw [statements_cons, runFrom_bind_of_ok hstep]
        exact hrun
      · rw [hmodule, List.foldl_cons, hmid]

/-- Extending a class by amendments one by one is extending it once by all of their entries. -/
theorem foldl_extend {as : List Amendment} (has : as ≠ []) (m : Module) :
    as.foldl (fun m a => m.extend owner (·.setAll a.entries)) m =
      m.extend owner (·.setAll (as.flatMap Amendment.entries)) := by
  induction as generalizing m with
  | nil => exact (has rfl).elim
  | cons a as ih =>
      rw [List.foldl_cons]
      cases as with
      | nil => simp
      | cons b as =>
          -- Only the first amendment finds a function; to extend what it made is to extend by both.
          rw [ih (List.cons_ne_nil b as), Module.extend_extend, List.flatMap_cons]
          congr 1
          funext members
          exact (Table.setAll_append members _ _).symm

/-- The class that a function becomes when its prototype gets members. -/
theorem get?_extend_of_function {m : Module} {fn : Callable}
    (h : m.items.get? owner = some (.function fn)) (f : Table Decl → Table Decl) :
    (m.extend owner f).items.get? owner =
      some (.classDef { exported := fn.header.exported, description := fn.header.description }
        (some { fn with header := { fn.header with exported := false, description := "" } })
        (f []) none) := by
  have hconstructor : m.hasConstructor owner = true := by
    rw [Module.hasConstructor_eq, h]
    rfl
  rw [Module.get?_extend, if_pos ⟨rfl, hconstructor⟩, h]
  simp [Decl.promote, classOf, Decl.mapMembers]

/-- Statements that assign to the prototype of a function, at least one, turn it into a class where
it stands.  The names of the items and all other items stay, and so does the rest of the module.
The class has the flag and the description of the function, the function itself as its constructor,
and the members that the assignments set from the left to the right: each name where it is set
first, with the value it is set to last. -/
theorem prototype_promotion (ctx : Context) (owner : String) (before nodes : List Node)
    (as : List Amendment) (fn : Callable) (s : BuildState) (howner : IsOwner owner)
    (hfn : s.module.items.get? owner = some (.function fn))
    (hnodes : AmendsAll ctx owner before nodes as) (has : as ≠ []) :
    (∃ s', runFrom (statements ctx before nodes) s = (.ok (), s') ∧
      s'.module = { s.module with items := s'.module.items } ∧
      s'.module.items.names = s.module.items.names ∧
      (∀ other, other ≠ owner → s'.module.items.get? other = s.module.items.get? other) ∧
      s'.module.items.get? owner =
        some (.classDef
          { exported := fn.header.exported, description := fn.header.description, diagnostics := [] }
          (some { fn with header := { fn.header with exported := false, description := "" } })
          (Amendment.members as) none)) ∧
    (Amendment.members as).names = (Table.names (as.flatMap Amendment.entries)).eraseDups ∧
    ∀ name, (Amendment.members as).get? name =
      ((as.flatMap Amendment.entries).filter (·.1 = name)).getLast?.map Prod.snd := by
  obtain ⟨s', hrun, hmodule⟩ := runFrom_amendsAll howner hnodes s
  rw [foldl_extend has] at hmodule
  refine ⟨⟨s', hrun, ?_, ?_, ?_, ?_⟩, ?_, ?_⟩
  · rw [hmodule]
    exact Module.extend_eq_with_items ..
  · rw [hmodule, Module.names_extend]
  · intro other hother
    rw [hmodule, Module.get?_extend, if_neg fun h => hother h.1]
  · rw [hmodule, get?_extend_of_function hfn, Amendment.members_eq]
    rfl
  · rw [Amendment.members_eq, Table.names_ofEntries]
  · intro name
    rw [Amendment.members_eq, Table.get?_ofEntries]

/-! ### A constructor with three assignments -/

/-- `owner.prototype` -/
def prototypeOf (owner : String) : Node :=
  memberOf (leaf .identifier owner) (leaf .propertyIdentifier "prototype")

/-- `owner.prototype.name` -/
def prototypeMemberOf (owner name : String) : Node :=
  memberOf (prototypeOf owner) (leaf .propertyIdentifier name)

theorem spells_prototypeOf (owner : String) (r : Role) :
    ((prototypeOf owner).as r).Spells (owner ++ "." ++ "prototype") :=
  spells_memberOf r (.name (.inl rfl)) (.name (.inr (.inl rfl)))

theorem spells_prototypeMemberOf (owner name : String) (r : Role) :
    ((prototypeMemberOf owner name).as r).Spells (owner ++ "." ++ "prototype" ++ "." ++ name) :=
  spells_memberOf r (spells_prototypeOf owner .receiver) (.name (.inr (.inl rfl)))

/-- `{ name }` -/
def objectOf (name : String) : Node :=
  ⟨.object, none, name, 1, 0, [leaf .shorthandPropertyIdentifier name]⟩

theorem assignmentFree_objectOf (name : String) (r : Role) :
    ((objectOf name).as r).AssignmentFree := by
  intro e he
  cases he with
  | self =>
      intro hk
      cases hk
  | child _ hc he =>
      rw [List.mem_singleton.1 hc] at he
      cases he with
      | self =>
          intro hk
          cases hk
      | child _ hc _ => cases hc
      | member _ hbody _ _ => cases hbody
  | member _ hbody _ _ => cases hbody

theorem runFrom_objectOf {ctx : Context} (hctx : ctx.comment = none) (name : String) (r : Role)
    (s : BuildState) :
    runFrom (value ctx ((objectOf name).as r)) s =
      (.ok (.object {} [(name, .aliasOf {} name)]), s) := by
  rw [value]
  obtain ⟨resolver, trail, comment⟩ := ctx
  cases hctx
  have hmembers (c : Context) : runFrom
      (objectMembers c [] [leaf .shorthandPropertyIdentifier name] []) s =
        (.ok [(name, .aliasOf {} name)], s) := by
    rw [objectMembers]
    simp only [objectMembers_nil]
    rfl
  exact runFrom_bind_of_ok (hmembers _) _

/-- `F.prototype.a = 1; F.prototype = { b }; F.prototype.a = { c };`: the member `a` keeps its place
and takes its last value. -/
theorem prototype_promotion_three :
    let fn : Callable := { header := { exported := true, description := "Makes one." } }
    let s : BuildState := { module :=
      { name := "m", items := [("F", .function fn), ("b", number)], aggregate := some number } }
    let nodes := [
      statementOf (assignment (prototypeMemberOf "F" "a") (leaf .number "1")),
      statementOf (assignment (prototypeOf "F") (objectOf "b")),
      statementOf (assignment (prototypeMemberOf "F" "a") (objectOf "c"))]
    ∃ s', runFrom (statements {} [] nodes) s = (.ok (), s') ∧
      s'.module.items.names = ["F", "b"] ∧ s'.module.aggregate.isSome = true ∧
      s'.module.items.get? "F" = some (.classDef { exported := true, description := "Makes one." }
        (some {}) [("a", .object {} [("c", .aliasOf {} "c")]), ("b", .aliasOf {} "b")] none) := by
  intro fn s nodes
  have hsingle {left right : Node} {path : String} (h : (left.as .left).Spells path) :
      (right.as .right).ChainStatement [path] (statementOf (assignment left right)) :=
    ⟨rfl, _, rfl, .last rfl rfl h rfl⟩
  have hfirst : Amends {} "F" _ (.member "a" number) := .member (by decide)
    (hsingle (spells_prototypeMemberOf "F" "a" .left)) (assignmentFree_leaf (by decide) "1" .right)
    (congrArg Prod.fst (runFrom_number rfl "1" .right s))
  have hsecond : Amends {} "F" _ (.whole (.object {} [("b", .aliasOf {} "b")])) := .whole
    (hsingle (spells_prototypeOf "F" .left)) (assignmentFree_objectOf "b" .right)
    (congrArg Prod.fst (runFrom_objectOf rfl "b" .right s))
  have hthird : Amends {} "F" _ (.member "a" (.object {} [("c", .aliasOf {} "c")])) :=
    .member (by decide) (hsingle (spells_prototypeMemberOf "F" "a" .left))
    (assignmentFree_objectOf "c" .right) (congrArg Prod.fst (runFrom_objectOf rfl "c" .right s))
  obtain ⟨⟨s', hrun, hmodule, hnames, -, hclass⟩, -, -⟩ := prototype_promotion {} "F" [] nodes _ fn s
    ⟨by decide, by decide, by decide⟩ rfl
    (.amend hfirst (.amend hsecond (.amend hthird (.nil _)))) (List.cons_ne_nil _ _)
  refine ⟨s', hrun, hnames, ?_, hclass⟩
  rw [hmodule]
  rfl

end Ambient.Build
