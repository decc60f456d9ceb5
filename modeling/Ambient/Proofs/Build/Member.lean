import Ambient.Build.Value
import Ambient.Proofs.Build.Act
import Ambient.Proofs.Table

/-!
# Members of objects and classes

An object and the body of a class are read node by node, on top of what the nodes before gave.  Each
node gives one thing at most, whatever was given before: a constructor, a member, or a member that
gives way to another of its name.  So the reading of a body comes apart: the gifts of its nodes, one
by one, and the table that they add up to.
-/

namespace Ambient

/-- A method that stands for what it returns. -/
def Node.isGetter (n : Node) : Bool :=
  n.kind == .methodDefinition && (Build.modifierWords n).contains "get"

/-- A method that stands for what it takes. -/
def Node.isSetter (n : Node) : Bool :=
  n.kind == .methodDefinition && !(Build.modifierWords n).contains "get" &&
    (Build.modifierWords n).contains "set"

namespace Build

/-- What holds members: an object, or the body of a class. -/
inductive Body where
  | object
  | classBody

/-- What one node gives to the object or the class that it stands in. -/
inductive Gift where
  | nothing
  | ctor (fn : Callable)
  | member (name : String) (d : Decl)
  /-- A member that gives way to one of the same name. -/
  | setter (name : String) (d : Decl)

namespace Gift

/-- The name of the member. -/
def name? : Gift → Option String
  | .member name _ => some name
  | .setter name _ => some name
  | _ => none

/-- The constructor. -/
def ctor? : Gift → Option Callable
  | .ctor fn => some fn
  | _ => none

/-- The gift gives way to others. -/
def isSetter : Gift → Bool
  | .setter .. => true
  | _ => false

/-- What is given under a name by other than a setter. -/
def memberOf? (name : String) : Gift → Option Decl
  | .member own d => if own = name then some d else none
  | _ => none

/-- What is given under a name by a setter. -/
def setterOf? (name : String) : Gift → Option Decl
  | .setter own d => if own = name then some d else none
  | _ => none

/-- The members with a gift added. -/
def into (members : Table Decl) : Gift → Table Decl
  | .member name d => members.set name d
  | .setter name d => if members.has name then members else members.set name d
  | _ => members

end Gift

/-- What was read before, with a gift added. -/
def ClassParts.add (parts : ClassParts) (g : Gift) : ClassParts where
  ctor := g.ctor?.or parts.ctor
  members := g.into parts.members

/-- What was read of one node alone, as a gift. -/
def ClassParts.gift (own : ClassParts) (setter : Bool) : Gift :=
  match own.ctor, own.members with
  | some fn, _ => .ctor fn
  | none, (name, d) :: _ => if setter then .setter name d else .member name d
  | none, [] => .nothing

namespace Body

/-- Reads the nodes behind the given siblings on top of what was read before. -/
def read (b : Body) (ctx : Context) (before nodes : List Node) (parts : ClassParts) :
    Build ClassParts :=
  match b with
  | .object => do
    let members ← objectMembers ctx before nodes parts.members
    return { parts with members }
  | .classBody => classMembers ctx before nodes parts

/-- The node is the constructor of the class. -/
def isConstructor (b : Body) (n : Node) : Bool :=
  match b with
  | .object => false
  | .classBody =>
    n.kind == .methodDefinition && (n.child? .name).any (·.text == "constructor")

/-- The name of the member that a node defines; none when it is skipped. -/
def definedName? (b : Body) (n : Node) : Option String :=
  match n.kind with
  | .pair =>
    (n.child? .key).bind fun key =>
      if key.kind == .computedPropertyName then none else some (nameText key)
  | .shorthandPropertyIdentifier => some n.text
  | .methodDefinition =>
    if b.isConstructor n then none
    else
      (n.child? .name).bind fun name =>
        if name.kind == .privatePropertyIdentifier || name.kind == .computedPropertyName then none
        else some (nameText name)
  | .fieldDefinition =>
    (n.child? .property).bind fun property =>
      if property.kind == .privatePropertyIdentifier then none else some property.text
  | _ => none

/-- The gift is what the node says it is. -/
structure Describes (b : Body) (n : Node) (g : Gift) : Prop where
  name : g.name? = b.definedName? n
  ctor : g.ctor?.isSome = b.isConstructor n
  setter : g.isSetter = (n.isSetter && (b.definedName? n).isSome)

/-- What a node behind the given siblings gives, read alone. -/
def gift (b : Body) (ctx : Context) (before : List Node) (n : Node) : Build Gift := do
  let own ← b.read ctx before [n] {}
  return own.gift n.isSetter

/-- What the nodes behind the given siblings give, one by one. -/
def gifts (b : Body) (ctx : Context) : List Node → List Node → Build (List Gift)
  | _, [] => return []
  | before, n :: rest => do
    let g ← b.gift ctx before n
    let gs ← b.gifts ctx (n :: before) rest
    return g :: gs

end Body

/-! ### One node -/

variable {b : Body} {ctx : Context} {before : List Node} {n : Node}

theorem isSetter_of_kind_ne (h : n.kind ≠ .methodDefinition) : n.isSetter = false := by
  simp [Node.isSetter, h]

theorem isConstructor_of_kind_ne (h : n.kind ≠ .methodDefinition) : b.isConstructor n = false := by
  cases b with
  | object => rfl
  | classBody => simp [Body.isConstructor, h]

theorem describes_nothing (hname : b.definedName? n = none) (hctor : b.isConstructor n = false) :
    b.Describes n .nothing :=
  ⟨hname.symm, hctor.symm, by rw [hname]; exact (Bool.and_false _).symm⟩

/-- A definition other than a method gives a member. -/
theorem describes_member {name : String} (h : n.kind ≠ .methodDefinition)
    (hname : b.definedName? n = some name) (d : Decl) : b.Describes n (.member name d) :=
  ⟨hname.symm, (isConstructor_of_kind_ne h).symm, by rw [isSetter_of_kind_ne h]; rfl⟩

theorem definedName?_of_not_code (h : ¬ (n.isNamed && !n.isComment) = true) :
    b.definedName? n = none := by
  unfold Body.definedName?
  split
  all_goals first
    | rfl
    | rename_i hk
      rw [Node.isNamed, Node.isComment, hk] at h
      exact (h rfl).elim

theorem isConstructor_of_not_code (h : ¬ (n.isNamed && !n.isComment) = true) :
    b.isConstructor n = false := by
  refine isConstructor_of_kind_ne fun hk => h ?_
  rw [Node.isNamed, Node.isComment, hk]
  rfl

/-- What a method gives that is not skipped. -/
def methodGift (n : Node) (name : String) (fn : Callable) : Gift :=
  if (modifierWords n).contains "get" then .member name (.binding fn.header fn.result "var")
  else if (modifierWords n).contains "set" then
    .setter name (.binding fn.header ((fn.params.head?.map (·.types)).getD [TypeRef.any]) "var")
  else .member name (.function { fn with isStatic := (modifierWords n).contains "static" })

theorem describes_methodGift (hk : n.kind = .methodDefinition) (hctor : b.isConstructor n = false)
    {name : String} (hname : b.definedName? n = some name) (fn : Callable) :
    b.Describes n (methodGift n name fn) := by
  have hsetter : n.isSetter =
      (!(modifierWords n).contains "get" && (modifierWords n).contains "set") := by
    rw [Node.isSetter, hk]
    rfl
  unfold methodGift
  split
  · rename_i hget
    exact ⟨hname.symm, hctor.symm, by rw [hsetter, hget]; rfl⟩
  · rename_i hget
    split
    · rename_i hset
      exact ⟨hname.symm, hctor.symm, by rw [hsetter, hset, hname, eq_false_of_ne_true hget]; rfl⟩
    · rename_i hset
      refine ⟨hname.symm, hctor.symm, ?_⟩
      rw [hsetter, eq_false_of_ne_true hset, Bool.and_false]
      rfl

/-- Both steps add one gift of the node: the first to nothing, the second to the parts. -/
def AddsAlike (b : Body) (n : Node) (parts : ClassParts) (alone onTop : Build ClassParts) : Prop :=
  ∃ y : Build Gift, Gives (b.Describes n) y ∧
    alone = (y >>= fun g => pure (({} : ClassParts).add g)) ∧
    onTop = (y >>= fun g => pure (parts.add g))

namespace AddsAlike

variable {parts : ClassParts}

theorem unhandled (ctx : Context) : AddsAlike b n parts (unhandled ctx n) (unhandled ctx n) :=
  ⟨Build.unhandled ctx n, .unhandled ctx n, rfl, rfl⟩

theorem skip (hname : b.definedName? n = none) (hctor : b.isConstructor n = false)
    (x : Build Unit) :
    AddsAlike b n parts (x >>= fun _ => pure {}) (x >>= fun _ => pure parts) := by
  refine ⟨x >>= fun _ => pure .nothing, .bind fun _ => .pure (describes_nothing hname hctor), ?_, ?_⟩
  all_goals
    rw [bind_assoc]
    rfl

theorem define {name : String} (h : n.kind ≠ .methodDefinition)
    (hname : b.definedName? n = some name) (x : Build Decl) :
    AddsAlike b n parts
      (x >>= fun d => pure { ctor := none, members := Table.set [] name d })
      (x >>= fun d => pure { ctor := parts.ctor, members := parts.members.set name d }) := by
  refine ⟨x >>= fun d => pure (.member name d),
    .bind fun d => .pure (describes_member h hname d), ?_, ?_⟩
  all_goals
    rw [bind_assoc]
    rfl

/-- A method other than the constructor. -/
theorem addMethod (hk : n.kind = .methodDefinition) (hctor : b.isConstructor n = false)
    (ctx : Context) :
    AddsAlike b n parts
      (addMethod ctx [] n >>= fun members => pure { ctor := none, members })
      (addMethod ctx parts.members n >>= fun members => pure { ctor := parts.ctor, members }) := by
  have hdefined : b.definedName? n = (n.child? .name).bind fun name =>
      if name.kind == .privatePropertyIdentifier || name.kind == .computedPropertyName then none
      else some (nameText name) := by
    simp only [Body.definedName?, hk, hctor, Bool.false_eq_true, if_false]
  rw [Build.addMethod, Build.addMethod]
  cases hname : n.child? .name with
  | none => exact unhandled ctx
  | some name =>
      rw [hname, Option.bind_some] at hdefined
      dsimp only
      split
      · rename_i hskip
        rw [if_pos hskip] at hdefined
        exact skip hdefined hctor (pure ())
      · rename_i hskip
        rw [if_neg hskip] at hdefined
        refine ⟨documentation ctx >>= fun doc => callableOf ctx doc n >>= fun fn =>
          pure (methodGift n (nameText name) fn), .bind fun doc => .bind fun fn =>
            .pure (describes_methodGift hk hctor hdefined fn), ?_, ?_⟩
        all_goals
          simp only [bind_assoc, pure_bind]
          congr 1
          funext doc
          congr 1
          funext fn
          unfold methodGift
          split
          · rfl
          · split
            · rw [ClassParts.add, Gift.into]
              split
              · rfl
              · rfl
            · rfl

/-- The constructor of a class. -/
theorem constructor (hk : n.kind = .methodDefinition) (hctor : b.isConstructor n = true)
    (ctx : Context) :
    AddsAlike b n parts
      (documentation ctx >>= fun doc => callableOf ctx doc n >>= fun fn =>
        pure { ctor := some fn, members := [] })
      (documentation ctx >>= fun doc => callableOf ctx doc n >>= fun fn =>
        pure { ctor := some fn, members := parts.members }) := by
  have hdefined : b.definedName? n = none := by
    simp only [Body.definedName?, hk, hctor, if_true]
  have hgift (fn : Callable) : b.Describes n (.ctor fn) :=
    ⟨hdefined.symm, hctor.symm, by rw [hdefined]; exact (Bool.and_false _).symm⟩
  refine ⟨documentation ctx >>= fun doc => callableOf ctx doc n >>= fun fn => pure (.ctor fn),
    .bind fun doc => .bind fun fn => .pure (hgift fn), ?_, ?_⟩
  all_goals
    simp only [bind_assoc, pure_bind]
    rfl

end AddsAlike

theorem addsAlike_object (ctx : Context) (before : List Node) (n : Node) (parts : ClassParts) :
    AddsAlike .object n parts (Body.object.read ctx before [n] {})
      (Body.object.read ctx before [n] parts) := by
  rw [Body.read, Body.read]
  dsimp only
  rw [objectMembers, objectMembers]
  simp only [objectMembers_nil]
  -- Both steps branch on the node alone, so that one split takes them apart together.
  split
  · split
    · rename_i hk
      have hne : n.kind ≠ .methodDefinition := hk.trans_ne (by decide)
      have hdefined : Body.object.definedName? n = (n.child? .key).bind fun key =>
          if key.kind == .computedPropertyName then none else some (nameText key) := by
        simp only [Body.definedName?, hk]
      split
      · rename_i key v hkey _
        rw [hkey, Option.bind_some] at hdefined
        split
        · rename_i hskip
          rw [if_pos hskip] at hdefined
          exact .skip hdefined rfl (notify [.computedSkipped key.line])
        · rename_i hskip
          rw [if_neg hskip] at hdefined
          simp only [bind_assoc, pure_bind]
          exact .define hne hdefined _
      · exact .unhandled _
    · rename_i hk
      simp only [bind_assoc, pure_bind]
      exact .define (hk.trans_ne (by decide)) (by simp only [Body.definedName?, hk]) _
    · rename_i hk
      simp only [bind_pure]
      exact .addMethod (b := .object) hk rfl _
    · rename_i hk
      exact .skip (by simp only [Body.definedName?, hk]) rfl (notify [.spreadSkipped n.line])
    · exact .unhandled _
  · rename_i hcode
    exact .skip (definedName?_of_not_code hcode) rfl (pure ())

theorem addsAlike_classBody (ctx : Context) (before : List Node) (n : Node) (parts : ClassParts) :
    AddsAlike .classBody n parts (Body.classBody.read ctx before [n] {})
      (Body.classBody.read ctx before [n] parts) := by
  rw [Body.read, Body.read, classMembers, classMembers]
  simp only [classMembers_nil]
  split
  · split
    · rename_i hk
      have hname : Body.classBody.isConstructor n =
          (n.child? .name).any (·.text == "constructor") := by
        rw [Body.isConstructor, hk]
        rfl
      rw [addClassMethod, addClassMethod]
      split
      · rename_i hctor
        simp only [bind_assoc, pure_bind]
        exact .constructor hk (hname.trans hctor) _
      · rename_i hctor
        simp only [bind_assoc, pure_bind]
        exact .addMethod hk (hname.trans (eq_false_of_ne_true hctor)) _
    · rename_i hk
      have hne : n.kind ≠ .methodDefinition := hk.trans_ne (by decide)
      have hdefined : Body.classBody.definedName? n = (n.child? .property).bind fun property =>
          if property.kind == .privatePropertyIdentifier then none else some property.text := by
        simp only [Body.definedName?, hk]
      split
      · rename_i property v hproperty
        rw [hproperty, Option.bind_some] at hdefined
        split
        · rename_i hskip
          rw [if_pos hskip] at hdefined
          exact .skip hdefined (isConstructor_of_kind_ne hne) (pure ())
        · rename_i hskip
          rw [if_neg hskip] at hdefined
          simp only [pure_bind]
          split
          · exact .define hne hdefined _
          · exact .define hne hdefined _
      · exact .unhandled _
    · rename_i hk
      have hne : n.kind ≠ .methodDefinition := hk.trans_ne (by decide)
      exact .skip (by simp only [Body.definedName?, hk]) (isConstructor_of_kind_ne hne) (pure ())
    · exact .unhandled _
  · rename_i hcode
    exact .skip (definedName?_of_not_code hcode) (isConstructor_of_not_code hcode) (pure ())

/-- A node gives the same, read alone and on top of what was read before. -/
theorem addsAlike (b : Body) (ctx : Context) (before : List Node) (n : Node) (parts : ClassParts) :
    AddsAlike b n parts (b.read ctx before [n] {}) (b.read ctx before [n] parts) := by
  cases b with
  | object => exact addsAlike_object ctx before n parts
  | classBody => exact addsAlike_classBody ctx before n parts

/-- A gift is found again where it was added to nothing. -/
theorem gift_add {g : Gift} (h : b.Describes n g) :
    (({} : ClassParts).add g).gift n.isSetter = g := by
  have hsetter := h.setter
  rw [← h.name] at hsetter
  cases g with
  | nothing => rfl
  | ctor fn => rfl
  | member name d =>
      have hn : n.isSetter = false := by simpa [Gift.isSetter, Gift.name?] using hsetter.symm
      rw [hn]
      rfl
  | setter name d =>
      have hn : n.isSetter = true := by simpa [Gift.isSetter, Gift.name?] using hsetter.symm
      rw [hn]
      rfl

theorem gift_eq {y : Build Gift} (hy : Gives (b.Describes n) y)
    (h : b.read ctx before [n] {} = (y >>= fun g => pure (({} : ClassParts).add g))) :
    b.gift ctx before n = y := by
  have hgift : (y >>= fun g => pure ((({} : ClassParts).add g).gift n.isSetter)) = (y >>= pure) :=
    hy.bind_congr fun g hg => congrArg pure (gift_add hg)
  rw [Body.gift, h, bind_assoc]
  simp only [pure_bind]
  rw [hgift, bind_pure]

theorem gives_gift (b : Body) (ctx : Context) (before : List Node) (n : Node) :
    Gives (b.Describes n) (b.gift ctx before n) := by
  obtain ⟨y, hy, halone, -⟩ := addsAlike b ctx before n {}
  rw [gift_eq hy halone]
  exact hy

theorem read_singleton (b : Body) (ctx : Context) (before : List Node) (n : Node)
    (parts : ClassParts) :
    b.read ctx before [n] parts = b.gift ctx before n >>= fun g => pure (parts.add g) := by
  obtain ⟨y, hy, halone, hread⟩ := addsAlike b ctx before n parts
  rw [hread, gift_eq hy halone]

/-! ### All nodes -/

theorem objectMembers_cons (ctx : Context) (before : List Node) (n : Node) (rest : List Node)
    (members : Table Decl) :
    objectMembers ctx before (n :: rest) members =
      objectMembers ctx before [n] members >>= objectMembers ctx (n :: before) rest := by
  conv_lhs => rw [objectMembers]
  conv_rhs => rw [objectMembers]
  simp only [objectMembers_nil, bind_pure]
  split
  · split
    · split
      · split
        · simp only [bind_assoc]
        · simp only [bind_assoc]
      · rfl
    · simp only [bind_assoc]
    · rfl
    · simp only [bind_assoc]
    · rfl
  · rfl

theorem classMembers_cons (ctx : Context) (before : List Node) (n : Node) (rest : List Node)
    (parts : ClassParts) :
    classMembers ctx before (n :: rest) parts =
      classMembers ctx before [n] parts >>= classMembers ctx (n :: before) rest := by
  conv_lhs => rw [classMembers]
  conv_rhs => rw [classMembers]
  simp only [classMembers_nil, bind_pure]
  split
  · split
    · rfl
    · split
      · split
        · rfl
        · split
          · simp only [bind_assoc]
          · simp only [bind_assoc]
      · rfl
    · rfl
    · rfl
  · rfl

theorem read_cons (b : Body) (ctx : Context) (before : List Node) (n : Node) (rest : List Node)
    (parts : ClassParts) :
    b.read ctx before (n :: rest) parts =
      b.read ctx before [n] parts >>= b.read ctx (n :: before) rest := by
  cases b with
  | object =>
      simp only [Body.read]
      rw [objectMembers_cons]
      simp only [bind_assoc, pure_bind]
      rfl
  | classBody => exact classMembers_cons ctx before n rest parts

/-- The reading of a body comes apart into the gifts of its nodes and what they add up to. -/
theorem read_eq_gifts (b : Body) (ctx : Context) (before nodes : List Node) (parts : ClassParts) :
    b.read ctx before nodes parts =
      b.gifts ctx before nodes >>= fun gs => pure (gs.foldl ClassParts.add parts) := by
  induction nodes generalizing before parts with
  | nil =>
      cases b with
      | object =>
          rw [Body.read, objectMembers_nil]
          rfl
      | classBody =>
          rw [Body.read, classMembers_nil]
          rfl
  | cons n rest ih =>
      rw [read_cons, read_singleton, Body.gifts]
      simp only [bind_assoc, pure_bind, ih, List.foldl_cons]

theorem gives_gifts (b : Body) (ctx : Context) (before nodes : List Node) :
    Gives (List.Forall₂ b.Describes nodes) (b.gifts ctx before nodes) := by
  induction nodes generalizing before with
  | nil => exact .pure .nil
  | cons n rest ih =>
      exact .bind_of (gives_gift b ctx before n) fun g hg =>
        .bind_of (ih (n :: before)) fun gs hgs => .pure (.cons hg hgs)

/-! ### What gifts add up to -/

theorem names_into (members : Table Decl) (g : Gift) :
    (g.into members).names =
      match g.name? with
      | some name => if name ∈ members.names then members.names else members.names ++ [name]
      | none => members.names := by
  cases g with
  | nothing => rfl
  | ctor fn => rfl
  | member name d => exact members.names_set name d
  | setter name d =>
      rw [Gift.into]
      split
      · rename_i h
        exact (if_pos (Table.has_iff.1 h)).symm
      · exact members.names_set name d

/-- The names of the members, each where it is given first. -/
theorem names_foldl_into (gs : List Gift) :
    (gs.foldl Gift.into []).names = (gs.filterMap Gift.name?).eraseDups := by
  induction gs using List.reverseRecOn with
  | nil => rfl
  | append_singleton gs g ih =>
      rw [List.foldl_append, List.foldl_cons, List.foldl_nil, names_into, ih, List.filterMap_append]
      cases hname : g.name? with
      | none => simp [hname]
      | some name =>
          have hone : [g].filterMap Gift.name? = [name] := by simp [hname]
          rw [hone, Table.eraseDups_append_singleton]
          simp only [List.mem_eraseDups]

theorem get?_into (members : Table Decl) (g : Gift) (name : String) :
    (g.into members).get? name =
      (g.memberOf? name).or ((members.get? name).or (g.setterOf? name)) := by
  cases g with
  | nothing => exact (Option.or_none ..).symm
  | ctor fn => exact (Option.or_none ..).symm
  | member own d =>
      have hsetter : Gift.setterOf? name (.member own d) = none := rfl
      rw [Gift.into, Gift.memberOf?, hsetter, Option.or_none]
      split
      · rename_i hown
        rw [hown, Table.get?_set_self]
        rfl
      · rename_i hown
        exact members.get?_set_of_ne d (Ne.symm hown)
  | setter own d =>
      have hmember : Gift.memberOf? name (.setter own d) = none := rfl
      rw [Gift.into, Gift.setterOf?, hmember, Option.none_or]
      -- A setter counts exactly where nothing stands under its name yet.
      by_cases hown : own = name
      · rw [hown, if_pos rfl]
        cases hget : members.get? name with
        | none =>
            have hhas : ¬ members.has name = true := by
              intro hhas
              obtain ⟨e, he⟩ := Table.exists_get?_of_mem_names (Table.has_iff.1 hhas)
              rw [hget] at he
              cases he
            rw [if_neg hhas, Table.get?_set_self]
            rfl
        | some e =>
            rw [if_pos (Table.has_iff.2 (Table.mem_names_of_get? hget)), hget]
            rfl
      · rw [if_neg hown, Option.or_none]
        split
        · rfl
        · exact members.get?_set_of_ne d (Ne.symm hown)

/-- What is given last under a name counts, setters aside; among setters alone, the first. -/
theorem get?_foldl_into (gs : List Gift) (name : String) :
    (gs.foldl Gift.into []).get? name =
      (gs.filterMap (Gift.memberOf? name)).getLast?.or
        (gs.filterMap (Gift.setterOf? name)).head? := by
  induction gs using List.reverseRecOn with
  | nil => rfl
  | append_singleton gs g ih =>
      have hlast : ([g].filterMap (Gift.memberOf? name)).getLast? = g.memberOf? name := by
        cases hg : g.memberOf? name <;> simp [hg]
      have hhead : ([g].filterMap (Gift.setterOf? name)).head? = g.setterOf? name := by
        cases hg : g.setterOf? name <;> simp [hg]
      rw [List.foldl_append, List.foldl_cons, List.foldl_nil, get?_into, ih, List.filterMap_append,
        List.filterMap_append, List.getLast?_append, List.head?_append, hlast, hhead,
        Option.or_assoc, Option.or_assoc]

theorem foldl_add (gs : List Gift) (parts : ClassParts) :
    gs.foldl ClassParts.add parts =
      { ctor := (gs.filterMap Gift.ctor?).getLast?.or parts.ctor
        members := gs.foldl Gift.into parts.members } := by
  induction gs generalizing parts with
  | nil => rfl
  | cons g gs ih =>
      rw [List.foldl_cons, ih, ClassParts.add, List.filterMap_cons]
      cases hctor : g.ctor? with
      | none => rfl
      | some fn => simp [List.getLast?_cons]

end Build

end Ambient
