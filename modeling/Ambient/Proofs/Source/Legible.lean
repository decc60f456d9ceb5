import Ambient.Proofs.Source.Likeness

/-!
# Legible nodes

What the tree of a source has that not every tree of nodes has.  No identifier is empty, a construct
without parts has no children, and whatever names a construct is closed: it is a single word, a
string, or a construct whose parts are read as written.  So no comment can part a name.  A
declaration of variables begins with its keyword, and the body of a class is a class body.
`Node.Legible` says this of a node and of everything in it.

A reader gives nodes that are `Fresh`, which are legible and play no role yet.  Where it gives the
children of a construct they are `Placed`: those in a role that names something are closed.
-/

namespace Ambient

namespace Kind

/-- Constructs without parts. -/
def isLeaf : Kind → Bool
  | .comment | .htmlComment | .hashBangLine | .statementIdentifier | .identifier | .thisValue
  | .superValue | .number | .stringFragment | .escapeSequence | .regexPattern | .regexFlags
  | .trueValue | .falseValue | .nullValue | .undefinedValue | .shorthandPropertyIdentifier
  | .propertyIdentifier | .privatePropertyIdentifier | .optionalChain | .importValue
  | .shorthandPropertyIdentifierPattern | .jsxText | .htmlCharacterReference | .token _ => true
  | _ => false

/-- Constructs whose text is read with all that stands in it. -/
def isSealed : Kind → Bool
  | .classHeritage | .computedPropertyName => true
  | _ => false

/-- Constructs that nothing can be put into. -/
def isClosed (k : Kind) : Bool :=
  k.isLeaf || k == .string || k.isSealed

/-- Classes, whether they are declared or stand in an expression. -/
def isClass : Kind → Bool
  | .classExpression | .classDeclaration => true
  | _ => false

/-- Constructs of which nothing is asked but that their names be closed. -/
def isCompound (k : Kind) : Bool :=
  !(k.isLeaf || k == .string || k.isNamespace || k == .unaryExpression || k.declaresVariables ||
    k.isClass)

theorem isClosed_of_isLeaf {k : Kind} (h : k.isLeaf = true) : k.isClosed = true := by
  rw [isClosed, h, Bool.true_or, Bool.true_or]

theorem isHost_of_isClosed {k : Kind} (h : k.isClosed = true) : k.isHost = false := by
  cases k <;> first | rfl | cases h

theorem eq_of_isNamespace {k : Kind} (h : k.isNamespace = true) :
    k = .namespaceImport ∨ k = .namespaceExport := by
  cases k <;> first | exact .inl rfl | exact .inr rfl | cases h

theorem eq_of_declaresVariables {k : Kind} (h : k.declaresVariables = true) :
    k = .variableDeclaration ∨ k = .lexicalDeclaration := by
  cases k <;> first | exact .inl rfl | exact .inr rfl | cases h

theorem eq_of_isClass {k : Kind} (h : k.isClass = true) :
    k = .classExpression ∨ k = .classDeclaration := by
  cases k <;> first | exact .inl rfl | exact .inr rfl | cases h

theorem declaresVariables_of_isLeaf {k : Kind} (h : k.isLeaf = true) :
    k.declaresVariables = false := by
  cases k <;> first | rfl | cases h

theorem isHost_of_declaresVariables {k : Kind} (h : k.declaresVariables = true) :
    k.isHost = false := by
  cases k <;> first | rfl | cases h

theorem isLeaf_of_isWord {k : Kind} (h : k.isWord = true) : k.isLeaf = true ∨ k = .string := by
  cases k <;> first | exact .inl rfl | exact .inr rfl | cases h

end Kind

/-- The words that declare variables. -/
def declaringWords : List String :=
  ["var", "let", "const"]

/-- Roles in which a part names some construct. -/
@[simp]
def Role.isNaming : Role → Bool
  | .name | .property | .key | .renamed | .source => true
  | _ => false

theorem Kind.isNaming_of_isNamedBy {k : Kind} {r : Role} (h : k.isNamedBy r = true) :
    r.isNaming = true := by
  unfold Kind.isNamedBy at h
  split at h <;> first | rfl | cases h

namespace Node

/-- What readers rely on in the node itself. -/
structure Lucid (n : Node) : Prop where
  identifier (hk : n.kind = .identifier) : n.text ≠ ""
  leaf (hk : n.kind.isLeaf = true) : n.children = []
  string (hk : n.kind = .string) : ∀ c ∈ n.children, c.kind.isLeaf = true
  named {r : Role} (hk : n.kind.isNamedBy r = true) :
    ∀ c ∈ n.children, c.role = some r → c.kind.isClosed = true
  namespaceName (hk : n.kind.isNamespace = true) : ∀ c ∈ n.children, c.kind.isClosed = true
  number (hk : n.kind = .unaryExpression) {m : Node} (hm : n.child? .operand = some m)
    (hnumber : m.kind = .number) : ∀ c ∈ n.children, c.kind.isClosed = true
  keyword (hk : n.kind.declaresVariables = true) :
    ∃ word ∈ n.children.head?, word.kind.isLeaf = true ∧ word.text ∈ declaringWords
  classBody (hk : n.kind.isClass = true) :
    ∀ c ∈ n.children, c.role = some .body → c.kind = .classBody

/-- The node and everything in it can be relied on. -/
inductive Legible : Node → Prop where
  | mk {n : Node} (own : n.Lucid) (inner : ∀ c ∈ n.children, Legible c) : Legible n

/-- The node is legible and plays no role yet. -/
structure Fresh (n : Node) : Prop where
  legible : n.Legible
  role : n.role = none

/-- A fresh node that nothing can be put into. -/
structure Whole (n : Node) : Prop extends Fresh n where
  isClosed : n.kind.isClosed = true

/-- A fresh node without parts. -/
structure Bare (n : Node) : Prop extends Fresh n where
  isLeaf : n.kind.isLeaf = true

/-- The node is legible, and closed where its role may make it a name. -/
structure Placed (n : Node) : Prop where
  legible : n.Legible
  closed {r : Role} (hr : n.role = some r) (hnaming : r.isNaming = true) : n.kind.isClosed = true

/-- The node may stand in a class: it is placed, and the body of a class is a class body. -/
structure InClass (n : Node) : Prop extends Placed n where
  body (hr : n.role = some .body) : n.kind = .classBody

/-- Every node is legible. -/
def AllLegible (ns : List Node) : Prop :=
  ∀ n ∈ ns, n.Legible

/-- Every node is legible, and closed where its role may make it a name. -/
def AllPlaced (ns : List Node) : Prop :=
  ∀ n ∈ ns, n.Placed

/-- Every node may stand in a class. -/
def AllInClass (ns : List Node) : Prop :=
  ∀ n ∈ ns, n.InClass

/-- Every node is fresh and without parts. -/
def AllBare (ns : List Node) : Prop :=
  ∀ n ∈ ns, n.Bare

theorem Legible.own {n : Node} (h : n.Legible) : n.Lucid := by
  cases h with
  | mk own _ => exact own

theorem Legible.inner {n : Node} (h : n.Legible) : AllLegible n.children := by
  cases h with
  | mk _ inner => exact inner

/-! ### Lists -/

@[simp]
theorem allLegible_nil : AllLegible [] :=
  List.forall_mem_nil _

@[simp]
theorem allLegible_cons {n : Node} {ns : List Node} :
    AllLegible (n :: ns) ↔ n.Legible ∧ AllLegible ns :=
  List.forall_mem_cons

@[simp]
theorem allLegible_append {ns ms : List Node} :
    AllLegible (ns ++ ms) ↔ AllLegible ns ∧ AllLegible ms :=
  List.forall_mem_append

@[simp]
theorem allPlaced_nil : AllPlaced [] :=
  List.forall_mem_nil _

@[simp]
theorem allPlaced_cons {n : Node} {ns : List Node} :
    AllPlaced (n :: ns) ↔ n.Placed ∧ AllPlaced ns :=
  List.forall_mem_cons

@[simp]
theorem allPlaced_append {ns ms : List Node} :
    AllPlaced (ns ++ ms) ↔ AllPlaced ns ∧ AllPlaced ms :=
  List.forall_mem_append

@[simp]
theorem allInClass_nil : AllInClass [] :=
  List.forall_mem_nil _

@[simp]
theorem allInClass_cons {n : Node} {ns : List Node} :
    AllInClass (n :: ns) ↔ n.InClass ∧ AllInClass ns :=
  List.forall_mem_cons

@[simp]
theorem allInClass_append {ns ms : List Node} :
    AllInClass (ns ++ ms) ↔ AllInClass ns ∧ AllInClass ms :=
  List.forall_mem_append

@[simp]
theorem allBare_nil : AllBare [] :=
  List.forall_mem_nil _

@[simp]
theorem allBare_cons {n : Node} {ns : List Node} : AllBare (n :: ns) ↔ n.Bare ∧ AllBare ns :=
  List.forall_mem_cons

@[simp]
theorem allBare_append {ns ms : List Node} : AllBare (ns ++ ms) ↔ AllBare ns ∧ AllBare ms :=
  List.forall_mem_append

/-! ### Roles -/

attribute [simp] Fresh.legible Placed.legible Whole.toFresh Whole.isClosed Bare.toFresh Bare.isLeaf

@[simp]
theorem Fresh.placed {n : Node} (h : n.Fresh) : n.Placed where
  legible := h.legible
  closed hr := by rw [h.role] at hr; cases hr

@[simp]
theorem Whole.placed {n : Node} (h : n.Whole) : n.Placed :=
  h.toFresh.placed

@[simp]
theorem Bare.placed {n : Node} (h : n.Bare) : n.Placed :=
  h.toFresh.placed

theorem Fresh.inClass {n : Node} (h : n.Fresh) : n.InClass where
  toPlaced := h.placed
  body hr := by rw [h.role] at hr; cases hr

@[simp]
theorem AllPlaced.legible {ns : List Node} (h : AllPlaced ns) : AllLegible ns :=
  fun n hn => (h n hn).legible

@[simp]
theorem AllBare.placed {ns : List Node} (h : AllBare ns) : AllPlaced ns :=
  fun n hn => (h n hn).placed

@[simp]
theorem AllBare.legible {ns : List Node} (h : AllBare ns) : AllLegible ns :=
  h.placed.legible

@[simp]
theorem AllBare.inClass {ns : List Node} (h : AllBare ns) : AllInClass ns :=
  fun n hn => (h n hn).inClass

theorem Bare.whole {n : Node} (h : n.Bare) : n.Whole :=
  ⟨h.toFresh, Kind.isClosed_of_isLeaf h.isLeaf⟩

/-- The role of a node does not matter. -/
theorem legible_withRole {n : Node} {r : Option Role} :
    Legible { n with role := r } ↔ n.Legible := by
  refine ⟨fun ⟨own, inner⟩ => ⟨?_, inner⟩, fun ⟨own, inner⟩ => ⟨?_, inner⟩⟩
  all_goals
    exact ⟨own.identifier, own.leaf, own.string, own.named, own.namespaceName, own.number,
      own.keyword, own.classBody⟩

@[simp]
theorem legible_as {n : Node} {r : Role} : (n.as r).Legible ↔ n.Legible :=
  legible_withRole

@[simp]
theorem placed_as {n : Node} {r : Role} :
    (n.as r).Placed ↔ n.Legible ∧ (r.isNaming = true → n.kind.isClosed = true) := by
  refine ⟨fun h => ⟨legible_as.1 h.legible, fun hr => h.closed rfl hr⟩, fun h => ?_⟩
  refine ⟨legible_as.2 h.1, fun hr hnaming => ?_⟩
  cases hr
  exact h.2 hnaming

theorem inClass_as_name {n : Node} (h : n.Whole) : (n.as .name).InClass :=
  ⟨placed_as.2 ⟨h.legible, fun _ => h.isClosed⟩, by nofun⟩

theorem inClass_as_body {n : Node} (h : n.Fresh) (hk : n.kind = .classBody) :
    (n.as .body).InClass :=
  ⟨placed_as.2 ⟨h.legible, by nofun⟩, fun _ => hk⟩

/-! ### Constructs -/

/-- Of a compound construct only the names are asked about. -/
theorem legible_of_named {n : Node} (hk : n.kind.isCompound = true) (h : AllLegible n.children)
    (hnamed : ∀ {r : Role}, n.kind.isNamedBy r = true →
      ∀ c ∈ n.children, c.role = some r → c.kind.isClosed = true) : n.Legible := by
  simp only [Kind.isCompound, Bool.not_eq_true', Bool.or_eq_false_iff] at hk
  obtain ⟨⟨⟨⟨⟨hleaf, hstring⟩, hnamespace⟩, hunary⟩, hvariables⟩, hclass⟩ := hk
  refine ⟨⟨fun hkind => ?_, fun hkind => ?_, fun hkind => ?_, hnamed, fun hkind => ?_,
    fun hkind => ?_, fun hkind => ?_, fun hkind => ?_⟩, h⟩
  · rw [hkind] at hleaf
    cases hleaf
  · rw [hkind] at hleaf
    cases hleaf
  · exact absurd hkind (ne_of_beq_false hstring)
  · rw [hkind] at hnamespace
    cases hnamespace
  · exact absurd hkind (ne_of_beq_false hunary)
  · rw [hkind] at hvariables
    cases hvariables
  · rw [hkind] at hclass
    cases hclass

theorem legible_of_placed {n : Node} (hk : n.kind.isCompound = true) (h : AllPlaced n.children) :
    n.Legible :=
  legible_of_named hk h.legible fun hr c hc hrole =>
    (h c hc).closed hrole (Kind.isNaming_of_isNamedBy hr)

/-- A construct that no part names. -/
theorem legible_of_unnamed {n : Node} (hk : n.kind.isCompound = true)
    (hnamed : ∀ r, n.kind.isNamedBy r = false) (h : AllLegible n.children) : n.Legible := by
  refine legible_of_named hk h fun {r} hr => ?_
  rw [hnamed r] at hr
  cases hr

/-- Nothing is asked of what has no parts, except that identifiers have a text and declarations of
variables a keyword. -/
theorem legible_of_children_eq_nil {n : Node} (h : n.children = [])
    (hk : n.kind.declaresVariables = false) (htext : n.kind = .identifier → n.text ≠ "") :
    n.Legible := by
  have hnone {P : Node → Prop} : ∀ c ∈ n.children, P c := by
    rw [h]
    exact List.forall_mem_nil P
  refine ⟨⟨htext, fun _ => h, fun _ => hnone, fun _ => hnone, fun _ => hnone, fun _ _ _ _ => hnone,
    fun hkind => ?_, fun _ => hnone⟩, hnone⟩
  rw [hk] at hkind
  cases hkind

theorem legible_string {n : Node} (hk : n.kind = .string) (h : AllBare n.children) : n.Legible := by
  refine ⟨⟨fun hkind => ?_, fun hkind => ?_, fun _ c hc => (h c hc).isLeaf, fun hkind => ?_,
    fun hkind => ?_, fun hkind => ?_, fun hkind => ?_, fun hkind => ?_⟩, h.legible⟩
  all_goals
    rw [hk] at hkind
    cases hkind

/-- A declaration of variables: its keyword stands first. -/
theorem legible_declaration {n word : Node} {names : List Node}
    (hk : n.kind.declaresVariables = true) (hchildren : n.children = word :: names)
    (hword : word.Bare) (htext : word.text ∈ declaringWords) (hnames : AllLegible names) :
    n.Legible := by
  have hinner : AllLegible n.children := by simp [hchildren, hword, hnames]
  have hkeyword : ∃ w ∈ n.children.head?, w.kind.isLeaf = true ∧ w.text ∈ declaringWords :=
    ⟨word, by rw [hchildren]; rfl, hword.isLeaf, htext⟩
  refine ⟨⟨fun hkind => ?_, fun hkind => ?_, fun hkind => ?_, fun hkind => ?_, fun hkind => ?_,
    fun hkind => ?_, fun _ => hkeyword, fun hkind => ?_⟩, hinner⟩
  all_goals
    rcases Kind.eq_of_declaresVariables hk with hk | hk <;> rw [hk] at hkind <;> cases hkind

/-- A class: its name is closed, and its body is a class body. -/
theorem legible_class {n : Node} (hk : n.kind.isClass = true) (h : AllInClass n.children) :
    n.Legible := by
  have hinner : AllLegible n.children := fun c hc => (h c hc).legible
  have hnamed {r : Role} (hr : n.kind.isNamedBy r = true) (c : Node) (hc : c ∈ n.children)
      (hrole : c.role = some r) : c.kind.isClosed = true :=
    (h c hc).closed hrole (Kind.isNaming_of_isNamedBy hr)
  refine ⟨⟨fun hkind => ?_, fun hkind => ?_, fun hkind => ?_, hnamed, fun hkind => ?_,
    fun hkind => ?_, fun hkind => ?_, fun _ c hc => (h c hc).body⟩, hinner⟩
  all_goals
    rcases Kind.eq_of_isClass hk with hk | hk <;> rw [hk] at hkind <;> cases hkind

/-- A construct that binds the names of a module: its name stands last, behind bare nodes. -/
theorem legible_namespace {n name : Node} {before : List Node} (hk : n.kind.isNamespace = true)
    (hchildren : n.children = before ++ [name]) (hbefore : AllBare before) (hname : name.Whole) :
    n.Legible := by
  have hclosed : ∀ c ∈ n.children, c.kind.isClosed = true := by
    rw [hchildren]
    exact List.forall_mem_append.2
      ⟨fun c hc => (hbefore c hc).whole.isClosed, List.forall_mem_singleton.2 hname.isClosed⟩
  have hinner : AllLegible n.children := by simp [hchildren, hbefore, hname]
  refine ⟨⟨fun hkind => ?_, fun hkind => ?_, fun hkind => ?_, fun _ c hc _ => hclosed c hc,
    fun _ => hclosed, fun hkind => ?_, fun hkind => ?_, fun hkind => ?_⟩, hinner⟩
  all_goals
    rcases Kind.eq_of_isNamespace hk with hk | hk <;> rw [hk] at hkind <;> cases hkind

/-- An operand with a sign before it: the operand is the only part that may have parts. -/
theorem legible_signed {n sign value : Node} {comments : List Node}
    (hk : n.kind = .unaryExpression)
    (hchildren : n.children = sign.as .operator :: (comments ++ [value.as .operand]))
    (hsign : sign.Bare) (hcomments : AllBare comments) (hvalue : value.Legible) : n.Legible := by
  have hinner : AllLegible n.children := by simp [hchildren, hsign, hcomments, hvalue]
  refine ⟨⟨fun hkind => ?_, fun hkind => ?_, fun hkind => ?_, fun hkind => ?_, fun hkind => ?_,
    fun _ m hm hnumber => ?number, fun hkind => ?_, fun hkind => ?_⟩, hinner⟩
  case number =>
    have hnone : comments.find? (·.role == some .operand) = none := by
      refine List.find?_eq_none.2 fun c hc => ?_
      rw [(hcomments c hc).role]
      decide
    have hoperand : n.child? .operand = some (value.as .operand) := by
      rw [child?, hchildren, List.find?_cons_of_neg (by simp [as]), List.find?_append, hnone]
      rfl
    rw [hm, Option.some.injEq] at hoperand
    rw [hoperand] at hnumber
    rw [hchildren]
    refine List.forall_mem_cons.2 ⟨hsign.whole.isClosed, List.forall_mem_append.2
      ⟨fun c hc => (hcomments c hc).whole.isClosed, List.forall_mem_singleton.2 ?_⟩⟩
    exact Kind.isClosed_of_isLeaf (by rw [hnumber]; rfl)
  all_goals
    rw [hk] at hkind
    cases hkind

/-- A node without parts as another construct. -/
theorem Bare.recast {n : Node} (h : n.Bare) {k : Kind} (hleaf : k.isLeaf = true)
    (hk : k ≠ .identifier) : (n.recast k).Fresh :=
  ⟨legible_of_children_eq_nil (h.legible.own.leaf h.isLeaf)
    (Kind.declaresVariables_of_isLeaf hleaf) fun hkind => absurd hkind hk, h.role⟩

/-! ### Words -/

theorem Lucid.keywordOf_mem {n : Node} (h : n.Lucid) (hk : n.kind.declaresVariables = true) :
    Build.keywordOf n ∈ declaringWords := by
  obtain ⟨word, hword, -, htext⟩ := h.keyword hk
  rw [Build.keywordOf, Option.mem_def.1 hword]
  exact htext

/-- Every identifier in the node has a text, and every declaration of variables a keyword. -/
inductive Spelt : Node → Prop where
  | mk {n : Node} (own : n.kind = .identifier → n.text ≠ "")
      (keyword : n.kind.declaresVariables = true → Build.keywordOf n ∈ declaringWords)
      (inner : ∀ c ∈ n.children, Spelt c) : Spelt n

/-- Every identifier in the nodes has a text, and every declaration of variables a keyword. -/
def AllSpelt (ns : List Node) : Prop :=
  ∀ n ∈ ns, n.Spelt

theorem Spelt.own {n : Node} (h : n.Spelt) (hk : n.kind = .identifier) : n.text ≠ "" := by
  cases h with
  | mk own _ _ => exact own hk

theorem Spelt.keyword {n : Node} (h : n.Spelt) (hk : n.kind.declaresVariables = true) :
    Build.keywordOf n ∈ declaringWords := by
  cases h with
  | mk _ keyword _ => exact keyword hk

theorem Spelt.inner {n : Node} (h : n.Spelt) : AllSpelt n.children := by
  cases h with
  | mk _ _ inner => exact inner

theorem Spelt.child? {n c : Node} {r : Role} (h : n.Spelt) (hc : n.child? r = some c) : c.Spelt :=
  h.inner c (mem_children_of_child? hc)

theorem Spelt.codeChildren {n : Node} (h : n.Spelt) : AllSpelt n.codeChildren :=
  fun c hc => h.inner c (mem_children_of_codeChildren hc)

theorem allSpelt_cons {n : Node} {ns : List Node} : AllSpelt (n :: ns) ↔ n.Spelt ∧ AllSpelt ns :=
  List.forall_mem_cons

theorem Legible.spelt {n : Node} (h : n.Legible) : n.Spelt := by
  induction h with
  | mk own _ ih => exact ⟨own.identifier, own.keywordOf_mem, ih⟩

end Node

end Ambient
