import Ambient.Proofs.Build.Accessor
import Ambient.Proofs.Source.Statement

/-!
# Sites

A site is a node where it stands: with what it stands in, innermost first, and with the siblings
around it at each step.  From a site one climbs to its anchor, the statement or the member that the
node belongs to, and looks back from there, sibling by sibling, for the comment that documents it.

Looking ahead from that comment leads to the anchor again, so nothing with another anchor has the
same comment.
-/

namespace Ambient

/-- Constructs whose children are documented on their own. -/
def Kind.isScope : Kind → Bool
  | .program | .classBody | .object => true
  | _ => false

namespace Node

/-- A construct other than a comment. -/
def isCode (n : Node) : Bool :=
  n.isNamed && !n.isComment

/-- A block comment that is not detached. -/
def isDocument (n : Node) : Bool :=
  n.isComment && Doc.isBlock n.text && !Doc.isDetached n.text

theorem isRemark_eq_false_of_isCode {n : Node} (h : n.isCode = true) : n.isRemark = false :=
  eq_false_of_ne_true fun hremark => not_code_of_isRemark hremark h

/-! ### Syntax trees -/

/-- What the grammar asks of a node: tokens and comments have no children, and the body of a class
is a class body. -/
def isRegular (n : Node) : Bool :=
  (n.isCode || n.children.isEmpty) &&
    (!(n.kind == .classExpression || n.kind == .classDeclaration) ||
      n.children.all fun c => c.role != some .body || c.kind == .classBody)

mutual

/-- The node and everything in it is regular. -/
def isGrown : Node → Bool
  | ⟨k, role, text, line, start, cs⟩ => isRegular ⟨k, role, text, line, start, cs⟩ && allGrown cs

/-- All nodes of a list, and everything in them, are regular. -/
def allGrown : List Node → Bool
  | [] => true
  | c :: cs => isGrown c && allGrown cs

end

/-- The tree of a program. -/
def isSyntaxTree (tree : Node) : Bool :=
  tree.kind == .program && tree.isGrown

theorem allGrown_iff {ns : List Node} : allGrown ns = true ↔ ∀ n ∈ ns, n.isGrown = true := by
  induction ns with
  | nil => simp [allGrown]
  | cons n ns ih => rw [allGrown, Bool.and_eq_true, ih, List.forall_mem_cons]

theorem isGrown_iff {n : Node} :
    n.isGrown = true ↔ n.isRegular = true ∧ ∀ c ∈ n.children, c.isGrown = true := by
  cases n
  rw [isGrown, Bool.and_eq_true, allGrown_iff]

/-- What has children is neither a token nor a comment. -/
theorem isCode_of_mem_children {n c : Node} (h : n.isGrown = true) (hc : c ∈ n.children) :
    n.isCode = true := by
  have hregular := (isGrown_iff.1 h).1
  rw [isRegular, Bool.and_eq_true, Bool.or_eq_true, List.isEmpty_iff] at hregular
  refine hregular.1.resolve_right fun hnil => ?_
  rw [hnil] at hc
  cases hc

theorem kind_of_body {n body : Node} (h : n.isGrown = true)
    (hk : n.kind = .classExpression ∨ n.kind = .classDeclaration)
    (hbody : n.child? .body = some body) : body.kind = .classBody := by
  have hregular := (isGrown_iff.1 h).1
  have hclass : (n.kind == .classExpression || n.kind == .classDeclaration) = true := by
    rcases hk with hk | hk
    · rw [hk]
      rfl
    · rw [hk]
      rfl
  rw [isRegular, Bool.and_eq_true, hclass, Bool.not_true, Bool.false_or] at hregular
  have hbodies := List.all_eq_true.1 hregular.2 body (mem_children_of_child? hbody)
  have hrole : (body.role == some .body) = true :=
    List.find?_some (p := fun c : Node => c.role == some .body) hbody
  rw [eq_of_beq hrole, bne_self_eq_false, Bool.false_or] at hbodies
  exact eq_of_beq hbodies

/-- What is no construct, or a comment, has no parts. -/
theorem Lucid.isCode_or {n : Node} (h : n.Lucid) : n.isCode = true ∨ n.children = [] := by
  by_cases hleaf : n.kind.isLeaf = true
  · exact .inr (h.leaf hleaf)
  · refine .inl ?_
    rw [isCode, isNamed, isComment]
    generalize n.kind = k at hleaf ⊢
    cases k <;> first | rfl | exact absurd rfl hleaf

theorem Lucid.isRegular {n : Node} (h : n.Lucid) : n.isRegular = true := by
  have hcode : (n.isCode || n.children.isEmpty) = true := by
    rw [Bool.or_eq_true, List.isEmpty_iff]
    exact h.isCode_or
  rw [Node.isRegular, hcode, Bool.true_and, Bool.or_eq_true, Bool.not_eq_true', List.all_eq_true]
  by_cases hclass : n.kind.isClass = true
  · refine .inr fun c hc => ?_
    by_cases hrole : c.role = some .body
    · rw [h.classBody hclass c hc hrole, beq_self_eq_true, Bool.or_true]
    · rw [bne_iff_ne.2 hrole, Bool.true_or]
  · refine .inl ?_
    generalize n.kind = k at hclass ⊢
    cases k <;> first | rfl | exact absurd rfl hclass

/-- A legible node is regular, and so is everything in it. -/
theorem Legible.isGrown {n : Node} (h : n.Legible) : n.isGrown = true := by
  induction h with
  | mk own _ ih => exact isGrown_iff.2 ⟨own.isRegular, ih⟩

/-- The tree of a source is a syntax tree. -/
theorem isSyntaxTree_of_parse? {source : String} {tree : Node}
    (h : Source.parse? source = some tree) : tree.isSyntaxTree = true := by
  rw [isSyntaxTree, Source.kind_of_parse? h, (Source.legible_of_parse? h).isGrown]
  rfl

end Node

/-! ### Sites -/

/-- One step up from a node: what it stands in, the siblings before it, the nearest first, and the
siblings after it. -/
structure Frame where
  parent : Node
  before : List Node
  after : List Node
  deriving DecidableEq

/-- A node where it stands; the steps up from it, the first one first. -/
structure Site where
  node : Node
  above : List Frame
  deriving DecidableEq

namespace Site

/-- The site of a whole tree. -/
def top (tree : Node) : Site :=
  ⟨tree, []⟩

/-- The site of a child between the given siblings. -/
def below (s : Site) (before : List Node) (n : Node) (after : List Node) : Site :=
  ⟨n, ⟨s.node, before, after⟩ :: s.above⟩

/-- The sites of the children, from those behind the given ones on. -/
def childrenFrom (s : Site) (before : List Node) : List Node → List Site
  | [] => []
  | n :: rest => s.below before n rest :: s.childrenFrom (n :: before) rest

/-- The sites of the children. -/
def children (s : Site) : List Site :=
  s.childrenFrom [] s.node.children

/-- The sites of the constructs among the children, comments aside. -/
def codeChildren (s : Site) : List Site :=
  s.children.filter (·.node.isCode)

/-- The site of the child that plays a role. -/
def child? (s : Site) (r : Role) : Option Site :=
  s.children.find? (·.node.role == some r)

/-- The site of what a node stands in. -/
def parent? (s : Site) : Option Site :=
  match s.above with
  | [] => none
  | f :: above => some ⟨f.parent, above⟩

/-- The sites that steps lead to. -/
def sitesAlong : List Frame → List Site
  | [] => []
  | f :: above => ⟨f.parent, above⟩ :: sitesAlong above

/-- The sites of all that a node stands in, innermost first. -/
def ancestors (s : Site) : List Site :=
  sitesAlong s.above

/-- The site stands in the tree. -/
inductive StandsIn (tree : Node) : Site → Prop where
  | root : StandsIn tree (top tree)
  | child {s c : Site} (h : StandsIn tree s) (hc : c ∈ s.children) : StandsIn tree c

/-! ### Anchors -/

/-- Climbs to the child of a scope. -/
def climb (n : Node) : List Frame → Site
  | [] => ⟨n, []⟩
  | f :: above => if f.parent.kind.isScope then ⟨n, f :: above⟩ else climb f.parent above

/-- The statement or the member that a node belongs to. -/
def anchor (s : Site) : Site :=
  climb s.node s.above

/-- The sites of the siblings before, the nearest first. -/
def earlierIn (parent : Node) (above : List Frame) : (before after : List Node) → List Site
  | [], _ => []
  | n :: before, after =>
    ⟨n, ⟨parent, before, after⟩ :: above⟩ :: earlierIn parent above before (n :: after)

/-- The sites of the siblings before a node, the nearest first. -/
def earlier (s : Site) : List Site :=
  match s.above with
  | [] => []
  | f :: above => earlierIn f.parent above f.before (s.node :: f.after)

/-- Looks for a comment that documents what stands behind the given siblings. -/
def lookBack : List Site → Option Site
  | [] => none
  | s :: before =>
    if s.node.isSeparator then lookBack before
    else if s.node.isComment then
      if Doc.isBlock s.node.text && !Doc.isDetached s.node.text then some s else lookBack before
    else none

/-- The site of the comment that documents a node. -/
def comment? (s : Site) : Option Site :=
  lookBack s.anchor.earlier

/-- The siblings between a node and the nearest one before it that is neither a comment nor a
separator, in source order. -/
def remarks (s : Site) : List Site :=
  (s.earlier.takeWhile (·.node.isRemark)).reverse

/-- The nearest sibling behind a comment that is neither a comment nor a separator. -/
def following? (s : Site) : Option Site :=
  match s.above with
  | [] => none
  | f :: above =>
    match f.after.dropWhile Node.isRemark with
    | [] => none
    | n :: after =>
      let before := (f.after.takeWhile Node.isRemark).reverse ++ s.node :: f.before
      some ⟨n, ⟨f.parent, before, after⟩ :: above⟩

variable {tree : Node} {s c : Site}

/-! ### Children -/

@[simp]
theorem node_below (s : Site) (before : List Node) (n : Node) (after : List Node) :
    (s.below before n after).node = n := rfl

theorem map_node_childrenFrom (s : Site) (before nodes : List Node) :
    (s.childrenFrom before nodes).map node = nodes := by
  induction nodes generalizing before with
  | nil => rfl
  | cons n rest ih => rw [childrenFrom, List.map_cons, ih, node_below]

@[simp]
theorem map_node_children (s : Site) : s.children.map node = s.node.children :=
  map_node_childrenFrom s [] s.node.children

theorem map_node_codeChildren (s : Site) : s.codeChildren.map node = s.node.codeChildren := by
  rw [codeChildren, Node.codeChildren, ← map_node_children, List.filter_map]
  rfl

theorem map_node_child? (s : Site) (r : Role) : (s.child? r).map node = s.node.child? r := by
  rw [child?, Node.child?, ← map_node_children, List.find?_map]
  rfl

theorem mem_children_of_child? {r : Role} (h : s.child? r = some c) : c ∈ s.children :=
  List.mem_of_find?_eq_some h

theorem mem_children_of_codeChildren (h : c ∈ s.codeChildren) : c ∈ s.children :=
  (List.mem_filter.1 h).1

theorem node_mem_children (hc : c ∈ s.children) : c.node ∈ s.node.children := by
  rw [← map_node_children]
  exact List.mem_map_of_mem hc

/-- A role is played at a site as it is in the node. -/
theorem child?_cases (s : Site) (r : Role) :
    s.child? r = none ∧ s.node.child? r = none ∨
      ∃ c ∈ s.children, s.child? r = some c ∧ s.node.child? r = some c.node := by
  rw [← map_node_child?]
  cases h : s.child? r with
  | none => exact .inl ⟨rfl, rfl⟩
  | some c => exact .inr ⟨c, mem_children_of_child? h, rfl, rfl⟩

/-- There are constructs among the children of a site as there are in the node. -/
theorem codeChildren_cases (s : Site) :
    s.codeChildren = [] ∧ s.node.codeChildren = [] ∨
      ∃ c ∈ s.children, ∃ rest, s.codeChildren = c :: rest ∧
        s.node.codeChildren = c.node :: rest.map node := by
  rw [← map_node_codeChildren]
  cases h : s.codeChildren with
  | nil => exact .inl ⟨rfl, rfl⟩
  | cons c rest =>
      have hc : c ∈ s.codeChildren := by
        rw [h]
        exact List.mem_cons_self ..
      exact .inr ⟨c, mem_children_of_codeChildren hc, rest, rfl, rfl⟩

theorem exists_frame_of_childrenFrom {before nodes : List Node}
    (h : c ∈ s.childrenFrom before nodes) :
    ∃ before' after, c.above = ⟨s.node, before', after⟩ :: s.above := by
  induction nodes generalizing before with
  | nil => cases h
  | cons n rest ih =>
      rw [childrenFrom] at h
      rcases List.mem_cons.1 h with rfl | h
      · exact ⟨before, rest, rfl⟩
      · exact ih h

theorem exists_frame (hc : c ∈ s.children) :
    ∃ before after, c.above = ⟨s.node, before, after⟩ :: s.above :=
  exists_frame_of_childrenFrom hc

theorem parent?_of_mem_children (hc : c ∈ s.children) : c.parent? = some s := by
  obtain ⟨before, after, habove⟩ := exists_frame hc
  rw [parent?, habove]

theorem ancestors_of_mem_children (hc : c ∈ s.children) : c.ancestors = s :: s.ancestors := by
  obtain ⟨before, after, habove⟩ := exists_frame hc
  rw [ancestors, habove, sitesAlong, ancestors]

theorem anchor_of_isScope (hc : c ∈ s.children) (h : s.node.kind.isScope = true) :
    c.anchor = c := by
  obtain ⟨before, after, habove⟩ := exists_frame hc
  rw [anchor, habove, climb, if_pos h, ← habove]

theorem anchor_of_not_isScope (hc : c ∈ s.children) (h : s.node.kind.isScope = false) :
    c.anchor = s.anchor := by
  obtain ⟨before, after, habove⟩ := exists_frame hc
  rw [anchor, habove, climb, h, if_neg Bool.false_ne_true, anchor]

/-! ### Where sites stand -/

theorem isGrown_of_mem_children (hs : s.node.isGrown = true) (hc : c ∈ s.children) :
    c.node.isGrown = true :=
  (Node.isGrown_iff.1 hs).2 _ (node_mem_children hc)

theorem StandsIn.isGrown (h : s.StandsIn tree) (htree : tree.isGrown = true) :
    s.node.isGrown = true := by
  induction h with
  | root => exact htree
  | child _ hc ih => exact isGrown_of_mem_children ih hc

/-- The anchor of a construct is a construct. -/
theorem StandsIn.isCode_anchor (h : s.StandsIn tree) (htree : tree.isGrown = true)
    (hs : s.node.isCode = true) : s.anchor.node.isCode = true := by
  induction h with
  | root => exact hs
  | @child s c h hc ih =>
      cases hscope : s.node.kind.isScope with
      | true => rwa [anchor_of_isScope hc hscope]
      | false =>
          rw [anchor_of_not_isScope hc hscope]
          exact ih (Node.isCode_of_mem_children (h.isGrown htree) (node_mem_children hc))

/-- The anchor is the child of the nearest scope around a node: the node itself or something that
it stands in. -/
theorem StandsIn.anchor_spec (h : s.StandsIn tree) (htree : tree.kind.isScope = true)
    (hs : s.above ≠ []) :
    ∃ scope, s.ancestors.find? (·.node.kind.isScope) = some scope ∧
      s.anchor.parent? = some scope ∧ s.anchor ∈ s :: s.ancestors := by
  induction h with
  | root => exact absurd rfl hs
  | @child s c h hc ih =>
      rw [ancestors_of_mem_children hc, List.find?_cons]
      cases hscope : s.node.kind.isScope with
      | true =>
          rw [anchor_of_isScope hc hscope]
          exact ⟨s, rfl, parent?_of_mem_children hc, List.mem_cons_self ..⟩
      | false =>
          have habove : s.above ≠ [] := by
            cases h with
            | root => cases htree.symm.trans hscope
            | child _ hs =>
                obtain ⟨before, after, habove⟩ := exists_frame hs
                rw [habove]
                exact List.cons_ne_nil _ _
          obtain ⟨scope, hfind, hparent, hmem⟩ := ih habove
          rw [anchor_of_not_isScope hc hscope]
          exact ⟨scope, hfind, hparent, List.mem_cons_of_mem _ hmem⟩

/-! ### Comments -/

theorem lookBack_eq_find? (sites : List Site) :
    lookBack sites = (sites.takeWhile (·.node.isRemark)).find? (·.node.isDocument) := by
  induction sites with
  | nil => rfl
  | cons s before ih =>
      rw [lookBack, List.takeWhile_cons, Node.isRemark]
      cases hseparator : s.node.isSeparator with
      | true =>
          have hcomment : s.node.isComment = false := by
            rw [Node.isSeparator, Bool.or_eq_true, beq_iff_eq, beq_iff_eq] at hseparator
            rcases hseparator with hk | hk
            · rw [Node.isComment, hk]
              rfl
            · rw [Node.isComment, hk]
              rfl
          rw [if_pos rfl, Bool.true_or, if_pos rfl, List.find?_cons, Node.isDocument, hcomment, ih]
          rfl
      | false =>
          rw [if_neg Bool.false_ne_true, Bool.false_or]
          cases hcomment : s.node.isComment with
          | false => rfl
          | true =>
              rw [if_pos rfl, if_pos rfl, List.find?_cons, Node.isDocument, hcomment,
                Bool.true_and, ih]
              split
              · rename_i hdocument
                rw [hdocument]
              · rename_i hdocument
                rw [eq_false_of_ne_true hdocument]

/-- The comment of a node is the last block comment that is not detached among the remarks before
its anchor. -/
theorem comment?_eq_getLast? (s : Site) :
    s.comment? = (s.anchor.remarks.filter (·.node.isDocument)).getLast? := by
  rw [comment?, lookBack_eq_find?, remarks, List.filter_reverse, List.getLast?_reverse,
    List.head?_filter]

theorem isDocument_of_comment? (h : s.comment? = some c) : c.node.isDocument = true := by
  rw [comment?, lookBack_eq_find?] at h
  exact List.find?_some (p := fun d : Site => d.node.isDocument) h

/-- Looking back meets the same comment as the readers do. -/
theorem map_node_lookBack (sites : List Site) :
    (lookBack sites).map node = Context.documenting (sites.map node) := by
  induction sites with
  | nil => rfl
  | cons s before ih =>
      rw [lookBack, List.map_cons, Context.documenting, ← ih, Node.isSeparator]
      split
      · rfl
      · split
        · split
          · rfl
          · rfl
        · rfl

theorem map_node_earlierIn (parent : Node) (above : List Frame) (before after : List Node) :
    (earlierIn parent above before after).map node = before := by
  induction before generalizing after with
  | nil => rfl
  | cons n before ih => rw [earlierIn, List.map_cons, ih]

/-- What looks back over remarks to a comment stands right behind these remarks. -/
theorem following?_of_lookBack {parent n : Node} {above : List Frame}
    {before passed after : List Node} (hn : n.isRemark = false)
    (hpassed : ∀ d ∈ passed, d.isRemark = true)
    (h : lookBack (earlierIn parent above before (passed ++ n :: after)) = some c) :
    c.following? = some ⟨n, ⟨parent, passed.reverse ++ before, after⟩ :: above⟩ := by
  induction before generalizing passed with
  | nil => cases h
  | cons d before ih =>
      rw [earlierIn, lookBack] at h
      dsimp only at h
      have hnext (hd : d.isRemark = true)
          (h : lookBack (earlierIn parent above before (d :: (passed ++ n :: after))) = some c) :
          c.following? = some ⟨n, ⟨parent, passed.reverse ++ d :: before, after⟩ :: above⟩ := by
        rw [ih (List.forall_mem_cons.2 ⟨hd, hpassed⟩) h,
          List.reverse_cons, List.append_assoc]
        rfl
      split at h
      · rename_i hseparator
        exact hnext (Node.isRemark_of_isSeparator hseparator) h
      · split at h
        · rename_i hcomment
          have hd : d.isRemark = true := by rw [Node.isRemark, hcomment, Bool.or_true]
          split at h
          · cases h
            rw [following?]
            dsimp only
            rw [List.dropWhile_append_of_pos hpassed, List.takeWhile_append_of_pos hpassed,
              List.dropWhile_cons, List.takeWhile_cons, hn, if_neg Bool.false_ne_true,
              if_neg Bool.false_ne_true, List.append_nil]
          · exact hnext hd h
        · cases h

/-- The anchor of a node is what follows its comment. -/
theorem following?_of_comment? (hs : s.anchor.node.isRemark = false) (h : s.comment? = some c) :
    c.following? = some s.anchor := by
  rw [comment?, earlier] at h
  split at h
  · cases h
  · rename_i f above habove
    have hfollowing := following?_of_lookBack hs (List.forall_mem_nil _) h
    rw [hfollowing, List.reverse_nil, List.nil_append, ← habove]

end Site

end Ambient
