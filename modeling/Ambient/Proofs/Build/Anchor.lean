import Ambient.Proofs.Build.Sited
import Ambient.Source.Program

/-!
# One thing for a comment

The comment that a reader is handed is the one found from the site it reads: below a statement or a
member the anchor stays the same until a member is entered, and there the siblings before are those
that are looked back over.  So the readers at sites read what the readers do, and what holds of the
comments found from sites holds of all documentation.
-/

namespace Ambient

open Site

namespace Context

variable {s c : Site}

theorem asking_asking (ctx : Context) (s c : Site) : (ctx.asking s).asking c = ctx.asking c := rfl

/-- Below a node that is no scope the documentation stays the same. -/
theorem asking_child (ctx : Context) (hc : c ∈ s.children) (hs : s.node.kind.isScope = false) :
    ctx.asking c = ctx.asking s := by
  rw [asking, asking, comment?, anchor_of_not_isScope hc hs, comment?]

theorem enter_asking_child (ctx : Context) (hc : c ∈ s.children)
    (hs : s.node.kind.isScope = false) :
    ((ctx.asking s).enter c.node).asking c = (ctx.asking s).enter c.node := by
  rw [← asking_child ctx hc hs]
  rfl

/-- A child of a scope is documented by the siblings before it. -/
theorem asking_member (ctx : Context) (hs : s.node.kind.isScope = true) (before rest : List Node)
    (n : Node) : ctx.asking (s.below before n rest) = ctx.behind before := by
  rw [asking, comment?, anchor, below, climb, if_pos hs, earlier, map_node_lookBack,
    map_node_earlierIn]
  rfl

end Context

namespace Sited

variable {s : Site}

/-- The value is read alike from its site. -/
def ReadsAlike (s : Site) : Prop :=
  ∀ ctx : Context, value ctx s = Build.value (ctx.asking s) s.node

/-- Below a node that is no scope the value is read in the context of the node. -/
theorem ReadsAlike.within {c : Site} (h : ReadsAlike c) (hc : c ∈ s.children)
    (hs : s.node.kind.isScope = false) (ctx : Context) :
    value (ctx.asking s) c = Build.value (ctx.asking s) c.node := by
  rw [h, Context.asking_asking, Context.asking_child _ hc hs]

/-- All values smaller than a node are read alike. -/
def ReadsAlikeBelow (s : Site) : Prop :=
  ∀ c : Site, sizeOf c.node < sizeOf s.node → c.node.isGrown = true → ReadsAlike c

namespace ReadsAlikeBelow

variable {c : Site}

theorem of_mem_children (h : ReadsAlikeBelow s) (hc : c ∈ s.children) : ReadsAlikeBelow c :=
  fun d hlt => h d (Nat.lt_trans hlt (sizeOf_lt_of_mem_children hc))

theorem child (h : ReadsAlikeBelow s) (hgrown : s.node.isGrown = true) :
    ∀ c ∈ s.children, ReadsAlike c :=
  fun c hc => h c (sizeOf_lt_of_mem_children hc) (isGrown_of_mem_children hgrown hc)

theorem grandchild (h : ReadsAlikeBelow s) (hgrown : s.node.isGrown = true) :
    ∀ m ∈ s.children, ∀ c ∈ m.children, ReadsAlike c :=
  fun _ hm => (h.of_mem_children hm).child (isGrown_of_mem_children hgrown hm)

end ReadsAlikeBelow

/-! ### Values -/

theorem assign_eq (ctx : Context) (hs : s.node.kind.isScope = false)
    (hvalue : ∀ c ∈ s.children, ReadsAlike c) :
    assign (ctx.asking s) s = Build.assign (ctx.asking s) s.node := by
  rw [assign, Build.assign]
  dsimp only
  rcases s.child?_cases .left with ⟨hleft, hleft'⟩ | ⟨left, -, hleft, hleft'⟩
  · rw [hleft, hleft']
  · rcases s.child?_cases .right with ⟨hright, hright'⟩ | ⟨right, hmem, hright, hright'⟩
    · rw [hleft, hleft', hright, hright']
    · rw [hleft, hleft', hright, hright']
      dsimp only
      rw [(hvalue right hmem).within hmem hs]

/-- One member of an object, when the members behind it are read alike. -/
theorem objectMembers_cons_eq {ctx : Context} {m : Site} {before nodes : List Node}
    {sites : List Site} (hm : ctx.asking m = ctx.behind before)
    (hvalue : ∀ c ∈ m.children, ReadsAlike c)
    (hnext : objectMembers ctx sites = Build.objectMembers ctx (m.node :: before) nodes)
    (members : Table Decl) :
    objectMembers ctx (m :: sites) members =
      Build.objectMembers ctx before (m.node :: nodes) members := by
  have hinner : (ctx.enter m.node).asking m = (ctx.behind before).enter m.node := by
    rw [← hm]
    rfl
  rw [objectMembers, Build.objectMembers, hnext]
  dsimp only
  rw [hinner]
  split
  · cases hk : m.node.kind
    case pair =>
      have hm : m.node.kind.isScope = false := congrArg Kind.isScope hk
      dsimp only
      rcases m.child?_cases .key with ⟨hkey, hkey'⟩ | ⟨key, -, hkey, hkey'⟩
      · rw [hkey, hkey']
      · rcases m.child?_cases .value with ⟨hv, hv'⟩ | ⟨v, hmem, hv, hv'⟩
        · rw [hkey, hkey', hv, hv']
        · rw [hkey, hkey', hv, hv']
          dsimp only
          rw [← hinner, (hvalue v hmem).within hmem hm]
    all_goals rfl
  · rfl

theorem objectMembers_eq (ctx : Context) (hs : s.node.kind.isScope = true)
    {before nodes : List Node} (members : Table Decl)
    (hvalue : ∀ m ∈ s.childrenFrom before nodes, ∀ c ∈ m.children, ReadsAlike c) :
    objectMembers ctx (s.childrenFrom before nodes) members =
      Build.objectMembers ctx before nodes members := by
  induction nodes generalizing before members with
  | nil => rw [childrenFrom, objectMembers, Build.objectMembers_nil]
  | cons n rest ih =>
      obtain ⟨hchildren, hothers⟩ := List.forall_mem_cons.1 hvalue
      exact objectMembers_cons_eq (Context.asking_member ctx hs before rest n) hchildren
        (funext fun members => ih members hothers) members

/-- One member of a class, when the members behind it are read alike. -/
theorem classMembers_cons_eq {ctx : Context} {m : Site} {before nodes : List Node}
    {sites : List Site} (hm : ctx.asking m = ctx.behind before)
    (hvalue : ∀ c ∈ m.children, ReadsAlike c)
    (hnext : classMembers ctx sites = Build.classMembers ctx (m.node :: before) nodes)
    (parts : Build.ClassParts) :
    classMembers ctx (m :: sites) parts =
      Build.classMembers ctx before (m.node :: nodes) parts := by
  have hinner : (ctx.enter m.node).asking m = (ctx.behind before).enter m.node := by
    rw [← hm]
    rfl
  rw [classMembers, Build.classMembers, hnext]
  dsimp only
  rw [hinner]
  split
  · cases hk : m.node.kind
    case fieldDefinition =>
      have hm : m.node.kind.isScope = false := congrArg Kind.isScope hk
      dsimp only
      rcases m.child?_cases .property with ⟨hp, hp'⟩ | ⟨property, -, hp, hp'⟩
      · rw [hp, hp']
      · rw [hp, hp']
        dsimp only
        split
        · rfl
        · rcases m.child?_cases .value with ⟨hv, hv'⟩ | ⟨v, hmem, hv, hv'⟩
          · rw [hv]
            dsimp only
            split
            · rename_i hw _
              cases hv'.symm.trans hw
            · rfl
          · rw [hv]
            dsimp only
            rw [← hinner, (hvalue v hmem).within hmem hm]
            split
            · rename_i hw _
              cases hv'.symm.trans hw
              rfl
            · rename_i hw _
              cases hv'.symm.trans hw
    all_goals rfl
  · rfl

theorem classMembers_eq (ctx : Context) (hs : s.node.kind.isScope = true)
    {before nodes : List Node} (parts : Build.ClassParts)
    (hvalue : ∀ m ∈ s.childrenFrom before nodes, ∀ c ∈ m.children, ReadsAlike c) :
    classMembers ctx (s.childrenFrom before nodes) parts =
      Build.classMembers ctx before nodes parts := by
  induction nodes generalizing before parts with
  | nil => rw [childrenFrom, classMembers, Build.classMembers_nil]
  | cons n rest ih =>
      obtain ⟨hchildren, hothers⟩ := List.forall_mem_cons.1 hvalue
      exact classMembers_cons_eq (Context.asking_member ctx hs before rest n) hchildren
        (funext fun parts => ih parts hothers) parts

theorem classValue_eq (ctx : Context) (hgrown : s.node.isGrown = true)
    (hk : s.node.kind = .classExpression ∨ s.node.kind = .classDeclaration)
    (hvalue : ReadsAlikeBelow s) : classValue ctx s = Build.classValue ctx s.node := by
  rw [classValue, Build.classValue]
  refine bind_congr fun doc => ?_
  dsimp only
  rcases s.child?_cases .body with ⟨hbody, hbody'⟩ | ⟨body, hmem, hbody, hbody'⟩
  · rw [hbody, hbody']
  · have hscope : body.node.kind.isScope = true := by
      rw [Node.kind_of_body hgrown hk hbody']
      rfl
    rw [hbody, hbody']
    dsimp only
    rw [children, classMembers_eq ctx hscope _ ((hvalue.of_mem_children hmem).grandchild
      (isGrown_of_mem_children hgrown hmem))]

/-- A value is read alike from its site. -/
theorem value_eq {s : Site} (hgrown : s.node.isGrown = true) : ReadsAlike s := by
  intro ctx
  have hbelow : ReadsAlikeBelow s := fun c _ hc => value_eq hc
  have hchild := hbelow.child hgrown
  have hinner : (ctx.asking s).enter s.node = (ctx.enter s.node).asking s := rfl
  rw [value, Build.value, hinner]
  dsimp only
  cases hk : s.node.kind
  case classExpression => exact classValue_eq _ hgrown (.inl hk) hbelow
  case object =>
    have hs : s.node.kind.isScope = true := congrArg Kind.isScope hk
    dsimp only
    rw [children, objectMembers_eq _ hs _ (hbelow.grandchild hgrown)]
  case assignmentExpression =>
    have hs : s.node.kind.isScope = false := congrArg Kind.isScope hk
    dsimp only
    rw [assign_eq _ hs hchild]
    refine bind_congr fun _ => ?_
    rcases s.child?_cases .right with ⟨hright, hright'⟩ | ⟨right, hmem, hright, hright'⟩
    · rw [hright, hright']
    · rw [hright, hright']
      dsimp only
      rw [(hchild right hmem).within hmem hs]
  case parenthesizedExpression =>
    have hs : s.node.kind.isScope = false := congrArg Kind.isScope hk
    dsimp only
    rcases s.codeChildren_cases with ⟨hnil, hnil'⟩ | ⟨c, hmem, rest, hcons, hcons'⟩
    · rw [hnil, hnil']
    · rw [hcons, hcons']
      dsimp only
      rw [(hchild c hmem).within hmem hs]
  all_goals rfl
termination_by sizeOf s.node

/-! ### Declarations -/

theorem bindingValue_eq (ctx : Context) (keyword : String) (hs : s.node.kind.isScope = false)
    (hgrown : s.node.isGrown = true) :
    bindingValue (ctx.asking s) keyword (s.child? .value) =
      Build.bindingValue (ctx.asking s) keyword (s.node.child? .value) := by
  rcases s.child?_cases .value with ⟨hv, hv'⟩ | ⟨v, hmem, hv, hv'⟩
  · rw [hv, hv']
    rfl
  · have hvalue := (value_eq (isGrown_of_mem_children hgrown hmem)).within hmem hs ctx
    rw [hv, hv', bindingValue, Build.bindingValue]
    refine bind_congr fun doc => ?_
    split
    · rfl
    · exact congrArg (· >>= _) hvalue

theorem declaratorNames_eq (keyword : String) (ctx : Context)
    (hk : s.node.kind = .variableDeclarator) (hgrown : s.node.isGrown = true) :
    declaratorNames keyword (ctx.asking s) s =
      Build.declaratorNames keyword (ctx.asking s) s.node := by
  have hs : s.node.kind.isScope = false := congrArg Kind.isScope hk
  have hinner (target : Node) : ((ctx.asking s).enter target).asking s =
      (ctx.asking s).enter target := rfl
  rw [declaratorNames, Build.declaratorNames]
  cases s.node.child? .name with
  | none => rfl
  | some target =>
      dsimp only
      rw [hinner]
      cases target.kind
      case identifier =>
        exact congrArg (· >>= fun d => do
          Build.register target.text d
          return [target.text]) (bindingValue_eq (ctx.enter target) keyword hs hgrown)
      all_goals rfl

theorem declaratorsNames_eq (keyword : String) (ctx : Context) {sites : List Site}
    (hsites : ∀ c ∈ sites, ctx.asking c = ctx ∧ c.node.isGrown = true) :
    declaratorsNames keyword ctx sites =
      Build.declaratorsNames keyword ctx (sites.map node) := by
  induction sites with
  | nil => rfl
  | cons c rest ih =>
      obtain ⟨⟨hc, hgrown⟩, hrest⟩ := List.forall_mem_cons.1 hsites
      have hinner : (ctx.enter c.node).asking c = ctx.enter c.node :=
        congrArg (Context.enter · c.node) hc
      rw [declaratorsNames, List.map_cons, Build.declaratorsNames, ih hrest, Build.onlyKind]
      dsimp only
      split
      · rename_i hk
        rw [declaratorNames_eq keyword _ (eq_of_beq hk) hgrown, hinner]
      · rw [hinner]

theorem declaratorsNames_codeChildren (ctx : Context) (hs : s.node.kind.isScope = false)
    (hgrown : s.node.isGrown = true) (keyword : String) :
    declaratorsNames keyword (ctx.asking s) s.codeChildren =
      Build.declaratorsNames keyword (ctx.asking s) s.node.codeChildren := by
  rw [← map_node_codeChildren]
  refine declaratorsNames_eq keyword _ fun c hc => ?_
  have hmem := mem_children_of_codeChildren hc
  exact ⟨Context.asking_child ctx hmem hs, isGrown_of_mem_children hgrown hmem⟩

theorem declarationNames?_eq (ctx : Context) (hgrown : s.node.isGrown = true) :
    declarationNames? (ctx.asking s) s = Build.declarationNames? (ctx.asking s) s.node := by
  rw [declarationNames?, Build.declarationNames?]
  cases hk : s.node.kind
  case variableDeclaration =>
    have hs : s.node.kind.isScope = false := congrArg Kind.isScope hk
    exact congrArg some (declaratorsNames_codeChildren ctx hs hgrown _)
  case lexicalDeclaration =>
    have hs : s.node.kind.isScope = false := congrArg Kind.isScope hk
    exact congrArg some (declaratorsNames_codeChildren ctx hs hgrown _)
  case classDeclaration =>
    dsimp only
    rw [classValue_eq _ hgrown (.inr hk) fun c _ hc => value_eq hc]
  all_goals rfl

theorem declarationNames_eq (ctx : Context) (hs : s.node.kind.isScope = false) {d : Site}
    (hd : d ∈ s.children) (hgrown : s.node.isGrown = true) :
    declarationNames (ctx.asking s) d = Build.declarationNames (ctx.asking s) d.node := by
  have hgrown' := isGrown_of_mem_children hgrown hd
  rw [declarationNames, Build.declarationNames, declarationNames?_eq _ hgrown',
    Context.enter_asking_child _ hd hs]

/-! ### Statements -/

theorem exportDefault_eq (ctx : Context) (hs : s.node.kind.isScope = false)
    (hgrown : s.node.isGrown = true) :
    exportDefault (ctx.asking s) s = Build.exportDefault (ctx.asking s) s.node := by
  rw [exportDefault, Build.exportDefault]
  rcases s.child?_cases .declaration with ⟨hd, hd'⟩ | ⟨d, hmem, hd, hd'⟩
  · rcases s.child?_cases .value with ⟨hv, hv'⟩ | ⟨v, hmem, hv, hv'⟩
    · rw [hd, hd', hv, hv']
    · rw [hd, hd', hv, hv']
      dsimp only
      rw [(value_eq (isGrown_of_mem_children hgrown hmem)).within hmem hs]
  · rw [hd, hd']
    exact congrArg (· >>= _) (declarationNames_eq ctx hs hmem hgrown)

theorem exportStatement_eq (ctx : Context) (hs : s.node.kind.isScope = false)
    (hgrown : s.node.isGrown = true) :
    exportStatement (ctx.asking s) s = Build.exportStatement (ctx.asking s) s.node := by
  rw [exportStatement, Build.exportStatement, exportDefault_eq ctx hs hgrown]
  rcases s.child?_cases .declaration with ⟨hd, hd'⟩ | ⟨d, hmem, hd, hd'⟩
  · rw [hd, hd']
  · rw [hd, hd']
    dsimp only
    rw [declarationNames_eq ctx hs hmem hgrown]

theorem expressionStatement_eq (ctx : Context) (hs : s.node.kind.isScope = false)
    (hgrown : s.node.isGrown = true) :
    expressionStatement (ctx.asking s) s = Build.expressionStatement (ctx.asking s) s.node := by
  rw [expressionStatement, Build.expressionStatement]
  rcases s.codeChildren_cases with ⟨hnil, hnil'⟩ | ⟨e, hmem, rest, hcons, hcons'⟩
  · rw [hnil, hnil']
    rfl
  · have hgrown' := isGrown_of_mem_children hgrown hmem
    rw [hcons, hcons', List.head?_cons, List.head?_cons]
    dsimp only
    rw [Context.enter_asking_child _ hmem hs]
    cases hk : e.node.kind
    case assignmentExpression =>
      have he : e.node.kind.isScope = false := congrArg Kind.isScope hk
      have hassign := assign_eq ((ctx.asking s).enter e.node) he fun c hc =>
        value_eq (isGrown_of_mem_children hgrown' hc)
      rwa [Context.enter_asking_child _ hmem hs] at hassign
    all_goals rfl

theorem statement_eq (ctx : Context) (hgrown : s.node.isGrown = true) :
    statement ctx s = Build.statement (ctx.asking s) s.node := by
  have hinner : (ctx.asking s).enter s.node = (ctx.enter s.node).asking s := rfl
  rw [statement, Build.statement, hinner, declarationNames?_eq _ hgrown]
  cases hk : s.node.kind
  case expressionStatement =>
    have hs : s.node.kind.isScope = false := congrArg Kind.isScope hk
    exact expressionStatement_eq _ hs hgrown
  case exportStatement =>
    have hs : s.node.kind.isScope = false := congrArg Kind.isScope hk
    exact exportStatement_eq _ hs hgrown
  all_goals rfl

theorem statements_eq (ctx : Context) (hs : s.node.kind.isScope = true) {before nodes : List Node}
    (hgrown : ∀ n ∈ nodes, n.isGrown = true) :
    statements ctx (s.childrenFrom before nodes) = Build.statements ctx before nodes := by
  induction nodes generalizing before with
  | nil => rfl
  | cons n rest ih =>
      obtain ⟨hn, hrest⟩ := List.forall_mem_cons.1 hgrown
      have hstatement := statement_eq (s := s.below before n rest) ctx hn
      rw [Context.asking_member ctx hs] at hstatement
      rw [childrenFrom, statements, Build.statements, hstatement, ih hrest]
      rfl

end Sited

/-! ### Comments -/

namespace Site

variable {tree : Node}

/-- Constructs with the same comment have the same anchor. -/
theorem anchor_eq_of_comment? (htree : tree.isGrown = true) {x y q : Site} (hx : x.StandsIn tree)
    (hy : y.StandsIn tree) (hxcode : x.node.isCode = true) (hycode : y.node.isCode = true)
    (hxq : x.comment? = some q) (hyq : y.comment? = some q) : x.anchor = y.anchor := by
  have hxanchor := Node.isRemark_eq_false_of_isCode (hx.isCode_anchor htree hxcode)
  have hyanchor := Node.isRemark_eq_false_of_isCode (hy.isCode_anchor htree hycode)
  have hfollowing := following?_of_comment? hyanchor hyq
  rw [following?_of_comment? hxanchor hxq] at hfollowing
  exact Option.some.inj hfollowing

/-- A comment documents one thing at most.  The program reads a syntax tree as the readers at sites
do, which look for the comment of everything they ask about on their own.  The anchor of a node is
the child of the nearest scope around it, and the comment is the last one that is not detached among
the remarks before the anchor; without one there is no documentation.  So what has the same comment
has the same anchor, and a detached comment documents nothing. -/
theorem comments_document_one_thing (htree : tree.isSyntaxTree = true) :
    (∀ ctx : Context, Build.statements ctx [] tree.children =
      Sited.statements ctx (top tree).children) ∧
    (∀ x : Site, x.StandsIn tree → x.above ≠ [] →
      ∃ scope, x.ancestors.find? (·.node.kind.isScope) = some scope ∧
        x.anchor.parent? = some scope ∧ x.anchor ∈ x :: x.ancestors) ∧
    (∀ x : Site, x.comment? = (x.anchor.remarks.filter (·.node.isDocument)).getLast?) ∧
    (∀ (ctx : Context) (x : Site), x.comment? = none →
      Build.documentation (ctx.asking x) = pure {}) ∧
    (∀ x y q : Site, x.StandsIn tree → y.StandsIn tree → x.node.isCode = true →
      y.node.isCode = true → x.comment? = some q → y.comment? = some q → x.anchor = y.anchor) ∧
    (∀ x q : Site, x.comment? = some q →
      Doc.isBlock q.node.text = true ∧ Doc.isDetached q.node.text = false) := by
  rw [Node.isSyntaxTree, Bool.and_eq_true, beq_iff_eq] at htree
  obtain ⟨hk, hgrown⟩ := htree
  have hscope : tree.kind.isScope = true := congrArg Kind.isScope hk
  refine ⟨fun ctx => ?_, fun x hx habove => hx.anchor_spec hscope habove, comment?_eq_getLast?,
    fun ctx x hx => ?_, fun x y q hx hy => anchor_eq_of_comment? hgrown hx hy, fun x q hq => ?_⟩
  · exact (Sited.statements_eq (s := top tree) ctx hscope (Node.isGrown_iff.1 hgrown).2).symm
  · rw [Build.documentation, Context.asking, hx]
    rfl
  · have hdocument := isDocument_of_comment? hq
    rw [Node.isDocument, Bool.and_eq_true, Bool.and_eq_true, Bool.not_eq_true'] at hdocument
    exact ⟨hdocument.1.2, hdocument.2⟩

/-- Both declarators of a statement have the comment before it. -/
theorem comments_document_one_thing_declarators :
    ∃ (tree : Node) (x y q : Site), Source.parse? "/**a*/var a,b" = some tree ∧
      tree.isSyntaxTree = true ∧ x.StandsIn tree ∧ y.StandsIn tree ∧ x.node.text = "a" ∧
      y.node.text = "b" ∧ x.comment? = some q ∧ y.comment? = some q ∧ x.anchor = y.anchor := by
  let leaf (k : Kind) (role : Option Role) (text : String) (start : Nat) : Node :=
    ⟨k, role, text, 1, start, []⟩
  let comment := leaf .comment none "/**a*/" 0
  let keyword := leaf (.token "var") none "var" 6
  let comma := leaf (.token ",") none "," 11
  let a : Node := ⟨.variableDeclarator, none, "a", 1, 10, [leaf .identifier (some .name) "a" 10]⟩
  let b : Node := ⟨.variableDeclarator, none, "b", 1, 12, [leaf .identifier (some .name) "b" 12]⟩
  let declaration : Node := ⟨.variableDeclaration, none, "var a,b", 1, 6, [keyword, a, comma, b]⟩
  let tree : Node := ⟨.program, none, "/**a*/var a,b", 1, 0, [comment, declaration]⟩
  let s : Site := (top tree).below [comment] declaration []
  let x : Site := s.below [keyword] a [comma, b]
  let y : Site := s.below [comma, a, keyword] b []
  let q : Site := (top tree).below [] comment [declaration]
  have hparse : Source.parse? "/**a*/var a,b" = some tree := by decide +kernel
  have htree : tree.isSyntaxTree = true := Node.isSyntaxTree_of_parse? hparse
  have hs : s.StandsIn tree := .child .root (.tail _ (.head _))
  have hx : x.StandsIn tree := .child hs (.tail _ (.head _))
  have hy : y.StandsIn tree := .child hs (.tail _ (.tail _ (.tail _ (.head _))))
  have hxq : x.comment? = some q := by decide +kernel
  have hyq : y.comment? = some q := by decide +kernel
  obtain ⟨-, -, -, -, hanchor, -⟩ := comments_document_one_thing htree
  exact ⟨tree, x, y, q, hparse, htree, hx, hy, rfl, rfl, hxq, hyq,
    hanchor x y q hx hy rfl rfl hxq hyq⟩

end Site

end Ambient
