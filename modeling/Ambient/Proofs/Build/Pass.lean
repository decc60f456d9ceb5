import Ambient.Proofs.Build.Registration

/-!
# Relations that a pass keeps

The statement of `Relations that readers keep`, carried on to the parts of declarations, imports and
statements.  Besides what readers do, these register local declarations and describe the module.
Assignments and exports are left to the relation.
-/

namespace Ambient.Build

/-- A relation between steps that is kept by composing them and by registering local
declarations. -/
structure PassCongruence (S : Node → Node → Prop) (K : Context → Context → Prop)
    (R : (α : Type) → Build α → Build α → Prop) : Prop extends Congruence S K R where
  bind_of {α β : Type} {Q : α → Prop} {x y : Build α} {f g : α → Build β} (hx : R α x y)
    (hgives : Gives Q x) (hf : ∀ a, Q a → R β (f a) (g a)) : R β (x >>= f) (y >>= g)
  register (name : String) {d : Decl} (hd : d.exported = false) :
    R Unit (register name d) (register name d)
  describe (text : String) :
    R Unit (modifyModule (·.describe text)) (modifyModule (·.describe text))

variable {α β : Type} {S : Node → Node → Prop} {K : Context → Context → Prop}
  {R : (α : Type) → Build α → Build α → Prop} (hR : PassCongruence S K R)
  {c c' : Context} {n n' : Node}

include hR

theorem related_forM {xs : List β} {f g : β → Build Unit} (h : ∀ b ∈ xs, R _ (f b) (g b)) :
    R _ (xs.forM f) (xs.forM g) := by
  induction xs with
  | nil => exact hR.pure ()
  | cons b xs ih =>
      obtain ⟨hb, hxs⟩ := List.forall_mem_cons.1 h
      exact hR.bind hb fun _ => ih hxs

theorem related_nodes {nodes nodes' : List Node} {f g : Node → Build Unit}
    (hnodes : List.Forall₂ S nodes nodes')
    (h : ∀ n n' : Node, n ∈ nodes → S n n' → R _ (f n) (g n')) :
    R _ (nodes.forM f) (nodes'.forM g) := by
  induction hnodes with
  | nil => exact hR.pure ()
  | @cons n n' nodes nodes' hn _ ih =>
      refine hR.bind (h n n' (List.mem_cons_self ..) hn) fun _ => ih ?_
      exact fun e e' he => h e e' (List.mem_cons_of_mem _ he)

/-- An assignment is applied alike when the value is assigned alike to what the left side spells. -/
theorem related_assign (h : K c c') (hn : S n n')
    (hassign : ∀ l r r' : Node, n.child? .left = some l → r ∈ n.children → S r r' →
      ∀ path, l.Spells path →
        R _ (assignTo path n.line r (value c r)) (assignTo path n'.line r' (value c' r'))) :
    R _ (assign c n) (assign c' n') := by
  rcases hR.child? hn .left with ⟨l, l', hl, hl', hll⟩ | ⟨hl, hl'⟩
  · rcases hR.child? hn .right with ⟨r, r', hr, hr', hrr⟩ | ⟨hr, hr'⟩
    · rw [assign_eq c hl hr, assign_eq c' hl' hr']
      refine hR.bind_of (related_chain hR.toCongruence h hll) (gives_chain c l) fun path hpath => ?_
      exact hassign l r r' hl (Node.mem_children_of_child? hr) hrr path hpath
    · rw [assign_eq_unhandled c (.inr hr), assign_eq_unhandled c' (.inr hr')]
      exact hR.unhandled h hn
  · rw [assign_eq_unhandled c (.inl hl), assign_eq_unhandled c' (.inl hl')]
    exact hR.unhandled h hn

theorem related_eachCode {host : Bool} {nodes nodes' : List Node} {f g : Node → Build Unit}
    (hnodes : Node.Padded host S nodes nodes')
    (h : ∀ n n' : Node, n ∈ nodes → S n n' → R _ (f n) (g n')) :
    R _ (eachCode nodes f) (eachCode nodes' g) := by
  rw [eachCode_eq, eachCode_eq]
  refine related_nodes hR (hR.filter_code hnodes) fun n n' hmem => ?_
  exact h n n' (List.mem_of_mem_filter hmem)

theorem related_onlyKind (h : K c c') (k : Kind) (hn : S n n')
    {f g : Context → Node → Build α}
    (hf : n.kind = k → ∀ c c' : Context, K c c' → R _ (f c n) (g c' n')) :
    R _ (onlyKind c k f n) (onlyKind c' k g n') := by
  rw [onlyKind, onlyKind, ← hR.kind hn]
  split
  · rename_i hk
    exact hf (eq_of_beq hk) _ _ (hR.enter h hn)
  · exact hR.unhandled (hR.enter h hn) hn

/-- A declaration is read and registered, and its name is given. -/
theorem related_registered {x y : Build Decl} (hx : R _ x y) (hlocal : Gives IsLocal x)
    (name : String) :
    R _ (do
      let d ← x
      register name d
      return [name]) (do
      let d ← y
      register name d
      return [name]) :=
  hR.bind_of hx hlocal fun _ hd => hR.bind (hR.register name hd) fun _ => hR.pure _

/-! ### Comments -/

theorem related_addTypedef (doc : Doc.Comment) (tag : Doc.Tag) :
    R _ (addTypedef doc tag) (addTypedef doc tag) := by
  unfold addTypedef
  split
  · exact hR.notify
  · dsimp only
    split
    · exact hR.bind (hR.ofTypes _) fun _ => hR.register _ rfl
    · exact hR.bind (hR.pure _) fun _ => hR.register _ rfl

theorem related_commentStatement (htext : n.text = n'.text) :
    R _ (commentStatement n) (commentStatement n') := by
  unfold commentStatement
  rw [htext]
  split
  · refine hR.bind (hR.readComment htext) fun doc => ?_
    have htypedefs : R _ ((doc.find "typedef").forM (addTypedef doc))
        ((doc.find "typedef").forM (addTypedef doc)) :=
      related_forM hR fun tag _ => related_addTypedef hR doc tag
    split
    · exact hR.bind (hR.describe _) fun _ => htypedefs
    · exact htypedefs
  · exact hR.pure _

/-! ### Declarations -/

theorem related_bindingValue (h : K c c') (keyword : String) (hn : S n n')
    (hvalue : ∀ v, n.child? .value = some v → AssignsAlike S K R v) :
    R _ (bindingValue c keyword (n.child? .value))
      (bindingValue c' keyword (n'.child? .value)) := by
  rcases hR.child? hn .value with ⟨v, v', hv, hv', hvv⟩ | ⟨hv, hv'⟩
  · have hread := related_value hR.toCongruence v (hvalue v hv) v' hvv c c' h
    rw [hv, hv']
    refine hR.bind (related_documentation hR.toCongruence h) fun doc => ?_
    rw [← hR.isLiteral hvv]
    split
    · rename_i hconstant
      simp only [Bool.and_eq_true] at hconstant
      rw [hR.literal hvv hconstant.1.2]
      exact hR.pure _
    · refine hR.bind hread fun d => ?_
      split
      · exact hR.pure _
      · exact hR.pure _
  · rw [hv, hv']
    exact related_variableOf hR.toCongruence h _ keyword

theorem related_bindMember (h : K c c') (path : Option String) (own imported : String) :
    R _ (bindMember c path own imported) (bindMember c' path own imported) := by
  unfold bindMember
  split
  · refine related_registered hR (hR.pure _) (.pure ?_) own
    rfl
  · exact related_registered hR (related_variableOf hR.toCongruence h _ _)
      (gives_variableOf c _ _) own

theorem related_patternMember (h : K c c') (path : Option String) (hn : S n n') :
    R _ (patternMember c path n) (patternMember c' path n') := by
  have hinner := hR.enter h hn
  unfold patternMember
  rw [← hR.kind hn]
  dsimp only
  split
  · rename_i hk
    rw [hR.text_of_kind hn hk rfl]
    exact related_bindMember hR hinner path _ _
  · rename_i hk
    rcases hR.child? hn .value with ⟨v, v', hv, hv', hvv⟩ | ⟨hv, hv'⟩
    · rcases hR.child? hn .key with ⟨key, key', hkey, hkey', -⟩ | ⟨hkey, hkey'⟩
      · rw [hv, hv', hkey, hkey']
        refine related_onlyKind hR hinner _ hvv fun hv d d' hd => ?_
        rw [hR.text_of_kind hvv hv rfl, hR.text_of_child? hn hk hkey hkey' rfl]
        exact related_bindMember hR hd path _ _
      · rw [hv, hv', hkey, hkey']
        exact hR.unhandled hinner hn
    · rw [hv, hv']
      exact hR.unhandled hinner hn
  · exact hR.unhandled hinner hn

theorem related_patternNames (h : K c c') (path : Option String) {nodes nodes' : List Node}
    (hnodes : List.Forall₂ S nodes nodes') :
    R _ (patternNames c path nodes) (patternNames c' path nodes') := by
  induction hnodes with
  | nil => exact hR.pure _
  | cons hn _ ih =>
      exact hR.bind (related_patternMember hR h path hn) fun _ => hR.bind ih fun _ => hR.pure _

theorem related_declaratorNames (h : K c c') (keyword : String) (hn : S n n')
    (hk : n.kind = .variableDeclarator) (hassign : AssignsAlike S K R n) :
    R _ (declaratorNames keyword c n) (declaratorNames keyword c' n') := by
  have hvalue (v : Node) (hv : n.child? .value = some v) : AssignsAlike S K R v :=
    hassign.child (Node.isFunction_eq_false hk rfl) (Node.mem_children_of_child? hv)
  unfold declaratorNames
  rcases hR.child? hn .name with ⟨t, t', ht, ht', htt⟩ | ⟨ht, ht'⟩
  · have hinner := hR.enter h htt
    rw [ht, ht']
    dsimp only
    rw [← hR.kind htt]
    split
    · rename_i hkind
      rw [hR.text_of_kind htt hkind rfl]
      exact related_registered hR (related_bindingValue hR hinner keyword hn hvalue)
        (gives_bindingValue _ keyword _) _
    · have hpath : (n.child? .value).bind (loadedModule? c) =
          (n'.child? .value).bind (loadedModule? c') := by
        rcases hR.child? hn .value with ⟨v, v', hv, hv', hvv⟩ | ⟨hv, hv'⟩
        · rw [hv, hv', Option.bind_some, Option.bind_some, hR.loadedModule? hvv (hR.resolver h)]
        · rw [hv, hv', Option.bind_none, Option.bind_none]
      rw [hpath]
      exact related_patternNames hR hinner _ (hR.codeChildren htt)
    · exact hR.unhandled hinner htt
  · rw [ht, ht']
    exact hR.unhandled h hn

theorem related_declaratorsNames (h : K c c') (keyword : String) {nodes nodes' : List Node}
    (hnodes : List.Forall₂ S nodes nodes') (hassign : ∀ e ∈ nodes, AssignsAlike S K R e) :
    R _ (declaratorsNames keyword c nodes) (declaratorsNames keyword c' nodes') := by
  induction hnodes with
  | nil => exact hR.pure _
  | cons hn _ ih =>
      obtain ⟨hfirst, hothers⟩ := List.forall_mem_cons.1 hassign
      have hdeclarator := related_onlyKind hR h .variableDeclarator hn fun hk _ _ hc =>
        related_declaratorNames hR hc keyword hn hk hfirst
      exact hR.bind hdeclarator fun _ => hR.bind (ih hothers) fun _ => hR.pure _

theorem related_registerNamed (h : K c c') (hn : S n n') {k : Kind} (hk : n.kind = k)
    {x y : Build Decl} (hx : R _ x y) (hlocal : Gives IsLocal x)
    (hname : k.isNamedBy .name = true) :
    R _ (registerNamed c n x) (registerNamed c' n' y) := by
  unfold registerNamed
  rcases hR.child? hn .name with ⟨t, t', ht, ht', htt⟩ | ⟨ht, ht'⟩
  · simp only [ht, ht', hR.text_of_child? hn hk ht ht' hname]
    exact related_registered hR hx hlocal _
  · rw [ht, ht']
    exact hR.unhandled h hn

/-- Two alike nodes are declarations together. -/
theorem related_declarationNames? (h : K c c') (hn : S n n') (hassign : AssignsAlike S K R n) :
    (∃ x y, declarationNames? c n = some x ∧ declarationNames? c' n' = some y ∧ R _ x y) ∨
      (declarationNames? c n = none ∧ declarationNames? c' n' = none) := by
  have hdeclarators (hf : n.isFunction = false) (hk : n.kind.declaresVariables = true) :
      R _ (declaratorsNames (keywordOf n) c n.codeChildren)
        (declaratorsNames (keywordOf n') c' n'.codeChildren) := by
    rw [hR.keywordOf hn hk]
    exact related_declaratorsNames hR h _ (hR.codeChildren hn) fun e he =>
      hassign.child hf (Node.mem_children_of_codeChildren he)
  have hfunction := related_functionDecl hR.toCongruence h hn
  rw [declarationNames?, declarationNames?, ← hR.kind hn]
  split
  · rename_i hk
    exact .inl ⟨_, _, rfl, rfl, hdeclarators (Node.isFunction_eq_false hk rfl) (hk ▸ rfl)⟩
  · rename_i hk
    exact .inl ⟨_, _, rfl, rfl, hdeclarators (Node.isFunction_eq_false hk rfl) (hk ▸ rfl)⟩
  · rename_i hk
    exact .inl ⟨_, _, rfl, rfl, related_registerNamed hR h hn hk hfunction
      (gives_functionDecl c n) rfl⟩
  · rename_i hk
    exact .inl ⟨_, _, rfl, rfl, related_registerNamed hR h hn hk hfunction
      (gives_functionDecl c n) rfl⟩
  · rename_i hk
    have hfun := Node.isFunction_eq_false hk rfl
    refine .inl ⟨_, _, rfl, rfl, related_registerNamed hR h hn hk ?_ (gives_classValue c n) rfl⟩
    refine related_classValue hR.toCongruence h hn ?_
    intro body hbody d hd hmember v hv
    exact related_value hR.toCongruence v
      (hassign.contains (.member hfun hbody hd (.child hmember hv (.self v))))
  · exact .inr ⟨rfl, rfl⟩

theorem related_declarationNames (h : K c c') (hn : S n n') (hassign : AssignsAlike S K R n) :
    R _ (declarationNames c n) (declarationNames c' n') := by
  have hinner := hR.enter h hn
  rw [declarationNames, declarationNames]
  rcases related_declarationNames? hR hinner hn hassign with ⟨x, y, hx, hy, hxy⟩ | ⟨hx, hy⟩
  · simp only [hx, hy]
    exact hxy
  · simp only [hx, hy]
    exact hR.unhandled hinner hn

/-! ### Imports -/

theorem related_importSpecifier (path : String) (hn : S n n') (hk : n.kind = .importSpecifier) :
    R _ (importSpecifier path n) (importSpecifier path n') := by
  unfold importSpecifier
  rw [hR.map_text hn hk rfl, hR.map_text hn hk rfl]
  exact hR.register _ rfl

theorem related_importClause (h : K c c') (path : String) (hn : S n n') :
    R _ (importClause c path n) (importClause c' path n') := by
  have hinner := hR.enter h hn
  unfold importClause
  rw [← hR.kind hn]
  dsimp only
  split
  · rename_i hk
    rw [hR.text_of_kind hn hk rfl]
    exact hR.register _ rfl
  · rename_i hk
    rw [hR.namespaceName hn (hk ▸ rfl)]
    exact hR.register _ rfl
  · refine related_eachCode hR (hR.children hn) fun s s' _ hs => ?_
    exact related_onlyKind hR hinner _ hs fun hk _ _ _ => related_importSpecifier hR path hs hk
  · exact hR.unhandled hinner hn

theorem related_importStatement (h : K c c') (hn : S n n') (hk : n.kind = .importStatement) :
    R _ (importStatement c n) (importStatement c' n') := by
  unfold importStatement
  rw [hR.map_unquoted hn hk rfl]
  rcases hR.childOfKind? hn (k := .importClause) (by nofun) with ⟨d, d', hd, hd', hdd⟩ | ⟨hd, hd'⟩
  · simp only [hd, hd']
    exact related_eachCode hR (hR.children hdd) fun e e' _ he =>
      related_importClause hR h _ he
  · simp only [hd, hd']
    exact hR.notify

/-! ### Statements -/

theorem related_expressionStatement (h : K c c') (hn : S n n')
    (hf : n.isFunction = false) (hassign : AssignsAlike S K R n) :
    R _ (expressionStatement c n) (expressionStatement c' n') := by
  unfold expressionStatement
  rcases Node.head?_cases (hR.codeChildren hn) with ⟨e, e', he, he', hee⟩ | ⟨he, he'⟩
  · have hmem : e ∈ n.children := Node.mem_children_of_codeChildren (List.mem_of_mem_head? he)
    have hchild := hassign.child hf hmem
    have hinner := hR.enter h hee
    simp only [he, he', ← hR.kind hee]
    split
    · rename_i hk
      refine hchild e e' (.self e) hee hk (fun v hv => ?_) _ _ hinner
      exact related_value hR.toCongruence v (hchild.child (Node.isFunction_eq_false hk rfl) hv)
    · exact hR.pure _
    · exact hR.notify
    · exact hR.unhandled hinner hee
  · rw [he, he']
    exact hR.pure _

/-- Statements are related when the assignments in them are, and those that are exports. -/
theorem related_statement (h : K c c') (hn : S n n') (hassign : AssignsAlike S K R n)
    (hexport : n.kind = .exportStatement → ∀ c c' : Context, K c c' →
      R _ (exportStatement c n) (exportStatement c' n')) :
    R _ (statement c n) (statement c' n') := by
  have hinner := hR.enter h hn
  unfold statement
  rw [← hR.kind hn]
  dsimp only
  split
  · rename_i hk
    exact related_commentStatement hR (hR.text_of_kind hn hk rfl)
  · rename_i hk
    exact related_expressionStatement hR hinner hn (Node.isFunction_eq_false hk rfl) hassign
  · rename_i hk
    exact hexport hk _ _ hinner
  · rename_i hk
    exact related_importStatement hR hinner hn hk
  · exact hR.pure _
  · exact hR.pure _
  · rcases related_declarationNames? hR hinner hn hassign with ⟨x, y, hx, hy, hxy⟩ | ⟨hx, hy⟩
    · simp only [hx, hy]
      exact hR.bind hxy fun _ => hR.pure _
    · simp only [hx, hy]
      exact hR.unhandled hinner hn

end Ambient.Build
