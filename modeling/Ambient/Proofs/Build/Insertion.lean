import Ambient.Proofs.Build.Beside
import Ambient.Proofs.Build.Kept
import Ambient.Proofs.Source.Statement
import Mathlib.Logic.Relation

/-!
# Line comments put into a source

`Node.Inserts` puts one line comment among the children of a host, anywhere but inside the parts of
a class or member that are read as written.  What holds the comment may cover another text, and
every node may move.  In the tree of a source no name can hold a comment, so the two nodes are alike
to every reader: the pass over the second tree leaves the same module, or fails for the same reason.
The tree stays legible, so the same holds after any number of insertions.
-/

namespace Ambient

namespace Node

/-- The second node is the first one with one more line comment in it.  What holds the comment may
have another text; the other nodes say what they said, wherever they stand now. -/
inductive Inserts : Node → Node → Prop
  /-- The comment is put among the children of a host. -/
  | here {n n' comment : Node} {before behind before' behind' : List Node}
      (hkind : n.kind = n'.kind) (hhost : n.kind.isHost = true) (hcomment : comment.IsLineComment)
      (hchildren : n.children = before ++ behind)
      (hchildren' : n'.children = before' ++ comment :: behind')
      (hbefore : before.map code = before'.map code)
      (hbehind : behind.map code = behind'.map code) : Inserts n n'
  /-- The comment is put into a child, unless the node is read as written. -/
  | inside {n n' c c' : Node} {before behind before' behind' : List Node}
      (hkind : n.kind = n'.kind) (hopen : n.kind.isSealed = false) (hc : Inserts c c')
      (hrole : c.role = c'.role) (hchildren : n.children = before ++ c :: behind)
      (hchildren' : n'.children = before' ++ c' :: behind')
      (hbefore : before.map code = before'.map code)
      (hbehind : behind.map code = behind'.map code) : Inserts n n'

/-- The second node says the same as the first one, or the same with one more line comment in it. -/
def Changed (n n' : Node) : Prop :=
  n.SameCode n' ∨ n.Inserts n'

/-- The first node is legible, and the second one is what it was changed to. -/
def Revised (n n' : Node) : Prop :=
  n.Legible ∧ n.Changed n'

/-! ### Children -/

namespace Padded

variable {host : Bool} {S T : Node → Node → Prop} {ns ns' ms ms' : List Node}

theorem imp (hST : ∀ n ∈ ns, ∀ n', S n n' → T n n') (h : Padded host S ns ns') :
    Padded host T ns ns' := by
  induction h with
  | nil => exact .nil
  | cons hn hrole _ ih =>
      obtain ⟨hfirst, hothers⟩ := List.forall_mem_cons.1 hST
      exact .cons (hfirst _ hn) hrole (ih hothers)
  | pad hhost hc _ ih => exact .pad hhost hc (ih hST)

theorem append (h : Padded host S ns ns') (h' : Padded host S ms ms') :
    Padded host S (ns ++ ms) (ns' ++ ms') := by
  induction h with
  | nil => exact h'
  | cons hn hrole _ ih => exact .cons hn hrole ih
  | pad hhost hc _ ih => exact .pad hhost hc ih

/-- Every node of the second list has a counterpart or is a comment. -/
theorem exists_of_mem (h : Padded host S ns ns') {c' : Node} (hc' : c' ∈ ns') :
    (∃ c ∈ ns, S c c' ∧ c.role = c'.role) ∨ (host = true ∧ c'.IsLineComment) := by
  induction h with
  | nil => cases hc'
  | @cons n n' ns ns' hn hrole _ ih =>
      rcases List.mem_cons.1 hc' with rfl | hmem
      · exact .inl ⟨n, List.mem_cons_self .., hn, hrole⟩
      · rcases ih hmem with ⟨c, hc, hcc⟩ | hcomment
        · exact .inl ⟨c, List.mem_cons_of_mem _ hc, hcc⟩
        · exact .inr hcomment
  | pad hhost hd _ ih =>
      rcases List.mem_cons.1 hc' with rfl | hmem
      · exact .inr ⟨hhost, hd⟩
      · exact ih hmem

end Padded

theorem padded_changed {host : Bool} {ns ns' : List Node} (h : ns.map code = ns'.map code) :
    Padded host Changed ns ns' := by
  have hsame : Padded host SameCode ns ns' := padded_sameCode h
  exact hsame.imp fun _ _ _ hn => .inl hn

theorem matching_changed : Matching Changed where
  kind h := by
    rcases h with h | h
    · exact h.kind
    · cases h with
      | here hkind => exact hkind
      | inside hkind => exact hkind
  children {n n'} h := by
    rcases h with h | h
    · exact padded_changed h.children
    · cases h with
      | here _ hhost hcomment hchildren hchildren' hbefore hbehind =>
          rw [hchildren, hchildren']
          exact (padded_changed hbefore).append (.pad hhost hcomment (padded_changed hbehind))
      | inside _ _ hc hrole hchildren hchildren' hbefore hbehind =>
          rw [hchildren, hchildren']
          exact (padded_changed hbefore).append (.cons (.inr hc) hrole (padded_changed hbehind))

/-! ### Names hold no comments -/

theorem role_of_child? {n c : Node} {r : Role} (h : n.child? r = some c) : c.role = some r := by
  have hrole : (c.role == some r) = true := List.find?_some (p := fun c : Node => c.role == some r) h
  exact eq_of_beq hrole

theorem kind_of_childOfKind? {n c : Node} {k : Kind} (h : n.childOfKind? k = some c) :
    c.kind = k := by
  have hkind : (c.kind == k) = true := List.find?_some (p := fun c : Node => c.kind == k) h
  exact eq_of_beq hkind

/-- Nothing can be put into a closed node. -/
theorem Legible.not_inserts {n n' : Node} (hn : n.Legible) (hk : n.kind.isClosed = true) :
    ¬ n.Inserts n' := by
  intro h
  induction h with
  | @here n n' comment _ _ _ _ _ hhost =>
      rw [Kind.isHost_of_isClosed hk] at hhost
      cases hhost
  | @inside n n' c c' before behind _ _ _ hopen _ _ hchildren _ _ _ ih =>
      have hc : c ∈ n.children := by simp [hchildren]
      rw [Kind.isClosed, hopen, Bool.or_false, Bool.or_eq_true] at hk
      rcases hk with hleaf | hstring
      · rw [hn.own.leaf hleaf] at hc
        cases hc
      · have hleaf := hn.own.string (eq_of_beq hstring) c hc
        exact ih (hn.inner c hc) (Kind.isClosed_of_isLeaf hleaf)

theorem Revised.sameCode {n n' : Node} (h : n.Revised n') (hk : n.kind.isClosed = true) :
    n.SameCode n' :=
  h.2.resolve_right (h.1.not_inserts hk)

theorem matching_revised : Matching Revised where
  kind h := matching_changed.kind h.2
  children h := (matching_changed.children h.2).imp fun c hc _ hcc => ⟨h.1.inner c hc, hcc⟩

/-- What is written out holds no comments. -/
theorem Revised.sameCode_of_isLiteral {n n' : Node} (h : n.Revised n')
    (hn : Build.isLiteral n = true) : n.SameCode n' := by
  rw [Build.isLiteral] at hn
  split at hn
  · rename_i hk
    have hk := eq_of_beq hk
    rw [Bool.and_eq_true, Option.any_eq_true, Option.any_eq_true] at hn
    obtain ⟨-, m, hm, hnumber⟩ := hn
    have hclosed := h.1.own.number hk hm (eq_of_beq hnumber)
    refine h.2.resolve_right fun hinserts => ?_
    cases hinserts with
    | here _ hhost =>
        rw [hk] at hhost
        cases hhost
    | @inside _ _ c _ _ _ _ _ _ _ hc _ hchildren =>
        have hmem : c ∈ n.children := by simp [hchildren]
        exact (h.1.inner c hmem).not_inserts (hclosed c hmem) hc
  · refine h.sameCode ?_
    simp only [List.contains_eq_mem, decide_eq_true_eq, List.mem_cons, List.not_mem_nil,
      or_false] at hn
    rcases hn with hk | hk | hk | hk <;> rw [hk] <;> rfl

theorem Revised.baseName? {n n' : Node} (h : n.Revised n') :
    Build.baseName? n = Build.baseName? n' := by
  rw [Build.baseName?, Build.baseName?]
  rcases matching_revised.childOfKind? h (k := .classHeritage) (by decide) with
    ⟨c, c', hc, hc', hcc⟩ | ⟨hc, hc'⟩
  · have hsame := hcc.sameCode (by rw [kind_of_childOfKind? hc]; rfl)
    rw [hc, hc', Option.bind_some, Option.bind_some]
    rcases head?_cases (matching_sameCode.codeChildren hsame) with ⟨b, b', hb, hb', hbb⟩ | ⟨hb, hb'⟩
    · rw [hb, hb', Option.bind_some, Option.bind_some, hbb.kind, hbb.text]
    · rw [hb, hb']
  · rw [hc, hc']

/-- A changed declaration begins with the same word. -/
theorem Revised.firstWord {n n' : Node} (h : n.Revised n') (hk : n.kind.declaresVariables = true) :
    ∃ word word', n.children.head? = some word ∧ n'.children.head? = some word' ∧
      word.kind.isLeaf = true ∧ word.text ∈ declaringWords ∧ word.SameCode word' := by
  obtain ⟨word, hword, hleaf, htext⟩ := h.1.own.keyword hk
  have hchildren := matching_revised.children h
  rw [Kind.isHost_of_declaresVariables hk] at hchildren
  rcases head?_cases hchildren.forall₂ with ⟨c, c', hc, hc', hcc⟩ | ⟨hc, -⟩
  · rw [Option.mem_def.1 hword, Option.some.injEq] at hc
    subst hc
    exact ⟨word, c', hword, hc', hleaf, htext, hcc.sameCode (Kind.isClosed_of_isLeaf hleaf)⟩
  · rw [Option.mem_def.1 hword] at hc
    cases hc

/-- A legible node and what it was changed to are alike to every reader. -/
theorem likeness_revised : Likeness Revised where
  toMatching := matching_revised
  word {n n'} h hk := by
    refine (h.sameCode ?_).text
    rcases Kind.isLeaf_of_isWord hk with hleaf | hstring
    · exact Kind.isClosed_of_isLeaf hleaf
    · rw [hstring]
      rfl
  name {n n'} h r hk := by
    rcases matching_revised.child? h r with ⟨c, c', hc, hc', hcc⟩ | ⟨hc, hc'⟩
    · have hclosed := h.1.own.named hk c (mem_children_of_child? hc) (role_of_child? hc)
      rw [hc, hc', Option.map_some, Option.map_some, (hcc.sameCode hclosed).text]
    · rw [hc, hc']
  namespaceName {n n'} h hk := by
    rcases head?_cases (matching_revised.codeChildren h) with ⟨c, c', hc, hc', hcc⟩ | ⟨hc, hc'⟩
    · have hmem := mem_children_of_codeChildren (List.mem_of_mem_head? hc)
      rw [hc, hc', Option.map_some, Option.map_some,
        (hcc.sameCode (h.1.own.namespaceName hk c hmem)).text]
    · rw [hc, hc']
  keyword {n n'} h hk := by
    rcases h.firstWord hk with ⟨c, c', hc, hc', -, -, hcc⟩
    rw [hc, hc', Option.map_some, Option.map_some, hcc.text]
  literal h hn := (h.sameCode_of_isLiteral hn).text
  baseName? h := h.baseName?

/-! ### The tree stays legible -/

theorem IsLineComment.legible {c : Node} (h : c.IsLineComment) : c.Legible := by
  refine legible_of_children_eq_nil h.children (by rw [h.kind]; rfl) fun hk => ?_
  rw [h.kind] at hk
  cases hk

theorem IsLineComment.isLeaf {c : Node} (h : c.IsLineComment) : c.kind.isLeaf = true := by
  rw [h.kind]
  rfl

theorem Revised.lucid {n n' : Node} (h : n.Revised n') : n'.Lucid := by
  have hkind : n.kind = n'.kind := matching_revised.kind h
  have hchildren := matching_revised.children h
  have hown := h.1.own
  have hclosed (hall : ∀ c ∈ n.children, c.kind.isClosed = true) :
      ∀ c' ∈ n'.children, c'.kind.isClosed = true := by
    intro c' hc'
    rcases hchildren.exists_of_mem hc' with ⟨c, hc, hcc, -⟩ | ⟨-, hcomment⟩
    · rw [← matching_revised.kind hcc]
      exact hall c hc
    · exact Kind.isClosed_of_isLeaf hcomment.isLeaf
  refine ⟨fun hk => ?_, fun hk => ?_, fun hk c' hc' => ?_, fun {r} hk c' hc' hrole => ?_,
    fun hk => hclosed (hown.namespaceName (hkind ▸ hk)), fun hk {m'} hm' hnumber => ?_,
    fun hk => ?_, fun hk c' hc' hrole => ?_⟩
  · rw [← hkind] at hk
    rw [← (h.sameCode (by rw [hk]; rfl)).text]
    exact hown.identifier hk
  · rw [← hkind] at hk
    have hsame := (h.sameCode (Kind.isClosed_of_isLeaf hk)).children
    rw [hown.leaf hk, List.map_nil] at hsame
    exact List.map_eq_nil_iff.1 hsame.symm
  · rcases hchildren.exists_of_mem hc' with ⟨c, hc, hcc, -⟩ | ⟨-, hcomment⟩
    · rw [← matching_revised.kind hcc]
      exact hown.string (hkind.trans hk) c hc
    · exact hcomment.isLeaf
  · rcases hchildren.exists_of_mem hc' with ⟨c, hc, hcc, hrole'⟩ | ⟨-, hcomment⟩
    · rw [← matching_revised.kind hcc]
      exact hown.named (hkind ▸ hk) c hc (hrole'.trans hrole)
    · rw [hcomment.role] at hrole
      cases hrole
  · rcases matching_revised.child? h .operand with ⟨m, m'', hm, hm'', hmm⟩ | ⟨-, hm''⟩
    · rw [hm', Option.some.injEq] at hm''
      rw [hm'', ← matching_revised.kind hmm] at hnumber
      exact hclosed (hown.number (hkind.trans hk) hm hnumber)
    · rw [hm'] at hm''
      cases hm''
  · obtain ⟨word, word', -, hword', hleaf, htext, hsame⟩ := h.firstWord (hkind ▸ hk)
    exact ⟨word', hword', hsame.kind ▸ hleaf, hsame.text ▸ htext⟩
  · rcases hchildren.exists_of_mem hc' with ⟨c, hc, hcc, hrole'⟩ | ⟨-, hcomment⟩
    · rw [← matching_revised.kind hcc]
      exact hown.classBody (hkind ▸ hk) c hc (hrole'.trans hrole)
    · rw [hcomment.role] at hrole
      cases hrole

/-- A changed node is legible again. -/
theorem Legible.of_changed {n n' : Node} (hn : n.Legible) (h : n.Changed n') : n'.Legible := by
  induction hn generalizing n' with
  | @mk n own inner ih =>
      refine ⟨Revised.lucid ⟨⟨own, inner⟩, h⟩, fun c' hc' => ?_⟩
      rcases (matching_changed.children h).exists_of_mem hc' with ⟨c, hc, hcc, -⟩ | ⟨-, hcomment⟩
      · exact ih c hc hcc
      · exact hcomment.legible

end Node

namespace Build

/-! ### Whole sources -/

/-- A changed tree is passed with the same result. -/
theorem result_ofTree_of_changed (resolver : Resolver) (modName : String) {tree tree' : Node}
    (hlegible : tree.Legible) (h : tree.Changed tree') :
    (ofTree resolver modName tree').result.mapError Failure.unplaced =
      (ofTree resolver modName tree).result.mapError Failure.unplaced := by
  have hrevised : tree.Revised tree' := ⟨hlegible, h⟩
  have hfollows : Follows [] (statements { resolver } [] tree.children)
      (statements { resolver } [] tree'.children) :=
    follows_statements (by nofun) Node.likeness_revised (.refl _) rfl
      (Node.matching_revised.children hrevised)
  obtain ⟨hresult, hbeside⟩ :=
    hfollows.run (start modName) (start modName) (.refl _) (by nofun)
  rcases hrun : runFrom (statements { resolver } [] tree.children) (start modName) with
    ⟨f | ⟨⟩, s⟩ <;>
    rcases hrun' : runFrom (statements { resolver } [] tree'.children) (start modName) with
      ⟨f' | ⟨⟩, s'⟩ <;>
    rw [hrun, hrun'] at hresult hbeside
  · rw [result_ofTree_of_error hrun, result_ofTree_of_error hrun']
    exact congrArg Except.error (Except.error.inj hresult).symm
  · cases hresult
  · cases hresult
  · have hmodule : s.module = s'.module := hbeside.module_eq
    rw [result_ofTree hrun, result_ofTree hrun', hmodule]

/-- **Line comments are passed over.**  Put any number of line comments into the tree of a source,
wherever comments may stand: the result is the same module, or the same failure but for the line it
names. -/
theorem line_comments_passed_over (resolver : Resolver) (modName : String) {source : String}
    {tree tree' : Node} (htree : Source.parse? source = some tree)
    (h : Relation.ReflTransGen Node.Inserts tree tree') :
    (ofTree resolver modName tree').result.mapError Failure.unplaced =
      (ofTree resolver modName tree).result.mapError Failure.unplaced := by
  have hlegible := Source.legible_of_parse? htree
  -- The invariant along the insertions: the tree is legible, and it has the result of the first one.
  suffices hinv : tree'.Legible ∧ (ofTree resolver modName tree').result.mapError Failure.unplaced =
      (ofTree resolver modName tree).result.mapError Failure.unplaced from hinv.2
  induction h with
  | refl => exact ⟨hlegible, rfl⟩
  | tail _ hstep ih =>
      have hchanged : Node.Changed _ _ := .inr hstep
      exact ⟨ih.1.of_changed hchanged,
        (result_ofTree_of_changed resolver modName ih.1 hchanged).trans ih.2⟩

/-- `function f(a){}` with a comment before its parameter. -/
theorem line_comments_passed_over_parameter :
    ∃ tree tree', Source.parse? "function f(a)\x7b\x7d" = some tree ∧
      Source.parse? "function f(//x\na)\x7b\x7d" = some tree' ∧
      Relation.ReflTransGen Node.Inserts tree tree' ∧
      (ofTree {} "m" tree').result.mapError Failure.unplaced =
        (ofTree {} "m" tree).result.mapError Failure.unplaced := by
  let wordAt (k : Kind) (text : String) (line offset : Nat) : Node :=
    ⟨k, none, text, line, offset, []⟩
  let opening := wordAt (.token "(") "(" 1 10
  let parameters : Node := ⟨.formalParameters, some .parameters, "(a)", 1, 10,
    [opening, wordAt .identifier "a" 1 11, wordAt (.token ")") ")" 1 12]⟩
  let parameters' : Node := ⟨.formalParameters, some .parameters, "(//x\na)", 1, 10,
    [opening, wordAt .comment "//x" 1 11, wordAt .identifier "a" 2 15,
      wordAt (.token ")") ")" 2 16]⟩
  let body (line offset : Nat) : Node := ⟨.statementBlock, some .body, "\x7b\x7d", line, offset,
    [wordAt (.token "\x7b") "\x7b" line offset, wordAt (.token "\x7d") "\x7d" line (offset + 1)]⟩
  let named := [wordAt (.token "function") "function" 1 0, (wordAt .identifier "f" 1 9).as .name]
  let function : Node := ⟨.functionDeclaration, none, "function f(a)\x7b\x7d", 1, 0,
    named ++ [parameters, body 1 13]⟩
  let function' : Node := ⟨.functionDeclaration, none, "function f(//x\na)\x7b\x7d", 1, 0,
    named ++ [parameters', body 2 17]⟩
  let tree : Node := ⟨.program, none, "function f(a)\x7b\x7d", 1, 0, [function]⟩
  let tree' : Node := ⟨.program, none, "function f(//x\na)\x7b\x7d", 1, 0, [function']⟩
  have htree : Source.parse? "function f(a)\x7b\x7d" = some tree := by decide +kernel
  have htree' : Source.parse? "function f(//x\na)\x7b\x7d" = some tree' := by decide +kernel
  have hparameters : parameters.Inserts parameters' :=
    @Node.Inserts.here _ _ _ [opening] _ [opening] _ rfl rfl ⟨rfl, rfl, by decide, rfl⟩
      rfl rfl rfl rfl
  have hfunction : function.Inserts function' :=
    @Node.Inserts.inside _ _ _ _ named _ named _ rfl rfl hparameters rfl rfl rfl rfl rfl
  have hinserts : tree.Inserts tree' :=
    @Node.Inserts.inside _ _ _ _ [] _ [] _ rfl rfl hfunction rfl rfl rfl rfl rfl
  exact ⟨tree, tree', htree, htree', .single hinserts,
    line_comments_passed_over {} "m" htree (.single hinserts)⟩

end Build

end Ambient
