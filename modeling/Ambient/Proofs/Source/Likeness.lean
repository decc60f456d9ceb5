import Ambient.Build.Statement
import Ambient.Proofs.Text.Opening
import Mathlib.Data.List.Forall2

/-!
# Alike nodes

When a relation between nodes makes them alike to every reader.  Related nodes have the same kind,
and their children are related one by one, where a line comment may stand between the children of
the second node if their parent is one that hosts comments.  The texts agree where a reader looks at
them: in words, in the names of declarations and members, in literals.  Everything that a reader
looks up in one node is then found in the other, or something alike.
-/

namespace Ambient

namespace Kind

/-- Constructs that comments may be put into without parting what is read as one text. -/
def isHost : Kind → Bool
  | .program | .classBody | .object | .formalParameters | .statementBlock | .arguments
  | .objectPattern | .importClause | .namedImports | .exportClause | .returnStatement
  | .parenthesizedExpression | .expressionStatement => true
  | _ => false

/-- Constructs whose own text is read. -/
def isWord : Kind → Bool
  | .identifier | .propertyIdentifier | .thisValue | .shorthandPropertyIdentifier
  | .shorthandPropertyIdentifierPattern | .string | .comment => true
  | _ => false

/-- The construct is named by the text of its child in the role. -/
def isNamedBy : Kind → Role → Bool
  | .functionDeclaration, .name | .generatorFunctionDeclaration, .name | .classDeclaration, .name
  | .methodDefinition, .name | .fieldDefinition, .property | .pair, .key | .pairPattern, .key
  | .importSpecifier, .name | .importSpecifier, .renamed | .exportSpecifier, .name
  | .exportSpecifier, .renamed | .importStatement, .source | .exportStatement, .source => true
  | _, _ => false

/-- Declarations of variables, which begin with their keyword. -/
def declaresVariables : Kind → Bool
  | .variableDeclaration | .lexicalDeclaration => true
  | _ => false

/-- The construct binds the names of a module to one name, the text of its first part. -/
def isNamespace : Kind → Bool
  | .namespaceImport | .namespaceExport => true
  | _ => false

end Kind

namespace Node

/-- A comment up to the end of its line. -/
structure IsLineComment (n : Node) : Prop where
  kind : n.kind = .comment
  role : n.role = none
  text : Text.startsWith "//" n.text = true
  children : n.children = []

/-- The second list holds nodes related to those of the first one, in the same roles and in the same
order, and line comments between them where `host` allows it. -/
inductive Padded (host : Bool) (S : Node → Node → Prop) : List Node → List Node → Prop
  | nil : Padded host S [] []
  | cons {n n' : Node} {ns ns' : List Node} (hn : S n n') (hrole : n.role = n'.role)
      (hns : Padded host S ns ns') : Padded host S (n :: ns) (n' :: ns')
  | pad {c : Node} {ns ns' : List Node} (hhost : host = true) (hc : c.IsLineComment)
      (hns : Padded host S ns ns') : Padded host S ns (c :: ns')

/-- A relation under which nodes have the same structure, line comments aside. -/
structure Matching (S : Node → Node → Prop) : Prop where
  kind {n n' : Node} (h : S n n') : n.kind = n'.kind
  children {n n' : Node} (h : S n n') : Padded n.kind.isHost S n.children n'.children

/-- A relation under which nodes are alike to every reader. -/
structure Likeness (S : Node → Node → Prop) : Prop extends Matching S where
  word {n n' : Node} (h : S n n') (hk : n.kind.isWord = true) : n.text = n'.text
  name {n n' : Node} (h : S n n') {r : Role} (hk : n.kind.isNamedBy r = true) :
    (n.child? r).map Node.text = (n'.child? r).map Node.text
  namespaceName {n n' : Node} (h : S n n') (hk : n.kind.isNamespace = true) :
    n.codeChildren.head?.map Node.text = n'.codeChildren.head?.map Node.text
  keyword {n n' : Node} (h : S n n') (hk : n.kind.declaresVariables = true) :
    n.children.head?.map Node.text = n'.children.head?.map Node.text
  literal {n n' : Node} (h : S n n') (hn : Build.isLiteral n = true) : n.text = n'.text
  baseName? {n n' : Node} (h : S n n') : Build.baseName? n = Build.baseName? n'

namespace IsLineComment

variable {c : Node} (h : c.IsLineComment)

include h

theorem isComment : c.isComment = true := by
  rw [Node.isComment, h.kind]
  rfl

theorem isNamed : c.isNamed = true := by
  rw [Node.isNamed, h.kind]
  rfl

theorem not_isBlock : Doc.isBlock c.text = false := by
  have hslashes := Text.startsWith_iff.1 h.text
  rw [Doc.isBlock, Bool.eq_false_iff, Ne, Text.startsWith_iff]
  rintro hstar
  obtain ⟨rest, hrest⟩ := hslashes
  obtain ⟨others, hothers⟩ := hstar
  rw [← hrest] at hothers
  cases hothers

theorem returnsValue : c.returnsValue = false := by
  obtain ⟨hk, -, -, hchildren⟩ := h
  obtain ⟨k, r, t, l, s, cs⟩ := c
  cases hk
  cases hchildren
  rfl

theorem anyReturnsValue_cons (ns : List Node) : anyReturnsValue (c :: ns) = anyReturnsValue ns := by
  rw [anyReturnsValue.eq_def (c :: ns)]
  simp only [h.returnsValue, Bool.and_false, Bool.false_or]

end IsLineComment

namespace Padded

variable {host : Bool} {S : Node → Node → Prop} {ns ns' : List Node}

/-- Without comments the nodes are related one by one. -/
theorem forall₂ (h : Padded false S ns ns') : List.Forall₂ S ns ns' := by
  induction h with
  | nil => exact .nil
  | cons hn _ _ ih => exact .cons hn ih
  | pad hhost => cases hhost

/-- A child is found on both sides or on neither, when a comment is not what is looked for. -/
theorem find?_cases {p : Node → Bool} (hp : ∀ n n', S n n' → n.role = n'.role → p n = p n')
    (hcomment : ∀ c, IsLineComment c → p c = false) (h : Padded host S ns ns') :
    (∃ c c', ns.find? p = some c ∧ ns'.find? p = some c' ∧ S c c') ∨
      (ns.find? p = none ∧ ns'.find? p = none) := by
  induction h with
  | nil => exact .inr ⟨rfl, rfl⟩
  | @cons n n' ns ns' hn hrole _ ih =>
      rw [List.find?_cons, List.find?_cons, ← hp n n' hn hrole]
      cases p n with
      | true => exact .inl ⟨n, n', rfl, rfl, hn⟩
      | false => exact ih
  | pad _ hc _ ih => rwa [List.find?_cons, hcomment _ hc]

/-- The nodes that are not comments, among those that satisfy `p`, are related one by one. -/
theorem filter {p : Node → Bool} (hp : ∀ n n', S n n' → p n = p n')
    (hcomment : ∀ c, IsLineComment c → p c = false) (h : Padded host S ns ns') :
    List.Forall₂ S (ns.filter p) (ns'.filter p) := by
  induction h with
  | nil => exact .nil
  | @cons n n' ns ns' hn _ _ ih =>
      rw [List.filter_cons, List.filter_cons, ← hp n n' hn]
      split
      · exact .cons hn ih
      · exact ih
  | pad _ hc _ ih =>
      rw [List.filter_cons, hcomment _ hc]
      exact ih

theorem any_eq {p : Node → Bool} (hp : ∀ n n', S n n' → p n = p n')
    (hcomment : ∀ c, IsLineComment c → p c = false) (h : Padded host S ns ns') :
    ns.any p = ns'.any p := by
  induction h with
  | nil => rfl
  | cons hn _ _ ih => rw [List.any_cons, List.any_cons, hp _ _ hn, ih]
  | pad _ hc _ ih => rw [List.any_cons, hcomment _ hc, Bool.false_or, ih]

theorem flatMap_eq {α : Type} {f : Node → List α} (hf : ∀ n n', S n n' → f n = f n')
    (hcomment : ∀ c, IsLineComment c → f c = []) (h : Padded host S ns ns') :
    ns.flatMap f = ns'.flatMap f := by
  induction h with
  | nil => rfl
  | cons hn _ _ ih => rw [List.flatMap_cons, List.flatMap_cons, hf _ _ hn, ih]
  | pad _ hc _ ih => rw [List.flatMap_cons, hcomment _ hc, List.nil_append, ih]

end Padded

theorem head?_cases {S : Node → Node → Prop} {ns ns' : List Node} (h : List.Forall₂ S ns ns') :
    (∃ c c', ns.head? = some c ∧ ns'.head? = some c' ∧ S c c') ∨
      (ns.head? = none ∧ ns'.head? = none) := by
  cases h with
  | nil => exact .inr ⟨rfl, rfl⟩
  | cons hc _ => exact .inl ⟨_, _, rfl, rfl, hc⟩

namespace Matching

variable {S : Node → Node → Prop} {n n' : Node}

/-! ### Looking up children -/

theorem isNamed (hS : Matching S) (h : S n n') : n.isNamed = n'.isNamed := by
  rw [Node.isNamed, Node.isNamed, hS.kind h]

theorem isComment (hS : Matching S) (h : S n n') : n.isComment = n'.isComment := by
  rw [Node.isComment, Node.isComment, hS.kind h]

theorem filter_code (hS : Matching S) {host : Bool} {ns ns' : List Node}
    (h : Padded host S ns ns') :
    List.Forall₂ S (ns.filter fun c => c.isNamed && !c.isComment)
      (ns'.filter fun c => c.isNamed && !c.isComment) := by
  refine h.filter (fun c c' hcc => by rw [hS.isNamed hcc, hS.isComment hcc]) fun c hc => ?_
  rw [hc.isComment, Bool.not_true, Bool.and_false]

variable (hS : Matching S) (h : S n n')

include hS h

theorem child? (r : Role) :
    (∃ c c', n.child? r = some c ∧ n'.child? r = some c' ∧ S c c') ∨
      (n.child? r = none ∧ n'.child? r = none) := by
  refine (hS.children h).find?_cases (fun c c' _ hrole => by rw [hrole]) fun c hc => ?_
  rw [hc.role]
  rfl

theorem childOfKind? {k : Kind} (hk : k ≠ .comment) :
    (∃ c c', n.childOfKind? k = some c ∧ n'.childOfKind? k = some c' ∧ S c c') ∨
      (n.childOfKind? k = none ∧ n'.childOfKind? k = none) := by
  refine (hS.children h).find?_cases (fun c c' hcc _ => by rw [hS.kind hcc]) fun c hc => ?_
  rw [hc.kind]
  exact beq_false_of_ne hk.symm

theorem any_kind {k : Kind} (hk : k ≠ .comment) :
    (n.children.any (·.kind == k)) = n'.children.any (·.kind == k) := by
  refine (hS.children h).any_eq (fun c c' hcc => by rw [hS.kind hcc]) fun c hc => ?_
  rw [hc.kind]
  exact beq_false_of_ne hk.symm

theorem codeChildren : List.Forall₂ S n.codeChildren n'.codeChildren :=
  hS.filter_code (hS.children h)

theorem any_child? (r : Role) {p : Node → Bool} (hp : ∀ c c' : Node, S c c' → p c = p c') :
    (n.child? r).any p = (n'.child? r).any p := by
  rcases hS.child? h r with ⟨c, c', hc, hc', hcc⟩ | ⟨hc, hc'⟩
  · rw [hc, hc', Option.any_some, Option.any_some, hp c c' hcc]
  · rw [hc, hc']

end Matching

/-! ### What is computed from a node -/

mutual

theorem Matching.returnsValue {S : Node → Node → Prop} (hS : Matching S) :
    (n n' : Node) → S n n' → n.returnsValue = n'.returnsValue
  | ⟨k, r, t, l, s, cs⟩, ⟨k', r', t', l', s', cs'⟩, h => by
      have hk : k = k' := hS.kind h
      have hchildren : Padded k.isHost S cs cs' := hS.children h
      have hcode : (cs.any fun c => c.isNamed && !c.isComment) =
          cs'.any fun c => c.isNamed && !c.isComment := by
        refine hchildren.any_eq (fun c c' hcc => ?_) fun c hc => ?_
        · rw [hS.isNamed hcc, hS.isComment hcc]
        · rw [hc.isComment, Bool.not_true, Bool.and_false]
      rw [Node.returnsValue, Node.returnsValue, ← hk, hcode,
        Matching.anyReturnsValue hS cs cs' hchildren]

theorem Matching.anyReturnsValue {S : Node → Node → Prop} (hS : Matching S) {host : Bool} :
    (ns ns' : List Node) → Padded host S ns ns' → anyReturnsValue ns = anyReturnsValue ns'
  | [], ns', h => by
      induction ns' with
      | nil => rfl
      | cons c ns' ih =>
          cases h with
          | pad hhost hc hns => rw [ih hns, hc.anyReturnsValue_cons]
  | n :: ns, ns', h => by
      induction ns' with
      | nil => cases h
      | cons c ns' ih =>
          cases h with
          | cons hn hrole hns =>
              rw [Node.anyReturnsValue, Node.anyReturnsValue, hS.isNamed hn,
                Matching.returnsValue hS n c hn, Matching.anyReturnsValue hS ns ns' hns]
          | pad hhost hc hns => rw [ih hns, hc.anyReturnsValue_cons]

end

namespace Matching

variable {S : Node → Node → Prop} (hS : Matching S) {n n' : Node} (h : S n n')

include hS h

theorem givesValue : n.givesValue = n'.givesValue := by
  rw [Node.givesValue, Node.givesValue]
  rcases hS.child? h .body with ⟨b, b', hb, hb', hbb⟩ | ⟨hb, hb'⟩
  · simp only [hb, hb', hS.kind hbb, hS.anyReturnsValue _ _ (hS.children hbb)]
  · rw [hb, hb']

theorem parameterNodes : List.Forall₂ S n.parameterNodes n'.parameterNodes := by
  rw [Node.parameterNodes, Node.parameterNodes]
  rcases hS.child? h .parameters with ⟨ps, ps', hps, hps', hpp⟩ | ⟨hps, hps'⟩
  · rw [hps, hps']
    exact hS.codeChildren hpp
  · rw [hps, hps']
    rcases hS.child? h .parameter with ⟨p, p', hp, hp', hpp⟩ | ⟨hp, hp'⟩
    · rw [hp, hp']
      exact .cons hpp .nil
    · rw [hp, hp']
      exact .nil

theorem modifierWords : Build.modifierWords n = Build.modifierWords n' := by
  refine (hS.children h).flatMap_eq (fun c c' hcc => ?_) fun c hc => ?_
  · rw [hS.kind hcc]
  · rw [hc.kind]

theorem isLiteral : Build.isLiteral n = Build.isLiteral n' := by
  have hoperator := hS.any_child? h .operator (p := (·.kind == .token "-"))
    fun c c' hcc => by rw [hS.kind hcc]
  have hoperand := hS.any_child? h .operand (p := (·.kind == .number))
    fun c c' hcc => by rw [hS.kind hcc]
  rw [Build.isLiteral, Build.isLiteral, hS.kind h, hoperator, hoperand]

end Matching

/-! ### Texts -/

namespace Likeness

variable {S : Node → Node → Prop} (hS : Likeness S) {n n' : Node} (h : S n n')

include hS h

theorem text_of_kind {k : Kind} (hn : n.kind = k) (hk : k.isWord = true) :
    n.text = n'.text :=
  hS.word h (hn ▸ hk)

theorem map_text {k : Kind} {r : Role} (hn : n.kind = k) (hk : k.isNamedBy r = true) :
    (n.child? r).map Node.text = (n'.child? r).map Node.text :=
  hS.name h (hn ▸ hk)

/-- The names in the role have the same text. -/
theorem text_of_child? {k : Kind} {r : Role} {c c' : Node} (hn : n.kind = k)
    (hc : n.child? r = some c) (hc' : n'.child? r = some c')
    (hk : k.isNamedBy r = true) : c.text = c'.text := by
  have htext := hS.map_text h hn hk
  rw [hc, hc'] at htext
  exact Option.some.inj htext

theorem keywordOf (hk : n.kind.declaresVariables = true) :
    Build.keywordOf n = Build.keywordOf n' := by
  rw [Build.keywordOf, Build.keywordOf, hS.keyword h hk]

/-- The quotes of a name are taken off alike. -/
theorem map_unquoted {k : Kind} {r : Role} (hn : n.kind = k)
    (hk : k.isNamedBy r = true) :
    (n.child? r).map Node.unquoted = (n'.child? r).map Node.unquoted := by
  have htext := hS.map_text h hn hk
  rcases hS.child? h r with ⟨c, c', hc, hc', -⟩ | ⟨hc, hc'⟩
  · rw [hc, hc', Option.map_some, Option.map_some] at htext
    rw [hc, hc', Option.map_some, Option.map_some, unquoted, unquoted, Option.some.inj htext]
  · rw [hc, hc']

theorem nameText (htext : n.text = n'.text) : Build.nameText n = Build.nameText n' := by
  rw [Build.nameText, Build.nameText, hS.kind h, unquoted, unquoted, htext]

theorem loadedModule? {ctx ctx' : Context} (hctx : ctx.resolver = ctx'.resolver) :
    Build.loadedModule? ctx n = Build.loadedModule? ctx' n' := by
  rw [Build.loadedModule?, Build.loadedModule?, hS.kind h, hctx]
  rcases hS.child? h .callee with ⟨c, c', hc, hc', hcc⟩ | ⟨hc, hc'⟩
  · rcases hS.child? h .arguments with ⟨a, a', ha, ha', haa⟩ | ⟨ha, ha'⟩
    · rw [hc, hc', ha, ha', Option.map_some, Option.map_some]
      match a.codeChildren, a'.codeChildren, hS.codeChildren haa with
      | [], _, .nil => rfl
      | [b], [b'], .cons hbb .nil =>
          dsimp only
          rw [← hS.kind hcc, ← hS.kind hbb]
          by_cases hcallee : c.kind = .identifier
          · by_cases hargument : b.kind = .string
            · rw [hS.text_of_kind hcc hcallee rfl, unquoted, unquoted,
                hS.text_of_kind hbb hargument rfl]
            · simp [hargument]
          · simp [hcallee]
      | _ :: _ :: _, _, .cons _ (.cons _ _) => rfl
    · rw [hc, hc', ha, ha']
      rfl
  · rw [hc, hc']

end Likeness

end Node

/-! ### Documentation -/

namespace Context

theorem map_text_documenting_cons {S : Node → Node → Prop} (hS : Node.Likeness S) {n n' : Node}
    (hn : S n n') {before before' : List Node}
    (h : (documenting before).map Node.text = (documenting before').map Node.text) :
    (documenting (n :: before)).map Node.text = (documenting (n' :: before')).map Node.text := by
  rw [documenting, documenting, ← hS.kind hn, ← hS.isComment hn]
  split
  · exact h
  · split
    · rename_i hcomment
      rw [← hS.text_of_kind hn (eq_of_beq hcomment) rfl]
      split
      · exact congrArg some (hS.text_of_kind hn (eq_of_beq hcomment) rfl)
      · exact h
    · rfl

theorem map_text_documenting {S : Node → Node → Prop} (hS : Node.Likeness S)
    {before before' : List Node} (h : List.Forall₂ S before before') :
    (documenting before).map Node.text = (documenting before').map Node.text := by
  induction h with
  | nil => rfl
  | cons hn _ ih => exact map_text_documenting_cons hS hn ih

/-- A line comment documents nothing. -/
theorem documenting_cons_of_isLineComment {c : Node} (hc : c.IsLineComment) (before : List Node) :
    documenting (c :: before) = documenting before := by
  rw [documenting, hc.isComment, hc.not_isBlock, hc.kind]
  rfl

end Context

end Ambient
