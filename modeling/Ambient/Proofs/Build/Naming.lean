import Ambient.Proofs.Build.Accessor
import Ambient.Proofs.Build.Kept

/-!
# How members are named

A property name is a word, a number, a string or an expression in brackets.  It stands before the
value of a pair, as the name of a method, or as the name of a field, and there is one rule for what
it adds to the names of the members: a string adds the text between its quotes, a computed name adds
nothing, and any other name adds its own text.  Pairs and methods follow the rule with every name,
fields with words and numbers; a field adds the text of its name as it is written.
-/

namespace Ambient

namespace Node

/-- A name that is written out: a word or a number. -/
def isPlainName (n : Node) : Bool :=
  n.kind == .propertyIdentifier || n.kind == .number

/-- The name of a property, private names aside. -/
def isPropertyName (n : Node) : Bool :=
  n.isPlainName || n.kind == .string || n.kind == .computedPropertyName

/-- The member that a property name stands for. -/
def key? (n : Node) : Option String :=
  match n.kind with
  | .computedPropertyName => none
  | .string => some n.unquoted
  | _ => some n.text

theorem key?_of_isPlainName {n : Node} (h : n.isPlainName = true) : n.key? = some n.text := by
  rw [isPlainName, Bool.or_eq_true, beq_iff_eq, beq_iff_eq] at h
  rcases h with hk | hk
  all_goals rw [key?, hk]

/-- Where a name that is not private is looked at, the rule decides what it stands for. -/
theorem key?_eq_nameText (n : Node) :
    n.key? = if n.kind == .computedPropertyName then none else some (Build.nameText n) := by
  by_cases hcomputed : n.kind = .computedPropertyName
  · rw [key?, hcomputed]
    rfl
  · rw [if_neg (by simpa using hcomputed), Build.nameText]
    by_cases hstring : n.kind = .string
    · rw [key?, hstring]
      rfl
    · rw [if_neg (by simpa using hstring)]
      unfold key?
      split
      · rename_i hk
        exact absurd hk hcomputed
      · rename_i hk
        exact absurd hk hstring
      · rfl

theorem kind_ne_private_of_isPropertyName {n : Node} (h : n.isPropertyName = true) :
    (n.kind == .privatePropertyIdentifier) = false := by
  simp only [isPropertyName, isPlainName, Bool.or_eq_true, beq_iff_eq] at h
  rcases h with ((hk | hk) | hk) | hk
  all_goals
    rw [hk]
    rfl

end Node

/-- The names with another one, which is added at the end unless it is there. -/
def Table.withName (names : List String) : Option String → List String
  | some name => if name ∈ names then names else names ++ [name]
  | none => names

namespace Build

/-- A node of the body defines a member under a property name; in a class, the word `constructor`
names the constructor and not a method. -/
inductive Body.Uses : Body → Node → Node → Prop where
  | pair {n t : Node} (hk : n.kind = .pair) (ht : n.child? .key = some t) : Uses .object n t
  | method {b : Body} {n t : Node} (hk : n.kind = .methodDefinition) (ht : n.child? .name = some t)
      (hctor : b = .classBody → t.text ≠ "constructor") : Uses b n t
  | field {n t : Node} (hk : n.kind = .fieldDefinition) (ht : n.child? .property = some t) :
      Uses .classBody n t

/-- What a node adds to the names of the members, whatever they are when it is read, and so what it
adds to those of a whole object or class. -/
structure Body.Adds (b : Body) (n : Node) (key : Option String) : Prop where
  step : ∀ (ctx : Context) (before : List Node) (parts : ClassParts),
    Gives (fun after => after.members.names = Table.withName parts.members.names key)
      (b.read ctx before [n] parts)
  whole : ∀ (ctx : Context) (front back : List Node) (x : Build Decl),
    Converts b ctx (front ++ n :: back) x →
      Gives (fun d => d.members.names = (front.filterMap b.definedName? ++
        (key.toList ++ back.filterMap b.definedName?)).eraseDups) x

variable {b : Body} {n t : Node}

theorem definedName?_of_uses (huse : b.Uses n t) (hname : t.isPropertyName = true) :
    b.definedName? n = if n.kind = .fieldDefinition then some t.text else t.key? := by
  have hprivate := Node.kind_ne_private_of_isPropertyName hname
  cases huse with
  | pair hk ht => simp only [Body.definedName?, hk, ht, Option.bind_some, Node.key?_eq_nameText,
      reduceCtorEq, if_false]
  | method hk ht hctor =>
      have hmethod : b.isConstructor n = false := by
        cases b with
        | object => rfl
        | classBody => simpa [Body.isConstructor, hk, ht] using hctor rfl
      simp only [Body.definedName?, hk, hmethod, ht, hprivate, Option.bind_some, Bool.false_or,
        Bool.false_eq_true, Node.key?_eq_nameText, reduceCtorEq, if_false]
  | field hk ht =>
      simp only [Body.definedName?, hk, ht, hprivate, Option.bind_some, Bool.false_eq_true,
        if_false, if_true]

/-- A node adds the name of what it defines. -/
theorem adds_definedName? (b : Body) (n : Node) : b.Adds n (b.definedName? n) where
  step ctx before parts := by
    rw [read_singleton]
    refine (gives_gift b ctx before n).bind_of fun g hg => .pure ?_
    have hnames := names_into parts.members g
    rw [hg.name] at hnames
    rw [ClassParts.add, hnames]
    cases b.definedName? n with
    | none => rfl
    | some name => rfl
  whole ctx front back x hx := by
    intro s d s' hrun
    obtain ⟨doc, mid, gs, -, hgifts, hmembers, -⟩ := hx.exists_gifts hrun
    have hdescribes := gives_gifts b ctx [] (front ++ n :: back) mid gs s' hgifts
    rw [hmembers, names_foldl_into, filterMap_name? hdescribes, List.filterMap_append,
      List.filterMap_cons]
    cases b.definedName? n with
    | none => rfl
    | some name => rfl

/-- A property name adds to the names of the members what it stands for, alike before the value of a
pair, as the name of a method in an object or a class, and, when it is a word or a number, as the
name of a field.  Every field adds the text of its name as it is written. -/
theorem member_names_follow_one_rule (b : Body) (n t : Node) (huse : b.Uses n t)
    (hname : t.isPropertyName = true) :
    ((n.kind = .fieldDefinition → t.isPlainName = true) → b.Adds n t.key?) ∧
      (n.kind = .fieldDefinition → b.Adds n (some t.text)) := by
  have hadds := adds_definedName? b n
  rw [definedName?_of_uses huse hname] at hadds
  constructor
  · intro hplain
    split at hadds
    · rename_i hk
      rwa [Node.key?_of_isPlainName (hplain hk)]
    · exact hadds
  · intro hk
    rwa [if_pos hk] at hadds

/-! ### Quoted and computed names -/

/-- `name: v` -/
def pairOf (name v : Node) : Node :=
  ⟨.pair, none, "", 1, 0, [name.as .key, v.as .value]⟩

/-- `name = v` -/
def fieldOf (name v : Node) : Node :=
  ⟨.fieldDefinition, none, "", 1, 0, [name.as .property, v.as .value]⟩

/-- A class of the given members. -/
def classOfNodes (nodes : List Node) : Node :=
  ⟨.classExpression, none, "", 1, 0, [(⟨.classBody, none, "", 1, 0, nodes⟩ : Node).as .body]⟩

theorem runFrom_pairOf (text : String) (s : BuildState) :
    runFrom (value {} (objectOfNodes [pairOf (leaf .string text) (leaf .number "1")])) s =
      (.ok (.object {} [((leaf .string text).unquoted, number)]), s) := by
  have hmembers (ctx : Context) :
      runFrom (objectMembers ctx [] [pairOf (leaf .string text) (leaf .number "1")] []) s =
        (.ok [((leaf .string text).unquoted, number)], s) := by
    rw [objectMembers]
    simp only [objectMembers_nil]
    exact runFrom_bind_of_ok (runFrom_number rfl "1" .value s) _
  rw [value]
  exact runFrom_bind_of_ok (hmembers _) _

theorem runFrom_fieldOf {k : Kind} (hk : k = .string ∨ k = .computedPropertyName) (text : String)
    (s : BuildState) :
    runFrom (classValue {} (classOfNodes [fieldOf (leaf k text) (leaf .number "1")])) s =
      (.ok (.classDef {} none [(text, number)] none), s) := by
  have hmembers (ctx : Context) :
      runFrom (classMembers ctx [] [fieldOf (leaf k text) (leaf .number "1")] {}) s =
        (.ok { members := [(text, number)] }, s) := by
    rw [classMembers]
    simp only [classMembers_nil]
    rcases hk with rfl | rfl
    all_goals exact runFrom_bind_of_ok (runFrom_number rfl "1" .value s) _
  rw [classValue]
  exact runFrom_bind_of_ok (hmembers _) _

/-- `{ 'x': 1 }` has the member `x`. -/
theorem member_names_follow_one_rule_quoted :
    let pair := pairOf (leaf .string "\x27x\x27") (leaf .number "1")
    ∃ d, runFrom (value {} (objectOfNodes [pair])) (start "m") = (.ok d, start "m") ∧
      d.members.names = ["x"] := by
  intro pair
  have hrun := runFrom_pairOf "\x27x\x27" (start "m")
  have hobject : Converts .object (({} : Context).enter (objectOfNodes [pair])) ([] ++ [pair])
      (value {} (objectOfNodes [pair])) := .object rfl
  obtain ⟨hrule, -⟩ := member_names_follow_one_rule .object pair _ (.pair rfl rfl) rfl
  exact ⟨_, hrun, (hrule nofun).whole _ [] [] _ hobject _ _ _ hrun⟩

/-- The fields `"x" = 1` and `[x] = 1` of a class break the rule: the one keeps its quotes, and the
other adds a member.  Before the value of a pair `"x"` adds `x`. -/
theorem quoted_field_keeps_quotes :
    (leaf .string "\"x\"").key? = some "x" ∧ (leaf .computedPropertyName "[x]").key? = none ∧
      (∃ d, runFrom (classValue {} (classOfNodes
          [fieldOf (leaf .string "\"x\"") (leaf .number "1")])) (start "m") =
            (.ok d, start "m") ∧
        d.members.names = ["\"x\""]) ∧
      (∃ d, runFrom (classValue {} (classOfNodes
          [fieldOf (leaf .computedPropertyName "[x]") (leaf .number "1")])) (start "m") =
            (.ok d, start "m") ∧
        d.members.names = ["[x]"]) ∧
      ∃ d, runFrom (value {} (objectOfNodes [pairOf (leaf .string "\"x\"") (leaf .number "1")]))
          (start "m") = (.ok d, start "m") ∧
        d.members.names = ["x"] :=
  ⟨rfl, rfl, ⟨_, runFrom_fieldOf (.inl rfl) _ _, rfl⟩, ⟨_, runFrom_fieldOf (.inr rfl) _ _, rfl⟩,
    ⟨_, runFrom_pairOf _ _, rfl⟩⟩

end Build

end Ambient
