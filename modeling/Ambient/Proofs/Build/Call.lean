import Ambient.Build.Statement

/-!
# Calls in progress

Every reader looks a node up in a table of handlers, and the handler for its kind enters other nodes
with tables of their own.  `Node.entered` lists what a handler may enter, and with which table.  A
trail is that of calls in progress when it begins with a statement and each kind behind it is that
of a node which the handler of the one before has entered: `Node.InProgress` has one rule for either
case, so the trail has the kind of every call, in the order of the calls, and nothing else.

A declarator enters its name, and the value is read while the name is in progress.  So the table for
names holds the value that they are bound to.
-/

namespace Ambient

/-- The tables of handlers, named after what is looked up in them. -/
inductive Handlers where
  | statement
  | expression
  | declaration
  | declarator
  /-- What a declarator declares, with the value that it is bound to. -/
  | target (bound : Option Node)
  | patternMember
  | renamed
  | value
  | path
  | parameter
  | objectMember
  | classMember
  | exportClause
  | exportSpecifier
  | importClause
  | importSpecifier

namespace Handlers

/-- The kinds of declarations. -/
def declarations : List Kind :=
  [.variableDeclaration, .lexicalDeclaration, .functionDeclaration, .generatorFunctionDeclaration,
   .classDeclaration]

/-- The kinds that have a handler in the table. -/
def kinds : Handlers → List Kind
  | statement =>
    [.comment, .expressionStatement, .exportStatement, .importStatement, .emptyStatement,
     .hashBangLine] ++ declarations
  | expression => [.assignmentExpression, .string, .callExpression]
  | declaration => declarations
  | declarator => [.variableDeclarator]
  | target _ => [.identifier, .objectPattern]
  | patternMember => [.shorthandPropertyIdentifierPattern, .pairPattern]
  | renamed => [.identifier]
  | value =>
    [.functionExpression, .generatorFunction, .arrowFunction, .classExpression, .object,
     .identifier, .callExpression, .newExpression, .assignmentExpression, .parenthesizedExpression,
     .string, .templateString, .number, .trueValue, .falseValue, .regex, .array, .nullValue,
     .undefinedValue, .thisValue, .memberExpression, .subscriptExpression, .binaryExpression,
     .unaryExpression, .ternaryExpression, .awaitExpression, .updateExpression]
  | path => [.identifier, .propertyIdentifier, .thisValue, .memberExpression]
  | parameter => [.identifier, .objectPattern, .arrayPattern, .assignmentPattern, .restPattern]
  | objectMember => [.pair, .shorthandPropertyIdentifier, .methodDefinition, .spreadElement]
  | classMember => [.methodDefinition, .fieldDefinition, .classStaticBlock]
  | exportClause => [.exportClause, .namespaceExport, .string]
  | exportSpecifier => [.exportSpecifier]
  | importClause => [.identifier, .namespaceImport, .namedImports]
  | importSpecifier => [.importSpecifier]

/-- The nodes, each looked up in the table. -/
def each (hs : Handlers) (nodes : List Node) : List (Handlers × Node) :=
  nodes.map (hs, ·)

@[simp]
theorem mem_each {hs : Handlers} {nodes : List Node} {call : Handlers × Node} :
    call ∈ hs.each nodes ↔ call.1 = hs ∧ call.2 ∈ nodes := by
  constructor
  · intro h
    obtain ⟨e, he, rfl⟩ := List.mem_map.1 h
    exact ⟨rfl, he⟩
  · rintro ⟨rfl, he⟩
    exact List.mem_map.2 ⟨call.2, he, rfl⟩

end Handlers

namespace Node

/-- The node has the parts that a handler for its kind asks for. -/
def isComplete (n : Node) : Bool :=
  let has (r : Role) : Bool := (n.child? r).isSome
  match n.kind with
  | .methodDefinition | .variableDeclarator => has .name
  | .functionDeclaration | .generatorFunctionDeclaration => has .name
  | .classDeclaration => has .name && has .body
  | .classExpression => has .body
  | .assignmentExpression => has .left && has .right
  | .assignmentPattern => has .left
  | .memberExpression => has .receiver && has .property
  | .pair | .pairPattern => has .key && has .value
  | .fieldDefinition => has .property
  | .exportStatement =>
    !n.children.any (·.kind == .token "default") || has .declaration || has .value
  | .restPattern | .parenthesizedExpression => !n.codeChildren.isEmpty
  | _ => true

/-- The table has a handler for the node. -/
def HandledBy (n : Node) (hs : Handlers) : Prop :=
  n.kind ∈ hs.kinds ∧ n.isComplete = true

/-! ### What handlers enter -/

/-- The child that plays the role, if there is one. -/
def part (n : Node) (r : Role) : List Node :=
  (n.child? r).toList

/-- The members of a class. -/
def classMembers (n : Node) : List Node :=
  (n.part .body).flatMap codeChildren

/-- The first construct inside, if there is one. -/
def firstCode (n : Node) : List Node :=
  n.codeChildren.head?.toList

@[simp]
theorem mem_part {n e : Node} {r : Role} : e ∈ n.part r ↔ n.child? r = some e :=
  Option.mem_toList

@[simp]
theorem mem_firstCode {n e : Node} : e ∈ n.firstCode ↔ n.codeChildren.head? = some e :=
  Option.mem_toList

/-- What the handler of a declaration enters. -/
def enteredByDeclaration (n : Node) : List (Handlers × Node) :=
  match n.kind with
  | .variableDeclaration | .lexicalDeclaration => Handlers.declarator.each n.codeChildren
  | .functionDeclaration | .generatorFunctionDeclaration => Handlers.parameter.each n.parameterNodes
  | .classDeclaration => Handlers.classMember.each n.classMembers
  | _ => []

/-- What the handler of an export enters: a declaration, or what is exported by default, or the
clauses. -/
def enteredByExport (n : Node) : List (Handlers × Node) :=
  match n.child? .declaration with
  | some d => Handlers.declaration.each [d]
  | none =>
    if n.children.any (·.kind == .token "default") then Handlers.value.each (n.part .value)
    else Handlers.exportClause.each (n.codeChildren.filter (·.kind != .decorator))

/-- What the handler of a statement enters. -/
def enteredByStatement (n : Node) : List (Handlers × Node) :=
  match n.kind with
  | .expressionStatement => Handlers.expression.each n.firstCode
  | .exportStatement => n.enteredByExport
  | .importStatement =>
    Handlers.importClause.each ((n.childOfKind? .importClause).toList.flatMap codeChildren)
  | _ => n.enteredByDeclaration

/-- What the handler of an assignment enters. -/
def enteredByAssignment (n : Node) : List (Handlers × Node) :=
  Handlers.path.each (n.part .left) ++ Handlers.value.each (n.part .right)

/-- What the handler of a value enters. -/
def enteredByValue (n : Node) : List (Handlers × Node) :=
  match n.kind with
  | .functionExpression | .generatorFunction | .arrowFunction =>
    Handlers.parameter.each n.parameterNodes
  | .classExpression => Handlers.classMember.each n.classMembers
  | .object => Handlers.objectMember.each n.codeChildren
  | .assignmentExpression => n.enteredByAssignment
  | .parenthesizedExpression => Handlers.value.each n.firstCode
  | _ => []

/-- What the handler for the node in the table may enter, and with which tables. -/
def entered (n : Node) (hs : Handlers) : List (Handlers × Node) :=
  match hs, n.kind with
  | .statement, _ => n.enteredByStatement
  | .declaration, _ => n.enteredByDeclaration
  | .value, _ => n.enteredByValue
  | .expression, .assignmentExpression => n.enteredByAssignment
  | .declarator, .variableDeclarator => (Handlers.target (n.child? .value)).each (n.part .name)
  | .target bound, .identifier => Handlers.value.each bound.toList
  | .target _, .objectPattern => Handlers.patternMember.each n.codeChildren
  | .patternMember, .pairPattern => Handlers.renamed.each (n.part .value)
  | .path, .memberExpression => Handlers.path.each (n.part .receiver ++ n.part .property)
  | .parameter, .assignmentPattern => Handlers.parameter.each (n.part .left)
  | .parameter, .restPattern => Handlers.parameter.each n.firstCode
  | .objectMember, .pair => Handlers.value.each (n.part .value)
  | .objectMember, .methodDefinition => Handlers.parameter.each n.parameterNodes
  | .classMember, .methodDefinition => Handlers.parameter.each n.parameterNodes
  | .classMember, .fieldDefinition => Handlers.value.each (n.part .value)
  | .exportClause, .exportClause => Handlers.exportSpecifier.each n.codeChildren
  | .importClause, .namedImports => Handlers.importSpecifier.each n.codeChildren
  | _, _ => []

/-- The trail is that of the calls in progress when the node is looked up in the table: a statement
is, then what its handler enters, and so on down to the node. -/
inductive InProgress (st : Node) : Trail → Handlers → Node → Prop where
  | statement : InProgress st [st.kind.name] .statement st
  | enter {trail : Trail} {hs hs' : Handlers} {n e : Node} (h : InProgress st trail hs n)
      (he : (hs', e) ∈ n.entered hs) : InProgress st (trail ++ [e.kind.name]) hs' e

namespace InProgress

variable {st n : Node} {trail : Trail} {hs : Handlers}

theorem head?_trail (h : st.InProgress trail hs n) : trail.head? = some st.kind.name := by
  induction h with
  | statement => rfl
  | enter _ _ ih => rw [List.head?_append, ih, Option.some_or]

theorem getLast?_trail (h : st.InProgress trail hs n) : trail.getLast? = some n.kind.name := by
  cases h with
  | statement => rfl
  | enter _ _ => exact List.getLast?_concat

end InProgress

/-! ### Everything in progress stands in the statement -/

/-- The second node stands in the first, at any depth, or is it. -/
inductive Holds (n : Node) : Node → Prop where
  | self : Holds n n
  | child {c e : Node} (h : Holds n c) (he : e ∈ c.children) : Holds n e

variable {st n e : Node} {hs : Handlers}

theorem Holds.part {r : Role} (h : st.Holds n) (he : e ∈ n.part r) : st.Holds e :=
  h.child (mem_children_of_child? (mem_part.1 he))

theorem Holds.code (h : st.Holds n) (he : e ∈ n.codeChildren) : st.Holds e :=
  h.child (mem_children_of_codeChildren he)

theorem Holds.firstCode (h : st.Holds n) (he : e ∈ n.firstCode) : st.Holds e :=
  h.code (List.mem_of_mem_head? (mem_firstCode.1 he))

theorem Holds.parameter (h : st.Holds n) (he : e ∈ n.parameterNodes) : st.Holds e := by
  rw [parameterNodes] at he
  split at he
  · rename_i ps hps
    exact (h.part (mem_part.2 hps)).code he
  · exact h.part he

theorem Holds.classMember (h : st.Holds n) (he : e ∈ n.classMembers) : st.Holds e := by
  obtain ⟨body, hbody, he⟩ := List.mem_flatMap.1 he
  exact (h.part hbody).code he

/-- The value that the table holds stands in the statement. -/
def HoldsBound (st : Node) : Handlers → Prop
  | .target bound => ∀ v ∈ bound, st.Holds v
  | _ => True

/-- All that is entered stands in the statement, and so does all that its tables hold. -/
def HoldsAll (st : Node) (calls : List (Handlers × Node)) : Prop :=
  ∀ call ∈ calls, st.HoldsBound call.1 ∧ st.Holds call.2

theorem HoldsAll.nil : st.HoldsAll [] :=
  List.forall_mem_nil _

theorem HoldsAll.append {calls others : List (Handlers × Node)} (h : st.HoldsAll calls)
    (h' : st.HoldsAll others) : st.HoldsAll (calls ++ others) :=
  List.forall_mem_append.2 ⟨h, h'⟩

theorem HoldsAll.each {nodes : List Node} (hbound : st.HoldsBound hs)
    (h : ∀ e ∈ nodes, st.Holds e) : st.HoldsAll (hs.each nodes) := by
  rintro ⟨hs', e⟩ hcall
  obtain ⟨rfl, he⟩ := Handlers.mem_each.1 hcall
  exact ⟨hbound, h e he⟩

theorem Holds.enteredByDeclaration (h : st.Holds n) : st.HoldsAll n.enteredByDeclaration := by
  unfold Node.enteredByDeclaration
  split
  · exact .each trivial fun _ => h.code
  · exact .each trivial fun _ => h.code
  · exact .each trivial fun _ => h.parameter
  · exact .each trivial fun _ => h.parameter
  · exact .each trivial fun _ => h.classMember
  · exact .nil

theorem Holds.enteredByExport (h : st.Holds n) : st.HoldsAll n.enteredByExport := by
  unfold Node.enteredByExport
  split
  · rename_i d hd
    refine .each trivial fun e he => ?_
    rw [List.mem_singleton.1 he]
    exact h.part (mem_part.2 hd)
  · split
    · exact .each trivial fun _ => h.part
    · exact .each trivial fun e he => h.code (List.mem_filter.1 he).1

theorem Holds.enteredByStatement (h : st.Holds n) : st.HoldsAll n.enteredByStatement := by
  unfold Node.enteredByStatement
  split
  · exact .each trivial fun _ => h.firstCode
  · exact h.enteredByExport
  · refine .each trivial fun e he => ?_
    obtain ⟨clause, hclause, he⟩ := List.mem_flatMap.1 he
    exact (h.child (List.mem_of_find?_eq_some (Option.mem_toList.1 hclause))).code he
  · exact h.enteredByDeclaration

theorem Holds.enteredByAssignment (h : st.Holds n) : st.HoldsAll n.enteredByAssignment :=
  .append (.each trivial fun _ => h.part) (.each trivial fun _ => h.part)

theorem Holds.enteredByValue (h : st.Holds n) : st.HoldsAll n.enteredByValue := by
  unfold Node.enteredByValue
  split
  · exact .each trivial fun _ => h.parameter
  · exact .each trivial fun _ => h.parameter
  · exact .each trivial fun _ => h.parameter
  · exact .each trivial fun _ => h.classMember
  · exact .each trivial fun _ => h.code
  · exact h.enteredByAssignment
  · exact .each trivial fun _ => h.firstCode
  · exact .nil

/-- What a handler enters stands where the node does. -/
theorem Holds.entered (hbound : st.HoldsBound hs) (h : st.Holds n) :
    st.HoldsAll (n.entered hs) := by
  unfold Node.entered
  split
  · exact h.enteredByStatement
  · exact h.enteredByDeclaration
  · exact h.enteredByValue
  · exact h.enteredByAssignment
  · exact .each (fun v hv => h.part (mem_part.2 hv)) fun _ => h.part
  · exact .each trivial fun v hv => hbound v (Option.mem_toList.1 hv)
  · exact .each trivial fun _ => h.code
  · exact .each trivial fun _ => h.part
  · refine .each trivial fun e he => ?_
    exact (List.mem_append.1 he).elim h.part h.part
  · exact .each trivial fun _ => h.part
  · exact .each trivial fun _ => h.firstCode
  · exact .each trivial fun _ => h.part
  · exact .each trivial fun _ => h.parameter
  · exact .each trivial fun _ => h.parameter
  · exact .each trivial fun _ => h.part
  · exact .each trivial fun _ => h.code
  · exact .each trivial fun _ => h.code
  · exact .nil

/-- Whatever is in progress stands in the statement. -/
theorem InProgress.holds {trail : Trail} (h : st.InProgress trail hs n) : st.Holds n := by
  suffices st.HoldsBound hs ∧ st.Holds n from this.2
  induction h with
  | statement => exact ⟨trivial, .self⟩
  | enter _ he ih => exact ih.2.entered ih.1 _ he

end Node

end Ambient
