import Ambient.Source.Node

/-!
# Patterns

A list in parentheses, an object or an array may turn out to be a pattern only when an arrow or an
equals sign follows it.  So it is read as an expression first, and `Node.toPattern?` turns the
expression into the pattern it spells.  An object with a default for a name, `{a = 1}`, is a
pattern only; `Node.isSound` says that no such object was left as an expression.
-/

namespace Ambient.Node

/-- A rest pattern, whose target takes no default. -/
def restPattern? (n : Node) : Option Node :=
  if n.children.any (·.kind == .assignmentPattern) then none else some (n.recast .restPattern)

/-- A rest pattern in a list.  A default for its target is a default for the whole pattern. -/
def restItem (n : Node) : Node :=
  match n.children.find? (·.kind == .assignmentPattern) with
  | none => n.recast .restPattern
  | some inner =>
    match inner.children with
    | target :: others =>
      let text := n.text.toList.take (target.start + target.text.length - n.start)
      let before := n.children.takeWhile (·.kind != .assignmentPattern)
      let rest : Node :=
        ⟨.restPattern, some .left, String.ofList text, n.line, n.start,
          before ++ [{ target with role := none }]⟩
      { n with kind := .assignmentPattern, children := rest :: others }
    | [] => n.recast .restPattern

mutual

/-- The pattern that an expression spells. -/
def toPattern? : Node → Option Node
  | ⟨k, r, t, l, s, cs⟩ =>
    match k with
    | .identifier | .undefinedValue | .memberExpression | .subscriptExpression | .objectPattern
    | .arrayPattern => some ⟨k, r, t, l, s, cs⟩
    | .object => (fieldPatterns? cs).map fun cs => ⟨.objectPattern, r, t, l, s, cs⟩
    | .array => (itemPatterns? cs).map fun cs => ⟨.arrayPattern, r, t, l, s, cs⟩
    | .spreadElement => (itemPatterns? cs).map fun cs => restItem ⟨k, r, t, l, s, cs⟩
    | .assignmentExpression =>
      if cs.any fun c => c.role == some .left && c.kind == .parenthesizedExpression then none
      else some ⟨.assignmentPattern, r, t, l, s, cs⟩
    | _ => none

/-- The items of an array, tokens and comments aside, as patterns. -/
def itemPatterns? : List Node → Option (List Node)
  | [] => some []
  | c :: cs => do
    let first ← if c.isNamed && !c.isComment then toPattern? c else some c
    let others ← itemPatterns? cs
    return first :: others

/-- The members of an object as members of a pattern. -/
def fieldPatterns? : List Node → Option (List Node)
  | [] => some []
  | c :: cs => do
    let first ← match c with
      | ⟨k, r, t, l, s, ds⟩ =>
        match k with
        | .pair => (valuePatterns? ds).map fun ds => ⟨.pairPattern, r, t, l, s, ds⟩
        | .shorthandPropertyIdentifier =>
          some ⟨.shorthandPropertyIdentifierPattern, r, t, l, s, ds⟩
        | .spreadElement => (itemPatterns? ds).bind fun ds => restPattern? ⟨k, r, t, l, s, ds⟩
        | .objectAssignmentPattern | .comment | .htmlComment | .token _ => some c
        | _ => none
    let others ← fieldPatterns? cs
    return first :: others

/-- The value of a pair as a pattern. -/
def valuePatterns? : List Node → Option (List Node)
  | [] => some []
  | c :: cs => do
    let first ← if c.role == some .value then toPattern? c else some c
    let others ← valuePatterns? cs
    return first :: others

end

mutual

/-- No object expression holds a default for a name. -/
def isSound : Node → Bool
  | ⟨k, _, _, _, _, cs⟩ =>
    !(k == .object && cs.any (·.kind == .objectAssignmentPattern)) && areSound cs

/-- The same of every node of a list. -/
def areSound : List Node → Bool
  | [] => true
  | c :: cs => isSound c && areSound cs

end

/-- What an equals sign may assign to. -/
def isAssignable (n : Node) : Bool :=
  [.identifier, .undefinedValue, .memberExpression, .subscriptExpression, .object, .array,
   .parenthesizedExpression].contains n.kind

/-- What an operator with an equals sign may assign to. -/
def isUpdatable (n : Node) : Bool :=
  n.isAssignable && n.kind != .object && n.kind != .array

/-- The left side of an assignment: objects and arrays become patterns. -/
def toTarget? (n : Node) : Option Node :=
  if n.kind == .object || n.kind == .array then n.toPattern? else some n

end Ambient.Node
