import Ambient.Text.Blank
import Ambient.Text.Word
import Ambient.TypeExpr.Basic

/-!
# Reading type expressions

The grammar has one difficulty: a function type may end in a result type, and what follows the
result may belong to the result or to the function.  So reading goes in two steps.  The first step
reads a stretch of text between two brackets or commas into `Piece`s; everything inside brackets
is read and resolved on the way, so a stretch is flat.  The second step, `resolveUnion`, finds the
derivation of the stretch.  It tries the alternatives of every rule in the rule's order on the
exact stretch:

* a union is a single operand when it can be one, so a bar after a function's result joins the
  result; when several operands must be told apart after the first one, the last operand is as
  short as it can be;
* an operand takes a mark before it, else a mark at its very end, else none;
* an array suffix stays inside a function's result when it can.

The choice between derivations is this reader's own.  Another reader of the grammar will do, as long
as these facts hold, on which the expansion of expressions relies:

* a text has an expression exactly when the grammar derives the whole of it, blanks around it aside;
* the expression is that of a derivation of the text; where there are several, it may be any of
  them;
* names and keys are as long as they can be, and white space between tokens is passed over.
-/

namespace Ambient.TypeExpr

open Ambient.Text

/-- White space between the tokens of a type expression. -/
def isGap (c : Char) : Bool :=
  c == ' ' || c == '\t' || c == '\n' || c == '\r' || c == '\x0c'

/-- The text from its next token on. -/
def skipGap (cs : List Char) : List Char :=
  cs.dropWhile isGap

/-- The characters that join the parts of a name. -/
def isJoint (c : Char) : Bool :=
  c == '.' || c == ':' || c == '#' || c == '~' || c == '/' || c == '-'

/-- The rest of a name: a joint belongs to it only when another part follows. -/
def nameRest : List Char → List Char × List Char
  | [] => ([], [])
  | c :: cs =>
    if isNameTail c || (isJoint c && (cs.head?.any isNameHead)) then
      let r := nameRest cs
      (c :: r.1, r.2)
    else ([], c :: cs)

/-- A name at the front of the text, as long as possible. -/
def readName : List Char → Option (List Char × List Char)
  | [] => none
  | c :: cs => if isNameHead c then some (c :: (nameRest cs).1, (nameRest cs).2) else none

/-- The inside of a quoted key and the text after its closing quote. -/
def keyChars : List Char → Option (List Char × List Char)
  | [] => none
  | '"' :: rest => some ([], rest)
  | '\\' :: c :: rest =>
    if c == '\n' then none else (keyChars rest).map fun r => ('\\' :: c :: r.1, r.2)
  | c :: rest => if c == '\n' then none else (keyChars rest).map fun r => (c :: r.1, r.2)

/-- A quote of either kind. -/
def isQuote (c : Char) : Bool :=
  c == '"' || c == '\x27'

/-- The key of a record field: an identifier, or a quoted text without its quotes. -/
def readKey : List Char → Option (String × List Char)
  | '"' :: rest =>
    (keyChars rest).map fun r => (String.ofList (trimEnds isQuote ('"' :: (r.1 ++ ['"']))), r.2)
  | c :: cs =>
    if isNameHead c then
      some (String.ofList (c :: cs.takeWhile isNameTail), cs.dropWhile isNameTail)
    else none
  | [] => none

/-- One element of a flat stretch of a type expression. -/
inductive Piece where
  | bar
  | query
  | bang
  | array
  /-- A finished expression. -/
  | atom (e : TypeExpr)
  /-- A function with its parameters, whose result follows. -/
  | arrow (params : List TypeExpr)

/-- Every way to cut a stretch at a bar, from left to right. -/
def barSplits : List Piece → List (List Piece × List Piece)
  | [] => []
  | .bar :: ps => ([], ps) :: (barSplits ps).map fun s => (.bar :: s.1, s.2)
  | p :: ps => (barSplits ps).map fun s => (p :: s.1, s.2)

/-- Both sides of a cut are shorter than the stretch. -/
theorem length_lt_of_mem_barSplits {ps : List Piece} {s : List Piece × List Piece}
    (h : s ∈ barSplits ps) : s.1.length < ps.length ∧ s.2.length < ps.length := by
  induction ps generalizing s with
  | nil => simp [barSplits] at h
  | cons p ps ih =>
    have shifted : ∀ q : Piece, s ∈ (barSplits ps).map (fun s => (q :: s.1, s.2)) →
        s.1.length < (p :: ps).length ∧ s.2.length < (p :: ps).length := by
      intro q hq
      obtain ⟨t, ht, rfl⟩ := List.mem_map.1 hq
      have := ih ht
      simp only [List.length_cons]
      omega
    cases p with
    | bar =>
      simp only [barSplits, List.mem_cons] at h
      rcases h with rfl | h
      · simp
      · exact shifted _ h
    | query => exact shifted _ h
    | bang => exact shifted _ h
    | array => exact shifted _ h
    | atom e => exact shifted _ h
    | arrow ps' => exact shifted _ h

theorem length_dropLast_lt_of_getLast? {ps : List Piece} {p : Piece} (h : ps.getLast? = some p) :
    ps.dropLast.length < ps.length := by
  cases ps with
  | nil => simp at h
  | cons q qs => simp

mutual

/-- The expression of a whole stretch. -/
def resolveUnion (ps : List Piece) : Option TypeExpr :=
  match resolveOperand ps with
  | some e => some e
  | none =>
    (barSplits ps).attach.findSome? fun s =>
      have := length_lt_of_mem_barSplits s.property
      match resolveOperand s.val.1 with
      | none => none
      | some e => (resolveOthers s.val.2).map fun es => union (e :: es)
termination_by (ps.length, 4)

/-- The operands of a union after its first bar. -/
def resolveOthers (ps : List Piece) : Option (List TypeExpr) :=
  match resolveOperand ps with
  | some e => some [e]
  | none =>
    (barSplits ps).reverse.attach.findSome? fun s =>
      have := length_lt_of_mem_barSplits (List.mem_reverse.1 s.property)
      match resolveOperand s.val.2 with
      | none => none
      | some e => (resolveOthers s.val.1).map fun es => es ++ [e]
termination_by (ps.length, 4)

/-- One operand of a union, with at most one mark. -/
def resolveOperand (ps : List Piece) : Option TypeExpr :=
  match resolveMarkedBefore ps with
  | some e => some e
  | none =>
    match resolveMarkedAfter ps with
    | some e => some e
    | none => resolveSuffixed ps
termination_by (ps.length, 3)

/-- An operand whose mark stands before it. -/
def resolveMarkedBefore : (ps : List Piece) → Option TypeExpr
  | .query :: ps => (resolveSuffixed ps).map fun e => nullable e true
  | .bang :: ps => (resolveSuffixed ps).map fun e => nonNullable e true
  | _ => none
termination_by ps => (ps.length, 2)

/-- An operand whose mark stands at its end. -/
def resolveMarkedAfter (ps : List Piece) : Option TypeExpr :=
  match h : ps.getLast? with
  | some .query =>
    have := length_dropLast_lt_of_getLast? h
    (resolveSuffixed ps.dropLast).map fun e => nullable e false
  | some .bang =>
    have := length_dropLast_lt_of_getLast? h
    (resolveSuffixed ps.dropLast).map fun e => nonNullable e false
  | _ => none
termination_by (ps.length, 2)

/-- An operand without a mark: a primary expression and array suffixes. -/
def resolveSuffixed (ps : List Piece) : Option TypeExpr :=
  match resolvePrimary ps with
  | some e => some e
  | none =>
    match h : ps.getLast? with
    | some .array =>
      have := length_dropLast_lt_of_getLast? h
      (resolveSuffixed ps.dropLast).map fun e => apply (name "Array") [e]
    | _ => none
termination_by (ps.length, 1)

/-- A finished expression, the unknown type, or a function with its result. -/
def resolvePrimary : (ps : List Piece) → Option TypeExpr
  | [.atom e] => some e
  | [.query] => some unknown
  | .arrow params :: ps => (resolveUnion ps).map fun e => function params (some e)
  | _ => none
termination_by ps => (ps.length, 0)

end

mutual

/-- The pieces at the front of the text, up to a character that belongs to none. -/
def readPieces : Nat → List Char → Option (List Piece × List Char)
  | 0, _ => none
  | n + 1, cs =>
    let more (p : Piece) (rest : List Char) : Option (List Piece × List Char) :=
      (readPieces n rest).map fun r => (p :: r.1, r.2)
    match skipGap cs with
    | '|' :: rest => more .bar rest
    | '?' :: rest => more .query rest
    | '!' :: rest => more .bang rest
    | '*' :: rest => more (.atom all) rest
    | '[' :: rest =>
      match skipGap rest with
      | ']' :: rest => more .array rest
      | _ => none
    | '(' :: rest =>
      match readPieces n rest with
      | some (ps, ')' :: rest) =>
        match resolveUnion ps with
        | some e => more (.atom e) rest
        | none => none
      | _ => none
    | '{' :: rest =>
      match skipGap rest with
      | '}' :: rest => more (.atom (record [])) rest
      | rest =>
        match readFields n rest with
        | some (fs, rest) => more (.atom (record fs)) rest
        | none => none
    | rest =>
      match readName rest with
      | none => some ([], rest)
      | some (word, rest) =>
        match word == "function".toList, skipGap rest with
        | true, '(' :: rest =>
          match readParams n rest with
          | some (ps, rest) =>
            match skipGap rest with
            | ':' :: rest => more (.arrow ps) rest
            | rest => more (.atom (function ps none)) rest
          | none => none
        | _, '.' :: '<' :: rest =>
          match readArgs n rest with
          | some (es, rest) => more (.atom (apply (name (String.ofList word)) es)) rest
          | none => none
        | _, '<' :: rest =>
          match readArgs n rest with
          | some (es, rest) => more (.atom (apply (name (String.ofList word)) es)) rest
          | none => none
        | _, rest => more (.atom (name (String.ofList word))) rest

/-- The arguments of a generic type, up to its closing bracket. -/
def readArgs : Nat → List Char → Option (List TypeExpr × List Char)
  | 0, _ => none
  | n + 1, cs =>
    match readPieces n cs with
    | none => none
    | some (ps, rest) =>
      match resolveUnion ps, rest with
      | some e, '>' :: rest => some ([e], rest)
      | some e, ',' :: rest => (readArgs n rest).map fun r => (e :: r.1, r.2)
      | _, _ => none

/-- The fields of a record, up to its closing brace. -/
def readFields : Nat → List Char → Option (List TypeExpr × List Char)
  | 0, _ => none
  | n + 1, cs =>
    match readKey (skipGap cs) with
    | none => none
    | some (key, rest) =>
      let value : Option (Option TypeExpr × List Char) :=
        match skipGap rest with
        | ':' :: rest =>
          match readPieces n rest with
          | some (ps, rest) => (resolveUnion ps).map fun e => (some e, rest)
          | none => none
        | rest => some (none, rest)
      match value with
      | some (v, '}' :: rest) => some ([field key v], rest)
      | some (v, ',' :: rest) => (readFields n rest).map fun r => (field key v :: r.1, r.2)
      | _ => none

/-- The parameters of a function type, up to its closing parenthesis. -/
def readParams : Nat → List Char → Option (List TypeExpr × List Char)
  | 0, _ => none
  | n + 1, cs =>
    match skipGap cs with
    | ')' :: rest => some ([], rest)
    | cs => readTops n cs

/-- One parameter or more, up to the closing parenthesis. -/
def readTops : Nat → List Char → Option (List TypeExpr × List Char)
  | 0, _ => none
  | n + 1, cs =>
    match readTop n cs with
    | some (e, ')' :: rest) => some ([e], rest)
    | some (e, ',' :: rest) => (readTops n rest).map fun r => (e :: r.1, r.2)
    | _ => none

/-- A whole type: a union, which a rest mark may precede or an optional mark follow. -/
def readTop : Nat → List Char → Option (TypeExpr × List Char)
  | 0, _ => none
  | n + 1, cs =>
    match skipGap cs with
    | '.' :: '.' :: '.' :: rest =>
      match readPieces n rest with
      | some ([], rest) => some (.variadic none, rest)
      | some (ps, rest) => (resolveUnion ps).map fun e => (.variadic (some e), rest)
      | none => none
    | cs =>
      match readPieces n cs with
      | none => none
      | some (ps, rest) =>
        match resolveUnion ps, rest with
        | some e, '=' :: rest => some (optional e, skipGap rest)
        | some e, rest => some (e, rest)
        | none, _ => none

end

/-- The type expression that the whole text denotes, blanks around it aside. -/
def parse? (s : String) : Option TypeExpr :=
  let cs := trimEnds isBlank s.toList
  match readTop (2 * cs.length + 2) cs with
  | some (e, []) => some e
  | _ => none

end Ambient.TypeExpr
