import Ambient.Render.Type

/-!
# Declarations in a declaration file

A declaration is written as its documentation, its body and its diagnostics.  Members of classes
and objects have one form, items of a module another.  A body is given as its first line, without
indentation, and the lines after it: an exported item differs from a local one only by a word in
front of the first line.
-/

namespace Ambient.Render

/-- Documentation before a body and diagnostics after it. -/
def framed (st : Style) (ind : String) (h : Header) (params : List Parameter)
    (body : List String) : List String :=
  st.docBlock ind h.description params ++ body ++ st.warningLines ind h

/-- The constructor inside a class: documented and shown when it has parameters. -/
def constructorLines (st : Style) (ind : String) : Option Callable → List String
  | none => []
  | some c =>
    (if c.params.isEmpty then []
     else
       st.docBlock ind c.header.description c.params ++
         [ind ++ "constructor (" ++ signature c ++ ");"]) ++
      st.warningLines ind c.header

mutual

/-- The lines of a member, under its written name. -/
def memberLines (st : Style) (level : Nat) (name : String) : Decl → List String
  | .function fn =>
    framed st (st.margin level) fn.header fn.params
      [st.margin level ++ (if fn.isStatic then "static " else "") ++ st.ident name ++ " (" ++
        signature fn ++ ") : " ++ types fn.result "void" ++ ";"]
  | .classDef h c _ _ =>
    framed st (st.margin level) h []
      [st.margin level ++ st.ident name ++ ": new (" ++ (c.map signature).getD "" ++ ") => any;"]
  | .binding h ts _ =>
    framed st (st.margin level) h []
      [st.margin level ++ st.ident name ++ ": " ++ types ts "any" ++ ";"]
  | .constant h v =>
    framed st (st.margin level) h []
      [st.margin level ++ st.ident name ++ ": " ++ ((v.bind Text.nonEmpty?).getD "any") ++ ";"]
  | .object h ms =>
    framed st (st.margin level) h []
      (if ms.isEmpty then [st.margin level ++ st.ident name ++ ": \x7b\x7d;"]
       else
        (st.margin level ++ st.ident name ++ ": \x7b") :: tableLines st (level + 1) ms ++
          [st.margin level ++ "\x7d;"])
  | .imported h path own =>
    framed st (st.margin level) h []
      [st.margin level ++ st.ident name ++ ": typeof import(\"" ++ path ++ "\")" ++
        (match own.bind Text.nonEmpty? with
          | some n => "." ++ n
          | none => "") ++ ";"]
  | .aliasOf h target =>
    framed st (st.margin level) h []
      [st.margin level ++ st.ident name ++ ": typeof " ++ target ++ ";"]
  | .typedef h ts =>
    framed st (st.margin level) h []
      [st.margin level ++ st.ident name ++ ": " ++ types ts "any" ++ ";"]

/-- The lines of a table of members. -/
def tableLines (st : Style) (level : Nat) : List (String × Decl) → List String
  | [] => []
  | (name, d) :: rest => memberLines st level (memberName name) d ++ tableLines st level rest

end

/-- The binding of an imported name to a local one. -/
def importBinding (st : Style) (name own : String) : String :=
  if own = name then st.ident name else own ++ " as " ++ st.ident name

/-- An import, or a re-export when the name is exported. -/
def importLine (st : Style) (name : String) (h : Header) (path : String) (own : Option String) :
    String :=
  let source := " from \"" ++ path ++ "\";"
  match own with
  | none =>
    if h.exported then
      if Text.startsWith "*" name then "export *" ++ source
      else "export * as " ++ st.ident name ++ source
    else "import * as " ++ st.ident name ++ source
  | some own =>
    if h.exported then "export \x7b " ++ importBinding st name own ++ " \x7d" ++ source
    else if own = "default" then "import " ++ st.ident name ++ source
    else "import \x7b " ++ importBinding st name own ++ " \x7d" ++ source

/-- The word in front of an exported item; imports and aliases say it themselves. -/
def exportWord (d : Decl) : String :=
  if d.exported && !d.isImported && !d.isAlias then "export " else ""

/-- The first line of an item, without indentation, and the lines after it. -/
def itemBody (st : Style) (level : Nat) (name : String) : Decl → String × List String
  | .function fn =>
    ("function " ++ st.ident name ++ " (" ++ signature fn ++ ") : " ++ types fn.result "void" ++
      ";", [])
  | .classDef _ c ms base =>
    ("class " ++ st.ident name ++
      (match base.bind Text.nonEmpty? with
        | some b => " extends " ++ b
        | none => "") ++ " \x7b",
      constructorLines st (st.margin (level + 1)) c ++ tableLines st (level + 1) ms ++
        [st.margin level ++ "\x7d"])
  | .binding _ ts keyword => (keyword ++ " " ++ st.ident name ++ ": " ++ types ts "any" ++ ";", [])
  | .constant _ none => ("const " ++ st.ident name ++ ": any;", [])
  | .constant _ (some v) => ("const " ++ st.ident name ++ " = " ++ v ++ ";", [])
  | .object _ [] => ("const " ++ st.ident name ++ ": \x7b\x7d;", [])
  | .object _ (m :: ms) =>
    ("const " ++ st.ident name ++ ": \x7b",
      tableLines st (level + 1) (m :: ms) ++ [st.margin level ++ "\x7d;"])
  | .imported h path own => (importLine st name h path own, [])
  | .aliasOf h target =>
    if h.exported then ("export \x7b " ++ target ++ " as " ++ st.ident name ++ " \x7d;", [])
    else ("const " ++ st.ident name ++ ": typeof " ++ target ++ ";", [])
  | .typedef _ ts => ("type " ++ st.ident name ++ " = " ++ types ts "any" ++ ";", [])

/-- The parameters that the documentation of an item lists. -/
def documentedParams : Decl → List Parameter
  | .function fn => fn.params
  | _ => []

/-- The lines of an item of a module. -/
def itemLines (st : Style) (level : Nat) (name : String) (d : Decl) : List String :=
  let (head, tail) := itemBody st level name d
  framed st (st.margin level) d.header (documentedParams d)
    ((st.margin level ++ exportWord d ++ head) :: tail)

end Ambient.Render
