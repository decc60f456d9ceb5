import Ambient.Proofs.Text.Opening
import Ambient.Render.Module

/-!
# Lines before they are styled

A declaration file without its style: a line has a level of nesting and says something, and the style
only decides how wide the margin of a level is, what is painted, and whether warnings are shown.
`fileLines` gives the lines of a module in this form, from one block for the header, one for each item
and one for the aggregate export.  The main statement is that the lines of a declaration file are these
lines, written in the style of the file.
-/

namespace Ambient.Render

open Ambient.Text

/-! ### Lines -/

/-- What a line says behind its margin. -/
inductive Content where
  /-- The first line of a documentation block. -/
  | opening
  | doc (text : String)
  | closing
  /-- Code with a declared name in it. -/
  | naming (front name back : String)
  /-- Any other code. -/
  | code (text : String)
  | warning (message : String)

/-- A line of a declaration file. -/
structure Line where
  level : Nat
  content : Content

namespace Content

/-- The text behind the margin, without paint. -/
def text : Content → String
  | opening => "/**"
  | doc t => trimRight (" * " ++ t)
  | closing => " */"
  | naming front name back => front ++ (name ++ back)
  | code t => t
  | warning message => "// WARN: " ++ message

/-- The line warns of something. -/
def isWarning : Content → Bool
  | warning _ => true
  | _ => false

/-- The text behind a margin, painted: documentation and warnings with their margin, code only where
it declares a name. -/
def write (st : Style) (margin : String) : Content → String
  | opening => st.comment (margin ++ opening.text)
  | doc t => st.comment (margin ++ (doc t).text)
  | closing => st.comment (margin ++ closing.text)
  | naming front name back => margin ++ (front ++ (st.ident name ++ back))
  | code t => margin ++ t
  | warning message => st.warning (margin ++ (warning message).text)

end Content

/-- A line in a style. -/
def Line.write (st : Style) (l : Line) : String :=
  l.content.write st (st.margin l.level)

/-- Whether a style shows the line. -/
def Line.isShown (st : Style) (l : Line) : Bool :=
  st.warnings || !l.content.isWarning

/-- The lines that a style shows, in that style. -/
def written (st : Style) (ls : List Line) : List String :=
  (ls.filter (·.isShown st)).map (·.write st)

@[simp]
theorem written_nil (st : Style) : written st [] = [] := rfl

@[simp]
theorem written_append (st : Style) (ls ks : List Line) :
    written st (ls ++ ks) = written st ls ++ written st ks := by
  rw [written, List.filter_append, List.map_append]
  rfl

/-- Whatever warns of nothing is shown in every style. -/
theorem written_of_forall {st : Style} {ls : List Line}
    (h : ∀ l ∈ ls, l.content.isWarning = false) : written st ls = ls.map (·.write st) := by
  have hshown : ∀ l ∈ ls, l.isShown st = true := by
    intro l hl
    rw [Line.isShown, h l hl, Bool.not_false, Bool.or_true]
  rw [written, List.filter_eq_self.2 hshown]

theorem written_cons {st : Style} {l : Line} (h : l.content.isWarning = false) (ls : List Line) :
    written st (l :: ls) = l.write st :: written st ls := by
  rw [← List.singleton_append, written_append, written_of_forall (List.forall_mem_singleton.2 h)]
  rfl

@[simp]
theorem written_code (st : Style) (level : Nat) (text : String) :
    written st [⟨level, .code text⟩] = [st.margin level ++ text] :=
  written_cons rfl []

/-! ### Documentation and diagnostics -/

/-- The documentation of a declaration. -/
def docLines (level : Nat) (description : String) (params : List Parameter) : List Line :=
  let body := Style.docText description params
  if body.isEmpty then []
  else ⟨level, .opening⟩ :: body.map (fun t => ⟨level, .doc t⟩) ++ [⟨level, .closing⟩]

theorem forall_mem_docLines {P : Content → Prop} (level : Nat) {description : String}
    {params : List Parameter} (hopening : P .opening)
    (hdoc : ∀ t ∈ Style.docText description params, P (.doc t)) (hclosing : P .closing) :
    ∀ l ∈ docLines level description params, P l.content := by
  unfold docLines
  dsimp only
  split
  · exact List.forall_mem_nil _
  · rw [List.cons_append, List.forall_mem_cons, List.forall_mem_append, List.forall_mem_map,
      List.forall_mem_singleton]
    exact ⟨hopening, hdoc, hclosing⟩

/-- The diagnostics of a declaration. -/
def warnings (level : Nat) (h : Header) : List Line :=
  h.diagnostics.map fun m => ⟨level, .warning m⟩

/-- Documentation before a body and diagnostics after it. -/
def block (level : Nat) (h : Header) (params : List Parameter) (body : List Line) : List Line :=
  docLines level h.description params ++ body ++ warnings level h

/-- The gutter keeps the blanks before it. -/
theorem trimRight_gutter (ind t : String) :
    trimRight (ind ++ " * " ++ t) = ind ++ trimRight (" * " ++ t) := by
  have hgutter (front : List Char) : trimBack isBlank (front ++ (" * ".toList ++ t.toList)) =
      front ++ (' ' :: '*' :: trimBack isBlank (' ' :: t.toList)) := by
    have hlist : front ++ (" * ".toList ++ t.toList) =
        (front ++ [' ']) ++ '*' :: (' ' :: t.toList) := by simp
    rw [hlist, trimBack_append_cons _ _ (by decide)]
    simp
  have hnone := hgutter []
  rw [List.nil_append, List.nil_append] at hnone
  rw [← String.toList_inj]
  simp only [trimRight, String.toList_append, String.toList_ofList, List.append_assoc]
  rw [hgutter, hnone]

@[simp]
theorem written_docLines (st : Style) (level : Nat) (description : String)
    (params : List Parameter) :
    written st (docLines level description params) =
      st.docBlock (st.margin level) description params := by
  unfold docLines Style.docBlock
  dsimp only
  split
  · rfl
  · have hquiet : ∀ l ∈ (⟨level, .opening⟩ :: (Style.docText description params).map
        (fun t => (⟨level, .doc t⟩ : Line)) ++ [⟨level, .closing⟩]),
        l.content.isWarning = false := by
      simp only [List.cons_append, List.forall_mem_cons, List.forall_mem_append,
        List.forall_mem_map]
      exact ⟨rfl, fun _ _ => rfl, rfl, List.forall_mem_nil _⟩
    rw [written_of_forall hquiet]
    simp only [List.map_append, List.map_cons, List.map_map, List.map_nil, trimRight_gutter]
    rfl

@[simp]
theorem written_warnings (st : Style) (level : Nat) (h : Header) :
    written st (warnings level h) = st.warningLines (st.margin level) h := by
  unfold warnings Style.warningLines written
  cases hw : st.warnings with
  | true =>
      rw [List.filter_eq_self.2 (by simp [Line.isShown, hw]), List.map_map, if_pos rfl]
      simp only [String.append_assoc]
      rfl
  | false =>
      rw [List.filter_eq_nil_iff.2 (by simp [Line.isShown, Content.isWarning, hw])]
      rfl

@[simp]
theorem written_block (st : Style) (level : Nat) (h : Header) (params : List Parameter)
    (body : List Line) :
    written st (block level h params body) =
      framed st (st.margin level) h params (written st body) := by
  simp only [block, written_append, written_docLines, written_warnings, framed]

/-! ### Members -/

/-- The constructor inside a class. -/
def constructorBlock (level : Nat) : Option Callable → List Line
  | none => []
  | some c =>
    (if c.params.isEmpty then []
     else
       docLines level c.header.description c.params ++
         [⟨level, .code ("constructor (" ++ signature c ++ ");")⟩]) ++
      warnings level c.header

/-- What stands before the name of a member. -/
def memberFront : Decl → String
  | .function fn => if fn.isStatic then "static " else ""
  | _ => ""

/-- Another module, or a member of it. -/
def importType (path : String) (own : Option String) : String :=
  "import(\"" ++ path ++ "\")" ++
    (match own.bind nonEmpty? with
      | some n => "." ++ n
      | none => "")

/-- What stands behind the name of a member that takes one line. -/
def memberBack : Decl → String
  | .function fn => " (" ++ signature fn ++ ") : " ++ types fn.result "void" ++ ";"
  | .classDef _ c _ _ => ": new (" ++ (c.map signature).getD "" ++ ") => any;"
  | .binding _ ts _ => ": " ++ types ts "any" ++ ";"
  | .constant _ v => ": " ++ (v.bind nonEmpty?).getD "any" ++ ";"
  | .object _ _ => ": \x7b\x7d;"
  | .imported _ path own => ": typeof " ++ importType path own ++ ";"
  | .aliasOf _ target => ": typeof " ++ target ++ ";"
  | .typedef _ ts => ": " ++ types ts "any" ++ ";"

mutual

/-- The lines of a member, under its written name. -/
def memberBlock (level : Nat) (name : String) : Decl → List Line
  | .object h (m :: ms) =>
    block level h []
      (⟨level, .naming "" name ": \x7b"⟩ :: tableBlock (level + 1) (m :: ms) ++
        [⟨level, .code "\x7d;"⟩])
  | d =>
    block level d.header (documentedParams d)
      [⟨level, .naming (memberFront d) name (memberBack d)⟩]

/-- The lines of a table of members. -/
def tableBlock (level : Nat) : List (String × Decl) → List Line
  | [] => []
  | (name, d) :: rest => memberBlock level (memberName name) d ++ tableBlock level rest

end

@[simp]
theorem written_constructorBlock (st : Style) (level : Nat) (c : Option Callable) :
    written st (constructorBlock level c) = constructorLines st (st.margin level) c := by
  cases c with
  | none => rfl
  | some c =>
      rw [constructorBlock, constructorLines, written_append, written_warnings]
      split
      · rfl
      · simp only [written_append, written_docLines, written_code, String.append_assoc]

/-- A member whose own members are not shown, or that has none, takes one line. -/
def takesLine : Decl → Bool
  | .object _ ms => ms.isEmpty
  | _ => true

theorem memberBlock_of_line {d : Decl} (h : takesLine d = true) (level : Nat) (name : String) :
    memberBlock level name d = block level d.header (documentedParams d)
      [⟨level, .naming (memberFront d) name (memberBack d)⟩] := by
  rw [memberBlock]
  rintro hd m ms rfl
  cases h

theorem memberLines_of_line (st : Style) {d : Decl} (h : takesLine d = true) (level : Nat)
    (name : String) :
    memberLines st level name d = framed st (st.margin level) d.header (documentedParams d)
      [st.margin level ++ (memberFront d ++ (st.ident name ++ memberBack d))] := by
  cases d with
  | object hd ms =>
      cases ms with
      | nil =>
          rw [memberLines]
          simp only [memberFront, memberBack, Decl.header, documentedParams, String.append_assoc,
            String.empty_append, List.isEmpty_nil, if_true]
      | cons m ms => cases h
  | imported hd path own =>
      have htypeof : ": typeof import(\"" = ": typeof " ++ "import(\"" := by decide
      rw [memberLines, htypeof]
      simp only [memberFront, memberBack, importType, Decl.header, documentedParams]
      cases own.bind nonEmpty? <;> simp only [String.append_assoc, String.empty_append]
  | _ =>
      rw [memberLines]
      simp only [memberFront, memberBack, Decl.header, documentedParams, String.append_assoc,
        String.empty_append]

theorem written_memberBlock_of_line (st : Style) {d : Decl} (h : takesLine d = true) (level : Nat)
    (name : String) : written st (memberBlock level name d) = memberLines st level name d := by
  rw [memberBlock_of_line h, memberLines_of_line st h, written_block, written_cons rfl]
  rfl

mutual

theorem written_memberBlock (st : Style) (level : Nat) (name : String) :
    ∀ d : Decl, written st (memberBlock level name d) = memberLines st level name d
  | .object hd (m :: ms) => by
      rw [memberBlock, written_block, List.cons_append, written_cons rfl, written_append,
        written_tableBlock st (level + 1) (m :: ms), written_code, memberLines]
      simp only [Line.write, Content.write, String.empty_append, String.append_assoc,
        List.isEmpty_cons, Bool.false_eq_true, if_false, List.cons_append]
  | .object _ [] | .function _ | .classDef .. | .binding .. | .constant .. | .imported ..
  | .aliasOf .. | .typedef .. => written_memberBlock_of_line st rfl level name

theorem written_tableBlock (st : Style) (level : Nat) :
    ∀ ms : List (String × Decl), written st (tableBlock level ms) = tableLines st level ms
  | [] => rfl
  | (name, d) :: rest => by
      rw [tableBlock, tableLines, written_append, written_memberBlock st level _ d,
        written_tableBlock st level rest]

end

/-! ### Items -/

/-- The first line of an import or a re-export. -/
def importHead (name : String) (h : Header) (path : String) (own : Option String) : Content :=
  let source := " from \"" ++ path ++ "\";"
  match own with
  | none =>
    if h.exported then
      if Text.startsWith "*" name then .code ("export *" ++ source)
      else .naming "export * as " name source
    else .naming "import * as " name source
  | some own =>
    let front := if own = name then "" else own ++ " as "
    if h.exported then .naming ("export \x7b " ++ front) name (" \x7d" ++ source)
    else if own = "default" then .naming "import " name source
    else .naming ("import \x7b " ++ front) name (" \x7d" ++ source)

/-- The class that a class extends. -/
def heritage (base : Option String) : String :=
  match base.bind nonEmpty? with
  | some b => " extends " ++ b
  | none => ""

/-- What the first line of an item says. -/
def itemHead (name : String) (d : Decl) : Content :=
  match d with
  | .function fn =>
    .naming (exportWord d ++ "function ") name
      (" (" ++ signature fn ++ ") : " ++ types fn.result "void" ++ ";")
  | .classDef _ _ _ base =>
    .naming (exportWord d ++ "class ") name (heritage base ++ " \x7b")
  | .binding _ ts keyword =>
    .naming (exportWord d ++ (keyword ++ " ")) name (": " ++ types ts "any" ++ ";")
  | .constant _ none => .naming (exportWord d ++ "const ") name ": any;"
  | .constant _ (some v) => .naming (exportWord d ++ "const ") name (" = " ++ v ++ ";")
  | .object _ [] => .naming (exportWord d ++ "const ") name ": \x7b\x7d;"
  | .object _ (_ :: _) => .naming (exportWord d ++ "const ") name ": \x7b"
  | .imported h path own => importHead name h path own
  | .aliasOf h target =>
    if h.exported then .naming ("export \x7b " ++ target ++ " as ") name " \x7d;"
    else .naming "const " name (": typeof " ++ target ++ ";")
  | .typedef _ ts => .naming (exportWord d ++ "type ") name (" = " ++ types ts "any" ++ ";")

/-- The lines of an item after its first. -/
def itemTail (level : Nat) : Decl → List Line
  | .classDef _ c ms _ =>
    constructorBlock (level + 1) c ++ tableBlock (level + 1) ms ++ [⟨level, .code "\x7d"⟩]
  | .object _ (m :: ms) => tableBlock (level + 1) (m :: ms) ++ [⟨level, .code "\x7d;"⟩]
  | _ => []

/-- The lines of an item of a module. -/
def itemBlock (level : Nat) (name : String) (d : Decl) : List Line :=
  block level d.header (documentedParams d) (⟨level, itemHead name d⟩ :: itemTail level d)

theorem isWarning_itemHead (name : String) (d : Decl) : (itemHead name d).isWarning = false := by
  cases d with
  | constant hd v => cases v <;> rfl
  | object hd ms => cases ms <;> rfl
  | imported hd path own =>
      simp only [itemHead, importHead]
      split <;> repeat' split
      all_goals rfl
  | aliasOf hd target =>
      simp only [itemHead]
      split <;> rfl
  | _ => rfl

theorem write_importHead (st : Style) (margin name : String) (h : Header) (path : String)
    (own : Option String) :
    (importHead name h path own).write st margin = margin ++ importLine st name h path own := by
  cases own with
  | none =>
      rw [importHead, importLine]
      split
      · split <;> simp only [Content.write, String.append_assoc]
      · simp only [Content.write, String.append_assoc]
  | some own =>
      have hbinding (front back : String) :
          front ++ ((if own = name then "" else own ++ " as ") ++ (st.ident name ++ back)) =
            front ++ (importBinding st name own ++ back) := by
        rw [importBinding]
        split <;> simp only [String.empty_append, String.append_assoc]
      rw [importHead, importLine]
      split
      · simp only [Content.write, String.append_assoc, hbinding]
      · split <;> simp only [Content.write, String.append_assoc, hbinding]

theorem write_itemHead (st : Style) (level : Nat) (name : String) (d : Decl) (margin : String) :
    (itemHead name d).write st margin =
      margin ++ exportWord d ++ (itemBody st level name d).1 := by
  cases d with
  | classDef hd c ms base =>
      simp only [itemHead, itemBody, heritage, Content.write]
      cases base.bind nonEmpty? <;> simp only [String.append_assoc]
  | constant hd v =>
      cases v <;> simp only [itemHead, itemBody, Content.write, String.append_assoc]
  | object hd ms =>
      cases ms <;> simp only [itemHead, itemBody, Content.write, String.append_assoc]
  | imported hd path own =>
      have hword : exportWord (.imported hd path own) = "" := by simp [exportWord, Decl.isImported]
      rw [hword, String.append_empty]
      exact write_importHead st margin name hd path own
  | aliasOf hd target =>
      have hword : exportWord (.aliasOf hd target) = "" := by simp [exportWord, Decl.isAlias]
      rw [hword, String.append_empty, itemHead, itemBody]
      split <;> simp only [Content.write, String.append_assoc]
  | _ => simp only [itemHead, itemBody, Content.write, String.append_assoc]

theorem written_itemTail (st : Style) (level : Nat) (name : String) (d : Decl) :
    written st (itemTail level d) = (itemBody st level name d).2 := by
  cases d with
  | classDef hd c ms base =>
      rw [itemTail, itemBody, written_append, written_append, written_constructorBlock,
        written_tableBlock, written_code]
  | constant hd v => cases v <;> rfl
  | object hd ms =>
      cases ms with
      | nil => rfl
      | cons m ms =>
          rw [itemTail, itemBody, written_append, written_tableBlock, written_code]
  | aliasOf hd target =>
      rw [itemBody]
      split <;> rfl
  | _ => rfl

@[simp]
theorem written_itemBlock (st : Style) (level : Nat) (name : String) (d : Decl) :
    written st (itemBlock level name d) = itemLines st level name d := by
  rw [itemBlock, written_block, written_cons (isWarning_itemHead name d),
    written_itemTail st level name d, Line.write, write_itemHead st level]
  rfl

/-! ### Modules -/

/-- The item that stands for the module's default export. -/
def defaultBlock (d : Decl) : List Line :=
  match d with
  | .aliasOf h target => block 1 h [] [⟨1, .code ("export default " ++ target ++ ";")⟩]
  | _ => itemBlock 1 "_default" (d.setExported false) ++ [⟨1, .code "export default _default;"⟩]

/-- The lines of one entry of a module. -/
def entryBlock (name : String) (d : Decl) : List Line :=
  if name = "default" && !d.isImported then defaultBlock d else itemBlock 1 name d

/-- The export of the module as a whole. -/
def aggregateBlock (items : Table Decl) (d : Decl) : List Line :=
  let own := itemBlock 1 "_exports" (d.setExported false) ++ [⟨1, .code "export = _exports;"⟩]
  match d with
  | .aliasOf h target =>
    if items.has target then block 1 h [] [⟨1, .code ("export = " ++ target ++ ";")⟩] else own
  | _ => own

/-- The description of a module and the line that opens it. -/
def headerBlock (m : Module) : List Line :=
  docLines 0 m.description [] ++ [⟨0, .code ("declare module \"" ++ m.name ++ "\" \x7b")⟩]

/-- The blocks of a module behind its header. -/
def bodyBlocks (m : Module) : List (List Line) :=
  (m.items.map fun e => entryBlock e.1 e.2) ++ m.aggregate.toList.map (aggregateBlock m.items)

@[simp]
theorem written_entryBlock (st : Style) (name : String) (d : Decl) :
    written st (entryBlock name d) = entryLines st name d := by
  have hdefault : written st (defaultBlock d) = defaultLines st d := by
    cases d <;> simp only [defaultBlock, defaultLines, written_block, written_append,
      written_itemBlock, written_code, String.append_assoc]
  rw [entryBlock, entryLines]
  split
  · exact hdefault
  · exact written_itemBlock st 1 name d

@[simp]
theorem written_aggregateBlock (st : Style) (items : Table Decl) (d : Decl) :
    written st (aggregateBlock items d) = aggregateLines st items d := by
  have hown (d : Decl) : written st (itemBlock 1 "_exports" d ++
      [⟨1, .code "export = _exports;"⟩]) =
        itemLines st 1 "_exports" d ++ [st.margin 1 ++ "export = _exports;"] := by
    rw [written_append, written_itemBlock, written_code]
  cases d with
  | aliasOf hd target =>
      rw [aggregateBlock, aggregateLines]
      split
      · simp only [written_block, written_code, String.append_assoc]
      · exact hown _
  | _ => exact hown _

theorem margin_zero (st : Style) : st.margin 0 = "" := by
  rw [Style.margin, Int.natCast_zero, Int.mul_zero]
  rfl

@[simp]
theorem written_headerBlock (st : Style) (m : Module) :
    written st (headerBlock m) =
      st.docBlock "" m.description [] ++ ["declare module \"" ++ m.name ++ "\" \x7b"] := by
  rw [headerBlock, written_append, written_docLines, written_code, margin_zero,
    String.empty_append]

/-- The lines of a module: an empty line before each block but the header, and the closing brace. -/
def fileLines (m : Module) : List Line :=
  headerBlock m ++ (bodyBlocks m).flatMap (⟨0, .code ""⟩ :: ·) ++ [⟨0, .code "\x7d"⟩]

theorem forall_mem_fileLines {m : Module} {P : Line → Prop}
    (h : ∀ b ∈ headerBlock m :: bodyBlocks m, ∀ l ∈ b, P l) (hempty : P ⟨0, .code ""⟩)
    (hclose : P ⟨0, .code "\x7d"⟩) : ∀ l ∈ fileLines m, P l := by
  obtain ⟨hheader, hbody⟩ := List.forall_mem_cons.1 h
  rw [fileLines, List.forall_mem_append, List.forall_mem_append, List.forall_mem_singleton]
  refine ⟨⟨hheader, fun l hl => ?_⟩, hclose⟩
  obtain ⟨b, hb, hl⟩ := List.mem_flatMap.1 hl
  rcases List.mem_cons.1 hl with rfl | hl
  · exact hempty
  · exact hbody b hb l hl

theorem written_flatMap (st : Style) {α : Type} (as : List α) (f : α → List Line) :
    written st (as.flatMap f) = as.flatMap fun a => written st (f a) := by
  induction as with
  | nil => rfl
  | cons a as ih => rw [List.flatMap_cons, List.flatMap_cons, written_append, ih]

/-- The lines of a declaration file are the lines of its module, written in its style. -/
theorem moduleLines_eq (st : Style) (m : Module) : moduleLines st m = written st (fileLines m) := by
  have hcode (t : String) : (Line.mk 0 (.code t)).write st = t := by
    rw [Line.write, Content.write, margin_zero, String.empty_append]
  have hempty (b : List Line) : written st (⟨0, .code ""⟩ :: b) = "" :: written st b := by
    rw [written_cons rfl, hcode]
  have hclose : written st [⟨0, .code "\x7d"⟩] = ["\x7d"] := by
    rw [written_cons rfl, hcode, written_nil]
  simp only [moduleLines, fileLines, bodyBlocks, written_append, written_flatMap, hempty, hclose,
    List.flatMap_append, List.flatMap_map, written_headerBlock, written_entryBlock,
    written_aggregateBlock, List.append_assoc]

theorem moduleLines_ne_nil (st : Style) (m : Module) : moduleLines st m ≠ [] := by
  unfold moduleLines
  simp

/-! ### What a line can say -/

/-- Documentation and warnings. -/
def Content.isComment : Content → Bool
  | .naming _ _ _ => false
  | .code _ => false
  | _ => true

/-- The words that open a line of code without a declared name. -/
def codeWords : List String :=
  ["\x7d", "constructor (", "export ", "declare module \""]

/-- The forms of the lines of a block; `P` holds of the declarations that stand as items. -/
inductive Content.Occurs (P : Decl → Prop) : Content → Prop where
  | comment {c : Content} (h : c.isComment = true) : Occurs P c
  | member (name : String) (d : Decl) :
      Occurs P (.naming (memberFront d) (memberName name) (memberBack d))
  | opened (name : String) : Occurs P (.naming "" (memberName name) ": \x7b")
  | item (name : String) {d : Decl} (h : P d) : Occurs P (itemHead name d)
  | code {word : String} (h : word ∈ codeWords) (rest : String) : Occurs P (.code (word ++ rest))

section Occurs

variable {P : Decl → Prop}

theorem occurs_close : Content.Occurs P (.code "\x7d") :=
  .code (List.mem_cons_self ..) ""

theorem occurs_docLines (level : Nat) (description : String) (params : List Parameter) :
    ∀ l ∈ docLines level description params, l.content.Occurs P :=
  forall_mem_docLines level (.comment rfl) (fun _ _ => .comment rfl) (.comment rfl)

theorem occurs_warnings (level : Nat) (h : Header) :
    ∀ l ∈ warnings level h, l.content.Occurs P :=
  List.forall_mem_map.2 fun _ _ => .comment rfl

theorem occurs_block (level : Nat) (h : Header) (params : List Parameter) {body : List Line}
    (hbody : ∀ l ∈ body, l.content.Occurs P) :
    ∀ l ∈ block level h params body, l.content.Occurs P := by
  rw [block, List.forall_mem_append, List.forall_mem_append]
  exact ⟨⟨occurs_docLines level _ params, hbody⟩, occurs_warnings level h⟩

theorem occurs_constructorBlock (level : Nat) (c : Option Callable) :
    ∀ l ∈ constructorBlock level c, l.content.Occurs P := by
  cases c with
  | none => exact List.forall_mem_nil _
  | some c =>
      rw [constructorBlock, List.forall_mem_append]
      refine ⟨?_, occurs_warnings level c.header⟩
      split
      · exact List.forall_mem_nil _
      · rw [List.forall_mem_append, List.forall_mem_singleton, String.append_assoc]
        exact ⟨occurs_docLines level _ _, .code (by decide) _⟩

theorem occurs_memberBlock_of_line (level : Nat) (name : String) {d : Decl}
    (h : takesLine d = true) :
    ∀ l ∈ memberBlock level (memberName name) d, l.content.Occurs P := by
  rw [memberBlock_of_line h]
  exact occurs_block level _ _ (List.forall_mem_singleton.2 (.member name d))

mutual

theorem occurs_memberBlock (level : Nat) (name : String) :
    ∀ d : Decl, ∀ l ∈ memberBlock level (memberName name) d, l.content.Occurs P
  | .object hd (m :: ms) => by
      rw [memberBlock]
      refine occurs_block level hd [] ?_
      rw [List.cons_append, List.forall_mem_cons, List.forall_mem_append,
        List.forall_mem_singleton]
      exact ⟨.opened name, occurs_tableBlock (level + 1) (m :: ms),
        .code (List.mem_cons_self ..) ";"⟩
  | .object _ [] | .function _ | .classDef .. | .binding .. | .constant .. | .imported ..
  | .aliasOf .. | .typedef .. => occurs_memberBlock_of_line level name rfl

theorem occurs_tableBlock (level : Nat) :
    ∀ ms : List (String × Decl), ∀ l ∈ tableBlock level ms, l.content.Occurs P
  | [] => List.forall_mem_nil _
  | (name, d) :: rest => by
      rw [tableBlock, List.forall_mem_append]
      exact ⟨occurs_memberBlock level name d, occurs_tableBlock level rest⟩

end

theorem occurs_itemBlock (level : Nat) (name : String) {d : Decl} (h : P d) :
    ∀ l ∈ itemBlock level name d, l.content.Occurs P := by
  have htail : ∀ l ∈ itemTail level d, l.content.Occurs P := by
    cases d with
    | classDef hd c ms base =>
        rw [itemTail, List.forall_mem_append, List.forall_mem_append, List.forall_mem_singleton]
        exact ⟨⟨occurs_constructorBlock (level + 1) c, occurs_tableBlock (level + 1) ms⟩,
          occurs_close⟩
    | object hd ms =>
        cases ms with
        | nil => exact List.forall_mem_nil _
        | cons m ms =>
            rw [itemTail, List.forall_mem_append, List.forall_mem_singleton]
            exact ⟨occurs_tableBlock (level + 1) (m :: ms), .code (List.mem_cons_self ..) ";"⟩
    | _ => exact List.forall_mem_nil _
  exact occurs_block level _ _ (List.forall_mem_cons.2 ⟨.item name h, htail⟩)

/-- A line that exports what stands before it. -/
theorem occurs_append_export {ls : List Line} (h : ∀ l ∈ ls, l.content.Occurs P) (t : String) :
    ∀ l ∈ ls ++ [⟨1, .code ("export " ++ t)⟩], l.content.Occurs P := by
  rw [List.forall_mem_append, List.forall_mem_singleton]
  exact ⟨h, .code (by decide) t⟩

theorem occurs_aliasBlock (hd : Header) (t : String) :
    ∀ l ∈ block 1 hd [] [⟨1, .code ("export " ++ t)⟩], l.content.Occurs P :=
  occurs_block 1 hd [] (List.forall_mem_singleton.2 (.code (by decide) t))

variable (hP : ∀ d b, P d → P (d.setExported b))

include hP

theorem occurs_entryBlock (name : String) {d : Decl} (h : P d) :
    ∀ l ∈ entryBlock name d, l.content.Occurs P := by
  have halias : "export default " = "export " ++ "default " := by decide
  have hdefault : "export default _default;" = "export " ++ "default _default;" := by decide
  unfold entryBlock
  split
  · unfold defaultBlock
    split
    · rw [halias, String.append_assoc, String.append_assoc]
      exact occurs_aliasBlock _ _
    · rw [hdefault]
      exact occurs_append_export (occurs_itemBlock 1 _ (hP d false h)) _
  · exact occurs_itemBlock 1 name h

theorem occurs_aggregateBlock (items : Table Decl) {d : Decl} (h : P d) :
    ∀ l ∈ aggregateBlock items d, l.content.Occurs P := by
  have halias : "export = " = "export " ++ "= " := by decide
  have hexports : "export = _exports;" = "export " ++ "= _exports;" := by decide
  have hown : ∀ l ∈ itemBlock 1 "_exports" (d.setExported false) ++
      [⟨1, .code "export = _exports;"⟩], l.content.Occurs P := by
    rw [hexports]
    exact occurs_append_export (occurs_itemBlock 1 _ (hP d false h)) _
  unfold aggregateBlock
  dsimp only
  split
  · split
    · rw [halias, String.append_assoc, String.append_assoc]
      exact occurs_aliasBlock _ _
    · exact hown
  · exact hown

omit hP in
theorem occurs_headerBlock (m : Module) : ∀ l ∈ headerBlock m, l.content.Occurs P := by
  rw [headerBlock, List.forall_mem_append, List.forall_mem_singleton, String.append_assoc]
  exact ⟨occurs_docLines 0 _ _, .code (by decide) _⟩

theorem occurs_blocks {m : Module} (hitems : ∀ e ∈ m.items, P e.2) (haggregate : ∀ d ∈ m.aggregate, P d) :
    ∀ b ∈ headerBlock m :: bodyBlocks m, ∀ l ∈ b, l.content.Occurs P := by
  rw [bodyBlocks, List.forall_mem_cons, List.forall_mem_append, List.forall_mem_map,
    List.forall_mem_map]
  refine ⟨occurs_headerBlock m, fun e he => occurs_entryBlock hP e.1 (hitems e he), fun d hd => ?_⟩
  exact occurs_aggregateBlock hP m.items (haggregate d (Option.mem_toList.1 hd))

end Occurs

end Ambient.Render
