import Ambient.Proofs.Render.Line
import Ambient.Proofs.Text.Lacking
import Ambient.Proofs.Text.Row

/-!
# The rows of a declaration file

A declaration file is written line by line.  Descriptions may hold any characters: a documentation
block is cut into lines before it is written.  Every other text of a module is written as it is, so
a line feed in it would break a line in two.  `Module.texts` lists these texts, and the main
statement is that a file whose texts are unbroken has exactly the lines it was written from as its
rows.

Where the characters of a line come from is said for every control character at once: the printer
itself writes none, so a line lacks a control character when what it is written from does.
-/

namespace Ambient

/-! ### The texts of a module, descriptions aside -/

mutual

/-- The texts of a type. -/
def TypeRef.texts : TypeRef → List String
  | ⟨scope, name, args⟩ => scope.toList ++ name :: TypeRef.textsAll args

/-- The texts of several types. -/
def TypeRef.textsAll : List TypeRef → List String
  | [] => []
  | t :: ts => t.texts ++ TypeRef.textsAll ts

end

/-- The texts of a parameter, its description included: it is written on one line. -/
def Parameter.texts (p : Parameter) : List String :=
  p.name :: p.description.toList ++ TypeRef.textsAll p.types

/-- The texts of a function. -/
def Callable.texts (fn : Callable) : List String :=
  fn.header.diagnostics ++ fn.params.flatMap Parameter.texts ++ TypeRef.textsAll fn.result

mutual

/-- The texts of a declaration. -/
def Decl.texts : Decl → List String
  | .binding h ts keyword => h.diagnostics ++ keyword :: TypeRef.textsAll ts
  | .constant h v => h.diagnostics ++ v.toList
  | .imported h path own => h.diagnostics ++ path :: own.toList
  | .function fn => fn.texts
  | .classDef h c ms base =>
    h.diagnostics ++ c.toList.flatMap Callable.texts ++ base.toList ++ Decl.tableTexts ms
  | .object h ms => h.diagnostics ++ Decl.tableTexts ms
  | .aliasOf h target => h.diagnostics ++ [target]
  | .typedef h ts => h.diagnostics ++ TypeRef.textsAll ts

/-- The texts of named declarations, the names included. -/
def Decl.tableTexts : List (String × Decl) → List String
  | [] => []
  | (name, d) :: rest => name :: d.texts ++ Decl.tableTexts rest

end

/-- The texts of a module: its name and those of its declarations, descriptions aside. -/
def Module.texts (m : Module) : List String :=
  m.name :: Decl.tableTexts m.items ++ m.aggregate.toList.flatMap Decl.texts

/-! ### The descriptions of a module -/

/-- The description of a function. -/
def Callable.descriptions (fn : Callable) : List String :=
  [fn.header.description]

mutual

/-- The descriptions of a declaration and of everything in it. -/
def Decl.descriptions : Decl → List String
  | .classDef h c ms _ =>
    h.description :: c.toList.flatMap Callable.descriptions ++ Decl.tableDescriptions ms
  | .object h ms => h.description :: Decl.tableDescriptions ms
  | d => [d.header.description]

/-- The descriptions of named declarations. -/
def Decl.tableDescriptions : List (String × Decl) → List String
  | [] => []
  | (_, d) :: rest => d.descriptions ++ Decl.tableDescriptions rest

end

/-- The descriptions of a module: its own and those of its declarations. -/
def Module.descriptions (m : Module) : List String :=
  m.description :: Decl.tableDescriptions m.items ++ m.aggregate.toList.flatMap Decl.descriptions

namespace Render

open Ambient.Text

section Characters

variable {c : Char}

/-! ### Types and parameters -/

theorem le_of_isNameTail {d : Char} (h : isNameTail d = true) : 0x20 ≤ d.toNat := by
  have hcontrol : ∀ n < 0x20, isNameTail (Char.ofNat n) = false := by decide
  refine Nat.le_of_not_lt fun hlt => ?_
  have hfalse := hcontrol d.toNat hlt
  rw [Char.ofNat_toNat, h] at hfalse
  cases hfalse

theorem visible_qualified (s : String) : Visible (qualified s) := by
  have hdot : Visible "." := by decide
  refine forall_mem_intercalate hdot fun l hl d hd => ?_
  obtain ⟨piece, hpiece, rfl⟩ := List.mem_map.1 hl
  rw [String.toList_ofList] at hd
  have htail := eq_false_of_mem_piecesOf (List.mem_filter.1 hpiece).1 hd
  exact le_of_isNameTail (by simpa using htail)

theorem visible_moduleType (name : String) : Visible (moduleType name) := by
  have hname := visible_quoteAscii name
  unfold moduleType
  split
  · rename_i path member _
    split
    · simp +decide only [visible_append, hname, and_self]
    · simp +decide only [visible_append, visible_quoteAscii path, visible_qualified member,
        and_self]
  · simp +decide only [visible_append, hname, and_self]

theorem lacks_scopedName (hc : c.toNat < 0x20) (scope : Option String) {name : String} (h : Lacks c name) :
    Lacks c (scopedName scope name) := by
  unfold scopedName
  split
  · exact h
  · split
    · exact (visible_moduleType name).lacks hc
    · split
      · exact h
      · exact (visible_qualified _).lacks hc

mutual

theorem lacks_type (hc : c.toNat < 0x20) :
    ∀ t : TypeRef, (∀ s ∈ t.texts, Lacks c s) → Lacks c (type t)
  | ⟨scope, name, []⟩, h => by
      rw [type]
      exact lacks_scopedName hc scope (h name (by simp [TypeRef.texts]))
  | ⟨scope, name, a :: as⟩, h => by
      have hname := lacks_scopedName hc scope (h name (by simp [TypeRef.texts]))
      have hargs : Lacks c (String.intercalate ", " (typeList (a :: as))) :=
        Lacks.intercalate (Visible.lacks hc (by decide))
          (lacks_typeList hc (a :: as) fun s hs => h s (by simp [TypeRef.texts, hs]))
      rw [type]
      simp (disch := decide) only [lacks_append, hname, hargs, Visible.lacks hc, and_self]

theorem lacks_typeList (hc : c.toNat < 0x20) :
    ∀ ts : List TypeRef, (∀ s ∈ TypeRef.textsAll ts, Lacks c s) → ∀ l ∈ typeList ts, Lacks c l
  | [], _, _, hl => by cases hl
  | t :: ts, h, l, hl => by
      rw [TypeRef.textsAll, List.forall_mem_append] at h
      rw [typeList] at hl
      rcases List.mem_cons.1 hl with rfl | hl
      · exact lacks_type hc t h.1
      · exact lacks_typeList hc ts h.2 l hl

end

variable (hc : c.toNat < 0x20)

include hc

theorem lacks_types {ts : List TypeRef} {empty : String}
    (h : ∀ s ∈ TypeRef.textsAll ts, Lacks c s) (hempty : Visible empty) :
    Lacks c (types ts empty) := by
  unfold types
  split
  · exact hempty.lacks hc
  · exact Lacks.intercalate (Visible.lacks hc (by decide)) (lacks_typeList hc ts h)

theorem lacks_param {p : Parameter} (h : ∀ s ∈ p.texts, Lacks c s) : Lacks c (param p) := by
  have hname : Lacks c p.name := h _ (by simp [Parameter.texts])
  have htypes : Lacks c (types p.types "any") :=
    lacks_types hc (fun s hs => h s (by simp [Parameter.texts, hs])) (by decide)
  unfold param
  dsimp only
  split
  · split <;> simp (disch := decide) only [lacks_append, hname, htypes, Visible.lacks hc, and_self]
  · split <;> simp (disch := decide) only [lacks_append, hname, htypes, Visible.lacks hc, and_self]

omit hc in
theorem lacks_params {fn : Callable} (h : ∀ s ∈ fn.texts, Lacks c s) :
    ∀ p ∈ fn.params, ∀ s ∈ p.texts, Lacks c s := by
  intro p hp s hs
  have hmem : s ∈ fn.params.flatMap Parameter.texts := List.mem_flatMap.2 ⟨p, hp, hs⟩
  exact h s (by simp [Callable.texts, hmem])

theorem lacks_signature {fn : Callable} (h : ∀ s ∈ fn.texts, Lacks c s) :
    Lacks c (signature fn) := by
  refine Lacks.intercalate (Visible.lacks hc (by decide)) fun l hl => ?_
  obtain ⟨p, hp, rfl⟩ := List.mem_map.1 hl
  exact lacks_param hc (lacks_params h p hp)

theorem lacks_result {fn : Callable} (h : ∀ s ∈ fn.texts, Lacks c s) :
    Lacks c (types fn.result "void") :=
  lacks_types hc (fun s hs => h s (by simp [Callable.texts, hs])) (by decide)

theorem lacks_memberName {name : String} (h : Lacks c name) : Lacks c (memberName name) := by
  unfold memberName
  split
  · exact h
  · exact (visible_quoteAscii name).lacks hc

omit hc in
theorem lacks_of_nonEmpty {o : Option String} {n : String} (h : ∀ s ∈ o.toList, Lacks c s)
    (hn : o.bind nonEmpty? = some n) : Lacks c n := by
  obtain ⟨s, hs, hn⟩ := Option.bind_eq_some_iff.1 hn
  unfold nonEmpty? at hn
  split at hn
  · cases hn
  · rw [← Option.some.inj hn]
    exact h s (by simp [hs])

/-! ### Documentation and diagnostics -/

theorem lacks_docText {description : String} {params : List Parameter}
    (hlines : ∀ l ∈ lines description, Lacks c l)
    (h : ∀ p ∈ params, ∀ s ∈ p.texts, Lacks c s) :
    ∀ l ∈ Style.docText description params, Lacks c l := by
  -- The description is cut into lines; a parameter's description is one of the texts.
  have htagged : ∀ l ∈ params.filterMap (fun p =>
      (p.description.bind nonEmpty?).map fun d => "@param " ++ p.name ++ " " ++ d),
      Lacks c l := by
    intro l hl
    obtain ⟨p, hp, hl⟩ := List.mem_filterMap.1 hl
    obtain ⟨d, hd, rfl⟩ := Option.map_eq_some_iff.1 hl
    have hname : Lacks c p.name := h p hp _ (by simp [Parameter.texts])
    have hdesc : Lacks c d :=
      lacks_of_nonEmpty (fun s hs => h p hp s (by simp [Parameter.texts, hs])) hd
    simp (disch := decide) only [lacks_append, hname, hdesc, Visible.lacks hc, and_self]
  unfold Style.docText
  dsimp only
  split
  · exact List.forall_mem_append.2 ⟨hlines, htagged⟩
  · exact List.forall_mem_append.2 ⟨hlines, List.forall_mem_cons.2 ⟨List.not_mem_nil, htagged⟩⟩

theorem lacks_docLines (level : Nat) {description : String} {params : List Parameter}
    (hlines : ∀ l ∈ lines description, Lacks c l)
    (h : ∀ p ∈ params, ∀ s ∈ p.texts, Lacks c s) :
    ∀ l ∈ docLines level description params, Lacks c l.content.text := by
  have htext := lacks_docText hc hlines h
  refine forall_mem_docLines (P := fun content => Lacks c content.text) level
    (Visible.lacks (s := "/**") hc (by decide)) (fun t ht => ?_)
    (Visible.lacks (s := " */") hc (by decide))
  exact Lacks.trimRight (lacks_append.2 ⟨Visible.lacks hc (by decide), htext t ht⟩)

theorem lacks_warnings (level : Nat) {h : Header} (hdiag : ∀ s ∈ h.diagnostics, Lacks c s) :
    ∀ l ∈ warnings level h, Lacks c l.content.text := by
  refine List.forall_mem_map.2 fun m hm => ?_
  exact lacks_append.2 ⟨Visible.lacks hc (by decide), hdiag m hm⟩

theorem lacks_block (level : Nat) {h : Header} {params : List Parameter} {body : List Line}
    (hdiag : ∀ s ∈ h.diagnostics, Lacks c s) (hlines : ∀ l ∈ lines h.description, Lacks c l)
    (hparams : ∀ p ∈ params, ∀ s ∈ p.texts, Lacks c s)
    (hbody : ∀ l ∈ body, Lacks c l.content.text) :
    ∀ l ∈ block level h params body, Lacks c l.content.text := by
  rw [block, List.forall_mem_append, List.forall_mem_append]
  exact ⟨⟨lacks_docLines hc level hlines hparams, hbody⟩, lacks_warnings hc level hdiag⟩

theorem lacks_constructorBlock (level : Nat) (ctor : Option Callable)
    (h : ∀ s ∈ ctor.toList.flatMap Callable.texts, Lacks c s)
    (hlines : ∀ s ∈ ctor.toList.flatMap Callable.descriptions, ∀ l ∈ lines s, Lacks c l) :
    ∀ l ∈ constructorBlock level ctor, Lacks c l.content.text := by
  cases ctor with
  | none => exact List.forall_mem_nil _
  | some fn =>
      rw [Option.toList_some, List.flatMap_singleton] at h hlines
      have hdoc := lacks_docLines hc level (hlines _ (List.mem_singleton_self _)) (lacks_params h)
      rw [constructorBlock, List.forall_mem_append]
      refine ⟨?_, lacks_warnings hc level fun s hs => h s (by simp [Callable.texts, hs])⟩
      split
      · exact List.forall_mem_nil _
      · rw [List.forall_mem_append, List.forall_mem_singleton]
        refine ⟨hdoc, ?_⟩
        simp (disch := decide) only [Content.text, lacks_append, lacks_signature hc h, Visible.lacks hc,
          and_self]

/-! ### Declarations -/

omit hc in
theorem diagnostics_subset_texts (d : Decl) : d.header.diagnostics ⊆ d.texts := by
  intro s hs
  cases d <;> simp_all [Decl.header, Decl.texts, Callable.texts]

omit hc in
theorem description_mem_descriptions (d : Decl) : d.header.description ∈ d.descriptions := by
  cases d <;> simp [Decl.header, Decl.descriptions]

omit hc in
theorem lacks_documentedParams {d : Decl} (h : ∀ s ∈ d.texts, Lacks c s) :
    ∀ p ∈ documentedParams d, ∀ s ∈ p.texts, Lacks c s := by
  cases d with
  | function fn =>
      rw [Decl.texts] at h
      exact lacks_params h
  | _ => simp [documentedParams]

theorem lacks_memberFront (d : Decl) : Lacks c (memberFront d) := by
  refine Visible.lacks hc ?_
  cases d with
  | function fn =>
      rw [memberFront]
      split <;> decide
  | _ =>
      dsimp only [memberFront]
      decide

theorem lacks_memberBack {d : Decl} (h : ∀ s ∈ d.texts, Lacks c s) : Lacks c (memberBack d) := by
  cases d with
  | function fn =>
      rw [Decl.texts] at h
      simp (disch := decide) only [memberBack, lacks_append, lacks_signature hc h, lacks_result hc h,
        Visible.lacks hc, and_self]
  | classDef hd ctor ms base =>
      have hsig : Lacks c ((ctor.map signature).getD "") := by
        cases ctor with
        | none => exact Visible.lacks hc (by decide)
        | some fn => exact lacks_signature hc fun s hs => h s (by simp [Decl.texts, hs])
      simp (disch := decide) only [memberBack, lacks_append, hsig, Visible.lacks hc, and_self]
  | binding hd ts keyword =>
      have htypes : Lacks c (types ts "any") :=
        lacks_types hc (fun s hs => h s (by simp [Decl.texts, hs])) (by decide)
      simp (disch := decide) only [memberBack, lacks_append, htypes, Visible.lacks hc, and_self]
  | typedef hd ts =>
      have htypes : Lacks c (types ts "any") :=
        lacks_types hc (fun s hs => h s (by simp [Decl.texts, hs])) (by decide)
      simp (disch := decide) only [memberBack, lacks_append, htypes, Visible.lacks hc, and_self]
  | constant hd v =>
      have hvalue : Lacks c ((v.bind nonEmpty?).getD "any") := by
        cases hn : v.bind nonEmpty? with
        | none => exact Visible.lacks hc (by decide)
        | some n => exact lacks_of_nonEmpty (fun s hs => h s (by simp [Decl.texts, hs])) hn
      simp (disch := decide) only [memberBack, lacks_append, hvalue, Visible.lacks hc, and_self]
  | object hd ms => exact Visible.lacks (s := ": \x7b\x7d;") hc (by decide)
  | imported hd path own =>
      have hpath : Lacks c path := h _ (by simp [Decl.texts])
      have htype : Lacks c (importType path own) := by
        unfold importType
        split
        · rename_i n hn
          have hown : Lacks c n :=
            lacks_of_nonEmpty (fun s hs => h s (by simp [Decl.texts, hs])) hn
          simp (disch := decide) only [lacks_append, hpath, hown, Visible.lacks hc, and_self]
        · simp (disch := decide) only [lacks_append, hpath, Visible.lacks hc, and_self]
      simp (disch := decide) only [memberBack, lacks_append, htype, Visible.lacks hc, and_self]
  | aliasOf hd target =>
      have htarget : Lacks c target := h _ (by simp [Decl.texts])
      simp (disch := decide) only [memberBack, lacks_append, htarget, Visible.lacks hc, and_self]

/-- A member that takes one line. -/
theorem lacks_memberBlock_of_line (level : Nat) {name : String} (hname : Lacks c name) {d : Decl}
    (hline : takesLine d = true) (h : ∀ s ∈ d.texts, Lacks c s)
    (hlines : ∀ s ∈ d.descriptions, ∀ l ∈ lines s, Lacks c l) :
    ∀ l ∈ memberBlock level name d, Lacks c l.content.text := by
  rw [memberBlock_of_line hline]
  refine lacks_block hc level (fun s hs => h s (diagnostics_subset_texts d hs))
    (hlines _ (description_mem_descriptions d)) (lacks_documentedParams h) ?_
  rw [List.forall_mem_singleton]
  simp only [Content.text, lacks_append, lacks_memberFront hc d, hname, lacks_memberBack hc h,
    and_self]

mutual

theorem lacks_memberBlock (level : Nat) (name : String) (hname : Lacks c name) :
    ∀ d : Decl, (∀ s ∈ d.texts, Lacks c s) →
      (∀ s ∈ d.descriptions, ∀ l ∈ lines s, Lacks c l) →
      ∀ l ∈ memberBlock level name d, Lacks c l.content.text
  | .object hd (m :: ms), h, hlines => by
      have hmembers := lacks_tableBlock (level + 1) (m :: ms)
        (fun s hs => h s (by simp [Decl.texts, hs]))
        (fun s hs => hlines s (by simp [Decl.descriptions, hs]))
      rw [memberBlock]
      refine lacks_block hc level (fun s hs => h s (by simp [Decl.texts, hs]))
        (hlines _ (by simp [Decl.descriptions])) (List.forall_mem_nil _) ?_
      rw [List.cons_append, List.forall_mem_cons, List.forall_mem_append,
        List.forall_mem_singleton]
      refine ⟨?_, hmembers, Visible.lacks (s := "\x7d;") hc (by decide)⟩
      simp (disch := decide) only [Content.text, lacks_append, hname, Visible.lacks hc, and_self]
  | .object _ [], h, hlines | .function _, h, hlines | .classDef .., h, hlines
  | .binding .., h, hlines | .constant .., h, hlines | .imported .., h, hlines
  | .aliasOf .., h, hlines | .typedef .., h, hlines =>
      lacks_memberBlock_of_line hc level hname rfl h hlines

theorem lacks_tableBlock (level : Nat) :
    ∀ ms : List (String × Decl), (∀ s ∈ Decl.tableTexts ms, Lacks c s) →
      (∀ s ∈ Decl.tableDescriptions ms, ∀ l ∈ lines s, Lacks c l) →
      ∀ l ∈ tableBlock level ms, Lacks c l.content.text
  | [], _, _ => List.forall_mem_nil _
  | (name, d) :: rest, h, hlines => by
      have hname : Lacks c name := h _ (by simp [Decl.tableTexts])
      rw [tableBlock, List.forall_mem_append]
      refine ⟨?_, ?_⟩
      · exact lacks_memberBlock level _ (lacks_memberName hc hname) d
          (fun s hs => h s (by simp [Decl.tableTexts, hs]))
          (fun s hs => hlines s (by simp [Decl.tableDescriptions, hs]))
      · exact lacks_tableBlock level rest (fun s hs => h s (by simp [Decl.tableTexts, hs]))
          (fun s hs => hlines s (by simp [Decl.tableDescriptions, hs]))

end

theorem lacks_exportWord (d : Decl) : Lacks c (exportWord d) := by
  refine Visible.lacks hc ?_
  unfold exportWord
  split <;> decide

theorem lacks_importHead {name path : String} {own : Option String} (h : Header)
    (hname : Lacks c name) (hpath : Lacks c path) (hown : ∀ n ∈ own.toList, Lacks c n) :
    Lacks c (importHead name h path own).text := by
  cases own with
  | none =>
      rw [importHead]
      split
      · split <;> simp (disch := decide) only [Content.text, lacks_append, hname, hpath, Visible.lacks hc,
          and_self]
      · simp (disch := decide) only [Content.text, lacks_append, hname, hpath, Visible.lacks hc, and_self]
  | some own =>
      have hfront : Lacks c (if own = name then "" else own ++ " as ") := by
        split
        · exact Visible.lacks hc (by decide)
        · exact lacks_append.2 ⟨hown own (by simp), Visible.lacks hc (by decide)⟩
      rw [importHead]
      split
      · simp (disch := decide) only [Content.text, lacks_append, hname, hpath, hfront, Visible.lacks hc,
          and_self]
      · split <;> simp (disch := decide) only [Content.text, lacks_append, hname, hpath, hfront,
          Visible.lacks hc, and_self]

theorem lacks_itemHead {name : String} (hname : Lacks c name) {d : Decl}
    (h : ∀ s ∈ d.texts, Lacks c s) : Lacks c (itemHead name d).text := by
  have hword := lacks_exportWord hc d
  cases d with
  | function fn =>
      rw [Decl.texts] at h
      simp (disch := decide) only [itemHead, Content.text, lacks_append, hword, hname, lacks_signature hc h,
        lacks_result hc h, Visible.lacks hc, and_self]
  | classDef hd ctor ms base =>
      have hbase : Lacks c (heritage base) := by
        unfold heritage
        split
        · rename_i b hb
          exact lacks_append.2 ⟨Visible.lacks hc (by decide),
            lacks_of_nonEmpty (fun s hs => h s (by simp [Decl.texts, hs])) hb⟩
        · exact Visible.lacks hc (by decide)
      simp (disch := decide) only [itemHead, Content.text, lacks_append, hword, hname, hbase,
        Visible.lacks hc, and_self]
  | binding hd ts keyword =>
      have hkeyword : Lacks c keyword := h _ (by simp [Decl.texts])
      have htypes : Lacks c (types ts "any") :=
        lacks_types hc (fun s hs => h s (by simp [Decl.texts, hs])) (by decide)
      simp (disch := decide) only [itemHead, Content.text, lacks_append, hword, hname, hkeyword, htypes,
        Visible.lacks hc, and_self]
  | constant hd v =>
      cases v with
      | none =>
          simp (disch := decide) only [itemHead, Content.text, lacks_append, hword, hname, Visible.lacks hc,
            and_self]
      | some v =>
          have hvalue : Lacks c v := h _ (by simp [Decl.texts])
          simp (disch := decide) only [itemHead, Content.text, lacks_append, hword, hname, hvalue,
            Visible.lacks hc, and_self]
  | object hd ms =>
      cases ms <;> simp (disch := decide) only [itemHead, Content.text, lacks_append, hword, hname,
        Visible.lacks hc, and_self]
  | imported hd path own =>
      have hpath : Lacks c path := h _ (by simp [Decl.texts])
      exact lacks_importHead hc hd hname hpath fun n hn => h n (by simp_all [Decl.texts])
  | aliasOf hd target =>
      have htarget : Lacks c target := h _ (by simp [Decl.texts])
      rw [itemHead]
      split <;> simp (disch := decide) only [Content.text, lacks_append, hname, htarget, Visible.lacks hc,
        and_self]
  | typedef hd ts =>
      have htypes : Lacks c (types ts "any") :=
        lacks_types hc (fun s hs => h s (by simp [Decl.texts, hs])) (by decide)
      simp (disch := decide) only [itemHead, Content.text, lacks_append, hword, hname, htypes,
        Visible.lacks hc, and_self]

theorem lacks_itemTail (level : Nat) {d : Decl} (h : ∀ s ∈ d.texts, Lacks c s)
    (hlines : ∀ s ∈ d.descriptions, ∀ l ∈ lines s, Lacks c l) :
    ∀ l ∈ itemTail level d, Lacks c l.content.text := by
  cases d with
  | classDef hd ctor ms base =>
      have hctor := lacks_constructorBlock hc (level + 1) ctor
        (fun s hs => h s (by simp only [Decl.texts, List.mem_append, hs, or_true, true_or]))
        (fun s hs => hlines s (by
          simp only [Decl.descriptions, List.cons_append, List.mem_cons, List.mem_append, hs,
            true_or, or_true]))
      have hmembers := lacks_tableBlock hc (level + 1) ms
        (fun s hs => h s (by simp [Decl.texts, hs]))
        (fun s hs => hlines s (by simp [Decl.descriptions, hs]))
      rw [itemTail, List.forall_mem_append, List.forall_mem_append, List.forall_mem_singleton]
      exact ⟨⟨hctor, hmembers⟩, Visible.lacks (s := "\x7d") hc (by decide)⟩
  | object hd ms =>
      cases ms with
      | nil => exact List.forall_mem_nil _
      | cons m ms =>
          have hmembers := lacks_tableBlock hc (level + 1) (m :: ms)
            (fun s hs => h s (by simp [Decl.texts, hs]))
            (fun s hs => hlines s (by simp [Decl.descriptions, hs]))
          rw [itemTail, List.forall_mem_append, List.forall_mem_singleton]
          exact ⟨hmembers, Visible.lacks (s := "\x7d;") hc (by decide)⟩
  | _ => exact List.forall_mem_nil _

theorem lacks_itemBlock (level : Nat) {name : String} (hname : Lacks c name) {d : Decl}
    (h : ∀ s ∈ d.texts, Lacks c s) (hlines : ∀ s ∈ d.descriptions, ∀ l ∈ lines s, Lacks c l) :
    ∀ l ∈ itemBlock level name d, Lacks c l.content.text := by
  refine lacks_block hc level (fun s hs => h s (diagnostics_subset_texts d hs))
    (hlines _ (description_mem_descriptions d)) (lacks_documentedParams h) ?_
  exact List.forall_mem_cons.2 ⟨lacks_itemHead hc hname h, lacks_itemTail hc level h hlines⟩

/-! ### The file -/

omit hc in
theorem texts_setExported (d : Decl) (b : Bool) : (d.setExported b).texts = d.texts := by
  cases d <;> simp [Decl.setExported, Decl.mapHeader, Decl.texts, Callable.texts]

omit hc in
theorem descriptions_setExported (d : Decl) (b : Bool) :
    (d.setExported b).descriptions = d.descriptions := by
  cases d <;> simp [Decl.setExported, Decl.mapHeader, Decl.descriptions, Decl.header]

/-- A declaration under a name of the printer's own, and the line that exports it. -/
theorem lacks_ownBlock {name last : String} (hname : Visible name) (hlast : Visible last)
    {d : Decl} (h : ∀ s ∈ d.texts, Lacks c s)
    (hlines : ∀ s ∈ d.descriptions, ∀ l ∈ lines s, Lacks c l) :
    ∀ l ∈ itemBlock 1 name (d.setExported false) ++ [⟨1, .code last⟩],
      Lacks c l.content.text := by
  rw [List.forall_mem_append, List.forall_mem_singleton]
  refine ⟨lacks_itemBlock hc 1 (hname.lacks hc) ?_ ?_, hlast.lacks hc⟩
  · rwa [texts_setExported]
  · rwa [descriptions_setExported]

/-- An alias that is exported by a line of its own. -/
theorem lacks_aliasBlock {hd : Header} {target front : String} (hfront : Visible front)
    (h : ∀ s ∈ (Decl.aliasOf hd target).texts, Lacks c s)
    (hlines : ∀ s ∈ (Decl.aliasOf hd target).descriptions, ∀ l ∈ lines s, Lacks c l) :
    ∀ l ∈ block 1 hd [] [⟨1, .code (front ++ target ++ ";")⟩], Lacks c l.content.text := by
  have htarget : Lacks c target := h _ (by simp [Decl.texts])
  refine lacks_block hc 1 (fun s hs => h s (by simp [Decl.texts, hs]))
    (hlines _ (by simp [Decl.descriptions, Decl.header])) (List.forall_mem_nil _) ?_
  rw [List.forall_mem_singleton]
  simp (disch := decide) only [Content.text, lacks_append, hfront.lacks hc, htarget, Visible.lacks hc,
    and_self]

theorem lacks_entryBlock {name : String} (hname : Lacks c name) {d : Decl}
    (h : ∀ s ∈ d.texts, Lacks c s) (hlines : ∀ s ∈ d.descriptions, ∀ l ∈ lines s, Lacks c l) :
    ∀ l ∈ entryBlock name d, Lacks c l.content.text := by
  unfold entryBlock
  split
  · unfold defaultBlock
    split
    · exact lacks_aliasBlock hc (by decide) h hlines
    · exact lacks_ownBlock hc (by decide) (by decide) h hlines
  · exact lacks_itemBlock hc 1 hname h hlines

theorem lacks_aggregateBlock (items : Table Decl) {d : Decl} (h : ∀ s ∈ d.texts, Lacks c s)
    (hlines : ∀ s ∈ d.descriptions, ∀ l ∈ lines s, Lacks c l) :
    ∀ l ∈ aggregateBlock items d, Lacks c l.content.text := by
  have hown : ∀ l ∈ itemBlock 1 "_exports" (d.setExported false) ++
      [⟨1, .code "export = _exports;"⟩], Lacks c l.content.text :=
    lacks_ownBlock hc (by decide) (by decide) h hlines
  unfold aggregateBlock
  dsimp only
  split
  · split
    · exact lacks_aliasBlock hc (by decide) h hlines
    · exact hown
  · exact hown

theorem lacks_headerBlock {m : Module} (hname : Lacks c m.name)
    (hlines : ∀ l ∈ lines m.description, Lacks c l) :
    ∀ l ∈ headerBlock m, Lacks c l.content.text := by
  rw [headerBlock, List.forall_mem_append, List.forall_mem_singleton]
  refine ⟨lacks_docLines hc 0 hlines (List.forall_mem_nil _), ?_⟩
  simp (disch := decide) only [Content.text, lacks_append, hname, Visible.lacks hc, and_self]

omit hc in
theorem mem_tableTexts {ms : Table Decl} {e : String × Decl} (he : e ∈ ms) :
    e.1 ∈ Decl.tableTexts ms ∧ e.2.texts ⊆ Decl.tableTexts ms := by
  induction ms with
  | nil => cases he
  | cons f ms ih =>
      rcases List.mem_cons.1 he with rfl | he
      · exact ⟨by simp [Decl.tableTexts], fun s hs => by simp [Decl.tableTexts, hs]⟩
      · obtain ⟨hname, htexts⟩ := ih he
        exact ⟨by simp [Decl.tableTexts, hname], fun s hs => by simp [Decl.tableTexts, htexts hs]⟩

omit hc in
theorem mem_tableDescriptions {ms : Table Decl} {e : String × Decl} (he : e ∈ ms) :
    e.2.descriptions ⊆ Decl.tableDescriptions ms := by
  induction ms with
  | nil => cases he
  | cons f ms ih =>
      intro s hs
      rcases List.mem_cons.1 he with rfl | he
      · simp [Decl.tableDescriptions, hs]
      · simp [Decl.tableDescriptions, ih he hs]

/-- The lines of a module lack a control character that its texts and its descriptions lack. -/
theorem lacks_fileLines {m : Module} (h : ∀ s ∈ m.texts, Lacks c s)
    (hlines : ∀ s ∈ m.descriptions, ∀ l ∈ lines s, Lacks c l) :
    ∀ l ∈ fileLines m, Lacks c l.content.text := by
  refine forall_mem_fileLines ?_ (Visible.lacks (s := "") hc (by decide))
    (Visible.lacks (s := "\x7d") hc (by decide))
  rw [bodyBlocks, List.forall_mem_cons, List.forall_mem_append, List.forall_mem_map,
    List.forall_mem_map]
  refine ⟨lacks_headerBlock hc (h _ (by simp [Module.texts]))
    (hlines _ (by simp [Module.descriptions])), fun e he => ?_, fun d hd => ?_⟩
  · obtain ⟨hname, htexts⟩ := mem_tableTexts he
    have hdescriptions := mem_tableDescriptions he
    exact lacks_entryBlock hc (h _ (by simp [Module.texts, hname]))
      (fun s hs => h s (by simp [Module.texts, htexts hs]))
      (fun s hs => hlines s (by simp [Module.descriptions, hdescriptions hs]))
  · refine lacks_aggregateBlock hc m.items (fun s hs => h s ?_) fun s hs => hlines s ?_
    · have hmem : s ∈ m.aggregate.toList.flatMap Decl.texts := List.mem_flatMap.2 ⟨d, hd, hs⟩
      simp [Module.texts, hmem]
    · have hmem : s ∈ m.aggregate.toList.flatMap Decl.descriptions :=
        List.mem_flatMap.2 ⟨d, hd, hs⟩
      simp [Module.descriptions, hmem]

/-! ### Styles -/

theorem lacks_margin (st : Style) (level : Nat) : Lacks c (st.margin level) := by
  refine Visible.lacks hc fun d hd => ?_
  rw [Style.margin, String.toList_ofList] at hd
  rw [List.eq_of_mem_replicate hd]
  decide

theorem lacks_paint {st : Style} (hst : st.colors = true → c ≠ '\x1b') {code text : String}
    (hcode : Visible code) (h : Lacks c text) : Lacks c (st.paint code text) := by
  unfold Style.paint
  split
  · rename_i hcolors
    have hescape : Lacks c "\x1b[" := by
      intro hmem
      rcases List.mem_cons.1 hmem with heq | hmem
      · exact hst hcolors heq
      · exact Visible.lacks (s := "[") hc (by decide) hmem
    have hreset : "\x1b[0m" = "\x1b[" ++ "0m" := by decide
    rw [hreset]
    simp (disch := decide) only [lacks_append, hescape, hcode.lacks hc, h, Visible.lacks hc, and_self]
  · exact h

/-- Painting adds no control character but the escape. -/
theorem lacks_write {st : Style} (hst : st.colors = true → c ≠ '\x1b') {l : Line}
    (h : Lacks c l.content.text) : Lacks c (l.write st) := by
  have hmargin := lacks_margin hc st l.level
  obtain ⟨level, content⟩ := l
  cases content with
  | naming front name back =>
      simp only [Content.text, lacks_append] at h
      obtain ⟨hfront, hname, hback⟩ := h
      have hident : Lacks c (st.ident name) := lacks_paint hc hst (by decide) hname
      simp only [Line.write, Content.write, lacks_append, hmargin, hfront, hident, hback, and_self]
  | code t => exact lacks_append.2 ⟨hmargin, h⟩
  | opening | doc t | closing | warning m =>
      exact lacks_paint hc hst (by decide) (lacks_append.2 ⟨hmargin, h⟩)

theorem lacks_moduleLines {st : Style} (hst : st.colors = true → c ≠ '\x1b') {m : Module}
    (h : ∀ s ∈ m.texts, Lacks c s) (hlines : ∀ s ∈ m.descriptions, ∀ l ∈ lines s, Lacks c l) :
    ∀ l ∈ moduleLines st m, Lacks c l := by
  rw [moduleLines_eq]
  refine List.forall_mem_map.2 fun l hl => ?_
  exact lacks_write hc hst (lacks_fileLines hc h hlines l (List.mem_filter.1 hl).1)

end Characters

/-! ### Rows -/

theorem itemLines_eq (st : Style) (level : Nat) (name : String) (d : Decl) :
    itemLines st level name d =
      framed st (st.margin level) d.header (documentedParams d)
        ((st.margin level ++ exportWord d ++ (itemBody st level name d).1) ::
          (itemBody st level name d).2) :=
  rfl

theorem unbroken_moduleLines (st : Style) {m : Module} (h : ∀ s ∈ m.texts, Unbroken s) :
    ∀ l ∈ moduleLines st m, Unbroken l :=
  lacks_moduleLines (c := '\n') (by decide) (fun _ => by decide) h
    fun _ _ _ hl => unbroken_of_mem_lines hl

/-- The rows of a declaration file are those of the lines it was written from, and an empty one
behind the line feed at its end. -/
theorem rows_file_eq_flatMap (st : Style) (m : Module) :
    rows (file st m) = (moduleLines st m).flatMap rows ++ [""] :=
  rows_joinLines_newline (moduleLines_ne_nil st m)

/-- Where no text is broken, these are the lines themselves. -/
theorem rows_file (st : Style) {m : Module} (h : ∀ s ∈ m.texts, Unbroken s) :
    rows (file st m) = moduleLines st m ++ [""] := by
  rw [rows_file_eq_flatMap, flatMap_rows_of_unbroken (unbroken_moduleLines st h)]

end Render

end Ambient
