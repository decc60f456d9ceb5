import Ambient.Proofs.Render.Unbroken
import Ambient.Proofs.Text.Opening

/-!
# Exports in a declaration file

Which lines of a declaration file export something.  A line is quiet when it clashes with the word
`export` behind the margin of the first level: documentation, diagnostics, everything inside a
class or an object, and the first line of a local item are quiet.  The only other lines are the
first line of an exported item and the lines that export a default or the module as a whole, so
counting export lines is counting those.

The default export is written by its name alone.  An item named `default` whose own flag is off,
as it is after the module was exported as a whole, is exported all the same.
-/

namespace Ambient.Render

open Ambient.Text

/-! ### Margins -/

/-- Every line below the first level opens with the first margin and one more blank. -/
theorem exists_margin_eq (st : Style) (hindent : 1 ≤ st.indent) (level : Nat) :
    ∃ r, st.margin (level + 2) = st.margin 1 ++ (" " ++ r) := by
  obtain ⟨k, hk⟩ : ∃ k : Nat, (st.indent * ((level + 2 : Nat) : Int)).toNat =
      (st.indent * ((1 : Nat) : Int)).toNat + (1 + k) := by
    have hlevel : (2 : Int) ≤ ((level + 2 : Nat) : Int) := by omega
    have hmul : st.indent * 2 ≤ st.indent * ((level + 2 : Nat) : Int) :=
      Int.mul_le_mul_of_nonneg_left hlevel (by omega)
    exact ⟨(st.indent * ((level + 2 : Nat) : Int)).toNat -
      (st.indent * ((1 : Nat) : Int)).toNat - 1, by omega⟩
  refine ⟨String.ofList (List.replicate k ' '), ?_⟩
  rw [← String.toList_inj]
  simp only [Style.margin, String.toList_append, String.toList_ofList, hk]
  rw [← List.replicate_append_replicate, ← List.replicate_append_replicate]
  rfl

/-- The line clashes with the word `export` behind the margin of the first level. -/
def Quiet (st : Style) (l : String) : Prop :=
  Clashes (st.margin 1 ++ "export") l

namespace Quiet

/-- A line at the first level is quiet when what follows its margin clashes with `export`. -/
theorem of_clashes (st : Style) {text : String} (h : Clashes "export" text) :
    Quiet st (st.margin 1 ++ text) :=
  h.cons_append (st.margin 1)

/-- A line below the first level is quiet whatever it says. -/
theorem of_margin (st : Style) (hindent : 1 ≤ st.indent) (level : Nat) (text : String) :
    Quiet st (st.margin (level + 2) ++ text) := by
  obtain ⟨r, hr⟩ := exists_margin_eq st hindent level
  have hclash : Clashes "export" (" " ++ (r ++ text)) :=
    Clashes.append_right (by decide) (r ++ text)
  rw [hr, String.append_assoc, String.append_assoc]
  exact of_clashes st hclash

/-- A quiet line is no export of any form. -/
theorem startsWith_eq_false {st : Style} {l : String} (h : Quiet st l) (form : String) :
    startsWith (st.margin 1 ++ ("export" ++ form)) l = false := by
  rw [← String.append_assoc]
  exact (Clashes.append_left h form).startsWith_eq_false

end Quiet

/-! ### Documentation and diagnostics -/

theorem comment_of_colors {st : Style} (h : st.colors = false) (text : String) :
    st.comment text = text := by
  rw [Style.comment, Style.paint, h]
  rfl

theorem ident_of_colors {st : Style} (h : st.colors = false) (text : String) :
    st.ident text = text := by
  rw [Style.ident, Style.paint, h]
  rfl

/-- A line of a documentation block opens the block or has the gutter. -/
theorem gutter_of_mem_docBlock {st : Style} (hcolors : st.colors = false) {ind description l : String}
    {params : List Parameter} (h : l ∈ st.docBlock ind description params) :
    l = ind ++ "/**" ∨ ∃ r, l = ind ++ (" *" ++ r) := by
  unfold Style.docBlock at h
  dsimp only at h
  split at h
  · cases h
  · obtain ⟨k, hk, rfl⟩ := List.mem_map.1 h
    rw [comment_of_colors hcolors]
    rw [List.mem_append, List.mem_cons, List.mem_singleton] at hk
    rcases hk with (rfl | hk) | rfl
    · exact .inl rfl
    · obtain ⟨body, _, rfl⟩ := List.mem_map.1 hk
      refine .inr ⟨String.ofList (trimBack isBlank (' ' :: body.toList)), ?_⟩
      have hlist : (ind ++ " * " ++ body).toList =
          (ind.toList ++ [' ']) ++ '*' :: (' ' :: body.toList) := by
        simp [String.toList_append]
      rw [← String.toList_inj, trimRight, hlist, trimBack_append_cons _ _ (by decide)]
      simp [String.toList_append]
    · exact .inr ⟨"/", by rw [← String.toList_inj]; simp [String.toList_append]⟩

/-- A documentation block is quiet, at the first level and below. -/
theorem quiet_docBlock {st : Style} (hcolors : st.colors = false) (hindent : 1 ≤ st.indent)
    (level : Nat) (description : String) (params : List Parameter) :
    ∀ l ∈ st.docBlock (st.margin (level + 1)) description params, Quiet st l := by
  intro l hl
  cases level with
  | zero =>
      rcases gutter_of_mem_docBlock hcolors hl with rfl | ⟨r, rfl⟩
      · exact Quiet.of_clashes st (by decide)
      · exact Quiet.of_clashes st (Clashes.append_right (by decide) r)
  | succ level =>
      rcases gutter_of_mem_docBlock hcolors hl with rfl | ⟨r, rfl⟩
      · exact Quiet.of_margin st hindent level _
      · exact Quiet.of_margin st hindent level _

theorem quiet_warningLines {st : Style} (hcolors : st.colors = false) (hindent : 1 ≤ st.indent)
    (level : Nat) (h : Header) : ∀ l ∈ st.warningLines (st.margin (level + 1)) h, Quiet st l := by
  intro l hl
  unfold Style.warningLines at hl
  split at hl
  · obtain ⟨message, _, rfl⟩ := List.mem_map.1 hl
    rw [Style.warning, Style.paint, hcolors, if_neg Bool.false_ne_true, String.append_assoc]
    cases level with
    | zero => exact Quiet.of_clashes st (Clashes.append_right (by decide) message)
    | succ level => exact Quiet.of_margin st hindent level _
  · cases hl

theorem quiet_framed {st : Style} (hcolors : st.colors = false) (hindent : 1 ≤ st.indent)
    (level : Nat) (h : Header) (params : List Parameter) {body : List String}
    (hbody : ∀ l ∈ body, Quiet st l) :
    ∀ l ∈ framed st (st.margin (level + 1)) h params body, Quiet st l := by
  intro l hl
  rw [framed, List.mem_append, List.mem_append] at hl
  rcases hl with (hl | hl) | hl
  · exact quiet_docBlock hcolors hindent level _ _ l hl
  · exact hbody l hl
  · exact quiet_warningLines hcolors hindent level h l hl

/-! ### Members -/

theorem quiet_constructorLines {st : Style} (hcolors : st.colors = false)
    (hindent : 1 ≤ st.indent) (level : Nat) (c : Option Callable) :
    ∀ l ∈ constructorLines st (st.margin (level + 2)) c, Quiet st l := by
  cases c with
  | none =>
      intro l hl
      cases hl
  | some fn =>
      intro l hl
      rw [constructorLines, List.mem_append] at hl
      rcases hl with hl | hl
      · split at hl
        · cases hl
        · rw [List.mem_append, List.mem_singleton] at hl
          rcases hl with hl | rfl
          · exact quiet_docBlock hcolors hindent (level + 1) _ _ l hl
          · rw [String.append_assoc, String.append_assoc]
            exact Quiet.of_margin st hindent level _
      · exact quiet_warningLines hcolors hindent (level + 1) _ l hl

theorem quiet_framed_line {st : Style} (hcolors : st.colors = false) (hindent : 1 ≤ st.indent)
    (level : Nat) (h : Header) (params : List Parameter) (text : String) :
    ∀ l ∈ framed st (st.margin (level + 2)) h params [st.margin (level + 2) ++ text],
      Quiet st l := by
  refine quiet_framed hcolors hindent (level + 1) h params ?_
  rw [List.forall_mem_singleton]
  exact Quiet.of_margin st hindent level text

mutual

theorem quiet_memberLines {st : Style} (hcolors : st.colors = false) (hindent : 1 ≤ st.indent)
    (level : Nat) (name : String) :
    ∀ d : Decl, ∀ l ∈ memberLines st (level + 2) name d, Quiet st l
  | .object hd ms => by
      have hmembers := quiet_tableLines hcolors hindent (level + 1) ms
      rw [memberLines]
      refine quiet_framed hcolors hindent (level + 1) hd [] ?_
      split
      · simp only [List.forall_mem_singleton, String.append_assoc]
        exact Quiet.of_margin st hindent level _
      · rw [List.cons_append, List.forall_mem_cons, List.forall_mem_append,
          List.forall_mem_singleton]
        refine ⟨?_, hmembers, Quiet.of_margin st hindent level _⟩
        rw [String.append_assoc]
        exact Quiet.of_margin st hindent level _
  | .function fn => by
      simp only [memberLines, String.append_assoc]
      exact quiet_framed_line hcolors hindent level _ _ _
  | .classDef hd c ms base => by
      simp only [memberLines, String.append_assoc]
      exact quiet_framed_line hcolors hindent level _ _ _
  | .binding hd ts keyword => by
      simp only [memberLines, String.append_assoc]
      exact quiet_framed_line hcolors hindent level _ _ _
  | .constant hd v => by
      simp only [memberLines, String.append_assoc]
      exact quiet_framed_line hcolors hindent level _ _ _
  | .imported hd path own => by
      simp only [memberLines, String.append_assoc]
      exact quiet_framed_line hcolors hindent level _ _ _
  | .aliasOf hd target => by
      simp only [memberLines, String.append_assoc]
      exact quiet_framed_line hcolors hindent level _ _ _
  | .typedef hd ts => by
      simp only [memberLines, String.append_assoc]
      exact quiet_framed_line hcolors hindent level _ _ _

theorem quiet_tableLines {st : Style} (hcolors : st.colors = false) (hindent : 1 ≤ st.indent)
    (level : Nat) :
    ∀ ms : List (String × Decl), ∀ l ∈ tableLines st (level + 2) ms, Quiet st l
  | [], _, hl => by cases hl
  | (name, d) :: rest, l, hl => by
      rw [tableLines, List.mem_append] at hl
      rcases hl with hl | hl
      · exact quiet_memberLines hcolors hindent level _ d l hl
      · exact quiet_tableLines hcolors hindent level rest l hl

end

/-! ### Items -/

/-- The lines of an item after its first are quiet. -/
theorem quiet_itemBody_tail {st : Style} (hcolors : st.colors = false) (hindent : 1 ≤ st.indent)
    (name : String) (d : Decl) : ∀ l ∈ (itemBody st 1 name d).2, Quiet st l := by
  cases d with
  | classDef hd c ms base =>
      rw [itemBody, List.forall_mem_append, List.forall_mem_append, List.forall_mem_singleton]
      exact ⟨⟨quiet_constructorLines hcolors hindent 0 c, quiet_tableLines hcolors hindent 0 ms⟩,
        Quiet.of_clashes st (by decide)⟩
  | object hd ms =>
      cases ms with
      | nil => exact List.forall_mem_nil _
      | cons m ms =>
          rw [itemBody, List.forall_mem_append, List.forall_mem_singleton]
          exact ⟨quiet_tableLines hcolors hindent 0 (m :: ms), Quiet.of_clashes st (by decide)⟩
  | constant hd v => cases v <;> exact List.forall_mem_nil _
  | aliasOf hd target =>
      rw [itemBody]
      split <;> exact List.forall_mem_nil _
  | _ => exact List.forall_mem_nil _

/-- The words that may declare a variable. -/
def keywords : List String :=
  ["var", "let", "const"]

/-- A variable is declared with one of these words. -/
def WellWorded : Decl → Prop
  | .binding _ _ keyword => keyword ∈ keywords
  | _ => True

instance (d : Decl) : Decidable (WellWorded d) :=
  match d with
  | .binding _ _ keyword => inferInstanceAs (Decidable (keyword ∈ keywords))
  | .constant .. | .imported .. | .function .. | .classDef .. | .object .. | .aliasOf ..
  | .typedef .. => isTrue trivial

/-- How the first line of an item goes on behind the margin and the word `export`. -/
def openings : List String :=
  ["function ", "class ", "const ", "type ", "var ", "let ", "*", "\x7b ", "import ",
   "import * as ", "import \x7b "]

theorem exists_opening_of_local {st : Style} (hcolors : st.colors = false) (name : String) {d : Decl}
    (hkeyword : WellWorded d) (himported : d.isImported = false)
    (halias : d.isAlias = false) : ∃ o ∈ openings, ∃ r, (itemBody st 1 name d).1 = o ++ r := by
  cases d with
  | function fn =>
      simp only [itemBody, String.append_assoc]
      exact ⟨"function ", by decide, _, rfl⟩
  | classDef hd c ms base =>
      simp only [itemBody, String.append_assoc]
      exact ⟨"class ", by decide, _, rfl⟩
  | binding hd ts keyword =>
      have hmem : keyword ++ " " ∈ openings := by
        have hk : keyword ∈ keywords := hkeyword
        simp only [keywords, List.mem_cons, List.not_mem_nil, or_false] at hk
        rcases hk with rfl | rfl | rfl <;> decide
      refine ⟨keyword ++ " ", hmem, name ++ (": " ++ (types ts "any" ++ ";")), ?_⟩
      simp only [itemBody, ident_of_colors hcolors, String.append_assoc]
  | constant hd v =>
      cases v with
      | none =>
          simp only [itemBody, String.append_assoc]
          exact ⟨"const ", by decide, _, rfl⟩
      | some v =>
          simp only [itemBody, String.append_assoc]
          exact ⟨"const ", by decide, _, rfl⟩
  | object hd ms =>
      cases ms with
      | nil =>
          simp only [itemBody, String.append_assoc]
          exact ⟨"const ", by decide, _, rfl⟩
      | cons m ms =>
          simp only [itemBody, String.append_assoc]
          exact ⟨"const ", by decide, _, rfl⟩
  | typedef hd ts =>
      simp only [itemBody, String.append_assoc]
      exact ⟨"type ", by decide, _, rfl⟩
  | imported hd path own => cases himported
  | aliasOf hd target => cases halias

theorem exists_opening_of_imported (st : Style) (name : String) (h : Header) (path : String)
    (own : Option String) : ∃ o ∈ openings, ∃ r,
      importLine st name h path own = (if h.exported then "export " else "") ++ (o ++ r) := by
  have hstar : "export *" = "export " ++ "*" := by decide
  have hstarAs : "export * as " = "export " ++ ("*" ++ " as ") := by decide
  have hbrace : "export \x7b " = "export " ++ "\x7b " := by decide
  cases own with
  | none =>
      rw [importLine]
      split
      · split
        · rw [hstar]
          simp only [String.append_assoc]
          exact ⟨"*", by decide, _, rfl⟩
        · rw [hstarAs]
          simp only [String.append_assoc]
          exact ⟨"*", by decide, _, rfl⟩
      · simp only [String.append_assoc, String.empty_append]
        exact ⟨"import * as ", by decide, _, rfl⟩
  | some own =>
      rw [importLine]
      split
      · rw [hbrace]
        simp only [String.append_assoc]
        exact ⟨"\x7b ", by decide, _, rfl⟩
      · split
        · simp only [String.append_assoc, String.empty_append]
          exact ⟨"import ", by decide, _, rfl⟩
        · simp only [String.append_assoc, String.empty_append]
          exact ⟨"import \x7b ", by decide, _, rfl⟩

/-- The first line of an item behind its margin: the word `export` when the item is exported, and
one of the openings. -/
theorem exists_opening {st : Style} (hcolors : st.colors = false) (name : String) {d : Decl}
    (hkeyword : WellWorded d) :
    ∃ o ∈ openings, ∃ r, exportWord d ++ (itemBody st 1 name d).1 =
      (if d.exported then "export " else "") ++ (o ++ r) := by
  by_cases himported : d.isImported = true
  · cases d with
    | imported hd path own =>
        have hword : exportWord (.imported hd path own) = "" := by simp [exportWord, Decl.isImported]
        rw [hword, String.empty_append]
        exact exists_opening_of_imported st name hd path own
    | _ => cases himported
  · by_cases halias : d.isAlias = true
    · cases d with
      | aliasOf hd target =>
          have hword : exportWord (.aliasOf hd target) = "" := by simp [exportWord, Decl.isAlias]
          have hbrace : "export \x7b " = "export " ++ "\x7b " := by decide
          have hexported : (Decl.aliasOf hd target).exported = hd.exported := rfl
          rw [hword, String.empty_append, hexported, itemBody]
          split
          · rw [hbrace]
            simp only [String.append_assoc]
            exact ⟨"\x7b ", by decide, _, rfl⟩
          · simp only [String.append_assoc, String.empty_append]
            exact ⟨"const ", by decide, _, rfl⟩
      | _ => cases halias
    · have himported := Bool.eq_false_iff.2 himported
      have halias := Bool.eq_false_iff.2 halias
      obtain ⟨o, ho, r, hr⟩ := exists_opening_of_local hcolors name hkeyword himported halias
      refine ⟨o, ho, r, ?_⟩
      rw [hr, exportWord, himported, halias]
      simp only [Bool.not_false, Bool.and_true]

theorem clashes_opening {o : String} (ho : o ∈ openings) :
    Clashes "export" o ∧ Clashes " = " (" " ++ o) := by
  have h : ∀ o ∈ openings, Clashes "export" o ∧ Clashes " = " (" " ++ o) := by decide
  exact h o ho

/-- The form of an export line, behind the first margin. -/
def exportsLine (st : Style) (form l : String) : Bool :=
  startsWith (st.margin 1 ++ ("export" ++ form)) l

/-- Quiet lines do not count. -/
theorem countP_of_quiet {st : Style} {ls : List String} (h : ∀ l ∈ ls, Quiet st l)
    (form : String) : ls.countP (exportsLine st form) = 0 := by
  rw [List.countP_eq_zero]
  intro l hl
  rw [exportsLine, (h l hl).startsWith_eq_false form]
  exact Bool.false_ne_true

/-- Of the lines of an item only the first can be an export. -/
theorem countP_itemLines {st : Style} (hcolors : st.colors = false) (hindent : 1 ≤ st.indent)
    (name : String) (d : Decl) (form : String) :
    (itemLines st 1 name d).countP (exportsLine st form) =
      if exportsLine st form (st.margin 1 ++ (exportWord d ++ (itemBody st 1 name d).1)) then 1
      else 0 := by
  have hdoc := countP_of_quiet (quiet_docBlock hcolors hindent 0 d.header.description
    (documentedParams d)) form
  have hwarn := countP_of_quiet (quiet_warningLines hcolors hindent 0 d.header) form
  have htail := countP_of_quiet (quiet_itemBody_tail hcolors hindent name d) form
  rw [itemLines_eq, framed, List.countP_append, List.countP_append, List.countP_cons, hdoc, hwarn,
    htail, String.append_assoc]
  omega

/-- An item that is not marked is no export of any form. -/
theorem exportsLine_opening (st : Style) {o : String} (ho : o ∈ openings) (r form : String) :
    exportsLine st form (st.margin 1 ++ ("" ++ (o ++ r))) = false := by
  have hquiet : Quiet st (st.margin 1 ++ ("" ++ (o ++ r))) := by
    rw [String.empty_append]
    exact Quiet.of_clashes st ((clashes_opening ho).1.append_right r)
  exact hquiet.startsWith_eq_false form

theorem countP_export_itemLines {st : Style} (hcolors : st.colors = false)
    (hindent : 1 ≤ st.indent) (name : String) {d : Decl}
    (hkeyword : WellWorded d) :
    (itemLines st 1 name d).countP (exportsLine st " ") = if d.exported then 1 else 0 := by
  obtain ⟨o, ho, r, hr⟩ := exists_opening hcolors name hkeyword
  rw [countP_itemLines hcolors hindent, hr]
  cases hd : d.exported with
  | true =>
      have hline : exportsLine st " " (st.margin 1 ++ ("export " ++ (o ++ r))) = true := by
        rw [exportsLine, startsWith_iff]
        simp only [String.toList_append, List.prefix_append_right_inj]
        exact List.prefix_append ..
      rw [if_pos rfl, if_pos hline, if_pos rfl]
  | false => rw [if_neg Bool.false_ne_true, exportsLine_opening st ho]

/-- No item exports the module as a whole. -/
theorem countP_assign_itemLines {st : Style} (hcolors : st.colors = false)
    (hindent : 1 ≤ st.indent) (name : String) {d : Decl}
    (hkeyword : WellWorded d) :
    (itemLines st 1 name d).countP (exportsLine st " = ") = 0 := by
  obtain ⟨o, ho, r, hr⟩ := exists_opening hcolors name hkeyword
  rw [countP_itemLines hcolors hindent, hr]
  cases hd : d.exported with
  | true =>
      have hclash : Clashes ("export" ++ " = ") ("export" ++ (" " ++ o ++ r)) :=
        ((clashes_opening ho).2.append_right r).cons_append "export"
      have hexport : "export " = "export" ++ " " := by decide
      have hline : exportsLine st " = " (st.margin 1 ++ ("export " ++ (o ++ r))) = false := by
        have hassoc : " " ++ (o ++ r) = " " ++ o ++ r := String.append_assoc.symm
        rw [exportsLine, hexport, String.append_assoc, hassoc]
        exact (hclash.cons_append (st.margin 1)).startsWith_eq_false
      rw [if_pos rfl, hline]
      rfl
  | false =>
      rw [if_neg Bool.false_ne_true, exportsLine_opening st ho]
      rfl

/-! ### Default and aggregate exports -/

/-- A line that opens with `export` in some form is an export of every form it begins with. -/
theorem exportsLine_margin (st : Style) (form rest : String) :
    exportsLine st form (st.margin 1 ++ ("export" ++ (form ++ rest))) = true := by
  rw [exportsLine, startsWith_iff]
  simp only [String.toList_append, List.prefix_append_right_inj]
  exact List.prefix_append ..

/-- Documentation and diagnostics around a line add no export to it. -/
theorem countP_framed_singleton {st : Style} (hcolors : st.colors = false)
    (hindent : 1 ≤ st.indent) (h : Header) (l form : String) :
    (framed st (st.margin 1) h [] [l]).countP (exportsLine st form) =
      if exportsLine st form l then 1 else 0 := by
  have hdoc := countP_of_quiet (quiet_docBlock hcolors hindent 0 h.description []) form
  have hwarn := countP_of_quiet (quiet_warningLines hcolors hindent 0 h) form
  rw [framed, List.countP_append, List.countP_append, List.countP_singleton, hdoc, hwarn]
  omega

theorem WellWorded.setExported {d : Decl} (h : WellWorded d) (b : Bool) :
    WellWorded (d.setExported b) := by
  cases d <;> exact h

/-- The default export is one export line, whatever its own flag says. -/
theorem countP_export_defaultLines {st : Style} (hcolors : st.colors = false)
    (hindent : 1 ≤ st.indent) {d : Decl} (hkeyword : WellWorded d) :
    (defaultLines st d).countP (exportsLine st " ") = 1 := by
  have hdefault : "export default " = "export" ++ (" " ++ "default ") := by decide
  have hnamed : "export default _default;" = "export" ++ (" " ++ "default _default;") := by decide
  unfold defaultLines
  split
  · rw [countP_framed_singleton hcolors hindent, hdefault]
    simp only [String.append_assoc]
    rw [exportsLine_margin, if_pos rfl]
  · rw [List.countP_append, countP_export_itemLines hcolors hindent _
      (hkeyword.setExported false), Decl.exported_setExported, List.countP_singleton, hnamed,
      exportsLine_margin]
    rfl

/-- An entry has one export line when its declaration is exported or is the default, and none
otherwise. -/
theorem countP_export_entryLines {st : Style} (hcolors : st.colors = false)
    (hindent : 1 ≤ st.indent) (name : String) {d : Decl}
    (hkeyword : WellWorded d) :
    (entryLines st name d).countP (exportsLine st " ") =
      if d.exported || (name = "default" && !d.isImported) then 1 else 0 := by
  unfold entryLines
  by_cases hdefault : (decide (name = "default") && !d.isImported) = true
  · rw [if_pos hdefault, hdefault, Bool.or_true, if_pos rfl]
    exact countP_export_defaultLines hcolors hindent hkeyword
  · rw [if_neg hdefault, Bool.eq_false_iff.2 hdefault, Bool.or_false]
    exact countP_export_itemLines hcolors hindent name hkeyword

/-- No entry exports the module as a whole. -/
theorem countP_assign_entryLines {st : Style} (hcolors : st.colors = false)
    (hindent : 1 ≤ st.indent) (name : String) {d : Decl}
    (hkeyword : WellWorded d) :
    (entryLines st name d).countP (exportsLine st " = ") = 0 := by
  have hclash (rest : String) : Clashes ("export" ++ " = ") ("export default " ++ rest) :=
    Clashes.append_right (by decide) rest
  have hline (rest : String) :
      exportsLine st " = " (st.margin 1 ++ ("export default " ++ rest)) = false :=
    ((hclash rest).cons_append (st.margin 1)).startsWith_eq_false
  have hnamed : "export default _default;" = "export default " ++ "_default;" := by decide
  unfold entryLines
  split
  · unfold defaultLines
    split
    · rw [countP_framed_singleton hcolors hindent, String.append_assoc, String.append_assoc, hline]
      rfl
    · rw [List.countP_append, countP_assign_itemLines hcolors hindent _
        (hkeyword.setExported false), List.countP_singleton, hnamed, hline]
      rfl
  · exact countP_assign_itemLines hcolors hindent name hkeyword

/-- The export of the module as a whole is one line. -/
theorem countP_assign_aggregateLines {st : Style} (hcolors : st.colors = false)
    (hindent : 1 ≤ st.indent) (items : Table Decl) {d : Decl}
    (hkeyword : WellWorded d) :
    (aggregateLines st items d).countP (exportsLine st " = ") = 1 := by
  have hassign : "export = " = "export" ++ (" = " ++ "") := by decide
  have hnamed : "export = _exports;" = "export" ++ (" = " ++ "_exports;") := by decide
  have hown : (itemLines st 1 "_exports" (d.setExported false) ++
      [st.margin 1 ++ "export = _exports;"]).countP (exportsLine st " = ") = 1 := by
    rw [List.countP_append, countP_assign_itemLines hcolors hindent _
      (hkeyword.setExported false), List.countP_singleton, hnamed, exportsLine_margin]
    rfl
  unfold aggregateLines
  split
  · split
    · rw [countP_framed_singleton hcolors hindent, hassign]
      simp only [String.append_assoc]
      rw [exportsLine_margin, if_pos rfl]
    · exact hown
  · exact hown

/-! ### The lines of a file -/

/-- The first margin is a blank and perhaps more blanks. -/
theorem exists_margin_one {st : Style} (hindent : 1 ≤ st.indent) :
    ∃ k : Nat, st.margin 1 = " " ++ String.ofList (List.replicate k ' ') := by
  obtain ⟨k, hk⟩ : ∃ k : Nat, (st.indent * ((1 : Nat) : Int)).toNat = k + 1 :=
    ⟨(st.indent * ((1 : Nat) : Int)).toNat - 1, by omega⟩
  refine ⟨k, ?_⟩
  rw [← String.toList_inj]
  simp only [Style.margin, String.toList_append, String.toList_ofList, hk]
  rfl

/-- A line that opens with no blank is quiet. -/
theorem Quiet.of_front {st : Style} (hindent : 1 ≤ st.indent) {text : String}
    (h : Clashes " " text) : Quiet st text := by
  obtain ⟨k, hk⟩ := exists_margin_one hindent
  rw [Quiet, hk, String.append_assoc]
  exact h.append_left _

/-- The gutter of the module's own documentation is quiet. -/
theorem Quiet.of_gutter {st : Style} (hindent : 1 ≤ st.indent) (text : String) :
    Quiet st (" *" ++ text) := by
  obtain ⟨k, hk⟩ := exists_margin_one hindent
  have hblanks : Clashes (String.ofList (List.replicate k ' ') ++ "export") ("*" ++ text) := by
    cases k with
    | zero => exact Clashes.append_right (by decide) text
    | succ k =>
        have hcons : String.ofList (List.replicate (k + 1) ' ') =
            " " ++ String.ofList (List.replicate k ' ') := by
          rw [← String.toList_inj]
          simp [String.toList_append, List.replicate_succ]
        rw [hcons, String.append_assoc]
        exact (Clashes.append_right (by decide : Clashes " " "*") text).append_left _
  have hstar : " *" ++ text = " " ++ ("*" ++ text) := by
    rw [← String.append_assoc]
    rfl
  rw [Quiet, hk, String.append_assoc, hstar]
  exact hblanks.cons_append " "

theorem quiet_docBlock_front {st : Style} (hcolors : st.colors = false) (hindent : 1 ≤ st.indent)
    (description : String) : ∀ l ∈ st.docBlock "" description [], Quiet st l := by
  intro l hl
  rcases gutter_of_mem_docBlock hcolors hl with rfl | ⟨r, rfl⟩
  · exact Quiet.of_front hindent (by decide)
  · rw [String.empty_append]
    exact Quiet.of_gutter hindent r

theorem exportsLine_empty (st : Style) (form : String) : exportsLine st form "" = false := by
  rw [Bool.eq_false_iff, Ne, exportsLine, startsWith_iff]
  simp [String.toList_append]

/-- A file exports its module as a whole on one line when it does so at all. -/
theorem countP_assign_moduleLines {st : Style} (hcolors : st.colors = false)
    (hindent : 1 ≤ st.indent) {m : Module}
    (hitems : ∀ e ∈ m.items, WellWorded e.2) (haggregate : ∀ d ∈ m.aggregate, WellWorded d) :
    (moduleLines st m).countP (exportsLine st " = ") = if m.aggregate.isSome then 1 else 0 := by
  have hdoc := countP_of_quiet (quiet_docBlock_front hcolors hindent m.description) " = "
  have hopen : exportsLine st " = " ("declare module \"" ++ m.name ++ "\" \x7b") = false := by
    rw [String.append_assoc]
    exact (Quiet.of_front hindent (Clashes.append_right (by decide) _)).startsWith_eq_false _
  have hclose : exportsLine st " = " "\x7d" = false :=
    (Quiet.of_front hindent (by decide)).startsWith_eq_false _
  have hentries : (m.items.flatMap fun e => "" :: entryLines st e.1 e.2).countP
      (exportsLine st " = ") = 0 := by
    rw [List.countP_flatMap, List.sum_eq_zero_iff_forall_eq_nat]
    intro n hn
    obtain ⟨e, he, rfl⟩ := List.mem_map.1 hn
    rw [Function.comp_apply, List.countP_cons, exportsLine_empty,
      countP_assign_entryLines hcolors hindent e.1 (hitems e he)]
    rfl
  have hwhole : (m.aggregate.toList.flatMap fun d => "" :: aggregateLines st m.items d).countP
      (exportsLine st " = ") = if m.aggregate.isSome then 1 else 0 := by
    cases hm : m.aggregate with
    | none => rfl
    | some d =>
        rw [Option.toList_some, List.flatMap_singleton, List.countP_cons, exportsLine_empty,
          countP_assign_aggregateLines hcolors hindent m.items (haggregate d hm)]
        rfl
  rw [moduleLines]
  simp only [List.countP_append, List.countP_singleton, hdoc, hopen, hentries, hwhole, hclose,
    Bool.false_eq_true, if_false, Nat.zero_add, Nat.add_zero]

/-- The exports of a declaration file.  Its rows are the lines it was written from; an item has one
export line when it is exported or is the default, so the lines follow the flag exactly when the
item is no local default; and the module is exported as a whole on one line or none. -/
theorem export_lines_file (st : Style) (m : Module) (hcolors : st.colors = false)
    (hindent : 1 ≤ st.indent) (hitems : ∀ e ∈ m.items, WellWorded e.2)
    (haggregate : ∀ d ∈ m.aggregate, WellWorded d) (htexts : ∀ s ∈ m.texts, Unbroken s) :
    rows (file st m) = moduleLines st m ++ [""] ∧
    (∀ e ∈ m.items, (entryLines st e.1 e.2).countP (exportsLine st " ") =
      if e.2.exported || (e.1 = "default" && !e.2.isImported) then 1 else 0) ∧
    (∀ e ∈ m.items, ((entryLines st e.1 e.2).countP (exportsLine st " ") =
        if e.2.exported then 1 else 0) ↔
      ¬ (e.1 = "default" ∧ e.2.isImported = false ∧ e.2.exported = false)) ∧
    (rows (file st m)).countP (exportsLine st " = ") = if m.aggregate.isSome then 1 else 0 := by
  have hrows := rows_file st htexts
  have hcount : ∀ e ∈ m.items, (entryLines st e.1 e.2).countP (exportsLine st " ") =
      if e.2.exported || (e.1 = "default" && !e.2.isImported) then 1 else 0 :=
    fun e he => countP_export_entryLines hcolors hindent e.1 (hitems e he)
  refine ⟨hrows, hcount, ?_, ?_⟩
  · intro e he
    rw [hcount e he]
    cases e.2.exported <;> cases e.2.isImported <;> by_cases hname : e.1 = "default" <;>
      simp [hname]
  · rw [hrows, List.countP_append, countP_assign_moduleLines hcolors hindent hitems haggregate,
      List.countP_singleton, exportsLine_empty]
    rfl

/-- An exported default beside a local class, in a module that is exported as a whole. -/
theorem export_lines_file_default :
    let m : Module :=
      { name := "m"
        items := [("default", .binding { exported := true } [] "let"),
          ("C", .classDef {} none [("x", .constant {} none)] none)]
        aggregate := some (.aliasOf {} "C") }
    (entryLines {} "default" (.binding { exported := true } [] "let")).countP
      (exportsLine {} " ") = 1 ∧ (rows (file {} m)).countP (exportsLine {} " = ") = 1 := by
  intro m
  have h := export_lines_file {} m rfl (by decide) (by decide) (by decide) (by decide)
  exact ⟨h.2.1 _ (List.mem_cons_self ..), h.2.2.2⟩

/-- A default whose flag was turned off by an export of the whole module is still exported. -/
theorem entryLines_local_default :
    ∃ m : Module, m.aggregate.isSome = true ∧
      ∃ e ∈ m.items, e.2.exported = false ∧
        (entryLines {} e.1 e.2).countP (exportsLine {} " ") ≠ 0 := by
  refine ⟨{ name := "m"
            items := [("default", .binding {} [⟨none, "number", []⟩] "var")]
            aggregate := some (.binding {} [⟨none, "number", []⟩] "var") },
    rfl, _, List.mem_cons_self .., rfl, ?_⟩
  rw [countP_export_entryLines rfl (by decide) _ (by decide)]
  decide

end Ambient.Render
