import Ambient.Proofs.Render.Export
import Ambient.Proofs.Render.Line
import Ambient.Proofs.Render.MemberName

/-!
# Warnings in a declaration file

The diagnostics of a module reach its declaration file as warnings and in no other way.  `Module.notes`
lists the diagnostics that are shown, each with the level of its line: item by item and then the
aggregate export, of a declaration first what its constructor and its members have to say and then its
own.  A class among members is written on one line, so only its own diagnostics are shown.

Every block of a file is sorted into its warnings, which are the notes, and the other lines, which are
those of the same block without diagnostics.
-/

namespace Ambient

/-! ### Modules without diagnostics -/

def Header.silent (h : Header) : Header :=
  { h with diagnostics := [] }

def Callable.silent (fn : Callable) : Callable :=
  { fn with header := fn.header.silent }

mutual

/-- The declaration with all its diagnostics taken away, and those of everything in it. -/
def Decl.silent : Decl → Decl
  | .classDef h c ms base => .classDef h.silent (c.map Callable.silent) (Decl.silentAll ms) base
  | .object h ms => .object h.silent (Decl.silentAll ms)
  | d => d.mapHeader Header.silent

def Decl.silentAll : List (String × Decl) → List (String × Decl)
  | [] => []
  | (name, d) :: rest => (name, d.silent) :: Decl.silentAll rest

end

/-- The module with all its diagnostics taken away. -/
def Module.silent (m : Module) : Module :=
  { m with items := Decl.silentAll m.items, aggregate := m.aggregate.map Decl.silent }

/-! ### Diagnostics in the order of a file -/

/-- The diagnostics of a header, shown at a level. -/
def Header.notes (level : Nat) (h : Header) : List (Nat × String) :=
  h.diagnostics.map fun message => (level, message)

mutual

/-- The diagnostics shown with a member. -/
def Decl.memberNotes (level : Nat) : Decl → List (Nat × String)
  | .object h ms => Decl.tableNotes (level + 1) ms ++ h.notes level
  | d => d.header.notes level

/-- The diagnostics shown with the members of a table. -/
def Decl.tableNotes (level : Nat) : List (String × Decl) → List (Nat × String)
  | [] => []
  | (_, d) :: rest => d.memberNotes level ++ Decl.tableNotes level rest

end

/-- The diagnostics shown with an item. -/
def Decl.notes (level : Nat) : Decl → List (Nat × String)
  | .classDef h c ms _ =>
    c.toList.flatMap (fun fn => fn.header.notes (level + 1)) ++ Decl.tableNotes (level + 1) ms ++
      h.notes level
  | .object h ms => Decl.tableNotes (level + 1) ms ++ h.notes level
  | d => d.header.notes level

/-- The diagnostics shown in the declaration file of a module. -/
def Module.notes (m : Module) : List (Nat × String) :=
  m.items.flatMap (fun e => e.2.notes 1) ++ m.aggregate.toList.flatMap (Decl.notes 1)

namespace Render

open Ambient.Text

/-! ### Sorting lines -/

/-- The line that shows a note. -/
def noteLine (n : Nat × String) : Line :=
  ⟨n.1, .warning n.2⟩

/-- The warnings among the lines are the notes, and the lines that are no warnings are `rest`. -/
structure Sorts (ls : List Line) (notes : List (Nat × String)) (rest : List Line) : Prop where
  warnings : ls.filter (·.content.isWarning) = notes.map noteLine
  others : ls.filter (!·.content.isWarning) = rest

variable {ls ks rest rest' : List Line} {notes notes' : List (Nat × String)}

theorem Sorts.append (h : Sorts ls notes rest) (h' : Sorts ks notes' rest') :
    Sorts (ls ++ ks) (notes ++ notes') (rest ++ rest') where
  warnings := by rw [List.filter_append, h.warnings, h'.warnings, List.map_append]
  others := by rw [List.filter_append, h.others, h'.others]

theorem sorts_of_forall (h : ∀ l ∈ ls, l.content.isWarning = false) : Sorts ls [] ls where
  warnings := List.filter_eq_nil_iff.2 fun l hl => by simp [h l hl]
  others := List.filter_eq_self.2 fun l hl => by simp [h l hl]

theorem sorts_nil : Sorts [] [] [] :=
  sorts_of_forall (List.forall_mem_nil _)

theorem sorts_singleton {l : Line} (h : l.content.isWarning = false) : Sorts [l] [] [l] :=
  sorts_of_forall (List.forall_mem_singleton.2 h)

theorem Sorts.cons {l : Line} (hl : l.content.isWarning = false) (h : Sorts ls notes rest) :
    Sorts (l :: ls) notes (l :: rest) :=
  (sorts_singleton hl).append h

theorem sorts_docLines (level : Nat) (description : String) (params : List Parameter) :
    Sorts (docLines level description params) [] (docLines level description params) :=
  sorts_of_forall <| forall_mem_docLines (P := fun content => content.isWarning = false) level rfl
    (fun _ _ => rfl) rfl

theorem sorts_warnings (level : Nat) (h : Header) :
    Sorts (warnings level h) (h.notes level) (warnings level h.silent) where
  warnings := by
    have hall : ∀ l ∈ warnings level h, l.content.isWarning = true :=
      List.forall_mem_map.2 fun _ _ => rfl
    rw [List.filter_eq_self.2 hall, Header.notes, List.map_map]
    rfl
  others := by
    have hall : ∀ l ∈ warnings level h, ¬ (!l.content.isWarning) = true :=
      List.forall_mem_map.2 fun _ _ => Bool.false_ne_true
    exact List.filter_eq_nil_iff.2 hall

theorem Sorts.block (level : Nat) (h : Header) (params : List Parameter)
    (hbody : Sorts ls notes rest) :
    Sorts (block level h params ls) (notes ++ h.notes level) (block level h.silent params rest) :=
  ((sorts_docLines level h.description params).append hbody).append (sorts_warnings level h)

/-! ### Members and items -/

theorem sorts_constructorBlock (level : Nat) (c : Option Callable) :
    Sorts (constructorBlock level c) (c.toList.flatMap fun fn => fn.header.notes level)
      (constructorBlock level (c.map Callable.silent)) := by
  cases c with
  | none => exact sorts_nil
  | some fn =>
      rw [Option.toList_some, List.flatMap_singleton, Option.map_some, constructorBlock,
        constructorBlock]
      have hwarnings := sorts_warnings level fn.header
      by_cases hparams : fn.params.isEmpty = true
      · have hparams' : fn.silent.params.isEmpty = true := hparams
        rw [if_pos hparams, if_pos hparams']
        exact hwarnings
      · have hparams' : ¬ fn.silent.params.isEmpty = true := hparams
        rw [if_neg hparams, if_neg hparams']
        exact ((sorts_docLines level _ _).append (sorts_singleton rfl)).append hwarnings

@[simp]
theorem header_silent (d : Decl) : d.silent.header = d.header.silent := by
  cases d <;> simp only [Decl.silent, Decl.header, Decl.mapHeader]

theorem signature_silent (c : Option Callable) :
    (c.map Callable.silent).map signature = c.map signature := by
  cases c <;> rfl

@[simp]
theorem documentedParams_silent (d : Decl) : documentedParams d.silent = documentedParams d := by
  cases d <;> simp only [Decl.silent, Decl.mapHeader] <;> rfl

/-- Diagnostics do not show in the line of a member. -/
theorem memberLine_silent {d : Decl} : takesLine d.silent = takesLine d ∧
    memberFront d.silent = memberFront d ∧ memberBack d.silent = memberBack d := by
  cases d with
  | classDef hd c ms base =>
      rw [Decl.silent]
      refine ⟨rfl, rfl, ?_⟩
      rw [memberBack, memberBack, signature_silent]
  | object hd ms =>
      rw [Decl.silent]
      refine ⟨?_, rfl, rfl⟩
      cases ms <;> rw [Decl.silentAll] <;> rfl
  | _ =>
      simp only [Decl.silent, Decl.mapHeader]
      exact ⟨rfl, rfl, rfl⟩

theorem memberNotes_of_line {d : Decl} (h : takesLine d = true) (level : Nat) :
    d.memberNotes level = d.header.notes level := by
  cases d with
  | object hd ms =>
      rw [List.isEmpty_iff.1 h, Decl.memberNotes, Decl.tableNotes]
      rfl
  | _ => simp only [Decl.memberNotes]

theorem sorts_memberBlock_of_line (level : Nat) (name : String) {d : Decl}
    (h : takesLine d = true) :
    Sorts (memberBlock level name d) (d.memberNotes level) (memberBlock level name d.silent) := by
  obtain ⟨hline, hfront, hback⟩ := memberLine_silent (d := d)
  rw [memberBlock_of_line h, memberBlock_of_line (hline.trans h), memberNotes_of_line h, hfront,
    hback, header_silent, documentedParams_silent]
  exact (sorts_singleton rfl).block level d.header (documentedParams d)

mutual

theorem sorts_memberBlock (level : Nat) (name : String) : ∀ d : Decl,
    Sorts (memberBlock level name d) (d.memberNotes level) (memberBlock level name d.silent)
  | .object hd (m :: ms) => by
      have hmembers := sorts_tableBlock (level + 1) (m :: ms)
      rw [Decl.silentAll] at hmembers
      rw [Decl.silent, Decl.silentAll, memberBlock, memberBlock, Decl.memberNotes]
      have hbody := (hmembers.cons (l := ⟨level, .naming "" name ": \x7b"⟩) rfl).append
        (sorts_singleton (l := ⟨level, .code "\x7d;"⟩) rfl)
      rw [List.append_nil] at hbody
      exact hbody.block level hd []
  | .object _ [] | .function _ | .classDef .. | .binding .. | .constant .. | .imported ..
  | .aliasOf .. | .typedef .. => sorts_memberBlock_of_line level name rfl

theorem sorts_tableBlock (level : Nat) : ∀ ms : List (String × Decl),
    Sorts (tableBlock level ms) (Decl.tableNotes level ms) (tableBlock level (Decl.silentAll ms))
  | [] => sorts_nil
  | (name, d) :: rest => by
      rw [tableBlock, Decl.tableNotes, Decl.silentAll, tableBlock]
      exact (sorts_memberBlock level _ d).append (sorts_tableBlock level rest)

end

theorem itemHead_silent (name : String) (d : Decl) : itemHead name d.silent = itemHead name d := by
  cases d with
  | constant hd v => cases v <;> simp only [Decl.silent, Decl.mapHeader] <;> rfl
  | object hd ms => cases ms <;> simp only [Decl.silent, Decl.silentAll] <;> rfl
  | _ =>
      simp only [Decl.silent, Decl.mapHeader]
      rfl

/-- The lines behind the first one hold the notes of the constructor and of the members. -/
theorem sorts_itemTail (level : Nat) (d : Decl) :
    ∃ notes, d.notes level = notes ++ d.header.notes level ∧
      Sorts (itemTail level d) notes (itemTail level d.silent) := by
  cases d with
  | classDef hd c ms base =>
      have htail := ((sorts_constructorBlock (level + 1) c).append
        (sorts_tableBlock (level + 1) ms)).append (sorts_singleton (l := ⟨level, .code "\x7d"⟩) rfl)
      rw [List.append_nil] at htail
      rw [Decl.silent]
      exact ⟨_, rfl, htail⟩
  | object hd ms =>
      cases ms with
      | nil =>
          rw [Decl.silent, Decl.silentAll]
          exact ⟨[], rfl, sorts_nil⟩
      | cons m ms =>
          have hmembers := sorts_tableBlock (level + 1) (m :: ms)
          rw [Decl.silentAll] at hmembers
          have htail := hmembers.append (sorts_singleton (l := ⟨level, .code "\x7d;"⟩) rfl)
          rw [List.append_nil] at htail
          rw [Decl.silent, Decl.silentAll]
          exact ⟨_, rfl, htail⟩
  | _ =>
      simp only [Decl.silent, Decl.mapHeader]
      exact ⟨[], rfl, sorts_nil⟩

theorem sorts_itemBlock (level : Nat) (name : String) (d : Decl) :
    Sorts (itemBlock level name d) (d.notes level) (itemBlock level name d.silent) := by
  obtain ⟨notes, hnotes, htail⟩ := sorts_itemTail level d
  rw [itemBlock, itemBlock, header_silent, documentedParams_silent, itemHead_silent, hnotes]
  exact (htail.cons (l := ⟨level, itemHead name d⟩) (isWarning_itemHead name d)).block level
    d.header (documentedParams d)

/-! ### Modules -/

theorem silent_setExported (d : Decl) (b : Bool) :
    (d.setExported b).silent = d.silent.setExported b := by
  cases d <;> simp only [Decl.setExported, Decl.mapHeader, Decl.silent] <;> rfl

theorem notes_setExported (level : Nat) (d : Decl) (b : Bool) :
    (d.setExported b).notes level = d.notes level := by
  cases d <;> rfl

theorem isImported_silent (d : Decl) : d.silent.isImported = d.isImported := by
  cases d <;> simp only [Decl.silent, Decl.mapHeader] <;> rfl

/-- A declaration under a name of the printer's own, and the line that exports it. -/
theorem sorts_ownBlock (name last : String) (d : Decl) :
    Sorts (itemBlock 1 name (d.setExported false) ++ [⟨1, .code last⟩]) (d.notes 1)
      (itemBlock 1 name (d.silent.setExported false) ++ [⟨1, .code last⟩]) := by
  have hblock := (sorts_itemBlock 1 name (d.setExported false)).append
    (sorts_singleton (l := ⟨1, .code last⟩) rfl)
  rwa [List.append_nil, notes_setExported, silent_setExported] at hblock

/-- An alias that is exported by a line of its own. -/
theorem sorts_aliasBlock (hd : Header) (target line : String) :
    Sorts (block 1 hd [] [⟨1, .code line⟩]) ((Decl.aliasOf hd target).notes 1)
      (block 1 hd.silent [] [⟨1, .code line⟩]) :=
  (sorts_singleton rfl).block 1 hd []

theorem isAlias_silent (d : Decl) : d.silent.isAlias = d.isAlias := by
  cases d <;> simp only [Decl.silent, Decl.mapHeader] <;> rfl

theorem defaultBlock_of_isAlias {d : Decl} (h : d.isAlias = false) :
    defaultBlock d =
      itemBlock 1 "_default" (d.setExported false) ++ [⟨1, .code "export default _default;"⟩] := by
  cases d with
  | aliasOf => cases h
  | _ => rfl

theorem aggregateBlock_of_isAlias (items : Table Decl) {d : Decl} (h : d.isAlias = false) :
    aggregateBlock items d =
      itemBlock 1 "_exports" (d.setExported false) ++ [⟨1, .code "export = _exports;"⟩] := by
  cases d with
  | aliasOf => cases h
  | _ => rfl

theorem sorts_defaultBlock (d : Decl) :
    Sorts (defaultBlock d) (d.notes 1) (defaultBlock d.silent) := by
  cases h : d.isAlias with
  | false =>
      rw [defaultBlock_of_isAlias h, defaultBlock_of_isAlias ((isAlias_silent d).trans h)]
      exact sorts_ownBlock _ _ d
  | true =>
      cases d with
      | aliasOf hd target =>
          simp only [Decl.silent, Decl.mapHeader]
          exact sorts_aliasBlock hd target _
      | _ => cases h

theorem sorts_entryBlock (name : String) (d : Decl) :
    Sorts (entryBlock name d) (d.notes 1) (entryBlock name d.silent) := by
  rw [entryBlock, entryBlock, isImported_silent]
  split
  · exact sorts_defaultBlock d
  · exact sorts_itemBlock 1 name d

theorem has_silentAll (items : Table Decl) (name : String) :
    Table.has (Decl.silentAll items) name = items.has name := by
  induction items with
  | nil => rfl
  | cons e items ih =>
      rw [Decl.silentAll, Table.has, Table.has, List.any_cons, List.any_cons]
      exact congrArg _ ih

theorem sorts_aggregateBlock (items : Table Decl) (d : Decl) :
    Sorts (aggregateBlock items d) (d.notes 1)
      (aggregateBlock (Decl.silentAll items) d.silent) := by
  cases h : d.isAlias with
  | false =>
      rw [aggregateBlock_of_isAlias items h,
        aggregateBlock_of_isAlias _ ((isAlias_silent d).trans h)]
      exact sorts_ownBlock _ _ d
  | true =>
      cases d with
      | aliasOf hd target =>
          have hown := sorts_ownBlock "_exports" "export = _exports;" (.aliasOf hd target)
          simp only [Decl.silent, Decl.mapHeader] at hown ⊢
          rw [aggregateBlock, aggregateBlock, has_silentAll]
          split
          · exact sorts_aliasBlock hd target _
          · exact hown
      | _ => cases h

/-- One block for each member of a list. -/
theorem Sorts.flatMap {α : Type} {as : List α} {f g : α → List Line}
    {notes : α → List (Nat × String)} (h : ∀ a ∈ as, Sorts (f a) (notes a) (g a)) :
    Sorts (as.flatMap f) (as.flatMap notes) (as.flatMap g) := by
  induction as with
  | nil => exact sorts_nil
  | cons a as ih =>
      obtain ⟨ha, has⟩ := List.forall_mem_cons.1 h
      exact ha.append (ih has)

theorem silentAll_eq_map (items : List (String × Decl)) :
    Decl.silentAll items = items.map fun e => (e.1, e.2.silent) := by
  induction items with
  | nil => rfl
  | cons e items ih => rw [Decl.silentAll, ih, List.map_cons]

theorem bodyBlocks_silent (m : Module) :
    bodyBlocks m.silent =
      (m.items.map fun e => entryBlock e.1 e.2.silent) ++
        m.aggregate.toList.map fun d => aggregateBlock (Decl.silentAll m.items) d.silent := by
  have haggregate : m.silent.aggregate.toList = m.aggregate.toList.map Decl.silent := by
    rw [Module.silent]
    cases m.aggregate <;> rfl
  rw [bodyBlocks, haggregate, List.map_map]
  simp only [Module.silent, silentAll_eq_map, List.map_map]
  rfl

/-- The warnings in the lines of a module are its notes, and without diagnostics the other lines are
the same. -/
theorem sorts_fileLines (m : Module) : Sorts (fileLines m) m.notes (fileLines m.silent) := by
  have hheader : Sorts (headerBlock m) [] (headerBlock m.silent) :=
    (sorts_docLines 0 m.description []).append (sorts_singleton rfl)
  have hitems : Sorts (m.items.flatMap fun e => ⟨0, .code ""⟩ :: entryBlock e.1 e.2)
      (m.items.flatMap fun e => e.2.notes 1)
      (m.items.flatMap fun e => ⟨0, .code ""⟩ :: entryBlock e.1 e.2.silent) :=
    Sorts.flatMap fun e _ => (sorts_entryBlock e.1 e.2).cons rfl
  have haggregate : Sorts
      (m.aggregate.toList.flatMap fun d => ⟨0, .code ""⟩ :: aggregateBlock m.items d)
      (m.aggregate.toList.flatMap (Decl.notes 1))
      (m.aggregate.toList.flatMap fun d =>
        ⟨0, .code ""⟩ :: aggregateBlock (Decl.silentAll m.items) d.silent) :=
    Sorts.flatMap fun d _ => (sorts_aggregateBlock m.items d).cons rfl
  have hlines := (hheader.append (hitems.append haggregate)).append
    (sorts_singleton (l := ⟨0, .code "\x7d"⟩) rfl)
  rw [List.nil_append, List.append_nil] at hlines
  rw [fileLines, fileLines, bodyBlocks_silent, bodyBlocks]
  simp only [List.flatMap_append, List.flatMap_map]
  exact hlines

/-! ### Recognising a warning -/

/-- What a style writes for a note. -/
def warningText (st : Style) (n : Nat × String) : String :=
  st.warning (st.margin n.1 ++ "// WARN: " ++ n.2)

/-- Behind blanks, the mark of a warning. -/
def isMarked (cs : List Char) : Bool :=
  (after? "// WARN: ".toList (cs.dropWhile (· == ' '))).isSome

/-- The line looks like a warning: its colour, a margin and its mark. -/
def looksLikeWarning (st : Style) (l : String) : Bool :=
  (after? (if st.colors then "\x1b[31m" else "").toList l.toList).any isMarked

theorem isMarked_margin (st : Style) (level : Nat) (cs : List Char) :
    isMarked ((st.margin level).toList ++ cs) = isMarked cs := by
  have hmargin : (st.margin level).toList = List.replicate _ ' ' := String.toList_ofList
  rw [isMarked, hmargin, List.dropWhile_append_of_pos]
  · rfl
  · intro c hc
    rw [List.eq_of_mem_replicate hc]
    rfl

theorem looksLikeWarning_of_colors {st : Style} (h : st.colors = false) (l : String) :
    looksLikeWarning st l = isMarked l.toList := by
  rw [looksLikeWarning, h]
  rfl

theorem looksLikeWarning_paint {st : Style} (h : st.colors = true) (t : String) :
    looksLikeWarning st (st.warning t) = isMarked (t.toList ++ "\x1b[0m".toList) := by
  have hlist : (st.warning t).toList = "\x1b[31m".toList ++ (t.toList ++ "\x1b[0m".toList) := by
    simp [Style.warning, Style.paint, h]
  rw [looksLikeWarning, hlist, h, if_pos rfl, after?_append]
  rfl

theorem looksLikeWarning_warningText (st : Style) (n : Nat × String) :
    looksLikeWarning st (warningText st n) = true := by
  have hmark (tail : List Char) : isMarked (("// WARN: " ++ n.2).toList ++ tail) = true := by
    simp [isMarked, after?]
  cases h : st.colors with
  | true =>
      rw [warningText, looksLikeWarning_paint h, String.append_assoc, String.toList_append,
        List.append_assoc, isMarked_margin, hmark]
  | false =>
      have hplain := hmark []
      rw [List.append_nil] at hplain
      rw [looksLikeWarning_of_colors h, warningText, Style.warning, Style.paint, h,
        if_neg Bool.false_ne_true, String.append_assoc, String.toList_append, isMarked_margin, hplain]

/-- The text opens with a character that is no blank, begins no comment and is not painted. -/
def OpensCode (s : String) : Prop :=
  s.toList.head?.any (fun c => c != ' ' && c != '/' && c != '\x1b') = true

instance (s : String) : Decidable (OpensCode s) :=
  inferInstanceAs (Decidable (_ = true))

theorem opensCode_iff {s : String} :
    OpensCode s ↔ ∃ c cs, s.toList = c :: cs ∧ c ≠ ' ' ∧ c ≠ '/' ∧ c ≠ '\x1b' := by
  rw [OpensCode]
  cases s.toList with
  | nil => simp
  | cons c cs => simp [and_assoc]

theorem OpensCode.append {s : String} (h : OpensCode s) (t : String) : OpensCode (s ++ t) := by
  obtain ⟨c, cs, hs, hc⟩ := opensCode_iff.1 h
  exact opensCode_iff.2 ⟨c, cs ++ t.toList, by rw [String.toList_append, hs, List.cons_append], hc⟩

theorem OpensCode.isMarked_eq_false {s : String} (h : OpensCode s) : isMarked s.toList = false := by
  obtain ⟨c, cs, hs, hblank, hslash, -⟩ := opensCode_iff.1 h
  have hne : ¬ '/' = c := fun heq => hslash heq.symm
  rw [isMarked, hs, List.dropWhile_cons_of_neg (by simpa using hblank)]
  simp [after?, hne]

/-- A margin hides no escape. -/
theorem after?_margin {st : Style} (level : Nat) {cs : List Char}
    (h : after? "\x1b[31m".toList cs = none) :
    after? "\x1b[31m".toList ((st.margin level).toList ++ cs) = none := by
  have hmargin : (st.margin level).toList = List.replicate _ ' ' := String.toList_ofList
  rw [hmargin]
  cases (st.indent * level).toNat with
  | zero => exact h
  | succ n => rfl

theorem OpensCode.after?_eq_none {s : String} (h : OpensCode s) :
    after? "\x1b[31m".toList s.toList = none := by
  obtain ⟨c, cs, hs, -, -, hescape⟩ := opensCode_iff.1 h
  have hne : ¬ '\x1b' = c := fun heq => hescape heq.symm
  rw [hs]
  simp [after?, hne]

/-- What follows the margin decides, by its mark without colours and by its paint with them. -/
theorem looksLikeWarning_margin (st : Style) (level : Nat) {s : String}
    (hplain : st.colors = false → isMarked s.toList = false)
    (hpaint : st.colors = true → after? "\x1b[31m".toList s.toList = none) :
    looksLikeWarning st (st.margin level ++ s) = false := by
  cases hcolors : st.colors with
  | false =>
      rw [looksLikeWarning_of_colors hcolors, String.toList_append, isMarked_margin,
        hplain hcolors]
  | true =>
      rw [looksLikeWarning, hcolors, if_pos rfl, String.toList_append,
        after?_margin level (hpaint hcolors)]
      rfl

theorem OpensCode.looksLikeWarning_eq_false {s : String} (h : OpensCode s) (st : Style)
    (level : Nat) : looksLikeWarning st (st.margin level ++ s) = false :=
  looksLikeWarning_margin st level (fun _ => h.isMarked_eq_false) fun _ => h.after?_eq_none

/-- A declared name at the front of a line has the colour of names. -/
theorem looksLikeWarning_ident (st : Style) (level : Nat) {name : String} (h : OpensCode name)
    (back : String) : looksLikeWarning st (st.margin level ++ (st.ident name ++ back)) = false := by
  refine looksLikeWarning_margin st level (fun hcolors => ?_) fun hcolors => ?_
  · rw [ident_of_colors hcolors]
    exact (h.append back).isMarked_eq_false
  · simp [Style.ident, Style.paint, hcolors, after?]

/-- Code opens as such in front of the declared name or with it. -/
def Content.OpensAsCode : Content → Prop
  | .naming front name _ => OpensCode front ∨ front = "" ∧ OpensCode name
  | .code t => t = "" ∨ OpensCode t
  | _ => True

/-- Documentation is painted in another colour and has another mark. -/
theorem looksLikeWarning_comment (st : Style) (level : Nat) {t : String}
    (h : isMarked t.toList = false) :
    looksLikeWarning st (st.comment (st.margin level ++ t)) = false := by
  cases hcolors : st.colors with
  | false =>
      rw [looksLikeWarning_of_colors hcolors, comment_of_colors hcolors, String.toList_append,
        isMarked_margin, h]
  | true =>
      have hclash : after? "\x1b[31m".toList (st.comment (st.margin level ++ t)).toList = none := by
        simp [Style.comment, Style.paint, hcolors, after?]
      rw [looksLikeWarning, hcolors, if_pos rfl, hclash]
      rfl

theorem isMarked_gutter (t : String) : isMarked (trimRight (" * " ++ t)).toList = false := by
  have hlist : (" * " ++ t).toList = [' '] ++ '*' :: (' ' :: t.toList) := by simp
  rw [trimRight, hlist, trimBack_append_cons _ _ (by decide), String.toList_ofList]
  rfl

theorem looksLikeWarning_write (st : Style) {l : Line} (hquiet : l.content.isWarning = false)
    (h : l.content.OpensAsCode) : looksLikeWarning st (l.write st) = false := by
  obtain ⟨level, content⟩ := l
  cases content with
  | opening => exact looksLikeWarning_comment st level (by decide)
  | doc t => exact looksLikeWarning_comment st level (isMarked_gutter t)
  | closing => exact looksLikeWarning_comment st level (by decide)
  | warning => cases hquiet
  | code t =>
      rcases h with rfl | h
      · exact looksLikeWarning_margin st level (fun _ => rfl) fun _ => rfl
      · exact h.looksLikeWarning_eq_false st level
  | naming front name back =>
      rcases h with h | ⟨rfl, h⟩
      · exact (h.append _).looksLikeWarning_eq_false st level
      · have hline : (Line.mk level (.naming "" name back)).write st =
            st.margin level ++ (st.ident name ++ back) := by
          simp only [Line.write, Content.write, String.empty_append]
        rw [hline]
        exact looksLikeWarning_ident st level h back

/-- No blank, slash or escape is a digit or begins a name. -/
theorem opensCode_of_forall {s : String} {p : Char → Bool} {c : Char} {cs : List Char}
    (hs : s.toList = c :: cs) (hc : p c = true) (hblank : p ' ' = false) (hslash : p '/' = false)
    (hescape : p '\x1b' = false) : OpensCode s := by
  refine opensCode_iff.2 ⟨c, cs, hs, ?_, ?_, ?_⟩
  all_goals
    rintro rfl
    simp_all

theorem opensCode_memberName (name : String) : OpensCode (memberName name) := by
  unfold memberName
  split
  · rename_i h
    obtain ⟨c, cs, hname, hc⟩ := exists_cons_of_bare h
    rcases hc with hhead | hdigit
    · exact opensCode_of_forall hname hhead (by decide) (by decide) (by decide)
    · exact opensCode_of_forall hname hdigit (by decide) (by decide) (by decide)
  · exact opensCode_iff.2 ⟨'"', _, String.toList_ofList, by decide, by decide, by decide⟩

theorem opensCode_exportWord (d : Decl) {t : String} (h : OpensCode t) :
    OpensCode (exportWord d ++ t) := by
  unfold exportWord
  split
  · exact OpensCode.append (by decide) t
  · rwa [String.empty_append]

theorem opensAsCode_itemHead (name : String) {d : Decl} (h : WellWorded d) :
    (itemHead name d).OpensAsCode := by
  cases d with
  | binding hd ts keyword =>
      have hkeywords : ∀ keyword ∈ keywords, OpensCode keyword := by decide
      exact .inl (opensCode_exportWord _ ((hkeywords keyword h).append " "))
  | constant hd v => cases v <;> exact .inl (opensCode_exportWord _ (by decide))
  | object hd ms => cases ms <;> exact .inl (opensCode_exportWord _ (by decide))
  | imported hd path own =>
      rw [itemHead]
      cases own with
      | none =>
          rw [importHead]
          split
          · split
            · exact .inr (OpensCode.append (by decide) _)
            · exact .inl (by decide)
          · exact .inl (by decide)
      | some own =>
          rw [importHead]
          split
          · exact .inl (OpensCode.append (by decide) _)
          · split
            · exact .inl (by decide)
            · exact .inl (OpensCode.append (by decide) _)
  | aliasOf hd target =>
      rw [itemHead]
      split
      · exact .inl ((OpensCode.append (by decide) _).append _)
      · exact .inl (by decide)
  | _ => exact .inl (opensCode_exportWord _ (by decide))

theorem Content.Occurs.opensAsCode {c : Content} (h : c.Occurs WellWorded) : c.OpensAsCode := by
  cases h with
  | comment h =>
      cases c with
      | naming | code => cases h
      | _ => trivial
  | member name d =>
      have hname := opensCode_memberName name
      cases d with
      | function fn =>
          rw [memberFront]
          split
          · exact .inl (by decide)
          · exact .inr ⟨rfl, hname⟩
      | _ => exact .inr ⟨rfl, hname⟩
  | opened name => exact .inr ⟨rfl, opensCode_memberName name⟩
  | item name h => exact opensAsCode_itemHead name h
  | code hword rest =>
      have hwords : ∀ word ∈ codeWords, OpensCode word := by decide
      exact .inr ((hwords _ hword).append rest)

/-! ### Files -/

theorem write_noteLine (st : Style) (n : Nat × String) :
    (noteLine n).write st = warningText st n := by
  rw [warningText, String.append_assoc]
  rfl

/-- Of the lines of a file, those that warn look like warnings. -/
theorem looksLikeWarning_eq (st : Style) {l : Line} (h : l.content.OpensAsCode) :
    looksLikeWarning st (l.write st) = l.content.isWarning := by
  cases hwarning : l.content.isWarning with
  | false => exact looksLikeWarning_write st hwarning h
  | true =>
      obtain ⟨level, content⟩ := l
      cases content with
      | warning message =>
          rw [← looksLikeWarning_warningText st (level, message), ← write_noteLine]
          rfl
      | _ => cases hwarning

theorem opensAsCode_fileLines {m : Module} (hitems : ∀ e ∈ m.items, WellWorded e.2)
    (haggregate : ∀ d ∈ m.aggregate, WellWorded d) :
    ∀ l ∈ fileLines m, l.content.OpensAsCode := by
  have hblocks := occurs_blocks (fun d b hd => hd.setExported b) hitems haggregate
  refine forall_mem_fileLines (fun b hb l hl => (hblocks b hb l hl).opensAsCode) (.inl rfl) ?_
  exact .inr (by decide)

theorem written_of_warnings {st : Style} (h : st.warnings = true) (ls : List Line) :
    written st ls = ls.map (·.write st) := by
  rw [written, List.filter_eq_self.2 fun l _ => ?_]
  rw [Line.isShown, h, Bool.true_or]

theorem written_of_not_warnings {st : Style} (h : st.warnings = false) (ls : List Line) :
    written st ls = (ls.filter (!·.content.isWarning)).map (·.write st) := by
  rw [written]
  simp only [Line.isShown, h, Bool.false_or]

theorem write_warnings (st : Style) (b : Bool) (l : Line) :
    l.write { st with warnings := b } = l.write st := by
  obtain ⟨level, content⟩ := l
  cases content <;> rfl

theorem moduleLines_warnings (st : Style) (m : Module) :
    moduleLines { st with warnings := true } m = (fileLines m).map (·.write st) := by
  rw [moduleLines_eq, written_of_warnings rfl]
  simp only [write_warnings]

/-- Without warnings the lines are those of the module without diagnostics. -/
theorem moduleLines_not_warnings (st : Style) (m : Module) :
    moduleLines { st with warnings := false } m = (fileLines m.silent).map (·.write st) := by
  rw [moduleLines_eq, written_of_not_warnings rfl, (sorts_fileLines m).others]
  simp only [write_warnings]

/-- Pieces written for each of several things, and marked with what they were written for. -/
theorem map_fst_filter_flatMap {α : Type} (f : α → List String) (p : α → Bool) (q : Bool → Bool)
    (as : List α) :
    ((as.flatMap fun a => (f a).map (·, p a)).filter fun s => q s.2).map Prod.fst =
      (as.filter fun a => q (p a)).flatMap f := by
  induction as with
  | nil => rfl
  | cons a as ih =>
      rw [List.flatMap_cons, List.filter_append, List.map_append, ih, List.filter_map,
        List.map_map, List.filter_cons]
      cases h : q (p a) with
      | true => simp [Function.comp_def, h]
      | false => simp [Function.comp_def, h]

/-- What is written for lines can be marked so that the marked pieces are those of the notes. -/
theorem Sorts.exists_marked (h : Sorts ls notes rest) (f : Line → List String) :
    ∃ marked : List (String × Bool),
      marked.map Prod.fst = ls.flatMap f ∧
      (marked.filter (·.2)).map Prod.fst = notes.flatMap (fun n => f (noteLine n)) ∧
      (marked.filter (!·.2)).map Prod.fst = rest.flatMap f := by
  refine ⟨ls.flatMap fun l => (f l).map (·, l.content.isWarning), ?_, ?_, ?_⟩
  · simp [List.map_flatMap, Function.comp_def]
  · rw [map_fst_filter_flatMap f (·.content.isWarning) (fun b => b), h.warnings, List.flatMap_map]
  · rw [map_fst_filter_flatMap f (·.content.isWarning) (fun b => !b), h.others]

/-- The rows of a file, marked so that the marked ones are the notes and the others the rows of the
file without warnings. -/
theorem exists_marked_rows (st : Style) {m : Module} (h : ∀ n ∈ m.notes, Unbroken n.2) :
    ∃ marked : List (String × Bool),
      marked.map Prod.fst = rows (file { st with warnings := true } m) ∧
      (marked.filter (·.2)).map Prod.fst = m.notes.map (warningText st) ∧
      (marked.filter (!·.2)).map Prod.fst = rows (file { st with warnings := false } m) := by
  obtain ⟨marked, hall, hnotes, hothers⟩ :=
    (sorts_fileLines m).exists_marked fun l => rows (l.write st)
  have hunbroken : ∀ n ∈ m.notes, Unbroken (warningText st n) := by
    intro n hn
    rw [← write_noteLine]
    exact lacks_write (c := '\n') (by decide) (fun _ => by decide)
      (lacks_append.2 ⟨Visible.lacks (s := "// WARN: ") (by decide) (by decide), h n hn⟩)
  refine ⟨marked ++ [("", false)], ?_, ?_, ?_⟩
  · rw [rows_file_eq_flatMap, moduleLines_warnings, List.flatMap_map, List.map_append, hall]
    rfl
  · rw [List.filter_append, List.map_append, hnotes]
    simp only [write_noteLine]
    rw [← List.flatMap_map, flatMap_rows_of_unbroken (List.forall_mem_map.2 hunbroken)]
    exact List.append_nil _
  · rw [rows_file_eq_flatMap, moduleLines_not_warnings, List.flatMap_map, List.filter_append,
      List.map_append, hothers]
    rfl

/-- No empty line looks like a warning. -/
theorem looksLikeWarning_empty (st : Style) : looksLikeWarning st "" = false := by
  cases h : st.colors <;> rw [looksLikeWarning, h] <;> rfl

/-- Diagnostics reach a declaration file as warnings and in no other way.

Without warnings, a file is the file of the same module without diagnostics.  With warnings, its lines
are the lines it has without them and, in between, one line for each note of the module in the order of
the notes.  When variables are declared with the words that declare variables, nothing else looks like
a warning.

The rows of the file say the same where no note is broken, and nothing else among them looks like a
warning where no text of the module is broken. -/
theorem warnings_show_notes (st : Style) (m : Module) :
    file { st with warnings := false } m = file { st with warnings := true } m.silent ∧
      (∃ marked : List (String × Bool),
        marked.map Prod.fst = moduleLines { st with warnings := true } m ∧
        (marked.filter (·.2)).map Prod.fst = m.notes.map (warningText st) ∧
        (marked.filter (!·.2)).map Prod.fst = moduleLines { st with warnings := false } m) ∧
      ((∀ e ∈ m.items, WellWorded e.2) → (∀ d ∈ m.aggregate, WellWorded d) →
        (moduleLines { st with warnings := true } m).filter (looksLikeWarning st) =
          m.notes.map (warningText st)) ∧
      ((∀ n ∈ m.notes, Unbroken n.2) →
        ∃ marked : List (String × Bool),
          marked.map Prod.fst = rows (file { st with warnings := true } m) ∧
          (marked.filter (·.2)).map Prod.fst = m.notes.map (warningText st) ∧
          (marked.filter (!·.2)).map Prod.fst = rows (file { st with warnings := false } m)) ∧
      ((∀ e ∈ m.items, WellWorded e.2) → (∀ d ∈ m.aggregate, WellWorded d) →
        (∀ s ∈ m.texts, Unbroken s) →
        (rows (file { st with warnings := true } m)).filter (looksLikeWarning st) =
          m.notes.map (warningText st)) := by
  have hsorts := sorts_fileLines m
  have hlines (hitems : ∀ e ∈ m.items, WellWorded e.2) (haggregate : ∀ d ∈ m.aggregate, WellWorded d) :
      (moduleLines { st with warnings := true } m).filter (looksLikeWarning st) =
        m.notes.map (warningText st) := by
    rw [moduleLines_warnings, List.filter_map, List.filter_congr fun l hl => ?_, hsorts.warnings,
      List.map_map]
    · exact List.map_congr_left fun n _ => write_noteLine st n
    · exact looksLikeWarning_eq st (opensAsCode_fileLines hitems haggregate l hl)
  refine ⟨?_, ?_, hlines, exists_marked_rows st, fun hitems haggregate htexts => ?_⟩
  · rw [file, file, moduleLines_not_warnings, moduleLines_warnings]
  · obtain ⟨marked, hall, hnotes, hothers⟩ := hsorts.exists_marked fun l => [l.write st]
    simp only [write_noteLine] at hnotes
    refine ⟨marked, ?_, ?_, ?_⟩
    · rw [moduleLines_warnings, hall, ← List.map_eq_flatMap]
    · rw [hnotes, ← List.map_eq_flatMap]
    · rw [moduleLines_not_warnings, hothers, ← List.map_eq_flatMap]
  · have hlast : [""].filter (looksLikeWarning st) = [] := by
      rw [List.filter_cons, looksLikeWarning_empty]
      rfl
    rw [rows_file _ htexts, List.filter_append, hlines hitems haggregate, hlast, List.append_nil]

/-- A class with a constructor and, among its members, a class whose members have diagnostics of their
own: the constructor comes first, the class itself last, and the inner members are not heard. -/
theorem warnings_show_notes_class :
    let inner : Decl := .classDef { diagnostics := ["inner"] } none
      [("x", .binding { diagnostics := ["hidden"] } [] "let")] none
    let m : Module :=
      { name := "box"
        items := [("Box", .classDef { diagnostics := ["own"] }
          (some { header := { diagnostics := ["constructor"] } }) [("Inner", inner)] none)]
        aggregate := some (.aliasOf { diagnostics := ["whole"] } "Box") }
    (moduleLines {} m).filter (looksLikeWarning {}) =
      [(2, "constructor"), (2, "inner"), (1, "own"), (1, "whole")].map (warningText {}) ∧
    (∃ marked : List (String × Bool),
      marked.map Prod.fst = rows (file {} m) ∧
      (marked.filter (·.2)).map Prod.fst = m.notes.map (warningText {}) ∧
      (marked.filter (!·.2)).map Prod.fst = rows (file { warnings := false } m)) ∧
    (rows (file {} m)).filter (looksLikeWarning {}) = m.notes.map (warningText {}) := by
  intro inner m
  obtain ⟨-, -, hlines, hmarked, hrows⟩ := warnings_show_notes {} m
  exact ⟨hlines (by decide) (by decide), hmarked (by decide),
    hrows (by decide) (by decide) (by decide)⟩

end Render

end Ambient
