import Ambient.Proofs.Doc.Ruled
import Mathlib.Data.List.TakeWhile

/-!
# Descriptions that are written out again

A documentation block puts the lines of a description behind an indentation and a gutter, and trims
each of them at its back.  A description that was read from a comment is ruled and trimmed, so
nothing but the gutter is lost when the block is read as a comment: the lines that come back are the
lines that were written.
-/

namespace Ambient.Doc

open Ambient.Text

/-- Blanks before a line, none of which ends it. -/
def Indentation (ind : List Char) : Prop :=
  ∀ c ∈ ind, isBlank c = true ∧ isBreak c = false

theorem indentation_margin (st : Style) (level : Nat) : Indentation (st.margin level).toList := by
  intro c hc
  rw [Style.margin, String.toList_ofList] at hc
  rw [List.eq_of_mem_replicate hc]
  decide

/-- A row of a documentation block, without blanks at its back. -/
def gutterRow (ind row : List Char) : List Char :=
  ind ++ ' ' :: '*' :: trimBack isBlank (' ' :: row)

/-- The rows of a documentation block, without the characters that open and close it. -/
def blockRows (ind : List Char) (rs : List (List Char)) : List (List Char) :=
  (['*'] :: rs.map (gutterRow ind)) ++ [ind ++ [' ']]

variable {ind : List Char} {rs : List (List Char)}

/-! ### One row -/

theorem single_gutterRow (hind : Indentation ind) {row : List Char} (hrow : Line row) :
    ∀ c ∈ gutterRow ind row, isBreak c = false := by
  have htail : ∀ c ∈ trimBack isBlank (' ' :: row), isBreak c = false := by
    obtain ⟨tail, htail, -⟩ := exists_trimBack_append isBlank (' ' :: row)
    intro c hc
    have hmem : c ∈ ' ' :: row := by
      rw [htail]
      exact List.mem_append_left _ hc
    rcases List.mem_cons.1 hmem with rfl | hmem
    · rfl
    · exact hrow.single c hmem
  refine List.forall_mem_append.2 ⟨fun c hc => (hind c hc).2, ?_⟩
  exact List.forall_mem_cons.2 ⟨rfl, List.forall_mem_cons.2 ⟨rfl, htail⟩⟩

theorem dropGutter_gutterRow (hind : Indentation ind) (row : List Char) :
    dropGutter (gutterRow ind row) = (trimBack isBlank (' ' :: row)).dropWhile (· == '*') := by
  have hfront : trimFront isBlank (gutterRow ind row) = '*' :: trimBack isBlank (' ' :: row) := by
    rw [trimFront, gutterRow, List.dropWhile_append_of_pos fun c hc => (hind c hc).1]
    rfl
  rw [dropGutter, hfront]
  rfl

/-- The blank behind the gutter's star keeps the stars of the row apart from it. -/
theorem bare_gutterRow (hind : Indentation ind) {row : List Char} (hrow : Trimmed row) :
    trimEnds isBlank (dropGutter (gutterRow ind row)) = row := by
  rw [dropGutter_gutterRow hind]
  rcases hrow with rfl | hrow
  · rfl
  · have hback : trimBack isBlank (' ' :: row) = ' ' :: row := hrow.trimBack_eq [' ']
    have hstar : (' ' :: row).dropWhile (· == '*') = ' ' :: row := rfl
    rw [hback, hstar, trimEnds_cons_of_pos rfl, hrow.trimEnds_eq]

theorem bare_blanks {bs : List Char} (h : ∀ c ∈ bs, isBlank c = true) :
    trimEnds isBlank (dropGutter bs) = [] := by
  have hfront : trimFront isBlank bs = [] := List.dropWhile_eq_nil_iff.2 h
  rw [dropGutter, hfront]
  change trimBack isBlank (trimFront isBlank bs) = []
  rw [hfront]
  rfl

/-! ### The whole block -/

theorem linesOf_blockRows (hind : Indentation ind) (hrs : ∀ r ∈ rs, Line r) :
    linesOf (['\n'].intercalate (blockRows ind rs)) = blockRows ind rs := by
  have hstar : ∀ c ∈ ['*'], isBreak c = false := List.forall_mem_singleton.2 rfl
  have hblank : ∀ c ∈ [' '], isBreak c = false := List.forall_mem_singleton.2 rfl
  refine linesOf_intercalate (List.forall_mem_cons.2 ⟨hstar, ?_⟩)
    (List.forall_mem_append.2 ⟨fun c hc => (hind c hc).2, hblank⟩) (by simp)
  exact List.forall_mem_map.2 fun r hr => single_gutterRow hind (hrs r hr)

theorem bare_blockRows (hind : Indentation ind) (hrs : ∀ r ∈ rs, Line r) :
    (blockRows ind rs).map (fun l => trimEnds isBlank (dropGutter l)) = ([] :: rs) ++ [[]] := by
  have hrows : (rs.map (gutterRow ind)).map (fun l => trimEnds isBlank (dropGutter l)) = rs := by
    rw [List.map_map]
    exact (List.map_congr_left fun r hr => bare_gutterRow hind (hrs r hr).trimmed).trans
      (List.map_id' rs)
  have hlast : ∀ c ∈ ind ++ [' '], isBlank c = true :=
    List.forall_mem_append.2 ⟨fun c hc => (hind c hc).1, List.forall_mem_singleton.2 rfl⟩
  rw [blockRows, List.map_append, List.map_cons, hrows, List.map_singleton, bare_blanks hlast]
  rfl

theorem intercalate_block (ind : List Char) (rs : List (List Char)) :
    ['\n'].intercalate (((ind ++ ['/', '*', '*']) :: rs.map (gutterRow ind)) ++
        [ind ++ [' ', '*', '/']]) =
      ind ++ '/' :: '*' :: (['\n'].intercalate (blockRows ind rs) ++ ['*', '/']) := by
  have hfront := intercalate_append_cons (ind ++ ['/', '*']) ['*']
    (rs.map (gutterRow ind) ++ [ind ++ [' ', '*', '/']])
  have hback :=
    intercalate_concat_append (['*'] :: rs.map (gutterRow ind)) (ind ++ [' ']) ['*', '/']
  simp only [List.append_assoc, List.cons_append, List.nil_append] at hfront hback
  simp only [blockRows, List.cons_append]
  rw [hfront, hback]

/-- A block of rows is read as the rows, one below the other. -/
theorem unwrapChars_block (hind : Indentation ind) (hrs : ∀ r ∈ rs, Line r)
    (htight : Tight isBlank (['\n'].intercalate rs)) :
    unwrapChars (['\n'].intercalate (((ind ++ ['/', '*', '*']) :: rs.map (gutterRow ind)) ++
      [ind ++ [' ', '*', '/']])) = ['\n'].intercalate rs := by
  have hslash : Tight isBlank ['/'] := .singleton rfl
  have hopen : Tight isBlank
      ('/' :: '*' :: (['\n'].intercalate (blockRows ind rs) ++ ['*', '/'])) := by
    simpa using hslash.append ('*' :: ['\n'].intercalate (blockRows ind rs) ++ ['*']) hslash
  rw [intercalate_block, unwrapChars, trimEnds_append_of_forall fun c hc => (hind c hc).1,
    hopen.trimEnds_eq, dropDelimiters_write, linesOf_blockRows hind hrs, bare_blockRows hind hrs]
  exact trimEnds_frame htight

/-! ### Descriptions -/

/-- The lines of a neat text are the pieces between its line feeds. -/
theorem Neat.linesOf_eq {cs : List Char} (h : Neat cs) (hne : cs ≠ []) :
    linesOf cs = piecesOf (· == '\n') cs := by
  have hlines := h.line_of_mem_piecesOf
  have hjoin := intercalate_piecesOf cs
  rcases List.eq_nil_or_concat (piecesOf (· == '\n') cs) with hnil | ⟨ls, l, hpieces⟩
  · exact absurd hnil (piecesOf_ne_nil _ cs)
  rw [List.concat_eq_append] at hpieces
  rw [hpieces] at hlines hjoin ⊢
  obtain ⟨hls, hl⟩ := List.forall_mem_append.1 hlines
  have hl := List.forall_mem_singleton.1 hl
  -- The last line is not empty, for the text would end with a line feed.
  have hlast : l ≠ [] := by
    rintro rfl
    have hblank : ∀ c ∈ cs.getLast?, c = '\n' := by
      intro c hc
      rw [← hjoin] at hc
      rcases List.eq_nil_or_concat ls with rfl | ⟨ks, k, rfl⟩
      · cases hc
      · rw [intercalate_concat_nil (by simp), List.getLast?_concat] at hc
        exact (Option.some.inj hc).symm
    obtain ⟨u, d, rfl, hd⟩ := (h.trimmed.resolve_left hne).back
    rw [hblank d (by simp)] at hd
    cases hd
  rw [← hjoin]
  exact linesOf_intercalate (fun k hk => (hls k hk).single) hl.single hlast

theorem toList_trimRight_gutter (ind row : String) :
    (trimRight (ind ++ " * " ++ row)).toList = gutterRow ind.toList row.toList := by
  have hlist : (ind ++ " * " ++ row).toList =
      (ind.toList ++ [' ']) ++ '*' :: (' ' :: row.toList) := by simp
  rw [trimRight, String.toList_ofList, hlist, trimBack_append_cons _ _ (by decide), gutterRow]
  simp

/-- A documentation block without colours, when there is a description and nothing else. -/
theorem toList_docBlock {st : Style} (hcolors : st.colors = false) (ind : String) {d : String}
    (hne : linesOf d.toList ≠ []) :
    (joinLines (st.docBlock ind d [])).toList =
      ['\n'].intercalate (((ind.toList ++ ['/', '*', '*']) ::
        (linesOf d.toList).map (gutterRow ind.toList)) ++ [ind.toList ++ [' ', '*', '/']]) := by
  have htext : Style.docText d [] = lines d := by simp [Style.docText]
  have hcomment : st.comment = id := funext fun text => by
    rw [Style.comment, Style.paint, hcolors]
    rfl
  rw [joinLines, String.toList_intercalate]
  simp [Style.docBlock, htext, hne, hcomment, lines, Function.comp_def, toList_trimRight_gutter]

/-- Descriptions survive printing.  The documentation block of a description that was read from a
comment, at any indentation, is a comment with that description for its text; and colours do nothing
to the block but paint each of its lines. -/
theorem unwrap_docBlock (raw : String) (hne : (Comment.read raw).description ≠ "") (st : Style)
    (ind : String) (hind : Indentation ind.toList) :
    let d := (Comment.read raw).description
    let block := { st with colors := false }.docBlock ind d []
    unwrap (joinLines block) = d ∧ st.docBlock ind d [] = block.map st.comment := by
  intro d block
  constructor
  · have hneat : Neat d.toList := Comment.neat_description raw
    have hnil : d.toList ≠ [] := by simpa using hne
    have hlines : linesOf d.toList = piecesOf (· == '\n') d.toList := hneat.linesOf_eq hnil
    have hjoin : ['\n'].intercalate (linesOf d.toList) = d.toList := by
      rw [hlines, intercalate_piecesOf]
    have hrows : ∀ r ∈ linesOf d.toList, Line r := by
      rw [hlines]
      exact hneat.line_of_mem_piecesOf
    have hshown : linesOf d.toList ≠ [] := by
      rw [hlines]
      exact piecesOf_ne_nil _ _
    have hblock := unwrapChars_block hind hrows
      (by rw [hjoin]; exact hneat.trimmed.resolve_left hnil)
    rw [unwrap, toList_docBlock rfl ind hshown, hblock, hjoin, String.ofList_toList]
  · simp only [block, Style.docBlock]
    split
    · rfl
    · simp [Style.comment, Style.paint]

/-- A description from two places of a comment, with an empty line and a line that begins with a
star, at a margin with a tab. -/
theorem unwrap_docBlock_bulleted :
    let raw := "/** Opens\u2028\r\n\t* * twice. \n * @deprecated\n * @desc - So.\n */"
    let d := "Opens\n\n* twice.\nSo."
    (Comment.read raw).description = d ∧
      unwrap (joinLines (Style.docBlock {} "\t  " d [])) = d := by
  intro raw d
  have hd : (Comment.read raw).description = d := by decide
  have hne : (Comment.read raw).description ≠ "" := by
    rw [hd]
    decide
  have hind : Indentation "\t  ".toList :=
    List.forall_mem_cons.2 ⟨by decide, indentation_margin { indent := 2 } 1⟩
  have hblock := (unwrap_docBlock raw hne {} "\t  " hind).1
  rw [hd] at hblock
  exact ⟨hd, hblock⟩

end Ambient.Doc
