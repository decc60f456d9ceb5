import Ambient.Doc.Comment
import Ambient.Proofs.Doc.Entry
import Ambient.Proofs.Text.Row

/-!
# Written comments

A comment as an author lays it out: the delimiters on lines of their own, and between them a line with
a star for every line of the description and for every tag.  Reading such a comment gives back the
description and the tags that were written.
-/

namespace Ambient.Doc

open Ambient.Text

/-- A description and tags, such that every tag begins on a line of its own. -/
structure Layout where
  lines : List String
  entries : List Entry
  single : ∀ l ∈ lines, SingleLine l
  stripped : ∀ l ∈ lines, Stripped l
  /-- No line of the description begins with an at sign and a word character. -/
  untagged : ∀ l ∈ lines, ∀ c v, l.toList = '@' :: c :: v → isWord c = false
  /-- Empty lines stand only inside the description. -/
  first : lines.head? ≠ some ""
  last : lines.getLast? ≠ some ""

namespace Layout

variable (l : Layout)

/-- The lines between the delimiters, without their gutter. -/
def rows : List String :=
  l.lines ++ l.entries.map Entry.write

/-- The comment as it is written. -/
def write : String :=
  joinLines ("/**" :: l.rows.map (" * " ++ ·) ++ [" */"])

/-- The comment that is meant. -/
def comment : Comment where
  description := joinLines l.lines
  tags := l.entries.map Entry.tag

end Layout

/-! ### Lines -/

theorem linesOf_cons {c : Char} (hc : isBreak c = false) {cs l : List Char} {ls : List (List Char)}
    (h : linesOf cs = l :: ls) : linesOf (c :: cs) = (c :: l) :: ls := by
  rw [linesOf]
  · simp [hc, h]
  · rintro _ rfl _
    cases hc

theorem linesOf_append_newline {l : List Char} (h : ∀ c ∈ l, isBreak c = false) (cs : List Char) :
    linesOf (l ++ '\n' :: cs) = l :: linesOf cs := by
  induction l with
  | nil =>
      rw [List.nil_append, linesOf]
      · simp [isBreak]
      · simp
  | cons c l ih =>
      obtain ⟨hc, hl⟩ := List.forall_mem_cons.1 h
      exact linesOf_cons hc (ih hl)

theorem linesOf_of_forall {l : List Char} (h : ∀ c ∈ l, isBreak c = false) (hne : l ≠ []) :
    linesOf l = [l] := by
  induction l with
  | nil => exact absurd rfl hne
  | cons c l ih =>
      obtain ⟨hc, hl⟩ := List.forall_mem_cons.1 h
      cases l with
      | nil =>
          rw [linesOf]
          · simp [hc]
          · simp
      | cons d l => exact linesOf_cons hc (ih hl (List.cons_ne_nil d l))

/-- Lines that are joined are found again, when the last one shows. -/
theorem linesOf_intercalate {ls : List (List Char)} {l : List Char}
    (hls : ∀ k ∈ ls, ∀ c ∈ k, isBreak c = false) (hl : ∀ c ∈ l, isBreak c = false) (hne : l ≠ []) :
    linesOf (['\n'].intercalate (ls ++ [l])) = ls ++ [l] := by
  induction ls with
  | nil => simpa using linesOf_of_forall hl hne
  | cons k ls ih =>
      obtain ⟨hk, hls⟩ := List.forall_mem_cons.1 hls
      rw [List.cons_append, List.intercalate_cons_of_ne_nil (by simp), List.append_assoc,
        List.singleton_append, linesOf_append_newline hk, ih hls]

theorem intercalate_append_cons (a l : List Char) (ls : List (List Char)) :
    ['\n'].intercalate ((a ++ l) :: ls) = a ++ ['\n'].intercalate (l :: ls) := by
  cases ls with
  | nil => simp
  | cons k ls => simp [List.intercalate_cons_cons]

theorem intercalate_concat_append (ls : List (List Char)) (l b : List Char) :
    ['\n'].intercalate (ls ++ [l ++ b]) = ['\n'].intercalate (ls ++ [l]) ++ b := by
  induction ls with
  | nil => simp
  | cons k ls ih =>
      rw [List.cons_append, List.intercalate_cons_of_ne_nil (by simp), List.cons_append,
        List.intercalate_cons_of_ne_nil (by simp), ih]
      simp

/-! ### Delimiters and gutter -/

theorem dropDelimiters_write (b : List Char) :
    dropDelimiters ('/' :: '*' :: (b ++ ['*', '/'])) = b := by
  have hopen : after? ['/', '*'] ('/' :: '*' :: (b ++ ['*', '/'])) = some (b ++ ['*', '/']) :=
    after?_append ['/', '*'] _
  have hclose : after? ['/', '*'] (b ++ ['*', '/']).reverse = some b.reverse := by
    rw [List.reverse_append]
    exact after?_append ['/', '*'] _
  simp only [dropDelimiters, hopen, hclose, Option.getD_some, Option.map_some, List.reverse_reverse]

/-- A row with the gutter in front of it. -/
def guttered (row : List Char) : List Char :=
  ' ' :: '*' :: ' ' :: row

/-- The lines of a comment, without the characters that open and close it. -/
def framed (rs : List (List Char)) : List (List Char) :=
  (['*'] :: rs.map guttered) ++ [[' ']]

theorem intercalate_delimiters (rs : List (List Char)) :
    ['\n'].intercalate ((['/', '*', '*'] :: rs.map guttered) ++ [[' ', '*', '/']]) =
      '/' :: '*' :: (['\n'].intercalate (framed rs) ++ ['*', '/']) := by
  have hback := intercalate_concat_append (['/', '*', '*'] :: rs.map guttered) [' '] ['*', '/']
  have hfront := intercalate_append_cons ['/', '*'] ['*'] (rs.map guttered ++ [[' ']])
  simp only [framed, List.cons_append, List.nil_append] at hback hfront ⊢
  rw [hback, hfront]
  rfl

theorem linesOf_framed {rs : List (List Char)} (h : ∀ r ∈ rs, ∀ c ∈ r, isBreak c = false) :
    linesOf (['\n'].intercalate (framed rs)) = framed rs := by
  have hstar : SingleLine "*" := by decide
  have hblank : SingleLine " " := by decide
  have hgutter : SingleLine " * " := by decide
  refine linesOf_intercalate (List.forall_mem_cons.2 ⟨hstar, ?_⟩) hblank (by simp)
  intro k hk
  obtain ⟨r, hr, rfl⟩ := List.mem_map.1 hk
  exact List.forall_mem_append.2 ⟨hgutter, h r hr⟩

/-- Every row comes back, and the delimiters leave an empty line each. -/
theorem bare_framed {rs : List (List Char)} (h : ∀ r ∈ rs, trimEnds isBlank r = r) :
    (framed rs).map (fun l => trimEnds isBlank (dropGutter l)) = ([] :: rs) ++ [[]] := by
  have hrow : ∀ r ∈ rs, trimEnds isBlank (dropGutter (guttered r)) = r := by
    intro r hr
    have hgutter : dropGutter (guttered r) = ' ' :: r := rfl
    rw [hgutter, trimEnds_cons_of_pos rfl, h r hr]
  have hrows : (rs.map guttered).map (fun l => trimEnds isBlank (dropGutter l)) = rs := by
    rw [List.map_map]
    exact (List.map_congr_left hrow).trans (List.map_id' rs)
  rw [framed, List.map_append, List.map_cons, hrows]
  rfl

/-- The text of a comment is made of its rows, with an empty line for each delimiter. -/
theorem unwrapChars_write {rs : List (List Char)} (hsingle : ∀ r ∈ rs, ∀ c ∈ r, isBreak c = false)
    (hstripped : ∀ r ∈ rs, trimEnds isBlank r = r) :
    unwrapChars (['\n'].intercalate
        ((['/', '*', '*'] :: rs.map guttered) ++ [[' ', '*', '/']])) =
      trimEnds isBlank (['\n'].intercalate (([] :: rs) ++ [[]])) := by
  have hslash : Tight isBlank ['/'] := .singleton rfl
  have htight : Tight isBlank ('/' :: '*' :: (['\n'].intercalate (framed rs) ++ ['*', '/'])) := by
    simpa using hslash.append ('*' :: ['\n'].intercalate (framed rs) ++ ['*']) hslash
  rw [intercalate_delimiters, unwrapChars, htight.trimEnds_eq, dropDelimiters_write,
    linesOf_framed hsingle, bare_framed hstripped]

theorem tight_intercalate {rs : List (List Char)} (hne : rs ≠ [])
    (hfirst : ∀ r ∈ rs.head?, Tight isBlank r) (hlast : ∀ r ∈ rs.getLast?, Tight isBlank r) :
    Tight isBlank (['\n'].intercalate rs) := by
  obtain ⟨r, rs, rfl⟩ := List.exists_cons_of_ne_nil hne
  have hr : Tight isBlank r := hfirst r rfl
  rcases List.eq_nil_or_concat rs with rfl | ⟨ms, k, rfl⟩
  · simpa using hr
  · rw [List.concat_eq_append] at hlast ⊢
    have hk : Tight isBlank k := hlast k (List.getLast?_concat (l := r :: ms))
    have hback : ['\n'].intercalate (ms ++ [k]) = ['\n'].intercalate (ms ++ [[]]) ++ k :=
      intercalate_concat_append ms [] k
    rw [List.intercalate_cons_of_ne_nil (by simp), hback, List.append_assoc, ← List.append_assoc
      ['\n']]
    exact hr.append _ hk

theorem intercalate_concat_nil {rs : List (List Char)} (hne : rs ≠ []) :
    ['\n'].intercalate (rs ++ [[]]) = ['\n'].intercalate rs ++ ['\n'] := by
  induction rs with
  | nil => exact absurd rfl hne
  | cons r rs ih =>
      cases rs with
      | nil => simp [List.intercalate_cons_cons]
      | cons k rs =>
          have hrest := ih (List.cons_ne_nil k rs)
          rw [List.cons_append] at hrest
          rw [List.cons_append, List.cons_append, List.intercalate_cons_cons, hrest,
            List.intercalate_cons_cons, List.append_assoc _ _ ['\n']]

/-- The lines of the delimiters are blank. -/
theorem trimEnds_frame {rs : List (List Char)} (h : Tight isBlank (['\n'].intercalate rs)) :
    trimEnds isBlank (['\n'].intercalate (([] :: rs) ++ [[]])) = ['\n'].intercalate rs := by
  have hne : rs ≠ [] := by
    rintro rfl
    obtain ⟨c, v, hcv, -⟩ := h.front
    cases hcv
  have hframe : ['\n'].intercalate (([] :: rs) ++ [[]]) =
      '\n' :: (['\n'].intercalate rs ++ ['\n']) := by
    rw [List.cons_append, List.intercalate_cons_of_ne_nil (by simp), intercalate_concat_nil hne]
    rfl
  rw [hframe, trimEnds_cons_of_pos rfl, trimEnds, h.trimFront_eq,
    trimBack_append_singleton_of_pos _ rfl]
  simpa using h.trimBack_eq []

/-! ### Chunks -/

theorem chunksOf_tagged {es : List (List Char)} (h : ∀ e ∈ es, beginsTag e = true) :
    chunksOf es = [] :: es.map fun e => [e] := by
  induction es with
  | nil => rfl
  | cons e es ih =>
      obtain ⟨he, hes⟩ := List.forall_mem_cons.1 h
      rw [chunksOf, ih hes]
      simp [he]

/-- Lines that begin no tag belong to the chunk in front of them. -/
theorem chunksOf_append {ds es : List (List Char)} (h : ∀ d ∈ ds, beginsTag d = false)
    {c : List (List Char)} {cs : List (List (List Char))} (hes : chunksOf es = c :: cs) :
    chunksOf (ds ++ es) = (ds ++ c) :: cs := by
  induction ds with
  | nil => exact hes
  | cons d ds ih =>
      obtain ⟨hd, hds⟩ := List.forall_mem_cons.1 h
      rw [List.cons_append, chunksOf, ih hds]
      simp [hd]

theorem beginsTag_write (e : Entry) : beginsTag e.write.toList = true := by
  obtain ⟨hne, hword⟩ := e.subject.title_word
  obtain ⟨c, v, hcv⟩ := List.exists_cons_of_ne_nil hne
  rw [hcv] at hword
  rw [e.toList_write, hcv]
  exact hword c (by simp)

theorem beginsTag_eq_false {l : List Char} (h : ∀ c v, l = '@' :: c :: v → isWord c = false) :
    beginsTag l = false := by
  unfold beginsTag
  split
  · exact h _ _ rfl
  · rfl

namespace Layout

variable (l : Layout)

theorem chunksOf_rows :
    chunksOf (l.rows.map String.toList) =
      l.lines.map String.toList :: l.entries.map fun e => [e.write.toList] := by
  have hlines : ∀ d ∈ l.lines.map String.toList, beginsTag d = false := by
    intro d hd
    obtain ⟨k, hk, rfl⟩ := List.mem_map.1 hd
    exact beginsTag_eq_false (l.untagged k hk)
  have hentries : ∀ e ∈ (l.entries.map Entry.write).map String.toList, beginsTag e = true := by
    simp [beginsTag_write]
  rw [rows, List.map_append, chunksOf_append hlines (chunksOf_tagged hentries)]
  simp

theorem single_rows : ∀ r ∈ l.rows, SingleLine r := by
  intro r hr
  rcases List.mem_append.1 hr with hr | hr
  · exact l.single r hr
  · obtain ⟨e, -, rfl⟩ := List.mem_map.1 hr
    exact e.single_write

theorem stripped_rows : ∀ r ∈ l.rows, trimEnds isBlank r.toList = r.toList := by
  intro r hr
  rcases List.mem_append.1 hr with hr | hr
  · exact (l.stripped r hr).trimEnds_eq
  · obtain ⟨e, -, rfl⟩ := List.mem_map.1 hr
    exact e.tight_write.trimEnds_eq

theorem tight_joinLines {rs : List String} (hne : rs ≠ [])
    (hfirst : ∀ r ∈ rs.head?, Tight isBlank r.toList)
    (hlast : ∀ r ∈ rs.getLast?, Tight isBlank r.toList) :
    Tight isBlank (joinLines rs).toList := by
  rw [joinLines, String.toList_intercalate]
  refine tight_intercalate (by simpa using hne) ?_ ?_
  · rw [List.head?_map]
    intro r hr
    obtain ⟨k, hk, rfl⟩ := Option.map_eq_some_iff.1 hr
    exact hfirst k hk
  · rw [List.getLast?_map]
    intro r hr
    obtain ⟨k, hk, rfl⟩ := Option.map_eq_some_iff.1 hr
    exact hlast k hk

/-- A line of the description that is not empty. -/
theorem tight_line {r : String} (hr : r ∈ l.lines) (hne : r ≠ "") : Tight isBlank r.toList :=
  tight_of_trimEnds_eq (l.stripped r hr).trimEnds_eq (by simpa using hne)

theorem tight_first : ∀ r ∈ l.lines.head?, Tight isBlank r.toList :=
  fun _ hr => l.tight_line (List.mem_of_head? hr) fun h => l.first (h ▸ hr)

theorem tight_last : ∀ r ∈ l.lines.getLast?, Tight isBlank r.toList :=
  fun _ hr => l.tight_line (List.mem_of_getLast? hr) fun h => l.last (h ▸ hr)

theorem tight_rows (hne : l.rows ≠ []) : Tight isBlank (joinLines l.rows).toList := by
  refine tight_joinLines hne ?_ ?_
  · rw [rows, List.head?_append, List.head?_map]
    intro r hr
    rcases Option.or_eq_some_iff.1 hr with hr | ⟨-, hr⟩
    · exact l.tight_first r hr
    · obtain ⟨e, -, rfl⟩ := Option.map_eq_some_iff.1 hr
      exact e.tight_write
  · rw [rows, List.getLast?_append, List.getLast?_map]
    intro r hr
    rcases Option.or_eq_some_iff.1 hr with hr | ⟨-, hr⟩
    · obtain ⟨e, -, rfl⟩ := Option.map_eq_some_iff.1 hr
      exact e.tight_write
    · exact l.tight_last r hr

theorem toList_write : l.write.toList = ['\n'].intercalate
    ((['/', '*', '*'] :: (l.rows.map String.toList).map guttered) ++ [[' ', '*', '/']]) := by
  rw [write, joinLines, String.toList_intercalate]
  simp [guttered, Function.comp_def]

theorem unwrapChars_rows : unwrapChars l.write.toList =
    trimEnds isBlank (['\n'].intercalate (([] :: l.rows.map String.toList) ++ [[]])) := by
  rw [toList_write]
  refine unwrapChars_write ?_ ?_
  · exact List.forall_mem_map.2 l.single_rows
  · exact List.forall_mem_map.2 l.stripped_rows

theorem unwrapChars_joinLines (hne : l.rows ≠ []) :
    unwrapChars l.write.toList = (joinLines l.rows).toList := by
  have htight := l.tight_rows hne
  rw [joinLines, String.toList_intercalate] at htight ⊢
  rw [unwrapChars_rows]
  exact trimEnds_frame htight

/-- What the comment says is cut into its rows. -/
theorem piecesOf_rows (hne : l.rows ≠ []) :
    piecesOf (· == '\n') (unwrapChars l.write.toList) = l.rows.map String.toList := by
  have hunbroken : ∀ r ∈ l.rows, Unbroken r := by
    intro r hr hmem
    have hbreak := l.single_rows r hr _ hmem
    cases hbreak
  have hrows := congrArg (List.map String.toList) (rows_joinLines hne hunbroken)
  rw [← hrows, l.unwrapChars_joinLines hne, Text.rows, List.map_map]
  simp [Function.comp_def]

/-! ### The comment -/

theorem readTitle_eq_none {cs : List Char} (h : beginsTag cs = false) : readTitle cs = none := by
  match cs with
  | [] => rfl
  | [c] =>
      by_cases hc : c = '@'
      · rw [hc]
        rfl
      · rw [readTitle]
        simpa using hc
  | c :: d :: v =>
      by_cases hc : c = '@'
      · subst hc
        have hd : isWord d = false := h
        simp [readTitle, hd]
      · rw [readTitle]
        simpa using hc

/-- A description does not begin with a tag. -/
theorem beginsTag_lines : beginsTag (joinLines l.lines).toList = false := by
  cases hks : l.lines with
  | nil => rfl
  | cons k ks =>
      have hk : k ∈ l.lines := by simp [hks]
      obtain ⟨a, u, hau, -⟩ := (l.tight_first k (by simp [hks])).front
      cases ks with
      | nil => simpa [joinLines] using beginsTag_eq_false (l.untagged k hk)
      | cons j js =>
          have hjoin : (joinLines (k :: j :: js)).toList =
              a :: (u ++ '\n' :: (joinLines (j :: js)).toList) := by
            simp [joinLines, String.intercalate_cons_cons, hau]
          rw [hjoin]
          refine beginsTag_eq_false fun c v hcv => ?_
          obtain ⟨rfl, hrest⟩ := List.cons.inj hcv
          cases u with
          | nil =>
              obtain ⟨rfl, -⟩ := List.cons.inj hrest
              rfl
          | cons d u =>
              obtain ⟨rfl, -⟩ := List.cons.inj hrest
              exact l.untagged k hk _ _ hau

theorem addChunk_lines : Comment.addChunk {} (l.lines.map String.toList) =
    { description := joinLines l.lines } := by
  by_cases hne : l.lines = []
  · rw [hne]
    rfl
  · have hjoin : ['\n'].intercalate (l.lines.map String.toList) = (joinLines l.lines).toList := by
      rw [joinLines, String.toList_intercalate]
      rfl
    have htight := tight_joinLines hne l.tight_first l.tight_last
    have hempty : (joinLines l.lines).isEmpty = false := by
      obtain ⟨c, v, hcv, -⟩ := htight.front
      rw [Bool.eq_false_iff]
      intro h
      rw [String.isEmpty_iff.1 h] at hcv
      cases hcv
    simp only [Comment.addChunk, hjoin, htight.trimEnds_eq, Tag.read?,
      readTitle_eq_none l.beginsTag_lines,
      Option.map_none, String.ofList_toList, Comment.describe, hempty]
    rfl

theorem addChunk_write (doc : Comment) (e : Entry) :
    doc.addChunk [e.write.toList] = { doc with tags := doc.tags ++ [e.tag] } := by
  have hjoin : ['\n'].intercalate [e.write.toList] = e.write.toList := by simp
  have htitles : ∀ t ∈ ["param", "property", "return", "type"], t ≠ "description" := by decide
  have htitle : e.tag.title ≠ "description" := htitles _ e.subject.title_mem
  simp only [Comment.addChunk, hjoin, e.tight_write.trimEnds_eq, e.read?_write, if_neg htitle]

theorem foldl_addChunk (doc : Comment) (es : List Entry) :
    (es.map fun e => [e.write.toList]).foldl Comment.addChunk doc =
      { doc with tags := doc.tags ++ es.map Entry.tag } := by
  induction es generalizing doc with
  | nil => simp
  | cons e es ih =>
      rw [List.map_cons, List.foldl_cons, addChunk_write, ih]
      simp

/-- Reading a comment gives back what was written. -/
theorem read_write : Comment.read l.write = l.comment := by
  by_cases hne : l.rows = []
  · obtain ⟨hlines, hentries⟩ := List.append_eq_nil_iff.1 hne
    have hempty : unwrapChars l.write.toList = [] := by
      rw [unwrapChars_rows, hne]
      rfl
    rw [Comment.read, hempty, comment, hlines, List.map_eq_nil_iff.1 hentries]
    rfl
  · rw [Comment.read, l.piecesOf_rows hne, chunksOf_rows, List.foldl_cons, addChunk_lines,
      foldl_addChunk]
    rfl

/-- A description with an empty line, an optional parameter whose default has brackets, and a result
whose type has braces. -/
theorem read_write_nested : ∃ l : Layout,
    l.write = "/**\n * Opens.\n * \n * Twice.\n * @param \x7bT\x7d [n=[1]] - how often\n" ++
      " * @return \x7b\x7ba: T\x7d\x7d - all\n */" ∧
    Comment.read l.write = l.comment := by
  let often : Label :=
    { name := "n", form := .defaulted "[1]", ne_empty := by decide, chars := by simp [isBlank]
      default := fun d hd => by
        obtain rfl : "[1]" = d := by simpa [NameForm.default?] using hd
        exact ⟨by decide, by decide, .pair (u := ['1']) (.of_forall (by simp)) .nil⟩ }
  let param : Entry :=
    { subject := .param often, type := "T", text := "how often", type_single := by decide
      type_balanced := .of_forall (by simp), text_single := by decide
      text_stripped := by decide, text_ne_empty := by decide }
  let result : Entry :=
    { subject := .result, type := "\x7ba: T\x7d", text := "all", type_single := by decide
      type_balanced := .pair (u := "a: T".toList) (.of_forall (by simp)) .nil
      text_single := by decide, text_stripped := by decide, text_ne_empty := by decide }
  let layout : Layout :=
    { lines := ["Opens.", "", "Twice."], entries := [param, result], single := by decide
      stripped := by decide, untagged := by simp, first := by decide, last := by decide }
  exact ⟨layout, by decide, layout.read_write⟩

end Layout

end Ambient.Doc
