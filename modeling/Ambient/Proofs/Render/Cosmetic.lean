import Ambient.Proofs.Render.Unbroken
import Ambient.Text.Colour

/-!
# What a style changes

Apart from the choice whether warnings are shown, a style says how wide a margin is and whether names
and comments are painted.  Taking the colour sequences out of a file and the blanks off the front of
its rows, one is left with a text that depends on neither.

Both ways of reading a text are line by line.  For the margins this holds of every text; a colour
sequence could begin in one line and end in the next, so a line is asked to be `Settled`.
-/

namespace Ambient.Text

/-! ### Taking colours out -/

/-- Colour sequences end where the text ends, so that nothing behind it is taken for a part of one. -/
def Settled (s : String) : Prop :=
  ∀ rest, dropColours (s.toList ++ rest) = dropColours s.toList ++ dropColours rest

theorem dropColours_cons {c : Char} (h : c ≠ '\x1b') (cs : List Char) :
    dropColours (c :: cs) = c :: dropColours cs := by
  rw [dropColours]
  intro _ heq
  exact absurd heq h

theorem dropColours_append {cs : List Char} (h : '\x1b' ∉ cs) (rest : List Char) :
    dropColours (cs ++ rest) = cs ++ dropColours rest := by
  induction cs with
  | nil => rfl
  | cons c cs ih =>
      rw [List.mem_cons, not_or] at h
      rw [List.cons_append, dropColours_cons (Ne.symm h.1), ih h.2, List.cons_append]

theorem plain_of_lacks {s : String} (h : Lacks '\x1b' s) : plain s = s := by
  have hnone := dropColours_append h []
  rw [dropColours, List.append_nil] at hnone
  rw [plain, hnone, String.ofList_toList]

theorem settled_of_lacks {s : String} (h : Lacks '\x1b' s) : Settled s := by
  intro rest
  have hnone := dropColours_append h []
  rw [dropColours, List.append_nil] at hnone
  rw [dropColours_append h, hnone]

theorem Settled.append {s t : String} (hs : Settled s) (ht : Settled t) : Settled (s ++ t) := by
  intro rest
  rw [String.toList_append, List.append_assoc, hs, ht, hs, List.append_assoc]

theorem Settled.plain_append {s : String} (hs : Settled s) (t : String) :
    plain (s ++ t) = plain s ++ plain t := by
  rw [plain, String.toList_append, hs, String.ofList_append]
  rfl

/-- A digit, and so no letter that ends the sequence. -/
def isColourDigit (c : Char) : Bool :=
  !c.isAlpha && c.isDigit

/-- A colour sequence is its digits and a letter. -/
theorem afterColour?_append {code : List Char} (h : code.all isColourDigit = true)
    (rest : List Char) : afterColour? (code ++ 'm' :: rest) = some rest := by
  induction code with
  | nil => rfl
  | cons c code ih =>
      simp only [List.all_cons, isColourDigit, Bool.and_eq_true, Bool.not_eq_true'] at h
      obtain ⟨⟨halpha, hdigit⟩, hcode⟩ := h
      rw [List.cons_append, afterColour?, halpha, hdigit, ih hcode]
      rfl

theorem dropColours_sequence {code : List Char} (h : code.all isColourDigit = true)
    (rest : List Char) :
    dropColours ('\x1b' :: '[' :: (code ++ 'm' :: rest)) = dropColours rest := by
  rw [dropColours]
  split
  · rename_i after hafter
    rw [afterColour?_append h] at hafter
    rw [Option.some.inj hafter]
  · rename_i hnone
    rw [afterColour?_append h] at hnone
    cases hnone

/-! ### Texts put together line by line -/

theorem plain_joinLines {ls : List String} (h : ∀ l ∈ ls, Settled l) :
    plain (joinLines ls) = joinLines (ls.map plain) := by
  induction ls with
  | nil => exact plain_of_lacks (s := joinLines []) (by decide)
  | cons l ls ih =>
      obtain ⟨hl, hls⟩ := List.forall_mem_cons.1 h
      cases ls with
      | nil => simp [joinLines]
      | cons k ks =>
          have hbreak : Lacks '\x1b' "\n" := by decide
          have hrest := ih hls
          simp only [joinLines, List.map_cons, String.intercalate_cons_cons, String.append_assoc]
            at hrest ⊢
          rw [hl.plain_append, (settled_of_lacks hbreak).plain_append, plain_of_lacks hbreak, hrest]

/-- A text without the blanks before it. -/
def dropSpaces (s : String) : String :=
  String.ofList (s.toList.dropWhile (· == ' '))

/-- A text without the blanks at the front of its rows. -/
def unindent (s : String) : String :=
  joinLines ((rows s).map dropSpaces)

theorem unindent_append (s t : String) :
    unindent (s ++ "\n" ++ t) = unindent s ++ "\n" ++ unindent t := by
  have hmap (u : String) : (rows u).map dropSpaces ≠ [] := by
    rw [Ne, List.map_eq_nil_iff]
    exact rows_ne_nil u
  rw [unindent, rows_append, List.map_append, joinLines_append (hmap s) (hmap t)]
  rfl

theorem unindent_joinLines (ls : List String) :
    unindent (joinLines ls) = joinLines (ls.map unindent) := by
  induction ls with
  | nil => decide
  | cons l ls ih =>
      cases ls with
      | nil => simp [joinLines]
      | cons k ks =>
          simp only [joinLines, List.map_cons, String.intercalate_cons_cons] at ih ⊢
          rw [unindent_append, ih]

/-- Blanks before a text do not count. -/
theorem unindent_replicate (n : Nat) (t : String) :
    unindent (String.ofList (List.replicate n ' ') ++ t) = unindent t := by
  obtain ⟨r, rs, ht⟩ := List.exists_cons_of_ne_nil (rows_ne_nil t)
  have hblanks : Unbroken (String.ofList (List.replicate n ' ')) := by
    intro hmem
    rw [String.toList_ofList] at hmem
    exact absurd (List.eq_of_mem_replicate hmem) (by decide)
  have hdrop : dropSpaces (String.ofList (List.replicate n ' ') ++ r) = dropSpaces r := by
    rw [dropSpaces, String.toList_append, String.toList_ofList, List.dropWhile_append_of_pos]
    · rfl
    · intro c hc
      rw [List.eq_of_mem_replicate hc]
      rfl
  rw [unindent, rows_append_of_unbroken hblanks ht, List.map_cons, hdrop, unindent, ht,
    List.map_cons]

end Ambient.Text

namespace Ambient.Render

open Ambient.Text

/-! ### Lines -/

theorem plain_paint (st : Style) {code t : String}
    (hcode : code.toList.all isColourDigit = true) (h : Lacks '\x1b' t) :
    Settled (st.paint code t) ∧ plain (st.paint code t) = t := by
  unfold Style.paint
  split
  · have hdrop (rest : List Char) :
        dropColours (("\x1b[" ++ code ++ "m" ++ t ++ "\x1b[0m").toList ++ rest) =
          t.toList ++ dropColours rest := by
      have hlist : ("\x1b[" ++ code ++ "m" ++ t ++ "\x1b[0m").toList ++ rest =
          '\x1b' :: '[' :: (code.toList ++
            'm' :: (t.toList ++ '\x1b' :: '[' :: (['0'] ++ 'm' :: rest))) := by
        simp [String.toList_append]
      rw [hlist, dropColours_sequence hcode, dropColours_append h,
        dropColours_sequence (by decide)]
    have hnone := hdrop []
    rw [dropColours, List.append_nil, List.append_nil] at hnone
    refine ⟨fun rest => ?_, ?_⟩
    · rw [hdrop, hnone]
    · rw [plain, hnone, String.ofList_toList]
  · exact ⟨settled_of_lacks h, plain_of_lacks h⟩

theorem lacks_escape_margin (st : Style) (level : Nat) : Lacks '\x1b' (st.margin level) :=
  lacks_margin (by decide) st level

theorem write_of_colors {s : Style} (h : s.colors = false) (l : Line) :
    l.write s = s.margin l.level ++ l.content.text := by
  obtain ⟨level, content⟩ := l
  cases content <;> simp [Line.write, Content.write, Content.text, Style.comment, Style.ident,
    Style.warning, Style.paint, h]

/-- A line without escapes of its own shows the same text in every colour. -/
theorem plain_write (st : Style) {l : Line} (h : Lacks '\x1b' l.content.text) :
    Settled (l.write st) ∧ plain (l.write st) = l.write { st with colors := false } := by
  have hmargin := lacks_escape_margin st l.level
  have hplain := write_of_colors (s := { st with colors := false }) rfl l
  rw [hplain]
  obtain ⟨level, content⟩ := l
  cases content with
  | naming front name back =>
      simp only [Content.text, lacks_append] at h
      obtain ⟨hfront, hname, hback⟩ := h
      have hcode : "35".toList.all isColourDigit = true := by decide
      obtain ⟨hsettled, hpaint⟩ := plain_paint st hcode hname
      have hbefore := lacks_append.2 ⟨hmargin, hfront⟩
      have hline : (Line.mk level (.naming front name back)).write st =
          st.margin level ++ front ++ (st.paint "35" name ++ back) := by
        simp only [Line.write, Content.write, Style.ident, String.append_assoc]
      rw [hline]
      refine ⟨(settled_of_lacks hbefore).append (hsettled.append (settled_of_lacks hback)), ?_⟩
      rw [(settled_of_lacks hbefore).plain_append, hsettled.plain_append, hpaint,
        plain_of_lacks hbefore, plain_of_lacks hback]
      simp only [Content.text, String.append_assoc]
      rfl
  | code t =>
      have hline := lacks_append.2 ⟨hmargin, h⟩
      exact ⟨settled_of_lacks hline, plain_of_lacks hline⟩
  | opening | doc t | closing | warning m =>
      exact plain_paint st (by decide) (lacks_append.2 ⟨hmargin, h⟩)

/-- The margin is the only thing that an indentation changes. -/
theorem unindent_write {st st' : Style} (h : st.colors = false) (h' : st'.colors = false)
    (l : Line) : unindent (l.write st) = unindent (l.write st') := by
  rw [write_of_colors h, write_of_colors h', Style.margin, Style.margin, unindent_replicate,
    unindent_replicate]

/-! ### Files -/

/-- Two styles that show the same lines, and two ways of reading that agree on each line. -/
theorem map_written {st st' : Style} (hw : st.warnings = st'.warnings) {ls : List Line}
    {f g : String → String} (h : ∀ l ∈ ls, f (l.write st) = g (l.write st')) :
    (written st ls).map f = (written st' ls).map g := by
  have hshown : (fun l : Line => l.isShown st) = fun l => l.isShown st' := by
    funext l
    rw [Line.isShown, Line.isShown, hw]
  rw [written, written, hshown, List.map_map, List.map_map]
  exact List.map_congr_left fun l hl => h l (List.mem_filter.1 hl).1

/-- The line feed at the end of a file opens an empty line. -/
theorem file_eq (st : Style) (m : Module) : file st m = joinLines (moduleLines st m ++ [""]) :=
  joinLines_append_newline (moduleLines_ne_nil st m)

theorem lacks_escape_fileLines {m : Module}
    (h : ∀ s ∈ m.texts ++ m.descriptions, Lacks '\x1b' s) :
    ∀ l ∈ fileLines m, Lacks '\x1b' l.content.text := by
  obtain ⟨htexts, hdescriptions⟩ := List.forall_mem_append.1 h
  refine lacks_fileLines (by decide) htexts fun s hs l hl hmem => hdescriptions s hs ?_
  obtain ⟨cs, hcs, rfl⟩ := List.mem_map.1 hl
  rw [String.toList_ofList] at hmem
  exact (mem_and_isBreak_of_mem_linesOf hcs hmem).1

/-- Without its colours, a file is the file that is written without colours. -/
theorem plain_file (st : Style) {m : Module}
    (h : ∀ s ∈ m.texts ++ m.descriptions, Lacks '\x1b' s) :
    plain (file st m) = file { st with colors := false } m := by
  have hlines := lacks_escape_fileLines h
  have hempty : Lacks '\x1b' "" := by decide
  have hsettled : ∀ l ∈ moduleLines st m, Settled l := by
    rw [moduleLines_eq]
    refine List.forall_mem_map.2 fun l hl => ?_
    exact (plain_write st (hlines l (List.mem_filter.1 hl).1)).1
  have hmap : (moduleLines st m).map plain =
      (moduleLines { st with colors := false } m).map id := by
    rw [moduleLines_eq, moduleLines_eq]
    refine map_written ?_ fun l hl => (plain_write st (hlines l hl)).2
    rfl
  rw [file_eq, file_eq, plain_joinLines, List.map_append, hmap, List.map_id, List.map_singleton,
    plain_of_lacks hempty]
  rw [List.forall_mem_append, List.forall_mem_singleton]
  exact ⟨hsettled, settled_of_lacks hempty⟩

/-- Without colours and margins, a file does not depend on the indentation. -/
theorem unindent_file (st st' : Style) (h : st.colors = false) (h' : st'.colors = false)
    (hw : st.warnings = st'.warnings) (m : Module) :
    unindent (file st m) = unindent (file st' m) := by
  have hmap : (moduleLines st m).map unindent = (moduleLines st' m).map unindent := by
    rw [moduleLines_eq, moduleLines_eq]
    exact map_written hw fun l _ => unindent_write h h' l
  rw [file_eq, file_eq, unindent_joinLines, unindent_joinLines, List.map_append,
    List.map_append, hmap]

/-- Colours and indentation are cosmetic.  Two styles that show warnings alike give the same text once
colour sequences and then the blanks at the front of each row are taken out, and with one indentation
the colour sequences are all that has to be taken out. -/
theorem style_is_cosmetic {m : Module} (h : ∀ s ∈ m.texts ++ m.descriptions, Lacks '\x1b' s)
    (st st' : Style) (hw : st.warnings = st'.warnings) :
    unindent (plain (file st m)) = unindent (plain (file st' m)) ∧
      (st.indent = st'.indent → st'.colors = false → plain (file st m) = file st' m) := by
  refine ⟨?_, fun hindent hcolors => ?_⟩
  · rw [plain_file st h, plain_file st' h]
    exact unindent_file { st with colors := false } { st' with colors := false } rfl rfl hw m
  · have hstyle : { st with colors := false } = st' := by
      rw [hw, hindent, ← hcolors]
    rw [plain_file st h, hstyle]

/-- A method with a diagnostic: in colour and deep against plain and flush left, and in colour against
plain. -/
theorem style_is_cosmetic_method :
    let m : Module :=
      { name := "box"
        description := "Boxes."
        items := [("Box", .classDef {} none
          [("open", .function { header := { diagnostics := ["No type."] } })] none)] }
    unindent (plain (file { colors := true, indent := 7 } m)) =
        unindent (plain (file { indent := 0 } m)) ∧
      plain (file { colors := true } m) = file {} m := by
  intro m
  have h : ∀ s ∈ m.texts ++ m.descriptions, Lacks '\x1b' s := by decide
  have hindent := style_is_cosmetic h { colors := true, indent := 7 } { indent := 0 } rfl
  have hcolors := style_is_cosmetic h { colors := true } {} rfl
  exact ⟨hindent.1, hcolors.2 rfl rfl⟩

end Ambient.Render
