import Ambient.Text.Cut
import Ambient.Text.Line

/-!
# Rows

The rows of a text are what stands between its line feeds.  They are not its lines: `Text.lines`
cuts at every character that ends a line and opens no line after the last break, `Text.rows` cuts
at line feeds only and loses nothing.  A text without a line feed is unbroken.  Texts that are
unbroken can be joined and cut again, so a text written line by line can be spoken about by its
rows.
-/

namespace Ambient.Text

/-- The rows of a text, cut at its line feeds. -/
def rows (s : String) : List String :=
  (piecesOf (· == '\n') s.toList).map String.ofList

/-- A text of one row. -/
def Unbroken (s : String) : Prop :=
  '\n' ∉ s.toList

instance (s : String) : Decidable (Unbroken s) :=
  inferInstanceAs (Decidable ('\n' ∉ s.toList))

/-! ### Pieces -/

theorem piecesOf_ne_nil (p : Char → Bool) (cs : List Char) : piecesOf p cs ≠ [] := by
  fun_cases piecesOf p cs <;> exact List.cons_ne_nil _ _

theorem piecesOf_of_forall {p : Char → Bool} {cs : List Char} (h : ∀ c ∈ cs, p c = false) :
    piecesOf p cs = [cs] := by
  induction cs with
  | nil => rfl
  | cons c cs ih =>
      have hc : p c = false := h c (List.mem_cons_self ..)
      rw [piecesOf, ih fun d hd => h d (List.mem_cons_of_mem _ hd), hc]
      rfl

/-- A cut at any separating character. -/
theorem piecesOf_append {p : Char → Bool} (a : List Char) {c : Char} (b : List Char)
    (hc : p c = true) : piecesOf p (a ++ c :: b) = piecesOf p a ++ piecesOf p b := by
  fun_induction piecesOf p a with
  | case1 => rw [List.nil_append, piecesOf, if_pos hc, List.singleton_append]
  | case2 d a hd ih => rw [List.cons_append, piecesOf, if_pos hd, ih, List.cons_append]
  | case3 d a hd hnil => exact absurd hnil (piecesOf_ne_nil p a)
  | case4 d a hd l ls hls ih => rw [List.cons_append, piecesOf, if_neg hd, ih, hls]; rfl

/-- What stands before the first separating character belongs to the first piece. -/
theorem piecesOf_append_of_forall {p : Char → Bool} {a b l : List Char} {ls : List (List Char)}
    (ha : ∀ x ∈ a, p x = false) (hb : piecesOf p b = l :: ls) :
    piecesOf p (a ++ b) = (a ++ l) :: ls := by
  induction a with
  | nil => exact hb
  | cons x a ih =>
      obtain ⟨hx, ha⟩ := List.forall_mem_cons.1 ha
      rw [List.cons_append, piecesOf, hx, ih ha]
      rfl

/-- No character of a piece is one that separates pieces. -/
theorem eq_false_of_mem_piecesOf {p : Char → Bool} {cs piece : List Char} {c : Char}
    (hpiece : piece ∈ piecesOf p cs) (hc : c ∈ piece) : p c = false := by
  induction cs generalizing piece with
  | nil =>
      rw [piecesOf, List.mem_singleton] at hpiece
      rw [hpiece] at hc
      cases hc
  | cons d cs ih =>
      rw [piecesOf] at hpiece
      split at hpiece
      · rcases List.mem_cons.1 hpiece with rfl | hmem
        · cases hc
        · exact ih hmem hc
      · rename_i hd
        have hd : p d = false := Bool.eq_false_iff.2 hd
        cases hp : piecesOf p cs with
        | nil =>
            rw [hp, List.mem_singleton] at hpiece
            rw [hpiece, List.mem_singleton] at hc
            rwa [hc]
        | cons l ls =>
            rw [hp] at hpiece ih
            rcases List.mem_cons.1 hpiece with rfl | hmem
            · rcases List.mem_cons.1 hc with rfl | hl
              · exact hd
              · exact ih (List.mem_cons_self ..) hl
            · exact ih (List.mem_cons_of_mem _ hmem) hc

/-! ### Unbroken texts -/

/-- The characters of a line are characters of the text, and none of them ends a line. -/
theorem mem_and_isBreak_of_mem_linesOf {cs l : List Char} {c : Char} (hl : l ∈ linesOf cs)
    (hc : c ∈ l) : c ∈ cs ∧ isBreak c = false := by
  fun_induction linesOf cs generalizing l with
  | case1 => cases hl
  | case2 cs ih =>
      rcases List.mem_cons.1 hl with rfl | hl
      · cases hc
      · exact (ih hl hc).imp_left fun h => List.mem_cons_of_mem _ (List.mem_cons_of_mem _ h)
  | case3 d cs _ hd ih =>
      rcases List.mem_cons.1 hl with rfl | hl
      · cases hc
      · exact (ih hl hc).imp_left (List.mem_cons_of_mem _)
  | case4 d cs _ hd hnil ih =>
      rw [List.mem_singleton.1 hl, List.mem_singleton] at hc
      rw [hc]
      exact ⟨List.mem_cons_self .., Bool.eq_false_iff.2 hd⟩
  | case5 d cs _ hd k ks hcons ih =>
      rw [hcons] at ih
      rcases List.mem_cons.1 hl with rfl | hl
      · rcases List.mem_cons.1 hc with rfl | hc
        · exact ⟨List.mem_cons_self .., Bool.eq_false_iff.2 hd⟩
        · exact (ih (List.mem_cons_self ..) hc).imp_left (List.mem_cons_of_mem _)
      · exact (ih (List.mem_cons_of_mem _ hl) hc).imp_left (List.mem_cons_of_mem _)

theorem unbroken_of_mem_lines {s l : String} (h : l ∈ lines s) : Unbroken l := by
  obtain ⟨cs, hcs, rfl⟩ := List.mem_map.1 h
  intro hc
  rw [String.toList_ofList] at hc
  exact absurd (mem_and_isBreak_of_mem_linesOf hcs hc).2 (by decide)

/-! ### Joining and cutting -/

theorem Unbroken.beq_newline {s : String} (h : Unbroken s) :
    ∀ c ∈ s.toList, (c == '\n') = false := by
  intro c hc
  rw [beq_eq_false_iff_ne]
  rintro rfl
  exact h hc

theorem rows_ne_nil (s : String) : rows s ≠ [] := by
  rw [rows, Ne, List.map_eq_nil_iff]
  exact piecesOf_ne_nil _ _

/-- A line feed between two texts separates their rows. -/
theorem rows_append (s t : String) : rows (s ++ "\n" ++ t) = rows s ++ rows t := by
  have hlist : (s ++ "\n" ++ t).toList = s.toList ++ '\n' :: t.toList := by
    simp [String.toList_append]
  rw [rows, hlist, piecesOf_append _ _ rfl, List.map_append, rows, rows]

/-- An unbroken text is written into the first row of what follows it. -/
theorem rows_append_of_unbroken {s t r : String} {rs : List String} (hs : Unbroken s)
    (ht : rows t = r :: rs) : rows (s ++ t) = (s ++ r) :: rs := by
  obtain ⟨l, ls, hpieces, rfl, rfl⟩ := List.map_eq_cons_iff.1 ht
  rw [rows, String.toList_append, piecesOf_append_of_forall hs.beq_newline hpieces,
    List.map_cons, String.ofList_append, String.ofList_toList]

theorem rows_of_unbroken {s : String} (h : Unbroken s) : rows s = [s] := by
  rw [rows, piecesOf_of_forall h.beq_newline, List.map_singleton, String.ofList_toList]

/-- The rows of joined lines are the rows of each of them. -/
theorem rows_joinLines_eq_flatMap {ls : List String} (hne : ls ≠ []) :
    rows (joinLines ls) = ls.flatMap rows := by
  induction ls with
  | nil => exact absurd rfl hne
  | cons l ls ih =>
      cases ls with
      | nil => simp [joinLines]
      | cons k ks =>
          have hrest := ih (List.cons_ne_nil k ks)
          rw [joinLines, String.intercalate_cons_cons, rows_append, List.flatMap_cons, ← hrest]
          rfl

theorem flatMap_rows_of_unbroken {ls : List String} (hls : ∀ l ∈ ls, Unbroken l) :
    ls.flatMap rows = ls := by
  induction ls with
  | nil => rfl
  | cons l ls ih =>
      obtain ⟨hl, hls⟩ := List.forall_mem_cons.1 hls
      rw [List.flatMap_cons, rows_of_unbroken hl, ih hls, List.singleton_append]

/-- Joining unbroken lines and cutting at line feeds gives the lines back. -/
theorem rows_joinLines {ls : List String} (hne : ls ≠ []) (hls : ∀ l ∈ ls, Unbroken l) :
    rows (joinLines ls) = ls := by
  rw [rows_joinLines_eq_flatMap hne, flatMap_rows_of_unbroken hls]

theorem joinLines_append {ls ks : List String} (hls : ls ≠ []) (hks : ks ≠ []) :
    joinLines (ls ++ ks) = joinLines ls ++ "\n" ++ joinLines ks := by
  induction ls with
  | nil => exact absurd rfl hls
  | cons l ls ih =>
      cases ls with
      | nil =>
          obtain ⟨k, ks, rfl⟩ := List.exists_cons_of_ne_nil hks
          simp [joinLines, String.intercalate_cons_cons]
      | cons j js =>
          have hrest := ih (List.cons_ne_nil j js)
          simp only [joinLines, List.cons_append, String.intercalate_cons_cons,
            String.append_assoc] at hrest ⊢
          rw [hrest]

theorem joinLines_append_newline {ls : List String} (hne : ls ≠ []) :
    joinLines ls ++ "\n" = joinLines (ls ++ [""]) := by
  rw [joinLines_append hne (List.cons_ne_nil _ _)]
  simp [joinLines]

/-- A line feed at the end opens one more row, which is empty. -/
theorem rows_joinLines_newline {ls : List String} (hne : ls ≠ []) :
    rows (joinLines ls ++ "\n") = ls.flatMap rows ++ [""] := by
  rw [joinLines_append_newline hne, rows_joinLines_eq_flatMap (by simp), List.flatMap_append]
  rfl

end Ambient.Text
