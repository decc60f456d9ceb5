import Ambient.Text.Blank
import Ambient.Text.Quoted

/-!
# Characters that a text lacks

A text lacks a character when the character does not stand in it.  A text put together from texts
that lack a character lacks it too, and a text of visible characters lacks every control character,
whatever it was made from.
-/

namespace Ambient.Text

/-- The character does not stand in the text. -/
def Lacks (c : Char) (s : String) : Prop :=
  c ∉ s.toList

instance (c : Char) (s : String) : Decidable (Lacks c s) :=
  inferInstanceAs (Decidable (c ∉ s.toList))

/-- No control character stands in the text. -/
def Visible (s : String) : Prop :=
  ∀ c ∈ s.toList, 0x20 ≤ c.toNat

instance (s : String) : Decidable (Visible s) :=
  List.decidableBAll (fun c : Char => 0x20 ≤ c.toNat) s.toList

variable {c : Char} {s t : String}

theorem Visible.lacks (hc : c.toNat < 0x20) (h : Visible s) : Lacks c s := by
  intro hmem
  have hle := h c hmem
  omega

/-! ### Texts put together -/

theorem lacks_append : Lacks c (s ++ t) ↔ Lacks c s ∧ Lacks c t := by
  simp [Lacks, String.toList_append]

theorem visible_append : Visible (s ++ t) ↔ Visible s ∧ Visible t := by
  simp only [Visible, String.toList_append, List.forall_mem_append]

/-- What holds of the characters of all parts and of the separator holds of the whole. -/
theorem forall_mem_intercalate {P : Char → Prop} {sep : String} {ls : List String}
    (hsep : ∀ c ∈ sep.toList, P c) (hls : ∀ l ∈ ls, ∀ c ∈ l.toList, P c) :
    ∀ c ∈ (String.intercalate sep ls).toList, P c := by
  induction ls with
  | nil => exact List.forall_mem_nil P
  | cons l ls ih =>
      obtain ⟨hl, hls⟩ := List.forall_mem_cons.1 hls
      cases ls with
      | nil => simpa using hl
      | cons k ks =>
          rw [String.intercalate_cons_cons, String.toList_append, String.toList_append,
            List.forall_mem_append, List.forall_mem_append]
          exact ⟨⟨hl, hsep⟩, ih hls⟩

theorem Lacks.intercalate {sep : String} {ls : List String} (hsep : Lacks c sep)
    (hls : ∀ l ∈ ls, Lacks c l) : Lacks c (String.intercalate sep ls) := by
  have hne : ∀ d ∈ (String.intercalate sep ls).toList, d ≠ c := by
    refine forall_mem_intercalate (fun d hd heq => ?_) fun l hl d hd heq => ?_
    · exact hsep (heq ▸ hd)
    · exact hls l hl (heq ▸ hd)
  exact fun hmem => hne c hmem rfl

theorem Lacks.trimRight (h : Lacks c s) : Lacks c (Text.trimRight s) := by
  obtain ⟨tail, htail, -⟩ := exists_trimBack_append isBlank s.toList
  intro hmem
  rw [Text.trimRight, String.toList_ofList] at hmem
  refine h ?_
  rw [htail]
  exact List.mem_append_left _ hmem

/-! ### Quoted texts -/

theorem le_of_mem_hexDigits {width n : Nat} {d : Char} (h : d ∈ hexDigits width n) :
    0x20 ≤ d.toNat := by
  induction width generalizing n with
  | zero => cases h
  | succ width ih =>
      have hdigit : ∀ k < 16, 0x20 ≤ (hexDigit k).toNat := by decide
      rw [hexDigits, List.mem_append, List.mem_singleton] at h
      rcases h with h | rfl
      · exact ih h
      · exact hdigit (n % 16) (Nat.mod_lt _ (by omega))

theorem le_of_mem_unitEscape {n : Nat} {d : Char} (h : d ∈ unitEscape n) : 0x20 ≤ d.toNat := by
  rw [unitEscape, List.mem_cons, List.mem_cons] at h
  rcases h with rfl | rfl | h
  · decide
  · decide
  · exact le_of_mem_hexDigits h

/-- What stands for a character in an ASCII string literal is visible, also for a control
character. -/
theorem le_of_mem_asciiEscape {d : Char} (h : d ∈ asciiEscape c) : 0x20 ≤ d.toNat := by
  unfold asciiEscape at h
  split at h
  · rename_i cs hshort
    have hvisible : cs.all (fun d => decide (0x20 ≤ d.toNat)) = true := by
      unfold shortEscape? at hshort
      split at hshort <;> simp at hshort <;> subst hshort <;> decide
    exact of_decide_eq_true (List.all_eq_true.1 hvisible d h)
  · dsimp only at h
    split at h
    · rename_i hrange
      rw [Bool.and_eq_true, decide_eq_true_eq] at hrange
      rw [List.mem_singleton.1 h]
      exact hrange.1
    · split at h
      · exact le_of_mem_unitEscape h
      · exact (List.mem_append.1 h).elim le_of_mem_unitEscape le_of_mem_unitEscape

theorem visible_quoteAscii (s : String) : Visible (quoteAscii s) := by
  intro d hd
  simp only [quoteAscii, String.toList_ofList, List.mem_cons, List.mem_append, List.mem_flatMap,
    List.not_mem_nil, or_false] at hd
  rcases hd with rfl | ⟨c, -, hd⟩ | rfl
  · decide
  · exact le_of_mem_asciiEscape hd
  · decide

end Ambient.Text
