import Ambient.Text.Blank
import Ambient.Text.Cut

/-!
# How a text opens

`Text.startsWith` as a statement about prefixes, and the way its failure is shown: two texts clash
when they differ within their common length.  A clash is seen at the front and stays whatever is
written behind, so it is decided on the literal a line is written from and carried to the line.
-/

namespace Ambient.Text

theorem startsWith_iff {word s : String} :
    startsWith word s = true ↔ word.toList <+: s.toList := by
  rw [startsWith, Option.isSome_iff_exists]
  constructor
  · rintro ⟨rest, hrest⟩
    exact ⟨rest, (eq_append_of_after? hrest).symm⟩
  · rintro ⟨rest, hrest⟩
    exact ⟨rest, by rw [← hrest, after?_append]⟩

/-- Two texts differ within their common length. -/
def Clashes (s t : String) : Prop :=
  ¬ s.toList <+: t.toList ∧ ¬ t.toList <+: s.toList

instance (s t : String) : Decidable (Clashes s t) :=
  inferInstanceAs (Decidable (_ ∧ _))

namespace Clashes

theorem append_right {s t : String} (h : Clashes s t) (u : String) : Clashes s (t ++ u) := by
  rw [Clashes, String.toList_append]
  constructor
  · intro hs
    rcases List.prefix_or_prefix_of_prefix hs (List.prefix_append ..) with hst | hts
    · exact h.1 hst
    · exact h.2 hts
  · intro ht
    exact h.2 ((List.prefix_append ..).trans ht)

theorem symm {s t : String} (h : Clashes s t) : Clashes t s :=
  ⟨h.2, h.1⟩

theorem append_left {s t : String} (h : Clashes s t) (u : String) : Clashes (s ++ u) t :=
  (h.symm.append_right u).symm

/-- What stands in front of both texts does not matter. -/
theorem cons_append {s t : String} (h : Clashes s t) (u : String) : Clashes (u ++ s) (u ++ t) := by
  simpa only [Clashes, String.toList_append, List.prefix_append_right_inj] using h

theorem startsWith_eq_false {s t : String} (h : Clashes s t) : startsWith s t = false := by
  rw [Bool.eq_false_iff, Ne, startsWith_iff]
  exact h.1

end Clashes

/-- There is nothing to cut at. -/
theorem cutFirst?_eq_none {p : Char → Bool} {cs : List Char} (h : ∀ c ∈ cs, p c = false) :
    cutFirst? p cs = none := by
  induction cs with
  | nil => rfl
  | cons c cs ih =>
      obtain ⟨hc, hcs⟩ := List.forall_mem_cons.1 h
      simp [cutFirst?, hc, ih hcs]

/-- Blanks are trimmed off the back of a text up to any character that is none. -/
theorem trimBack_append_cons {p : Char → Bool} (a : List Char) {c : Char} (b : List Char)
    (hc : p c = false) : trimBack p (a ++ c :: b) = a ++ c :: trimBack p b := by
  induction a with
  | nil =>
      rw [List.nil_append, trimBack]
      split
      · rename_i hb
        rw [hb, hc]
        rfl
      · rfl
  | cons d a ih =>
      rw [List.cons_append, trimBack, ih]
      cases a <;> rfl

end Ambient.Text
