import Ambient.Text.Word
import Ambient.Proofs.Text.Opening

/-!
# Texts without blanks at their ends

Trimming leaves a text as it is exactly when neither its first nor its last character is dropped.
`Tight` asks this of a text that has characters; it looks at the two ends only, so tight texts may be
joined by anything.
-/

namespace Ambient.Text

/-- A first and a last character, and neither satisfies `p`. -/
structure Tight (p : Char → Bool) (cs : List Char) : Prop where
  front : ∃ c v, cs = c :: v ∧ p c = false
  back : ∃ u d, cs = u ++ [d] ∧ p d = false

variable {p : Char → Bool} {a b : List Char}

theorem Tight.singleton {c : Char} (h : p c = false) : Tight p [c] :=
  ⟨⟨c, [], rfl, h⟩, ⟨[], c, rfl, h⟩⟩

/-- Only the two ends count. -/
theorem Tight.append (ha : Tight p a) (mid : List Char) (hb : Tight p b) :
    Tight p (a ++ (mid ++ b)) := by
  obtain ⟨c, v, rfl, hc⟩ := ha.front
  obtain ⟨u, d, rfl, hd⟩ := hb.back
  exact ⟨⟨c, v ++ (mid ++ (u ++ [d])), rfl, hc⟩, ⟨c :: v ++ (mid ++ u), d, by simp, hd⟩⟩

theorem Tight.trimFront_eq (h : Tight p a) (b : List Char) : trimFront p (a ++ b) = a ++ b := by
  obtain ⟨c, v, rfl, hc⟩ := h.front
  exact List.dropWhile_cons_of_neg (by simp [hc])

theorem Tight.trimBack_eq (h : Tight p b) (a : List Char) : trimBack p (a ++ b) = a ++ b := by
  obtain ⟨u, d, rfl, hd⟩ := h.back
  rw [← List.append_assoc]
  exact trimBack_append_singleton_of_neg _ hd

theorem Tight.trimEnds_eq (h : Tight p a) : trimEnds p a = a := by
  have hfront := h.trimFront_eq []
  have hback := h.trimBack_eq []
  rw [List.append_nil] at hfront
  rwa [trimEnds, hfront]

theorem tight_of_forall (hne : a ≠ []) (h : ∀ c ∈ a, p c = false) : Tight p a := by
  constructor
  · obtain ⟨c, v, rfl⟩ := List.exists_cons_of_ne_nil hne
    exact ⟨c, v, rfl, h c (by simp)⟩
  · obtain ⟨u, d, rfl⟩ : ∃ u d, a = u ++ [d] :=
      ⟨_, _, (List.dropLast_concat_getLast hne).symm⟩
    exact ⟨u, d, rfl, h d (by simp)⟩

theorem trimEnds_cons_of_pos {c : Char} (hc : p c = true) (cs : List Char) :
    trimEnds p (c :: cs) = trimEnds p cs := by
  rw [trimEnds, trimFront, List.dropWhile_cons_of_pos hc]
  rfl

theorem length_trimBack_le (cs : List Char) : (trimBack p cs).length ≤ cs.length := by
  obtain ⟨tail, htail, -⟩ := exists_trimBack_append p cs
  have hlength := congrArg List.length htail
  rw [List.length_append] at hlength
  omega

theorem length_trimEnds_le (cs : List Char) : (trimEnds p cs).length ≤ cs.length :=
  Nat.le_trans (length_trimBack_le _) (List.dropWhile_sublist p).length_le

/-- What trimming leaves as it is has no such character at its ends. -/
theorem tight_of_trimEnds_eq (h : trimEnds p a = a) (hne : a ≠ []) : Tight p a := by
  have hfront : ∃ c v, a = c :: v ∧ p c = false := by
    obtain ⟨c, v, rfl⟩ := List.exists_cons_of_ne_nil hne
    refine ⟨c, v, rfl, Bool.eq_false_iff.2 fun hc => ?_⟩
    have hle := length_trimEnds_le (p := p) v
    rw [← trimEnds_cons_of_pos hc, h, List.length_cons] at hle
    omega
  refine ⟨hfront, ?_⟩
  obtain ⟨c, v, hcv, hc⟩ := hfront
  obtain ⟨u, d, rfl⟩ : ∃ u d, a = u ++ [d] := ⟨_, _, (List.dropLast_concat_getLast hne).symm⟩
  refine ⟨u, d, rfl, Bool.eq_false_iff.2 fun hd => ?_⟩
  have hkeep : trimFront p (u ++ [d]) = u ++ [d] := by
    rw [hcv]
    exact List.dropWhile_cons_of_neg (by simp [hc])
  rw [trimEnds, hkeep, trimBack_append_singleton_of_pos u hd] at h
  have hle := length_trimBack_le (p := p) u
  rw [h, List.length_append, List.length_singleton] at hle
  omega

/-- The code points of the blanks. -/
def blanks : List Nat :=
  List.range' 0x09 5 ++ List.range' 0x1c 5 ++ List.range' 0x2000 11 ++
    [0x85, 0xa0, 0x1680, 0x2028, 0x2029, 0x202f, 0x205f, 0x3000]

theorem mem_blanks_of_isBlank {c : Char} (h : isBlank c = true) : c.toNat ∈ blanks := by
  simp only [isBlank, Bool.or_eq_true, Bool.and_eq_true, decide_eq_true_eq, beq_iff_eq] at h
  simp only [blanks, List.mem_append, List.mem_range'_1, List.mem_cons, List.not_mem_nil, or_false]
  omega

theorem isBlank_of_isNameTail {c : Char} (h : isNameTail c = true) : isBlank c = false := by
  rw [Bool.eq_false_iff]
  intro hblank
  have hnone : ∀ n ∈ blanks, isNameTail (Char.ofNat n) = false := by decide +kernel
  have hfalse := hnone _ (mem_blanks_of_isBlank hblank)
  rw [Char.ofNat_toNat, h] at hfalse
  cases hfalse

end Ambient.Text
