import Ambient.Proofs.Json.Quoted
import Ambient.Render.Type
import Mathlib.Logic.Function.Basic

/-!
# Member names

A member name is written as it is when it is an identifier or a number, and as a string literal
otherwise.  A name that is written as it is does not begin with a double quote, and a literal is
read as the name it was written for; so the name can be told from what is written.
-/

namespace Ambient.Render

open Ambient.Text

/-- An identifier begins as one, with or without a line feed at its end. -/
theorem isNameHead_of_isIdentifier {name : String} (h : isIdentifier name = true) :
    ∃ c cs, name.toList = c :: cs ∧ isNameHead c = true := by
  unfold isIdentifier at h
  split at h
  · cases h
  · rename_i c cs hname
    have hc : isNameHead c = true := (Bool.and_eq_true _ _ ▸ h).1
    cases hbefore : before? "\n" name with
    | none =>
        rw [hbefore] at hname
        exact ⟨c, cs, hname, hc⟩
    | some front =>
        obtain ⟨rest, hrest, rfl⟩ := Option.map_eq_some_iff.1 hbefore
        have hlist : name.toList = rest.reverse ++ ['\n'] := by
          rw [← List.reverse_reverse name.toList, eq_append_of_after? hrest, List.reverse_append]
          rfl
        rw [hbefore, Option.getD_some, String.toList_ofList] at hname
        exact ⟨c, cs ++ ['\n'], by rw [hlist, hname, List.cons_append], hc⟩

theorem isDigit_of_isDigits {name : String} (h : isDigits name = true) :
    ∃ c cs, name.toList = c :: cs ∧ Text.isDigit c = true := by
  rw [isDigits, Bool.and_eq_true, List.all_eq_true] at h
  cases hname : name.toList with
  | nil =>
      rw [String.toList_eq_nil_iff.1 hname] at h
      cases h.1
  | cons c cs => exact ⟨c, cs, rfl, h.2 c (by simp [hname])⟩

/-- A name that needs no quotes begins as an identifier or with a digit. -/
theorem exists_cons_of_bare {name : String} (h : (isIdentifier name || isDigits name) = true) :
    ∃ c cs, name.toList = c :: cs ∧ (isNameHead c = true ∨ Text.isDigit c = true) := by
  rcases Bool.or_eq_true _ _ ▸ h with h | h
  · obtain ⟨c, cs, hname, hc⟩ := isNameHead_of_isIdentifier h
    exact ⟨c, cs, hname, .inl hc⟩
  · obtain ⟨c, cs, hname, hc⟩ := isDigit_of_isDigits h
    exact ⟨c, cs, hname, .inr hc⟩

/-- A name that needs no quotes does not begin with one. -/
theorem head?_ne_quote {name : String} (h : (isIdentifier name || isDigits name) = true) :
    name.toList.head? ≠ some '"' := by
  obtain ⟨c, cs, hname, hc⟩ := exists_cons_of_bare h
  rw [hname]
  rintro ⟨⟩
  revert hc
  decide

/-- A member name is written as it is or as a literal. -/
theorem memberName_eq_or (name : String) :
    (memberName name = name ∧ name.toList.head? ≠ some '"') ∨
      memberName name = quoteAscii name := by
  unfold memberName
  split
  · rename_i h
    exact .inl ⟨rfl, head?_ne_quote h⟩
  · exact .inr rfl

theorem head?_quoteAscii (s : String) : (quoteAscii s).toList.head? = some '"' := by
  rw [quoteAscii, String.toList_ofList]
  rfl

theorem quoteAscii_injective : Function.Injective quoteAscii := by
  intro s t h
  have hread := Json.parse?_quoteAscii s
  rw [h, Json.parse?_quoteAscii t] at hread
  cases hread
  rfl

theorem memberName_injective : Function.Injective memberName := by
  intro m n h
  rcases memberName_eq_or m with ⟨hm, hhead⟩ | hm <;>
    rcases memberName_eq_or n with ⟨hn, hhead'⟩ | hn
  · rw [← hm, h, hn]
  · rw [hm, hn] at h
    exact absurd (h ▸ head?_quoteAscii n) hhead
  · rw [hm, hn] at h
    exact absurd (h ▸ head?_quoteAscii m) hhead'
  · rw [hm, hn] at h
    exact quoteAscii_injective h

/-- Member names never collide.  A member name is written as it is, and then it does not begin with
a double quote, or as a string literal of ASCII characters that is read as the name; so two members
of a class or an object whose names differ are written under names that differ. -/
theorem memberNames_never_collide :
    (∀ name, (memberName name = name ∧ name.toList.head? ≠ some '"') ∨
      (∀ c ∈ (memberName name).toList, c.toNat < 0x80) ∧
        Json.parse? (memberName name) = some (.str name)) ∧
    Function.Injective memberName := by
  refine ⟨fun name => ?_, memberName_injective⟩
  refine (memberName_eq_or name).imp_right fun h => ?_
  rw [h]
  exact ⟨Json.toNat_lt_of_mem_quoteAscii name, Json.parse?_quoteAscii name⟩

/-- A name with a quote, a control character and a character beyond the basic plane. -/
example : memberName "a\"\x01𝔸" = "\"a\\\"\\u0001\\ud835\\udd38\"" := by decide

end Ambient.Render
