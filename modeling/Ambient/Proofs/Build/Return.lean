import Ambient.Build.Function

/-!
# Functions that give a value

Where a function returns a value, as a relation: a return with a value is reached from the body
through constructs, and the way down passes neither through a function or a class nor through
another return.  The search of the body finds exactly these returns.
-/

namespace Ambient.Node

/-- A return with a value stands here, or is reached from here. -/
inductive Returns : Node → Prop where
  | here {n c : Node} (hk : n.kind = .returnStatement) (hc : c ∈ n.codeChildren) : Returns n
  | inside {n c : Node} (hk : n.kind ≠ .returnStatement) (hscope : opensScope n.kind = false)
      (hc : c ∈ n.namedChildren) (h : Returns c) : Returns n

/-- The body of the function is an expression, or a block with a return that has a value. -/
def GivesValue (n : Node) : Prop :=
  ∃ body, n.child? .body = some body ∧
    (body.kind ≠ .statementBlock ∨ ∃ c ∈ body.namedChildren, c.Returns)

theorem mem_namedChildren {n c : Node} :
    c ∈ n.namedChildren ↔ c ∈ n.children ∧ c.isNamed = true :=
  List.mem_filter

mutual

theorem returnsValue_iff (n : Node) : n.returnsValue = true ↔ n.Returns := by
  cases n with
  | mk k role text line start cs =>
      have hinner := anyReturnsValue_iff cs
      rw [returnsValue]
      split
      · rename_i hscope
        refine ⟨by nofun, fun h => ?_⟩
        cases h with
        | here hk _ =>
            subst hk
            cases hscope
        | inside _ hopen _ _ => exact absurd hscope (by simpa using hopen)
      · rename_i hscope
        split
        · rename_i hk
          constructor
          · intro h
            obtain ⟨c, hc, hcode⟩ := List.any_eq_true.1 h
            exact .here (beq_iff_eq.1 hk) (List.mem_filter.2 ⟨hc, hcode⟩)
          · intro h
            cases h with
            | here _ hc =>
                obtain ⟨hmem, hcode⟩ := List.mem_filter.1 hc
                exact List.any_eq_true.2 ⟨_, hmem, hcode⟩
            | inside hne _ _ _ => exact absurd (beq_iff_eq.1 hk) hne
        · rename_i hk
          rw [hinner]
          constructor
          · rintro ⟨c, hc, hnamed, h⟩
            exact .inside (by simpa using hk) (by simpa using hscope)
              (mem_namedChildren.2 ⟨hc, hnamed⟩) h
          · intro h
            cases h with
            | here hkind _ => exact absurd (beq_iff_eq.2 hkind) hk
            | inside _ _ hc h =>
                obtain ⟨hmem, hnamed⟩ := mem_namedChildren.1 hc
                exact ⟨_, hmem, hnamed, h⟩

theorem anyReturnsValue_iff (cs : List Node) :
    anyReturnsValue cs = true ↔ ∃ c ∈ cs, c.isNamed = true ∧ c.Returns := by
  cases cs with
  | nil => simp [anyReturnsValue]
  | cons c cs =>
      rw [anyReturnsValue, Bool.or_eq_true, Bool.and_eq_true, returnsValue_iff c,
        anyReturnsValue_iff cs]
      simp

end

theorem givesValue_iff (n : Node) : n.givesValue = true ↔ n.GivesValue := by
  rw [givesValue, GivesValue]
  cases hbody : n.child? .body with
  | none => simp
  | some body =>
      have hreturns : anyReturnsValue body.children = true ↔
          ∃ c ∈ body.namedChildren, c.Returns := by
        rw [anyReturnsValue_iff]
        constructor
        · rintro ⟨c, hc, hnamed, h⟩
          exact ⟨c, mem_namedChildren.2 ⟨hc, hnamed⟩, h⟩
        · rintro ⟨c, hc, h⟩
          obtain ⟨hmem, hnamed⟩ := mem_namedChildren.1 hc
          exact ⟨c, hmem, hnamed, h⟩
      simp [hreturns]

instance (n : Node) : Decidable n.GivesValue :=
  decidable_of_iff _ n.givesValue_iff

end Ambient.Node
