import Ambient.Proofs.TypeExpr.Grammar

/-!
# Flat stretches

The grammar on pieces instead of characters: everything in brackets is one piece, so only unions,
marks, array suffixes and the results of functions are left.  The resolvers try the alternatives of
each rule on the whole stretch and every cut at a bar, so they find an expression exactly when the
stretch has a derivation, and it is one that a derivation builds.
-/

namespace Ambient.TypeExpr

/-- The rule derives the stretch, and the derivation builds the expressions. -/
inductive Fits : Rule → List Piece → List TypeExpr → Prop
  | single {ps : List Piece} {e : TypeExpr} (h : Fits .operand ps [e]) : Fits .union ps [e]
  | several {ps qs : List Piece} {e : TypeExpr} {es : List TypeExpr} (h : Fits .operand ps [e])
      (hs : Fits .others qs es) : Fits .union (ps ++ .bar :: qs) [.union (e :: es)]
  | oneOther {ps : List Piece} {e : TypeExpr} (h : Fits .operand ps [e]) : Fits .others ps [e]
  | moreOthers {ps qs : List Piece} {e : TypeExpr} {es : List TypeExpr} (hs : Fits .others ps es)
      (h : Fits .operand qs [e]) : Fits .others (ps ++ .bar :: qs) (es ++ [e])
  | nullableBefore {ps : List Piece} {e : TypeExpr} (h : Fits .suffixed ps [e]) :
      Fits .operand (.query :: ps) [.nullable e true]
  | nonNullableBefore {ps : List Piece} {e : TypeExpr} (h : Fits .suffixed ps [e]) :
      Fits .operand (.bang :: ps) [.nonNullable e true]
  | nullableAfter {ps : List Piece} {e : TypeExpr} (h : Fits .suffixed ps [e]) :
      Fits .operand (ps ++ [.query]) [.nullable e false]
  | nonNullableAfter {ps : List Piece} {e : TypeExpr} (h : Fits .suffixed ps [e]) :
      Fits .operand (ps ++ [.bang]) [.nonNullable e false]
  | unmarked {ps : List Piece} {e : TypeExpr} (h : Fits .suffixed ps [e]) : Fits .operand ps [e]
  | unsuffixed {ps : List Piece} {e : TypeExpr} (h : Fits .primary ps [e]) : Fits .suffixed ps [e]
  | array {ps : List Piece} {e : TypeExpr} (h : Fits .suffixed ps [e]) :
      Fits .suffixed (ps ++ [.array]) [.apply (.name "Array") [e]]
  | atom (e : TypeExpr) : Fits .primary [.atom e] [e]
  | unknown : Fits .primary [.query] [.unknown]
  | arrow {ps : List Piece} {e : TypeExpr} (params : List TypeExpr) (h : Fits .union ps [e]) :
      Fits .primary (.arrow params :: ps) [.function params (some e)]

theorem mem_barSplits {ps : List Piece} {s : List Piece × List Piece} :
    s ∈ barSplits ps ↔ ps = s.1 ++ .bar :: s.2 := by
  induction ps generalizing s with
  | nil => simp [barSplits]
  | cons p ps ih =>
      obtain ⟨qs, rs⟩ := s
      have hshift (q : Piece) :
          (qs, rs) ∈ (barSplits ps).map (fun s => (q :: s.1, s.2)) ↔
            ∃ qs', qs = q :: qs' ∧ ps = qs' ++ .bar :: rs := by
        simp only [List.mem_map, Prod.exists, Prod.mk.injEq, ih]
        grind
      cases p <;> cases qs <;> simp_all [barSplits] <;> grind

theorem eq_append_of_getLast? {ps : List Piece} {p : Piece} (h : ps.getLast? = some p) :
    ps = ps.dropLast ++ [p] := by
  obtain ⟨init, rfl⟩ := List.getLast?_eq_some_iff.1 h
  simp

/-! ### What is resolved is derived -/

mutual

theorem fits_resolveUnion {ps : List Piece} {e : TypeExpr} (h : resolveUnion ps = some e) :
    Fits .union ps [e] := by
  rw [resolveUnion] at h
  split at h
  · rename_i e' he'
    cases h
    exact .single (fits_resolveOperand he')
  · obtain ⟨⟨⟨qs, rs⟩, hs⟩, -, hfound⟩ := List.exists_of_findSome?_eq_some h
    obtain ⟨hlt, hlt'⟩ : qs.length < ps.length ∧ rs.length < ps.length :=
      length_lt_of_mem_barSplits hs
    split at hfound
    · cases hfound
    · rename_i e' he'
      obtain ⟨es, hes, rfl⟩ := Option.map_eq_some_iff.1 hfound
      rw [mem_barSplits.1 hs]
      exact .several (fits_resolveOperand he') (fits_resolveOthers hes)
termination_by (ps.length, 4)

theorem fits_resolveOthers {ps : List Piece} {es : List TypeExpr}
    (h : resolveOthers ps = some es) : Fits .others ps es := by
  rw [resolveOthers] at h
  split at h
  · rename_i e' he'
    cases h
    exact .oneOther (fits_resolveOperand he')
  · obtain ⟨⟨⟨qs, rs⟩, hs⟩, -, hfound⟩ := List.exists_of_findSome?_eq_some h
    have hs' := List.mem_reverse.1 hs
    obtain ⟨hlt, hlt'⟩ : qs.length < ps.length ∧ rs.length < ps.length :=
      length_lt_of_mem_barSplits hs'
    split at hfound
    · cases hfound
    · rename_i e' he'
      obtain ⟨es, hes, rfl⟩ := Option.map_eq_some_iff.1 hfound
      rw [mem_barSplits.1 hs']
      exact .moreOthers (fits_resolveOthers hes) (fits_resolveOperand he')
termination_by (ps.length, 4)

theorem fits_resolveOperand {ps : List Piece} {e : TypeExpr} (h : resolveOperand ps = some e) :
    Fits .operand ps [e] := by
  rw [resolveOperand] at h
  split at h
  · rename_i e' he'
    cases h
    exact fits_resolveMarkedBefore he'
  · split at h
    · rename_i e' he'
      cases h
      exact fits_resolveMarkedAfter he'
    · exact .unmarked (fits_resolveSuffixed h)
termination_by (ps.length, 3)

theorem fits_resolveMarkedBefore {ps : List Piece} {e : TypeExpr}
    (h : resolveMarkedBefore ps = some e) : Fits .operand ps [e] := by
  unfold resolveMarkedBefore at h
  split at h
  · obtain ⟨e', he', rfl⟩ := Option.map_eq_some_iff.1 h
    exact .nullableBefore (fits_resolveSuffixed he')
  · obtain ⟨e', he', rfl⟩ := Option.map_eq_some_iff.1 h
    exact .nonNullableBefore (fits_resolveSuffixed he')
  · cases h
termination_by (ps.length, 2)

theorem fits_resolveMarkedAfter {ps : List Piece} {e : TypeExpr}
    (h : resolveMarkedAfter ps = some e) : Fits .operand ps [e] := by
  rw [resolveMarkedAfter] at h
  split at h
  · rename_i hlast
    have hlt := length_dropLast_lt_of_getLast? hlast
    obtain ⟨e', he', rfl⟩ := Option.map_eq_some_iff.1 h
    rw [eq_append_of_getLast? hlast]
    exact .nullableAfter (fits_resolveSuffixed he')
  · rename_i hlast
    have hlt := length_dropLast_lt_of_getLast? hlast
    obtain ⟨e', he', rfl⟩ := Option.map_eq_some_iff.1 h
    rw [eq_append_of_getLast? hlast]
    exact .nonNullableAfter (fits_resolveSuffixed he')
  · cases h
termination_by (ps.length, 2)

theorem fits_resolveSuffixed {ps : List Piece} {e : TypeExpr} (h : resolveSuffixed ps = some e) :
    Fits .suffixed ps [e] := by
  rw [resolveSuffixed] at h
  split at h
  · rename_i e' he'
    cases h
    exact .unsuffixed (fits_resolvePrimary he')
  · split at h
    · rename_i hlast
      have hlt := length_dropLast_lt_of_getLast? hlast
      obtain ⟨e', he', rfl⟩ := Option.map_eq_some_iff.1 h
      rw [eq_append_of_getLast? hlast]
      exact .array (fits_resolveSuffixed he')
    · cases h
termination_by (ps.length, 1)

theorem fits_resolvePrimary {ps : List Piece} {e : TypeExpr} (h : resolvePrimary ps = some e) :
    Fits .primary ps [e] := by
  unfold resolvePrimary at h
  split at h
  · cases h
    exact .atom e
  · cases h
    exact .unknown
  · rename_i params qs
    obtain ⟨e', he', rfl⟩ := Option.map_eq_some_iff.1 h
    exact .arrow params (fits_resolveUnion he')
  · cases h
termination_by (ps.length, 0)

end

/-! ### What is derived is resolved -/

/-- The resolver of the rule finds an expression. -/
def Resolved : Rule → List Piece → Prop
  | .union, ps => ∃ e, resolveUnion ps = some e
  | .others, ps => ∃ es, resolveOthers ps = some es
  | .operand, ps => ∃ e, resolveOperand ps = some e
  | .suffixed, ps => ∃ e, resolveSuffixed ps = some e
  | .primary, ps => ∃ e, resolvePrimary ps = some e
  | _, _ => False

theorem resolved_union {ps qs : List Piece} (h : Resolved .operand ps) (hs : Resolved .others qs) :
    Resolved .union (ps ++ .bar :: qs) := by
  obtain ⟨e, he⟩ := h
  obtain ⟨es, hes⟩ := hs
  rw [Resolved, resolveUnion]
  split
  · exact ⟨_, rfl⟩
  · rw [← Option.isSome_iff_exists, List.findSome?_isSome_iff]
    refine ⟨⟨(ps, qs), mem_barSplits.2 rfl⟩, List.mem_attach _ _, ?_⟩
    simp [he, hes]

theorem resolved_others {ps qs : List Piece} (hs : Resolved .others ps)
    (h : Resolved .operand qs) : Resolved .others (ps ++ .bar :: qs) := by
  obtain ⟨e, he⟩ := h
  obtain ⟨es, hes⟩ := hs
  rw [Resolved, resolveOthers]
  split
  · exact ⟨_, rfl⟩
  · rw [← Option.isSome_iff_exists, List.findSome?_isSome_iff]
    refine ⟨⟨(ps, qs), List.mem_reverse.2 (mem_barSplits.2 rfl)⟩, List.mem_attach _ _, ?_⟩
    simp [he, hes]

theorem resolveMarkedAfter_query (ps : List Piece) :
    resolveMarkedAfter (ps ++ [.query]) = (resolveSuffixed ps).map fun e => .nullable e false := by
  rw [resolveMarkedAfter]
  split
  · simp only [List.dropLast_concat]
  · rename_i hlast
    rw [List.getLast?_concat] at hlast
    cases hlast
  · rename_i hlast _
    exact (hlast List.getLast?_concat).elim

theorem resolveMarkedAfter_bang (ps : List Piece) :
    resolveMarkedAfter (ps ++ [.bang]) =
      (resolveSuffixed ps).map fun e => .nonNullable e false := by
  rw [resolveMarkedAfter]
  split
  · rename_i hlast
    rw [List.getLast?_concat] at hlast
    cases hlast
  · simp only [List.dropLast_concat]
  · rename_i _ hlast
    exact (hlast List.getLast?_concat).elim

theorem resolved_markedBefore {ps : List Piece} {e : TypeExpr}
    (h : resolveMarkedBefore ps = some e) : Resolved .operand ps := by
  rw [Resolved, resolveOperand, h]
  exact ⟨e, rfl⟩

theorem resolved_markedAfter {ps : List Piece} {e : TypeExpr}
    (h : resolveMarkedAfter ps = some e) : Resolved .operand ps := by
  rw [Resolved, resolveOperand]
  split
  · exact ⟨_, rfl⟩
  · rw [h]
    exact ⟨e, rfl⟩

/-- A derivation of a stretch is found, or another one in its place. -/
theorem resolved_of_fits {r : Rule} {ps : List Piece} {es : List TypeExpr} (h : Fits r ps es) :
    Resolved r ps := by
  induction h with
  | single _ ih =>
      obtain ⟨e, he⟩ := ih
      exact ⟨e, by rw [resolveUnion, he]⟩
  | several _ _ ih ihs => exact resolved_union ih ihs
  | oneOther _ ih =>
      obtain ⟨e, he⟩ := ih
      exact ⟨[e], by rw [resolveOthers, he]⟩
  | moreOthers _ _ ihs ih => exact resolved_others ihs ih
  | nullableBefore _ ih =>
      obtain ⟨e, he⟩ := ih
      exact resolved_markedBefore (by rw [resolveMarkedBefore, he, Option.map_some])
  | nonNullableBefore _ ih =>
      obtain ⟨e, he⟩ := ih
      exact resolved_markedBefore (by rw [resolveMarkedBefore, he, Option.map_some])
  | nullableAfter _ ih =>
      obtain ⟨e, he⟩ := ih
      exact resolved_markedAfter (by rw [resolveMarkedAfter_query, he, Option.map_some])
  | nonNullableAfter _ ih =>
      obtain ⟨e, he⟩ := ih
      exact resolved_markedAfter (by rw [resolveMarkedAfter_bang, he, Option.map_some])
  | unmarked _ ih =>
      obtain ⟨e, he⟩ := ih
      rw [Resolved, resolveOperand]
      split
      · exact ⟨_, rfl⟩
      · split
        · exact ⟨_, rfl⟩
        · exact ⟨e, he⟩
  | unsuffixed _ ih =>
      obtain ⟨e, he⟩ := ih
      exact ⟨e, by rw [resolveSuffixed, he]⟩
  | array _ ih =>
      obtain ⟨e, he⟩ := ih
      rw [Resolved, resolveSuffixed]
      split
      · exact ⟨_, rfl⟩
      · split
        all_goals simp_all
  | atom e => exact ⟨e, by rw [resolvePrimary]⟩
  | unknown => exact ⟨_, by rw [resolvePrimary]⟩
  | arrow params _ ih =>
      obtain ⟨e, he⟩ := ih
      exact ⟨_, by rw [resolvePrimary, he, Option.map_some]⟩

/-! ### What the resolvers find -/

theorem resolveOperand_atom (e : TypeExpr) : resolveOperand [.atom e] = some e := by
  simp [resolveOperand, resolveMarkedBefore, resolveMarkedAfter, resolveSuffixed, resolvePrimary]

theorem resolveOperand_query_atom (e : TypeExpr) :
    resolveOperand [.query, .atom e] = some (.nullable e true) := by
  simp [resolveOperand, resolveMarkedBefore, resolveSuffixed, resolvePrimary]

theorem resolveUnion_of_operand {ps : List Piece} {e : TypeExpr} (h : resolveOperand ps = some e) :
    resolveUnion ps = some e := by
  rw [resolveUnion, h]

theorem resolveOthers_of_operand {ps : List Piece} {e : TypeExpr}
    (h : resolveOperand ps = some e) : resolveOthers ps = some [e] := by
  rw [resolveOthers, h]

theorem barSplits_append {ps : List Piece} (h : ∀ p ∈ ps, p ≠ .bar) (qs : List Piece) :
    ∃ splits, barSplits (ps ++ .bar :: qs) = (ps, qs) :: splits := by
  induction ps with
  | nil => exact ⟨_, rfl⟩
  | cons p ps ih =>
      obtain ⟨hp, hps⟩ := List.forall_mem_cons.1 h
      obtain ⟨splits, hsplits⟩ := ih hps
      have hshift : barSplits (p :: (ps ++ .bar :: qs)) =
          (barSplits (ps ++ .bar :: qs)).map fun s => (p :: s.1, s.2) := by
        cases p with
        | bar => exact absurd rfl hp
        | _ => rfl
      exact ⟨_, by rw [List.cons_append, hshift, hsplits, List.map_cons]⟩

/-- A stretch that is no operand is cut at its first bar, when both sides can be resolved. -/
theorem resolveUnion_append {ps qs : List Piece} {e : TypeExpr} {es : List TypeExpr}
    (hbar : ∀ p ∈ ps, p ≠ .bar) (hwhole : resolveOperand (ps ++ .bar :: qs) = none)
    (h : resolveOperand ps = some e) (hs : resolveOthers qs = some es) :
    resolveUnion (ps ++ .bar :: qs) = some (.union (e :: es)) := by
  obtain ⟨splits, hsplits⟩ := barSplits_append hbar qs
  rw [resolveUnion, hwhole]
  dsimp only
  rw [List.findSome?_subtype (g := fun s => (resolveOperand s.1).bind fun e =>
    (resolveOthers s.2).map fun es => union (e :: es)), List.unattach_attach, hsplits]
  · simp [h, hs]
  · intro s _
    cases resolveOperand s.1 <;> rfl

end Ambient.TypeExpr
