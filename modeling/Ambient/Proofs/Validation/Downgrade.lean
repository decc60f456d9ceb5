import Ambient.Proofs.Position
import Ambient.Proofs.Validation.Recognition

/-!
# What validation does to types

A reference is missing at a position when it has no namespace, its name is not recognised, and every
reference around it has no namespace and a recognised name: it is an outermost unrecognised type.
`Downgraded` says by positions what may become of a list of references: what is missing becomes a
bare `any`, what stands around it keeps its own name, and everything else stays as it is.
-/

namespace Ambient.TypeRef

open Position

/-- The reference at a position below `t`. -/
def at? (t : TypeRef) (p : List Nat) : Option TypeRef :=
  descend args t p

/-- The reference at a position in a list. -/
def atIn? : List TypeRef → List Nat → Option TypeRef
  | _, [] => none
  | ts, i :: p => ts[i]?.bind fun t => t.at? p

/-- An outermost unrecognised type of this name stands at the position. -/
structure Missing (known : List String) (t : TypeRef) (p : List Nat) (name : String) : Prop where
  stands : ∃ u, t.at? p = some u ∧ u.scope = none ∧ u.name = name
  unknown : name ∉ known
  around : ∀ q u, q <+: p → q ≠ p → t.at? q = some u → u.scope = none ∧ u.name ∈ known

/-- The same of a position in a list of references. -/
def MissingIn (known : List String) : List TypeRef → List Nat → String → Prop :=
  Among (Missing known)

/-- The second list is the first with every outermost unrecognised type replaced by `any`. -/
structure Downgraded (known : List String) (ts ts' : List TypeRef) : Prop where
  replaced : ∀ p name, MissingIn known ts p name → atIn? ts' p = some any
  /-- Neither missing, nor inside something missing, nor around it. -/
  apart : ∀ p t, atIn? ts p = some t →
    (∀ q name, q <+: p ∨ p <+: q → ¬ MissingIn known ts q name) → atIn? ts' p = some t
  around : ∀ p t, atIn? ts p = some t → (∀ q name, q <+: p → ¬ MissingIn known ts q name) →
    ∃ t', atIn? ts' p = some t' ∧ t'.scope = t.scope ∧ t'.name = t.name ∧
      t'.args.length = t.args.length
  /-- No position is new. -/
  only : ∀ p t', atIn? ts' p = some t' → ∃ t, atIn? ts p = some t

variable {known : List String} {t : TypeRef}

@[simp]
theorem at?_nil (t : TypeRef) : t.at? [] = some t := rfl

theorem at?_cons (t : TypeRef) (i : Nat) (p : List Nat) : t.at? (i :: p) = atIn? t.args (i :: p) :=
  rfl

theorem missing_nil_iff {name : String} :
    Missing known t [] name ↔ t.scope = none ∧ t.name = name ∧ name ∉ known := by
  constructor
  · rintro ⟨⟨u, hu, hscope, hname⟩, hunknown, -⟩
    cases hu
    exact ⟨hscope, hname, hunknown⟩
  · rintro ⟨hscope, hname, hunknown⟩
    refine ⟨⟨t, rfl, hscope, hname⟩, hunknown, ?_⟩
    intro q u hq hne
    exact absurd (List.prefix_nil.1 hq) hne

/-- What is missing below a reference is missing in its arguments, and the reference is
recognised. -/
theorem missing_cons_iff {i : Nat} {p : List Nat} {name : String} :
    Missing known t (i :: p) name ↔
      t.scope = none ∧ t.name ∈ known ∧ MissingIn known t.args (i :: p) name := by
  constructor
  · rintro ⟨⟨u, hu, hscope, hname⟩, hunknown, haround⟩
    obtain ⟨hroot, hknown⟩ := haround [] t (List.nil_prefix) (List.cons_ne_nil i p).symm rfl
    obtain ⟨a, ha, hau⟩ := Option.bind_eq_some_iff.1 hu
    refine ⟨hroot, hknown, i, p, a, rfl, ha, ⟨u, hau, hscope, hname⟩, hunknown, ?_⟩
    intro q v hq hne hv
    refine haround (i :: q) v ((List.prefix_cons_inj i).2 hq) (fun h => hne (List.cons.inj h).2) ?_
    exact Option.bind_eq_some_iff.2 ⟨a, ha, hv⟩
  · rintro ⟨hroot, hknown, _, _, a, hp, ha, ⟨u, hau, hscope, hname⟩, hunknown, haround⟩
    cases hp
    refine ⟨⟨u, Option.bind_eq_some_iff.2 ⟨a, ha, hau⟩, hscope, hname⟩, hunknown, ?_⟩
    intro q v hq hne hv
    cases q with
    | nil =>
        cases hv
        exact ⟨hroot, hknown⟩
    | cons j q =>
        obtain ⟨rfl, hqp⟩ := List.cons_prefix_cons.1 hq
        obtain ⟨b, hb, hbv⟩ := Option.bind_eq_some_iff.1 hv
        cases ha.symm.trans hb
        exact haround q v hqp (fun h => hne (congrArg _ h)) hbv

theorem not_missingIn_nil {ts : List TypeRef} {name : String} : ¬ MissingIn known ts [] name := by
  rintro ⟨i, p, u, h, -⟩
  cases h

theorem missingIn_cons_iff {ts : List TypeRef} {i : Nat} {p : List Nat} {name : String} :
    MissingIn known ts (i :: p) name ↔ ∃ u, ts[i]? = some u ∧ Missing known u p name := by
  constructor
  · rintro ⟨_, _, u, h, hu, hmissing⟩
    cases h
    exact ⟨u, hu, hmissing⟩
  · rintro ⟨u, hu, hmissing⟩
    exact ⟨i, p, u, rfl, hu, hmissing⟩

/-! ### The names that are reported -/

theorem unknownAll_eq_flatMap (known : List String) (ts : List TypeRef) :
    unknownAll known ts = ts.flatMap (unknown known) := by
  induction ts with
  | nil => rfl
  | cons t ts ih => rw [unknownAll, ih, List.flatMap_cons]

/-- The reported names of a reference are those of its outermost unrecognised types, from left to
right. -/
theorem exists_enumerates_missing (known : List String) (t : TypeRef) :
    ∃ found, Enumerates (Missing known t) found ∧ found.map Prod.snd = unknown known t := by
  induction t using induct with
  | mk scope name args ih =>
    cases scope with
    | some s =>
        refine ⟨[], .nil ?_, by rw [unknown]; rfl⟩
        intro p n hmissing
        cases p with
        | nil => exact absurd (missing_nil_iff.1 hmissing).1 (Option.some_ne_none s)
        | cons i p => exact absurd (missing_cons_iff.1 hmissing).1 (Option.some_ne_none s)
    | none =>
        by_cases hname : name ∈ known
        · -- A recognised reference reports what its arguments report.
          obtain ⟨found, hfound, hnames⟩ := exists_enumerates_among (g := id) ih
          refine ⟨found, hfound.congr fun p n => ?_, ?_⟩
          · cases p with
            | nil =>
                refine ⟨fun h => absurd h not_missingIn_nil, fun h => ?_⟩
                obtain ⟨-, rfl, hn⟩ := missing_nil_iff.1 h
                exact absurd hname hn
            | cons i p => simp only [missing_cons_iff, MissingIn, hname, true_and]
          · rw [unknown, if_pos (List.contains_iff_mem.2 hname), unknownAll_eq_flatMap]
            exact hnames
        · refine ⟨[([], name)], (Enumerates.singleton [] name).congr fun p n => ?_, ?_⟩
          · cases p with
            | nil =>
                rw [missing_nil_iff]
                constructor
                · rintro ⟨-, rfl⟩
                  exact ⟨rfl, rfl, hname⟩
                · rintro ⟨-, rfl, -⟩
                  exact ⟨rfl, rfl⟩
            | cons i p => simp [missing_cons_iff, hname]
          · rw [unknown, if_neg fun h => hname (List.contains_iff_mem.1 h)]
            rfl

theorem exists_enumerates_missingIn (known : List String) (ts : List TypeRef) :
    ∃ found, Enumerates (MissingIn known ts) found ∧ found.map Prod.snd = unknownAll known ts := by
  rw [unknownAll_eq_flatMap]
  exact exists_enumerates_among (g := id) fun t _ => exists_enumerates_missing known t

/-! ### What the references become -/

theorem at?_settle_of_missing {p : List Nat} {name : String} (h : Missing known t p name) :
    (settle known t).at? p = some any := by
  induction p generalizing t with
  | nil =>
      obtain ⟨hscope, rfl, hunknown⟩ := missing_nil_iff.1 h
      rw [settle_of_not_mem hscope hunknown, at?_nil]
  | cons i p ih =>
      obtain ⟨hscope, hknown, hin⟩ := missing_cons_iff.1 h
      obtain ⟨a, ha, hmissing⟩ := missingIn_cons_iff.1 hin
      rw [settle_of_mem hscope hknown, at?_cons, atIn?, List.getElem?_map, ha]
      exact ih hmissing

/-- Where nothing on the way down is missing, the reference stays if it stands inside one with a
namespace, and is settled otherwise. -/
theorem at?_settle_of_not_missing {p : List Nat} {u : TypeRef} (hu : t.at? p = some u)
    (h : ∀ q name, q <+: p → ¬ Missing known t q name) :
    (settle known t).at? p = some u ∨
      (settle known t).at? p = some (settle known u) ∧
        ∀ q name, Missing known u q name → Missing known t (p ++ q) name := by
  induction p generalizing t with
  | nil =>
      cases hu
      exact .inr ⟨rfl, fun q name hq => hq⟩
  | cons i p ih =>
      by_cases hscope : t.scope = none
      · by_cases hknown : t.name ∈ known
        · obtain ⟨a, ha, hau⟩ := Option.bind_eq_some_iff.1 hu
          have hbelow {q : List Nat} {name : String} (hq : Missing known a q name) :
              Missing known t (i :: q) name :=
            missing_cons_iff.2 ⟨hscope, hknown, missingIn_cons_iff.2 ⟨a, ha, hq⟩⟩
          have hstep : (settle known t).at? (i :: p) = (settle known a).at? p := by
            rw [settle_of_mem hscope hknown, at?_cons, atIn?, List.getElem?_map, ha]
            rfl
          rw [hstep]
          refine (ih hau ?_).imp_right fun hright => ⟨hright.1, ?_⟩
          · intro q name hq hmissing
            exact h (i :: q) name ((List.prefix_cons_inj i).2 hq) (hbelow hmissing)
          · intro q name hq
            exact hbelow (hright.2 q name hq)
        · exact absurd (missing_nil_iff.2 ⟨hscope, rfl, hknown⟩) (h [] t.name List.nil_prefix)
      · rw [settle_of_scope known hscope]
        exact .inl hu

theorem settle_eq_self (h : ∀ p name, ¬ Missing known t p name) : settle known t = t := by
  induction t using induct with
  | mk scope name args ih =>
    cases scope with
    | some s => exact settle_of_scope known (Option.some_ne_none s)
    | none =>
        have hknown : name ∈ known := by
          by_contra hname
          exact h [] name (missing_nil_iff.2 ⟨rfl, rfl, hname⟩)
        have hargs : ∀ a ∈ args, settle known a = a := by
          intro a ha
          obtain ⟨i, hi⟩ := List.mem_iff_getElem?.1 ha
          refine ih a ha fun p n hmissing => h (i :: p) n ?_
          exact missing_cons_iff.2 ⟨rfl, hknown, missingIn_cons_iff.2 ⟨a, hi, hmissing⟩⟩
        rw [settle_of_mem (t := ⟨none, name, args⟩) rfl hknown]
        exact congrArg _ ((List.map_congr_left hargs).trans (List.map_id' args))

theorem exists_at?_of_settle {p : List Nat} {u : TypeRef} (h : (settle known t).at? p = some u) :
    ∃ v, t.at? p = some v := by
  induction p generalizing t with
  | nil => exact ⟨t, rfl⟩
  | cons i p ih =>
      by_cases hscope : t.scope = none
      · by_cases hknown : t.name ∈ known
        · rw [settle_of_mem hscope hknown, at?_cons, atIn?, List.getElem?_map] at h
          obtain ⟨b, hb, hbu⟩ := Option.bind_eq_some_iff.1 h
          obtain ⟨a, ha, rfl⟩ := Option.map_eq_some_iff.1 hb
          obtain ⟨v, hv⟩ := ih hbu
          exact ⟨v, Option.bind_eq_some_iff.2 ⟨a, ha, hv⟩⟩
        · rw [settle_of_not_mem hscope hknown] at h
          cases h
      · rw [settle_of_scope known hscope] at h
        exact ⟨u, h⟩

/-- A reference that is not missing itself keeps its own name when it is settled. -/
theorem settle_of_not_missing_nil (h : ∀ name, ¬ Missing known t [] name) :
    (settle known t).scope = t.scope ∧ (settle known t).name = t.name ∧
      (settle known t).args.length = t.args.length := by
  by_cases hscope : t.scope = none
  · by_cases hknown : t.name ∈ known
    · rw [settle_of_mem hscope hknown, hscope]
      exact ⟨rfl, rfl, List.length_map _⟩
    · exact absurd (missing_nil_iff.2 ⟨hscope, rfl, hknown⟩) (h t.name)
  · rw [settle_of_scope known hscope]
    exact ⟨rfl, rfl, rfl⟩

theorem atIn?_settleAll (ts : List TypeRef) (i : Nat) (p : List Nat) :
    atIn? (settleAll known ts) (i :: p) = ts[i]?.bind fun t => (settle known t).at? p := by
  rw [settleAll_eq_map, atIn?, List.getElem?_map, Option.bind_map]
  rfl

/-- Settling replaces exactly the outermost unrecognised types. -/
theorem downgraded_settleAll (known : List String) (ts : List TypeRef) :
    Downgraded known ts (settleAll known ts) where
  replaced p name h := by
    obtain ⟨i, q, t, rfl, ht, hmissing⟩ := h
    rw [atIn?_settleAll, ht]
    exact at?_settle_of_missing hmissing
  apart p u hu h := by
    cases p with
    | nil => cases hu
    | cons i p =>
        obtain ⟨t, ht, htu⟩ := Option.bind_eq_some_iff.1 hu
        have hlift {q : List Nat} {name : String} (hq : Missing known t q name) :
            MissingIn known ts (i :: q) name := missingIn_cons_iff.2 ⟨t, ht, hq⟩
        rw [atIn?_settleAll, ht]
        refine (at?_settle_of_not_missing htu ?_).elim id fun hright => ?_
        · intro q name hq hmissing
          exact h (i :: q) name (.inl ((List.prefix_cons_inj i).2 hq)) (hlift hmissing)
        · have hself : settle known u = u := by
            refine settle_eq_self fun q name hq => ?_
            refine h (i :: (p ++ q)) name (.inr ?_) (hlift (hright.2 q name hq))
            exact (List.prefix_cons_inj i).2 (List.prefix_append p q)
          rw [hself] at hright
          exact hright.1
  around p u hu h := by
    cases p with
    | nil => cases hu
    | cons i p =>
        obtain ⟨t, ht, htu⟩ := Option.bind_eq_some_iff.1 hu
        have hnone {q : List Nat} {name : String} (hq : q <+: p) : ¬ Missing known t q name :=
          fun hmissing => h (i :: q) name ((List.prefix_cons_inj i).2 hq)
            (missingIn_cons_iff.2 ⟨t, ht, hmissing⟩)
        rw [atIn?_settleAll, ht]
        rcases at?_settle_of_not_missing htu fun q name hq => hnone hq with hleft | hright
        · exact ⟨u, hleft, rfl, rfl, rfl⟩
        · refine ⟨settle known u, hright.1, settle_of_not_missing_nil fun name hmissing => ?_⟩
          have hat := hright.2 [] name hmissing
          rw [List.append_nil] at hat
          exact hnone (List.prefix_refl p) hat
  only p t' h := by
    cases p with
    | nil => cases h
    | cons i p =>
        rw [atIn?_settleAll] at h
        obtain ⟨t, ht, hp⟩ := Option.bind_eq_some_iff.1 h
        obtain ⟨v, hv⟩ := exists_at?_of_settle hp
        exact ⟨v, Option.bind_eq_some_iff.2 ⟨t, ht, hv⟩⟩

end Ambient.TypeRef
