import Ambient.Proofs.Build.Kept
import Mathlib.Data.Fintype.Pigeonhole
import Mathlib.Logic.Function.Iterate

/-!
# Where aliases lead

Following an alias goes to the name that it stands for; any other name stays where it is.  A
validated module never leads out of its items, and no item in it is an alias of itself, so following
aliases from an item either arrives at a declaration of its own or runs into a circle of two or more
aliases that stand for each other in turn.  Validation looks one step ahead: the circles that it
leaves are exactly those that it finds.
-/

namespace Ambient

namespace Module

/-- What the item under a name stands for: the target of an alias, else the name itself. -/
def follow (m : Module) (name : String) : String :=
  ((m.items.get? name).bind Decl.target?).getD name

/-- Following aliases from the name arrives at an item that is not an alias. -/
def Resolves (m : Module) (name : String) : Prop :=
  ∃ n d, m.items.get? (m.follow^[n] name) = some d ∧ d.isAlias = false

/-- The name is an alias of another one, and following aliases comes back to it. -/
def Circular (m : Module) (name : String) : Prop :=
  m.follow name ≠ name ∧ ∃ n, 0 < n ∧ m.follow^[n] name = name

/-! ### Circles -/

/-- Following from a fixed name stays there. -/
theorem iterate_follow_of_fixed {m : Module} {name : String} (h : m.follow name = name) (n : Nat) :
    m.follow^[n] name = name :=
  Function.iterate_fixed h n

/-- No name on the way round a circle is fixed. -/
theorem Circular.follow_iterate_ne {m : Module} {name : String} (h : m.Circular name) (k : Nat) :
    m.follow (m.follow^[k] name) ≠ m.follow^[k] name := by
  obtain ⟨hmoves, n, hn, hback⟩ := h
  intro hfixed
  -- Going round `k` more times passes the fixed name and ends where it began.
  have hround : m.follow^[n * (k + 1)] name = name := by
    rw [Function.iterate_mul]
    exact Function.iterate_fixed hback (k + 1)
  have hsplit : n * (k + 1) = (n * (k + 1) - k) + k := by
    have hle : k + 1 ≤ n * (k + 1) := Nat.le_mul_of_pos_left (k + 1) hn
    omega
  rw [hsplit, Function.iterate_add_apply, iterate_follow_of_fixed hfixed] at hround
  rw [hround] at hfixed
  exact hmoves hfixed

theorem follow_of_not_isAlias {m : Module} {name : String} {d : Decl}
    (hd : m.items.get? name = some d) (hown : d.isAlias = false) : m.follow name = name := by
  cases d with
  | aliasOf h t => cases hown
  | _ => rw [follow, hd]; rfl

theorem follow_of_not_mem {m : Module} {name : String} (h : name ∉ m.items.names) :
    m.follow name = name := by
  cases hd : m.items.get? name with
  | none =>
      rw [follow, hd]
      rfl
  | some d => exact absurd (Table.mem_names_of_get? hd) h

/-- What runs into a circle does not resolve: the declaration at the end would be fixed. -/
theorem not_resolves_of_circular {m : Module} {name : String} {k : Nat}
    (h : m.Circular (m.follow^[k] name)) : ¬ m.Resolves name := by
  rintro ⟨n, d, hd, hown⟩
  have hfixed := follow_of_not_isAlias hd hown
  have hlate : m.follow^[n] (m.follow^[k] name) = m.follow^[n] name := by
    rw [← Function.iterate_add_apply, Nat.add_comm, Function.iterate_add_apply,
      iterate_follow_of_fixed hfixed]
  refine h.follow_iterate_ne n ?_
  rw [hlate]
  exact hfixed

/-! ### Validated modules -/

variable (m : Module) (extra : List String)

theorem get?_validate (name : String) :
    (m.validate extra).items.get? name =
      (m.items.get? name).map (Validation.settleItem (m.scope extra) name) :=
  Table.get?_map m.items (Validation.settleItem (m.scope extra)) name

/-- Validation keeps an alias that leads to an item, and makes every other one lead nowhere. -/
theorem follow_validate (name : String) :
    (m.validate extra).follow name =
      if m.follow name ∈ m.items.names then m.follow name else name := by
  rw [follow, get?_validate]
  cases hd : m.items.get? name with
  | none =>
      have hself : m.follow name = name := by
        rw [follow, hd]
        rfl
      rw [hself, ite_self]
      rfl
  | some d =>
      cases d with
      | aliasOf h t =>
          have htarget : m.follow name = t := by
            rw [follow, hd]
            rfl
          rw [htarget, Option.map_some, Option.bind_some, Validation.settleItem]
          by_cases hself : t = name
          · rw [if_pos hself, hself, ite_self]
            rfl
          · rw [if_neg hself, Validation.target?_settle]
            by_cases ht : t ∈ m.items.names
            · have hcontains : (m.scope extra).items.contains t = true :=
                List.contains_iff_mem.2 ht
              rw [if_pos ht, Decl.target?, Option.filter_some_pos hcontains]
              rfl
            · have hcontains : ¬ (m.scope extra).items.contains t = true :=
                fun h => ht (List.contains_iff_mem.1 h)
              rw [if_neg ht, Decl.target?, Option.filter_some_eq_none.2 hcontains]
              rfl
      | _ =>
          rw [follow_of_not_isAlias hd rfl, ite_self]
          rfl

theorem follow_validate_mem {name : String} (h : name ∈ m.items.names) :
    (m.validate extra).follow name ∈ m.items.names := by
  rw [follow_validate]
  split
  · assumption
  · exact h

theorem iterate_follow_validate_mem {name : String} (h : name ∈ m.items.names) (n : Nat) :
    (m.validate extra).follow^[n] name ∈ m.items.names := by
  induction n with
  | zero => exact h
  | succ n ih =>
      rw [Function.iterate_succ_apply']
      exact follow_validate_mem m extra ih

/-- An item of a validated module that leads nowhere else is not an alias. -/
theorem exists_own_of_follow_validate {name : String} (hmem : name ∈ m.items.names)
    (h : (m.validate extra).follow name = name) :
    ∃ d, (m.validate extra).items.get? name = some d ∧ d.isAlias = false := by
  obtain ⟨e, he⟩ := Table.exists_get?_of_mem_names hmem
  refine ⟨Validation.settleItem (m.scope extra) name e, by rw [get?_validate, he]; rfl, ?_⟩
  cases hd : Validation.settleItem (m.scope extra) name e with
  | aliasOf g t =>
      have htarget : (m.validate extra).follow name = t := by
        rw [follow, get?_validate, he, Option.map_some, hd]
        rfl
      exact absurd (htarget.symm.trans h) (Validation.target_ne_of_settleItem hd)
  | _ => rfl

/-- From an item, following aliases comes to rest or goes round: the items are finitely many. -/
theorem resolves_or_circular {name : String} (hmem : name ∈ m.items.names) :
    (m.validate extra).Resolves name ∨
      ∃ n, (m.validate extra).Circular ((m.validate extra).follow^[n] name) := by
  by_contra hneither
  obtain ⟨hopen, hround⟩ := not_or.1 hneither
  let visited (n : Nat) : {k // k ∈ m.items.names} :=
    ⟨(m.validate extra).follow^[n] name, iterate_follow_validate_mem m extra hmem n⟩
  obtain ⟨i, j, hne, hsame⟩ := Finite.exists_ne_map_eq_of_infinite visited
  have hagain : (m.validate extra).follow^[i] name = (m.validate extra).follow^[j] name :=
    congrArg Subtype.val hsame
  have hmoves (n : Nat) : (m.validate extra).follow ((m.validate extra).follow^[n] name) ≠
      (m.validate extra).follow^[n] name := by
    intro hfixed
    obtain ⟨d, hd, hown⟩ := exists_own_of_follow_validate m extra
      (iterate_follow_validate_mem m extra hmem n) hfixed
    exact hopen ⟨n, d, hd, hown⟩
  have hreturns {a b : Nat} (hlt : a < b)
      (hab : (m.validate extra).follow^[a] name = (m.validate extra).follow^[b] name) :
      (m.validate extra).Circular ((m.validate extra).follow^[a] name) := by
    refine ⟨hmoves a, b - a, Nat.sub_pos_of_lt hlt, ?_⟩
    rw [← Function.iterate_add_apply, Nat.sub_add_cancel hlt.le, hab]
  rcases Nat.lt_or_gt_of_ne hne with hlt | hlt
  · exact hround ⟨i, hreturns hlt hagain⟩
  · exact hround ⟨j, hreturns hlt hagain.symm⟩

/-- A circle is followed alike by a module that agrees with the first one wherever it moves. -/
theorem Circular.of_agree {m m' : Module} {name : String} (h : m.Circular name)
    (hagree : ∀ k, m'.follow (m.follow^[k] name) = m.follow (m.follow^[k] name)) :
    m'.Circular name := by
  have hiterate (k : Nat) : m'.follow^[k] name = m.follow^[k] name := by
    induction k with
    | zero => rfl
    | succ k ih => rw [Function.iterate_succ_apply', Function.iterate_succ_apply', ih, hagree k]
  obtain ⟨hmoves, n, hn, hback⟩ := h
  refine ⟨?_, n, hn, (hiterate n).trans hback⟩
  have hfirst : m'.follow name = m.follow name := hagree 0
  rw [hfirst]
  exact hmoves

/-- Validation neither breaks a circle nor makes one. -/
theorem circular_validate_iff (name : String) :
    (m.validate extra).Circular name ↔ m.Circular name := by
  constructor
  · intro h
    refine h.of_agree fun k => ?_
    have hmoves := h.follow_iterate_ne k
    rw [follow_validate] at hmoves ⊢
    split
    · rfl
    · rename_i hout
      rw [if_neg hout] at hmoves
      exact absurd rfl hmoves
  · intro h
    refine h.of_agree fun k => ?_
    rw [follow_validate, if_pos]
    -- A name that is no item is fixed, and no name on a circle is.
    by_contra hout
    refine h.follow_iterate_ne (k + 1) ?_
    rw [Function.iterate_succ_apply']
    exact follow_of_not_mem hout

end Module

namespace Build

theorem exists_tree_of_ofSource {resolver : Resolver} {modName source : String} {m : Module}
    (h : (ofSource resolver modName source).result = .ok m) :
    ∃ tree, Source.parse? source = some tree ∧
      ofSource resolver modName source = ofTree resolver modName tree := by
  unfold ofSource at h ⊢
  cases htree : Source.parse? source with
  | none =>
      rw [htree] at h
      cases h
  | some tree => exact ⟨tree, rfl, rfl⟩

theorem eq_validate_of_ofSource {resolver : Resolver} {modName source : String} {m : Module}
    (h : (ofSource resolver modName source).result = .ok m) :
    m = (ofSource resolver modName source).partialModule.validate resolver.extraTypes := by
  obtain ⟨tree, -, htree⟩ := exists_tree_of_ofSource h
  rw [htree] at h ⊢
  obtain ⟨s, -, hpartial, hm⟩ := runFrom_of_ofTree h
  rw [hpartial, hm]

/-- **Aliases lead to declarations or in circles.**  In the module of a source, every alias, at any
depth, stands for an item; following aliases from an item never leaves the items, and it arrives at
an item that is not an alias unless it runs into a circle of two or more aliases.  The circles are
those that the statements of the source leave behind: validation breaks none and makes none. -/
theorem aliases_resolve_or_turn (resolver : Resolver) (modName source : String) (m : Module)
    (h : (ofSource resolver modName source).result = .ok m) :
    (∀ d target, m.Declares d → d.target? = some target → target ∈ m.items.names) ∧
      (∀ name ∈ m.items.names, (∀ n, m.follow^[n] name ∈ m.items.names) ∧
        (m.Resolves name ↔ ¬ ∃ n, m.Circular (m.follow^[n] name))) ∧
      ∀ name, m.Circular name ↔ (ofSource resolver modName source).partialModule.Circular name := by
  generalize hbuilt : (ofSource resolver modName source).partialModule = built
  have hm : m = built.validate resolver.extraTypes := hbuilt ▸ eq_validate_of_ofSource h
  subst hm
  refine ⟨?_, ?_, built.circular_validate_iff resolver.extraTypes⟩
  · intro d target hd htarget
    rw [Module.names_items_validate]
    exact (built.recognised_of_declares_validate resolver.extraTypes hd).target target htarget
  · intro name hname
    rw [Module.names_items_validate] at hname ⊢
    refine ⟨built.iterate_follow_validate_mem resolver.extraTypes hname, ?_, ?_⟩
    · rintro hresolves ⟨n, hn⟩
      exact Module.not_resolves_of_circular hn hresolves
    · exact (built.resolves_or_circular resolver.extraTypes hname).resolve_right

theorem exists_ok_of_any {ε α : Type} {x : Except ε α} {p : α → Bool}
    (h : x.toOption.any p = true) : ∃ a, x = .ok a ∧ p a = true := by
  cases x with
  | error e => cases h
  | ok a => exact ⟨a, rfl, h⟩

/-- Of two exports in a row, the first stands for nothing and becomes a constant, to which the
second one leads. -/
theorem aliases_resolve_or_turn_two_exports :
    ∃ m, (ofSource {} "m" "export{a as b,b as c}").result = .ok m ∧
      ¬ ∃ n, m.Circular (m.follow^[n] "c") := by
  have hrun : (ofSource {} "m" "export{a as b,b as c}").result.toOption.any (fun m =>
      m.items.names.contains "c" && m.follow "c" = "b" && (m.items.get? "b").any (!·.isAlias)) =
        true := by
    decide +kernel
  obtain ⟨m, hok, hfacts⟩ := exists_ok_of_any hrun
  simp only [Bool.and_eq_true, decide_eq_true_eq, Option.any_eq_true, Bool.not_eq_true',
    List.contains_iff_mem] at hfacts
  obtain ⟨⟨hmem, hfollow⟩, d, hd, hown⟩ := hfacts
  refine ⟨m, hok, ((aliases_resolve_or_turn {} "m" _ m hok).2.1 "c" hmem).2.1 ⟨1, d, ?_, hown⟩⟩
  rw [Function.iterate_one, hfollow]
  exact hd

/-- Two exports that stand for each other: each one's target is there, and neither resolves. -/
theorem aliases_turn :
    ∃ m, (ofSource {} "m" "export { a as b, b as a };").result = .ok m ∧
      "a" ∈ m.items.names ∧ ¬ m.Resolves "a" := by
  have hrun : (ofSource {} "m" "export { a as b, b as a };").result.toOption.any (fun m =>
      m.items.names.contains "a" && m.follow "a" = "b" && m.follow "b" = "a") = true := by
    decide +kernel
  obtain ⟨m, hok, hfacts⟩ := exists_ok_of_any hrun
  simp only [Bool.and_eq_true, decide_eq_true_eq, List.contains_iff_mem] at hfacts
  obtain ⟨⟨hmem, hthere⟩, hback⟩ := hfacts
  have hcircle : m.Circular (m.follow^[0] "a") :=
    ⟨by rw [Function.iterate_zero_apply, hthere]; decide, 2, Nat.zero_lt_two,
      by rw [Function.iterate_zero_apply, Function.iterate_succ_apply, Function.iterate_one, hthere,
        hback]⟩
  exact ⟨m, hok, hmem, Module.not_resolves_of_circular hcircle⟩

end Build

end Ambient
