import Ambient.Proofs.Validation.Account

/-!
# Recognising more types

How much a type says: a bare `any` says nothing, and otherwise a type says what its name and its
arguments say.  `TypeRef.Below` is this order, and `Decl.Below` carries it over to what stands at one
address of a module.  Validating with more recognised types never says less at any address.

The diagnostics do not follow the order: recognising a type may bring up its arguments, which are
then reported one by one where the type itself was reported once.
-/

namespace Ambient

theorem forall₂_map_map {α β : Type} {R : β → β → Prop} {f g : α → β} {xs : List α}
    (h : ∀ x ∈ xs, R (f x) (g x)) : List.Forall₂ R (xs.map f) (xs.map g) :=
  List.forall₂_map_left_iff.2 (List.forall₂_map_right_iff.2 (List.forall₂_same.2 h))

/-! ### Types -/

namespace TypeRef

/-- The first reference says no more than the second. -/
inductive Below : TypeRef → TypeRef → Prop where
  | any (t : TypeRef) : Below any t
  | same (scope : Option String) (name : String) {args args' : List TypeRef}
      (h : List.Forall₂ Below args args') : Below ⟨scope, name, args⟩ ⟨scope, name, args'⟩

theorem Below.refl (t : TypeRef) : t.Below t := by
  induction t using induct with
  | mk scope name args ih => exact .same scope name (List.forall₂_same.2 ih)

variable {known known' : List String}

/-- Recognising more types settles a reference higher up. -/
theorem below_settle (h : known ⊆ known') (t : TypeRef) :
    (settle known t).Below (settle known' t) := by
  induction t using induct with
  | mk scope name args ih =>
    cases scope with
    | some s => exact .refl _
    | none =>
        by_cases hname : name ∈ known
        · rw [settle_of_mem (t := ⟨none, name, args⟩) rfl hname,
            settle_of_mem (t := ⟨none, name, args⟩) rfl (h hname)]
          exact .same none name (forall₂_map_map ih)
        · rw [settle_of_not_mem (t := ⟨none, name, args⟩) rfl hname]
          exact .any _

theorem below_settleAll (h : known ⊆ known') (ts : List TypeRef) :
    List.Forall₂ Below (settleAll known ts) (settleAll known' ts) := by
  rw [settleAll_eq_map, settleAll_eq_map]
  exact forall₂_map_map fun t _ => below_settle h t

end TypeRef

/-! ### Declarations -/

/-- The first declaration is the second one, its parts aside, with types that say no more and with
its base class or without one. -/
structure Decl.Below (d d' : Decl) : Prop where
  frame : d.frame = d'.frame
  types : List.Forall₂ (fun slot slot' => List.Forall₂ TypeRef.Below slot.types slot'.types)
    d.slots d'.slots
  base : ∀ b, d.base? = some b → d'.base? = some b

theorem Decl.Below.refl (d : Decl) : d.Below d where
  frame := rfl
  types := List.forall₂_same.2 fun _ _ => List.forall₂_same.2 fun t _ => .refl t
  base _ hb := hb

namespace Validation

/-- The slots of a settled declaration are those it had, with their types settled. -/
theorem slots_settle_eq (s : Scope) (d : Decl) :
    (settle s d).slots =
      d.slots.map fun slot => { slot with types := TypeRef.settleAll s.known slot.types } := by
  cases d with
  | function fn =>
      simp only [settle, Decl.slots, settleCallable, List.map_append, List.map_map,
        Function.comp_def, List.map_cons, List.map_nil]
  | aliasOf h t =>
      rw [settle]
      split
      · rfl
      · rfl
  | _ => rfl

/-- The second scope has the same items and recognises at least the same types. -/
structure Scope.Widens (s s' : Scope) : Prop where
  known : s.known ⊆ s'.known
  items : s.items = s'.items

variable {s s' : Scope}

/-- An alias is treated alike whatever types are recognised. -/
theorem settle_aliasOf_eq (h : s.Widens s') {d : Decl} (hd : d.isAlias = true) :
    settle s d = settle s' d := by
  cases d with
  | aliasOf g t => rw [settle, settle, h.items]
  | _ => cases hd

theorem baseStands_of_widens (h : s.Widens s') {b : String} (hb : baseStands s b = true) :
    baseStands s' b = true := by
  simp only [baseStands, Bool.or_eq_true, List.contains_iff_mem] at hb ⊢
  exact hb.imp_left fun hmem => h.known hmem

theorem below_settle (h : s.Widens s') (d : Decl) : (settle s d).Below (settle s' d) := by
  cases htarget : d.target? with
  | some t =>
      have halias : d.isAlias = true := by
        cases d with
        | aliasOf g u => rfl
        | _ => cases htarget
      rw [settle_aliasOf_eq h halias]
      exact .refl _
  | none =>
      refine ⟨?_, ?_, ?_⟩
      · rw [frame_settle s d htarget, frame_settle s' d htarget]
      · rw [slots_settle_eq, slots_settle_eq]
        exact forall₂_map_map fun slot _ => TypeRef.below_settleAll h.known slot.types
      · intro b hb
        rw [base?_settle, Option.filter_eq_some_iff] at hb ⊢
        exact ⟨hb.1, baseStands_of_widens h hb.2⟩

theorem settleItem_aliasOf_eq (h : s.Widens s') (name : String) {d : Decl}
    (hd : d.isAlias = true) : settleItem s name d = settleItem s' name d := by
  cases d with
  | aliasOf g t => rw [settleItem, settleItem, settle_aliasOf_eq h hd]
  | _ => cases hd

theorem below_settleItem (h : s.Widens s') (name : String) (d : Decl) :
    (settleItem s name d).Below (settleItem s' name d) := by
  cases d with
  | aliasOf g t =>
      rw [settleItem_aliasOf_eq h name rfl]
      exact .refl _
  | _ => exact below_settle h _

end Validation

/-! ### Modules -/

namespace Module

variable {extra extra' : List String}

theorem widens_scope (h : extra ⊆ extra') (m : Module) :
    (m.scope extra).Widens (m.scope extra') where
  known name hname := by
    rcases List.mem_append.1 hname with hgiven | htype
    · rcases List.mem_append.1 hgiven with hbuiltin | hextra
      · exact List.mem_append_left _ (List.mem_append_left _ hbuiltin)
      · exact List.mem_append_left _ (List.mem_append_right _ (h hextra))
    · exact List.mem_append_right _ htype
  items := rfl

/-- **Recognising more types loses nothing.**  When more types are recognised, what stands at any
address of the validated module says at least as much as before: the types stand higher, the bases
that were kept are kept, and all else is the same.  Aliases are kept or replaced alike. -/
theorem validate_monotone (h : extra ⊆ extra') (m : Module) :
    (∀ a, Option.Rel Decl.Below ((m.validate extra).at? a) ((m.validate extra').at? a)) ∧
      ∀ a d, m.at? a = some d → d.isAlias = true →
        (m.validate extra).at? a = (m.validate extra').at? a := by
  have hscope := widens_scope h m
  constructor
  · intro a
    rw [at?_validate, at?_validate]
    cases m.at? a with
    | none => exact .none
    | some d =>
        refine .some ?_
        cases m.itemName? a with
        | none => exact Validation.below_settle hscope d
        | some name => exact Validation.below_settleItem hscope name d
  · intro a d hd halias
    rw [at?_validate, at?_validate, hd, Option.map_some, Option.map_some]
    cases m.itemName? a with
    | none => exact congrArg some (Validation.settle_aliasOf_eq hscope halias)
    | some name => exact congrArg some (Validation.settleItem_aliasOf_eq hscope name halias)

/-- Once `Box` is recognised, a box of an unknown type is a box of `any` and no longer `any` itself,
and the one diagnostic names the type inside; the alias of nothing is replaced as before. -/
theorem validate_monotone_generic :
    let m : Module :=
      { name := "box"
        items := [
          ("full", .binding {} [⟨none, "Box", [TypeRef.plain "Lid"]⟩] "var"),
          ("lost", .aliasOf {} "gone")] }
    let bare : Decl :=
      .binding { diagnostics := ["Type \"Box\" was not found"] } [TypeRef.any] "var"
    let boxed : Decl :=
      .binding { diagnostics := ["Type \"Lid\" was not found"] } [⟨none, "Box", [TypeRef.any]⟩] "var"
    ([] : List String) ⊆ ["Box"] ∧ (m.validate []).at? [0] = some bare ∧
      (m.validate ["Box"]).at? [0] = some boxed ∧ bare.Below boxed ∧
      (m.validate []).at? [1] = (m.validate ["Box"]).at? [1] := by
  intro m bare boxed
  have hsubset : ([] : List String) ⊆ ["Box"] := List.nil_subset _
  have hbare : (m.validate []).at? [0] = some bare := by rfl
  have hboxed : (m.validate ["Box"]).at? [0] = some boxed := by rfl
  obtain ⟨hbelow, halias⟩ := validate_monotone hsubset m
  have hfirst := hbelow [0]
  rw [hbare, hboxed, Option.rel_some_some] at hfirst
  exact ⟨hsubset, hbare, hboxed, hfirst, halias [1] _ rfl rfl⟩

end Module

end Ambient
