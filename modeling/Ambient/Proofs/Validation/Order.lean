import Ambient.Proofs.Module
import Ambient.Proofs.Validation.Recognition

/-!
# What validation does not look at

Validation asks which names are recognised and which are items, never in what order they stand, and
it neither reads nor changes export flags.  Modules with the same items in another order are
validated alike, and marking an item as exported may as well come after validation.
-/

namespace Ambient

namespace TypeRef

variable {known known' : List String}

mutual

theorem unknown_congr (h : ∀ name, known.contains name = known'.contains name) :
    (t : TypeRef) → unknown known t = unknown known' t
  | ⟨some _, _, _⟩ => by rw [unknown, unknown]
  | ⟨none, name, args⟩ => by rw [unknown, unknown, h name, unknownAll_congr h args]

theorem unknownAll_congr (h : ∀ name, known.contains name = known'.contains name) :
    (ts : List TypeRef) → unknownAll known ts = unknownAll known' ts
  | [] => by rw [unknownAll, unknownAll]
  | t :: ts => by rw [unknownAll, unknownAll, unknown_congr h t, unknownAll_congr h ts]

end

mutual

theorem settle_congr (h : ∀ name, known.contains name = known'.contains name) :
    (t : TypeRef) → settle known t = settle known' t
  | ⟨some _, _, _⟩ => by rw [settle, settle]
  | ⟨none, name, args⟩ => by rw [settle, settle, h name, settleAll_congr h args]

theorem settleAll_congr (h : ∀ name, known.contains name = known'.contains name) :
    (ts : List TypeRef) → settleAll known ts = settleAll known' ts
  | [] => by rw [settleAll, settleAll]
  | t :: ts => by rw [settleAll, settleAll, settle_congr h t, settleAll_congr h ts]

end

end TypeRef

namespace Validation

/-- The two scopes hold the same names. -/
structure Scope.Agree (s s' : Scope) : Prop where
  known : ∀ name, s.known.contains name = s'.known.contains name
  items : ∀ name, s.items.contains name = s'.items.contains name

variable {s s' : Scope}

theorem settleCallable_congr (h : s.Agree s') (fn : Callable) :
    settleCallable s fn = settleCallable s' fn := by
  simp only [settleCallable, messagesOf, TypeRef.unknownAll_congr h.known,
    TypeRef.settleAll_congr h.known]

theorem baseStands_congr (h : s.Agree s') (base : String) :
    baseStands s base = baseStands s' base := by
  rw [baseStands, baseStands, h.known]

theorem classHeader_congr (h : s.Agree s') (hd : Header) (base : Option String) :
    classHeader s hd base = classHeader s' hd base := by
  cases base with
  | none => rfl
  | some b => rw [classHeader, classHeader, baseStands_congr h]

mutual

theorem settle_congr (h : s.Agree s') : (d : Decl) → settle s d = settle s' d
  | .binding hd ts k => by
      rw [settle, settle, TypeRef.unknownAll_congr h.known, TypeRef.settleAll_congr h.known]
  | .typedef hd ts => by
      rw [settle, settle, TypeRef.unknownAll_congr h.known, TypeRef.settleAll_congr h.known]
  | .function fn => by rw [settle, settle, settleCallable_congr h]
  | .classDef hd c ms b => by
      have hcallable : settleCallable s = settleCallable s' := funext (settleCallable_congr h)
      have hbase : baseStands s = baseStands s' := funext (baseStands_congr h)
      rw [settle, settle, classHeader_congr h, hcallable, settleTable_congr h ms, hbase]
  | .object hd ms => by rw [settle, settle, settleTable_congr h ms]
  | .aliasOf hd t => by rw [settle, settle, h.items]
  | .constant hd v => by rw [settle, settle]
  | .imported hd p n => by rw [settle, settle]

theorem settleTable_congr (h : s.Agree s') :
    (ms : List (String × Decl)) → settleTable s ms = settleTable s' ms
  | [] => by rw [settleTable, settleTable]
  | (name, d) :: ms => by
      rw [settleTable, settleTable, settle_congr h d, settleTable_congr h ms]

end

theorem settleItem_congr (h : s.Agree s') (name : String) (d : Decl) :
    settleItem s name d = settleItem s' name d := by
  cases d with
  | aliasOf hd t => rw [settleItem, settleItem, settle_congr h]
  | _ => exact settle_congr h _

/-! ### Export flags -/

theorem settle_setExported (s : Scope) (d : Decl) (b : Bool) :
    settle s (d.setExported b) = (settle s d).setExported b := by
  cases d with
  | classDef hd c ms base =>
      cases base with
      | none => rfl
      | some base =>
          simp only [Decl.setExported, Decl.mapHeader, settle, classHeader]
          split
          · rfl
          · rfl
  | aliasOf hd t =>
      simp only [Decl.setExported, Decl.mapHeader, settle]
      split
      · rfl
      · rfl
  | _ => rfl

theorem settleItem_setExported (s : Scope) (name : String) (d : Decl) (b : Bool) :
    settleItem s name (d.setExported b) = (settleItem s name d).setExported b := by
  cases d with
  | aliasOf hd t =>
      have halias := settle_setExported s (.aliasOf hd t) b
      simp only [Decl.setExported, Decl.mapHeader, settleItem] at halias ⊢
      split
      · rfl
      · exact halias
  | _ => exact settle_setExported s _ b

end Validation

theorem Decl.isType_setExported (d : Decl) (b : Bool) : (d.setExported b).isType = d.isType := by
  cases d <;> rfl

namespace Module

variable (m : Module) (extra : List String)

theorem scope_markExported (name : String) : (m.markExported name).scope extra = m.scope extra := by
  have htypes : ((m.markExported name).items.filter (·.2.isType)).map Prod.fst =
      (m.items.filter (·.2.isType)).map Prod.fst := by
    have hname (e : String × Decl) :
        (if e.1 = name then (e.1, e.2.setExported true) else e).1 = e.1 := by
      split
      · rfl
      · rfl
    have htype (e : String × Decl) :
        (if e.1 = name then (e.1, e.2.setExported true) else e).2.isType = e.2.isType := by
      split
      · exact e.2.isType_setExported true
      · rfl
    simp only [markExported, Table.update, List.filter_map, List.map_map, Function.comp_def, hname,
      htype]
  rw [scope, scope, knownTypes, knownTypes, htypes, markExported, Table.names_update]

theorem validate_markExported (name : String) :
    (m.markExported name).validate extra = (m.validate extra).markExported name := by
  rw [validate, scope_markExported]
  simp only [markExported, validate, Table.update, List.map_map]
  congr 1
  refine List.map_congr_left fun e _ => ?_
  simp only [Function.comp_apply]
  split
  · rw [Validation.settleItem_setExported]
  · rfl

variable {m} {m' : Module}

theorem scope_agree_of_perm (h : m.items.Perm m'.items) :
    (m.scope extra).Agree (m'.scope extra) where
  known name := by
    refine List.Perm.contains_eq ?_
    exact ((h.filter _).map _).append_left _
  items name := by
    refine List.Perm.contains_eq ?_
    exact h.map _

/-- The order of the items does not matter for how each is settled. -/
theorem items_validate_perm (h : m.items.Perm m'.items) :
    (m.validate extra).items.Perm (m'.validate extra).items := by
  have hsettle :
      Validation.settleItem (m.scope extra) = Validation.settleItem (m'.scope extra) := by
    funext name d
    exact Validation.settleItem_congr (scope_agree_of_perm extra h) name d
  rw [validate, validate]
  dsimp only
  rw [hsettle]
  exact h.map _

end Module

end Ambient
