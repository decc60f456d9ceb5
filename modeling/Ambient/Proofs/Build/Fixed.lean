import Ambient.Proofs.Build.Assign

/-!
# Assigning again

A target is fixed when assigning to it again changes nothing.  An assignment leaves its own target
fixed, unless a description was handed over that is lost the second time, and it keeps those other
targets fixed that it does not disturb; so assignments in turn leave all their targets fixed.
-/

namespace Ambient.Build

namespace Assigned

variable {v : Assigned} {t r : Target} {m : Module}

/-! ### Waiting exports -/

/-- The name is exported as itself and described, and waits for its declaration. -/
def Waits (m : Module) (name : String) : Prop :=
  ∃ h, m.items.get? name = some (.aliasOf h name) ∧ h.exported = true ∧ h.description.isEmpty = false

/-- Registering the value under the name twice is registering it once. -/
def Lasting (v : Assigned) (name : String) (m : Module) : Prop :=
  ¬ Waits m name ∨ v.decl.header.description.isEmpty = false ∨ ∃ h, v.decl = .aliasOf h name

/-- What a slot hands over, it hands over again. -/
theorem handOver_handOver {n : String} (h : v.Lasting n m) :
    let d := v.decl.setExported true
    Module.handOver n (some (Module.handOver n (m.items.get? n) d)) d =
      Module.handOver n (m.items.get? n) d := by
  intro d
  have hd : d.exported = true := v.decl.exported_setExported true
  have hheader : d.header = { v.decl.header with exported := true } := by
    simp [d, Decl.setExported]
  by_cases hpending : m.Pending n
  · obtain ⟨hd', hget, hexported⟩ := hpending
    rw [hget, Module.handOver_of_pending hexported]
    rcases h with hwaits | hdesc | ⟨own, hown⟩
    · have hempty : hd'.description = "" := by
        by_contra hne
        exact hwaits ⟨hd', hget, hexported, by simpa using hne⟩
      rw [Decl.mapHeader_eq_self, Module.handOver_self hd]
      rw [hheader, hempty]
      by_cases hown : v.decl.header.description = "" <;> simp [hown]
    · rw [Decl.mapHeader_eq_self, Module.handOver_self hd]
      rw [hheader]
      simp [hdesc]
    · have hd : d = .aliasOf { own with exported := true } n := by
        simp [d, hown, Decl.setExported, Decl.mapHeader]
      rw [hd, Decl.mapHeader, Module.handOver_of_pending rfl, Decl.mapHeader]
      by_cases hempty : own.description = "" <;> simp [hempty]
  · rw [Module.handOver_of_not_pending _ hpending, Module.handOver_self hd]

/-- An assignment lets no other described name wait than the value itself. -/
theorem Waits.of_assign {n : String} (h : Waits (v.assign t m) n) :
    Waits m n ∨ ∃ hd, v.decl = .aliasOf hd n := by
  obtain ⟨hd, hget, hexported, hdesc⟩ := h
  cases hto : t.owner? with
  | some o =>
      rw [assign_of_owner hto, Module.get?_extend] at hget
      split at hget
      · rename_i ho
        obtain ⟨e, he, heq⟩ := Option.map_eq_some_iff.1 hget
        have hconstructor : e.isConstructor = true := by
          have hm := ho.2
          rwa [Module.hasConstructor_eq, ← ho.1, he] at hm
        have hkind := congrArg Decl.isConstructor heq
        rw [Decl.isConstructor_mapMembers, Decl.isConstructor_promote, hconstructor] at hkind
        cases hkind
      · exact .inl ⟨hd, hget, hexported, hdesc⟩
  | none =>
      cases t with
      | aggregate =>
          rw [assign, Module.get?_setAggregate] at hget
          obtain ⟨e, _, heq⟩ := Option.map_eq_some_iff.1 hget
          have hflag := congrArg Decl.exported heq
          rw [Decl.exported_setExported] at hflag
          exact absurd (hflag.trans hexported) Bool.false_ne_true
      | exported name =>
          by_cases hname : n = name
          · by_cases hmarks : v.marks name m = true
            · rw [assign_of_marks hmarks, hname, Module.get?_markExported, if_pos rfl] at hget
              obtain ⟨_, e, he, halias⟩ := marks_iff.1 hmarks
              obtain ⟨e', he', heq⟩ := Option.map_eq_some_iff.1 hget
              obtain rfl : e = e' := Option.some.inj (he.symm.trans he')
              have hkind := congrArg Decl.isAlias heq
              rw [Decl.isAlias_setExported, halias] at hkind
              cases hkind
            · rw [assign_of_not_marks hmarks, hname, Module.get?_add_self] at hget
              obtain ⟨own, hown⟩ := Module.eq_aliasOf_of_handOver (Option.some.inj hget)
              refine .inr ?_
              rw [hname]
              cases hdecl : v.decl <;> rw [hdecl] at hown <;> cases hown
              exact ⟨_, rfl⟩
          · refine .inl ⟨hd, ?_, hexported, hdesc⟩
            rw [assign] at hget
            split at hget
            · rwa [Module.get?_markExported, if_neg hname] at hget
            · rwa [Module.get?_add_of_ne _ _ hname] at hget
      | prototype owner => cases hto
      | prototypeMember owner member => cases hto
      | other => exact .inl ⟨hd, hget, hexported, hdesc⟩

/-! ### Assigning again -/

/-- Assigning to the target changes nothing. -/
def Fixed (v : Assigned) (t : Target) (m : Module) : Prop :=
  v.assign t m = m

/-- A prototype takes the members of an object, and nothing from anything else. -/
theorem change_prototype (v : Assigned) (o : String) :
    (∃ h us, v.decl = .object h us ∧ ∀ ms, v.change (.prototype o) ms = ms.setAll us) ∨
      ∀ ms, v.change (.prototype o) ms = ms := by
  unfold change
  cases hd : v.decl with
  | object h us => exact .inl ⟨h, us, rfl, fun _ => rfl⟩
  | _ => exact .inr fun _ => rfl

theorem change_idem (t : Target) (ms : Table Decl) :
    v.change t (v.change t ms) = v.change t ms := by
  cases t with
  | prototype owner =>
      rcases v.change_prototype owner with ⟨h, us, _, hchange⟩ | hchange
      · rw [hchange, hchange, Table.setAll_setAll]
      · rw [hchange]
  | prototypeMember owner member => exact Table.set_set ..
  | _ => rfl

/-- An assignment is fixed by itself. -/
theorem fixed_assign (h : ∀ n, t = .exported n → v.Lasting n m) : v.Fixed t (v.assign t m) := by
  rw [Fixed]
  cases hto : t.owner? with
  | some o =>
      rw [assign_of_owner hto, assign_of_owner hto, Module.extend_extend]
      congr 1
      funext ms
      exact change_idem t ms
  | none =>
      cases t with
      | aggregate =>
          rw [assign, assign, Module.setAggregate, Module.setAggregate, Table.mapEntries_mapEntries]
          congr 2
          funext d
          exact d.setExported_setExported false false
      | exported n =>
          by_cases hmarks : v.marks n m = true
          · obtain ⟨hname, e, he, halias⟩ := marks_iff.1 hmarks
            have hget : (m.memberwise.markExported n).items.get? n = some (e.setExported true) := by
              rw [Module.get?_markExported, if_pos rfl]
              exact congrArg (Option.map _) he
            have hmarks' : v.marks n (m.memberwise.markExported n) = true :=
              marks_iff.2 ⟨hname, _, hget, by rw [Decl.isAlias_setExported, halias]⟩
            rw [assign_of_marks hmarks, assign_of_marks hmarks', Module.markExported_memberwise,
              Module.markExported_markExported]
            rfl
          · have hget : (m.memberwise.add n (v.decl.setExported true)).items.get? n =
                some (Module.handOver n (m.items.get? n) (v.decl.setExported true)) :=
              Module.get?_add_self ..
            have hmarks' : ¬ v.marks n (m.memberwise.add n (v.decl.setExported true)) = true := by
              intro hc
              obtain ⟨hname, e, he, halias⟩ := marks_iff.1 hc
              obtain ⟨hd, hdecl⟩ := v.isAlias n hname
              rw [hget] at he
              rw [← Option.some.inj he, Module.isAlias_handOver, hdecl] at halias
              cases halias
            rw [assign_of_not_marks hmarks, assign_of_not_marks hmarks', Module.add_memberwise,
              Module.add_eq_self]
            · rfl
            · rw [hget, handOver_handOver (h n rfl)]
      | prototype owner => cases hto
      | prototypeMember owner member => cases hto
      | other => rfl

/-! ### Targets that do not disturb each other -/

/-- The second target stays fixed when the first is assigned. -/
structure Compatible (v : Assigned) (t r : Target) : Prop where
  mode : ∀ n, (t = .aggregate → r ≠ .exported n) ∧ (r = .aggregate → t ≠ .exported n)
  owner : ∀ o, (t.owner? = some o → r ≠ .exported o) ∧ (r.owner? = some o → t ≠ .exported o)
  members : ∀ o x h ms, v.decl = .object h ms →
    (t = .prototype o ∧ r = .prototypeMember o x) ∨ (t = .prototypeMember o x ∧ r = .prototype o) →
    x ∉ Table.names ms

/-- Changes of one class that do not disturb each other. -/
theorem change_change {o : String} (h : v.Compatible t r) (ht : t.owner? = some o)
    (hr : r.owner? = some o) (ms : Table Decl) :
    v.change r (v.change t (v.change r ms)) = v.change t (v.change r ms) := by
  cases t with
  | prototype owner =>
      cases ht
      cases r with
      | prototype owner' => rw [show v.change (.prototype owner') = v.change (.prototype o) from rfl,
          change_idem, change_idem]
      | prototypeMember owner' x =>
          cases hr
          refine Table.set_eq_self ?_
          rcases v.change_prototype o with ⟨hd, us, hdecl, hchange⟩ | hchange
          · have hx := h.members o x hd us hdecl (.inl ⟨rfl, rfl⟩)
            rw [hchange, Table.get?_setAll_of_not_mem hx]
            exact Table.get?_set_self ..
          · rw [hchange]
            exact Table.get?_set_self ..
      | _ => cases hr
  | prototypeMember owner x =>
      cases ht
      cases r with
      | prototype owner' =>
          cases hr
          rcases v.change_prototype o with ⟨hd, us, hdecl, hchange⟩ | hchange
          · have hx := h.members o x hd us hdecl (.inr ⟨rfl, rfl⟩)
            have hmem : ∀ k ∈ Table.names us, k ∈ (ms.setAll us).names :=
              fun k hk => Table.mem_names_setAll.2 (.inr hk)
            rw [hchange, hchange]
            exact (Table.setAll_set_comm _ hx hmem).trans (by rw [Table.setAll_setAll]; rfl)
          · rw [hchange, hchange]
      | prototypeMember owner' y =>
          refine Table.set_eq_self ?_
          by_cases hxy : y = x
          · rw [hxy]
            exact Table.get?_set_self ..
          · exact (Table.get?_set_of_ne _ _ hxy).trans (Table.get?_set_self ..)
      | _ => cases hr
  | _ => cases ht

/-- One more assignment keeps a fixed target fixed. -/
theorem Fixed.assign (hfixed : v.Fixed r m) (h : v.Compatible t r) : v.Fixed r (v.assign t m) := by
  rw [Fixed] at hfixed ⊢
  cases hro : r.owner? with
  | some o =>
      rw [assign_of_owner hro] at hfixed ⊢
      have hname : t ≠ .exported o := (h.owner o).2 hro
      by_cases hto : t.owner? = some o
      · have hboth : m.extend o (v.change t) = m.extend o (v.change t ∘ v.change r) := by
          rw [← Module.extend_extend, hfixed]
        rw [assign_of_owner hto, hboth, Module.extend_extend]
        congr 1
        funext ms
        exact change_change h hto hro ms
      · rw [← assign_extend _ hname hto, hfixed]
  | none =>
      cases r with
      | aggregate =>
          have hname : ∀ n, t ≠ .exported n := fun n => (h.mode n).2 rfl
          have hset : m.setAggregate v.decl = m := hfixed
          rw [Assigned.assign, ← assign_setAggregate hname, hset]
      | exported n =>
          by_cases hname : t = .exported n
          · rw [hname, hfixed, hfixed]
          · have hmode : t ≠ .aggregate := fun ht => (h.mode n).1 ht rfl
            have howner : t.owner? ≠ some n := fun ht => (h.owner n).1 ht rfl
            have hget : (v.assign t m).items.get? n = m.items.get? n :=
              get?_assign hmode hname howner m
            by_cases hmarks : v.marks n m = true
            · have hmarks' : v.marks n (v.assign t m) = true := by rw [marks_congr hget, hmarks]
              rw [assign_of_marks hmarks] at hfixed
              rw [assign_of_marks hmarks', ← assign_memberwise hmode,
                ← assign_markExported hmode hname howner, hfixed]
            · have hmarks' : ¬ v.marks n (v.assign t m) = true := by
                rw [marks_congr hget]
                exact hmarks
              rw [assign_of_not_marks hmarks] at hfixed
              have hmem : n ∈ m.memberwise.items.names := by
                have hadd : n ∈ (m.memberwise.add n (v.decl.setExported true)).items.names :=
                  Table.mem_names_set.2 (.inl rfl)
                rw [hfixed] at hadd
                exact hadd
              rw [assign_of_not_marks hmarks', ← assign_memberwise hmode,
                ← assign_add hmode hname howner hmem, hfixed]
      | prototype owner => cases hro
      | prototypeMember owner member => cases hro
      | other => rfl

theorem Lasting.assign {n : String} (h : v.Lasting n m) (t : Target) :
    v.Lasting n (v.assign t m) := by
  rcases h with hwaits | h
  · by_cases hw : Waits (v.assign t m) n
    · rcases hw.of_assign with hm | halias
      · exact (hwaits hm).elim
      · exact .inr (.inr halias)
    · exact .inl hw
  · exact .inr h

theorem Lasting.inTurn {n : String} (h : v.Lasting n m) (ts : List Target) :
    v.Lasting n (v.inTurn ts m) := by
  induction ts with
  | nil => exact h
  | cons t ts ih => exact ih.assign t

/-- Assigned in turn, all targets end up fixed. -/
theorem fixed_inTurn {ts : List Target} (hlasting : ∀ n, .exported n ∈ ts → v.Lasting n m)
    (hcompatible : ∀ t ∈ ts, ∀ r ∈ ts, v.Compatible t r) :
    ∀ r ∈ ts, v.Fixed r (v.inTurn ts m) := by
  induction ts with
  | nil => exact List.forall_mem_nil _
  | cons t ts ih =>
      intro r hr
      rw [inTurn_cons]
      rcases List.mem_cons.1 hr with rfl | hr
      · refine fixed_assign fun n hn => (hlasting n ?_).inTurn ts
        rw [hn]
        exact List.mem_cons_self ..
      · have hfixed := ih (fun n hn => hlasting n (List.mem_cons_of_mem _ hn))
          (fun t' ht' r' hr' =>
            hcompatible t' (List.mem_cons_of_mem _ ht') r' (List.mem_cons_of_mem _ hr')) r hr
        exact hfixed.assign (hcompatible t (List.mem_cons_self ..) r (List.mem_cons_of_mem _ hr))

end Assigned

end Ambient.Build
