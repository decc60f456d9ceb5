import Ambient.Table
import Mathlib.Data.List.Induction
import Mathlib.Data.List.Nodup

/-!
# Laws of tables

How setting, updating and mapping entries of a table go together.  Setting two names commutes when
one of them is there already: a new name goes to the end, so the order in which two new names are
set shows.  Names need not be distinct for any of this; where they are, a table is known by its
entries, up to their order.
-/

namespace Ambient.Table

variable {α : Type}

theorem mem_names_of_get? {t : Table α} {name : String} {a : α} (h : t.get? name = some a) :
    name ∈ t.names := by
  induction t with
  | nil => cases h
  | cons e t ih =>
      rw [get?] at h
      by_cases he : e.1 = name
      · simp [names, he]
      · rw [if_neg he] at h
        exact List.mem_cons_of_mem _ (ih h)

theorem exists_get?_of_mem_names {t : Table α} {name : String} (h : name ∈ t.names) :
    ∃ a, t.get? name = some a := by
  induction t with
  | nil => cases h
  | cons e t ih =>
      by_cases he : e.1 = name
      · exact ⟨e.2, by rw [get?, if_pos he]⟩
      · obtain ⟨a, ha⟩ := ih ((List.mem_cons.1 h).resolve_left (Ne.symm he))
        exact ⟨a, by rw [get?, if_neg he, ha]⟩

theorem has_iff {t : Table α} {name : String} : t.has name = true ↔ name ∈ t.names := by
  simp [has, names]

theorem mem_of_get? {t : Table α} {name : String} {a : α} (h : t.get? name = some a) :
    (name, a) ∈ t := by
  induction t with
  | nil => cases h
  | cons e t ih =>
      rw [get?] at h
      by_cases he : e.1 = name
      · rw [if_pos he] at h
        rw [← he, ← Option.some.inj h]
        exact List.mem_cons_self ..
      · rw [if_neg he] at h
        exact List.mem_cons_of_mem _ (ih h)

theorem get?_of_mem {t : Table α} (hnames : t.names.Nodup) {name : String} {a : α}
    (h : (name, a) ∈ t) : t.get? name = some a := by
  induction t with
  | nil => cases h
  | cons e t ih =>
      obtain ⟨hfirst, hrest⟩ := List.nodup_cons.1 hnames
      rcases List.mem_cons.1 h with rfl | h
      · rw [get?, if_pos rfl]
      · have hne : e.1 ≠ name := by
          rintro rfl
          exact hfirst (List.mem_map.2 ⟨_, h, rfl⟩)
        rw [get?, if_neg hne]
        exact ih hrest h

/-- Two tables with the same entries under every name differ in their order only. -/
theorem perm_of_get? {t u : Table α} (ht : t.names.Nodup) (hu : u.names.Nodup)
    (h : ∀ name, t.get? name = u.get? name) : t.Perm u := by
  rw [List.perm_ext_iff_of_nodup (List.Nodup.of_map _ ht) (List.Nodup.of_map _ hu)]
  rintro ⟨name, a⟩
  constructor
  · intro hmem
    exact mem_of_get? ((h name).symm.trans (get?_of_mem ht hmem))
  · intro hmem
    exact mem_of_get? ((h name).trans (get?_of_mem hu hmem))

theorem eq_or_mem_of_mem_set {t : Table α} {name : String} {a : α} {e : String × α}
    (h : e ∈ t.set name a) : e = (name, a) ∨ e ∈ t := by
  induction t with
  | nil => exact .inl (List.mem_singleton.1 h)
  | cons b t ih =>
      rw [set] at h
      by_cases hb : b.1 = name
      · rw [if_pos hb, hb] at h
        exact (List.mem_cons.1 h).imp_right (List.mem_cons_of_mem _)
      · rw [if_neg hb] at h
        rcases List.mem_cons.1 h with rfl | h
        · exact .inr (List.mem_cons_self ..)
        · exact (ih h).imp_right (List.mem_cons_of_mem _)

theorem mem_names_set {t : Table α} {name other : String} {a : α} :
    other ∈ (t.set name a).names ↔ other = name ∨ other ∈ t.names := by
  rw [names_set]
  split
  · rename_i h
    constructor
    · exact .inr
    · rintro (rfl | h')
      · exact h
      · exact h'
  · rw [List.mem_append, List.mem_singleton, or_comm]

/-- The last entry set under a name counts. -/
theorem set_set (t : Table α) (name : String) (a b : α) :
    (t.set name a).set name b = t.set name b := by
  induction t with
  | nil => simp [set]
  | cons e t ih =>
      by_cases he : e.1 = name
      · simp [set, he]
      · simp [set, he, ih]

theorem set_eq_self {t : Table α} {name : String} {a : α} (h : t.get? name = some a) :
    t.set name a = t := by
  induction t with
  | nil => cases h
  | cons e t ih =>
      rw [get?] at h
      rw [set]
      by_cases he : e.1 = name
      · rw [if_pos he] at h
        rw [if_pos he, ← Option.some.inj h]
      · rw [if_neg he] at h
        rw [if_neg he, ih h]

theorem set_comm (t : Table α) {name other : String} (a b : α) (hne : name ≠ other)
    (h : name ∈ t.names) : (t.set name a).set other b = (t.set other b).set name a := by
  induction t with
  | nil => cases h
  | cons e t ih =>
      obtain ⟨k, c⟩ := e
      by_cases hk : k = name
      · have hother : k ≠ other := fun h' => hne (hk.symm.trans h')
        simp [set, hk, hne]
      · have hmem : name ∈ names t := by
          rcases List.mem_cons.1 h with hname | hname
          · exact (hk hname.symm).elim
          · exact hname
        by_cases hother : k = other
        · simp [set, hother, Ne.symm hne]
        · simp [set, hk, hother, ih hmem]

/-! ### Updating an entry -/

theorem get?_update (t : Table α) (name other : String) (f : α → α) :
    (t.update name f).get? other =
      if other = name then (t.get? other).map f else t.get? other := by
  induction t with
  | nil => simp [update, get?]
  | cons e t ih =>
      rw [update] at ih ⊢
      obtain ⟨k, c⟩ := e
      by_cases hk : k = name
      · by_cases hother : name = other
        · simp [get?, hk, hother]
        · simp [get?, hk, hother, ih]
      · by_cases hother : k = other
        · have hne : other ≠ name := fun h => hk (hother.trans h)
          simp [get?, hother, hne]
        · simp [get?, hk, hother, ih]

theorem names_update (t : Table α) (name : String) (f : α → α) :
    (t.update name f).names = t.names := by
  rw [names, names, update, List.map_map]
  refine List.map_congr_left fun e _ => ?_
  by_cases he : e.1 = name <;> simp [he]

theorem update_update (t : Table α) (name : String) (f g : α → α) :
    (t.update name f).update name g = t.update name (g ∘ f) := by
  rw [update, update, update, List.map_map]
  refine List.map_congr_left fun e _ => ?_
  by_cases he : e.1 = name <;> simp [he]

theorem update_comm (t : Table α) {name other : String} (f g : α → α) (hne : name ≠ other) :
    (t.update name f).update other g = (t.update other g).update name f := by
  rw [update, update, update, update, List.map_map, List.map_map]
  refine List.map_congr_left fun e _ => ?_
  by_cases he : e.1 = name
  · have hother : e.1 ≠ other := fun h => hne (he.symm.trans h)
    simp [he, hne]
  · by_cases hother : e.1 = other <;> simp [he, hother, Ne.symm hne]

theorem update_set_comm (t : Table α) {name other : String} (f : α → α) (a : α)
    (hne : name ≠ other) : (t.set other a).update name f = (t.update name f).set other a := by
  induction t with
  | nil => simp [set, update, Ne.symm hne]
  | cons e t ih =>
      rw [update, update] at ih
      rw [update, update, set]
      by_cases hother : e.1 = other
      · simp [hother, set, Ne.symm hne]
      · rw [if_neg hother, List.map_cons, List.map_cons, ih]
        by_cases he : e.1 = name
        · simp [he, set, hne]
        · simp [he, set, hother]

/-! ### Mapping all entries -/

theorem get?_map (t : Table α) (f : String → α → α) (name : String) :
    get? (t.map fun e => (e.1, f e.1 e.2)) name = (t.get? name).map (f name) := by
  induction t with
  | nil => rfl
  | cons e t ih =>
      rw [List.map_cons, get?, get?, ih]
      by_cases h : e.1 = name
      · rw [if_pos h, if_pos h, h]
        rfl
      · rw [if_neg h, if_neg h]

theorem get?_mapEntries (t : Table α) (f : α → α) (name : String) :
    (t.mapEntries f).get? name = (t.get? name).map f :=
  get?_map t (fun _ => f) name

theorem mapEntries_set (t : Table α) (f : α → α) (name : String) (a : α) :
    (t.set name a).mapEntries f = (t.mapEntries f).set name (f a) := by
  induction t with
  | nil => rfl
  | cons e t ih =>
      rw [mapEntries, mapEntries] at ih
      rw [mapEntries, mapEntries, set, List.map_cons, set]
      split
      · rfl
      · rw [List.map_cons, ih]

theorem mapEntries_update (t : Table α) (f g : α → α) (name : String)
    (h : ∀ a, f (g a) = g (f a)) :
    (t.update name g).mapEntries f = (t.mapEntries f).update name g := by
  rw [mapEntries, mapEntries, update, update, List.map_map, List.map_map]
  refine List.map_congr_left fun e _ => ?_
  by_cases he : e.1 = name <;> simp [he, h]

theorem mapEntries_mapEntries (t : Table α) (f g : α → α) :
    (t.mapEntries f).mapEntries g = t.mapEntries (g ∘ f) := by
  rw [mapEntries, mapEntries, mapEntries, List.map_map]
  rfl

/-! ### Setting all entries of another table -/

@[simp]
theorem setAll_nil (t : Table α) : t.setAll [] = t := rfl

@[simp]
theorem setAll_cons (t u : Table α) (e : String × α) :
    t.setAll (e :: u) = (t.set e.1 e.2).setAll u := rfl

theorem mem_or_mem_of_mem_setAll {t u : Table α} {e : String × α} (h : e ∈ t.setAll u) :
    e ∈ t ∨ e ∈ u := by
  induction u generalizing t with
  | nil => exact .inl h
  | cons b u ih =>
      rcases ih h with ht | hu
      · rcases eq_or_mem_of_mem_set ht with rfl | ht
        · exact .inr (List.mem_cons_self ..)
        · exact .inl ht
      · exact .inr (List.mem_cons_of_mem _ hu)

theorem mem_names_setAll {t u : Table α} {name : String} :
    name ∈ (t.setAll u).names ↔ name ∈ t.names ∨ name ∈ u.names := by
  induction u generalizing t with
  | nil => simp [names]
  | cons e u ih =>
      have hcons : name ∈ names (e :: u) ↔ name = e.1 ∨ name ∈ names u := List.mem_cons
      rw [setAll_cons, ih, mem_names_set, hcons]
      constructor
      · rintro ((h | h) | h)
        · exact .inr (.inl h)
        · exact .inl h
        · exact .inr (.inr h)
      · rintro (h | h | h)
        · exact .inl (.inr h)
        · exact .inl (.inl h)
        · exact .inr h

theorem get?_setAll_of_not_mem {t u : Table α} {name : String} (h : name ∉ u.names) :
    (t.setAll u).get? name = t.get? name := by
  induction u generalizing t with
  | nil => rfl
  | cons e u ih =>
      rw [names, List.map_cons, List.mem_cons, not_or] at h
      rw [setAll_cons, ih h.2, get?_set_of_ne _ _ h.1]

/-- A name that the other table does not set may be set before or after it, when all the names
that it sets are there. -/
theorem setAll_set_comm {t u : Table α} {name : String} (a : α) (hname : name ∉ u.names)
    (h : ∀ k ∈ u.names, k ∈ t.names) : (t.set name a).setAll u = (t.setAll u).set name a := by
  induction u generalizing t with
  | nil => rfl
  | cons e u ih =>
      rw [names, List.map_cons, List.mem_cons, not_or] at hname
      have hmem : e.1 ∈ t.names := h e.1 (List.mem_cons_self ..)
      rw [setAll_cons, setAll_cons, ← set_comm t e.2 a (Ne.symm hname.1) hmem]
      refine ih hname.2 fun k hk => ?_
      exact mem_names_set.2 (.inr (h k (List.mem_cons_of_mem _ hk)))

/-- Setting a name before and after another table is setting it after. -/
theorem set_setAll_set {t u : Table α} (name : String) (a : α) (h : ∀ k ∈ u.names, k ∈ t.names) :
    ((t.set name a).setAll u).set name a = (t.setAll u).set name a := by
  induction u generalizing t with
  | nil => exact set_set t name a a
  | cons e u ih =>
      have hmem : e.1 ∈ t.names := h e.1 (List.mem_cons_self ..)
      rw [setAll_cons, setAll_cons]
      by_cases he : e.1 = name
      · rw [he, set_set]
      · rw [← set_comm t e.2 a he hmem]
        refine ih fun k hk => ?_
        exact mem_names_set.2 (.inr (h k (List.mem_cons_of_mem _ hk)))

theorem setAll_append (t u w : Table α) : t.setAll (u ++ w) = (t.setAll u).setAll w :=
  List.foldl_append ..

/-- Setting the entries of a table twice is setting them once. -/
theorem setAll_setAll (t u : Table α) : (t.setAll u).setAll u = t.setAll u := by
  induction u using List.reverseRecOn with
  | nil => rfl
  | append_singleton u e ih =>
      have hmem : ∀ k ∈ names u, k ∈ (t.setAll u).names := fun k hk => mem_names_setAll.2 (.inr hk)
      rw [setAll_append, setAll_append, setAll_cons, setAll_nil, setAll_cons, setAll_nil,
        set_setAll_set e.1 e.2 hmem, ih]

/-- The last of the entries under a name counts, and without one the table keeps its own. -/
theorem get?_setAll (t u : Table α) (name : String) :
    (t.setAll u).get? name =
      ((u.filter (·.1 = name)).getLast?.map Prod.snd).or (t.get? name) := by
  induction u using List.reverseRecOn with
  | nil => rfl
  | append_singleton u e ih =>
      rw [setAll_append, setAll_cons, setAll_nil, List.filter_append]
      by_cases he : e.1 = name
      · rw [he, get?_set_self]
        simp [he]
      · rw [get?_set_of_ne _ _ (Ne.symm he), ih]
        simp [he]

/-! ### The table of a list of entries -/

theorem eraseDups_append_singleton (names : List String) (name : String) :
    (names ++ [name]).eraseDups =
      if name ∈ names then names.eraseDups else names.eraseDups ++ [name] := by
  rw [List.eraseDups_append]
  by_cases h : name ∈ names
  · simp [h, List.removeAll]
  · simp [h, List.removeAll, List.eraseDups_cons]

/-- The names of the entries, each where it comes first. -/
theorem names_ofEntries (es : List (String × α)) :
    (ofEntries es).names = (names es).eraseDups := by
  induction es using List.reverseRecOn with
  | nil => rfl
  | append_singleton es e ih =>
      have hnames : names (es ++ [e]) = names es ++ [e.1] := List.map_append
      have hset : ofEntries (es ++ [e]) = (ofEntries es).set e.1 e.2 := setAll_append [] es [e]
      rw [hset, names_set, ih, hnames, eraseDups_append_singleton]
      simp only [List.mem_eraseDups]

theorem get?_ofEntries (es : List (String × α)) (name : String) :
    (ofEntries es).get? name = (es.filter (·.1 = name)).getLast?.map Prod.snd := by
  rw [ofEntries, get?_setAll, get?_nil, Option.or_none]

/-! ### Leaving names out -/

/-- The table without the entries under the given names. -/
def without (t : Table α) (names : List String) : Table α :=
  t.filter fun e => !names.contains e.1

@[simp]
theorem without_nil (t : Table α) : t.without [] = t := by
  simp [without]

theorem without_cons (e : String × α) (t : Table α) (names : List String) :
    without (e :: t) names = if e.1 ∈ names then t.without names else e :: t.without names := by
  by_cases h : e.1 ∈ names
  · simp [without, h]
  · simp [without, h]

theorem get?_without_of_not_mem (t : Table α) {names : List String} {name : String}
    (h : name ∉ names) : (t.without names).get? name = t.get? name := by
  induction t with
  | nil => rfl
  | cons e t ih =>
      by_cases he : e.1 ∈ names
      · have hne : e.1 ≠ name := fun heq => h (heq ▸ he)
        rw [without_cons, if_pos he, get?, if_neg hne, ih]
      · rw [without_cons, if_neg he, get?, get?, ih]

theorem get?_without_of_mem (t : Table α) {names : List String} {name : String} (h : name ∈ names) :
    (t.without names).get? name = none := by
  cases hget : (t.without names).get? name with
  | none => rfl
  | some a =>
      have hkept := List.of_mem_filter (mem_of_get? hget)
      simp [h] at hkept

theorem without_eq_self {t : Table α} {names : List String} (h : ∀ name ∈ names, name ∉ t.names) :
    t.without names = t := by
  refine List.filter_eq_self.2 fun e he => ?_
  have hout : e.1 ∉ names := fun hmem => h e.1 hmem (List.mem_map.2 ⟨e, he, rfl⟩)
  simpa using hout

theorem without_set (t : Table α) (names : List String) (name : String) (a : α) :
    (t.set name a).without names =
      if name ∈ names then t.without names else (t.without names).set name a := by
  induction t with
  | nil => exact without_cons (name, a) [] names
  | cons e t ih =>
      by_cases he : e.1 = name
      · rw [set, if_pos he, without_cons, without_cons, he]
        split
        · rfl
        · rw [set, if_pos he, he]
      · rw [set, if_neg he, without_cons, without_cons, ih]
        by_cases hmem : e.1 ∈ names
        · rw [if_pos hmem, if_pos hmem]
        · rw [if_neg hmem, if_neg hmem]
          split
          · rfl
          · rw [set, if_neg he]

theorem without_mapEntries (t : Table α) (names : List String) (f : α → α) :
    (t.mapEntries f).without names = (t.without names).mapEntries f := by
  rw [without, without, mapEntries, mapEntries, List.filter_map]
  rfl

theorem without_update (t : Table α) (names : List String) (name : String) (f : α → α) :
    (t.update name f).without names = (t.without names).update name f := by
  rw [without, without, update, update, List.filter_map]
  congr 2
  funext e
  rw [Function.comp_apply]
  split
  · rfl
  · rfl

end Ambient.Table
