/-!
# Tables

A table is a list of named entries in the order in which the names were first set.  Setting a name
again replaces its entry where it stands, so a name keeps its first position and takes its last
value.  Tables are plain lists: a declaration holds a table of declarations, and recursion over it
is recursion over the list.
-/

namespace Ambient

/-- Named entries in the order of their first definition. -/
abbrev Table (α : Type) := List (String × α)

namespace Table

variable {α β : Type}

/-- The entry under a name. -/
def get? : Table α → String → Option α
  | [], _ => none
  | (k, a) :: t, name => if k = name then some a else get? t name

/-- Sets an entry: in place when the name is there, at the end when it is new. -/
def set : Table α → String → α → Table α
  | [], name, a => [(name, a)]
  | (k, b) :: t, name, a => if k = name then (k, a) :: t else (k, b) :: set t name a

/-- The names of a table, in order. -/
def names (t : Table α) : List String :=
  t.map Prod.fst

/-- The table has an entry under the name. -/
def has (t : Table α) (name : String) : Bool :=
  t.any (·.1 = name)

/-- Sets every entry of the second table, in order. -/
def setAll (t u : Table α) : Table α :=
  u.foldl (fun acc e => acc.set e.1 e.2) t

/-- Applies `f` to the entry under a name. -/
def update (t : Table α) (name : String) (f : α → α) : Table α :=
  t.map fun e => if e.1 = name then (e.1, f e.2) else e

/-- Applies `f` to every entry. -/
def mapEntries (f : α → β) (t : Table α) : Table β :=
  t.map fun e => (e.1, f e.2)

/-- The table of a list of entries, later entries winning. -/
def ofEntries (es : List (String × α)) : Table α :=
  setAll [] es

@[simp]
theorem get?_nil (name : String) : get? ([] : Table α) name = none := rfl

theorem get?_set_self (t : Table α) (name : String) (a : α) :
    (t.set name a).get? name = some a := by
  induction t with
  | nil => simp [set, get?]
  | cons e t ih =>
    rw [set]
    split
    · rename_i h
      simp [get?, h]
    · rename_i h
      simp [get?, h, ih]

theorem get?_set_of_ne (t : Table α) {name other : String} (a : α) (h : other ≠ name) :
    (t.set name a).get? other = t.get? other := by
  induction t with
  | nil => simp [set, get?, Ne.symm h]
  | cons e t ih =>
    rw [set]
    split
    · rename_i he
      simp [get?, he, Ne.symm h]
    · simp only [get?]
      split
      · rfl
      · exact ih

/-- A name keeps its first position: setting it adds the name at the end only when it is new. -/
theorem names_set (t : Table α) (name : String) (a : α) :
    (t.set name a).names = if name ∈ t.names then t.names else t.names ++ [name] := by
  induction t with
  | nil => simp [set, names]
  | cons e t ih =>
    by_cases he : e.1 = name
    · simp [set, names, he]
    · have hne : ¬ name = e.1 := fun h => he h.symm
      simp only [names] at ih
      simp only [set, he, if_false, names, List.map_cons, List.mem_cons, hne, false_or, ih]
      by_cases hm : name ∈ List.map Prod.fst t <;> simp [hm]

end Table

end Ambient
