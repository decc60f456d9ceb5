import Ambient.Proofs.Source.Likeness

/-!
# The code of a node

What a node says, apart from where it stands.  Two nodes have the same code when they have the same
kind and text and their children have the same codes in the same roles; lines and offsets may
differ, and so may the roles of the two nodes themselves.  Nodes with the same code are alike: no
reader can tell them apart.
-/

namespace Ambient

namespace Node

mutual

/-- The node without the places it and its children stand at. -/
def code : Node → Node
  | ⟨kind, role, text, _, _, children⟩ => ⟨kind, role, text, 0, 0, codes children⟩

/-- The codes of several nodes. -/
def codes : List Node → List Node
  | [] => []
  | n :: ns => code n :: codes ns

end

theorem codes_eq_map (ns : List Node) : codes ns = ns.map code := by
  induction ns with
  | nil => rfl
  | cons n ns ih => rw [codes, ih, List.map_cons]

@[simp]
theorem kind_code (n : Node) : n.code.kind = n.kind := by
  cases n
  rfl

@[simp]
theorem role_code (n : Node) : n.code.role = n.role := by
  cases n
  rfl

@[simp]
theorem text_code (n : Node) : n.code.text = n.text := by
  cases n
  rfl

@[simp]
theorem children_code (n : Node) : n.code.children = n.children.map code := by
  cases n
  exact codes_eq_map _

/-- The two nodes say the same, wherever they stand. -/
structure SameCode (n n' : Node) : Prop where
  kind : n.kind = n'.kind
  text : n.text = n'.text
  children : n.children.map code = n'.children.map code

theorem SameCode.refl (n : Node) : n.SameCode n :=
  ⟨rfl, rfl, rfl⟩

theorem sameCode_of_code_eq {n n' : Node} (h : n.code = n'.code) : n.SameCode n' := by
  refine ⟨?_, ?_, ?_⟩
  · rw [← kind_code n, h, kind_code]
  · rw [← text_code n, h, text_code]
  · rw [← children_code n, h, children_code]

theorem padded_sameCode {host : Bool} {ns ns' : List Node} (h : ns.map code = ns'.map code) :
    Padded host SameCode ns ns' := by
  induction ns generalizing ns' with
  | nil =>
      cases ns' with
      | nil => exact .nil
      | cons c' ns' => cases h
  | cons c ns ih =>
      cases ns' with
      | nil => cases h
      | cons c' ns' =>
          obtain ⟨hc, hns⟩ := List.cons.inj h
          exact .cons (sameCode_of_code_eq hc) (by rw [← role_code c, hc, role_code]) (ih hns)

theorem forall₂_sameCode {ns ns' : List Node} (h : ns.map code = ns'.map code) :
    List.Forall₂ SameCode ns ns' := by
  have hpadded : Padded false SameCode ns ns' := padded_sameCode h
  exact hpadded.forall₂

theorem matching_sameCode : Matching SameCode where
  kind h := h.kind
  children h := padded_sameCode h.children

theorem SameCode.map_text_head? {ns ns' : List Node} (h : List.Forall₂ SameCode ns ns') :
    ns.head?.map Node.text = ns'.head?.map Node.text := by
  rcases head?_cases h with ⟨c, c', hc, hc', hcc⟩ | ⟨hc, hc'⟩
  · rw [hc, hc', Option.map_some, Option.map_some, hcc.text]
  · rw [hc, hc']

theorem SameCode.baseName? {n n' : Node} (h : n.SameCode n') :
    Build.baseName? n = Build.baseName? n' := by
  rw [Build.baseName?, Build.baseName?]
  rcases matching_sameCode.childOfKind? h (k := .classHeritage) (by nofun) with
    ⟨c, c', hc, hc', hcc⟩ | ⟨hc, hc'⟩
  · rw [hc, hc', Option.bind_some, Option.bind_some]
    rcases head?_cases (matching_sameCode.codeChildren hcc) with ⟨b, b', hb, hb', hbb⟩ | ⟨hb, hb'⟩
    · rw [hb, hb', Option.bind_some, Option.bind_some, hbb.kind, hbb.text]
    · rw [hb, hb']
  · rw [hc, hc']

/-- Nodes with the same code are alike to every reader. -/
theorem likeness_sameCode : Likeness SameCode where
  toMatching := matching_sameCode
  word h _ := h.text
  name {n n'} h r _ := by
    rcases matching_sameCode.child? h r with ⟨c, c', hc, hc', hcc⟩ | ⟨hc, hc'⟩
    · rw [hc, hc', Option.map_some, Option.map_some, hcc.text]
    · rw [hc, hc']
  namespaceName h _ := SameCode.map_text_head? (matching_sameCode.codeChildren h)
  keyword h _ := SameCode.map_text_head? (forall₂_sameCode h.children)
  literal h _ := h.text
  baseName? h := h.baseName?

end Node

end Ambient
