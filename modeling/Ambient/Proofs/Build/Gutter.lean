import Ambient.Proofs.Build.Signature
import Ambient.Proofs.Doc.Named
import Ambient.Proofs.Doc.Reprint
import Ambient.Proofs.Render.Export

/-!
# The gutter of a documentation block

A documentation block has a gutter in front of each of its lines.  The description is cut into lines
before it is written, but a parameter is mentioned in one line, whatever its name and its
description are: where one of them is broken, the rows behind the first stand without the gutter.

A parameter that a function mentions has its name and its description from a tag, and what is read
from a tag has no blank behind a line feed.  At a margin, therefore, every broken mention loses the
gutter.
-/

namespace Ambient

open Text Doc

/-! ### Rows of a block -/

/-- The row opens a documentation block at this indentation, or has the gutter. -/
def Guttered (ind row : String) : Prop :=
  row = ind ++ "/**" ∨ ∃ r, row = ind ++ (" *" ++ r)

/-- The line of documentation that mentions a parameter, if it has a description. -/
def Parameter.mention? (p : Parameter) : Option String :=
  (p.description.bind nonEmpty?).map fun d => "@param " ++ p.name ++ " " ++ d

theorem Parameter.mention?_eq_some {p : Parameter} {d : String} (hd : p.description = some d)
    (hne : d ≠ "") : p.mention? = some ("@param " ++ p.name ++ " " ++ d) := by
  rw [mention?, hd, Option.bind_some, nonEmpty?, if_neg (by simpa using hne)]
  rfl

theorem mem_docText {description : String} {params : List Parameter} {l : String} :
    l ∈ Style.docText description params →
      l ∈ lines description ∨ l = "" ∨ ∃ p ∈ params, p.mention? = some l := by
  intro h
  unfold Style.docText at h
  dsimp only at h
  split at h
  · rcases List.mem_append.1 h with h | h
    · exact .inl h
    · exact .inr (.inr (List.mem_filterMap.1 h))
  · rcases List.mem_append.1 h with h | h
    · exact .inl h
    · rcases List.mem_cons.1 h with h | h
      · exact .inr (.inl h)
      · exact .inr (.inr (List.mem_filterMap.1 h))

theorem mention_mem_docText (description : String) {params : List Parameter} {p : Parameter}
    (hp : p ∈ params) {l : String} (hl : p.mention? = some l) :
    l ∈ Style.docText description params := by
  have hmem : l ∈ params.filterMap Parameter.mention? := List.mem_filterMap.2 ⟨p, hp, hl⟩
  unfold Style.docText
  dsimp only
  split
  · exact List.mem_append_right _ hmem
  · exact List.mem_append_right _ (List.mem_cons_of_mem _ hmem)

variable {st : Style} {ind description : String} {params : List Parameter}

/-- A line of a block opens it, closes it or is a line of its text behind the gutter. -/
theorem mem_docBlock (hcolors : st.colors = false) {l : String}
    (h : l ∈ st.docBlock ind description params) :
    l = ind ++ "/**" ∨ l = ind ++ " */" ∨
      ∃ t ∈ Style.docText description params, l = trimRight (ind ++ " * " ++ t) := by
  unfold Style.docBlock at h
  dsimp only at h
  split at h
  · cases h
  · obtain ⟨k, hk, rfl⟩ := List.mem_map.1 h
    rw [Render.comment_of_colors hcolors]
    rw [List.mem_append, List.mem_cons, List.mem_singleton] at hk
    rcases hk with (rfl | hk) | rfl
    · exact .inl rfl
    · obtain ⟨t, ht, rfl⟩ := List.mem_map.1 hk
      exact .inr (.inr ⟨t, ht, rfl⟩)
    · exact .inr (.inl rfl)

theorem trimRight_mem_docBlock (hcolors : st.colors = false) (ind : String) {t : String}
    (ht : t ∈ Style.docText description params) :
    trimRight (ind ++ " * " ++ t) ∈ st.docBlock ind description params := by
  unfold Style.docBlock
  dsimp only
  rw [if_neg fun hempty => by simp [List.isEmpty_iff.1 hempty] at ht]
  refine List.mem_map.2 ⟨_, ?_, Render.comment_of_colors hcolors _⟩
  exact List.mem_append_left _ (List.mem_cons_of_mem _ (List.mem_map_of_mem ht))

theorem unbroken_of_indentation (h : Indentation ind.toList) : Unbroken ind := by
  intro hmem
  have hbreak := (h _ hmem).2
  cases hbreak

theorem unbroken_append {s t : String} (hs : Unbroken s) (ht : Unbroken t) : Unbroken (s ++ t) := by
  intro hmem
  rw [String.toList_append, List.mem_append] at hmem
  exact hmem.elim hs ht

/-- A block whose mentions are unbroken has unbroken lines. -/
theorem unbroken_of_mem_docBlock (hcolors : st.colors = false) (hind : Unbroken ind)
    (h : ∀ p ∈ params, ∀ l ∈ p.mention?, Unbroken l) :
    ∀ l ∈ st.docBlock ind description params, Unbroken l := by
  intro l hl
  rcases mem_docBlock hcolors hl with rfl | rfl | ⟨t, ht, rfl⟩
  · exact unbroken_append hind (by decide)
  · exact unbroken_append hind (by decide)
  · refine Lacks.trimRight (unbroken_append (unbroken_append hind (by decide)) ?_)
    rcases mem_docText ht with ht | rfl | ⟨p, hp, ht⟩
    · exact unbroken_of_mem_lines ht
    · exact List.not_mem_nil
    · exact h p hp t ht

/-! ### Broken texts -/

/-- Behind a line feed of a tidy text stands no blank but a line feed. -/
theorem exists_behind_newline {cs : List Char} (h : Tidy cs) (hmem : '\n' ∈ cs) :
    ∃ a c b, cs = a ++ '\n' :: c :: b ∧ (isBlank c = true → c = '\n') := by
  obtain ⟨a, b, rfl⟩ := List.append_of_mem hmem
  cases b with
  | nil =>
      obtain ⟨u, d, hud, hd⟩ := h.tight.back
      obtain ⟨-, hlast⟩ := List.append_inj' hud rfl
      obtain rfl : '\n' = d := (List.cons.inj hlast).1
      cases hd
  | cons c b =>
      have hpair : ['\n', c] <:+: a ++ '\n' :: c :: b := ⟨a, b, by simp⟩
      exact ⟨a, c, b, rfl, (h.ruled.spaced_pair hpair).1 rfl⟩

/-- A row that begins with no blank. -/
theorem exists_row_unindented {a b : List Char} {c : Char} (hc : isBlank c = true → c = '\n')
    {l : String} (hl : l.toList = a ++ '\n' :: c :: b) :
    ∃ row ∈ rows l, ∀ d ∈ row.toList.head?, isBlank d = false := by
  have hsplit : l = String.ofList a ++ "\n" ++ String.ofList (c :: b) := by
    rw [← String.toList_inj, hl]
    simp
  rw [hsplit, rows_append]
  by_cases hcn : c = '\n'
  · refine ⟨"", List.mem_append_right _ ?_, by simp⟩
    rw [hcn, rows, String.toList_ofList, piecesOf]
    simp
  · have hblank : isBlank c = false := Bool.eq_false_iff.2 fun h => hcn (hc h)
    obtain ⟨k, ks, hpieces⟩ := List.exists_cons_of_ne_nil (piecesOf_ne_nil (· == '\n') b)
    refine ⟨String.ofList (c :: k), List.mem_append_right _ ?_, by simp [hblank]⟩
    rw [rows, String.toList_ofList, piecesOf, hpieces]
    simp [hcn]

/-- At a margin, a row with the gutter begins with a blank. -/
theorem Guttered.head (hind : Indentation ind.toList) (hne : ind ≠ "") {row : String}
    (h : Guttered ind row) : ∃ c ∈ row.toList.head?, isBlank c = true := by
  obtain ⟨c, cs, hcs⟩ := List.exists_cons_of_ne_nil (String.toList_eq_nil_iff.not.2 hne)
  have hblank := (hind c (by simp [hcs])).1
  rcases h with rfl | ⟨r, rfl⟩
  · exact ⟨c, by simp [hcs], hblank⟩
  · exact ⟨c, by simp [hcs], hblank⟩

/-- A mention of which a part is broken stands in no block that keeps its gutter. -/
theorem unbroken_of_guttered (hcolors : st.colors = false) (hind : Indentation ind.toList)
    (hne : ind ≠ "")
    (h : ∀ row ∈ (st.docBlock ind description params).flatMap rows, Guttered ind row)
    {p : Parameter} (hp : p ∈ params) {d : String} (hd : p.description = some d)
    (hname : Tidy p.name.toList) (htext : Tidy d.toList) : Unbroken p.name ∧ Unbroken d := by
  have hdne : d ≠ "" := by
    rintro rfl
    obtain ⟨c, v, hcv, -⟩ := htext.tight.front
    cases hcv
  have hmem := trimRight_mem_docBlock hcolors ind
    (mention_mem_docText description hp (p.mention?_eq_some hd hdne))
  have hline : (trimRight (ind ++ " * " ++ ("@param " ++ p.name ++ " " ++ d))).toList =
      (ind ++ " * @param ").toList ++ (p.name.toList ++ ' ' :: d.toList) := by
    have hlist : (ind ++ " * " ++ ("@param " ++ p.name ++ " " ++ d)).toList =
        ((ind ++ " * @param ").toList ++ (p.name.toList ++ [' '])) ++ d.toList := by simp
    rw [trimRight, String.toList_ofList, hlist, htext.tight.trimBack_eq]
    simp
  -- Wherever the line is broken, a row without the gutter follows.
  have hwhole {a b : List Char} {c : Char} (hc : isBlank c = true → c = '\n')
      (hbroken : p.name.toList ++ ' ' :: d.toList = a ++ '\n' :: c :: b) : False := by
    rw [hbroken, ← List.append_assoc] at hline
    obtain ⟨row, hrow, hhead⟩ := exists_row_unindented hc hline
    obtain ⟨e, he, hblank⟩ := (h row (List.mem_flatMap.2 ⟨_, hmem, hrow⟩)).head hind hne
    rw [hhead e he] at hblank
    cases hblank
  constructor
  · intro hbreak
    obtain ⟨a, c, b, heq, hc⟩ := exists_behind_newline hname hbreak
    refine hwhole (a := a) (b := b ++ ' ' :: d.toList) hc ?_
    rw [heq]
    simp
  · intro hbreak
    obtain ⟨a, c, b, heq, hc⟩ := exists_behind_newline htext hbreak
    refine hwhole (a := p.name.toList ++ ' ' :: a) (b := b) hc ?_
    rw [heq]
    simp

/-! ### Described parameters -/

/-- The description of a parameter is that of its tag. -/
def Parameter.DescribedBy (p : Parameter) (doc : Comment) : Prop :=
  p.description = (doc.parameterTag? p.name).bind (·.description)

theorem Parameter.DescribedBy.tidy {p : Parameter} {raw : String}
    (h : p.DescribedBy (Comment.read raw)) {d : String} (hd : p.description = some d) :
    Tidy p.name.toList ∧ Tidy d.toList := by
  rw [DescribedBy, hd] at h
  obtain ⟨tag, htag, hdescription⟩ := Option.bind_eq_some_iff.1 h.symm
  obtain ⟨hmem, hfound⟩ := List.mem_filter.1 (List.mem_of_getLast? htag)
  obtain ⟨htitle, hname⟩ : tag.title = "param" ∧ tag.name = some p.name := by simpa using hfound
  have htidy := Comment.tidy_of_mem_tags hmem (by rw [htitle]; decide)
  exact ⟨htidy.1 p.name hname, htidy.2 d hdescription⟩

namespace Build

variable {ctx : Context} {doc : Comment} {n : Node} {s s' : BuildState}

theorem description_of_sourceParameter {ctx : Context} {n : Node} {s s' : BuildState}
    {p : Parameter} (h : runFrom (sourceParameter ctx n) s = (.ok p, s')) :
    p.description = none := by
  rw [sourceParameter] at h
  dsimp only at h
  split at h
  · cases h
    rfl
  · cases h
    rfl
  · cases h
    rfl
  · split at h
    · rename_i c hc
      have hlt := Node.sizeOf_lt_of_mem_children (Node.mem_children_of_child? hc)
      obtain ⟨q, mid, hq, hlast⟩ := runFrom_bind_ok h
      cases hlast
      exact (description_of_sourceParameter hq :)
    · cases h
  · split at h
    · rename_i c cs hc
      have hmem : c ∈ n.codeChildren := by simp [hc]
      have hlt := Node.sizeOf_lt_of_mem_children (Node.mem_children_of_codeChildren hmem)
      obtain ⟨q, mid, hq, hlast⟩ := runFrom_bind_ok h
      cases hlast
      exact (description_of_sourceParameter hq :)
    · cases h
  · cases h
termination_by sizeOf n

theorem describedBy_of_documented {p q : Parameter} {own : List String}
    (hp : p.description = none) (h : documented doc p = .ok (q, own)) : q.DescribedBy doc := by
  rw [documented, Comment.get?_params] at h
  cases htag : doc.parameterTag? p.name with
  | none =>
      rw [htag] at h
      cases h
      rw [Parameter.DescribedBy, htag]
      exact hp
  | some t =>
      rw [htag] at h
      dsimp only [Option.bind_some] at h
      split at h
      · rename_i e he
        cases hexpand : e.expand with
        | error f =>
            simp only [hexpand] at h
            cases h
        | ok types =>
            simp only [hexpand] at h
            cases h
            rw [Parameter.DescribedBy, htag]
            rfl
      · cases h
        rw [Parameter.DescribedBy, htag]
        rfl

theorem describedBy_of_parametersFrom {index : Nat} {nodes : List Node} {ps : List Parameter}
    {untyped : List String}
    (h : runFrom (parametersFrom ctx doc index nodes) s = (.ok (ps, untyped), s')) :
    ∀ p ∈ ps, p.DescribedBy doc := by
  induction nodes generalizing index ps untyped s with
  | nil =>
      cases h
      exact List.forall_mem_nil _
  | cons n nodes ih =>
      rw [parametersFrom] at h
      obtain ⟨p, mid, hp, h⟩ := runFrom_bind_ok h
      obtain ⟨⟨q, own⟩, mid', hq, h⟩ := runFrom_bind_ok h
      obtain ⟨⟨qs, others⟩, mid'', hqs, h⟩ := runFrom_bind_ok h
      cases h
      obtain ⟨hdocumented, -⟩ := runFrom_ofTypes_ok hq
      refine List.forall_mem_cons.2 ⟨describedBy_of_documented ?_ hdocumented, ih hqs⟩
      exact (description_of_sourceParameter hp :)

theorem describedBy_of_callableOf {fn : Callable}
    (h : runFrom (callableOf ctx doc n) s = (.ok fn, s')) : ∀ p ∈ fn.params, p.DescribedBy doc := by
  obtain ⟨⟨params, untyped⟩, mid, hparams, h⟩ := runFrom_bind_ok h
  obtain ⟨⟨result, missing⟩, mid', hresult, h⟩ := runFrom_bind_ok h
  cases h
  exact describedBy_of_parametersFrom hparams

/-! ### The gutter of a function -/

/-- A documentation block of any description and of the parameters of a function has the gutter in
all of its rows if every parameter with a description has an unbroken name and an unbroken
description; and at a margin only if. -/
theorem gutter_kept_iff_unbroken (raw : String) (ctx : Context) (n : Node) (fn : Callable)
    (s s' : BuildState) (h : runFrom (callableOf ctx (Comment.read raw) n) s = (.ok fn, s'))
    (st : Style) (hcolors : st.colors = false) (ind : String) (hind : Indentation ind.toList)
    (description : String) :
    let written := (st.docBlock ind description fn.params).flatMap rows
    let unbroken := ∀ p ∈ fn.params, ∀ d ∈ p.description, Unbroken p.name ∧ Unbroken d
    (unbroken → ∀ row ∈ written, Guttered ind row) ∧
      (ind ≠ "" → (∀ row ∈ written, Guttered ind row) → unbroken) := by
  intro written unbroken
  have hdescribed := describedBy_of_callableOf h
  constructor
  · intro hunbroken row hrow
    have hmention : ∀ p ∈ fn.params, ∀ l ∈ p.mention?, Unbroken l := by
      intro p hp l hl
      obtain ⟨d, hd, rfl⟩ := Option.map_eq_some_iff.1 hl
      obtain ⟨text, htext, hd⟩ := Option.bind_eq_some_iff.1 hd
      obtain rfl : text = d := by
        unfold nonEmpty? at hd
        split at hd
        · cases hd
        · exact Option.some.inj hd
      obtain ⟨hname, htext⟩ := hunbroken p hp text htext
      exact unbroken_append (unbroken_append (unbroken_append (by decide) hname) (by decide)) htext
    obtain ⟨l, hl, hrow⟩ := List.mem_flatMap.1 hrow
    have hline := unbroken_of_mem_docBlock hcolors (unbroken_of_indentation hind) hmention l hl
    rw [rows_of_unbroken hline, List.mem_singleton] at hrow
    rw [hrow]
    exact Render.gutter_of_mem_docBlock hcolors hl
  · intro hne hgutter p hp d hd
    obtain ⟨hname, htext⟩ := (hdescribed p hp).tidy hd
    exact unbroken_of_guttered hcolors hind hne hgutter hp hd hname htext

/-- `(a, [b]) => 1`, with a tag for each: each is mentioned in one row. -/
theorem gutter_kept_iff_unbroken_mentioned :
    let raw := "/**\n * @param a - one\n * @param [c] two\n */"
    let n := arrowOf [leaf .identifier "a", leaf .arrayPattern "[b]"] (leaf .number "1")
    ∃ fn, runFrom (callableOf {} (Comment.read raw) n) (start "m") = (.ok fn, start "m") ∧
      fn.params.map (fun p => (p.name, p.description)) = [("a", some "one"), ("c", some "two")] ∧
      ∀ row ∈ (Style.docBlock {} "    " "Adds.\nTwice." fn.params).flatMap rows,
        Guttered "    " row := by
  intro raw n
  have hread : Comment.read raw = { tags := [
      { title := "param", name := some "a", description := some "one" },
      { title := "param", name := some "c", optional := true, description := some "two" }] } :=
    Comment.read_eq (by decide +kernel) (by simp) (by decide +kernel)
  have hrun : runFrom (callableOf {} (Comment.read raw) n) (start "m") = (.ok
      { header := { diagnostics := [untypedParameter "a", untypedParameter "c", untypedResult] }
        params := [{ name := "a", description := some "one", types := [TypeRef.any] },
          { name := "c", description := some "two", types := [TypeRef.any], optional := true }]
        result := [TypeRef.any] }, start "m") := by
    rw [hread]
    change runFrom (parametersFrom {} _ 0 [leaf .identifier "a", leaf .arrayPattern "[b]"] >>= _)
      _ = _
    simp only [parametersFrom, sourceParameter_identifier, sourceParameter_arrayPattern]
    rfl
  have hind : Indentation "    ".toList := indentation_margin {} 1
  refine ⟨_, hrun, rfl, ?_⟩
  exact (gutter_kept_iff_unbroken _ _ _ _ _ _ hrun {} rfl "    " hind "Adds.\nTwice.").1 (by decide)

/-- The description of a parameter runs over two lines, and the second has no gutter. -/
theorem broken_description_loses_gutter :
    let raw := "/**\n * @param a - one\n *   two\n */"
    let n := arrowOf [leaf .identifier "a"] (leaf .number "1")
    ∃ fn, runFrom (callableOf {} (Comment.read raw) n) (start "m") = (.ok fn, start "m") ∧
      "two" ∈ (Style.docBlock {} "    " "" fn.params).flatMap rows ∧ ¬ Guttered "    " "two" := by
  intro raw n
  have hread : Comment.read raw =
      { tags := [{ title := "param", name := some "a", description := some "one\ntwo" }] } :=
    Comment.read_eq (by decide +kernel) (by simp) (by decide +kernel)
  have hrun : runFrom (callableOf {} (Comment.read raw) n) (start "m") = (.ok
      { header := { diagnostics := [untypedParameter "a", untypedResult] }
        params := [{ name := "a", description := some "one\ntwo", types := [TypeRef.any] }]
        result := [TypeRef.any] }, start "m") := by
    rw [hread]
    change runFrom (parametersFrom {} _ 0 [leaf .identifier "a"] >>= _) _ = _
    simp only [parametersFrom, sourceParameter_identifier]
    rfl
  refine ⟨_, hrun, by decide, fun hgutter => ?_⟩
  obtain ⟨c, hc, hblank⟩ := hgutter.head (indentation_margin {} 1) (by decide)
  cases hc
  cases hblank

end Build

end Ambient
