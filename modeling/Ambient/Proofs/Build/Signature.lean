import Ambient.Proofs.Build.Kept
import Ambient.Proofs.Build.Return
import Ambient.Proofs.Table
import Mathlib.Data.List.Forall2
import Mathlib.Data.List.Nodup

/-!
# The signature of a function

A function has one parameter for each node of its parameter list.  Its name is the one it has in the
source; a pattern has none, and takes that of the documented parameter at its position, or else one
that tells the position.  The type of a parameter is the one that the last tag of its name gives.
What has no documented type gets a diagnostic, in the order of the parameters, the result last.

Names in the source are distinct and so are documented names, but a pattern may take a name that
another parameter has; the names of a signature are distinct exactly when this does not happen.
-/

namespace Ambient

/-! ### The tags that count -/

namespace Doc.Comment

/-- The tag of a parameter: the last one of its name. -/
def parameterTag? (doc : Comment) (name : String) : Option Tag :=
  (doc.tags.filter fun t => t.title = "param" ∧ t.name = some name).getLast?

/-- The documented type of a parameter. -/
def parameterType? (doc : Comment) (name : String) : Option TypeExpr :=
  (doc.parameterTag? name).bind (·.type)

/-- The documented type of a result. -/
def resultType? (doc : Comment) : Option TypeExpr :=
  (doc.tags.find? (·.title = "return")).bind (·.type)

theorem get?_params (doc : Comment) (name : String) :
    doc.params.get? name = doc.parameterTag? name := by
  have hentries (tags : List Tag) :
      (tags.filterMap fun t => t.name.map fun n => (n, t)).filter (·.1 = name) =
        (tags.filter fun t => t.name = some name).map fun t => (name, t) := by
    induction tags with
    | nil => rfl
    | cons t tags ih =>
        cases hname : t.name with
        | none => simpa [hname] using ih
        | some own =>
            by_cases hown : own = name
            · simpa [hname, hown] using ih
            · simpa [hname, hown] using ih
  rw [params, Table.get?_ofEntries, hentries, find, List.filter_filter, List.getLast?_map,
    Option.map_map, parameterTag?]
  simp only [Function.comp_def, Option.map_id', Bool.and_comm, Bool.decide_and]

end Doc.Comment

/-! ### Parameters of the source -/

/-- The name that a parameter has in the source, behind defaults and dots; a pattern has the empty
one. -/
inductive Node.Binds : Node → String → Prop where
  | identifier {n : Node} (hk : n.kind = .identifier) : Binds n n.text
  | pattern {n : Node} (hk : n.kind = .objectPattern ∨ n.kind = .arrayPattern) : Binds n ""
  | defaulted {n c : Node} {name : String} (hk : n.kind = .assignmentPattern)
      (hc : n.child? .left = some c) (h : Binds c name) : Binds n name
  | rest {n c : Node} {name : String} (hk : n.kind = .restPattern)
      (hc : n.codeChildren.head? = some c) (h : Binds c name) : Binds n name

theorem Node.Binds.unique {n : Node} {name other : String} (h : n.Binds name)
    (h' : n.Binds other) : name = other := by
  induction h with
  | identifier hk =>
      cases h' with
      | identifier _ => rfl
      | pattern hk' => simp [hk] at hk'
      | defaulted hk' _ _ | rest hk' _ _ => simp [hk] at hk'
  | pattern hk =>
      cases h' with
      | identifier hk' => simp [hk'] at hk
      | pattern _ => rfl
      | defaulted hk' _ _ | rest hk' _ _ => simp [hk'] at hk
  | defaulted hk hc _ ih =>
      cases h' with
      | identifier hk' | pattern hk' | rest hk' _ _ => simp [hk] at hk'
      | defaulted _ hc' h' =>
          rw [hc] at hc'
          cases hc'
          exact ih h'
  | rest hk hc _ ih =>
      cases h' with
      | identifier hk' | pattern hk' | defaulted hk' _ _ => simp [hk] at hk'
      | rest _ hc' h' =>
          rw [hc] at hc'
          cases hc'
          exact ih h'

/-- The types of a parameter are what its documented type expands to, and any without one. -/
def Parameter.TypedBy (p : Parameter) (doc : Doc.Comment) : Prop :=
  match doc.parameterType? p.name with
  | some e => e.expand = .ok p.types
  | none => p.types = [TypeRef.any]

namespace Build

/-- A parameter that is read has the name of its node. -/
theorem runFrom_sourceParameter_ok {ctx : Context} {n : Node} {s s' : BuildState} {p : Parameter}
    (h : runFrom (sourceParameter ctx n) s = (.ok p, s')) : s' = s ∧ n.Binds p.name := by
  rw [sourceParameter] at h
  dsimp only at h
  split at h
  · rename_i hk
    cases h
    exact ⟨rfl, .identifier hk⟩
  · rename_i hk
    cases h
    exact ⟨rfl, .pattern (.inl hk)⟩
  · rename_i hk
    cases h
    exact ⟨rfl, .pattern (.inr hk)⟩
  · rename_i hk
    split at h
    · rename_i c hc
      have hlt := Node.sizeOf_lt_of_mem_children (Node.mem_children_of_child? hc)
      obtain ⟨q, mid, hq, hlast⟩ := runFrom_bind_ok h
      cases hlast
      obtain ⟨hstate, hbinds⟩ := runFrom_sourceParameter_ok hq
      exact ⟨hstate, .defaulted hk hc hbinds⟩
    · cases h
  · rename_i hk
    split at h
    · rename_i c cs hc
      have hmem : c ∈ n.codeChildren := by simp [hc]
      have hlt := Node.sizeOf_lt_of_mem_children (Node.mem_children_of_codeChildren hmem)
      obtain ⟨q, mid, hq, hlast⟩ := runFrom_bind_ok h
      cases hlast
      obtain ⟨hstate, hbinds⟩ := runFrom_sourceParameter_ok hq
      exact ⟨hstate, .rest hk (by rw [hc]; rfl) hbinds⟩
    · cases h
  · cases h
termination_by sizeOf n

variable {ctx : Context} {doc : Doc.Comment} {n : Node} {nodes : List Node} {s s' : BuildState}

theorem runFrom_ofTypes_ok {α : Type} {x : Except TypeRef.Fault α} {a : α}
    (h : runFrom (ofTypes x) s = (.ok a, s')) : x = .ok a ∧ s' = s := by
  cases x with
  | ok b =>
      cases h
      exact ⟨rfl, rfl⟩
  | error f => cases h

/-! ### Names, types and diagnostics -/

/-- The names of the parameters from a position on, from those that they have in the source. -/
def signatureNames (positional : List String) (index : Nat) (owns : List String) : List String :=
  (owns.zipIdx index).map fun o => parameterName positional o.2 o.1

/-- The diagnostics of the parameters: one for each without a documented type. -/
def untypedParameters (doc : Doc.Comment) (ps : List Parameter) : List String :=
  (ps.filter fun p => (doc.parameterType? p.name).isNone).map fun p => untypedParameter p.name

theorem typed_of_none {p : Parameter} (h : doc.parameterType? p.name = none)
    (htypes : p.types = [TypeRef.any]) :
    p.TypedBy doc ∧ untypedParameters doc [p] = [untypedParameter p.name] := by
  rw [Parameter.TypedBy, h]
  exact ⟨htypes, by simp [untypedParameters, h]⟩

theorem typed_of_some {p : Parameter} {e : TypeExpr} (h : doc.parameterType? p.name = some e)
    (htypes : e.expand = .ok p.types) : p.TypedBy doc ∧ untypedParameters doc [p] = [] := by
  rw [Parameter.TypedBy, h]
  exact ⟨htypes, by simp [untypedParameters, h]⟩

theorem documented_ok {p q : Parameter} {own : List String}
    (h : documented doc p = .ok (q, own)) :
    q.name = p.name ∧ q.TypedBy doc ∧ untypedParameters doc [q] = own := by
  rw [documented, Doc.Comment.get?_params] at h
  cases htag : doc.parameterTag? p.name with
  | none =>
      have htype : doc.parameterType? p.name = none := by
        rw [Doc.Comment.parameterType?, htag]
        rfl
      rw [htag] at h
      cases h
      exact ⟨rfl, typed_of_none htype rfl⟩
  | some t =>
      have htype : doc.parameterType? p.name = t.type := by
        rw [Doc.Comment.parameterType?, htag]
        rfl
      rw [htag] at h
      dsimp only [Option.bind_some] at h
      cases ht : t.type with
      | none =>
          rw [ht] at h htype
          cases h
          exact ⟨rfl, typed_of_none htype rfl⟩
      | some e =>
          rw [ht] at h htype
          cases hexpand : e.expand with
          | error f =>
              simp only [hexpand] at h
              cases h
          | ok types =>
              simp only [hexpand] at h
              cases h
              exact ⟨rfl, typed_of_some htype hexpand⟩

/-- What reading the nodes of a parameter list gives. -/
structure ParametersRead (doc : Doc.Comment) (index : Nat) (nodes : List Node) (ps : List Parameter)
    (untyped : List String) : Prop where
  names : ∃ owns, List.Forall₂ Node.Binds nodes owns ∧
    ps.map (·.name) = signatureNames (positionalNames doc) index owns
  types : ∀ p ∈ ps, p.TypedBy doc
  untyped : untyped = untypedParameters doc ps

theorem runFrom_parametersFrom_ok {index : Nat} {ps : List Parameter} {untyped : List String}
    (h : runFrom (parametersFrom ctx doc index nodes) s = (.ok (ps, untyped), s')) :
    s' = s ∧ ParametersRead doc index nodes ps untyped := by
  induction nodes generalizing index ps untyped s with
  | nil =>
      cases h
      exact ⟨rfl, ⟨[], .nil, rfl⟩, List.forall_mem_nil _, rfl⟩
  | cons n nodes ih =>
      rw [parametersFrom] at h
      obtain ⟨p, mid, hp, h⟩ := runFrom_bind_ok h
      obtain ⟨⟨q, own⟩, mid', hq, h⟩ := runFrom_bind_ok h
      obtain ⟨⟨qs, others⟩, mid'', hqs, h⟩ := runFrom_bind_ok h
      cases h
      obtain ⟨rfl, hbinds⟩ := runFrom_sourceParameter_ok hp
      obtain ⟨hdocumented, rfl⟩ := runFrom_ofTypes_ok hq
      obtain ⟨rfl, ⟨owns, howns, hnames⟩, htypes, rfl⟩ := ih hqs
      obtain ⟨hname, htype, rfl⟩ := documented_ok hdocumented
      refine ⟨rfl, ⟨p.name :: owns, .cons hbinds howns, ?_⟩,
        List.forall_mem_cons.2 ⟨htype, htypes⟩, ?_⟩
      · rw [List.map_cons, hname, hnames]
        rfl
      · rw [untypedParameters, untypedParameters, untypedParameters, ← List.map_append,
          ← List.filter_append]
        rfl

/-- The types of a result are what its documented type expands to, and any without one; a function
that gives no value gives `void`. -/
def ResultTypedBy (doc : Doc.Comment) (n : Node) (result : List TypeRef) : Prop :=
  if n.GivesValue then
    match doc.resultType? with
    | some e => e.expand = .ok result
    | none => result = [TypeRef.any]
  else result = [TypeRef.plain "void"]

/-- The diagnostic of the result, if it has one. -/
def untypedResults (doc : Doc.Comment) (n : Node) : List String :=
  if n.GivesValue ∧ doc.resultType?.isNone then [untypedResult] else []

theorem resultOf_ok {result : List TypeRef} {missing : List String}
    (h : resultOf doc n = .ok (result, missing)) :
    ResultTypedBy doc n result ∧ missing = untypedResults doc n := by
  have htype : (doc.first? "return").bind (·.type) = doc.resultType? := rfl
  rw [resultOf, htype] at h
  rw [ResultTypedBy, untypedResults]
  by_cases hvalue : n.GivesValue
  · rw [if_pos (n.givesValue_iff.2 hvalue)] at h
    cases he : doc.resultType? with
    | none =>
        rw [he] at h
        cases h
        simp [hvalue]
    | some e =>
        rw [he] at h
        cases hexpand : e.expand with
        | error f =>
            simp only [hexpand] at h
            cases h
        | ok types =>
            simp only [hexpand] at h
            cases h
            simp [hvalue, hexpand]
  · rw [if_neg (mt n.givesValue_iff.1 hvalue)] at h
    cases h
    simp [hvalue]

theorem runFrom_callableOf_ok {fn : Callable}
    (h : runFrom (callableOf ctx doc n) s = (.ok fn, s')) :
    s' = s ∧ ResultTypedBy doc n fn.result ∧ ∃ untyped,
      ParametersRead doc 0 n.parameterNodes fn.params untyped ∧
        fn.header.diagnostics = untyped ++ untypedResults doc n := by
  obtain ⟨⟨params, untyped⟩, mid, hparams, h⟩ := runFrom_bind_ok h
  obtain ⟨⟨result, missing⟩, mid', hresult, h⟩ := runFrom_bind_ok h
  cases h
  obtain ⟨rfl, hread⟩ := runFrom_parametersFrom_ok hparams
  obtain ⟨hok, rfl⟩ := runFrom_ofTypes_ok hresult
  obtain ⟨htyped, rfl⟩ := resultOf_ok hok
  exact ⟨rfl, htyped, untyped, hread, rfl⟩

theorem ResultTypedBy.eq_void_iff {result : List TypeRef} (h : ResultTypedBy doc n result) :
    result = [TypeRef.plain "void"] ↔
      ¬ n.GivesValue ∨ ∃ e, doc.resultType? = some e ∧ e.expand = .ok [TypeRef.plain "void"] := by
  rw [ResultTypedBy] at h
  split at h
  · rename_i hvalue
    cases he : doc.resultType? with
    | none =>
        rw [he] at h
        have hany : ¬ [TypeRef.any] = [TypeRef.plain "void"] := by
          simp [TypeRef.any, TypeRef.plain]
        simp [h, hvalue, hany]
    | some e =>
        rw [he] at h
        dsimp only at h
        simp [hvalue, h]
  · rename_i hvalue
    simp [h, hvalue]

/-! ### Small functions -/

/-- A function of the form `(a, b) => c`. -/
def arrowOf (params : List Node) (body : Node) : Node :=
  let list := "(" ++ ", ".intercalate (params.map (·.text)) ++ ")"
  ⟨.arrowFunction, none, list ++ " => " ++ body.text, 1, 0,
    [⟨.formalParameters, some .parameters, list, 1, 0, params⟩, body.as .body]⟩

/-- A parameter with dots. -/
def restOf (n : Node) : Node :=
  ⟨.restPattern, none, "..." ++ n.text, 1, 0, [n]⟩

theorem sourceParameter_identifier (ctx : Context) (name : String) :
    sourceParameter ctx (leaf .identifier name) = pure { name } := by
  rw [sourceParameter]
  rfl

theorem sourceParameter_arrayPattern (ctx : Context) (text : String) :
    sourceParameter ctx (leaf .arrayPattern text) = pure { name := "" } := by
  rw [sourceParameter]
  rfl

theorem sourceParameter_restOf (ctx : Context) (name : String) :
    sourceParameter ctx (restOf (leaf .identifier name)) = pure { name, rest := true } := by
  rw [sourceParameter]
  dsimp only [restOf]
  change sourceParameter _ (leaf .identifier name) >>= _ = _
  rw [sourceParameter_identifier]
  rfl

/-- The tag of a parameter, and its type. -/
def paramTag (name : String) (type : Option TypeExpr) : Doc.Tag :=
  { title := "param", name := some name, type }

/-! ### Diagnostics -/

/-- What a function that is read says of its documentation.  There is one parameter for each node of
the parameter list, in order, with the name of the node or of its position.  The diagnostics are one
for each parameter without a documented type, in order, and one for the result when the function
gives a value and its type is not documented.  The parameters with a diagnostic have any type, and
the others that of their last tag; the result is `void` exactly when no value is given, unless it is
documented so. -/
theorem diagnostics_exact (ctx : Context) (doc : Doc.Comment) (n : Node) (fn : Callable)
    (s s' : BuildState) (h : runFrom (callableOf ctx doc n) s = (.ok fn, s')) :
    (∃ owns, List.Forall₂ Node.Binds n.parameterNodes owns ∧
      fn.params.map (·.name) = signatureNames (positionalNames doc) 0 owns) ∧
    fn.header.diagnostics =
      ((fn.params.filter fun p => (doc.parameterType? p.name).isNone).map fun p =>
        "Parameter \"" ++ p.name ++ "\" type is not specified") ++
      (if n.GivesValue ∧ doc.resultType?.isNone then ["Return type is not specified"] else []) ∧
    (∀ p ∈ fn.params, p.TypedBy doc) ∧ ResultTypedBy doc n fn.result ∧
    (fn.result = [TypeRef.plain "void"] ↔ ¬ n.GivesValue ∨
      ∃ e, doc.resultType? = some e ∧ e.expand = .ok [TypeRef.plain "void"]) := by
  obtain ⟨-, hresult, untyped, ⟨hnames, htypes, rfl⟩, hdiagnostics⟩ := runFrom_callableOf_ok h
  exact ⟨hnames, hdiagnostics, htypes, hresult, hresult.eq_void_iff⟩

/-- `(a, [b], ...c) => 1`, documented by two tags of `a`, the last one without a type, and by one of
`opts` in between: the pattern is `opts`, and it alone has a type. -/
theorem diagnostics_exact_last_tag :
    let doc : Doc.Comment := { tags := [paramTag "a" (some (.name "number")),
      paramTag "opts" (some (.name "string")), paramTag "a" none] }
    let n := arrowOf [leaf .identifier "a", leaf .arrayPattern "[b]", restOf (leaf .identifier "c")]
      (leaf .number "1")
    ∃ fn, runFrom (callableOf {} doc n) (start "m") = (.ok fn, start "m") ∧
      fn.params.map (·.name) = ["a", "opts", "c"] ∧
      fn.header.diagnostics = ["Parameter \"a\" type is not specified",
        "Parameter \"c\" type is not specified", "Return type is not specified"] ∧
      fn.result ≠ [TypeRef.plain "void"] := by
  intro doc n
  have hrun : runFrom (callableOf {} doc n) (start "m") = (.ok
      { header := { diagnostics := [untypedParameter "a", untypedParameter "c", untypedResult] }
        params := [{ name := "a", types := [TypeRef.any] },
          { name := "opts", types := [TypeRef.plain "string"] },
          { name := "c", types := [TypeRef.any], rest := true }]
        result := [TypeRef.any] }, start "m") := by
    change runFrom (parametersFrom {} doc 0 [leaf .identifier "a", leaf .arrayPattern "[b]",
      restOf (leaf .identifier "c")] >>= _) _ = _
    simp only [parametersFrom, sourceParameter_identifier, sourceParameter_arrayPattern,
      sourceParameter_restOf]
    rfl
  obtain ⟨-, hdiagnostics, -, -, hvoid⟩ := diagnostics_exact _ _ _ _ _ _ hrun
  refine ⟨_, hrun, rfl, hdiagnostics.trans rfl, mt hvoid.1 ?_⟩
  have hvalue : n.GivesValue := by decide
  have hresult : doc.resultType? = none := rfl
  simp [hvalue, hresult]

/-! ### Distinct names -/

theorem positionalNames_eq_filter (doc : Doc.Comment) :
    positionalNames doc =
      ((doc.find "param").filterMap (·.name)).filter fun name => !Text.hasChar '.' name := by
  rw [positionalNames, List.filter_filterMap]

theorem getElem?_signatureNames {positional owns : List String} {i : Nat} {own : String}
    (h : owns[i]? = some own) :
    (signatureNames positional 0 owns)[i]? = some (parameterName positional i own) := by
  simp [signatureNames, h]

theorem parameterName_of_ne {positional : List String} {i : Nat} {own : String} (h : own ≠ "") :
    parameterName positional i own = own := by
  simp [parameterName, h]

theorem parameterName_of_lt {positional : List String} {i : Nat} (h : i < positional.length) :
    parameterName positional i "" = positional[i] := by
  simp [parameterName, h]

theorem parameterName_of_le {positional : List String} {i : Nat} (h : positional.length ≤ i) :
    parameterName positional i "" = "arg" ++ toString i := by
  simp [parameterName, h]

/-- The names that tell a position are told apart by it. -/
theorem arg_injective {i j : Nat} (h : "arg" ++ toString i = "arg" ++ toString j) : i = j := by
  have hdigits : (toString i).toList = (toString j).toList := by
    rw [(String.append_right_inj "arg").1 h]
  have hvalue := congrArg (Nat.ofDigitChars 10 · 0) hdigits
  simpa [Nat.toString_eq_repr, Nat.toList_repr, Nat.ofDigitChars_toDigits] using hvalue

/-- No pattern takes the name of another parameter: neither one of the source, nor, by way of a tag,
the one that tells the position of another pattern. -/
structure PatternsApart (positional owns : List String) : Prop where
  named : ∀ (i j : Nat) (own : String), owns[i]? = some "" → owns[j]? = some own → own ≠ "" →
    parameterName positional i "" ≠ own
  told : ∀ (i j : Nat), owns[i]? = some "" → owns[j]? = some "" → positional.length ≤ j →
    positional[i]? ≠ some ("arg" ++ toString j)

theorem PatternsApart.of_nodup {positional owns : List String}
    (h : (signatureNames positional 0 owns).Nodup) : PatternsApart positional owns := by
  have hinj {i j : Nat} {name : String} (hi : (signatureNames positional 0 owns)[i]? = some name)
      (hj : (signatureNames positional 0 owns)[j]? = some name) : i = j :=
    (List.getElem?_inj (List.getElem?_eq_some_iff.1 hi).1 h).1 (hi.trans hj.symm)
  constructor
  · intro i j own hi hj hown heq
    have hij : i = j := by
      refine hinj (getElem?_signatureNames hi) ?_
      rw [getElem?_signatureNames hj, parameterName_of_ne hown, heq]
    rw [hij, hj] at hi
    exact hown (Option.some.inj hi)
  · intro i j hi hj hle htag
    obtain ⟨hlt, hname⟩ := List.getElem?_eq_some_iff.1 htag
    have hij : i = j := by
      refine hinj (getElem?_signatureNames hi) ?_
      rw [getElem?_signatureNames hj, parameterName_of_le hle, parameterName_of_lt hlt, hname]
    omega

/-- Two patterns have one name only if a tag gives one of them the name of the other's position. -/
theorem PatternsApart.pattern_ne {positional owns : List String} (h : PatternsApart positional owns)
    (htags : positional.Nodup) {i j : Nat} (hi : owns[i]? = some "") (hj : owns[j]? = some "")
    (hij : i ≠ j) : parameterName positional i "" ≠ parameterName positional j "" := by
  intro heq
  rcases Nat.lt_or_ge i positional.length with hi' | hi' <;>
    rcases Nat.lt_or_ge j positional.length with hj' | hj'
  · rw [parameterName_of_lt hi', parameterName_of_lt hj'] at heq
    exact hij ((htags.getElem_inj_iff).1 heq)
  · rw [parameterName_of_lt hi', parameterName_of_le hj'] at heq
    exact h.told i j hi hj hj' (List.getElem?_eq_some_iff.2 ⟨hi', heq⟩)
  · rw [parameterName_of_le hi', parameterName_of_lt hj'] at heq
    exact h.told j i hj hi hi' (List.getElem?_eq_some_iff.2 ⟨hj', heq.symm⟩)
  · rw [parameterName_of_le hi', parameterName_of_le hj'] at heq
    exact hij (arg_injective heq)

theorem PatternsApart.nodup {positional owns : List String} (h : PatternsApart positional owns)
    (htags : positional.Nodup) (howns : (owns.filter (· ≠ "")).Nodup) :
    (signatureNames positional 0 owns).Nodup := by
  rw [List.nodup_iff_getElem?_ne_getElem?]
  intro i j hij hlt
  have hj' : j < owns.length := by simpa [signatureNames] using hlt
  have hi' : i < owns.length := Nat.lt_trans hij hj'
  have hi := List.getElem?_eq_getElem hi'
  have hj := List.getElem?_eq_getElem hj'
  have hapart := List.pairwise_iff_getElem.1 (List.pairwise_filter.1 howns) i j hi' hj' hij
  rw [getElem?_signatureNames hi, getElem?_signatureNames hj, Ne, Option.some_inj]
  intro heq
  generalize owns[i] = a at *
  generalize owns[j] = b at *
  by_cases ha : a = "" <;> by_cases hb : b = ""
  · subst ha hb
    exact h.pattern_ne htags hi hj (Nat.ne_of_lt hij) heq
  · subst ha
    exact h.named i j b hi hj hb (heq.trans (parameterName_of_ne hb))
  · subst hb
    exact h.named j i a hj hi ha (heq.symm.trans (parameterName_of_ne ha))
  · rw [parameterName_of_ne ha, parameterName_of_ne hb] at heq
    exact hapart (decide_eq_true ha) (decide_eq_true hb) heq

/-- Where the names of the source are distinct and so are those of the tags, the parameters of a
function have distinct names exactly when its patterns take no name of another parameter. -/
theorem names_distinct_iff_patterns_apart (ctx : Context) (doc : Doc.Comment) (n : Node)
    (fn : Callable) (s s' : BuildState) (h : runFrom (callableOf ctx doc n) s = (.ok fn, s'))
    (owns : List String) (hbinds : List.Forall₂ Node.Binds n.parameterNodes owns)
    (howns : (owns.filter (· ≠ "")).Nodup)
    (htags : ((doc.find "param").filterMap (·.name)).Nodup) :
    (fn.params.map (·.name)).Nodup ↔ PatternsApart (positionalNames doc) owns := by
  obtain ⟨-, -, untyped, ⟨⟨owns', hbinds', hnames⟩, -, -⟩, -⟩ := runFrom_callableOf_ok h
  obtain rfl : owns' = owns :=
    List.right_unique_forall₂' (fun _ _ _ h h' => h.unique h') hbinds' hbinds
  have hpositional : (positionalNames doc).Nodup := by
    rw [positionalNames_eq_filter]
    exact htags.filter _
  rw [hnames]
  exact ⟨.of_nodup, fun hapart => hapart.nodup hpositional howns⟩

/-- `([a], b) => 1`, documented by a tag for each: no name is taken twice. -/
theorem names_distinct_iff_patterns_apart_documented :
    let doc : Doc.Comment :=
      { tags := [paramTag "opts" none, paramTag "b" (some (.name "string"))] }
    let n := arrowOf [leaf .arrayPattern "[a]", leaf .identifier "b"] (leaf .number "1")
    ∃ fn, runFrom (callableOf {} doc n) (start "m") = (.ok fn, start "m") ∧
      fn.params.map (·.name) = ["opts", "b"] ∧ PatternsApart ["opts", "b"] ["", "b"] := by
  intro doc n
  have hrun : runFrom (callableOf {} doc n) (start "m") = (.ok
      { header := { diagnostics := [untypedParameter "opts", untypedResult] }
        params := [{ name := "opts", types := [TypeRef.any] },
          { name := "b", types := [TypeRef.plain "string"] }]
        result := [TypeRef.any] }, start "m") := by
    change runFrom (parametersFrom {} doc 0 [leaf .arrayPattern "[a]", leaf .identifier "b"] >>= _)
      _ = _
    simp only [parametersFrom, sourceParameter_identifier, sourceParameter_arrayPattern]
    rfl
  have hbinds : List.Forall₂ Node.Binds n.parameterNodes ["", "b"] :=
    .cons (.pattern (.inr rfl)) (.cons (.identifier rfl) .nil)
  have hiff := names_distinct_iff_patterns_apart _ _ _ _ _ _ hrun _ hbinds (by decide) (by decide)
  have hpositional : positionalNames doc = ["opts", "b"] := rfl
  rw [hpositional] at hiff
  exact ⟨_, hrun, rfl, hiff.1 (by decide)⟩

/-- A pattern without a tag takes the name of another parameter: in `([a], b) => 1` that of the one
tag, of `b`, with its type and without a diagnostic. -/
theorem undocumented_pattern_repeats_name :
    let doc : Doc.Comment := { tags := [paramTag "b" (some (.name "string"))] }
    let n := arrowOf [leaf .arrayPattern "[a]", leaf .identifier "b"] (leaf .number "1")
    List.Forall₂ Node.Binds n.parameterNodes ["", "b"] ∧ (["", "b"].filter (· ≠ "")).Nodup ∧
      ((doc.find "param").filterMap (·.name)).Nodup ∧
      ∃ fn, runFrom (callableOf {} doc n) (start "m") = (.ok fn, start "m") ∧
        fn.params.map (·.name) = ["b", "b"] ∧ ¬ (fn.params.map (·.name)).Nodup ∧
        fn.header.diagnostics = [untypedResult] := by
  intro doc n
  have hrun : runFrom (callableOf {} doc n) (start "m") = (.ok
      { header := { diagnostics := [untypedResult] }
        params := [{ name := "b", types := [TypeRef.plain "string"] },
          { name := "b", types := [TypeRef.plain "string"] }]
        result := [TypeRef.any] }, start "m") := by
    change runFrom (parametersFrom {} doc 0 [leaf .arrayPattern "[a]", leaf .identifier "b"] >>= _)
      _ = _
    simp only [parametersFrom, sourceParameter_identifier, sourceParameter_arrayPattern]
    rfl
  exact ⟨.cons (.pattern (.inr rfl)) (.cons (.identifier rfl) .nil), by decide, by decide,
    _, hrun, rfl, by decide, rfl⟩

end Build

end Ambient
