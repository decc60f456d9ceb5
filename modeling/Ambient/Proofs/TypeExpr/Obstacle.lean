import Ambient.Proofs.Doc.Named
import Ambient.Proofs.Position

/-!
# What keeps a type from being expanded

Some expressions have no counterpart in a declaration file, and an argument of a generic type must
have exactly one alternative.  `Obstructs` says where in an expression this fails, without following
the expansion: at a position that is reached through what is expanded.  Whichever derivation of a
text builds the expression, it expands exactly when nothing obstructs it, and then to as many
alternatives as it has; otherwise the fault names the first obstacle, from left to right and from
the inside out.
-/

namespace Ambient.TypeExpr

open Text TypeRef Position

/-! ### Alternatives and obstacles -/

mutual

/-- The number of alternatives that an expression stands for; none without a counterpart. -/
def alternatives : TypeExpr → Nat
  | union es => alternativesOfAll es
  | optional e => alternatives e
  | nonNullable e _ => alternatives e
  | nullable e _ => alternatives e + 1
  | variadic (some e) => alternatives e
  | variadic none => 1
  | name _ => 1
  | apply _ _ => 1
  | all => 1
  | _ => 0

/-- The number of alternatives of several expressions. -/
def alternativesOfAll : List TypeExpr → Nat
  | [] => 0
  | e :: es => alternatives e + alternativesOfAll es

end

/-- The parts of an expression that are expanded with it. -/
def parts : TypeExpr → List TypeExpr
  | union es => es
  | apply _ args => args
  | optional e => [e]
  | nonNullable e _ => [e]
  | nullable e _ => [e]
  | variadic (some e) => [e]
  | _ => []

/-- The parts are arguments of a generic type. -/
def isGeneric : TypeExpr → Bool
  | apply _ _ => true
  | _ => false

/-- The expression has no counterpart in a declaration file, whatever its parts are. -/
def isForeign : TypeExpr → Bool
  | function _ _ => true
  | record _ => true
  | unknown => true
  | _ => false

/-- At a position in the expression stands something that keeps it from being expanded: what has no
counterpart, or an argument of a generic type that has not exactly one alternative.  `argument` says
that the expression is such an argument itself. -/
inductive Obstructs : (argument : Bool) → TypeExpr → List Nat → TypeExpr → Prop where
  | foreign {argument : Bool} {e : TypeExpr} (h : e.isForeign = true) : Obstructs argument e [] e
  | notSingle {e : TypeExpr} (h : e.alternatives ≠ 1) : Obstructs true e [] e
  | inside {argument : Bool} {e part u : TypeExpr} {i : Nat} {p : List Nat}
      (hpart : e.parts[i]? = some part) (h : Obstructs e.isGeneric part p u) :
      Obstructs argument e (i :: p) u

/-- Something keeps the whole expression from being expanded. -/
def Obstructed (e : TypeExpr) (p : List Nat) (u : TypeExpr) : Prop :=
  Obstructs false e p u

/-- What obstructs one of several expressions. -/
abbrev ObstructedAmong (argument : Bool) (es : List TypeExpr) : List Nat → TypeExpr → Prop :=
  Among (Obstructs argument) es

theorem obstructs_argument_iff {e u : TypeExpr} {p : List Nat} :
    Obstructs true e p u ↔ Obstructs false e p u ∨ p = [] ∧ u = e ∧ e.alternatives ≠ 1 := by
  constructor
  · intro h
    cases h with
    | foreign h => exact .inl (.foreign h)
    | notSingle h => exact .inr ⟨rfl, rfl, h⟩
    | inside hpart h => exact .inl (.inside hpart h)
  · rintro (h | ⟨rfl, rfl, h⟩)
    · cases h with
      | foreign h => exact .foreign h
      | inside hpart h => exact .inside hpart h
    · exact .notSingle h

/-- One thing at most stands at a position. -/
theorem Obstructs.unique {argument : Bool} {e u v : TypeExpr} {p : List Nat}
    (hu : Obstructs argument e p u) (hv : Obstructs argument e p v) : u = v := by
  induction hu with
  | foreign _ => cases hv <;> rfl
  | notSingle _ => cases hv <;> rfl
  | inside hpart _ ih =>
      cases hv with
      | inside hpart' hv =>
          rw [hpart] at hpart'
          cases hpart'
          exact ih hv

/-- What has a counterpart itself is obstructed by its parts only. -/
theorem obstructed_iff {e : TypeExpr} (he : e.isForeign = false) (p : List Nat) (u : TypeExpr) :
    ObstructedAmong e.isGeneric e.parts p u ↔ e.Obstructed p u := by
  constructor
  · rintro ⟨i, p, part, rfl, hpart, h⟩
    exact .inside hpart h
  · intro h
    cases h with
    | foreign h =>
        rw [he] at h
        cases h
    | inside hpart h => exact ⟨_, _, _, rfl, hpart, h⟩

/-! ### Steps that report the first obstacle -/

variable {α β : Type} {P P' : List Nat → TypeExpr → Prop} {Q : α → Prop} {R : β → Prop}

/-- The step gives something that satisfies `Q` when there is no obstacle, and else fails for the
first one. -/
inductive Settles (P : List Nat → TypeExpr → Prop) (Q : α → Prop) : Except Fault α → Prop where
  | ok {a : α} (hclear : ∀ p u, ¬ P p u) (h : Q a) : Settles P Q (.ok a)
  | error {p : List Nat} {u : TypeExpr} (h : First P p u) :
      Settles P Q (.error (.unsupported u.kind))

namespace Settles

theorem congr {x : Except Fault α} (hx : Settles P Q x) (h : ∀ p u, P p u ↔ P' p u) :
    Settles P' Q x := by
  cases hx with
  | ok hclear ha => exact .ok (fun p u hp => hclear p u ((h p u).2 hp)) ha
  | error hfirst => exact .error (hfirst.congr h)

/-- A last step that cannot fail. -/
theorem bind_ok {x : Except Fault α} {f : α → Except Fault β} (hx : Settles P Q x)
    (hf : ∀ a, Q a → ∃ b, f a = .ok b ∧ R b) : Settles P R (x >>= f) := by
  cases hx with
  | ok hclear ha =>
      obtain ⟨b, hb, hR⟩ := hf _ ha
      change Settles P R (f _)
      rw [hb]
      exact .ok hclear hR
  | error hfirst => exact .error hfirst

variable {argument : Bool} {e : TypeExpr} {es : List TypeExpr}

/-- The first expression is looked at before the others. -/
theorem cons {x : Except Fault α} {f : α → Except Fault β} (hx : Settles (Obstructs argument e) Q x)
    (hf : ∀ a, Q a → Settles (ObstructedAmong argument es) R (f a)) :
    Settles (ObstructedAmong argument (e :: es)) R (x >>= f) := by
  cases hx with
  | error hfirst => exact .error (hfirst.among_head es)
  | @ok a hclear ha =>
      change Settles _ R (f a)
      generalize hy : f a = y
      have hrest := hf a ha
      rw [hy] at hrest
      cases hrest with
      | ok hothers hb =>
          refine .ok (fun q u hq => ?_) hb
          rcases among_cons_iff.1 hq with ⟨p, -, hp⟩ | ⟨i, p, -, hp⟩
          · exact hclear p u hp
          · exact hothers _ u hp
      | error hfirst =>
          obtain ⟨i, p, _, rfl, -⟩ := hfirst.here
          exact .error (First.among_tail hclear hfirst)

end Settles

/-! ### Expansion of each kind of expression -/

/-- The expression expands to as many alternatives as it has, or is refused for the first
obstacle. -/
def Settled (e : TypeExpr) : Prop :=
  Settles e.Obstructed (fun ts => ts.length = e.alternatives) e.expand

theorem named_of_ne {name : String} (h : name ≠ "") (scope : Option String) (args : List TypeRef) :
    named scope name args = .ok ⟨scope, name, args⟩ := by
  have hempty : ¬ name.isEmpty = true := by simpa using h
  rw [named, if_neg hempty]

theorem settled_foreign {e : TypeExpr} (he : e.isForeign = true)
    (h : e.expand = .error (.unsupported e.kind)) (hparts : e.parts = []) : e.Settled := by
  rw [Settled, h]
  refine .error ⟨.foreign he, fun q u hq => ?_⟩
  cases hq with
  | foreign _ => exact .inl rfl
  | inside hpart _ =>
      rw [hparts] at hpart
      cases hpart

theorem settled_leaf {e : TypeExpr} (he : e.isForeign = false) (hparts : e.parts = [])
    {ts : List TypeRef} (h : e.expand = .ok ts) (hcount : ts.length = e.alternatives) :
    e.Settled := by
  rw [Settled, h]
  refine .ok (fun p u hp => ?_) hcount
  have hamong := (obstructed_iff he p u).2 hp
  rw [hparts] at hamong
  exact not_among_nil p u hamong

theorem settled_name {w : List Char} (h : IsName w) : Settled (.name (String.ofList w)) := by
  have hname := named_of_ne (respell_ne_empty h.divide_ne_empty) (divide (String.ofList w)).1 []
  have hexpand : expand (.name (String.ofList w)) =
      .ok [⟨(divide (String.ofList w)).1, respell (divide (String.ofList w)).2, []⟩] := by
    rw [expand, ofName]
    dsimp only
    rw [hname]
    rfl
  exact settled_leaf rfl rfl hexpand rfl

/-- An expression with one part is obstructed where its part is. -/
theorem settles_part {e part : TypeExpr} (he : e.isForeign = false) (hgeneric : e.isGeneric = false)
    (hparts : e.parts = [part]) (h : part.Settled) :
    Settles e.Obstructed (fun ts => ts.length = part.alternatives) part.expand := by
  have hamong : Settles (ObstructedAmong false [part]) (fun ts => ts.length = part.alternatives)
      (part.expand >>= pure) := .cons h fun ts hts => .ok not_among_nil hts
  rw [bind_pure] at hamong
  refine hamong.congr fun p u => ?_
  rw [← obstructed_iff he, hgeneric, hparts]

/-- An expression that expands as its one part does. -/
theorem settled_wrapper {e part : TypeExpr} (h : part.Settled) (hparts : e.parts = [part])
    (hexpand : e.expand = part.expand) (hcount : e.alternatives = part.alternatives)
    (he : e.isForeign = false) (hgeneric : e.isGeneric = false) : e.Settled := by
  rw [Settled, hexpand, hcount]
  exact settles_part he hgeneric hparts h

theorem settled_nullable {e : TypeExpr} (h : e.Settled) (before : Bool) :
    Settled (.nullable e before) := by
  have hpart := settles_part (e := .nullable e before) rfl rfl rfl h
  rw [Settled, expand]
  refine hpart.bind_ok fun ts hts => ⟨_, rfl, ?_⟩
  rw [List.length_append, hts, alternatives]
  rfl

theorem settles_expandEach {es : List TypeExpr} (h : ∀ e ∈ es, e.Settled) :
    Settles (ObstructedAmong false es) (fun ts => ts.length = alternativesOfAll es)
      (expandEach es) := by
  induction es with
  | nil => exact .ok not_among_nil rfl
  | cons e es ih =>
      obtain ⟨he, hes⟩ := List.forall_mem_cons.1 h
      rw [expandEach]
      refine .cons he fun first hfirst => (ih hes).bind_ok fun others hothers => ⟨_, rfl, ?_⟩
      rw [List.length_append, hfirst, hothers, alternativesOfAll]

theorem settled_union {es : List TypeExpr} (h : ∀ e ∈ es, e.Settled) : Settled (.union es) := by
  rw [Settled, expand, alternatives]
  exact (settles_expandEach h).congr fun p u => obstructed_iff (e := .union es) rfl p u

/-- The one alternative of an argument. -/
def single (e : TypeExpr) : Except Fault TypeRef := do
  match ← e.expand with
  | [r] => return r
  | _ => throw (.unsupported e.kind)

theorem expandArgs_cons (e : TypeExpr) (es : List TypeExpr) :
    expandArgs (e :: es) = e.single >>= fun r => expandArgs es >>= fun rs => pure (r :: rs) := by
  rw [expandArgs, single, bind_assoc]
  congr 1
  funext ts
  match ts with
  | [] => rfl
  | [_] => rfl
  | _ :: _ :: _ => rfl

/-- An argument that expands is refused itself when it has not exactly one alternative. -/
theorem settles_single {e : TypeExpr} (h : e.Settled) :
    Settles (Obstructs true e) (fun _ => True) e.single := by
  rw [single]
  generalize hx : e.expand = x
  rw [Settled, hx] at h
  cases h with
  | error hfirst =>
      refine .error ⟨obstructs_argument_iff.2 (.inl hfirst.here), fun q u hq => ?_⟩
      rcases obstructs_argument_iff.1 hq with hinner | ⟨rfl, -, -⟩
      · exact hfirst.least q u hinner
      · -- The argument stands around what is inside it, so its own refusal comes last.
        rename_i p _
        cases p with
        | nil => exact .inl rfl
        | cons i p => exact .inr (.inside i p)
  | @ok ts hclear hcount =>
      change Settles _ _ (match ts with | [r] => pure r | _ => throw (.unsupported e.kind))
      split
      · refine .ok (fun p u hp => ?_) trivial
        rcases obstructs_argument_iff.1 hp with hinner | ⟨-, -, hne⟩
        · exact hclear p u hinner
        · exact hne hcount.symm
      · rename_i hts
        have hne : e.alternatives ≠ 1 := by
          intro hone
          obtain ⟨r, hr⟩ := List.length_eq_one_iff.1 (hcount.trans hone)
          exact hts r hr
        refine .error ⟨.notSingle hne, fun q u hq => ?_⟩
        rcases obstructs_argument_iff.1 hq with hinner | ⟨rfl, -, -⟩
        · exact absurd hinner (hclear q u)
        · exact .inl rfl

theorem settles_expandArgs {es : List TypeExpr} (h : ∀ e ∈ es, e.Settled) :
    Settles (ObstructedAmong true es) (fun _ => True) (expandArgs es) := by
  induction es with
  | nil => exact .ok not_among_nil trivial
  | cons e es ih =>
      obtain ⟨he, hes⟩ := List.forall_mem_cons.1 h
      rw [expandArgs_cons]
      exact .cons (settles_single he) fun r _ => (ih hes).bind_ok fun rs _ => ⟨_, rfl, trivial⟩

theorem settled_apply {n : String} {es : List TypeExpr} (hn : (divide n).2 ≠ "")
    (h : ∀ e ∈ es, e.Settled) : Settled (.apply (.name n) es) := by
  have hargs := (settles_expandArgs h).congr fun p u =>
    obstructed_iff (e := .apply (.name n) es) rfl p u
  rw [Settled, expand]
  refine hargs.bind_ok fun refs _ => ?_
  have hname : (if (divide n).1 = none ∧ (divide n).2 = "Object" ∧ refs.length = 2 then "Record"
      else (divide n).2) ≠ "" := by
    split
    · decide
    · exact hn
  have happlied : applied (divide n).1 (divide n).2 refs = _ := named_of_ne hname _ refs
  dsimp only
  rw [happlied]
  exact ⟨_, rfl, rfl⟩

/-! ### Expressions that were read -/

/-- What the rule derives are types, and not fields of a record. -/
def Rule.derivesTypes : Rule → Bool
  | .fields => false
  | .field => false
  | _ => true

/-- Every type that a derivation builds expands or is refused for its first obstacle. -/
theorem Derives.settled {r : Rule} {cs : List Char} {es : List TypeExpr} {rest : List Char}
    (h : Derives r cs es rest) (hr : r.derivesTypes = true) : ∀ e ∈ es, e.Settled := by
  induction h with
  | variadic _ _ ih | optional _ _ ih | nonNullableBefore _ _ ih | nonNullableAfter _ _ ih =>
      have hpart := List.forall_mem_singleton.1 (ih rfl)
      exact List.forall_mem_singleton.2 (settled_wrapper hpart rfl rfl rfl rfl rfl)
  | variadicAll _ | all _ => exact List.forall_mem_singleton.2 (settled_leaf rfl rfl rfl rfl)
  | several _ _ _ ih ihs =>
      exact List.forall_mem_singleton.2 (settled_union
        (List.forall_mem_cons.2 ⟨List.forall_mem_singleton.1 (ih rfl), ihs rfl⟩))
  | moreOthers _ _ _ ihs ih => exact List.forall_mem_append.2 ⟨ihs rfl, ih rfl⟩
  | nullableBefore _ _ ih | nullableAfter _ _ ih =>
      exact List.forall_mem_singleton.2
        (settled_nullable (List.forall_mem_singleton.1 (ih rfl)) _)
  | array _ _ _ ih => exact List.forall_mem_singleton.2 (settled_apply (by decide) (ih rfl))
  | name h => exact List.forall_mem_singleton.2 (settled_name h.isName)
  | dottedApply h _ _ _ ih | apply h _ _ _ ih =>
      exact List.forall_mem_singleton.2 (settled_apply h.isName.divide_ne_empty (ih rfl))
  | unknown _ | emptyRecord _ _ | record _ _ _ _ | function _ _ _ _ _ _ _ =>
      exact List.forall_mem_singleton.2 (settled_foreign rfl rfl rfl)
  | moreArguments _ _ _ ih ihs | moreTops _ _ _ ih ihs =>
      exact List.forall_mem_cons.2 ⟨List.forall_mem_singleton.1 (ih rfl), ihs rfl⟩
  | noParams | untyped => exact List.forall_mem_nil _
  | oneField _ _ | moreFields _ _ _ _ _ | field _ _ _ => cases hr
  | required _ ih | single _ ih | oneOther _ ih | unmarked _ ih | unsuffixed _ ih
  | group _ _ _ ih | oneArgument _ ih | params _ ih | oneTop _ ih | typed _ _ ih =>
      exact ih rfl

theorem Denotes.settled {cs : List Char} {e : TypeExpr} (h : Denotes cs e) : e.Settled := by
  obtain ⟨rest, hderives, -⟩ := h
  exact hderives.settled rfl e (List.mem_singleton_self e)

/-- Take a text that the grammar accepts, and the expression of any of its derivations, the one that
is read among them.  It expands exactly when nothing in it obstructs the expansion.  Then there is
an alternative, there are as many as the expression has, and all have names, as have their
arguments.  The only fault is that something has no counterpart, and it names the kind of the first
obstacle, from left to right and from the inside out. -/
theorem expands_unless_obstructed (s : String) (e : TypeExpr)
    (h : Denotes (trimEnds isBlank s.toList) e) :
    ((∃ ts, e.expand = .ok ts) ↔ ∀ p u, ¬ e.Obstructed p u) ∧
      (∀ ts, e.expand = .ok ts → ts ≠ [] ∧ ts.length = e.alternatives ∧ ∀ t ∈ ts, t.Named) ∧
      ∀ f, e.expand = .error f ↔ ∃ p u, First e.Obstructed p u ∧ f = .unsupported u.kind := by
  have hsettled := h.settled
  have hexpands := h.expands
  rw [Settled] at hsettled
  rw [Expands] at hexpands
  generalize e.expand = x at hsettled hexpands ⊢
  cases hsettled with
  | @ok ts hclear hcount =>
      refine ⟨⟨fun _ => hclear, fun _ => ⟨ts, rfl⟩⟩, ?_, fun f => ⟨?_, ?_⟩⟩
      · rintro _ ⟨⟩
        cases hexpands with
        | ok halternatives => exact ⟨halternatives.ne_nil, hcount, halternatives.named⟩
      · rintro ⟨⟩
      · rintro ⟨p, u, hfirst, -⟩
        exact absurd hfirst.here (hclear p u)
  | @error p u hfirst =>
      refine ⟨⟨?_, fun hclear => absurd hfirst.here (hclear p u)⟩, ?_, fun f => ⟨?_, ?_⟩⟩
      · rintro ⟨_, ⟨⟩⟩
      · rintro _ ⟨⟩
      · rintro ⟨⟩
        exact ⟨p, u, hfirst, rfl⟩
      · rintro ⟨q, v, hfirst', rfl⟩
        obtain rfl := hfirst.unique hfirst'
        rw [hfirst.here.unique hfirst'.here]

/-- Two marks are a marked mark, whichever of them is the operand. -/
theorem denotes_doubleMark (before : Bool) :
    Denotes (trimEnds isBlank "??".toList) (.nullable .unknown before) := by
  have hfirst : Token ['?'] ['?', '?'] ['?'] := ⟨[], List.forall_mem_nil _, rfl⟩
  have hsecond : Token ['?'] ['?'] [] := ⟨[], List.forall_mem_nil _, rfl⟩
  refine ⟨[], ?_, List.forall_mem_nil _⟩
  cases before with
  | true => exact .required (.single (.nullableBefore hfirst (.unsuffixed (.unknown hsecond))))
  | false => exact .required (.single (.nullableAfter (.unsuffixed (.unknown hfirst)) hsecond))

theorem nextIn_followers_bar (cs : List Char) : NextIn followers ('|' :: cs) := by
  simp [NextIn, skipGap_cons (c := '|') rfl, followers]

theorem parse?_nullableName :
    parse? "a|?b" = some (.union [.name "a", .nullable (.name "b") true]) := by
  have htext : trimEnds isBlank "a|?b".toList = ['a', '|', '?', 'b'] := by decide +kernel
  have ha : NameToken ['a'] ['a', '|', '?', 'b'] ['|', '?', 'b'] := nameToken_iff.2 rfl
  have hbar : Token ['|'] ['|', '?', 'b'] ['?', 'b'] := ⟨[], List.forall_mem_nil _, rfl⟩
  have hquery : Token ['?'] ['?', 'b'] ['b'] := ⟨[], List.forall_mem_nil _, rfl⟩
  have hb : NameToken ['b'] ['b'] [] := nameToken_iff.2 rfl
  have hscans := (scans_name ha (nextIn_followers_bar _)).append ((scans_bar hbar).append
    ((scans_query hquery).append (scans_name hb (nextIn_of_forall_isGap (List.forall_mem_nil _)))))
  have hwhole : resolveOperand ([.atom (.name "a")] ++ .bar :: [.query, .atom (.name "b")]) =
      none := by
    simp [resolveOperand, resolveMarkedBefore, resolveMarkedAfter, resolveSuffixed, resolvePrimary]
  exact parse?_of_scans (htext ▸ hscans) (resolveUnion_append (by simp) hwhole
    (resolveOperand_atom _) (resolveOthers_of_operand (resolveOperand_query_atom _)))

theorem parse?_nullableFunction : parse? "Map<?function()|c, \x7b\x7d>" = some (.apply (.name "Map")
    [.union [.nullable (.function [] none) true, .name "c"], .record []]) := by
  let others := ['|', 'c', ',', ' ', '{', '}', '>']
  let union := '?' :: 'f' :: 'u' :: 'n' :: 'c' :: 't' :: 'i' :: 'o' :: 'n' :: '(' :: ')' :: others
  let whole := 'M' :: 'a' :: 'p' :: '<' :: union
  have htext : trimEnds isBlank "Map<?function()|c, \x7b\x7d>".toList = whole := by decide +kernel
  have hmap : NameToken ['M', 'a', 'p'] whole ('<' :: union) := nameToken_iff.2 rfl
  have hopen : Token ['<'] ('<' :: union) union := ⟨[], List.forall_mem_nil _, rfl⟩
  have hquery : Token ['?'] union union.tail := ⟨[], List.forall_mem_nil _, rfl⟩
  have hword : Token "function".toList union.tail ('(' :: ')' :: others) :=
    ⟨[], List.forall_mem_nil _, by decide +kernel⟩
  have hparams : Token ['('] ('(' :: ')' :: others) (')' :: others) :=
    ⟨[], List.forall_mem_nil _, rfl⟩
  have hbar : Token ['|'] others others.tail := ⟨[], List.forall_mem_nil _, rfl⟩
  have hc : NameToken ['c'] others.tail (others.drop 2) := nameToken_iff.2 rfl
  have hfunction : Scans union.tail [.atom (.function [] none)] others := by
    refine scans_function hword hparams (fun n hn => ?_) (nextIn_followers_bar _) (by decide)
    obtain ⟨k, rfl⟩ : ∃ k, n = k + 1 := ⟨n - 1, by omega⟩
    rfl
  have hfirst := (scans_query hquery).append (hfunction.append ((scans_bar hbar).append
    (scans_name hc (by simp [NextIn, skipGap_cons (c := ',') rfl, followers, closers, others]))))
  have hwhole : resolveOperand ([.query, .atom (.function [] none)] ++ .bar ::
      [.atom (.name "c")]) = none := by
    simp [resolveOperand, resolveMarkedBefore, resolveMarkedAfter, resolveSuffixed, resolvePrimary]
  have hunion := resolveUnion_append (by simp) hwhole (resolveOperand_query_atom _)
    (resolveOthers_of_operand (resolveOperand_atom _))
  have hcomma : Token [','] (others.drop 2) (others.drop 3) := ⟨[], List.forall_mem_nil _, rfl⟩
  have hbrace : Token ['{'] (others.drop 3) ['}', '>'] := ⟨[' '], by simp [isGap], rfl⟩
  have hclose : Token ['}'] ['}', '>'] ['>'] := ⟨[], List.forall_mem_nil _, rfl⟩
  have hend : Token ['>'] ['>'] [] := ⟨[], List.forall_mem_nil _, rfl⟩
  have hsecond := resolveUnion_of_operand (resolveOperand_atom (.record []))
  have hargs (n : Nat) (hn : union.length + 1 < n) : readArgs n union =
      some ([.union [.nullable (.function [] none) true, .name "c"], .record []], []) :=
    hfirst.readArgs_comma hunion hcomma (by decide)
      (fun m hm => (scans_emptyRecord hbrace hclose).readArgs_close hsecond hend hm) hn
  exact parse?_of_scans (htext ▸ scans_apply hmap hopen hargs (by decide))
    (resolveUnion_of_operand (resolveOperand_atom _))

/-- The function is the first obstacle of `Map<?function()|c, {}>`: the union around it has too many
alternatives but is further out, and the record is further to the right.  `a|?b` has three
alternatives.  The text `??` has two derivations, and both are obstructed by the mark that stands
alone. -/
theorem expands_unless_obstructed_nested :
    (∃ e, parse? "Map<?function()|c, \x7b\x7d>" = some e ∧
      ∃ p u, First e.Obstructed p u ∧ u.kind = "FunctionType") ∧
    (∃ e ts, parse? "a|?b" = some e ∧ e.expand = .ok ts ∧ ts.length = 3) ∧
    ∀ before, Denotes (trimEnds isBlank "??".toList) (.nullable .unknown before) ∧
      ∃ p u, First (Obstructed (.nullable .unknown before)) p u ∧ u.kind = "NullableLiteral" := by
  refine ⟨?_, ?_, fun before => ?_⟩
  · have hparse := parse?_nullableFunction
    obtain ⟨-, -, herror⟩ := expands_unless_obstructed _ _ (denotes_of_parse? hparse)
    obtain ⟨p, u, hfirst, hkind⟩ := (herror (.unsupported "FunctionType")).1 rfl
    exact ⟨_, hparse, p, u, hfirst, (Fault.unsupported.inj hkind).symm⟩
  · have hparse := parse?_nullableName
    obtain ⟨-, hok, -⟩ := expands_unless_obstructed _ _ (denotes_of_parse? hparse)
    have hexpand : expand (.union [.name "a", .nullable (.name "b") true]) =
        .ok [.plain "a", .plain "b", .plain "null"] := rfl
    exact ⟨_, _, hparse, hexpand, (hok _ hexpand).2.1⟩
  · have hdenotes := denotes_doubleMark before
    obtain ⟨-, -, herror⟩ := expands_unless_obstructed _ _ hdenotes
    obtain ⟨p, u, hfirst, hkind⟩ := (herror (.unsupported "NullableLiteral")).1 rfl
    exact ⟨hdenotes, p, u, hfirst, (Fault.unsupported.inj hkind).symm⟩

end Ambient.TypeExpr
