import Ambient.Doc.Comment
import Ambient.Proofs.Occurrence
import Ambient.Proofs.Table
import Ambient.Proofs.TypeExpr.Acceptance

/-!
# Documented types have names

A type expression that was read expands to at least one alternative, and every alternative has a
name, as have its arguments at every depth; where it does not expand, the reason is an expression
without a counterpart and not a missing name.  This rests on the grammar: a colon in a name is
followed by another part of the name, and a union has operands.  Tags and comments pass it on.
-/

namespace Ambient

namespace TypeRef

/-- The reference has a name, and so have its arguments at every depth. -/
def Named (t : TypeRef) : Prop :=
  ∀ u, t.Within u → u.name ≠ ""

/-- The alternatives of a type: there is one, and all have names. -/
structure Alternatives (ts : List TypeRef) : Prop where
  ne_nil : ts ≠ []
  named : ∀ t ∈ ts, t.Named

theorem named_mk {scope : Option String} {name : String} {args : List TypeRef} (hname : name ≠ "")
    (hargs : ∀ a ∈ args, a.Named) : Named ⟨scope, name, args⟩ :=
  forall_within_iff.2 ⟨hname, hargs⟩

theorem named_plain {name : String} (h : name ≠ "") : (plain name).Named :=
  named_mk h (List.forall_mem_nil _)

theorem named_any : any.Named :=
  named_plain (by decide)

theorem alternatives_singleton {t : TypeRef} (h : t.Named) : Alternatives [t] :=
  ⟨List.cons_ne_nil t [], List.forall_mem_singleton.2 h⟩

theorem alternatives_any : Alternatives [any] :=
  alternatives_singleton named_any

namespace Alternatives

variable {ts us : List TypeRef}

theorem append (ht : Alternatives ts) (hu : ∀ u ∈ us, u.Named) : Alternatives (ts ++ us) :=
  ⟨List.append_ne_nil_of_left_ne_nil ht.ne_nil us, List.forall_mem_append.2 ⟨ht.named, hu⟩⟩

end Alternatives

/-! ### Steps that want a name -/

variable {α β : Type} {P : α → Prop} {Q : β → Prop}

/-- The step gives something that satisfies `P`, or fails for another reason than a missing name. -/
inductive Supplies (P : α → Prop) : Except Fault α → Prop where
  | ok {a : α} (h : P a) : Supplies P (.ok a)
  | error {f : Fault} (h : f ≠ .emptyName) : Supplies P (.error f)

namespace Supplies

theorem pure {a : α} (h : P a) : Supplies P (pure a) :=
  .ok h

theorem unsupported (kind : String) : Supplies P (throw (.unsupported kind)) :=
  .error (by nofun)

theorem bind {x : Except Fault α} {f : α → Except Fault β} (hx : Supplies P x)
    (hf : ∀ a, P a → Supplies Q (f a)) : Supplies Q (x >>= f) := by
  cases hx with
  | ok ha => exact hf _ ha
  | error he => exact .error he

end Supplies

theorem supplies_named {scope : Option String} {name : String} {args : List TypeRef}
    (hname : name ≠ "") (hargs : ∀ a ∈ args, a.Named) :
    Supplies Named (named scope name args) := by
  have hempty : ¬ name.isEmpty = true := by simpa using hname
  rw [named, if_neg hempty]
  exact .ok (named_mk hname hargs)

theorem respell_ne_empty {name : String} (h : name ≠ "") : respell name ≠ "" := by
  rw [respell]
  split
  · decide
  · split
    · decide
    · exact h

end TypeRef

namespace TypeExpr

open Ambient.Text TypeRef

/-! ### The parts of a name -/

theorem ne_colon_of_isNameTail {c : Char} (h : isNameTail c = true) : c ≠ ':' := by
  rintro rfl
  revert h
  decide

/-- A colon is followed by another part of the name. -/
theorem Continues.ne_nil_of_cutFirst? {v : List Char} (h : Continues v) {a b : List Char}
    (hcut : cutFirst? (· == ':') v = some (a, b)) : b ≠ [] := by
  induction h generalizing a b with
  | nil => cases hcut
  | @tail c v hc _ ih =>
      have hcolon := ne_colon_of_isNameTail hc
      simp only [cutFirst?, beq_iff_eq, hcolon, if_false, Option.map_eq_some_iff] at hcut
      obtain ⟨ab, hab, heq⟩ := hcut
      cases heq
      exact ih hab
  | @joint c d v _ hd _ ih =>
      have hcolon := ne_colon_of_isNameTail (isNameTail_of_isNameHead hd)
      simp only [cutFirst?, beq_iff_eq, hcolon, if_false, Option.map_map] at hcut
      split at hcut
      · cases hcut
        exact List.cons_ne_nil d v
      · obtain ⟨ab, hab, heq⟩ := Option.map_eq_some_iff.1 hcut
        cases heq
        exact ih hab

/-- A name is never empty behind its namespace. -/
theorem IsName.divide_ne_empty {w : List Char} (h : IsName w) :
    (divide (String.ofList w)).2 ≠ "" := by
  obtain ⟨c, v, rfl, hc, hv⟩ := h.exists_continues
  have hne {cs : List Char} (hcs : cs ≠ []) : String.ofList cs ≠ "" := by
    intro hempty
    have := congrArg String.toList hempty
    rw [String.toList_ofList] at this
    exact hcs this
  rw [divide, splitFirst?, String.toList_ofList]
  cases hcut : cutFirst? (· == ':') (c :: v) with
  | none => exact hne (List.cons_ne_nil c v)
  | some ab =>
      have hcontinues : Continues (c :: v) := .tail (isNameTail_of_isNameHead hc) hv
      exact hne (hcontinues.ne_nil_of_cutFirst? hcut)

theorem NameToken.isName {w cs rest : List Char} (h : NameToken w cs rest) : IsName w := by
  obtain ⟨_, _, _, _, _, hname, _⟩ := h
  exact hname

/-! ### Expansion -/

/-- The expression expands to alternatives, or it has no counterpart. -/
def Expands (e : TypeExpr) : Prop :=
  Supplies Alternatives e.expand

theorem expands_name {w : List Char} (h : IsName w) : Expands (.name (String.ofList w)) := by
  rw [Expands, expand]
  refine .bind ?_ fun t ht => .pure (alternatives_singleton ht)
  exact supplies_named (respell_ne_empty h.divide_ne_empty) (List.forall_mem_nil _)

theorem expands_nullable {e : TypeExpr} (h : e.Expands) (before : Bool) :
    Expands (.nullable e before) := by
  rw [Expands, expand]
  refine .bind h fun ts hts => .pure (hts.append (List.forall_mem_singleton.2 ?_))
  exact named_plain (by decide)

theorem supplies_expandEach {es : List TypeExpr} (h : ∀ e ∈ es, Expands e) :
    Supplies (fun ts => ∀ t ∈ ts, t.Named) (expandEach es) := by
  induction es with
  | nil => exact .pure (List.forall_mem_nil _)
  | cons e es ih =>
      obtain ⟨he, hes⟩ := List.forall_mem_cons.1 h
      exact .bind he fun _ hfirst => .bind (ih hes) fun _ hothers =>
        .pure (hfirst.append hothers).named

theorem expands_union {e : TypeExpr} {es : List TypeExpr} (he : e.Expands)
    (hes : ∀ e ∈ es, Expands e) : Expands (.union (e :: es)) := by
  rw [Expands, expand, expandEach]
  exact .bind he fun _ hfirst => .bind (supplies_expandEach hes) fun _ hothers =>
    .pure (hfirst.append hothers)

theorem supplies_expandArgs {es : List TypeExpr} (h : ∀ e ∈ es, Expands e) :
    Supplies (fun ts => ∀ t ∈ ts, t.Named) (expandArgs es) := by
  induction es with
  | nil => exact .pure (List.forall_mem_nil _)
  | cons e es ih =>
      obtain ⟨he, hes⟩ := List.forall_mem_cons.1 h
      refine .bind he fun ts hts => ?_
      split
      · exact .bind (ih hes) fun _ hothers =>
          .pure (List.forall_mem_cons.2 ⟨hts.named _ (List.mem_singleton_self _), hothers⟩)
      · exact .unsupported _

theorem supplies_applied {scope : Option String} {name : String} {args : List TypeRef}
    (hname : name ≠ "") (hargs : ∀ a ∈ args, a.Named) :
    Supplies Named (applied scope name args) := by
  refine supplies_named ?_ hargs
  split
  · decide
  · exact hname

theorem expands_apply {n : String} {es : List TypeExpr} (hn : (divide n).2 ≠ "")
    (h : ∀ e ∈ es, Expands e) : Expands (.apply (.name n) es) := by
  rw [Expands, expand]
  exact .bind (supplies_expandArgs h) fun refs hrefs => .bind (supplies_applied hn hrefs)
    fun t ht => .pure (alternatives_singleton ht)

/-- Every expression that a derivation builds expands to alternatives or has no counterpart. -/
theorem Derives.expands {r : Rule} {cs : List Char} {es : List TypeExpr} {rest : List Char}
    (h : Derives r cs es rest) : ∀ e ∈ es, Expands e := by
  induction h with
  | variadic _ _ ih | optional _ _ ih | nonNullableBefore _ _ ih | nonNullableAfter _ _ ih =>
      have hoperand := List.forall_mem_singleton.1 ih
      exact List.forall_mem_singleton.2 hoperand
  | variadicAll _ | all _ => exact List.forall_mem_singleton.2 (Supplies.ok alternatives_any)
  | several _ _ _ ih ihs =>
      exact List.forall_mem_singleton.2 (expands_union (List.forall_mem_singleton.1 ih) ihs)
  | moreOthers _ _ _ ihs ih => exact List.forall_mem_append.2 ⟨ihs, ih⟩
  | nullableBefore _ _ ih | nullableAfter _ _ ih =>
      exact List.forall_mem_singleton.2 (expands_nullable (List.forall_mem_singleton.1 ih) _)
  | array _ _ _ ih => exact List.forall_mem_singleton.2 (expands_apply (by decide) ih)
  | name h => exact List.forall_mem_singleton.2 (expands_name h.isName)
  | dottedApply h _ _ _ ih | apply h _ _ _ ih =>
      exact List.forall_mem_singleton.2 (expands_apply h.isName.divide_ne_empty ih)
  | unknown _ | emptyRecord _ _ | record _ _ _ _ | function _ _ _ _ _ _ _ | field _ _ _ =>
      exact List.forall_mem_singleton.2 (Supplies.unsupported _)
  | moreArguments _ _ _ ih ihs | moreFields _ _ _ ih ihs | moreTops _ _ _ ih ihs =>
      exact List.forall_mem_cons.2 ⟨List.forall_mem_singleton.1 ih, ihs⟩
  | noParams | untyped => exact List.forall_mem_nil _
  | required _ ih | single _ ih | oneOther _ ih | unmarked _ ih | unsuffixed _ ih
  | group _ _ _ ih | oneArgument _ ih | oneField _ ih | params _ ih | oneTop _ ih | typed _ _ ih =>
      exact ih

theorem Denotes.expands {cs : List Char} {e : TypeExpr} (h : Denotes cs e) : e.Expands := by
  obtain ⟨rest, hderives, -⟩ := h
  exact hderives.expands e (List.mem_singleton_self e)

end TypeExpr

namespace Doc

open Ambient.Text

/-! ### Tags and comments -/

/-- The name of the tag is not empty, and its type is what its written type denotes, and expands or
has no counterpart. -/
structure Tag.Sound (t : Tag) : Prop where
  name : t.name ≠ some ""
  written : t.type = t.rawType.bind TypeExpr.parse?
  type : ∀ e, t.type = some e → e.Expands

theorem nonEmpty?_ne (s : String) : nonEmpty? s ≠ some "" := by
  rw [nonEmpty?]
  split
  · nofun
  · rename_i h
    rintro heq
    cases heq
    exact h rfl

theorem name_readNameOf_ne (title : String) (cs : List Char) :
    (readNameOf title cs).name ≠ some "" := by
  have hword (cs : List Char) : (readWord cs).name ≠ some "" := nonEmpty?_ne _
  rw [readNameOf]
  split
  · unfold readName
    dsimp only
    split
    · split
      · rw [readOptional]
        split
        · exact nonEmpty?_ne _
        · exact nonEmpty?_ne _
      · exact hword _
    · exact hword _
  · split
    · exact nonEmpty?_ne _
    · nofun

theorem Tag.sound_read? {chunk : List Char} {t : Tag} (h : Tag.read? chunk = some t) :
    t.Sound := by
  obtain ⟨⟨word, rest⟩, -, rfl⟩ := Option.map_eq_some_iff.1 h
  refine ⟨name_readNameOf_ne _ _, rfl, fun e he => ?_⟩
  obtain ⟨raw, -, hparse⟩ := Option.bind_eq_some_iff.1 he
  exact (TypeExpr.denotes_of_parse? hparse).expands

/-- All that is written in a tag. -/
def Tag.written (t : Tag) : List (Option String) × Bool :=
  ([some t.title, t.name, t.description, t.rawType, t.default], t.optional)

theorem Tag.eq_of_written {t u : Tag} (ht : t.type = t.rawType.bind TypeExpr.parse?)
    (hu : u.type = u.rawType.bind TypeExpr.parse?) (h : t.written = u.written) : t = u := by
  cases t
  cases u
  simp_all [Tag.written]

namespace Comment

/-- All tags of the comment are sound. -/
def Sound (doc : Comment) : Prop :=
  ∀ t ∈ doc.tags, t.Sound

theorem tags_describe (doc : Comment) (text : String) : (doc.describe text).tags = doc.tags := by
  rw [describe]
  split
  · rfl
  · split <;> rfl

theorem Sound.addChunk {doc : Comment} (h : doc.Sound) (chunk : List (List Char)) :
    (doc.addChunk chunk).Sound := by
  unfold Comment.addChunk
  dsimp only
  split
  · rw [Sound, tags_describe]
    exact h
  · rename_i tag htag
    split
    · rw [Sound, tags_describe]
      exact h
    · exact List.forall_mem_append.2 ⟨h, List.forall_mem_singleton.2 (Tag.sound_read? htag)⟩

/-- The tags of a comment that was read are sound. -/
theorem sound_read (raw : String) : (read raw).Sound := by
  have hfold (chunks : List (List (List Char))) (doc : Comment) (h : doc.Sound) :
      (chunks.foldl addChunk doc).Sound := by
    induction chunks generalizing doc with
    | nil => exact h
    | cons chunk chunks ih => exact ih _ (h.addChunk chunk)
  exact hfold _ {} (List.forall_mem_nil _)

/-- What is written in a tag decides what it is. -/
theorem tags_read {raw : String} {tags : List Tag} (htypes : ∀ t ∈ tags,
      t.type = t.rawType.bind TypeExpr.parse?)
    (h : (read raw).tags.map Tag.written = tags.map Tag.written) : (read raw).tags = tags := by
  have hread : ∀ t ∈ (read raw).tags, t.type = t.rawType.bind TypeExpr.parse? :=
    fun t ht => (sound_read raw t ht).written
  generalize (read raw).tags = found at h hread
  induction found generalizing tags with
  | nil => simpa using h
  | cons t found ih =>
      cases tags with
      | nil => cases h
      | cons u tags =>
          obtain ⟨htu, hrest⟩ := List.cons.inj h
          obtain ⟨ht, hfound⟩ := List.forall_mem_cons.1 hread
          obtain ⟨hu, htags⟩ := List.forall_mem_cons.1 htypes
          rw [Tag.eq_of_written ht hu htu, ih htags hrest hfound]

theorem read_eq {raw : String} {doc : Comment} (h : (read raw).description = doc.description)
    (htypes : ∀ t ∈ doc.tags, t.type = t.rawType.bind TypeExpr.parse?)
    (htags : (read raw).tags.map Tag.written = doc.tags.map Tag.written) : read raw = doc := by
  have hread := tags_read htypes htags
  generalize read raw = found at h hread
  cases found
  cases doc
  cases h
  cases hread
  rfl

namespace Sound

variable {doc : Comment} (h : doc.Sound)

include h

theorem expands_first? {title : String} {e : TypeExpr}
    (he : (doc.first? title).bind (·.type) = some e) : e.Expands := by
  obtain ⟨t, ht, hte⟩ := Option.bind_eq_some_iff.1 he
  exact (h t (List.mem_of_find?_eq_some ht)).type e hte

theorem find (title : String) : ∀ t ∈ doc.find title, t.Sound :=
  fun t ht => h t (List.mem_filter.1 ht).1

theorem params {name : String} {t : Tag} (ht : doc.params.get? name = some t) : t.Sound := by
  rcases Table.mem_or_mem_of_mem_setAll (Table.mem_of_get? ht) with hnil | hentry
  · cases hnil
  · obtain ⟨tag, htag, hname⟩ := List.mem_filterMap.1 hentry
    obtain ⟨n, -, heq⟩ := Option.map_eq_some_iff.1 hname
    cases heq
    exact h.find "param" t htag

end Sound

end Comment

end Doc

end Ambient
