import Ambient.Render.Type
import Ambient.Proofs.Occurrence
import Ambient.Proofs.Text.Trim
import Ambient.Proofs.TypeExpr.Acceptance

/-!
# Printed types are read back

A printed type is one piece of a stretch: its name, and in angle brackets its arguments, each of
them a stretch of one piece again.  Several printed types are pieces with bars between them, and
such a stretch has one derivation only.  So the reader finds the expression that was printed, and
its expansion gives the types back.
-/

namespace Ambient

/-- The reference has a spelling that is read as this reference: its name is a name of the type
grammar that no rule of the expansion rewrites. -/
structure TypeRef.Legible (t : TypeRef) : Prop where
  scope : t.scope = none
  name : TypeExpr.IsName t.name.toList
  colon : ':' ∉ t.name.toList
  /-- A bare `Array` is spelt `any[]`. -/
  array : ¬ (t.name = "Array" ∧ t.args = [])
  /-- An `Object` of keys and values is spelt `Record`. -/
  object : ¬ (t.name = "Object" ∧ t.args.length = 2)

namespace TypeExpr

open Ambient.Text

/-! ### Operands with bars between them -/

/-- Finished expressions with bars between them. -/
def barred (e : TypeExpr) (es : List TypeExpr) : List Piece :=
  .atom e :: es.flatMap fun e => [.bar, .atom e]

/-- The finished expressions of a stretch. -/
def atoms (ps : List Piece) : List TypeExpr :=
  ps.filterMap fun
    | .atom e => some e
    | _ => none

/-- Nothing but finished expressions and bars. -/
def Barred (ps : List Piece) : Prop :=
  ∀ p ∈ ps, p = .bar ∨ ∃ e, p = .atom e

/-- What a derivation of finished expressions and bars comes to. -/
def Plainly : Rule → List Piece → List TypeExpr → Prop
  | .union, ps, es =>
    (∃ e, ps = [.atom e] ∧ es = [e]) ∨ (.bar ∈ ps ∧ es = [.union (atoms ps)])
  | .others, ps, es => es = atoms ps
  | _, ps, es => ∃ e, ps = [.atom e] ∧ es = [e]

theorem atoms_append (ps qs : List Piece) : atoms (ps ++ .bar :: qs) = atoms ps ++ atoms qs := by
  simp [atoms]

@[simp]
theorem atoms_barred (e : TypeExpr) (es : List TypeExpr) : atoms (barred e es) = e :: es := by
  induction es generalizing e with
  | nil => rfl
  | cons f es ih => exact congrArg (e :: ·) (ih f)

theorem barred_barred (e : TypeExpr) (es : List TypeExpr) : Barred (barred e es) := by
  intro p hp
  simp only [barred, List.mem_cons, List.mem_flatMap, List.not_mem_nil, or_false] at hp
  rcases hp with rfl | ⟨f, -, rfl | rfl⟩
  · exact .inr ⟨e, rfl⟩
  · exact .inl rfl
  · exact .inr ⟨f, rfl⟩

theorem Barred.of_append {ps qs : List Piece} (h : Barred (ps ++ .bar :: qs)) :
    Barred ps ∧ Barred qs := by
  refine ⟨fun p hp => h p ?_, fun p hp => h p ?_⟩
  · simp [hp]
  · simp [hp]

/-- Finished expressions and bars have one derivation. -/
theorem plainly_of_fits {r : Rule} {ps : List Piece} {es : List TypeExpr} (h : Fits r ps es)
    (hps : Barred ps) : Plainly r ps es := by
  induction h with
  | single _ ih => exact .inl (ih hps)
  | several _ _ ih ihs =>
      obtain ⟨hleft, hright⟩ := hps.of_append
      obtain ⟨e, rfl, hes⟩ := ih hleft
      cases hes
      rw [Plainly, atoms_append, ihs hright]
      exact .inr ⟨by simp, rfl⟩
  | oneOther _ ih =>
      obtain ⟨e, rfl, hes⟩ := ih hps
      exact hes
  | moreOthers _ _ ihs ih =>
      obtain ⟨hleft, hright⟩ := hps.of_append
      obtain ⟨e, rfl, hes⟩ := ih hright
      cases hes
      rw [Plainly, atoms_append, ihs hleft]
      rfl
  | unmarked _ ih => exact ih hps
  | unsuffixed _ ih => exact ih hps
  | atom e => exact ⟨e, rfl, rfl⟩
  -- The other rules need a mark, an array suffix or a function.
  | nullableBefore | nullableAfter | unknown => simpa using hps .query (by simp)
  | nonNullableBefore | nonNullableAfter => simpa using hps .bang (by simp)
  | array => simpa using hps .array (by simp)
  | arrow params => simpa using hps (.arrow params) (by simp)

theorem fits_atom (e : TypeExpr) : Fits .operand [.atom e] [e] :=
  .unmarked (.unsuffixed (.atom e))

theorem fits_others_append {ps : List Piece} {fs : List TypeExpr} (h : Fits .others ps fs)
    (es : List TypeExpr) : Fits .others (ps ++ es.flatMap fun e => [.bar, .atom e]) (fs ++ es) := by
  induction es generalizing ps fs with
  | nil => simpa using h
  | cons e es ih => simpa using ih (.moreOthers h (fits_atom e))

/-- One expression, or the union of several. -/
def united (e : TypeExpr) : List TypeExpr → TypeExpr
  | [] => e
  | es => union (e :: es)

theorem fits_barred (e : TypeExpr) (es : List TypeExpr) :
    Fits .union (barred e es) [united e es] := by
  cases es with
  | nil => exact .single (fits_atom e)
  | cons f es => exact .several (fits_atom e) (fits_others_append (.oneOther (fits_atom f)) es)

theorem resolveUnion_barred (e : TypeExpr) (es : List TypeExpr) :
    resolveUnion (barred e es) = some (united e es) := by
  obtain ⟨e', he'⟩ := resolved_of_fits (fits_barred e es)
  rw [he']
  have hplain := plainly_of_fits (fits_resolveUnion he') (barred_barred e es)
  cases es with
  | nil =>
      rcases hplain with ⟨f, hf, hes⟩ | ⟨hbar, -⟩
      · cases hf
        cases hes
        rfl
      · simp [barred] at hbar
  | cons f es =>
      rcases hplain with ⟨g, hg, -⟩ | ⟨-, hes⟩
      · cases hg
      · rw [atoms_barred] at hes
        cases hes
        rfl

theorem expand_united (e : TypeExpr) (es : List TypeExpr) :
    (united e es).expand = expandEach (e :: es) := by
  cases es with
  | nil =>
      simp only [united, expandEach]
      cases e.expand with
      | error f => rfl
      | ok ts => simp [bind, Except.bind, pure, Except.pure]
  | cons f es => rw [united, expand]; simp

/-! ### Printed types -/

/-- Neither a name nor an application goes on here. -/
structure Ends (rest : List Char) : Prop where
  name : nameRest rest = ([], rest)
  next : NextIn followers rest

theorem ends_nil : Ends [] :=
  ⟨rfl, by simp [NextIn, skipGap]⟩

theorem ends_close (rest : List Char) : Ends ('>' :: rest) :=
  ⟨rfl, by simp [NextIn, skipGap_cons (c := '>') rfl, followers, closers]⟩

theorem ends_comma (rest : List Char) : Ends (',' :: rest) :=
  ⟨rfl, by simp [NextIn, skipGap_cons (c := ',') rfl, followers, closers]⟩

theorem ends_bar (rest : List Char) : Ends (' ' :: '|' :: rest) := by
  refine ⟨rfl, ?_⟩
  have hskip : skipGap (' ' :: '|' :: rest) = '|' :: rest := rfl
  simp [NextIn, hskip, followers]

theorem nameToken_append {w rest : List Char} (hw : IsName w) (hrest : nameRest rest = ([], rest)) :
    NameToken w (w ++ rest) rest := by
  obtain ⟨c, v, rfl, hc, hv⟩ := hw.exists_continues
  rw [nameToken_iff, List.cons_append, skipGap_cons (isGap_of_isNameHead hc), readName, if_pos hc,
    nameRest_append hv, hrest]
  simp

/-- The text is read as one piece, and this piece stands for the reference. -/
def Spells (cs : List Char) (t : TypeRef) : Prop :=
  ∃ e, e.expand = .ok [t] ∧ ∀ rest, Ends rest → Scans (cs ++ rest) [.atom e] rest

theorem readArgs_skipGap (n : Nat) (cs : List Char) : readArgs n (skipGap cs) = readArgs n cs := by
  cases n with
  | zero => rfl
  | succ n => rw [readArgs, readArgs, readPieces_skipGap]

theorem Scans.gap {c : Char} {cs rest : List Char} {ps : List Piece} (h : Scans cs ps rest)
    (hc : isGap c = true) : Scans (c :: cs) ps rest := by
  intro n hn
  have hgap : ∀ x ∈ [c], isGap x = true := by simpa using hc
  have hskip : skipGap (c :: cs) = skipGap cs := skipGap_append hgap cs
  obtain ⟨m, hm, hread⟩ := h n (Nat.lt_of_succ_lt hn)
  exact ⟨m, hm, by rw [← readPieces_skipGap, hskip, readPieces_skipGap, hread]⟩

/-- An argument in front of a comma or the closing bracket. -/
theorem readPieces_of_scans {cs rest : List Char} {c : Char} {e : TypeExpr}
    (h : Scans (cs ++ c :: rest) [.atom e] (c :: rest)) (hgap : isGap c = false)
    (hc : c ∈ closers) {n : Nat} (hn : (cs ++ c :: rest).length < n) :
    readPieces n (cs ++ c :: rest) = some (barred e [], c :: rest) := by
  have hskip := skipGap_cons hgap rest
  have hnext : NextIn closers (c :: rest) := by simpa [NextIn, hskip] using hc
  rw [h.readPieces_eq hnext hn, hskip]
  rfl

/-- The text of the arguments of a type. -/
def argumentText (ts : List TypeRef) : List Char :=
  (String.intercalate ", " (Render.typeList ts)).toList

theorem argumentText_cons_cons (t u : TypeRef) (ts : List TypeRef) :
    argumentText (t :: u :: ts) =
      (Render.type t).toList ++ ',' :: ' ' :: argumentText (u :: ts) := by
  simp [argumentText, Render.typeList, String.intercalate_cons_cons]

theorem exists_readArgs {t : TypeRef} {ts : List TypeRef}
    (h : ∀ u ∈ t :: ts, Spells (Render.type u).toList u) :
    ∃ es, expandArgs es = .ok (t :: ts) ∧ ∀ rest n,
      (argumentText (t :: ts) ++ '>' :: rest).length + 1 < n →
        readArgs n (argumentText (t :: ts) ++ '>' :: rest) = some (es, rest) := by
  induction ts generalizing t with
  | nil =>
      obtain ⟨e, he, hscans⟩ := h t (by simp)
      refine ⟨[e], by simp [expandArgs, he, bind, Except.bind, pure, Except.pure], ?_⟩
      intro rest n hn
      obtain ⟨k, rfl⟩ : ∃ k, n = k + 1 := ⟨n - 1, by omega⟩
      have htext : argumentText [t] = (Render.type t).toList := by
        simp [argumentText, Render.typeList]
      rw [htext] at hn ⊢
      rw [readArgs, readPieces_of_scans (hscans _ (ends_close rest)) rfl (by decide) (by omega)]
      simp only [resolveUnion_barred, united]
  | cons u ts ih =>
      obtain ⟨e, he, hscans⟩ := h t (by simp)
      obtain ⟨es, hes, hread⟩ := ih fun v hv => h v (List.mem_cons_of_mem _ hv)
      refine ⟨e :: es, ?_, ?_⟩
      · rw [expandArgs, he, hes]
        rfl
      · intro rest n hn
        obtain ⟨k, rfl⟩ : ∃ k, n = k + 1 := ⟨n - 1, by omega⟩
        rw [argumentText_cons_cons, List.append_assoc, List.cons_append] at hn ⊢
        rw [readArgs, readPieces_of_scans (hscans _ (ends_comma _)) rfl (by decide) (by omega)]
        simp only [resolveUnion_barred, united]
        -- The blank behind the comma does not count.
        have hrest : readArgs k (' ' :: (argumentText (u :: ts) ++ '>' :: rest)) = some (es, rest) := by
          rw [← readArgs_skipGap]
          have hskip : skipGap (' ' :: (argumentText (u :: ts) ++ '>' :: rest)) =
              skipGap (argumentText (u :: ts) ++ '>' :: rest) := rfl
          rw [hskip, readArgs_skipGap]
          refine hread rest k ?_
          simp only [List.length_append, List.length_cons] at hn ⊢
          omega
        rw [List.cons_append, hrest]
        rfl

/-! ### Legible references -/

theorem divide_of_not_mem {raw : String} (h : ':' ∉ raw.toList) :
    TypeRef.divide raw = (none, raw) := by
  have hcut : cutFirst? (· == ':') raw.toList = none :=
    cutFirst?_eq_none fun c hc => beq_eq_false_iff_ne.2 fun heq => h (heq ▸ hc)
  rw [TypeRef.divide, splitFirst?, hcut]
  rfl

theorem named_of_isName {name : String} (h : IsName name.toList) (args : List TypeRef) :
    TypeRef.named none name args = .ok ⟨none, name, args⟩ := by
  obtain ⟨c, v, heq, -⟩ := h.exists_continues
  rw [TypeRef.named, if_neg]
  intro hempty
  rw [String.isEmpty_iff.1 hempty] at heq
  cases heq

theorem respell_of_isName {name : String} (h : IsName name.toList) (harray : name ≠ "Array") :
    TypeRef.respell name = name := by
  have hstar : name ≠ "*" := by
    rintro rfl
    obtain ⟨c, v, heq, hc, -⟩ := h.exists_continues
    cases heq
    revert hc
    decide
  rw [TypeRef.respell, if_neg harray, if_neg hstar]

theorem expand_name {name : String} (h : TypeRef.Legible ⟨none, name, []⟩) :
    (TypeExpr.name name).expand = .ok [⟨none, name, []⟩] := by
  have harray : name ≠ "Array" := fun heq => h.array ⟨heq, rfl⟩
  rw [expand, TypeRef.ofName, divide_of_not_mem h.colon]
  simp only [respell_of_isName h.name harray, named_of_isName h.name]
  rfl

theorem expand_apply {name : String} {args : List TypeRef} {es : List TypeExpr}
    (h : TypeRef.Legible ⟨none, name, args⟩) (hes : expandArgs es = .ok args) :
    (TypeExpr.apply (.name name) es).expand = .ok [⟨none, name, args⟩] := by
  rw [expand, hes, divide_of_not_mem h.colon]
  simp only [applied, bind, Except.bind]
  rw [if_neg (by simpa using h.object), named_of_isName h.name]
  rfl

theorem spells_name {name : String} (h : TypeRef.Legible ⟨none, name, []⟩) :
    Spells name.toList ⟨none, name, []⟩ := by
  refine ⟨.name name, expand_name h, fun rest hrest => ?_⟩
  have hscans := scans_name (nameToken_append h.name hrest.name) hrest.next
  rwa [String.ofList_toList] at hscans

theorem spells_apply {name : String} {t : TypeRef} {ts : List TypeRef}
    (h : TypeRef.Legible ⟨none, name, t :: ts⟩)
    (hargs : ∀ u ∈ t :: ts, Spells (Render.type u).toList u) :
    Spells (name.toList ++ '<' :: (argumentText (t :: ts) ++ ['>'])) ⟨none, name, t :: ts⟩ := by
  obtain ⟨es, hes, hread⟩ := exists_readArgs hargs
  refine ⟨.apply (.name name) es, expand_apply h hes, fun rest _ => ?_⟩
  have htoken : NameToken name.toList
      (name.toList ++ '<' :: (argumentText (t :: ts) ++ '>' :: rest))
      ('<' :: (argumentText (t :: ts) ++ '>' :: rest)) := nameToken_append h.name rfl
  have hopen : Token ['<'] ('<' :: (argumentText (t :: ts) ++ '>' :: rest))
      (argumentText (t :: ts) ++ '>' :: rest) := ⟨[], by simp, rfl⟩
  have hscans := scans_apply htoken hopen (hread rest) (by simp; omega)
  rw [String.ofList_toList] at hscans
  simpa using hscans

theorem Continues.isBlank_eq_false {v : List Char} (h : Continues v) :
    ∀ x ∈ v, isBlank x = false := by
  have hjoint : ∀ {c : Char}, isJoint c = true → isBlank c = false := by
    intro c hc
    simp only [isJoint, Bool.or_eq_true, beq_iff_eq] at hc
    rcases hc with ((((rfl | rfl) | rfl) | rfl) | rfl) | rfl <;> rfl
  induction h with
  | nil => simp
  | tail hc _ ih => exact List.forall_mem_cons.2 ⟨isBlank_of_isNameTail hc, ih⟩
  | joint hc hd _ ih =>
      have hhead := isBlank_of_isNameTail (isNameTail_of_isNameHead hd)
      exact List.forall_mem_cons.2 ⟨hjoint hc, List.forall_mem_cons.2 ⟨hhead, ih⟩⟩

theorem tight_name {w : List Char} (h : IsName w) : Tight isBlank w := by
  obtain ⟨c, v, rfl, hc, hv⟩ := h.exists_continues
  refine tight_of_forall (by simp) (List.forall_mem_cons.2 ⟨?_, hv.isBlank_eq_false⟩)
  exact isBlank_of_isNameTail (isNameTail_of_isNameHead hc)

/-- A legible type is printed as one piece that stands for it. -/
theorem spells_type (t : TypeRef) (h : ∀ u, t.Within u → u.Legible) :
    Spells (Render.type t).toList t ∧ Tight isBlank (Render.type t).toList := by
  induction t using TypeRef.induct with
  | mk scope name args ih =>
      obtain ⟨hlegible, hargs⟩ := TypeRef.forall_within_iff.1 h
      obtain rfl : scope = none := hlegible.scope
      cases args with
      | nil => exact ⟨spells_name hlegible, tight_name hlegible.name⟩
      | cons t ts =>
          have htext : (Render.type ⟨none, name, t :: ts⟩).toList =
              name.toList ++ ('<' :: argumentText (t :: ts) ++ ['>']) := by
            simp [Render.type, Render.scopedName, argumentText]
          rw [htext]
          refine ⟨spells_apply hlegible fun u hu => (ih u hu (hargs u hu)).1, ?_⟩
          exact (tight_name hlegible.name).append _ (Tight.singleton (by decide))

/-! ### Alternatives -/

/-- The text of several types. -/
def unionText (ts : List TypeRef) : List Char :=
  (String.intercalate " | " (Render.typeList ts)).toList

theorem unionText_cons_cons (t u : TypeRef) (ts : List TypeRef) :
    unionText (t :: u :: ts) =
      (Render.type t).toList ++ ([' ', '|', ' '] ++ unionText (u :: ts)) := by
  simp [unionText, Render.typeList, String.intercalate_cons_cons]

theorem unionText_singleton (t : TypeRef) : unionText [t] = (Render.type t).toList := by
  simp [unionText, Render.typeList]

theorem exists_scans {t : TypeRef} {ts : List TypeRef}
    (h : ∀ u ∈ t :: ts, Spells (Render.type u).toList u) :
    ∃ e es, expandEach (e :: es) = .ok (t :: ts) ∧
      Scans (unionText (t :: ts)) (barred e es) [] := by
  induction ts generalizing t with
  | nil =>
      obtain ⟨e, he, hscans⟩ := h t (by simp)
      refine ⟨e, [], by simp [expandEach, he, bind, Except.bind, pure, Except.pure], ?_⟩
      have hwhole := hscans [] ends_nil
      rw [List.append_nil] at hwhole
      rwa [unionText_singleton]
  | cons u ts ih =>
      obtain ⟨e, he, hscans⟩ := h t (by simp)
      obtain ⟨f, fs, hfs, hrest⟩ := ih fun v hv => h v (List.mem_cons_of_mem _ hv)
      refine ⟨e, f :: fs, ?_, ?_⟩
      · rw [expandEach, he, hfs]
        rfl
      · rw [unionText_cons_cons]
        have hbar : Token ['|'] (' ' :: '|' :: ' ' :: unionText (u :: ts))
            (' ' :: unionText (u :: ts)) := ⟨[' '], by simp [isGap], rfl⟩
        exact (hscans _ (ends_bar _)).append ((scans_bar hbar).append (hrest.gap rfl))

theorem tight_unionText {t : TypeRef} {ts : List TypeRef}
    (h : ∀ u ∈ t :: ts, Tight isBlank (Render.type u).toList) :
    Tight isBlank (unionText (t :: ts)) := by
  induction ts generalizing t with
  | nil =>
      rw [unionText_singleton]
      exact h t (by simp)
  | cons u ts ih =>
      rw [unionText_cons_cons]
      exact (h t (by simp)).append _ (ih fun v hv => h v (List.mem_cons_of_mem _ hv))

end TypeExpr

namespace Render

/-- Types whose references are all legible are printed as a text that is read as these types. -/
theorem types_read_back (ts : List TypeRef) (hne : ts ≠ []) (empty : String)
    (h : ∀ t ∈ ts, ∀ u, t.Within u → u.Legible) :
    ∃ e, TypeExpr.parse? (types ts empty) = some e ∧ e.expand = .ok ts := by
  cases ts with
  | nil => exact absurd rfl hne
  | cons t ts =>
      have hspelt := fun u hu => TypeExpr.spells_type u (h u hu)
      obtain ⟨e, es, hes, hscans⟩ := TypeExpr.exists_scans fun u hu => (hspelt u hu).1
      have htight := TypeExpr.tight_unionText fun u hu => (hspelt u hu).2
      rw [← htight.trimEnds_eq] at hscans
      refine ⟨TypeExpr.united e es,
        TypeExpr.parse?_of_scans hscans (TypeExpr.resolveUnion_barred e es), ?_⟩
      rw [TypeExpr.expand_united, hes]

/-- A generic type with a generic argument, and a plain type. -/
theorem types_read_back_nested :
    ∃ e, TypeExpr.parse? (types [⟨none, "Map", [.plain "a.b", ⟨none, "Array", [.plain "c"]⟩]⟩,
        .plain "null"] "any") = some e ∧
      e.expand = .ok [⟨none, "Map", [.plain "a.b", ⟨none, "Array", [.plain "c"]⟩]⟩,
        .plain "null"] := by
  have hname (w : String) (h : TypeExpr.readName w.toList = some (w.toList, [])) :
      TypeExpr.IsName w.toList := (TypeExpr.readName_eq_some_iff.1 h).2.1
  have hplain : ∀ w ∈ ["a.b", "c", "null"], ∀ u, (TypeRef.plain w).Within u → u.Legible := by
    intro w hw
    refine TypeRef.forall_within_iff.2 ⟨?_, by simp [TypeRef.plain]⟩
    simp only [List.mem_cons, List.not_mem_nil, or_false] at hw
    rcases hw with rfl | rfl | rfl
    all_goals exact ⟨rfl, hname _ (by decide), by decide, by simp [TypeRef.plain],
      by simp [TypeRef.plain]⟩
  have harray : ∀ u, TypeRef.Within ⟨none, "Array", [.plain "c"]⟩ u → u.Legible := by
    refine TypeRef.forall_within_iff.2 ⟨?_, List.forall_mem_singleton.2 (hplain "c" (by simp))⟩
    exact ⟨rfl, hname _ (by decide), by decide, by simp, by simp⟩
  have hmap : ∀ u, TypeRef.Within
      ⟨none, "Map", [.plain "a.b", ⟨none, "Array", [.plain "c"]⟩]⟩ u → u.Legible := by
    refine TypeRef.forall_within_iff.2 ⟨?_, List.forall_mem_cons.2
      ⟨hplain "a.b" (by simp), List.forall_mem_singleton.2 harray⟩⟩
    exact ⟨rfl, hname _ (by decide), by decide, by simp, by simp⟩
  exact types_read_back _ (by simp) "any"
    (List.forall_mem_cons.2 ⟨hmap, List.forall_mem_singleton.2 (hplain "null" (by simp))⟩)

end Render

end Ambient
