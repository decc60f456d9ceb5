import Ambient.Proofs.Doc.Layout
import Ambient.Proofs.Doc.Mention
import Ambient.Proofs.Render.Line
import Ambient.Render.Style

/-!
# Comments stay closed

A text is enclosable when the sign that ends a comment does not stand in it.  What a comment encloses
is enclosable, and every step of reading it keeps to enclosable texts: a step takes a part of a text, or
joins two texts by a character that is neither a star nor a slash.  Written out again, the gutter brings
a star before each line, but always a blank behind it, so a documentation block ends where it should.
-/

namespace Ambient.Doc

open Ambient.Text

/-- The sign that ends a comment does not stand in the text. -/
def Enclosable (cs : List Char) : Prop :=
  ¬ ['*', '/'] <:+: cs

instance (cs : List Char) : Decidable (Enclosable cs) :=
  inferInstanceAs (Decidable (¬ _))

variable {cs ds : List Char}

theorem Enclosable.of_part (h : Enclosable cs) (hds : ds <:+: cs) : Enclosable ds :=
  fun hclose => h (hclose.trans hds)

theorem enclosable_nil : Enclosable [] := by decide

/-- An ending sign does not reach over a character that is not part of it. -/
theorem ending_of_append_cons {a b x y : List Char} {c : Char} (hstar : c ≠ '*') (hslash : c ≠ '/')
    (h : a ++ c :: b = x ++ '*' :: '/' :: y) :
    (∃ z, a = x ++ '*' :: '/' :: z) ∨ ∃ z, b = z ++ '*' :: '/' :: y := by
  rcases List.append_eq_append_iff.1 h with ⟨mid, rfl, hmid⟩ | ⟨mid, rfl, hmid⟩
  · cases mid with
    | nil => exact absurd (List.cons.inj hmid).1 hstar
    | cons d mid => exact .inr ⟨mid, (List.cons.inj hmid).2⟩
  · left
    match mid, hmid with
    | [], hmid => exact absurd (List.cons.inj hmid).1.symm hstar
    | [d], hmid => exact absurd (List.cons.inj (List.cons.inj hmid).2).1.symm hslash
    | d :: e :: mid, hmid =>
        simp only [List.cons_append, List.cons.injEq] at hmid
        exact ⟨mid, by rw [hmid.1, hmid.2.1]⟩

theorem enclosable_iff : Enclosable cs ↔ ∀ x y, cs ≠ x ++ '*' :: '/' :: y := by
  constructor
  · rintro h x y rfl
    exact h ⟨x, y, by simp⟩
  · rintro h ⟨x, y, hxy⟩
    exact h x y (by simp [← hxy])

theorem Enclosable.append_cons (ha : Enclosable cs) (hb : Enclosable ds) {c : Char}
    (hstar : c ≠ '*') (hslash : c ≠ '/') : Enclosable (cs ++ c :: ds) := by
  rw [enclosable_iff] at ha hb ⊢
  intro x y h
  rcases ending_of_append_cons hstar hslash h with ⟨z, hz⟩ | ⟨z, hz⟩
  · exact ha x z hz
  · exact hb z y hz

theorem Enclosable.intercalate {ls : List (List Char)} (h : ∀ l ∈ ls, Enclosable l) :
    Enclosable (['\n'].intercalate ls) := by
  induction ls with
  | nil => exact enclosable_nil
  | cons l ls ih =>
      obtain ⟨hl, hls⟩ := List.forall_mem_cons.1 h
      cases ls with
      | nil => simpa using hl
      | cons k ks =>
          rw [List.intercalate_cons_cons, List.append_assoc, List.singleton_append]
          exact hl.append_cons (ih hls) (by decide) (by decide)

/-! ### Parts of a text -/

theorem Stretch.isInfix (h : Stretch cs ds) : ds <:+: cs := by
  obtain ⟨front, back, rfl, -⟩ := h
  exact ⟨front, back, by rw [List.append_assoc]⟩

theorem isInfix_trimEnds (cs : List Char) : trimEnds isBlank cs <:+: cs :=
  (stretch_trimEnds cs).isInfix

/-- A scan for a bracket cuts the text at that bracket. -/
theorem eq_append_of_untilClose {opening closing : Char} {depth : Nat} {inner rest : List Char}
    (h : untilClose opening closing depth cs = some (inner, rest)) :
    cs = inner ++ closing :: rest := by
  have hcons {c : Char} {depth : Nat} {cs inner rest : List Char}
      (ih : ∀ {inner rest}, untilClose opening closing depth cs = some (inner, rest) →
        cs = inner ++ closing :: rest)
      (h : (untilClose opening closing depth cs).map (fun r => (c :: r.1, r.2)) =
        some (inner, rest)) : c :: cs = inner ++ closing :: rest := by
    obtain ⟨⟨i, r⟩, hir, heq⟩ := Option.map_eq_some_iff.1 h
    cases heq
    rw [ih hir, List.cons_append]
  fun_induction untilClose opening closing depth cs generalizing inner rest with
  | case1 => cases h
  | case2 depth cs ih => exact hcons ih h
  | case3 cs =>
      cases h
      rfl
  | case4 cs hne depth ih => exact hcons ih h
  | case5 depth c cs hopening hclosing ih => exact hcons ih h

theorem eq_append_of_cutFirst? {p : Char → Bool} {a b : List Char}
    (h : cutFirst? p cs = some (a, b)) : ∃ c, cs = a ++ c :: b := by
  induction cs generalizing a with
  | nil => cases h
  | cons c cs ih =>
      rw [cutFirst?] at h
      split at h
      · cases h
        exact ⟨c, rfl⟩
      · obtain ⟨⟨i, r⟩, hir, heq⟩ := Option.map_eq_some_iff.1 h
        cases heq
        obtain ⟨d, hd⟩ := ih hir
        exact ⟨d, by rw [hd, List.cons_append]⟩

/-! ### Tags -/

/-- A name that was read and the text behind it. -/
structure NameReading.IsEnclosable (r : NameReading) : Prop where
  name : ∀ n ∈ r.name, Enclosable n.toList
  rest : Enclosable r.rest

theorem enclosable_of_nonEmpty? (h : Enclosable cs) :
    ∀ n ∈ nonEmpty? (String.ofList cs), Enclosable n.toList := by
  intro n hn
  unfold nonEmpty? at hn
  split at hn
  · cases hn
  · cases hn
    rwa [String.toList_ofList]

theorem isEnclosable_readWord (h : Enclosable cs) : (readWord cs).IsEnclosable := by
  have hword := List.takeWhile_prefix (l := cs) (!isBlank ·)
  exact ⟨enclosable_of_nonEmpty? (h.of_part hword.isInfix),
    h.of_part (List.dropWhile_suffix _).isInfix⟩

theorem isEnclosable_readOptional (hinner : Enclosable cs) (hrest : Enclosable ds) :
    (readOptional cs ds).IsEnclosable := by
  unfold readOptional
  dsimp only
  split
  · rename_i name default hcut
    obtain ⟨c, rfl⟩ := eq_append_of_cutFirst? hcut
    have hname := hinner.of_part (List.prefix_append name (c :: default)).isInfix
    exact ⟨enclosable_of_nonEmpty? (hname.of_part (isInfix_trimEnds name)), hrest⟩
  · exact ⟨enclosable_of_nonEmpty? (hinner.of_part (isInfix_trimEnds cs)), hrest⟩

theorem isEnclosable_readName (h : Enclosable cs) : (readName cs).IsEnclosable := by
  have htrim : Enclosable (trimFront isBlank cs) :=
    h.of_part (List.dropWhile_suffix isBlank).isInfix
  unfold readName
  generalize trimFront isBlank cs = ts at htrim
  dsimp only
  split
  · rename_i inside
    split
    · rename_i inner rest hclose
      have hinside := htrim.of_part (List.suffix_cons '[' inside).isInfix
      rw [eq_append_of_untilClose hclose] at hinside
      exact isEnclosable_readOptional
        (hinside.of_part (List.prefix_append inner (']' :: rest)).isInfix)
        (hinside.of_part ⟨inner ++ [']'], [], by simp⟩)
    · exact isEnclosable_readWord htrim
  · exact isEnclosable_readWord htrim

/-- The parts around a character, or the whole text and nothing. -/
theorem enclosable_cut (h : Enclosable cs) (p : Char → Bool) :
    Enclosable ((cutFirst? p cs).getD (cs, [])).1 ∧
      Enclosable ((cutFirst? p cs).getD (cs, [])).2 := by
  cases hcut : cutFirst? p cs with
  | none => exact ⟨h, enclosable_nil⟩
  | some ab =>
      obtain ⟨c, rfl⟩ := eq_append_of_cutFirst? hcut
      exact ⟨h.of_part (List.prefix_append ..).isInfix,
        h.of_part ⟨ab.1 ++ [c], [], by simp⟩⟩

/-- The name ends at a blank or a line feed; the line feed is written back between what follows it and
what follows the blank. -/
theorem isEnclosable_readNameOnly (h : Enclosable cs) : (readNameOnly cs).IsEnclosable := by
  obtain ⟨hfirst, hrest⟩ := enclosable_cut (h.of_part (isInfix_trimEnds cs)) (· == ' ')
  obtain ⟨hname, htail⟩ := enclosable_cut hfirst (· == '\n')
  refine ⟨enclosable_of_nonEmpty? hname, ?_⟩
  simp only [readNameOnly]
  split
  · exact hrest
  · exact htail.append_cons hrest (by decide) (by decide)

theorem isEnclosable_readNameOf (title : String) (h : Enclosable cs) :
    (readNameOf title cs).IsEnclosable := by
  unfold readNameOf
  split
  · exact isEnclosable_readName h
  · split
    · exact isEnclosable_readNameOnly h
    · exact ⟨by simp, h⟩

theorem enclosable_readType (title : String) (h : Enclosable cs) :
    Enclosable (readType title cs).2 := by
  have htrim : Enclosable (trimFront isBlank cs) :=
    h.of_part (List.dropWhile_suffix isBlank).isInfix
  unfold readType
  generalize trimFront isBlank cs = ts at htrim
  split
  · rename_i inside _
    dsimp only
    unfold readBraced
    cases hclose : untilClose '{' '}' 0 inside with
    | none => exact enclosable_nil
    | some r =>
        have hinside := htrim.of_part (List.suffix_cons '{' inside).isInfix
        rw [eq_append_of_untilClose hclose] at hinside
        exact hinside.of_part ⟨r.1 ++ ['}'], [], by simp⟩
  · exact h

theorem enclosable_readDescription (h : Enclosable cs) :
    ∀ d ∈ readDescription cs, Enclosable d.toList := by
  have htrim := h.of_part (isInfix_trimEnds cs)
  unfold readDescription
  split
  · rename_i desc heq
    rw [heq] at htrim
    exact enclosable_of_nonEmpty? ((htrim.of_part (List.suffix_cons '-' desc).isInfix).of_part
      (isInfix_trimEnds desc))
  · exact enclosable_of_nonEmpty? htrim

theorem enclosable_readTitle {word : String} {rest : List Char} (h : Enclosable cs)
    (hread : readTitle cs = some (word, rest)) : Enclosable rest := by
  rw [readTitle.eq_def] at hread
  split at hread
  · rename_i cs
    split at hread
    · cases hread
    · have hafter : Enclosable (cs.dropWhile isWord) :=
        (h.of_part (List.suffix_cons '@' cs).isInfix).of_part (List.dropWhile_suffix _).isInfix
      obtain ⟨-, rfl⟩ := Prod.mk.inj (Option.some.inj hread)
      refine Enclosable.of_part ?_ (List.dropWhile_suffix _).isInfix
      cases hmark : after? ['!'] (cs.dropWhile isWord) with
      | none => exact hafter
      | some back =>
          rw [eq_append_of_after? hmark] at hafter
          exact hafter.of_part (List.suffix_append ..).isInfix
  · cases hread

/-- The name and the description of a tag. -/
structure Tag.IsEnclosable (tag : Tag) : Prop where
  name : ∀ n ∈ tag.name, Enclosable n.toList
  description : ∀ d ∈ tag.description, Enclosable d.toList

theorem Tag.isEnclosable_read? {tag : Tag} (h : Enclosable cs) (hread : Tag.read? cs = some tag) :
    tag.IsEnclosable := by
  obtain ⟨⟨word, rest⟩, htitle, rfl⟩ := Option.map_eq_some_iff.1 hread
  have hname := isEnclosable_readNameOf (canonicalTitle word)
    (enclosable_readType (canonicalTitle word) (enclosable_readTitle h htitle))
  exact ⟨hname.name, enclosable_readDescription hname.rest⟩

/-! ### Comments -/

namespace Comment

/-- The description of a comment and its tags. -/
structure IsEnclosable (doc : Comment) : Prop where
  description : Enclosable doc.description.toList
  tags : ∀ tag ∈ doc.tags, tag.IsEnclosable

theorem IsEnclosable.describe {doc : Comment} (h : doc.IsEnclosable) {text : String}
    (htext : Enclosable text.toList) : (doc.describe text).IsEnclosable := by
  unfold Comment.describe
  split
  · exact h
  · split
    · exact ⟨htext, h.tags⟩
    · refine ⟨?_, h.tags⟩
      have hjoin := h.description.append_cons htext (c := '\n') (by decide) (by decide)
      simpa [String.toList_append] using hjoin

theorem IsEnclosable.addChunk {doc : Comment} (h : doc.IsEnclosable) {chunk : List (List Char)}
    (hchunk : ∀ l ∈ chunk, Enclosable l) : (doc.addChunk chunk).IsEnclosable := by
  have hjoin := (Enclosable.intercalate hchunk).of_part (isInfix_trimEnds _)
  unfold Comment.addChunk
  dsimp only
  split
  · exact h.describe (by rwa [String.toList_ofList])
  · rename_i tag hread
    have htag := Tag.isEnclosable_read? hjoin hread
    split
    · refine h.describe ?_
      have hdescription : Enclosable (tag.description.getD "").toList := by
        cases hd : tag.description with
        | none => exact enclosable_nil
        | some d => exact htag.description d hd
      rw [trim, String.toList_ofList]
      exact hdescription.of_part (isInfix_trimEnds _)
    · exact ⟨h.description, List.forall_mem_append.2 ⟨h.tags, List.forall_mem_singleton.2 htag⟩⟩

/-- What stands between the delimiters of a comment is all that is unwrapped. -/
theorem enclosable_unwrapChars (h : Enclosable cs) :
    Enclosable (unwrapChars ('/' :: '*' :: (cs ++ ['*', '/']))) := by
  have htight : Tight isBlank ('/' :: '*' :: (cs ++ ['*', '/'])) :=
    ⟨⟨'/', _, rfl, by decide⟩, ⟨'/' :: '*' :: (cs ++ ['*']), '/', by simp, by decide⟩⟩
  rw [unwrapChars, htight.trimEnds_eq, dropDelimiters_write]
  refine (Enclosable.intercalate (List.forall_mem_map.2 fun l hl => ?_)).of_part (isInfix_trimEnds _)
  have hline := h.of_part (stretch_of_mem_linesOf hl).isInfix
  exact (hline.of_part (stretch_dropGutter l).isInfix).of_part (isInfix_trimEnds _)

theorem isEnclosable_read {text : String} (h : Enclosable text.toList) :
    (read ("/*" ++ text ++ "*/")).IsEnclosable := by
  have hraw : ("/*" ++ text ++ "*/").toList = '/' :: '*' :: (text.toList ++ ['*', '/']) := by
    simp [String.toList_append]
  have hunwrap := enclosable_unwrapChars h
  rw [← hraw] at hunwrap
  have hbreak (c : Char) (hc : (c == '\n') = true) : isWord c = false := by
    rw [eq_of_beq hc]
    decide
  have hfold (chunks : List (List (List Char))) (doc : Comment) (hdoc : doc.IsEnclosable)
      (hchunks : ∀ chunk ∈ chunks, ∀ l ∈ chunk, Enclosable l) :
      (chunks.foldl addChunk doc).IsEnclosable := by
    induction chunks generalizing doc with
    | nil => exact hdoc
    | cons chunk chunks ih =>
        obtain ⟨hchunk, hchunks⟩ := List.forall_mem_cons.1 hchunks
        exact ih _ (hdoc.addChunk hchunk) hchunks
  refine hfold _ {} ⟨enclosable_nil, List.forall_mem_nil _⟩ fun chunk hchunk l hl => ?_
  have hpiece : l ∈ piecesOf (· == '\n') (unwrapChars ("/*" ++ text ++ "*/").toList) := by
    rw [← flatten_chunksOf (piecesOf _ _)]
    exact List.mem_flatten.2 ⟨chunk, hchunk, hl⟩
  exact hunwrap.of_part (stretch_of_mem_piecesOf hbreak hpiece).isInfix

end Comment

/-! ### Documentation blocks -/

/-- Characters that take no part in the sign that ends a comment. -/
def Inert (cs : List Char) : Prop :=
  ∀ c ∈ cs, c ≠ '*' ∧ c ≠ '/'

instance (cs : List Char) : Decidable (Inert cs) :=
  List.decidableBAll (fun c => c ≠ '*' ∧ c ≠ '/') cs

theorem inert_append : Inert (cs ++ ds) ↔ Inert cs ∧ Inert ds :=
  List.forall_mem_append

theorem Inert.append_enclosable (hcs : Inert cs) (hds : Enclosable ds) : Enclosable (cs ++ ds) := by
  induction cs with
  | nil => exact hds
  | cons c cs ih =>
      obtain ⟨hc, hcs⟩ := List.forall_mem_cons.1 hcs
      exact enclosable_nil.append_cons (ih hcs) hc.1 hc.2

theorem Inert.enclosable (h : Inert cs) : Enclosable cs := by
  have hnil := h.append_enclosable enclosable_nil
  rwa [List.append_nil] at hnil

theorem Enclosable.append_inert (hcs : Enclosable cs) (hds : Inert ds) : Enclosable (cs ++ ds) := by
  cases ds with
  | nil => rwa [List.append_nil]
  | cons c ds =>
      obtain ⟨hc, hds⟩ := List.forall_mem_cons.1 hds
      exact hcs.append_cons (Inert.enclosable hds) hc.1 hc.2

/-- Behind an enclosable text and a blank there is one place where a comment can end. -/
theorem eq_of_ending {x y : List Char} (hcs : Enclosable cs) (hds : Inert ds)
    (h : cs ++ ' ' :: '*' :: '/' :: ds = x ++ '*' :: '/' :: y) : y = ds := by
  rcases ending_of_append_cons (by decide) (by decide) h with ⟨z, hz⟩ | ⟨z, hz⟩
  · exact absurd hz (enclosable_iff.1 hcs x z)
  · cases z with
    | nil =>
        simp only [List.nil_append, List.cons.injEq, true_and] at hz
        exact hz.symm
    | cons d z =>
        have hstar : '*' ∈ '/' :: ds := by
          rw [(List.cons.inj hz).2]
          simp
        rcases List.mem_cons.1 hstar with hstar | hstar
        · cases hstar
        · exact absurd rfl (hds _ hstar).1

/-- What a style writes behind a painted text. -/
def paintEnd (st : Style) : String :=
  if st.colors then "\x1b[0m" else ""

theorem inert_paintEnd (st : Style) : Inert (paintEnd st).toList := by
  unfold paintEnd
  split <;> decide

/-- Paint has no part in the sign that ends a comment. -/
theorem exists_comment_eq (st : Style) :
    ∃ front : String, Inert front.toList ∧ ∀ t, st.comment t = front ++ t ++ paintEnd st := by
  unfold Style.comment Style.paint paintEnd
  cases st.colors with
  | true => exact ⟨"\x1b[" ++ "32" ++ "m", by decide, fun t => rfl⟩
  | false => exact ⟨"", by decide, fun t => by simp⟩

theorem enclosable_comment (st : Style) {t : String} (h : Enclosable t.toList) :
    Enclosable (st.comment t).toList := by
  obtain ⟨front, hfront, hcomment⟩ := exists_comment_eq st
  rw [hcomment, String.toList_append, String.toList_append]
  exact (hfront.append_enclosable h).append_inert (inert_paintEnd st)

theorem enclosable_joinLines {ls : List String} (h : ∀ l ∈ ls, Enclosable l.toList) :
    Enclosable (joinLines ls).toList := by
  have hlist : (joinLines ls).toList = ['\n'].intercalate (ls.map String.toList) := by
    rw [joinLines, String.toList_intercalate]
    rfl
  rw [hlist]
  exact Enclosable.intercalate (List.forall_mem_map.2 h)

/-- The gutter keeps a blank between its star and the line. -/
theorem enclosable_gutter {ind l : String} (hind : Inert ind.toList) (h : Enclosable l.toList) :
    Enclosable (trimRight (ind ++ " * " ++ l)).toList := by
  have hline : Enclosable (ind ++ " * " ++ l).toList := by
    have hstar : Enclosable (ind.toList ++ [' ', '*']) := hind.append_enclosable (by decide)
    have hjoin := hstar.append_cons h (c := ' ') (by decide) (by decide)
    simpa [String.toList_append] using hjoin
  obtain ⟨tail, htail, -⟩ := exists_trimBack_append isBlank (ind ++ " * " ++ l).toList
  rw [trimRight, String.toList_ofList]
  rw [htail] at hline
  exact hline.of_part (List.prefix_append ..).isInfix

/-- A parameter that documentation may mention. -/
structure Described (p : Parameter) : Prop where
  name : Enclosable p.name.toList
  description : ∀ d ∈ p.description, Enclosable d.toList

theorem enclosable_docText {description : String} (h : Enclosable description.toList)
    {params : List Parameter} (hparams : ∀ p ∈ params, Described p) :
    ∀ l ∈ Style.docText description params, Enclosable l.toList := by
  have hlines : ∀ l ∈ lines description, Enclosable l.toList := by
    refine List.forall_mem_map.2 fun l hl => ?_
    rw [String.toList_ofList]
    exact h.of_part (stretch_of_mem_linesOf hl).isInfix
  have htagged : ∀ l ∈ params.filterMap (fun p =>
      (p.description.bind nonEmpty?).map fun d => "@param " ++ p.name ++ " " ++ d),
      Enclosable l.toList := by
    intro l hl
    obtain ⟨p, hp, hl⟩ := List.mem_filterMap.1 hl
    obtain ⟨d, hd, rfl⟩ := Option.map_eq_some_iff.1 hl
    obtain ⟨text, htext, hd⟩ := Option.bind_eq_some_iff.1 hd
    have hdescription := (hparams p hp).description text htext
    have hfront : Enclosable ("@param ".toList ++ p.name.toList) :=
      Inert.append_enclosable (by decide) (hparams p hp).name
    have hd : Enclosable d.toList := by
      unfold nonEmpty? at hd
      split at hd
      · cases hd
      · cases hd
        exact hdescription
    have hjoin := hfront.append_cons hd (c := ' ') (by decide) (by decide)
    simpa [String.toList_append] using hjoin
  unfold Style.docText
  dsimp only
  split
  · exact List.forall_mem_append.2 ⟨hlines, htagged⟩
  · exact List.forall_mem_append.2 ⟨hlines, List.forall_mem_cons.2 ⟨enclosable_nil, htagged⟩⟩

/-- A documentation block is an enclosable text and, behind a blank, the sign that ends it. -/
theorem exists_docBlock_eq (st : Style) {ind description : String} {params : List Parameter}
    (hind : Inert ind.toList) (h : Enclosable description.toList)
    (hparams : ∀ p ∈ params, Described p) :
    st.docBlock ind description params = [] ∨
      ∃ front, Enclosable front ∧ (joinLines (st.docBlock ind description params)).toList =
        front ++ ' ' :: '*' :: '/' :: (paintEnd st).toList := by
  unfold Style.docBlock
  dsimp only
  split
  · exact .inl rfl
  · right
    obtain ⟨paint, hpaint, hcomment⟩ := exists_comment_eq st
    have hrows : ∀ l ∈ ((ind ++ "/**") :: (Style.docText description params).map
        (fun l => trimRight (ind ++ " * " ++ l))).map st.comment, Enclosable l.toList := by
      rw [List.map_cons, List.forall_mem_cons]
      refine ⟨enclosable_comment st ?_, ?_⟩
      · rw [String.toList_append]
        exact hind.append_enclosable (by decide)
      · rw [List.map_map]
        refine List.forall_mem_map.2 fun l hl => enclosable_comment st ?_
        exact enclosable_gutter hind (enclosable_docText h hparams l hl)
    have hfront := (enclosable_joinLines hrows).append_cons (c := '\n')
      (inert_append.2 ⟨hpaint, hind⟩).enclosable (by decide) (by decide)
    refine ⟨_, hfront, ?_⟩
    rw [List.map_append, joinLines_append (by simp) (by simp), List.map_singleton, hcomment]
    simp [joinLines, String.toList_append]

/-- Comments stay closed.  What is read from a comment cannot end a comment: its description, and the
name and description of each of its tags.  A documentation block written from the description and from
parameters with such descriptions, at any indentation, ends with the sign that ends a comment, and the
sign stands nowhere else in it. -/
theorem comments_stay_closed {text : String} (h : Enclosable text.toList) :
    (Comment.read ("/*" ++ text ++ "*/")).IsEnclosable ∧
      ∀ (st : Style) (width : Nat) (params : List Parameter),
        (∀ p ∈ params, Enclosable p.name.toList ∧ ∀ d ∈ p.description,
          ∃ other : String, Enclosable other.toList ∧
            ∃ tag ∈ (Comment.read ("/*" ++ other ++ "*/")).tags, tag.description = some d) →
        ∀ written, written = joinLines (st.docBlock (String.ofList (List.replicate width ' '))
            (Comment.read ("/*" ++ text ++ "*/")).description params) →
          written ≠ "" →
          (∃ front, written = front ++ "*/" ++ paintEnd st) ∧
            ∀ a b, written.toList = a ++ '*' :: '/' :: b → b = (paintEnd st).toList := by
  have hread := Comment.isEnclosable_read h
  refine ⟨hread, fun st width params hparams written hwritten hne => ?_⟩
  have hind : Inert (String.ofList (List.replicate width ' ')).toList := by
    intro c hc
    rw [String.toList_ofList] at hc
    rw [List.eq_of_mem_replicate hc]
    decide
  have hdescribed : ∀ p ∈ params, Described p := by
    intro p hp
    refine ⟨(hparams p hp).1, fun d hd => ?_⟩
    obtain ⟨other, hother, tag, htag, hdescription⟩ := (hparams p hp).2 d hd
    exact ((Comment.isEnclosable_read hother).tags tag htag).description d hdescription
  rcases exists_docBlock_eq st hind hread.description hdescribed with hnil | ⟨front, hfront, heq⟩
  · rw [hnil] at hwritten
    exact absurd hwritten hne
  · rw [← hwritten] at heq
    refine ⟨⟨String.ofList (front ++ [' ']), ?_⟩, fun a b hab => ?_⟩
    · rw [← String.toList_inj, heq]
      simp [String.toList_append]
    · rw [heq] at hab
      exact eq_of_ending hfront (inert_paintEnd st) hab

/-- A comment with stars and slashes of its own, written out with its parameter. -/
theorem comments_stay_closed_starred :
    let text := "* Opens.\n * @param n - 1 / 2 *"
    let written := joinLines (Style.docBlock {} (String.ofList (List.replicate 2 ' '))
      (Comment.read ("/*" ++ text ++ "*/")).description
      [{ name := "n", description := some "1 / 2 *" }])
    (∃ front, written = front ++ "*/" ++ paintEnd {}) ∧
      ∀ a b, written.toList = a ++ '*' :: '/' :: b → b = [] := by
  intro text written
  have htext : Enclosable text.toList := by decide +kernel
  have htags : some "1 / 2 *" ∈
      (Comment.read ("/*" ++ text ++ "*/")).tags.map (·.description) := by decide
  refine (comments_stay_closed htext).2 {} 2 _ ?_ written rfl (by decide)
  rw [List.forall_mem_singleton]
  refine ⟨by decide, fun d hd => ⟨text, htext, ?_⟩⟩
  rw [← Option.mem_some.1 hd]
  exact List.mem_map.1 htags

end Ambient.Doc
