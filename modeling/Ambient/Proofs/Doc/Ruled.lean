import Ambient.Proofs.Doc.Enclosed
import Mathlib.Data.List.Chain

/-!
# Ruled texts

A text is ruled when nothing but line feeds ends its lines and no other blank stands beside a line
feed.  Unwrapping a comment leaves a ruled text: its lines are trimmed one by one and then joined.
Every part of a ruled text is ruled, so this is kept by all that is read from a comment; what is
read is trimmed at last, and then every line of it is.
-/

namespace Ambient.Text

variable {p : Char → Bool} {cs : List Char}

/-! ### Trimmed texts -/

theorem trimBack_eq_nil_or_concat (p : Char → Bool) (cs : List Char) :
    trimBack p cs = [] ∨ ∃ u d, trimBack p cs = u ++ [d] ∧ p d = false := by
  induction cs with
  | nil => exact .inl rfl
  | cons c cs ih =>
      rw [trimBack]
      split
      · by_cases hc : p c = true
        · exact .inl (if_pos hc)
        · exact .inr ⟨[], c, if_neg hc, Bool.eq_false_iff.2 hc⟩
      · rename_i hne
        rcases ih with hnil | ⟨u, d, heq, hd⟩
        · exact absurd hnil hne
        · exact .inr ⟨c :: u, d, by rw [heq, List.cons_append], hd⟩

/-- What trimming leaves has no such character at its ends. -/
theorem tight_trimEnds (h : trimEnds p cs ≠ []) : Tight p (trimEnds p cs) := by
  constructor
  · cases hfront : trimFront p cs with
    | nil =>
        rw [trimEnds, hfront] at h
        exact absurd rfl h
    | cons c v =>
        have hc : p c = false := by
          have hhead := List.head?_dropWhile_not p cs
          rw [trimFront] at hfront
          rw [hfront] at hhead
          simpa using hhead
        exact ⟨c, trimBack p v, by rw [trimEnds, hfront]; exact trimBack_append_cons [] v hc, hc⟩
  · rcases trimBack_eq_nil_or_concat p (trimFront p cs) with hnil | hconcat
    · exact absurd hnil h
    · exact hconcat

/-- What stands in front and is dropped does not matter. -/
theorem trimEnds_append_of_forall {a : List Char} (ha : ∀ c ∈ a, p c = true) (b : List Char) :
    trimEnds p (a ++ b) = trimEnds p b := by
  rw [trimEnds, trimEnds, trimFront, trimFront, List.dropWhile_append_of_pos ha]

/-! ### Lines between line feeds -/

theorem intercalate_piecesOf (cs : List Char) :
    ['\n'].intercalate (piecesOf (· == '\n') cs) = cs := by
  fun_induction piecesOf (· == '\n') cs with
  | case1 => rfl
  | case2 c cs hc ih =>
      rw [List.intercalate_cons_of_ne_nil (piecesOf_ne_nil _ cs), ih, eq_of_beq hc]
      rfl
  | case3 c cs hc hnil => exact absurd hnil (piecesOf_ne_nil _ cs)
  | case4 c cs hc l ls hls ih =>
      rw [hls] at ih
      cases ls with
      | nil => simpa using ih
      | cons k ls => simpa [List.intercalate_cons_cons] using ih

theorem intercalate_append {ls ks : List (List Char)} (hls : ls ≠ []) (hks : ks ≠ []) :
    ['\n'].intercalate (ls ++ ks) = ['\n'].intercalate ls ++ '\n' :: ['\n'].intercalate ks := by
  induction ls with
  | nil => exact absurd rfl hls
  | cons l ls ih =>
      cases ls with
      | nil => simp [List.intercalate_cons_of_ne_nil hks]
      | cons k ls =>
          have hrest := ih (List.cons_ne_nil k ls)
          rw [List.cons_append] at hrest
          rw [List.cons_append, List.cons_append, List.intercalate_cons_cons, hrest,
            List.intercalate_cons_cons]
          simp

/-- A line ends where the text ends or a line feed stands, and so it begins. -/
theorem exists_around_of_mem {ls : List (List Char)} {l : List Char} (h : l ∈ ls) :
    ∃ front back, ['\n'].intercalate ls = front ++ (l ++ back) ∧
      (front = [] ∨ ∃ f, front = f ++ ['\n']) ∧ (back = [] ∨ ∃ b, back = '\n' :: b) := by
  obtain ⟨ks, js, rfl⟩ := List.append_of_mem h
  have hback : ∃ back, ['\n'].intercalate (l :: js) = l ++ back ∧
      (back = [] ∨ ∃ b, back = '\n' :: b) := by
    cases js with
    | nil => exact ⟨[], by simp, .inl rfl⟩
    | cons j js =>
        refine ⟨'\n' :: ['\n'].intercalate (j :: js), ?_, .inr ⟨_, rfl⟩⟩
        simp [List.intercalate_cons_cons]
  obtain ⟨back, hback, hend⟩ := hback
  by_cases hks : ks = []
  · exact ⟨[], back, by rw [hks]; exact hback, .inl rfl, hend⟩
  · refine ⟨['\n'].intercalate ks ++ ['\n'], back, ?_, .inr ⟨_, rfl⟩, hend⟩
    rw [intercalate_append hks (List.cons_ne_nil l js), hback]
    simp

end Ambient.Text

namespace Ambient.Doc

open Ambient.Text

variable {cs ds : List Char}

/-- Nothing, or a text without blanks at its ends. -/
def Trimmed (cs : List Char) : Prop :=
  cs = [] ∨ Tight isBlank cs

theorem trimmed_trimEnds (cs : List Char) : Trimmed (trimEnds isBlank cs) := by
  by_cases h : trimEnds isBlank cs = []
  · exact .inl h
  · exact .inr (tight_trimEnds h)

/-- Two characters that may follow each other: beside a line feed there is no other blank. -/
def Spaced (a b : Char) : Prop :=
  (a = '\n' → isBlank b = true → b = '\n') ∧ (b = '\n' → isBlank a = true → a = '\n')

/-- Line feeds end the lines, and no other blank stands beside one. -/
structure Ruled (cs : List Char) : Prop where
  breaks : ∀ c ∈ cs, isBreak c = true → c = '\n'
  spaced : cs.IsChain Spaced

theorem Ruled.of_part (h : Ruled cs) (hds : ds <:+: cs) : Ruled ds :=
  ⟨fun c hc => h.breaks c (hds.subset hc), h.spaced.infix hds⟩

theorem Ruled.spaced_pair (h : Ruled cs) {a b : Char} (hpair : [a, b] <:+: cs) : Spaced a b :=
  List.isChain_pair.1 <| h.spaced.infix hpair

theorem ruled_nil : Ruled [] :=
  ⟨List.forall_mem_nil _, .nil⟩

theorem spaced_of_ne {a b : Char} (ha : a ≠ '\n') (hb : b ≠ '\n') : Spaced a b :=
  ⟨fun h => absurd h ha, fun h => absurd h hb⟩

theorem ne_newline_of_isBreak {c : Char} (h : isBreak c = false) : c ≠ '\n' := by
  rintro rfl
  cases h

theorem ruled_of_single (h : ∀ c ∈ cs, isBreak c = false) : Ruled cs := by
  refine ⟨fun c hc hbreak => ?_, ?_⟩
  · rw [h c hc] at hbreak
    cases hbreak
  · refine List.Pairwise.isChain (List.pairwise_of_forall_mem_list fun a ha b hb => ?_)
    exact spaced_of_ne (ne_newline_of_isBreak (h a ha)) (ne_newline_of_isBreak (h b hb))

/-- A line feed may stand between two texts when no blank is next to it. -/
theorem Ruled.append_newline (ha : Ruled cs) (hb : Ruled ds)
    (hback : ∀ c ∈ cs.getLast?, isBlank c = true → c = '\n')
    (hfront : ∀ c ∈ ds.head?, isBlank c = true → c = '\n') : Ruled (cs ++ '\n' :: ds) := by
  constructor
  · refine List.forall_mem_append.2 ⟨ha.breaks, List.forall_mem_cons.2 ⟨fun _ => rfl, hb.breaks⟩⟩
  · rw [List.isChain_append, List.isChain_cons]
    refine ⟨ha.spaced, ⟨fun c hc => ?_, hb.spaced⟩, fun c hc d hd => ?_⟩
    · exact ⟨fun _ => hfront c hc, fun _ _ => rfl⟩
    · cases hd
      exact ⟨fun _ _ => rfl, fun _ => hback c hc⟩

theorem Trimmed.head (h : Trimmed cs) : ∀ c ∈ cs.head?, isBlank c = false := by
  rcases h with rfl | h
  · nofun
  · obtain ⟨c, v, rfl, hc⟩ := h.front
    rintro d ⟨⟩
    exact hc

theorem Trimmed.getLast (h : Trimmed cs) : ∀ c ∈ cs.getLast?, isBlank c = false := by
  rcases h with rfl | h
  · nofun
  · obtain ⟨u, d, rfl, hd⟩ := h.back
    rw [List.getLast?_concat]
    rintro e ⟨⟩
    exact hd

/-! ### Lines of a ruled text -/

/-- A line as a reader leaves it: it ends nowhere in its middle, and no blanks stand at its ends. -/
structure Line (l : List Char) : Prop where
  single : ∀ c ∈ l, isBreak c = false
  trimmed : Trimmed l

theorem head_intercalate {ls : List (List Char)} (h : ∀ l ∈ ls, Line l) :
    ∀ c ∈ (['\n'].intercalate ls).head?, isBlank c = true → c = '\n' := by
  cases ls with
  | nil => nofun
  | cons l ls =>
      have hl := (h l (List.mem_cons_self ..)).trimmed.head
      cases ls with
      | nil =>
          intro c hc hblank
          rw [List.intercalate_singleton] at hc
          rw [hl c hc] at hblank
          cases hblank
      | cons k ls =>
          intro c hc hblank
          rw [List.intercalate_cons_cons] at hc
          cases l with
          | nil =>
              cases hc
              rfl
          | cons d l =>
              rw [hl c hc] at hblank
              cases hblank

/-- Lines that are joined make a ruled text. -/
theorem ruled_intercalate {ls : List (List Char)} (h : ∀ l ∈ ls, Line l) :
    Ruled (['\n'].intercalate ls) := by
  induction ls with
  | nil => exact ruled_nil
  | cons l ls ih =>
      obtain ⟨hl, hls⟩ := List.forall_mem_cons.1 h
      cases ls with
      | nil => simpa using ruled_of_single hl.single
      | cons k ls =>
          rw [List.intercalate_cons_cons, List.append_assoc, List.singleton_append]
          refine (ruled_of_single hl.single).append_newline (ih hls) (fun c hc hblank => ?_)
            (head_intercalate hls)
          rw [hl.trimmed.getLast c hc] at hblank
          cases hblank

/-- The lines of a ruled text that is trimmed are trimmed. -/
theorem Ruled.line_of_mem_piecesOf (h : Ruled cs) (htrimmed : Trimmed cs) {l : List Char}
    (hl : l ∈ piecesOf (· == '\n') cs) : Line l := by
  obtain ⟨front, back, heq, hfront, hback⟩ := exists_around_of_mem hl
  rw [intercalate_piecesOf] at heq
  have hne : ∀ c ∈ l, c ≠ '\n' := by
    intro c hc
    simpa using eq_false_of_mem_piecesOf hl hc
  constructor
  · intro c hc
    rw [Bool.eq_false_iff]
    refine fun hbreak => hne c hc (h.breaks c ?_ hbreak)
    rw [heq]
    exact List.mem_append_right _ (List.mem_append_left _ hc)
  · by_cases hnil : l = []
    · exact .inl hnil
    right
    constructor
    · obtain ⟨c, v, rfl⟩ := List.exists_cons_of_ne_nil hnil
      refine ⟨c, v, rfl, ?_⟩
      rcases hfront with rfl | ⟨f, rfl⟩
      · rw [heq] at htrimmed
        exact htrimmed.head c rfl
      · have hpair : ['\n', c] <:+: cs := ⟨f, v ++ back, by rw [heq]; simp⟩
        rw [Bool.eq_false_iff]
        exact fun hblank => hne c (by simp) ((h.spaced_pair hpair).1 rfl hblank)
    · obtain ⟨u, d, rfl⟩ : ∃ u d, l = u ++ [d] := ⟨_, _, (List.dropLast_concat_getLast hnil).symm⟩
      refine ⟨u, d, rfl, ?_⟩
      rcases hback with rfl | ⟨b, rfl⟩
      · rw [heq] at htrimmed
        exact htrimmed.getLast d (by simp)
      · have hpair : [d, '\n'] <:+: cs := ⟨front ++ u, b, by rw [heq]; simp⟩
        rw [Bool.eq_false_iff]
        exact fun hblank => hne d (by simp) ((h.spaced_pair hpair).2 rfl hblank)

/-! ### Parts that are read -/

/-- A part of a text without blanks at its ends. -/
structure Cutout (cs ds : List Char) : Prop where
  part : ds <:+: cs
  tight : Tight isBlank ds

theorem Cutout.of_part (h : Cutout ds cs) {es : List Char} (hds : ds <:+: es) : Cutout es cs :=
  ⟨h.part.trans hds, h.tight⟩

theorem cutout_of_nonEmpty? (cs : List Char) :
    ∀ n ∈ nonEmpty? (String.ofList (trimEnds isBlank cs)), Cutout cs n.toList := by
  intro n hn
  unfold nonEmpty? at hn
  split at hn
  · cases hn
  · rename_i hne
    cases hn
    rw [String.toList_ofList]
    exact ⟨isInfix_trimEnds cs, tight_trimEnds (by simpa using hne)⟩

/-- A name is a part of the text it was read from, and so is the text behind it. -/
structure NameReading.Within (r : NameReading) (cs : List Char) : Prop where
  name : ∀ n ∈ r.name, Cutout cs n.toList
  rest : r.rest <:+: cs

theorem NameReading.Within.of_part {r : NameReading} (h : r.Within ds) (hds : ds <:+: cs) :
    r.Within cs :=
  ⟨fun n hn => (h.name n hn).of_part hds, h.rest.trans hds⟩

theorem within_readWord (cs : List Char) : (readWord cs).Within cs := by
  refine ⟨fun n hn => ?_, (List.dropWhile_suffix _).isInfix⟩
  have hblank : ∀ c ∈ cs.takeWhile (!isBlank ·), isBlank c = false := by
    intro c hc
    simpa using List.all_eq_true.1 List.all_takeWhile c hc
  simp only [readWord, nonEmpty?] at hn
  split at hn
  · cases hn
  · rename_i hne
    cases hn
    rw [String.toList_ofList]
    exact ⟨(List.takeWhile_prefix _).isInfix, tight_of_forall (by simpa using hne) hblank⟩

theorem within_readOptional {inner rest : List Char} (hinner : inner <:+: cs)
    (hrest : rest <:+: cs) : (readOptional inner rest).Within cs := by
  unfold readOptional
  dsimp only
  split
  · rename_i name default hcut
    obtain ⟨c, rfl⟩ := eq_append_of_cutFirst? hcut
    have hname := (List.prefix_append name (c :: default)).isInfix.trans hinner
    exact ⟨fun n hn => (cutout_of_nonEmpty? name n hn).of_part hname, hrest⟩
  · exact ⟨fun n hn => (cutout_of_nonEmpty? inner n hn).of_part hinner, hrest⟩

theorem within_readName (cs : List Char) : (readName cs).Within cs := by
  have htrim : trimFront isBlank cs <:+: cs := (List.dropWhile_suffix isBlank).isInfix
  refine NameReading.Within.of_part ?_ htrim
  unfold readName
  generalize trimFront isBlank cs = ts
  dsimp only
  split
  · rename_i inside
    split
    · rename_i inner rest hclose
      rw [eq_append_of_untilClose hclose]
      exact within_readOptional ⟨['['], ']' :: rest, by simp⟩ ⟨'[' :: (inner ++ [']']), [], by simp⟩
    · exact within_readWord _
  · exact within_readWord _

theorem within_readNameOf {title : String} (h : isNameOnly title = false) (cs : List Char) :
    (readNameOf title cs).Within cs := by
  unfold readNameOf
  split
  · exact within_readName cs
  · rw [h]
    exact ⟨nofun, List.infix_rfl⟩

theorem isInfix_readType (title : String) (cs : List Char) : (readType title cs).2 <:+: cs := by
  have htrim : trimFront isBlank cs <:+: cs := (List.dropWhile_suffix isBlank).isInfix
  unfold readType
  split
  · rename_i inside _ heq
    rw [heq] at htrim
    refine List.IsInfix.trans ?_ ((List.suffix_cons '{' inside).isInfix.trans htrim)
    cases hclose : untilClose '{' '}' 0 inside with
    | none => simp [readBraced, hclose]
    | some r =>
        have hinside := eq_append_of_untilClose hclose
        simp only [readBraced, hclose, Option.getD_some]
        exact ⟨r.1 ++ ['}'], [], by rw [hinside]; simp⟩
  · exact List.infix_rfl

theorem cutout_readDescription (cs : List Char) : ∀ d ∈ readDescription cs, Cutout cs d.toList := by
  unfold readDescription
  split
  · rename_i desc heq
    have hpart : desc <:+: cs := by
      refine (List.suffix_cons '-' desc).isInfix.trans ?_
      rw [← heq]
      exact isInfix_trimEnds cs
    exact fun d hd => (cutout_of_nonEmpty? desc d hd).of_part hpart
  · exact cutout_of_nonEmpty? cs

theorem isInfix_readTitle {word : String} {rest : List Char}
    (h : readTitle cs = some (word, rest)) : rest <:+: cs := by
  rw [readTitle.eq_def] at h
  split at h
  · rename_i cs
    split at h
    · cases h
    · obtain ⟨-, rfl⟩ := Prod.mk.inj (Option.some.inj h)
      refine (List.dropWhile_suffix _).isInfix.trans ?_
      have hafter : cs.dropWhile isWord <:+: '@' :: cs :=
        (List.dropWhile_suffix _).isInfix.trans (List.suffix_cons '@' cs).isInfix
      cases hmark : after? ['!'] (cs.dropWhile isWord) with
      | none => exact hafter
      | some back =>
          rw [eq_append_of_after? hmark] at hafter
          exact (List.suffix_append ['!'] back).isInfix.trans hafter
  · cases h

/-- The name and the description of a tag are parts of the text it was read from.  A title whose
first word is a name is an exception: there the text behind the name may be put together anew. -/
theorem cutouts_of_read? {tag : Tag} (h : Tag.read? cs = some tag)
    (htitle : isNameOnly tag.title = false) :
    (∀ n ∈ tag.name, Cutout cs n.toList) ∧ ∀ d ∈ tag.description, Cutout cs d.toList := by
  obtain ⟨⟨word, rest⟩, hread, rfl⟩ := Option.map_eq_some_iff.1 h
  have hname := (within_readNameOf htitle _).of_part
    ((isInfix_readType (canonicalTitle word) rest).trans (isInfix_readTitle hread))
  exact ⟨hname.name, fun d hd => (cutout_readDescription _ d hd).of_part hname.rest⟩

/-! ### Comments -/

/-- A ruled text with characters at its ends that are no blanks. -/
structure Tidy (cs : List Char) : Prop where
  ruled : Ruled cs
  tight : Tight isBlank cs

theorem Cutout.tidy (h : Cutout cs ds) (hcs : Ruled cs) : Tidy ds :=
  ⟨hcs.of_part h.part, h.tight⟩

/-- A ruled text without blanks at its ends. -/
structure Neat (cs : List Char) : Prop where
  ruled : Ruled cs
  trimmed : Trimmed cs

theorem Neat.line_of_mem_piecesOf (h : Neat cs) : ∀ l ∈ piecesOf (· == '\n') cs, Line l :=
  fun _ hl => h.ruled.line_of_mem_piecesOf h.trimmed hl

theorem Ruled.neat_trimEnds (h : Ruled cs) : Neat (trimEnds isBlank cs) :=
  ⟨h.of_part (isInfix_trimEnds cs), trimmed_trimEnds cs⟩

theorem neat_unwrapChars (raw : List Char) : Neat (unwrapChars raw) := by
  refine Ruled.neat_trimEnds (ruled_intercalate (List.forall_mem_map.2 fun l hl => ?_))
  refine ⟨fun c hc => ?_, trimmed_trimEnds _⟩
  have hmem : c ∈ l := (stretch_dropGutter l).isInfix.subset ((isInfix_trimEnds _).subset hc)
  exact (mem_and_isBreak_of_mem_linesOf hl hmem).2

namespace Comment

theorem neat_describe {doc : Comment} (h : Neat doc.description.toList) {text : String}
    (htext : Neat text.toList) : Neat (doc.describe text).description.toList := by
  unfold describe
  split
  · exact h
  · split
    · exact htext
    · rename_i hne hne'
      have ha : Tight isBlank doc.description.toList :=
        h.trimmed.resolve_left (by simpa using hne')
      have hb : Tight isBlank text.toList := htext.trimmed.resolve_left (by simpa using hne)
      have hlist : (doc.description ++ "\n" ++ text).toList =
          doc.description.toList ++ '\n' :: text.toList := by simp
      rw [hlist]
      refine ⟨h.ruled.append_newline htext.ruled (fun c hc hblank => ?_)
        (fun c hc hblank => ?_), .inr (ha.append ['\n'] hb)⟩
      · rw [h.trimmed.getLast c hc] at hblank
        cases hblank
      · rw [htext.trimmed.head c hc] at hblank
        cases hblank

theorem neat_addChunk {doc : Comment} (h : Neat doc.description.toList) {chunk : List (List Char)}
    (hchunk : ∀ l ∈ chunk, Line l) : Neat (doc.addChunk chunk).description.toList := by
  have hjoin := (ruled_intercalate hchunk).neat_trimEnds
  unfold addChunk
  dsimp only
  split
  · exact neat_describe h (by rwa [String.toList_ofList])
  · rename_i tag hread
    split
    · rename_i htitle
      refine neat_describe h ?_
      rw [trim, String.toList_ofList]
      refine Ruled.neat_trimEnds ?_
      cases hd : tag.description with
      | none => exact ruled_nil
      | some d =>
          have hparts := cutouts_of_read? hread (by rw [htitle]; decide)
          exact hjoin.ruled.of_part (hparts.2 d hd).part
    · exact h

/-- The chunks that a comment is cut into are made of lines. -/
theorem line_of_mem_chunksOf (raw : String) :
    ∀ chunk ∈ chunksOf (piecesOf (· == '\n') (unwrapChars raw.toList)), ∀ l ∈ chunk, Line l := by
  intro chunk hchunk l hl
  refine (neat_unwrapChars raw.toList).line_of_mem_piecesOf l ?_
  rw [← flatten_chunksOf (piecesOf _ _)]
  exact List.mem_flatten.2 ⟨chunk, hchunk, hl⟩

/-- The description of a comment is ruled and trimmed, however many tags it is put together from. -/
theorem neat_description (raw : String) : Neat (read raw).description.toList := by
  have hfold (chunks : List (List (List Char))) (doc : Comment)
      (hdoc : Neat doc.description.toList) (hchunks : ∀ chunk ∈ chunks, ∀ l ∈ chunk, Line l) :
      Neat (chunks.foldl addChunk doc).description.toList := by
    induction chunks generalizing doc with
    | nil => exact hdoc
    | cons chunk chunks ih =>
        obtain ⟨hchunk, hchunks⟩ := List.forall_mem_cons.1 hchunks
        exact ih _ (neat_addChunk hdoc hchunk) hchunks
  exact hfold _ {} ⟨ruled_nil, .inl rfl⟩ (line_of_mem_chunksOf raw)

/-- The name and the description of a tag are ruled, and no blanks stand at their ends. -/
theorem tidy_of_mem_tags {raw : String} {tag : Tag} (h : tag ∈ (read raw).tags)
    (htitle : isNameOnly tag.title = false) :
    (∀ n ∈ tag.name, Tidy n.toList) ∧ ∀ d ∈ tag.description, Tidy d.toList := by
  rcases exists_chunk_of_mem_tags h with hmem | ⟨chunk, hchunk, hread⟩
  · cases hmem
  · have hruled := (ruled_intercalate (line_of_mem_chunksOf raw chunk hchunk)).neat_trimEnds.ruled
    obtain ⟨hname, hdescription⟩ := cutouts_of_read? hread htitle
    exact ⟨fun n hn => (hname n hn).tidy hruled, fun d hd => (hdescription d hd).tidy hruled⟩

end Comment

end Ambient.Doc
