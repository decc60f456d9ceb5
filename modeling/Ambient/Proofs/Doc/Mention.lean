import Ambient.Doc.Comment
import Ambient.Proofs.Doc.Entry
import Ambient.Proofs.Doc.Named
import Ambient.Proofs.Text.Row
import Ambient.Proofs.Text.Trim

/-!
# Tags and mentions

Whether a comment is about what follows it is decided on its raw text, by searching for certain tags;
what the comment says is read from its unwrapped lines.  The two agree in one direction: a tag that is
read stands in the raw text.  A mention is a stretch of text with the end of a word behind it, and
every step of the unwrapping leaves stretches that end where a word ends.
-/

namespace Ambient.Doc

open Ambient.Text

theorem isWord_eq_false_of_isBlank {c : Char} (h : isBlank c = true) : isWord c = false := by
  have hnone : ∀ n ∈ blanks, isWord (Char.ofNat n) = false := by decide +kernel
  have hfalse := hnone _ (mem_blanks_of_isBlank h)
  rwa [Char.ofNat_toNat] at hfalse

/-- No word goes on in the text. -/
def EndsWord (cs : List Char) : Prop :=
  cs.head?.any isWord = false

theorem endsWord_cons {c : Char} (h : isWord c = false) (cs : List Char) : EndsWord (c :: cs) :=
  h

/-- The second text is a stretch of the first one, behind which no word goes on. -/
def Stretch (cs part : List Char) : Prop :=
  ∃ front back, cs = front ++ (part ++ back) ∧ EndsWord back

/-- An at sign, the word and the end of a word, somewhere in the text. -/
def Mentioned (word cs : List Char) : Prop :=
  Stretch cs ('@' :: word)

theorem EndsWord.append {a b : List Char} (ha : EndsWord a) (hb : EndsWord b) :
    EndsWord (a ++ b) := by
  cases a with
  | nil => exact hb
  | cons c a => exact ha

theorem Stretch.suffix (front part : List Char) : Stretch (front ++ part) part :=
  ⟨front, [], by rw [List.append_nil], rfl⟩

theorem Stretch.trans {a b c : List Char} (hab : Stretch a b) (hbc : Stretch b c) :
    Stretch a c := by
  obtain ⟨front, back, rfl, hback⟩ := hab
  obtain ⟨front', back', rfl, hback'⟩ := hbc
  exact ⟨front ++ front', back' ++ back, by simp only [List.append_assoc], hback'.append hback⟩

theorem mentions_append (words : List String) (front cs : List Char)
    (h : mentions words cs = true) : mentions words (front ++ cs) = true := by
  induction front with
  | nil => exact h
  | cons c front ih =>
      rw [List.cons_append, mentions, ih]
      exact Bool.or_true _

theorem mentions_of_mentioned {words : List String} {word : String} (hword : word ∈ words)
    {cs : List Char} (h : Mentioned word.toList cs) : mentions words cs = true := by
  obtain ⟨front, back, rfl, hback⟩ := h
  refine mentions_append words front _ ?_
  rw [List.cons_append, mentions, Bool.or_eq_true, beq_self_eq_true, Bool.true_and]
  refine .inl (List.any_eq_true.2 ⟨word, hword, ?_⟩)
  rw [after?_append, Bool.not_eq_true']
  exact hback

/-! ### Mentions within lines -/

/-- A mention does not reach over a character that is neither an at sign nor part of a word. -/
theorem Mentioned.of_append_cons {word a b : List Char} {c : Char}
    (hword : ∀ x ∈ word, isWord x = true) (hc : isWord c = false) (hat : c ≠ '@')
    (h : Mentioned word (a ++ c :: b)) : Mentioned word a ∨ Mentioned word b := by
  obtain ⟨front, back, heq, hback⟩ := h
  rcases List.append_eq_append_iff.1 heq with ⟨mid, rfl, hmid⟩ | ⟨mid, rfl, hmid⟩
  · -- The at sign stands behind the character, or is the character.
    cases mid with
    | nil => exact absurd (List.cons.inj hmid).1 hat
    | cons d mid => exact .inr ⟨mid, back, (List.cons.inj hmid).2, hback⟩
  · cases mid with
    | nil => exact absurd (List.cons.inj hmid).1.symm hat
    | cons d mid =>
        obtain ⟨rfl, hrest⟩ := List.cons.inj hmid
        left
        rcases List.append_eq_append_iff.1 hrest with ⟨tail, rfl, htail⟩ | ⟨tail, rfl, htail⟩
        · refine ⟨front, tail, rfl, ?_⟩
          cases tail with
          | nil => rfl
          | cons x tail =>
              rw [htail] at hback
              exact hback
        · cases tail with
          | nil => exact ⟨front, [], by simp, rfl⟩
          | cons x tail =>
              obtain ⟨rfl, -⟩ := List.cons.inj htail
              rw [hword c (by simp)] at hc
              cases hc

theorem Mentioned.of_intercalate {word : List Char} (hword : ∀ x ∈ word, isWord x = true)
    {ls : List (List Char)} (h : Mentioned word (['\n'].intercalate ls)) :
    ∃ l ∈ ls, Mentioned word l := by
  induction ls with
  | nil =>
      obtain ⟨front, back, heq, -⟩ := h
      simp at heq
  | cons l ls ih =>
      cases ls with
      | nil => exact ⟨l, List.mem_singleton_self l, by simpa using h⟩
      | cons k ls =>
          rw [List.intercalate_cons_cons, List.append_assoc, List.singleton_append] at h
          rcases h.of_append_cons hword (by decide) (by decide) with hl | hls
          · exact ⟨l, List.mem_cons_self .., hl⟩
          · obtain ⟨l', hl', hmention⟩ := ih hls
            exact ⟨l', List.mem_cons_of_mem _ hl', hmention⟩

/-! ### Stretches that are read -/

theorem stretch_trimEnds (cs : List Char) : Stretch cs (trimEnds isBlank cs) := by
  obtain ⟨back, hback, hblank⟩ := exists_trimBack_append isBlank (trimFront isBlank cs)
  refine ⟨cs.takeWhile isBlank, back, ?_, ?_⟩
  · rw [trimEnds, ← hback]
    exact List.takeWhile_append_dropWhile.symm
  · cases back with
    | nil => rfl
    | cons c back =>
        rw [List.all_cons, Bool.and_eq_true] at hblank
        exact endsWord_cons (isWord_eq_false_of_isBlank hblank.1) back

theorem stretch_dropGutter (line : List Char) : Stretch line (dropGutter line) := by
  rw [dropGutter]
  split
  · rename_i rest hrest
    have hline : line = line.takeWhile isBlank ++ '*' :: rest := by
      rw [← hrest]
      exact List.takeWhile_append_dropWhile.symm
    refine ⟨line.takeWhile isBlank ++ '*' :: rest.takeWhile (· == '*'), [], ?_, rfl⟩
    rw [List.append_nil, List.append_assoc, List.cons_append, List.takeWhile_append_dropWhile]
    exact hline
  · exact Stretch.suffix [] line

theorem stretch_dropDelimiters (cs : List Char) : Stretch cs (dropDelimiters cs) := by
  have hopen : Stretch cs ((after? ['/', '*'] cs).getD cs) := by
    cases h : after? ['/', '*'] cs with
    | none => exact Stretch.suffix [] cs
    | some rest =>
        rw [eq_append_of_after? h]
        exact Stretch.suffix ['/', '*'] rest
  refine hopen.trans ?_
  rw [dropDelimiters]
  generalize (after? ['/', '*'] cs).getD cs = inside
  cases h : after? ['/', '*'] inside.reverse with
  | none => exact Stretch.suffix [] inside
  | some rest =>
      refine ⟨[], ['*', '/'], ?_, rfl⟩
      rw [← List.reverse_reverse inside, eq_append_of_after? h, List.reverse_append]
      rfl

theorem endsWord_of_isBreak {c : Char} (h : isBreak c = true) (cs : List Char) :
    EndsWord (c :: cs) :=
  endsWord_cons (isWord_eq_false_of_isBlank (isBlank_of_isBreak h)) cs

theorem linesOf_ne_nil {cs : List Char} (h : cs ≠ []) : linesOf cs ≠ [] := by
  fun_induction linesOf cs with
  | case1 => exact absurd rfl h
  | case2 | case3 | case4 | case5 => exact List.cons_ne_nil _ _

/-- The first line begins the text. -/
theorem exists_append_of_linesOf_cons {cs l : List Char} {ls : List (List Char)}
    (h : linesOf cs = l :: ls) : ∃ back, cs = l ++ back ∧ EndsWord back := by
  fun_induction linesOf cs generalizing l ls with
  | case1 => cases h
  | case2 cs ih =>
      cases h
      exact ⟨_, rfl, endsWord_of_isBreak (by decide) _⟩
  | case3 c cs _ hbreak ih =>
      cases h
      exact ⟨_, rfl, endsWord_of_isBreak hbreak cs⟩
  | case4 c cs _ hbreak hnil ih =>
      cases h
      cases not_not.1 fun hne => linesOf_ne_nil hne hnil
      exact ⟨[], rfl, rfl⟩
  | case5 c cs _ hbreak l' ls' hlines ih =>
      cases h
      obtain ⟨back, rfl, hback⟩ := ih hlines
      exact ⟨back, rfl, hback⟩

theorem stretch_of_mem_linesOf {cs l : List Char} (h : l ∈ linesOf cs) : Stretch cs l := by
  fun_induction linesOf cs generalizing l with
  | case1 => cases h
  | case2 cs ih =>
      rcases List.mem_cons.1 h with rfl | h
      · exact ⟨[], _, rfl, endsWord_of_isBreak (by decide) _⟩
      · exact (Stretch.suffix ['\r', '\n'] cs).trans (ih h)
  | case3 c cs _ hbreak ih =>
      rcases List.mem_cons.1 h with rfl | h
      · exact ⟨[], _, rfl, endsWord_of_isBreak hbreak cs⟩
      · exact (Stretch.suffix [c] cs).trans (ih h)
  | case4 c cs _ hbreak hnil ih =>
      rw [List.mem_singleton.1 h]
      cases not_not.1 fun hne => linesOf_ne_nil hne hnil
      exact Stretch.suffix [] [c]
  | case5 c cs _ hbreak k ks hlines ih =>
      rcases List.mem_cons.1 h with rfl | h
      · obtain ⟨back, rfl, hback⟩ := exists_append_of_linesOf_cons hlines
        exact ⟨[], back, rfl, hback⟩
      · exact (Stretch.suffix [c] cs).trans (ih (hlines ▸ List.mem_cons_of_mem _ h))

theorem exists_append_of_piecesOf_cons {p : Char → Bool} (hp : ∀ c, p c = true → isWord c = false)
    {cs l : List Char} {ls : List (List Char)} (h : piecesOf p cs = l :: ls) :
    ∃ back, cs = l ++ back ∧ EndsWord back := by
  fun_induction piecesOf p cs generalizing l ls with
  | case1 =>
      cases h
      exact ⟨[], rfl, rfl⟩
  | case2 c cs hc ih =>
      cases h
      exact ⟨_, rfl, endsWord_cons (hp c hc) cs⟩
  | case3 c cs hc hnil => exact absurd hnil (piecesOf_ne_nil p cs)
  | case4 c cs hc k ks hpieces ih =>
      cases h
      obtain ⟨back, rfl, hback⟩ := ih hpieces
      exact ⟨back, rfl, hback⟩

theorem stretch_of_mem_piecesOf {p : Char → Bool} (hp : ∀ c, p c = true → isWord c = false)
    {cs l : List Char} (h : l ∈ piecesOf p cs) : Stretch cs l := by
  fun_induction piecesOf p cs generalizing l with
  | case1 =>
      rw [List.mem_singleton.1 h]
      exact Stretch.suffix [] []
  | case2 c cs hc ih =>
      rcases List.mem_cons.1 h with rfl | h
      · exact ⟨[], _, rfl, endsWord_cons (hp c hc) cs⟩
      · exact (Stretch.suffix [c] cs).trans (ih h)
  | case3 c cs hc hnil => exact absurd hnil (piecesOf_ne_nil p cs)
  | case4 c cs hc k ks hpieces ih =>
      rcases List.mem_cons.1 h with rfl | h
      · obtain ⟨back, rfl, hback⟩ := exists_append_of_piecesOf_cons hp hpieces
        exact ⟨[], back, rfl, hback⟩
      · exact (Stretch.suffix [c] cs).trans (ih (hpieces ▸ List.mem_cons_of_mem _ h))

/-! ### Tags that are read -/

/-- The chunks hold the lines. -/
theorem flatten_chunksOf (ls : List (List Char)) : (chunksOf ls).flatten = ls := by
  fun_induction chunksOf ls with
  | case1 => rfl
  | case2 l ls hnil ih =>
      rw [hnil] at ih
      rw [← ih]
      rfl
  | case3 l ls c cs hchunks htag ih =>
      rw [hchunks] at ih
      rw [← ih]
      rfl
  | case4 l ls c cs hchunks htag ih =>
      rw [hchunks] at ih
      rw [← ih]
      rfl

theorem mentioned_of_readTitle {cs rest : List Char} {title : String}
    (h : readTitle cs = some (title, rest)) :
    ∃ word : List Char, (∀ x ∈ word, isWord x = true) ∧ title = String.ofList word ∧
      Mentioned word cs := by
  rw [readTitle.eq_def] at h
  split at h
  · rename_i cs
    refine ⟨cs.takeWhile isWord, List.all_eq_true.1 List.all_takeWhile, ?_, ?_⟩
    · split at h
      · cases h
      · cases h
        rfl
    · refine ⟨[], cs.dropWhile isWord, ?_, ?_⟩
      · rw [List.nil_append, List.cons_append, List.takeWhile_append_dropWhile]
      · have hend := List.head?_dropWhile_not isWord cs
        rw [EndsWord]
        cases hhead : (cs.dropWhile isWord).head? with
        | none => rfl
        | some c =>
            rw [hhead] at hend
            exact hend
  · cases h

/-- What the unwrapped text mentions is mentioned in the raw text. -/
theorem mentioned_of_mentioned_unwrapChars {raw word : List Char}
    (hword : ∀ x ∈ word, isWord x = true) (h : Mentioned word (unwrapChars raw)) :
    Mentioned word raw := by
  have hjoined := (stretch_trimEnds _).trans h
  obtain ⟨row, hrow, hmention⟩ := Mentioned.of_intercalate hword hjoined
  obtain ⟨line, hline, rfl⟩ := List.mem_map.1 hrow
  exact (stretch_trimEnds raw).trans <| (stretch_dropDelimiters _).trans <|
    (stretch_of_mem_linesOf hline).trans <| (stretch_dropGutter line).trans <|
      (stretch_trimEnds _).trans hmention

namespace Comment

/-- Every tag of the comment was read from one of the chunks. -/
theorem exists_chunk_of_mem_tags {chunks : List (List (List Char))} {doc : Comment} {tag : Tag}
    (h : tag ∈ (chunks.foldl addChunk doc).tags) : tag ∈ doc.tags ∨
      ∃ chunk ∈ chunks, Tag.read? (trimEnds isBlank (['\n'].intercalate chunk)) = some tag := by
  induction chunks generalizing doc with
  | nil => exact .inl h
  | cons chunk chunks ih =>
      rcases ih h with hmem | ⟨chunk', hchunk', hread⟩
      · rw [addChunk] at hmem
        split at hmem
        · rw [tags_describe] at hmem
          exact .inl hmem
        · rename_i tag' hread
          split at hmem
          · rw [tags_describe] at hmem
            exact .inl hmem
          · rcases List.mem_append.1 hmem with hmem | hmem
            · exact .inl hmem
            · rw [List.mem_singleton.1 hmem]
              exact .inr ⟨chunk, List.mem_cons_self .., hread⟩
      · exact .inr ⟨chunk', List.mem_cons_of_mem _ hchunk', hread⟩

/-- A tag that is read stands in the raw text. -/
theorem exists_mentioned_of_mem_tags {raw : String} {tag : Tag} (h : tag ∈ (read raw).tags) :
    ∃ word : List Char, tag.title = canonicalTitle (String.ofList word) ∧
      Mentioned word raw.toList := by
  rcases exists_chunk_of_mem_tags h with hmem | ⟨chunk, hchunk, hread⟩
  · cases hmem
  · obtain ⟨⟨title, rest⟩, htitle, rfl⟩ := Option.map_eq_some_iff.1 hread
    obtain ⟨word, hword, rfl, hmention⟩ := mentioned_of_readTitle htitle
    obtain ⟨line, hline, hmention⟩ :=
      Mentioned.of_intercalate hword ((stretch_trimEnds _).trans hmention)
    have hpiece : line ∈ piecesOf (· == '\n') (unwrapChars raw.toList) := by
      rw [← flatten_chunksOf (piecesOf _ _)]
      exact List.mem_flatten.2 ⟨chunk, hchunk, hline⟩
    have hbreak (c : Char) (hc : (c == '\n') = true) : isWord c = false := by
      rw [eq_of_beq hc]
      decide
    exact ⟨word, rfl, mentioned_of_mentioned_unwrapChars hword
      ((stretch_of_mem_piecesOf hbreak hpiece).trans hmention)⟩

/-- A comment that defines a type is detached. -/
theorem isDetached_of_has_typedef {raw : String} (h : (read raw).has "typedef" = true) :
    isDetached raw = true := by
  obtain ⟨tag, htag, htitle⟩ := List.any_eq_true.1 h
  obtain ⟨word, hword, hmention⟩ := exists_mentioned_of_mem_tags htag
  rw [of_decide_eq_true htitle] at hword
  have hspelled : String.ofList word = "typedef" := by
    unfold canonicalTitle at hword
    split at hword <;> first | exact hword.symm | exact absurd hword (by decide)
  have htypedef : Mentioned "typedef".toList raw.toList := by
    rw [← hspelled, String.toList_ofList]
    exact hmention
  exact mentions_of_mentioned (List.mem_cons_self ..) htypedef

end Comment

end Ambient.Doc
