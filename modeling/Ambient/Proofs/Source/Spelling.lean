import Ambient.Proofs.Source.Take

/-!
# Spelt words and strings

The texts that are read as one word before a blank, and as one string between double quotes.  A word
is spelt with characters that may stand in one and with characters given by their code points.
-/

namespace Ambient.Source

open Reader

/-! ### Words -/

/-- What a word may go on with. -/
inductive WordTail : List Char → Prop where
  | nil : WordTail []
  | part {c : Char} {cs : List Char} : isWordPart c = true → WordTail cs → WordTail (c :: cs)
  /-- A code point of four digits; the digits may stand in a word themselves. -/
  | fixed {cs : List Char} : 4 ≤ cs.length → (cs.take 4).all isHex = true → WordTail cs →
      WordTail ('\\' :: 'u' :: cs)
  /-- A code point in braces. -/
  | braced {digits cs : List Char} : digits ≠ [] → digits.all isHex = true → WordTail cs →
      WordTail ('\\' :: 'u' :: '{' :: (digits ++ '}' :: cs))

/-- A word: it is not empty, and it does not begin with a digit. -/
structure IsWord (w : List Char) : Prop where
  tail : WordTail w
  head : ∃ c cs, w = c :: cs ∧ c.isDigit = false

/-- A word that is not reserved. -/
structure IsName (name : String) : Prop where
  word : IsWord name.toList
  free : name ∉ reserved

/-- What a word may begin with: a character of one, or the backslash of a code point. -/
def isWordHead (c : Char) : Bool :=
  isWordStart c || c == '\\'

/-- No word begins here. -/
def isWordless : List Char → Bool
  | [] => true
  | c :: _ => !isWordHead c

variable {w more : List Char}

theorem isWord_of_all (hhead : w.head?.any (!·.isDigit) = true) (h : w.all isWordPart = true) :
    IsWord w := by
  constructor
  · clear hhead
    induction w with
    | nil => exact .nil
    | cons c cs ih =>
        rw [List.all_cons, Bool.and_eq_true] at h
        exact .part h.1 (ih h.2)
  · cases w with
    | nil => cases hhead
    | cons c cs => exact ⟨c, cs, rfl, by simpa using hhead⟩

theorem wordLength?_of_isWordless {cs : List Char} (h : isWordless cs = true) :
    wordLength? cs = none := by
  cases cs with
  | nil => rfl
  | cons c cs =>
      rw [isWordless, Bool.not_eq_true', isWordHead, Bool.or_eq_false_iff] at h
      have hne : c ≠ '\\' := by simpa using h.2
      have hcode : codePointLength? (c :: cs) = none := by
        rw [codePointLength?]
        · rintro _ ⟨⟩
          exact hne rfl
        · rintro _ _ _ _ _ ⟨⟩
          exact hne rfl
      rw [wordLength?, h.1, hcode]
      rfl

theorem wordAt_of_isWordless {cs : List Char} (h : isWordless cs = true) : wordAt cs = "" := by
  rw [wordAt, wordLength?_of_isWordless h]
  rfl

theorem wordRest_part {c : Char} {cs : List Char} (h : isWordPart c = true) :
    wordRest false (c :: cs) = wordRest false cs + 1 := by
  have hne : c ≠ '\\' := by
    rintro rfl
    cases h
  rw [wordRest]
  · rw [if_pos h]
  · intro _ hc _
    exact hne hc
  · intro _ hc _
    exact hne hc

theorem wordRest_fixed {cs : List Char} (hlength : 4 ≤ cs.length)
    (hhex : (cs.take 4).all isHex = true) :
    wordRest false ('\\' :: 'u' :: (cs ++ more)) = wordRest false (cs ++ more) + 2 := by
  have htake : (cs ++ more).take 4 = cs.take 4 := List.take_append_of_le_length hlength
  rw [wordRest]
  · rw [htake, if_pos hhex]
  · rintro _ hbrace
    rw [hbrace] at htake
    rw [← htake] at hhex
    cases hhex

theorem wordRest_digits {digits : List Char} (h : digits.all isHex = true) (cs : List Char) :
    wordRest true (digits ++ '}' :: cs) = digits.length + (wordRest false cs + 1) := by
  induction digits with
  | nil =>
      rw [List.nil_append, wordRest, List.length_nil, Nat.zero_add]
      rfl
  | cons d digits ih =>
      rw [List.all_cons, Bool.and_eq_true] at h
      rw [List.cons_append, wordRest, if_pos h.1, ih h.2, List.length_cons]
      omega

theorem wordRest_tail (h : WordTail w) : wordRest false (w ++ ' ' :: more) = w.length := by
  induction h with
  | nil => rfl
  | part hc _ ih => rw [List.cons_append, wordRest_part hc, ih, List.length_cons]
  | fixed hlength hhex _ ih =>
      rw [List.cons_append, List.cons_append, wordRest_fixed hlength hhex, ih]
      rfl
  | @braced digits cs _ hhex _ ih =>
      rw [List.cons_append, List.cons_append, List.cons_append, List.append_assoc,
        List.cons_append, wordRest, wordRest_digits hhex, ih]
      simp only [List.length_cons, List.length_append]

theorem isSome_codePointLength?_fixed {cs : List Char} (hlength : 4 ≤ cs.length)
    (hhex : (cs.take 4).all isHex = true) :
    (codePointLength? ('\\' :: 'u' :: (cs ++ more))).isSome = true := by
  match cs, hlength with
  | a :: b :: c :: d :: cs, _ =>
      have hfour : (isHex a && (isHex b && (isHex c && isHex d))) = true := by simpa using hhex
      have hne : a ≠ '{' := by
        rintro rfl
        cases hfour
      simp only [List.cons_append]
      rw [codePointLength?]
      · rw [if_pos (by simpa [and_assoc] using hfour)]
        rfl
      · exact hne

theorem isSome_codePointLength?_braced {digits cs : List Char} (hne : digits ≠ [])
    (hhex : digits.all isHex = true) :
    (codePointLength? ('\\' :: 'u' :: '{' :: (digits ++ '}' :: cs))).isSome = true := by
  have htake : (digits ++ '}' :: cs).takeWhile isHex = digits := by
    rw [List.takeWhile_append_of_pos (List.all_eq_true.1 hhex)]
    exact List.append_nil _
  rw [codePointLength?, htake, List.drop_left, if_pos]
  · rfl
  · simpa using hne

theorem wordLength?_of_codePoint {cs : List Char}
    (h : (codePointLength? ('\\' :: cs)).isSome = true) :
    wordLength? ('\\' :: cs) = some (wordRest false ('\\' :: cs)) := by
  obtain ⟨n, hn⟩ := Option.isSome_iff_exists.1 h
  rw [wordLength?, hn]
  rfl

theorem wordLength?_word (h : IsWord w) : wordLength? (w ++ ' ' :: more) = some w.length := by
  have hrest : wordRest false (w ++ ' ' :: more) = w.length := wordRest_tail h.tail
  obtain ⟨c, cs, hw, hdigit⟩ := h.head
  cases h.tail with
  | nil => cases hw
  | @part c' _ hc =>
      rw [← (List.cons.inj hw).1] at hdigit
      have hstart : isWordStart c' = true := by simpa [isWordPart, hdigit] using hc
      rw [List.cons_append, wordRest_part hc] at hrest
      rw [List.cons_append, wordLength?, if_pos hstart, hrest]
  | fixed hlength hhex =>
      rw [← hrest]
      exact wordLength?_of_codePoint (isSome_codePointLength?_fixed hlength hhex)
  | braced hne hhex =>
      rw [← hrest]
      simp only [List.cons_append, List.append_assoc]
      exact wordLength?_of_codePoint (isSome_codePointLength?_braced hne hhex)

theorem wordAt_word (h : IsWord w) : wordAt (w ++ ' ' :: more) = String.ofList w := by
  rw [wordAt, wordLength?_word h, Option.getD_some, List.take_left]

theorem IsWord.exists_cons (h : IsWord w) : ∃ c cs, w = c :: cs ∧ isWordHead c = true := by
  obtain ⟨c, cs, hw, hdigit⟩ := h.head
  cases h.tail with
  | nil => cases hw
  | @part c' cs' hc =>
      rw [← (List.cons.inj hw).1] at hdigit
      refine ⟨c', cs', rfl, ?_⟩
      rw [isWordHead, ← Bool.or_false (isWordStart c'), ← hdigit, ← isWordPart, hc]
      rfl
  | fixed => exact ⟨_, _, rfl, rfl⟩
  | braced => exact ⟨_, _, rfl, rfl⟩

theorem ne_of_isWordHead {c d : Char} (hc : isWordHead c = true) (hd : isWordHead d = false) :
    c ≠ d := by
  rintro rfl
  rw [hc] at hd
  cases hd

theorem isSolid_of_isWordHead {c : Char} {cs : List Char} (hc : isWordHead c = true) :
    isSolid (c :: cs) = true := by
  have hspace : isSpace c = false := by
    rw [isWordHead, Bool.or_eq_true, beq_iff_eq] at hc
    rcases hc with hc | rfl
    · rw [isWordStart] at hc
      simp only [Bool.not_eq_true', Bool.or_eq_false_iff] at hc
      exact hc.1.1.2
    · rfl
  have hslash := ne_of_isWordHead hc (d := '/') rfl
  have hless := ne_of_isWordHead hc (d := '<') rfl
  have hdash := ne_of_isWordHead hc (d := '-') rfl
  rw [isSolid, hspace]
  simp [hslash, hless, hdash]

theorem isSolid_word (h : IsWord w) : isSolid (w ++ more) = true := by
  obtain ⟨c, cs, rfl, hc⟩ := h.exists_cons
  exact isSolid_of_isWordHead hc

/-! ### Readers of words -/

variable {α : Type} {text : List Char} {P : α → Prop}

theorem takes_wordHere {f : String → Reader α} (hf : Takes (f (wordAt (text ++ more))) text more P) :
    Takes (wordHere >>= f) text more P := by
  intro c hc
  have hread := hf c hc
  rw [← hc] at hread
  exact hread

theorem fails_wordHere {f : String → Reader α} (hf : Fails (f (wordAt more)) more) :
    Fails (wordHere >>= f) more := by
  intro c hc
  have hread := hf c hc
  rw [← hc] at hread
  exact hread

theorem takes_word (blanks : List Char) {text : String} (htext : IsWord text.toList)
    (hblanks : blanks.all isSpace = true) :
    Takes (word text) (blanks ++ text.toList) (' ' :: more)
      (·.map Node.code = [sign text]) := by
  refine (takes_gap blanks hblanks (isSolid_word htext)).bind fun comments hcomments =>
    takes_wordHere (.require ?_ ?_)
  · rw [wordAt_word htext, String.ofList_toList, beq_self_eq_true]
  · rw [← String.length_toList]
    refine Takes.last .leaf fun n hn => ?_
    subst hcomments
    exact congrArg (fun x => [x]) hn

theorem fails_word (blanks : List Char) {text : String} (hblanks : blanks.all isSpace = true)
    (hsolid : isSolid more = true) (hne : wordAt more ≠ text) :
    Fails (word text) (blanks ++ more) :=
  .behind (takes_gap blanks hblanks hsolid) fun _ _ => fails_wordHere (.require (beq_false_of_ne hne))

theorem fails_word_of_isWordless (blanks : List Char) {text : String}
    (hblanks : blanks.all isSpace = true) (hsolid : isSolid more = true)
    (hmore : isWordless more = true) (htext : text ≠ "") : Fails (word text) (blanks ++ more) :=
  fails_word blanks hblanks hsolid (by rw [wordAt_of_isWordless hmore]; exact htext.symm)

theorem takes_anyWord (k : Kind) (h : IsWord w) :
    Takes (anyWord k) w (' ' :: more) (·.code = coded k w []) := by
  refine .ahead ?_
  rw [wordLength?_word h]
  exact .leaf

theorem takes_identifier {name : String} (h : IsName name) :
    Takes identifier name.toList (' ' :: more)
      (·.code = coded .identifier name.toList []) := by
  refine takes_wordHere (.require ?_ (takes_anyWord .identifier h.word))
  rw [wordAt_word h.word, String.ofList_toList]
  simpa using h.free

theorem fails_anyWord (k : Kind) (h : isWordless more = true) : Fails (anyWord k) more := by
  refine .ahead ?_
  rw [wordLength?_of_isWordless h]
  exact .failure

theorem fails_nameWord (k : Kind) (h : isWordless more = true) : Fails (nameWord k) more := by
  refine fails_wordHere ?_
  rw [wordAt_of_isWordless h]
  exact .past rfl (fails_anyWord k h)

/-! ### Strings -/

/-- A character that stands for itself between double quotes. -/
def isPlain (c : Char) : Bool :=
  !(c == '"' || c == '\\' || c == '\r' || c == '\n')

/-- The codes of what stands between two quotes. -/
def fragments (path : List Char) : List Node :=
  if path = [] then [] else [coded .stringFragment path []]

/-- The code of a string of plain characters. -/
def quoted (path : List Char) : Node :=
  coded .string ('"' :: (path ++ ['"'])) (sign "\"" :: (fragments path ++ [sign "\""]))

theorem unquoted_quoted (path : List Char) : (quoted path).unquoted = String.ofList path := by
  rw [quoted, coded, Node.unquoted]
  simp

variable {path : List Char}

theorem takeWhile_isPlain (h : path.all isPlain = true) :
    (path ++ '"' :: more).takeWhile isPlain = path := by
  rw [List.takeWhile_append_of_pos (List.all_eq_true.1 h)]
  exact List.append_nil _

theorem takes_stringPart (h : path.all isPlain = true) (hne : path ≠ []) :
    Takes (stringPart '"') path ('"' :: more)
      (·.map Node.code = [coded .stringFragment path []]) := by
  refine .ahead ?_
  have hrun : (path ++ '"' :: more).takeWhile
      (fun c => !(c == '"' || c == '\\' || c == '\r' || c == '\n')) = path := takeWhile_isPlain h
  have hsome : (!path.isEmpty) = true := by simpa using hne
  dsimp only
  rw [hrun, if_pos hsome]
  exact Takes.last .leaf fun n hn => congrArg (fun x => [x]) hn

theorem fails_stringPart : Fails (stringPart '"') ('"' :: more) :=
  .ahead .failure

theorem takes_fragments (h : path.all isPlain = true) {limit : Nat} (hlimit : 0 < limit) :
    Takes (many (stringPart '"') limit) path ('"' :: more)
      (·.map Node.code = fragments path) := by
  rw [fragments]
  split
  next hnil =>
    subst hnil
    exact (Takes.nothing fails_stringPart limit).imp fun ns hns => by rw [hns]; rfl
  next hne => exact .single (takes_stringPart h hne) hne fails_stringPart hlimit

theorem takes_string (h : path.all isPlain = true) :
    Takes string ('"' :: (path ++ ['"'])) more (·.code = quoted path) := by
  refine .ahead (.require rfl (.node ?_))
  have hopening : Takes (here "\"") ['"'] (path ++ ['"'] ++ more) (·.code = sign "\"") :=
    takes_here "\""
  refine hopening.bind fun opening hopening =>
    Takes.bound.after fun limit hlimit =>
      (takes_fragments h hlimit).bind fun parts hparts =>
        (takes_token [] "\"" rfl rfl).last fun closing hclosing => ?_
  rw [List.map_append, List.map_cons, hopening, hparts, hclosing]
  rfl

theorem fails_string {c : Char} {cs : List Char} (hdouble : c ≠ '"') (hsingle : c ≠ '\x27') :
    Fails string (c :: cs) :=
  .ahead (.require (by simp [hdouble, hsingle]))

end Ambient.Source
