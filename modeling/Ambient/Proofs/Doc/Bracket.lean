import Ambient.Proofs.Doc.Entry
import Mathlib.Data.List.TakeWhile

/-!
# Matching brackets

The scanners of tags count brackets, and here balance is said by counting too: no beginning of the
text has more closing brackets than opening ones, and the whole text has as many of both.  A scan
that starts behind an opening bracket stops at the bracket that closes it, wherever there is one,
and loses no character.  From this follows what the readers of a type in braces and of a name, which may
stand in brackets, take from any text and what they leave.
-/

namespace Ambient.Doc

open Ambient.Text

variable {opening closing : Char} {depth : Nat}

/-! ### Balance by counting -/

/-- Behind `depth` open brackets, the text closes no more brackets than are open, and in the end it
has closed them all. -/
structure Level (opening closing : Char) (depth : Nat) (cs : List Char) : Prop where
  never_below : ∀ front, front <+: cs → front.count closing ≤ front.count opening + depth
  closed : cs.count closing = cs.count opening + depth

theorem level_nil : Level opening closing depth [] ↔ depth = 0 := by
  constructor
  · intro h
    simpa using h.closed.symm
  · rintro rfl
    exact ⟨fun front hfront => by simp [List.prefix_nil.1 hfront], rfl⟩

/-- Balance behind a character that changes how many brackets are open from `depth` to `next`. -/
theorem level_cons {c : Char} {next : Nat} (w : List Char)
    (hc : ∀ v : List Char, (c :: v).count closing + v.count opening + next =
      v.count closing + (c :: v).count opening + depth) :
    Level opening closing depth (c :: w) ↔ Level opening closing next w := by
  constructor
  · rintro ⟨hbelow, hclosed⟩
    refine ⟨fun front hfront => ?_, ?_⟩
    · have hle := hbelow (c :: front) ((List.prefix_cons_inj c).2 hfront)
      have := hc front
      omega
    · have := hc w
      omega
  · rintro ⟨hbelow, hclosed⟩
    refine ⟨fun front hfront => ?_, ?_⟩
    · rcases List.prefix_cons_iff.1 hfront with rfl | ⟨v, rfl, hv⟩
      · simp
      · have hle := hbelow v hv
        have := hc v
        omega
    · have := hc w
      omega

theorem level_other {c : Char} (hopening : c ≠ opening) (hclosing : c ≠ closing) (w : List Char) :
    Level opening closing depth (c :: w) ↔ Level opening closing depth w :=
  level_cons w fun v => by
    rw [List.count_cons_of_ne hopening, List.count_cons_of_ne hclosing]

theorem level_opening (hne : opening ≠ closing) (w : List Char) :
    Level opening closing depth (opening :: w) ↔ Level opening closing (depth + 1) w :=
  level_cons w fun v => by
    rw [List.count_cons_of_ne hne, List.count_cons_self]
    omega

theorem level_closing (hne : opening ≠ closing) (w : List Char) :
    Level opening closing (depth + 1) (closing :: w) ↔ Level opening closing depth w :=
  level_cons w fun v => by
    rw [List.count_cons_of_ne hne.symm, List.count_cons_self]
    omega

theorem not_level_closing (hne : opening ≠ closing) (w : List Char) :
    ¬ Level opening closing 0 (closing :: w) := by
  intro h
  have hle := h.never_below [closing] ⟨w, rfl⟩
  simp [List.count_cons_of_ne hne.symm] at hle

/-! ### The scan -/

theorem untilClose_closing_zero (hne : opening ≠ closing) (rest : List Char) :
    untilClose opening closing 0 (closing :: rest) = some ([], rest) :=
  untilClose_balanced hne .nil rest

theorem map_cons_eq_some {c : Char} {x : Option (List Char × List Char)} {a b : List Char} :
    x.map (fun r => (c :: r.1, r.2)) = some (a, b) ↔ ∃ v, a = c :: v ∧ x = some (v, b) := by
  constructor
  · intro h
    obtain ⟨⟨v, w⟩, hx, hvw⟩ := Option.map_eq_some_iff.1 h
    cases hvw
    exact ⟨v, rfl, hx⟩
  · rintro ⟨v, rfl, rfl⟩
    rfl

/-- The scan stops exactly at the bracket before which the text is balanced. -/
theorem untilClose_eq_some_iff (hne : opening ≠ closing) {cs a b : List Char} :
    untilClose opening closing depth cs = some (a, b) ↔
      cs = a ++ closing :: b ∧ Level opening closing depth a := by
  induction cs generalizing depth a with
  | nil =>
      simp [untilClose]
  | cons c cs ih =>
      -- Unless the scan stops here, the first character goes to the text before the bracket.
      have hstep {next : Nat} (hscan : untilClose opening closing depth (c :: cs) =
            (untilClose opening closing next cs).map fun r => (c :: r.1, r.2))
          (hlevel : ∀ w, Level opening closing depth (c :: w) ↔ Level opening closing next w)
          (hstop : c = closing → depth ≠ 0) :
          untilClose opening closing depth (c :: cs) = some (a, b) ↔
            c :: cs = a ++ closing :: b ∧ Level opening closing depth a := by
        rw [hscan, map_cons_eq_some]
        constructor
        · rintro ⟨v, rfl, hv⟩
          obtain ⟨hcs, hbalance⟩ := ih.1 hv
          exact ⟨by rw [hcs, List.cons_append], (hlevel v).2 hbalance⟩
        · rintro ⟨hsplit, ha⟩
          cases a with
          | nil => exact absurd (level_nil.1 ha) (hstop (List.cons.inj hsplit).1)
          | cons d v =>
              obtain ⟨rfl, hcs⟩ := List.cons.inj hsplit
              exact ⟨v, rfl, ih.2 ⟨hcs, (hlevel v).1 ha⟩⟩
      by_cases hopening : c = opening
      · subst hopening
        exact hstep (untilClose_opening depth cs) (level_opening hne) fun h => absurd h hne
      · by_cases hclosing : c = closing
        · subst hclosing
          cases depth with
          | zero =>
              rw [untilClose_closing_zero hne]
              constructor
              · rintro ⟨⟩
                exact ⟨rfl, level_nil.2 rfl⟩
              · rintro ⟨hsplit, ha⟩
                cases a with
                | nil => rw [(List.cons.inj hsplit).2]
                | cons d v =>
                    rw [← (List.cons.inj hsplit).1] at ha
                    exact (not_level_closing hne v ha).elim
          | succ d =>
              exact hstep (untilClose_closing hne d cs) (level_closing hne) fun _ =>
                Nat.succ_ne_zero d
        · exact hstep (untilClose_other hopening hclosing depth cs)
            (level_other hopening hclosing) fun h => absurd h hclosing

/-! ### Braces -/

/-- The text is `inner` between brackets, balanced inside, and `rest` behind them. -/
structure Encloses (opening closing : Char) (text inner rest : List Char) : Prop where
  split : text = opening :: (inner ++ closing :: rest)
  level : Level opening closing 0 inner

theorem encloses_iff_untilClose (hne : opening ≠ closing) {inside inner rest : List Char} :
    Encloses opening closing (opening :: inside) inner rest ↔
      untilClose opening closing 0 inside = some (inner, rest) := by
  rw [untilClose_eq_some_iff hne]
  constructor
  · rintro ⟨hsplit, hlevel⟩
    exact ⟨(List.cons.inj hsplit).2, hlevel⟩
  · rintro ⟨rfl, hlevel⟩
    exact ⟨rfl, hlevel⟩

/-- What is read from a text that begins with a brace: the inside of the braces and the text behind
them wherever the braces match, which they do in at most one way, and else all of the text. -/
structure BracedReading (text : List Char) (r : List Char × List Char) : Prop where
  cases : Encloses '{' '}' text r.1 r.2 ∨ r.2 = [] ∧ text = '{' :: r.1
  exact : Encloses '{' '}' text r.1 r.2 ↔ ∃ inner rest, Encloses '{' '}' text inner rest
  unique : ∀ inner rest, Encloses '{' '}' text inner rest → (inner, rest) = r

theorem bracedReading_readBraced (inside : List Char) :
    BracedReading ('{' :: inside) (readBraced inside) := by
  have hne : '{' ≠ '}' := by decide
  rw [readBraced]
  cases hscan : untilClose '{' '}' 0 inside with
  | some r =>
      have hr : Encloses '{' '}' ('{' :: inside) r.1 r.2 := (encloses_iff_untilClose hne).2 hscan
      refine ⟨.inl hr, ⟨fun h => ⟨_, _, h⟩, fun _ => hr⟩, fun inner rest h => ?_⟩
      rw [encloses_iff_untilClose hne, hscan] at h
      exact (Option.some.inj h).symm
  | none =>
      have hnone : ∀ inner rest, ¬ Encloses '{' '}' ('{' :: inside) inner rest := by
        intro inner rest h
        rw [encloses_iff_untilClose hne, hscan] at h
        cases h
      refine ⟨.inr ⟨rfl, rfl⟩, ⟨fun h => ⟨_, _, h⟩, ?_⟩, fun inner rest h => (hnone _ _ h).elim⟩
      rintro ⟨inner, rest, h⟩
      exact (hnone _ _ h).elim

/-! ### Names -/

/-- The name that a text between brackets spells, none when it is blank. -/
def nameIn (cs : List Char) : Option String :=
  if cs.all isBlank then none else some (String.ofList (trimEnds isBlank cs))

theorem trimEnds_eq_nil_iff {p : Char → Bool} {cs : List Char} :
    trimEnds p cs = [] ↔ cs.all p = true := by
  constructor
  · intro h
    obtain ⟨tail, htail, hall⟩ := exists_trimBack_append p (trimFront p cs)
    rw [← trimEnds, h, List.nil_append] at htail
    rw [← List.takeWhile_append_dropWhile (p := p) (l := cs), List.all_append,
      List.all_takeWhile, Bool.true_and]
    rw [trimFront] at htail
    rw [htail, hall]
  · intro h
    have hfront : trimFront p cs = [] := List.dropWhile_eq_nil_iff.2 (List.all_eq_true.1 h)
    rw [trimEnds, hfront, trimBack_nil]

theorem nonEmpty?_trimEnds (cs : List Char) :
    nonEmpty? (String.ofList (trimEnds isBlank cs)) = nameIn cs := by
  rw [nameIn]
  split
  · rename_i hblank
    rw [trimEnds_eq_nil_iff.2 hblank]
    rfl
  · rename_i hblank
    refine nonEmpty?_of_ne fun h => hblank (trimEnds_eq_nil_iff.1 ?_)
    simpa using congrArg String.toList h

/-- A name read from between brackets: what stands before the first equals sign, and as its default
what stands behind it. -/
structure OptionalReading (inner rest : List Char) (r : NameReading) : Prop where
  optional : r.optional = true
  rest : r.rest = rest
  plain : '=' ∉ inner → r.name = nameIn inner ∧ r.default = none
  defaulted : ∀ name default, inner = name ++ '=' :: default → '=' ∉ name →
    r.name = nameIn name ∧ r.default = some (String.ofList (trimEnds isBlank default))

/-- A name read as a word: the longest beginning of the text without blanks. -/
structure WordReading (text : List Char) (r : NameReading) : Prop where
  optional : r.optional = false
  default : r.default = none
  whole : text = (r.name.getD "").toList ++ r.rest
  absent : r.name = none ↔ text = []
  solid : ∀ word ∈ r.name, word ≠ "" ∧ ∀ c ∈ word.toList, isBlank c = false
  longest : ∀ c ∈ r.rest.head?, isBlank c = true

theorem optionalReading_readOptional (inner rest : List Char) :
    OptionalReading inner rest (readOptional inner rest) := by
  have hequals {cs : List Char} (h : '=' ∉ cs) : ∀ c ∈ cs, (c == '=') = false := by
    intro c hc
    rw [beq_eq_false_iff_ne]
    rintro rfl
    exact h hc
  have hcases : (readOptional inner rest).optional = true ∧
      (readOptional inner rest).rest = rest := by
    rw [readOptional]
    split
    · exact ⟨rfl, rfl⟩
    · exact ⟨rfl, rfl⟩
  refine ⟨hcases.1, hcases.2, fun h => ?_, fun name default hsplit h => ?_⟩
  · simp only [readOptional, cutFirst?_eq_none (hequals h), nonEmpty?_trimEnds, and_self]
  · subst hsplit
    have hcut : cutFirst? (· == '=') (name ++ '=' :: default) = some (name, default) :=
      cutFirst?_append_cons default (hequals h) rfl
    simp only [readOptional, hcut, nonEmpty?_trimEnds, and_self]

/-- A text without blanks at its front is cut behind its first word. -/
theorem wordReading_readWord {text : List Char} (hfront : ∀ c ∈ text.head?, isBlank c = false) :
    WordReading text (readWord text) := by
  have hempty : text.takeWhile (!isBlank ·) = [] ↔ text = [] := by
    cases text with
    | nil => simp
    | cons c cs => simp [hfront c rfl]
  have hname : (readWord text).name =
      if text = [] then none else some (String.ofList (text.takeWhile (!isBlank ·))) := by
    rw [readWord]
    split
    · rename_i h
      rw [h]
      rfl
    · rename_i h
      refine nonEmpty?_of_ne fun hword => h (hempty.1 ?_)
      simpa using congrArg String.toList hword
  have hword : ((readWord text).name.getD "").toList = text.takeWhile (!isBlank ·) := by
    rw [hname]
    split
    · rename_i h
      rw [h]
      rfl
    · simp
  refine ⟨rfl, rfl, ?_, ?_, fun word hmem => ?_, fun c hc => ?_⟩
  · rw [hword]
    exact (List.takeWhile_append_dropWhile ..).symm
  · rw [hname]
    split
    · rename_i h
      exact ⟨fun _ => h, fun _ => rfl⟩
    · rename_i h
      exact ⟨fun hsome => absurd hsome (Option.some_ne_none _), fun hnil => (h hnil).elim⟩
  · rw [hname] at hmem
    split at hmem
    · cases hmem
    · rename_i h
      cases hmem
      refine ⟨fun hword => h (hempty.1 (by simpa using congrArg String.toList hword)), ?_⟩
      intro c hc
      rw [String.toList_ofList] at hc
      simpa using List.all_eq_true.1 List.all_takeWhile c hc
  · have hstop := List.head?_dropWhile_not (!isBlank ·) text
    rw [show text.dropWhile (!isBlank ·) = (readWord text).rest from rfl] at hstop
    rw [Option.mem_def.1 hc] at hstop
    simpa using hstop

/-- What is read at the front of a text without blanks there: an optional name exactly where the
text begins with matching brackets, and else a word. -/
structure NameFront (text : List Char) (r : NameReading) : Prop where
  optional_iff : r.optional = true ↔ ∃ inner rest, Encloses '[' ']' text inner rest
  bracketed : ∀ inner rest, Encloses '[' ']' text inner rest → OptionalReading inner rest r
  word : (¬ ∃ inner rest, Encloses '[' ']' text inner rest) → WordReading text r

theorem head?_trimFront (p : Char → Bool) (cs : List Char) :
    ∀ c ∈ (trimFront p cs).head?, p c = false := by
  intro c hc
  have hstop := List.head?_dropWhile_not p cs
  rw [trimFront] at hc
  rw [Option.mem_def.1 hc] at hstop
  simpa using hstop

theorem nameFront_readName (text : List Char) :
    NameFront (trimFront isBlank text) (readName text) := by
  have hne : '[' ≠ ']' := by decide
  -- Where no brackets match, the name is a word.
  have hplain (hread : readName text = readWord (trimFront isBlank text))
      (hnone : ¬ ∃ inner rest, Encloses '[' ']' (trimFront isBlank text) inner rest) :
      NameFront (trimFront isBlank text) (readName text) := by
    have hword := wordReading_readWord (head?_trimFront isBlank text)
    rw [hread]
    refine ⟨⟨fun h => ?_, fun h => (hnone h).elim⟩, fun inner rest h => (hnone ⟨_, _, h⟩).elim,
      fun _ => hword⟩
    rw [hword.optional] at h
    cases h
  cases hfront : trimFront isBlank text with
  | nil =>
      rw [← hfront]
      refine hplain (by simp only [readName, hfront]) ?_
      rintro ⟨inner, rest, ⟨hsplit, -⟩⟩
      rw [hfront] at hsplit
      cases hsplit
  | cons c inside =>
      by_cases hc : c = '['
      · subst hc
        cases hscan : untilClose '[' ']' 0 inside with
        | none =>
            rw [← hfront]
            refine hplain (by simp only [readName, hfront, hscan]) ?_
            rintro ⟨inner, rest, h⟩
            rw [hfront, encloses_iff_untilClose hne, hscan] at h
            cases h
        | some r =>
            have hread : readName text = readOptional r.1 r.2 := by
              simp only [readName, hfront, hscan]
            have hr : Encloses '[' ']' ('[' :: inside) r.1 r.2 :=
              (encloses_iff_untilClose hne).2 hscan
            have hoptional := optionalReading_readOptional r.1 r.2
            rw [hread]
            refine ⟨⟨fun _ => ⟨_, _, hr⟩, fun _ => hoptional.optional⟩, fun inner rest h => ?_,
              fun hnone => (hnone ⟨_, _, hr⟩).elim⟩
            rw [encloses_iff_untilClose hne, hscan] at h
            cases h
            exact hoptional
      · rw [← hfront]
        refine hplain ?_ ?_
        · simp only [readName, hfront]
          split
          · rename_i heq
            exact absurd (List.cons.inj heq).1 hc
          · rfl
        · rintro ⟨inner, rest, ⟨hsplit, -⟩⟩
          rw [hfront] at hsplit
          exact hc (List.cons.inj hsplit).1

/-- The scanners lose nothing and stop at the matching bracket: a type in braces, and a name that
may stand in brackets, are read from every text exactly as far as the brackets match. -/
theorem scanners_stop_at_match (inside text : List Char) :
    BracedReading ('{' :: inside) (readBraced inside) ∧
      NameFront (trimFront isBlank text) (readName text) :=
  ⟨bracedReading_readBraced inside, nameFront_readName text⟩

example : (readBraced "a: \x7bb\x7d\x7d - c \x7b".toList).1 = "a: \x7bb\x7d".toList := by decide

end Ambient.Doc
