import Ambient.Proofs.TypeExpr.Stretch

/-!
# What is read is derived

Every reader of type expressions reads what a rule of the grammar derives.  The pieces of a stretch
stand in the text one behind the other, so a derivation of the stretch is one of the text.
-/

namespace Ambient.TypeExpr

open Ambient.Text

/-! ### Pieces in a text -/

/-- The piece stands in front of the rest. -/
inductive Lexes : List Char → Piece → List Char → Prop
  | bar {cs c₁ : List Char} (h : Token ['|'] cs c₁) : Lexes cs .bar c₁
  | query {cs c₁ : List Char} (h : Token ['?'] cs c₁) : Lexes cs .query c₁
  | bang {cs c₁ : List Char} (h : Token ['!'] cs c₁) : Lexes cs .bang c₁
  | array {cs c₁ c₂ : List Char} (hopen : Token ['['] cs c₁) (hclose : Token [']'] c₁ c₂) :
      Lexes cs .array c₂
  | atom {cs c₁ : List Char} {e : TypeExpr} (h : Derives .primary cs [e] c₁) :
      Lexes cs (.atom e) c₁
  | arrow {cs c₁ c₂ c₃ c₄ c₅ : List Char} {ps : List TypeExpr}
      (hword : Token "function".toList cs c₁) (hopen : Token ['('] c₁ c₂)
      (hps : Derives .params c₂ ps c₃) (hclose : Token [')'] c₃ c₄) (hcolon : Token [':'] c₄ c₅) :
      Lexes cs (.arrow ps) c₅

/-- The pieces stand in front of the rest, one behind the other. -/
inductive Reads : List Char → List Piece → List Char → Prop
  | nil {cs : List Char} : Reads cs [] cs
  | cons {cs c₁ c₂ : List Char} {p : Piece} {ps : List Piece} (h : Lexes cs p c₁)
      (hs : Reads c₁ ps c₂) : Reads cs (p :: ps) c₂

theorem reads_cons_iff {cs rest : List Char} {p : Piece} {ps : List Piece} :
    Reads cs (p :: ps) rest ↔ ∃ c₁, Lexes cs p c₁ ∧ Reads c₁ ps rest := by
  constructor
  · rintro (_ | ⟨h, hs⟩)
    exact ⟨_, h, hs⟩
  · rintro ⟨c₁, h, hs⟩
    exact .cons h hs

theorem reads_nil_iff {cs rest : List Char} : Reads cs [] rest ↔ cs = rest := by
  constructor
  · rintro ⟨⟩
    rfl
  · rintro rfl
    exact .nil

theorem reads_append_iff {cs rest : List Char} {ps qs : List Piece} :
    Reads cs (ps ++ qs) rest ↔ ∃ c₁, Reads cs ps c₁ ∧ Reads c₁ qs rest := by
  induction ps generalizing cs with
  | nil => simp [reads_nil_iff]
  | cons p ps ih =>
      simp only [List.cons_append, reads_cons_iff, ih]
      grind

theorem reads_append_singleton_iff {cs rest : List Char} {ps : List Piece} {p : Piece} :
    Reads cs (ps ++ [p]) rest ↔ ∃ c₁, Reads cs ps c₁ ∧ Lexes c₁ p rest := by
  simp [reads_append_iff, reads_cons_iff, reads_nil_iff]

theorem token_bar_of_lexes {cs rest : List Char} (h : Lexes cs .bar rest) :
    Token ['|'] cs rest := by
  cases h with
  | bar h => exact h

/-- A derivation of a stretch is one of the text that its pieces stand in. -/
theorem derives_of_fits {r : Rule} {ps : List Piece} {es : List TypeExpr} (h : Fits r ps es)
    {cs rest : List Char} (hps : Reads cs ps rest) : Derives r cs es rest := by
  induction h generalizing cs rest with
  | single _ ih => exact .single (ih hps)
  | several _ _ ih ihs =>
      obtain ⟨c₁, h₁, hmid⟩ := reads_append_iff.1 hps
      obtain ⟨c₂, hbar, h₂⟩ := reads_cons_iff.1 hmid
      exact .several (ih h₁) (token_bar_of_lexes hbar) (ihs h₂)
  | oneOther _ ih => exact .oneOther (ih hps)
  | moreOthers _ _ ihs ih =>
      obtain ⟨c₁, h₁, hmid⟩ := reads_append_iff.1 hps
      obtain ⟨c₂, hbar, h₂⟩ := reads_cons_iff.1 hmid
      exact .moreOthers (ihs h₁) (token_bar_of_lexes hbar) (ih h₂)
  | nullableBefore _ ih =>
      obtain ⟨c₁, ⟨⟩, h₁⟩ := reads_cons_iff.1 hps
      exact .nullableBefore ‹_› (ih h₁)
  | nonNullableBefore _ ih =>
      obtain ⟨c₁, ⟨⟩, h₁⟩ := reads_cons_iff.1 hps
      exact .nonNullableBefore ‹_› (ih h₁)
  | nullableAfter _ ih =>
      obtain ⟨c₁, h₁, ⟨⟩⟩ := reads_append_singleton_iff.1 hps
      exact .nullableAfter (ih h₁) ‹_›
  | nonNullableAfter _ ih =>
      obtain ⟨c₁, h₁, ⟨⟩⟩ := reads_append_singleton_iff.1 hps
      exact .nonNullableAfter (ih h₁) ‹_›
  | unmarked _ ih => exact .unmarked (ih hps)
  | unsuffixed _ ih => exact .unsuffixed (ih hps)
  | array _ ih =>
      obtain ⟨c₁, h₁, ⟨⟩⟩ := reads_append_singleton_iff.1 hps
      exact .array (ih h₁) ‹_› ‹_›
  | atom e =>
      obtain ⟨c₁, ⟨⟩, ⟨⟩⟩ := reads_cons_iff.1 hps
      assumption
  | unknown =>
      obtain ⟨c₁, ⟨⟩, ⟨⟩⟩ := reads_cons_iff.1 hps
      exact .unknown ‹_›
  | arrow params _ ih =>
      obtain ⟨c₁, ⟨⟩, h₁⟩ := reads_cons_iff.1 hps
      rename_i hcolon
      exact .function ‹_› ‹_› ‹_› ‹_› (.typed hcolon (ih h₁))

theorem derives_of_resolveUnion {ps : List Piece} {e : TypeExpr} (h : resolveUnion ps = some e)
    {cs rest : List Char} (hps : Reads cs ps rest) : Derives .union cs [e] rest :=
  derives_of_fits (fits_resolveUnion h) hps

/-! ### White space in front is skipped -/

theorem readPieces_skipGap (n : Nat) (cs : List Char) :
    readPieces n (skipGap cs) = readPieces n cs := by
  cases n with
  | zero => rfl
  | succ n => simp only [readPieces, skipGap_skipGap]

theorem readFields_skipGap (n : Nat) (cs : List Char) :
    readFields n (skipGap cs) = readFields n cs := by
  cases n with
  | zero => rfl
  | succ n => simp only [readFields, skipGap_skipGap]

theorem readTop_skipGap (n : Nat) (cs : List Char) : readTop n (skipGap cs) = readTop n cs := by
  cases n with
  | zero => rfl
  | succ n => simp only [readTop, skipGap_skipGap]

theorem readTops_skipGap (n : Nat) (cs : List Char) : readTops n (skipGap cs) = readTops n cs := by
  cases n with
  | zero => rfl
  | succ n => simp only [readTops, readTop_skipGap]

theorem token_singleton_iff {c : Char} {cs rest : List Char} (hc : isGap c = false) :
    Token [c] cs rest ↔ skipGap cs = c :: rest :=
  token_cons_iff hc

theorem NameToken.token {w cs rest : List Char} (h : NameToken w cs rest) : Token w cs rest := by
  obtain ⟨gap, mid, hgap, rfl, rfl, -⟩ := h
  exact ⟨gap, hgap, rfl⟩

/-! ### Steps of the readers -/

/-- The value of a record field behind its key. -/
def readValue (n : Nat) (cs : List Char) : Option (Option TypeExpr × List Char) :=
  match skipGap cs with
  | ':' :: rest =>
    match readPieces n rest with
    | some (ps, rest) => (resolveUnion ps).map fun e => (some e, rest)
    | none => none
  | rest => some (none, rest)

/-- The pieces at the front of the text when the parameters of a function were read in front of
it. -/
def readSignature (n : Nat) (params : List TypeExpr) (cs : List Char) :
    Option (List Piece × List Char) :=
  match skipGap cs with
  | ':' :: rest => (readPieces n rest).map fun r => (.arrow params :: r.1, r.2)
  | rest => (readPieces n rest).map fun r => (.atom (.function params none) :: r.1, r.2)

/-- The pieces at the front of the text when a name was read in front of it. -/
def readWord (n : Nat) (word cs : List Char) : Option (List Piece × List Char) :=
  let more (p : Piece) (rest : List Char) : Option (List Piece × List Char) :=
    (readPieces n rest).map fun r => (p :: r.1, r.2)
  match word == "function".toList, skipGap cs with
  | true, '(' :: rest =>
    match readParams n rest with
    | some (ps, rest) => readSignature n ps rest
    | none => none
  | _, '.' :: '<' :: rest =>
    match readArgs n rest with
    | some (es, rest) => more (.atom (.apply (.name (String.ofList word)) es)) rest
    | none => none
  | _, '<' :: rest =>
    match readArgs n rest with
    | some (es, rest) => more (.atom (.apply (.name (String.ofList word)) es)) rest
    | none => none
  | _, rest => more (.atom (.name (String.ofList word))) rest

theorem readPieces_of_readName {cs w rest : List Char}
    (h : readName (skipGap cs) = some (w, rest)) (n : Nat) :
    readPieces (n + 1) cs = readWord n w rest := by
  rw [readPieces]
  split
  case h_8 =>
    rw [h]
    rfl
  all_goals
    rename_i heq
    rw [heq] at h
    cases h

theorem readFields_succ (n : Nat) (cs : List Char) :
    readFields (n + 1) cs =
      match readKey (skipGap cs) with
      | none => none
      | some (key, rest) =>
        match readValue n rest with
        | some (v, '}' :: rest) => some ([.field key v], rest)
        | some (v, ',' :: rest) => (readFields n rest).map fun r => (.field key v :: r.1, r.2)
        | _ => none := by
  rw [readFields]
  rfl

/-! ### The readers follow the grammar -/

/-- With this fuel, every reader reads what the grammar derives. -/
structure Sound (n : Nat) : Prop where
  pieces : ∀ {cs ps rest}, readPieces n cs = some (ps, rest) →
    ∃ c₁, Reads cs ps c₁ ∧ rest = skipGap c₁
  args : ∀ {cs es rest}, readArgs n cs = some (es, rest) →
    ∃ c₁, Derives .arguments cs es c₁ ∧ Token ['>'] c₁ rest
  fields : ∀ {cs fs rest}, readFields n cs = some (fs, rest) →
    ∃ c₁, Derives .fields cs fs c₁ ∧ Token ['}'] c₁ rest
  params : ∀ {cs es rest}, readParams n cs = some (es, rest) →
    ∃ c₁, Derives .params cs es c₁ ∧ Token [')'] c₁ rest
  tops : ∀ {cs es rest}, readTops n cs = some (es, rest) →
    ∃ c₁, Derives .tops cs es c₁ ∧ Token [')'] c₁ rest
  top : ∀ {cs e rest}, readTop n cs = some (e, rest) →
    ∃ c₁, Derives .top cs [e] c₁ ∧ rest = skipGap c₁

section

variable {n : Nat} {cs c₁ rest : List Char} {p : Piece} {ps : List Piece} {e : TypeExpr}
  {es : List TypeExpr}

theorem Sound.more (h : Sound n) (hp : Lexes cs p c₁)
    (hmore : (readPieces n c₁).map (fun r => (p :: r.1, r.2)) = some (ps, rest)) :
    ∃ c₂, Reads cs ps c₂ ∧ rest = skipGap c₂ := by
  obtain ⟨⟨qs, tail⟩, hqs, heq⟩ := Option.map_eq_some_iff.1 hmore
  cases heq
  obtain ⟨c₂, hreads, rfl⟩ := h.pieces hqs
  exact ⟨c₂, .cons hp hreads, rfl⟩

/-- The stretch in front of a mark, resolved. -/
theorem Sound.stretch (h : Sound n) {c : Char} (hc : isGap c = false)
    (hps : readPieces n cs = some (ps, c :: rest)) (he : resolveUnion ps = some e) :
    ∃ c₁, Derives .union cs [e] c₁ ∧ Token [c] c₁ rest := by
  obtain ⟨c₁, hreads, heq⟩ := h.pieces hps
  exact ⟨c₁, derives_of_resolveUnion he hreads, (token_singleton_iff hc).2 heq.symm⟩

end

theorem Sound.word {n : Nat} (h : Sound n) {cs w c₁ rest : List Char} {ps : List Piece}
    (hname : NameToken w cs c₁) (hps : readWord n w c₁ = some (ps, rest)) :
    ∃ c₂, Reads cs ps c₂ ∧ rest = skipGap c₂ := by
  simp only [readWord, readSignature] at hps
  split at hps
  · rename_i c₂ hword heq
    have hword : Token "function".toList cs c₁ := by
      rw [← eq_of_beq hword]
      exact hname.token
    have hopen := (token_singleton_iff (by decide)).2 heq
    split at hps
    · rename_i qs c₄ hqs
      obtain ⟨c₃, hparams, hclose⟩ := h.params hqs
      split at hps
      · rename_i c₅ heq'
        have hcolon := (token_singleton_iff (by decide)).2 heq'
        exact h.more (.arrow hword hopen hparams hclose hcolon) hps
      · rw [readPieces_skipGap] at hps
        exact h.more (.atom (.function hword hopen hparams hclose .untyped)) hps
    · cases hps
  · rename_i c₂ heq
    have hopen : Token ['.', '<'] c₁ c₂ := (token_cons_iff (by decide)).2 heq
    split at hps
    · rename_i es c₄ hes
      obtain ⟨c₃, hargs, hclose⟩ := h.args hes
      exact h.more (.atom (.dottedApply hname hopen hargs hclose)) hps
    · cases hps
  · rename_i c₂ heq
    have hopen := (token_singleton_iff (by decide)).2 heq
    split at hps
    · rename_i es c₄ hes
      obtain ⟨c₃, hargs, hclose⟩ := h.args hes
      exact h.more (.atom (.apply hname hopen hargs hclose)) hps
    · cases hps
  · rw [readPieces_skipGap] at hps
    exact h.more (.atom (.name hname)) hps

theorem Sound.pieces_succ {n : Nat} (h : Sound n) {cs rest : List Char} {ps : List Piece}
    (hps : readPieces (n + 1) cs = some (ps, rest)) :
    ∃ c₁, Reads cs ps c₁ ∧ rest = skipGap c₁ := by
  rcases hname : readName (skipGap cs) with _ | ⟨w, c₁⟩
  case some =>
    rw [readPieces_of_readName hname] at hps
    exact h.word (nameToken_iff.2 hname) hps
  rw [readPieces] at hps
  split at hps
  · rename_i c₁ heq
    exact h.more (.bar ((token_singleton_iff (by decide)).2 heq)) hps
  · rename_i c₁ heq
    exact h.more (.query ((token_singleton_iff (by decide)).2 heq)) hps
  · rename_i c₁ heq
    exact h.more (.bang ((token_singleton_iff (by decide)).2 heq)) hps
  · rename_i c₁ heq
    exact h.more (.atom (.all ((token_singleton_iff (by decide)).2 heq))) hps
  · rename_i c₁ heq
    have hopen := (token_singleton_iff (by decide)).2 heq
    split at hps
    · rename_i c₂ heq'
      exact h.more (.array hopen ((token_singleton_iff (by decide)).2 heq')) hps
    · cases hps
  · rename_i c₁ heq
    have hopen := (token_singleton_iff (by decide)).2 heq
    split at hps
    · rename_i qs c₃ hqs
      split at hps
      · rename_i e he
        obtain ⟨c₂, hunion, hclose⟩ := h.stretch (by decide) hqs he
        exact h.more (.atom (.group hopen hunion hclose)) hps
      · cases hps
    · cases hps
  · rename_i c₁ heq
    have hopen := (token_singleton_iff (by decide)).2 heq
    split at hps
    · rename_i c₂ heq'
      have hclose := (token_singleton_iff (by decide)).2 heq'
      exact h.more (.atom (.emptyRecord hopen hclose)) hps
    · rw [readFields_skipGap] at hps
      split at hps
      · rename_i fs c₃ hfs
        obtain ⟨c₂, hfields, hclose⟩ := h.fields hfs
        exact h.more (.atom (.record hopen hfields hclose)) hps
      · cases hps
  · rw [hname] at hps
    cases hps
    exact ⟨cs, .nil, rfl⟩

theorem Sound.args_succ {n : Nat} (h : Sound n) {cs rest : List Char} {es : List TypeExpr}
    (hes : readArgs (n + 1) cs = some (es, rest)) :
    ∃ c₁, Derives .arguments cs es c₁ ∧ Token ['>'] c₁ rest := by
  rw [readArgs] at hes
  split at hes
  · cases hes
  · rename_i ps tail hps
    split at hes
    · rename_i e tail he
      cases hes
      obtain ⟨c₁, hunion, hclose⟩ := h.stretch (by decide) hps he
      exact ⟨c₁, .oneArgument hunion, hclose⟩
    · rename_i e tail he
      obtain ⟨⟨es', tail'⟩, hes', heq⟩ := Option.map_eq_some_iff.1 hes
      cases heq
      obtain ⟨c₁, hunion, hcomma⟩ := h.stretch (by decide) hps he
      obtain ⟨c₂, hargs, hclose⟩ := h.args hes'
      exact ⟨c₂, .moreArguments hunion hcomma hargs, hclose⟩
    · cases hes

theorem Sound.value {n : Nat} (h : Sound n) {cs rest : List Char} {v : Option TypeExpr}
    (hv : readValue n cs = some (v, rest)) :
    ∃ vs c₁, Derives .typing cs vs c₁ ∧ vs.head? = v ∧ rest = skipGap c₁ := by
  rw [readValue] at hv
  split at hv
  · rename_i c₁ heq
    have hcolon := (token_singleton_iff (by decide)).2 heq
    split at hv
    · rename_i ps tail hps
      obtain ⟨e, he, heq'⟩ := Option.map_eq_some_iff.1 hv
      cases heq'
      obtain ⟨c₂, hreads, rfl⟩ := h.pieces hps
      exact ⟨[e], c₂, .typed hcolon (derives_of_resolveUnion he hreads), rfl, rfl⟩
    · cases hv
  · cases hv
    exact ⟨[], cs, .untyped, rfl, rfl⟩

theorem Sound.fields_succ {n : Nat} (h : Sound n) {cs rest : List Char} {fs : List TypeExpr}
    (hfs : readFields (n + 1) cs = some (fs, rest)) :
    ∃ c₁, Derives .fields cs fs c₁ ∧ Token ['}'] c₁ rest := by
  rw [readFields_succ] at hfs
  split at hfs
  · cases hfs
  · rename_i key tail hkey
    obtain ⟨w, hword, rfl⟩ := keyToken_iff.2 hkey
    split at hfs
    · rename_i v tail hv
      cases hfs
      obtain ⟨vs, c₁, htyping, rfl, heq⟩ := h.value hv
      exact ⟨c₁, .oneField (.field hword htyping), (token_singleton_iff (by decide)).2 heq.symm⟩
    · rename_i v tail hv
      obtain ⟨⟨fs', tail'⟩, hfs', heq'⟩ := Option.map_eq_some_iff.1 hfs
      cases heq'
      obtain ⟨vs, c₁, htyping, rfl, heq⟩ := h.value hv
      obtain ⟨c₂, hfields, hclose⟩ := h.fields hfs'
      have hcomma := (token_singleton_iff (by decide)).2 heq.symm
      exact ⟨c₂, .moreFields (.field hword htyping) hcomma hfields, hclose⟩
    · cases hfs

theorem Sound.params_succ {n : Nat} (h : Sound n) {cs rest : List Char} {es : List TypeExpr}
    (hes : readParams (n + 1) cs = some (es, rest)) :
    ∃ c₁, Derives .params cs es c₁ ∧ Token [')'] c₁ rest := by
  rw [readParams] at hes
  split at hes
  · rename_i tail heq
    cases hes
    exact ⟨cs, .noParams, (token_singleton_iff (by decide)).2 heq⟩
  · rw [readTops_skipGap] at hes
    obtain ⟨c₁, htops, hclose⟩ := h.tops hes
    exact ⟨c₁, .params htops, hclose⟩

theorem Sound.tops_succ {n : Nat} (h : Sound n) {cs rest : List Char} {es : List TypeExpr}
    (hes : readTops (n + 1) cs = some (es, rest)) :
    ∃ c₁, Derives .tops cs es c₁ ∧ Token [')'] c₁ rest := by
  rw [readTops] at hes
  split at hes
  · rename_i e tail he
    cases hes
    obtain ⟨c₁, htop, heq⟩ := h.top he
    exact ⟨c₁, .oneTop htop, (token_singleton_iff (by decide)).2 heq.symm⟩
  · rename_i e tail he
    obtain ⟨⟨es', tail'⟩, hes', heq'⟩ := Option.map_eq_some_iff.1 hes
    cases heq'
    obtain ⟨c₁, htop, heq⟩ := h.top he
    obtain ⟨c₂, htops, hclose⟩ := h.tops hes'
    have hcomma := (token_singleton_iff (by decide)).2 heq.symm
    exact ⟨c₂, .moreTops htop hcomma htops, hclose⟩
  · cases hes

theorem Sound.top_succ {n : Nat} (h : Sound n) {cs rest : List Char} {e : TypeExpr}
    (he : readTop (n + 1) cs = some (e, rest)) :
    ∃ c₁, Derives .top cs [e] c₁ ∧ rest = skipGap c₁ := by
  rw [readTop] at he
  split at he
  · rename_i c₁ heq
    have hdots : Token ['.', '.', '.'] cs c₁ := (token_cons_iff (by decide)).2 heq
    split at he
    · rename_i tail hps
      cases he
      obtain ⟨c₂, hreads, rfl⟩ := h.pieces hps
      cases reads_nil_iff.1 hreads
      exact ⟨c₁, .variadicAll hdots, rfl⟩
    · rename_i ps tail _ hps
      obtain ⟨e', he', heq'⟩ := Option.map_eq_some_iff.1 he
      cases heq'
      obtain ⟨c₂, hreads, rfl⟩ := h.pieces hps
      exact ⟨c₂, .variadic hdots (derives_of_resolveUnion he' hreads), rfl⟩
    · cases he
  · rw [readPieces_skipGap] at he
    split at he
    · cases he
    · rename_i ps tail hps
      split at he
      · rename_i e' tail he'
        cases he
        obtain ⟨c₁, hunion, hmark⟩ := h.stretch (by decide) hps he'
        exact ⟨tail, .optional hunion hmark, rfl⟩
      · rename_i e' he' _
        cases he
        obtain ⟨c₁, hreads, rfl⟩ := h.pieces hps
        exact ⟨c₁, .required (derives_of_resolveUnion he' hreads), rfl⟩
      · cases he

theorem sound (n : Nat) : Sound n := by
  induction n with
  | zero => constructor <;> intro _ _ _ h <;> cases h
  | succ n ih =>
      exact ⟨ih.pieces_succ, ih.args_succ, ih.fields_succ, ih.params_succ, ih.tops_succ,
        ih.top_succ⟩

end Ambient.TypeExpr
