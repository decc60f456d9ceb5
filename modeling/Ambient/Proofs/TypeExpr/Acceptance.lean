import Ambient.Proofs.TypeExpr.Derived

/-!
# What the reader of type expressions accepts

What the grammar derives is read.  A derivation in front of something that cannot extend it is
scanned piece by piece, and its pieces have a derivation again, so the resolvers find one.  Where
the grammar is ambiguous the two may build different expressions.  With the converse, the reader
accepts a text exactly when the grammar derives it, and returns what a derivation builds.
-/

namespace Ambient.TypeExpr

open Ambient.Text

/-! ### What comes next -/

/-- The next token, if there is one, starts with one of the characters. -/
def NextIn (marks : List Char) (cs : List Char) : Prop :=
  ∀ c ∈ (skipGap cs).head?, c ∈ marks

/-- The characters that end a stretch. -/
def closers : List Char := [')', ',', '>', '}', '=']

/-- The characters that may follow an expression inside its stretch or at its end. -/
def followers : List Char := closers ++ ['|', '?', '!', '[']

theorem NextIn.mono {marks marks' cs : List Char} (h : NextIn marks cs) (hsub : marks ⊆ marks') :
    NextIn marks' cs :=
  fun c hc => hsub (h c hc)

theorem Token.nextIn {c : Char} {cs rest marks : List Char} (h : Token [c] cs rest)
    (hgap : isGap c = false) (hc : c ∈ marks) : NextIn marks cs := by
  rw [token_singleton_iff hgap] at h
  simpa [NextIn, h] using hc

theorem skipGap_eq_nil_iff {cs : List Char} : skipGap cs = [] ↔ ∀ c ∈ cs, isGap c = true := by
  constructor
  · intro h
    obtain ⟨gap, hgap, heq⟩ := exists_gap cs
    rw [heq, h, List.append_nil]
    exact hgap
  · intro h
    rw [← List.append_nil cs, skipGap_append h]
    rfl

theorem nextIn_of_forall_isGap {cs marks : List Char} (h : ∀ c ∈ cs, isGap c = true) :
    NextIn marks cs := by
  simp [NextIn, skipGap_eq_nil_iff.2 h]

theorem NextIn.eq_nil_or_cons {marks cs : List Char} (h : NextIn marks cs) :
    skipGap cs = [] ∨ ∃ c ∈ marks, ∃ rest, skipGap cs = c :: rest := by
  cases heq : skipGap cs with
  | nil => exact .inl rfl
  | cons c rest => exact .inr ⟨c, h c (by simp [heq]), rest, rfl⟩

theorem NextIn.mem {marks cs : List Char} (h : NextIn marks cs) {c : Char} {rest : List Char}
    (heq : skipGap cs = c :: rest) : c ∈ marks :=
  h c (by simp [heq])

/-- A stretch ends in front of a closing character and in front of dots. -/
theorem readPieces_of_nextIn {cs : List Char} (h : NextIn ('.' :: closers) cs) (n : Nat) :
    readPieces (n + 1) cs = some ([], skipGap cs) := by
  rw [readPieces]
  rcases h.eq_nil_or_cons with heq | ⟨c, hc, rest, heq⟩
  · rw [heq]
    rfl
  · simp only [closers, List.mem_cons, List.not_mem_nil, or_false] at hc
    rcases hc with rfl | rfl | rfl | rfl | rfl | rfl
    all_goals
      simp only [heq]
      rfl

/-! ### Scanning -/

/-- Whatever comes next, reading goes over the pieces first.  The fuel that the text needs is left
for its rest. -/
def Scans (cs : List Char) (ps : List Piece) (rest : List Char) : Prop :=
  ∀ n, cs.length < n → ∃ m, rest.length < m ∧
    readPieces n cs = (readPieces m rest).map fun r => (ps ++ r.1, r.2)

theorem Scans.append {cs c₁ rest : List Char} {ps qs : List Piece} (h : Scans cs ps c₁)
    (h' : Scans c₁ qs rest) : Scans cs (ps ++ qs) rest := by
  intro n hn
  obtain ⟨m, hm, hps⟩ := h n hn
  obtain ⟨k, hk, hqs⟩ := h' m hm
  refine ⟨k, hk, ?_⟩
  rw [hps, hqs, Option.map_map]
  congr 1
  funext r
  simp

theorem scans_of_succ {cs rest : List Char} {p : Piece} (hlt : rest.length < cs.length)
    (h : ∀ n, cs.length ≤ n →
      readPieces (n + 1) cs = (readPieces n rest).map fun r => (p :: r.1, r.2)) :
    Scans cs [p] rest := by
  intro n hn
  obtain ⟨k, rfl⟩ : ∃ k, n = k + 1 := ⟨n - 1, by omega⟩
  exact ⟨k, by omega, h k (by omega)⟩

/-- A stretch that a closing character ends is read as a whole. -/
theorem Scans.readPieces_eq {cs rest : List Char} {ps : List Piece} (h : Scans cs ps rest)
    (hrest : NextIn closers rest) {n : Nat} (hn : cs.length < n) :
    readPieces n cs = some (ps, skipGap rest) := by
  obtain ⟨m, hm, heq⟩ := h n hn
  obtain ⟨k, rfl⟩ : ∃ k, m = k + 1 := ⟨m - 1, by omega⟩
  rw [heq, readPieces_of_nextIn (hrest.mono (List.subset_cons_self _ _))]
  simp

theorem Token.length_lt {c : Char} {t cs rest : List Char} (h : Token (c :: t) cs rest) :
    rest.length < cs.length := by
  have hle := h.length_le
  rw [List.length_cons] at hle
  omega

theorem readPieces_of_token {c : Char} {cs rest : List Char} (hc : isGap c = false)
    (h : Token [c] cs rest) (n : Nat) : readPieces n cs = readPieces n (c :: rest) := by
  rw [← readPieces_skipGap, (token_singleton_iff hc).1 h]

/-- A character that is a piece of its own. -/
theorem scans_mark {c : Char} {p : Piece} (hc : isGap c = false)
    (hstep : ∀ n rest, readPieces (n + 1) (c :: rest) =
      (readPieces n rest).map fun r => (p :: r.1, r.2))
    {cs rest : List Char} (h : Token [c] cs rest) : Scans cs [p] rest := by
  refine scans_of_succ h.length_lt fun n _ => ?_
  rw [readPieces_of_token hc h, hstep]

theorem scans_bar {cs rest : List Char} (h : Token ['|'] cs rest) : Scans cs [.bar] rest :=
  scans_mark rfl (fun _ _ => rfl) h

theorem scans_query {cs rest : List Char} (h : Token ['?'] cs rest) : Scans cs [.query] rest :=
  scans_mark rfl (fun _ _ => rfl) h

theorem scans_bang {cs rest : List Char} (h : Token ['!'] cs rest) : Scans cs [.bang] rest :=
  scans_mark rfl (fun _ _ => rfl) h

theorem scans_all {cs rest : List Char} (h : Token ['*'] cs rest) : Scans cs [.atom .all] rest :=
  scans_mark rfl (fun _ _ => rfl) h

theorem scans_array {cs c₁ rest : List Char} (hopen : Token ['['] cs c₁)
    (hclose : Token [']'] c₁ rest) : Scans cs [.array] rest := by
  refine scans_of_succ (Nat.lt_trans hclose.length_lt hopen.length_lt) fun n _ => ?_
  rw [readPieces_of_token rfl hopen, readPieces]
  simp only [skipGap_cons (c := '[') rfl, (token_singleton_iff rfl).1 hclose]

theorem scans_group {cs c₁ c₂ rest : List Char} {ps : List Piece} {e : TypeExpr}
    (hopen : Token ['('] cs c₁) (hps : Scans c₁ ps c₂) (he : resolveUnion ps = some e)
    (hclose : Token [')'] c₂ rest) (hlt : rest.length < cs.length) :
    Scans cs [.atom e] rest := by
  refine scans_of_succ hlt fun n hn => ?_
  have hread : readPieces n c₁ = some (ps, ')' :: rest) := by
    rw [hps.readPieces_eq (hclose.nextIn rfl (by decide)) (Nat.lt_of_lt_of_le hopen.length_lt hn),
      (token_singleton_iff rfl).1 hclose]
  rw [readPieces_of_token rfl hopen, readPieces]
  simp only [skipGap_cons (c := '(') rfl, hread, he]

theorem scans_emptyRecord {cs c₁ rest : List Char} (hopen : Token ['{'] cs c₁)
    (hclose : Token ['}'] c₁ rest) : Scans cs [.atom (.record [])] rest := by
  refine scans_of_succ (Nat.lt_trans hclose.length_lt hopen.length_lt) fun n _ => ?_
  rw [readPieces_of_token rfl hopen, readPieces]
  simp only [skipGap_cons (c := '{') rfl, (token_singleton_iff rfl).1 hclose]

/-- No field starts with the closing brace. -/
theorem readFields_of_close {cs rest : List Char} (h : skipGap cs = '}' :: rest) (n : Nat) :
    readFields n cs = none := by
  cases n with
  | zero => rfl
  | succ n =>
      rw [readFields_succ, h]
      rfl

theorem scans_record {cs c₁ rest : List Char} {fs : List TypeExpr} (hopen : Token ['{'] cs c₁)
    (hfs : ∀ n, c₁.length < n → readFields n c₁ = some (fs, rest))
    (hlt : rest.length < cs.length) : Scans cs [.atom (.record fs)] rest := by
  refine scans_of_succ hlt fun n hn => ?_
  have hread := hfs n (Nat.lt_of_lt_of_le hopen.length_lt hn)
  rw [readPieces_of_token rfl hopen, readPieces]
  simp only [skipGap_cons (c := '{') rfl]
  split
  · rename_i heq
    rw [readFields_of_close heq] at hread
    cases hread
  · simp only [readFields_skipGap, hread]

theorem readPieces_of_nameToken {w cs rest : List Char} (h : NameToken w cs rest) (n : Nat) :
    readPieces (n + 1) cs = readWord n w rest :=
  readPieces_of_readName (nameToken_iff.1 h) n

theorem scans_name {w cs rest : List Char} (h : NameToken w cs rest)
    (hrest : NextIn followers rest) : Scans cs [.atom (.name (String.ofList w))] rest := by
  refine scans_of_succ h.length_lt fun n _ => ?_
  simp only [readPieces_of_nameToken h, readWord]
  split
  case h_4 => rw [readPieces_skipGap]
  all_goals
    rename_i heq
    exact absurd (hrest.mem heq) (by decide)

theorem scans_dottedApply {w cs c₁ c₂ rest : List Char} {es : List TypeExpr}
    (h : NameToken w cs c₁) (hopen : Token ['.', '<'] c₁ c₂)
    (hes : ∀ n, c₂.length + 1 < n → readArgs n c₂ = some (es, rest))
    (hlt : rest.length < cs.length) :
    Scans cs [.atom (.apply (.name (String.ofList w)) es)] rest := by
  refine scans_of_succ hlt fun n hn => ?_
  have hlt₁ := h.length_lt
  have hlt₂ := hopen.length_lt
  rw [readPieces_of_nameToken h, readWord, (token_cons_iff rfl).1 hopen]
  simp [hes n (by omega)]

theorem scans_apply {w cs c₁ c₂ rest : List Char} {es : List TypeExpr} (h : NameToken w cs c₁)
    (hopen : Token ['<'] c₁ c₂) (hes : ∀ n, c₂.length + 1 < n → readArgs n c₂ = some (es, rest))
    (hlt : rest.length < cs.length) :
    Scans cs [.atom (.apply (.name (String.ofList w)) es)] rest := by
  refine scans_of_succ hlt fun n hn => ?_
  have hlt₁ := h.length_lt
  have hlt₂ := hopen.length_lt
  rw [readPieces_of_nameToken h, readWord, (token_singleton_iff rfl).1 hopen]
  simp [hes n (by omega)]

theorem nameRest_of_neg {c : Char} (htail : isNameTail c = false) (hjoint : isJoint c = false)
    (cs : List Char) : nameRest (c :: cs) = ([], c :: cs) := by
  simp [nameRest, htail, hjoint]

/-- A name ends in front of a parenthesis. -/
theorem nameRest_of_token {cs rest : List Char} (h : Token ['('] cs rest) :
    nameRest cs = ([], cs) := by
  obtain ⟨gap, hgap, rfl⟩ := h
  cases gap with
  | nil => rfl
  | cons c gap =>
      have hc := hgap c (by simp)
      simp only [isGap, Bool.or_eq_true, beq_iff_eq] at hc
      rcases hc with (((rfl | rfl) | rfl) | rfl) | rfl <;> exact nameRest_of_neg rfl rfl _

theorem nameToken_function {cs c₁ rest : List Char} (hword : Token "function".toList cs c₁)
    (hopen : Token ['('] c₁ rest) : NameToken "function".toList cs c₁ := by
  have hskip : skipGap cs = 'f' :: ("unction".toList ++ c₁) := (token_cons_iff rfl).1 hword
  have hcont : Continues "unction".toList := continues_of_forall (List.all_eq_true.1 rfl)
  rw [nameToken_iff, hskip, readName, if_pos (by decide), nameRest_append hcont,
    nameRest_of_token hopen]
  simp

theorem readPieces_function {cs c₁ c₂ c₃ : List Char} {ps : List TypeExpr}
    (hword : Token "function".toList cs c₁) (hopen : Token ['('] c₁ c₂)
    (hps : ∀ n, c₂.length + 3 < n → readParams n c₂ = some (ps, c₃)) {n : Nat}
    (hn : cs.length ≤ n) :
    readPieces (n + 1) cs = readSignature n ps c₃ := by
  have hle : 8 + c₁.length ≤ cs.length := hword.length_le
  have hlt := hopen.length_lt
  rw [readPieces_of_nameToken (nameToken_function hword hopen), readWord,
    (token_singleton_iff rfl).1 hopen]
  simp only [beq_self_eq_true, hps n (by omega)]

theorem scans_arrow {cs c₁ c₂ c₃ rest : List Char} {ps : List TypeExpr}
    (hword : Token "function".toList cs c₁) (hopen : Token ['('] c₁ c₂)
    (hps : ∀ n, c₂.length + 3 < n → readParams n c₂ = some (ps, c₃)) (hcolon : Token [':'] c₃ rest)
    (hlt : rest.length < cs.length) : Scans cs [.arrow ps] rest := by
  refine scans_of_succ hlt fun n hn => ?_
  simp only [readPieces_function hword hopen hps hn, readSignature,
    (token_singleton_iff rfl).1 hcolon]

theorem scans_function {cs c₁ c₂ rest : List Char} {ps : List TypeExpr}
    (hword : Token "function".toList cs c₁) (hopen : Token ['('] c₁ c₂)
    (hps : ∀ n, c₂.length + 3 < n → readParams n c₂ = some (ps, rest))
    (hrest : NextIn followers rest) (hlt : rest.length < cs.length) :
    Scans cs [.atom (.function ps none)] rest := by
  refine scans_of_succ hlt fun n hn => ?_
  rw [readPieces_function hword hopen hps hn, readSignature]
  split
  · rename_i heq
    exact absurd (hrest.mem heq) (by decide)
  · rw [readPieces_skipGap]

/-! ### What is derived is read -/

/-- What reading a rule's text comes to.  Inside a stretch, the text is scanned into pieces that the
rule derives; in brackets, the reader of the rule goes on behind the closing one. -/
def Accepts : Rule → List Char → List Char → Prop
  | .top, cs, rest => NextIn [')', ','] rest →
    ∃ e, ∀ n, cs.length + 1 < n → readTop n cs = some (e, skipGap rest)
  | .arguments, cs, rest => ∀ c₁, Token ['>'] rest c₁ →
    ∃ es, ∀ n, cs.length + 1 < n → readArgs n cs = some (es, c₁)
  | .fields, cs, rest => ∀ c₁, Token ['}'] rest c₁ →
    ∃ fs, ∀ n, cs.length < n → readFields n cs = some (fs, c₁)
  | .field, cs, rest => NextIn ['}', ','] rest → ∃ key c₁ v,
    readKey (skipGap cs) = some (key, c₁) ∧
      ∀ n, cs.length ≤ n → readValue n c₁ = some (v, skipGap rest)
  | .params, cs, rest => ∀ c₁, Token [')'] rest c₁ →
    ∃ es, ∀ n, cs.length + 3 < n → readParams n cs = some (es, c₁)
  | .tops, cs, rest => ∀ c₁, Token [')'] rest c₁ →
    ∃ es, ∀ n, cs.length + 2 < n → readTops n cs = some (es, c₁)
  | .typing, cs, rest => NextIn followers rest → cs = rest ∨
    ∃ c₁ ps e, Token [':'] cs c₁ ∧ Scans c₁ ps rest ∧ Fits .union ps [e]
  | .others, cs, rest => NextIn followers rest → ∃ ps es, Scans cs ps rest ∧ Fits .others ps es
  | r, cs, rest => NextIn followers rest → ∃ ps e, Scans cs ps rest ∧ Fits r ps [e]

theorem Fits.ne_nil {r : Rule} {ps : List Piece} {es : List TypeExpr} (h : Fits r ps es) :
    ps ≠ [] := by
  induction h <;> simp_all

theorem resolveUnion_nil : resolveUnion [] = none := by
  rw [Option.eq_none_iff_forall_ne_some]
  intro e he
  exact (fits_resolveUnion he).ne_nil rfl

/-- A stretch that a closing character ends is read and resolved. -/
theorem exists_readPieces_eq {cs rest : List Char} (h : Accepts .union cs rest)
    (hrest : NextIn closers rest) :
    ∃ ps e, resolveUnion ps = some e ∧
      ∀ n, cs.length < n → readPieces n cs = some (ps, skipGap rest) := by
  obtain ⟨ps, e, hscans, hfits⟩ := h (hrest.mono (List.subset_append_left _ _))
  obtain ⟨e', he'⟩ := resolved_of_fits hfits
  exact ⟨ps, e', he', fun n hn => hscans.readPieces_eq hrest hn⟩

/-- No stretch starts with dots. -/
theorem skipGap_ne_dots {cs rest : List Char} {ps : List Piece} {e : TypeExpr} {n : Nat}
    (hps : readPieces n cs = some (ps, rest)) (he : resolveUnion ps = some e) (tail : List Char) :
    skipGap cs ≠ '.' :: tail := by
  intro heq
  have hdots : NextIn ('.' :: closers) cs := by simp [NextIn, heq]
  cases n with
  | zero => cases hps
  | succ n =>
      rw [readPieces_of_nextIn hdots] at hps
      cases hps
      rw [resolveUnion_nil] at he
      cases he

theorem readTop_of_dots {cs c₁ : List Char} (h : Token ['.', '.', '.'] cs c₁) (n : Nat) :
    readTop (n + 1) cs =
      match readPieces n c₁ with
      | some ([], rest) => some (.variadic none, rest)
      | some (ps, rest) => (resolveUnion ps).map fun e => (.variadic (some e), rest)
      | none => none := by
  rw [readTop, (token_cons_iff rfl).1 h]
  rfl

theorem accepts_variadic {cs c₁ rest : List Char} (hdots : Token ['.', '.', '.'] cs c₁)
    (h : Accepts .union c₁ rest) : Accepts .top cs rest := by
  intro hrest
  obtain ⟨ps, e, he, hread⟩ := exists_readPieces_eq h (hrest.mono (by decide))
  refine ⟨.variadic (some e), fun n hn => ?_⟩
  obtain ⟨k, rfl⟩ : ∃ k, n = k + 1 := ⟨n - 1, by omega⟩
  have hlt := hdots.length_lt
  rw [readTop_of_dots hdots, hread k (by omega)]
  cases ps with
  | nil =>
      rw [resolveUnion_nil] at he
      cases he
  | cons p ps => simp [he]

theorem accepts_variadicAll {cs rest : List Char} (hdots : Token ['.', '.', '.'] cs rest) :
    Accepts .top cs rest := by
  intro hrest
  refine ⟨.variadic none, fun n hn => ?_⟩
  obtain ⟨k, rfl⟩ : ∃ k, n = k + 1 + 1 := ⟨n - 2, by omega⟩
  rw [readTop_of_dots hdots, readPieces_of_nextIn (hrest.mono (by decide))]

theorem accepts_optional {cs c₁ rest : List Char} (h : Accepts .union cs c₁)
    (hmark : Token ['='] c₁ rest) : Accepts .top cs rest := by
  intro _
  obtain ⟨ps, e, he, hread⟩ := exists_readPieces_eq h (hmark.nextIn rfl (by decide))
  refine ⟨.optional e, fun n hn => ?_⟩
  obtain ⟨k, rfl⟩ : ∃ k, n = k + 1 := ⟨n - 1, by omega⟩
  have hread := hread k (by omega)
  rw [readTop]
  split
  · exact absurd ‹_› (skipGap_ne_dots hread he _)
  · simp [readPieces_skipGap, hread, he, (token_singleton_iff rfl).1 hmark]

theorem accepts_required {cs rest : List Char} (h : Accepts .union cs rest) :
    Accepts .top cs rest := by
  intro hrest
  obtain ⟨ps, e, he, hread⟩ := exists_readPieces_eq h (hrest.mono (by decide))
  refine ⟨e, fun n hn => ?_⟩
  obtain ⟨k, rfl⟩ : ∃ k, n = k + 1 := ⟨n - 1, by omega⟩
  have hread := hread k (by omega)
  rw [readTop]
  split
  · exact absurd ‹_› (skipGap_ne_dots hread he _)
  · simp only [readPieces_skipGap, hread, he]
    split
    · rename_i heq
      exact absurd (hrest.mem heq) (by decide)
    · simp_all
    · simp_all

theorem Scans.readArgs_close {cs c₁ rest : List Char} {ps : List Piece} {e : TypeExpr}
    (h : Scans cs ps c₁) (he : resolveUnion ps = some e) (hclose : Token ['>'] c₁ rest) {n : Nat}
    (hn : cs.length + 1 < n) : readArgs n cs = some ([e], rest) := by
  obtain ⟨k, rfl⟩ : ∃ k, n = k + 1 := ⟨n - 1, by omega⟩
  have hread := h.readPieces_eq (hclose.nextIn rfl (by decide)) (show cs.length < k by omega)
  simp [readArgs, hread, (token_singleton_iff rfl).1 hclose, he]

theorem Scans.readArgs_comma {cs c₁ c₂ rest : List Char} {ps : List Piece} {e : TypeExpr}
    {es : List TypeExpr} (h : Scans cs ps c₁) (he : resolveUnion ps = some e)
    (hcomma : Token [','] c₁ c₂) (hlt : c₂.length < cs.length)
    (hes : ∀ n, c₂.length + 1 < n → readArgs n c₂ = some (es, rest)) {n : Nat}
    (hn : cs.length + 1 < n) : readArgs n cs = some (e :: es, rest) := by
  obtain ⟨k, rfl⟩ : ∃ k, n = k + 1 := ⟨n - 1, by omega⟩
  have hread := h.readPieces_eq (hcomma.nextIn rfl (by decide)) (show cs.length < k by omega)
  simp [readArgs, hread, (token_singleton_iff rfl).1 hcomma, he, hes k (by omega)]

theorem accepts_oneArgument {cs rest : List Char} (h : Accepts .union cs rest) :
    Accepts .arguments cs rest := by
  intro c₁ hclose
  obtain ⟨ps, e, hscans, hfits⟩ := h (hclose.nextIn rfl (by decide))
  obtain ⟨e', he'⟩ := resolved_of_fits hfits
  exact ⟨[e'], fun n hn => hscans.readArgs_close he' hclose hn⟩

theorem accepts_moreArguments {cs c₁ c₂ rest : List Char} (h : Accepts .union cs c₁)
    (hlt : c₂.length < cs.length) (hcomma : Token [','] c₁ c₂)
    (hs : Accepts .arguments c₂ rest) : Accepts .arguments cs rest := by
  intro c₃ hclose
  obtain ⟨ps, e, hscans, hfits⟩ := h (hcomma.nextIn rfl (by decide))
  obtain ⟨e', he'⟩ := resolved_of_fits hfits
  obtain ⟨es, hes⟩ := hs c₃ hclose
  exact ⟨e' :: es, fun n hn => hscans.readArgs_comma he' hcomma hlt hes hn⟩

theorem accepts_field {cs w c₁ rest : List Char} (hkey : KeyToken w cs c₁)
    (hv : Accepts .typing c₁ rest) : Accepts .field cs rest := by
  intro hrest
  have hread := keyToken_iff.1 ⟨w, hkey, rfl⟩
  have hlt := hkey.length_lt
  rcases hv (hrest.mono (by decide)) with rfl | ⟨c₂, ps, e, hcolon, hscans, hfits⟩
  · refine ⟨_, c₁, none, hread, fun n _ => ?_⟩
    rw [readValue]
    split
    · rename_i heq
      exact absurd (hrest.mem heq) (by decide)
    · rfl
  · obtain ⟨e', he'⟩ := resolved_of_fits hfits
    have hlt' := hcolon.length_lt
    refine ⟨_, c₁, some e', hread, fun n hn => ?_⟩
    simp only [readValue, (token_singleton_iff rfl).1 hcolon,
      hscans.readPieces_eq (hrest.mono (by decide)) (show c₂.length < n by omega), he',
      Option.map_some]

theorem accepts_oneField {cs rest : List Char} (h : Accepts .field cs rest) :
    Accepts .fields cs rest := by
  intro c₁ hclose
  obtain ⟨key, c₂, v, hkey, hv⟩ := h (hclose.nextIn rfl (by decide))
  refine ⟨[.field key v], fun n hn => ?_⟩
  obtain ⟨k, rfl⟩ : ∃ k, n = k + 1 := ⟨n - 1, by omega⟩
  simp [readFields_succ, hkey, hv k (by omega), (token_singleton_iff rfl).1 hclose]

theorem accepts_moreFields {cs c₁ c₂ rest : List Char} (h : Accepts .field cs c₁)
    (hlt : c₂.length < cs.length) (hcomma : Token [','] c₁ c₂) (hs : Accepts .fields c₂ rest) :
    Accepts .fields cs rest := by
  intro c₃ hclose
  obtain ⟨key, c₄, v, hkey, hv⟩ := h (hcomma.nextIn rfl (by decide))
  obtain ⟨fs, hfs⟩ := hs c₃ hclose
  refine ⟨.field key v :: fs, fun n hn => ?_⟩
  obtain ⟨k, rfl⟩ : ∃ k, n = k + 1 := ⟨n - 1, by omega⟩
  simp [readFields_succ, hkey, hv k (by omega), (token_singleton_iff rfl).1 hcomma,
    hfs k (by omega)]

theorem accepts_noParams {cs : List Char} : Accepts .params cs cs := by
  intro c₁ hclose
  refine ⟨[], fun n hn => ?_⟩
  obtain ⟨k, rfl⟩ : ∃ k, n = k + 1 := ⟨n - 1, by omega⟩
  simp [readParams, (token_singleton_iff rfl).1 hclose]

/-- No type starts with the closing parenthesis. -/
theorem readTops_of_close {cs rest : List Char} (h : skipGap cs = ')' :: rest) (n : Nat) :
    readTops n cs = none := by
  match n with
  | 0 => rfl
  | 1 => rfl
  | 2 => simp [readTops, readTop, h, readPieces]
  | n + 3 =>
      have hread : readPieces (n + 1) (')' :: rest) = some ([], ')' :: rest) := rfl
      simp [readTops, readTop, h, hread, resolveUnion_nil]

theorem accepts_params {cs rest : List Char} (h : Accepts .tops cs rest) :
    Accepts .params cs rest := by
  intro c₁ hclose
  obtain ⟨es, hes⟩ := h c₁ hclose
  refine ⟨es, fun n hn => ?_⟩
  obtain ⟨k, rfl⟩ : ∃ k, n = k + 1 := ⟨n - 1, by omega⟩
  have hread := hes k (by omega)
  rw [readParams]
  split
  · rename_i heq
    rw [readTops_of_close heq] at hread
    cases hread
  · rw [readTops_skipGap, hread]

theorem accepts_oneTop {cs rest : List Char} (h : Accepts .top cs rest) :
    Accepts .tops cs rest := by
  intro c₁ hclose
  obtain ⟨e, he⟩ := h (hclose.nextIn rfl (by decide))
  refine ⟨[e], fun n hn => ?_⟩
  obtain ⟨k, rfl⟩ : ∃ k, n = k + 1 := ⟨n - 1, by omega⟩
  simp [readTops, he k (by omega), (token_singleton_iff rfl).1 hclose]

theorem accepts_moreTops {cs c₁ c₂ rest : List Char} (h : Accepts .top cs c₁)
    (hlt : c₂.length < cs.length) (hcomma : Token [','] c₁ c₂) (hs : Accepts .tops c₂ rest) :
    Accepts .tops cs rest := by
  intro c₃ hclose
  obtain ⟨e, he⟩ := h (hcomma.nextIn rfl (by decide))
  obtain ⟨es, hes⟩ := hs c₃ hclose
  refine ⟨e :: es, fun n hn => ?_⟩
  obtain ⟨k, rfl⟩ : ∃ k, n = k + 1 := ⟨n - 1, by omega⟩
  simp [readTops, he k (by omega), (token_singleton_iff rfl).1 hcomma, hes k (by omega)]

theorem accepts_group {cs c₁ c₂ rest : List Char} (hopen : Token ['('] cs c₁)
    (h : Accepts .union c₁ c₂) (hclose : Token [')'] c₂ rest) (hlt : rest.length < cs.length) :
    Accepts .primary cs rest := by
  intro _
  obtain ⟨ps, e, hscans, hfits⟩ := h (hclose.nextIn rfl (by decide))
  obtain ⟨e', he'⟩ := resolved_of_fits hfits
  exact ⟨_, e', scans_group hopen hscans he' hclose hlt, .atom e'⟩

theorem accepts_function {cs c₁ c₂ c₃ c₄ rest : List Char}
    (hword : Token "function".toList cs c₁) (hopen : Token ['('] c₁ c₂)
    (hps : Accepts .params c₂ c₃) (hclose : Token [')'] c₃ c₄) (hlt : c₄.length < cs.length)
    (hrs : Accepts .typing c₄ rest) : Accepts .primary cs rest := by
  intro hrest
  obtain ⟨ps, hps⟩ := hps c₄ hclose
  rcases hrs hrest with rfl | ⟨c₅, qs, e, hcolon, hscans, hfits⟩
  · exact ⟨_, _, scans_function hword hopen hps hrest hlt, .atom _⟩
  · have hlt' := Nat.lt_trans hcolon.length_lt hlt
    exact ⟨_, _, (scans_arrow hword hopen hps hcolon hlt').append hscans, .arrow ps hfits⟩

/-- What a rule derives is read. -/
theorem accepts_of_derives {r : Rule} {cs : List Char} {es : List TypeExpr} {rest : List Char}
    (h : Derives r cs es rest) : Accepts r cs rest := by
  induction h with
  | variadic hdots _ ih => exact accepts_variadic hdots ih
  | variadicAll hdots => exact accepts_variadicAll hdots
  | optional _ hmark ih => exact accepts_optional ih hmark
  | required _ ih => exact accepts_required ih
  | single _ ih =>
      intro hrest
      obtain ⟨ps, e, hscans, hfits⟩ := ih hrest
      exact ⟨ps, e, hscans, .single hfits⟩
  | several _ hbar _ ih ihs =>
      intro hrest
      obtain ⟨ps, e, hscans, hfits⟩ := ih (hbar.nextIn rfl (by decide))
      obtain ⟨qs, es, hscans', hfits'⟩ := ihs hrest
      exact ⟨_, _, hscans.append ((scans_bar hbar).append hscans'), .several hfits hfits'⟩
  | oneOther _ ih =>
      intro hrest
      obtain ⟨ps, e, hscans, hfits⟩ := ih hrest
      exact ⟨ps, [e], hscans, .oneOther hfits⟩
  | moreOthers _ hbar _ ihs ih =>
      intro hrest
      obtain ⟨ps, es, hscans, hfits⟩ := ihs (hbar.nextIn rfl (by decide))
      obtain ⟨qs, e, hscans', hfits'⟩ := ih hrest
      exact ⟨_, _, hscans.append ((scans_bar hbar).append hscans'), .moreOthers hfits hfits'⟩
  | nullableBefore hmark _ ih =>
      intro hrest
      obtain ⟨ps, e, hscans, hfits⟩ := ih hrest
      exact ⟨_, _, (scans_query hmark).append hscans, .nullableBefore hfits⟩
  | nonNullableBefore hmark _ ih =>
      intro hrest
      obtain ⟨ps, e, hscans, hfits⟩ := ih hrest
      exact ⟨_, _, (scans_bang hmark).append hscans, .nonNullableBefore hfits⟩
  | nullableAfter _ hmark ih =>
      intro _
      obtain ⟨ps, e, hscans, hfits⟩ := ih (hmark.nextIn rfl (by decide))
      exact ⟨_, _, hscans.append (scans_query hmark), .nullableAfter hfits⟩
  | nonNullableAfter _ hmark ih =>
      intro _
      obtain ⟨ps, e, hscans, hfits⟩ := ih (hmark.nextIn rfl (by decide))
      exact ⟨_, _, hscans.append (scans_bang hmark), .nonNullableAfter hfits⟩
  | unmarked _ ih =>
      intro hrest
      obtain ⟨ps, e, hscans, hfits⟩ := ih hrest
      exact ⟨ps, e, hscans, .unmarked hfits⟩
  | unsuffixed _ ih =>
      intro hrest
      obtain ⟨ps, e, hscans, hfits⟩ := ih hrest
      exact ⟨ps, e, hscans, .unsuffixed hfits⟩
  | array _ hopen hclose ih =>
      intro _
      obtain ⟨ps, e, hscans, hfits⟩ := ih (hopen.nextIn rfl (by decide))
      exact ⟨_, _, hscans.append (scans_array hopen hclose), .array hfits⟩
  | name h => exact fun hrest => ⟨_, _, scans_name h hrest, .atom _⟩
  | dottedApply h hopen hs hclose ihs =>
      intro _
      obtain ⟨es, hes⟩ := ihs _ hclose
      have hle := hs.length_le
      have hlt := hopen.length_lt
      exact ⟨_, _, scans_dottedApply h hopen hes (by grind [h.length_lt, hclose.length_lt]),
        .atom _⟩
  | apply h hopen hs hclose ihs =>
      intro _
      obtain ⟨es, hes⟩ := ihs _ hclose
      have hle := hs.length_le
      have hlt := hopen.length_lt
      exact ⟨_, _, scans_apply h hopen hes (by grind [h.length_lt, hclose.length_lt]), .atom _⟩
  | group hopen h hclose ih =>
      exact accepts_group hopen ih hclose
        (by grind [hopen.length_lt, h.length_le, hclose.length_lt])
  | all h => exact fun _ => ⟨_, _, scans_all h, .atom _⟩
  | unknown h => exact fun _ => ⟨_, _, scans_query h, .unknown⟩
  | emptyRecord hopen hclose => exact fun _ => ⟨_, _, scans_emptyRecord hopen hclose, .atom _⟩
  | record hopen hs hclose ihs =>
      intro _
      obtain ⟨fs, hfs⟩ := ihs _ hclose
      exact ⟨_, _, scans_record hopen hfs
        (by grind [hopen.length_lt, hs.length_le, hclose.length_lt]), .atom _⟩
  | function hword hopen hps hclose _ ihps ihrs =>
      refine accepts_function hword hopen ihps hclose ?_ ihrs
      grind [hword.length_le, hopen.length_lt, hps.length_le, hclose.length_lt]
  | oneArgument _ ih => exact accepts_oneArgument ih
  | moreArguments h hcomma _ ih ihs =>
      exact accepts_moreArguments ih (by grind [h.length_le, hcomma.length_lt]) hcomma ihs
  | oneField _ ih => exact accepts_oneField ih
  | moreFields h hcomma _ ih ihs =>
      exact accepts_moreFields ih (by grind [h.length_le, hcomma.length_lt]) hcomma ihs
  | field h _ ih => exact accepts_field h ih
  | noParams => exact accepts_noParams
  | params _ ih => exact accepts_params ih
  | oneTop _ ih => exact accepts_oneTop ih
  | moreTops h hcomma _ ih ihs =>
      exact accepts_moreTops ih (by grind [h.length_le, hcomma.length_lt]) hcomma ihs
  | untyped => exact fun _ => .inl rfl
  | typed hcolon _ ih =>
      intro hrest
      obtain ⟨ps, e, hscans, hfits⟩ := ih hrest
      exact .inr ⟨_, ps, e, hcolon, hscans, hfits⟩

/-! ### The whole text -/

theorem parse?_eq_some_iff {s : String} {e : TypeExpr} :
    parse? s = some e ↔ readTop (2 * (trimEnds isBlank s.toList).length + 2)
      (trimEnds isBlank s.toList) = some (e, []) := by
  rw [parse?]
  split <;> simp_all

/-- A text that is scanned to its end is read, when its pieces can be resolved. -/
theorem parse?_of_scans {s : String} {ps : List Piece} {e : TypeExpr}
    (h : Scans (trimEnds isBlank s.toList) ps []) (he : resolveUnion ps = some e) :
    parse? s = some e := by
  rw [parse?_eq_some_iff]
  have hread : readPieces (2 * (trimEnds isBlank s.toList).length + 1)
      (trimEnds isBlank s.toList) = some (ps, []) :=
    h.readPieces_eq (by simp [NextIn, skipGap]) (by omega)
  rw [readTop]
  split
  · exact absurd ‹_› (skipGap_ne_dots hread he _)
  · simp [readPieces_skipGap, hread, he]

theorem denotes_of_parse? {s : String} {e : TypeExpr} (h : parse? s = some e) :
    Denotes (trimEnds isBlank s.toList) e := by
  obtain ⟨rest, hderives, hrest⟩ := (sound _).top (parse?_eq_some_iff.1 h)
  exact ⟨rest, hderives, skipGap_eq_nil_iff.1 hrest.symm⟩

theorem exists_parse?_of_denotes {s : String} {e : TypeExpr}
    (h : Denotes (trimEnds isBlank s.toList) e) : ∃ e', parse? s = some e' := by
  obtain ⟨rest, hderives, hrest⟩ := h
  obtain ⟨e', he'⟩ := accepts_of_derives hderives (nextIn_of_forall_isGap hrest)
  refine ⟨e', parse?_eq_some_iff.2 ?_⟩
  rw [he' _ (by omega), skipGap_eq_nil_iff.2 hrest]

/-- A text is read exactly when the grammar derives it, and what is read is an expression that one
of its derivations builds. -/
theorem parse?_accepts_grammar (s : String) :
    ((∃ e, parse? s = some e) ↔ ∃ e, Denotes (trimEnds isBlank s.toList) e) ∧
      ∀ e, parse? s = some e → Denotes (trimEnds isBlank s.toList) e := by
  refine ⟨⟨?_, ?_⟩, fun e he => denotes_of_parse? he⟩
  · rintro ⟨e, he⟩
    exact ⟨e, denotes_of_parse? he⟩
  · rintro ⟨e, he⟩
    exact exists_parse?_of_denotes he

end Ambient.TypeExpr
