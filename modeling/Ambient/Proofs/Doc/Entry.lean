import Ambient.Doc.Tag
import Ambient.Text.Line
import Ambient.Proofs.Text.Trim

/-!
# Written tags

A tag as an author writes it on one line: a title, a type in braces, for some titles a name, and
behind a dash what is said about it.  An `Entry` has the parts and the conditions under which they can
be told apart, among them that the brackets inside the type and inside a default are balanced.
Reading the line of an entry gives its parts.
-/

namespace Ambient.Doc

open Ambient.Text

/-! ### Brackets -/

/-- Brackets of one kind stand in pairs. -/
inductive Balanced (opening closing : Char) : List Char → Prop where
  | nil : Balanced opening closing []
  | other {c : Char} {v : List Char} (hopening : c ≠ opening) (hclosing : c ≠ closing)
      (hv : Balanced opening closing v) : Balanced opening closing (c :: v)
  | pair {u v : List Char} (hu : Balanced opening closing u) (hv : Balanced opening closing v) :
      Balanced opening closing (opening :: (u ++ closing :: v))

section Brackets

variable {opening closing : Char} {w : List Char}

theorem Balanced.of_forall (h : ∀ c ∈ w, c ≠ opening ∧ c ≠ closing) :
    Balanced opening closing w := by
  induction w with
  | nil => exact .nil
  | cons c w ih =>
      obtain ⟨hc, hw⟩ := List.forall_mem_cons.1 h
      exact .other hc.1 hc.2 (ih hw)

theorem Balanced.append {v : List Char} (hw : Balanced opening closing w)
    (hv : Balanced opening closing v) : Balanced opening closing (w ++ v) := by
  induction hw with
  | nil => exact hv
  | other hopening hclosing _ ih => exact .other hopening hclosing ih
  | pair hu _ _ ih => simpa using Balanced.pair hu ih

theorem untilClose_other {c : Char} (hopening : c ≠ opening) (hclosing : c ≠ closing) (depth : Nat)
    (rest : List Char) : untilClose opening closing depth (c :: rest) =
      (untilClose opening closing depth rest).map fun r => (c :: r.1, r.2) := by
  rw [untilClose.eq_def]
  simp only [if_neg hopening, if_neg hclosing]

theorem untilClose_opening (depth : Nat) (rest : List Char) :
    untilClose opening closing depth (opening :: rest) =
      (untilClose opening closing (depth + 1) rest).map fun r => (opening :: r.1, r.2) := by
  rw [untilClose.eq_def]
  simp only [if_true]

theorem untilClose_closing (hne : opening ≠ closing) (depth : Nat) (rest : List Char) :
    untilClose opening closing (depth + 1) (closing :: rest) =
      (untilClose opening closing depth rest).map fun r => (closing :: r.1, r.2) := by
  rw [untilClose.eq_def]
  simp only [if_neg hne.symm, if_true]

/-- The scan for the closing bracket goes over balanced text, at any depth. -/
theorem untilClose_append (hne : opening ≠ closing) (h : Balanced opening closing w) (depth : Nat)
    (rest : List Char) : untilClose opening closing depth (w ++ rest) =
      (untilClose opening closing depth rest).map fun r => (w ++ r.1, r.2) := by
  induction h generalizing depth rest with
  | nil => simp
  | other hopening hclosing _ ih =>
      rw [List.cons_append, untilClose_other hopening hclosing, ih, Option.map_map]
      rfl
  | pair _ _ ihu ihv =>
      rw [List.cons_append, untilClose_opening, List.append_assoc, List.cons_append, ihu,
        untilClose_closing hne, ihv]
      simp [Option.map_map, Function.comp_def]

theorem untilClose_balanced (hne : opening ≠ closing) (h : Balanced opening closing w)
    (rest : List Char) :
    untilClose opening closing 0 (w ++ closing :: rest) = some (w, rest) := by
  have hclose : untilClose opening closing 0 (closing :: rest) = some ([], rest) := by
    rw [untilClose.eq_def]
    simp only [if_neg hne.symm, if_true]
  rw [untilClose_append hne h, hclose]
  simp

end Brackets

/-! ### Names -/

/-- No character ends a line. -/
def SingleLine (s : String) : Prop :=
  ∀ c ∈ s.toList, isBreak c = false

instance (s : String) : Decidable (SingleLine s) :=
  List.decidableBAll (fun c => isBreak c = false) s.toList

theorem isBlank_of_isBreak {c : Char} (h : isBreak c = true) : isBlank c = true := by
  simp only [isBreak, isBlank, Bool.or_eq_true, Bool.and_eq_true, decide_eq_true_eq,
    beq_iff_eq] at h ⊢
  omega

theorem singleLine_append {s t : String} : SingleLine (s ++ t) ↔ SingleLine s ∧ SingleLine t := by
  simp only [SingleLine, String.toList_append, List.forall_mem_append]

/-- No blanks stand at the ends. -/
def Stripped (s : String) : Prop :=
  trim s = s

instance (s : String) : Decidable (Stripped s) :=
  inferInstanceAs (Decidable (trim s = s))

/-- How a name is written: `n`, `[n]` or `[n=d]`. -/
inductive NameForm where
  | plain
  | optional
  | defaulted (value : String)

namespace NameForm

/-- The name stands in brackets. -/
def isOptional : NameForm → Bool
  | plain => false
  | _ => true

/-- The default behind the name. -/
def default? : NameForm → Option String
  | defaulted d => some d
  | _ => none

/-- The name in its form. -/
def write (name : String) : NameForm → String
  | plain => name
  | optional => "[" ++ name ++ "]"
  | defaulted d => "[" ++ name ++ "=" ++ d ++ "]"

end NameForm

/-- A documented name. -/
structure Label where
  name : String
  form : NameForm
  ne_empty : name ≠ ""
  chars : ∀ c ∈ name.toList, isBlank c = false ∧ c ≠ '[' ∧ c ≠ ']' ∧ c ≠ '='
  default : ∀ d ∈ form.default?, SingleLine d ∧ Stripped d ∧ Balanced '[' ']' d.toList

theorem Stripped.trimEnds_eq {s : String} (h : Stripped s) :
    trimEnds isBlank s.toList = s.toList := by
  rw [← String.ofList_inj, String.ofList_toList]
  exact h

theorem nonEmpty?_of_ne {s : String} (h : s ≠ "") : nonEmpty? s = some s := by
  rw [nonEmpty?, if_neg (by simpa using h)]

namespace Label

variable (l : Label)

/-- The name as it is written. -/
def write : String :=
  l.form.write l.name

theorem toList_ne_nil : l.name.toList ≠ [] := by
  simpa using l.ne_empty

theorem tight_name : Tight isBlank l.name.toList :=
  tight_of_forall l.toList_ne_nil fun c hc => (l.chars c hc).1

theorem name_balanced : Balanced '[' ']' l.name.toList :=
  .of_forall fun c hc => ⟨(l.chars c hc).2.1, (l.chars c hc).2.2.1⟩

theorem no_equals : ∀ c ∈ l.name.toList, (c == '=') = false := by
  intro c hc
  simpa using (l.chars c hc).2.2.2

/-- A name that stands in brackets is read up to the closing one. -/
theorem readName_bracketed {inner : List Char} (h : Balanced '[' ']' inner) (rest : List Char) :
    readName (' ' :: '[' :: (inner ++ ']' :: rest)) = readOptional inner rest := by
  have htrim : trimFront isBlank (' ' :: '[' :: (inner ++ ']' :: rest)) =
      '[' :: (inner ++ ']' :: rest) := rfl
  simp only [readName, htrim, untilClose_balanced (by decide) h]

theorem readName_plain (rest : List Char) :
    readName (' ' :: (l.name.toList ++ ' ' :: rest)) =
      { name := some l.name, rest := ' ' :: rest } := by
  obtain ⟨c, v, hcv, hc⟩ := l.tight_name.front
  have htrim : trimFront isBlank (' ' :: (l.name.toList ++ ' ' :: rest)) =
      l.name.toList ++ ' ' :: rest := by
    rw [trimFront, List.dropWhile_cons_of_pos (by decide)]
    exact l.tight_name.trimFront_eq _
  have hword : readName (' ' :: (l.name.toList ++ ' ' :: rest)) =
      readWord (l.name.toList ++ ' ' :: rest) := by
    simp only [readName, htrim]
    split
    · rename_i hopen
      rw [hcv] at hopen
      cases hopen
      exact absurd rfl (l.chars '[' (by simp [hcv])).2.1
    · rfl
  have hblank : ∀ x ∈ l.name.toList, (!isBlank x) = true := by
    intro x hx
    simp [(l.chars x hx).1]
  rw [hword, readWord, List.takeWhile_append_of_pos hblank, List.dropWhile_append_of_pos hblank]
  have hstop : isBlank ' ' = true := rfl
  simp [hstop, nonEmpty?_of_ne l.ne_empty]

theorem readOptional_name (rest : List Char) :
    readOptional l.name.toList rest = { name := some l.name, optional := true, rest } := by
  simp only [readOptional, cutFirst?_eq_none l.no_equals, l.tight_name.trimEnds_eq,
    String.ofList_toList, nonEmpty?_of_ne l.ne_empty]

theorem readOptional_default {d : String} (hd : Stripped d) (rest : List Char) :
    readOptional (l.name.toList ++ '=' :: d.toList) rest =
      { name := some l.name, optional := true, default := some d, rest } := by
  have hcut : cutFirst? (· == '=') (l.name.toList ++ '=' :: d.toList) =
      some (l.name.toList, d.toList) := cutFirst?_append_cons _ l.no_equals rfl
  simp only [readOptional, hcut, l.tight_name.trimEnds_eq, String.ofList_toList,
    nonEmpty?_of_ne l.ne_empty, hd.trimEnds_eq]

theorem single_name : SingleLine l.name := by
  intro c hc
  rw [Bool.eq_false_iff]
  intro hbreak
  have hblank := (l.chars c hc).1
  rw [isBlank_of_isBreak hbreak] at hblank
  cases hblank

theorem single_write : SingleLine l.write := by
  have hname := l.single_name
  obtain ⟨name, form, hne, hchars, hdefault⟩ := l
  cases form with
  | plain => exact hname
  | optional =>
      simp only [write, NameForm.write, singleLine_append, and_assoc]
      exact ⟨by decide, hname, by decide⟩
  | defaulted d =>
      obtain ⟨hd, -, -⟩ := hdefault d rfl
      simp only [write, NameForm.write, singleLine_append, and_assoc]
      exact ⟨by decide, hname, by decide, hd, by decide⟩

/-- A written name is read, and what stands behind it is left. -/
theorem readName_write (rest : List Char) :
    readName (' ' :: (l.write.toList ++ ' ' :: rest)) =
      { name := some l.name, optional := l.form.isOptional, default := l.form.default?,
        rest := ' ' :: rest } := by
  obtain ⟨name, form, hne, hchars, hdefault⟩ := l
  cases form with
  | plain => exact readName_plain ⟨name, .plain, hne, hchars, hdefault⟩ rest
  | optional =>
      have hread := readName_bracketed
        (name_balanced ⟨name, .optional, hne, hchars, hdefault⟩) (' ' :: rest)
      rw [readOptional_name ⟨name, .optional, hne, hchars, hdefault⟩] at hread
      simpa [write, NameForm.write, NameForm.isOptional, NameForm.default?] using hread
  | defaulted d =>
      obtain ⟨-, hstripped, hbalanced⟩ := hdefault d rfl
      have hinner : Balanced '[' ']' (name.toList ++ '=' :: d.toList) :=
        (name_balanced ⟨name, .defaulted d, hne, hchars, hdefault⟩).append
          (.other (by decide) (by decide) hbalanced)
      have hread := readName_bracketed hinner (' ' :: rest)
      rw [readOptional_default ⟨name, .defaulted d, hne, hchars, hdefault⟩ hstripped] at hread
      simpa [write, NameForm.write, NameForm.isOptional, NameForm.default?] using hread

end Label

/-! ### Tags -/

/-- What a tag is about: something with a name, a result, or the documented thing itself. -/
inductive Subject where
  | param (label : Label)
  | property (label : Label)
  | result
  | value

namespace Subject

/-- The title of the tag. -/
def title : Subject → String
  | param _ => "param"
  | property _ => "property"
  | result => "return"
  | value => "type"

theorem title_mem (s : Subject) : s.title ∈ ["param", "property", "return", "type"] := by
  cases s <;> simp [title]

theorem title_word (s : Subject) :
    s.title.toList ≠ [] ∧ ∀ c ∈ s.title.toList, isWord c = true := by
  have htitles : ∀ t ∈ ["param", "property", "return", "type"],
      t.toList ≠ [] ∧ t.toList.all isWord = true := by decide
  obtain ⟨hne, hall⟩ := htitles _ s.title_mem
  exact ⟨hne, List.all_eq_true.1 hall⟩

theorem single_title (s : Subject) : SingleLine s.title := by
  have htitles : ∀ t ∈ ["param", "property", "return", "type"], SingleLine t := by decide
  exact htitles _ s.title_mem

/-- The name of what the tag is about. -/
def label? : Subject → Option Label
  | param l => some l
  | property l => some l
  | _ => none

/-- The name behind the type, with the blank in front of it. -/
def write (s : Subject) : String :=
  match s.label? with
  | some l => " " ++ l.write
  | none => ""

theorem single_write (s : Subject) : SingleLine s.write := by
  have hblank : SingleLine " " := by decide
  cases s with
  | param l | property l => exact singleLine_append.2 ⟨hblank, l.single_write⟩
  | result | value => exact List.forall_mem_nil _

end Subject

/-- A tag on one line. -/
structure Entry where
  subject : Subject
  type : String
  text : String
  type_single : SingleLine type
  type_balanced : Balanced '{' '}' type.toList
  text_single : SingleLine text
  text_stripped : Stripped text
  text_ne_empty : text ≠ ""

namespace Entry

variable (e : Entry)

/-- The line of the tag. -/
def write : String :=
  "@" ++ e.subject.title ++ " \x7b" ++ e.type ++ "\x7d" ++ e.subject.write ++ " - " ++ e.text

/-- The parts of the tag. -/
def tag : Tag where
  title := e.subject.title
  name := e.subject.label?.map Label.name
  description := some e.text
  type := TypeExpr.parse? e.type
  rawType := some e.type
  optional := e.subject.label?.any fun l => l.form.isOptional
  default := e.subject.label?.bind fun l => l.form.default?

theorem readTitle_write (word rest : List Char) (hne : word ≠ []) (hword : ∀ c ∈ word, isWord c = true) :
    readTitle ('@' :: (word ++ ' ' :: '{' :: rest)) = some (String.ofList word, '{' :: rest) := by
  have hstop : isWord ' ' = false := rfl
  have htake : (word ++ ' ' :: '{' :: rest).takeWhile isWord = word := by
    rw [List.takeWhile_append_of_pos hword]
    simp [hstop]
  have hdrop : (word ++ ' ' :: '{' :: rest).dropWhile isWord = ' ' :: '{' :: rest := by
    rw [List.dropWhile_append_of_pos hword]
    simp [hstop]
  rw [readTitle, htake, hdrop]
  cases word with
  | nil => exact absurd rfl hne
  | cons c word => rfl

theorem readType_write {title : String} (htitle : isTyped title = true) {type : List Char}
    (h : Balanced '{' '}' type) (rest : List Char) :
    readType title ('{' :: (type ++ '}' :: rest)) = (some (String.ofList type), rest) := by
  have htrim : trimFront isBlank ('{' :: (type ++ '}' :: rest)) = '{' :: (type ++ '}' :: rest) := rfl
  simp only [readType, htitle, htrim, readBraced, untilClose_balanced (by decide) h, Option.getD_some]

theorem readDescription_write {text : List Char} (h : Tight isBlank text) :
    readDescription (' ' :: '-' :: ' ' :: text) = some (String.ofList text) := by
  have hwhole : trimEnds isBlank (' ' :: '-' :: ' ' :: text) = '-' :: ' ' :: text := by
    rw [trimEnds_cons_of_pos rfl]
    exact ((Tight.singleton (c := '-') rfl).append [' '] h).trimEnds_eq
  have hne : String.ofList text ≠ "" := by
    obtain ⟨c, v, rfl, -⟩ := h.front
    simp
  simp only [readDescription, hwhole]
  rw [trimEnds_cons_of_pos rfl, h.trimEnds_eq, nonEmpty?_of_ne hne]

theorem tight_text : Tight isBlank e.text.toList :=
  tight_of_trimEnds_eq e.text_stripped.trimEnds_eq (by simpa using e.text_ne_empty)

theorem toList_write : e.write.toList = '@' :: (e.subject.title.toList ++ ' ' :: '{' ::
    (e.type.toList ++ '}' :: (e.subject.write.toList ++ ' ' :: '-' :: ' ' :: e.text.toList))) := by
  simp [write]

theorem tight_write : Tight isBlank e.write.toList := by
  have hat : Tight isBlank ['@'] := .singleton rfl
  have hwhole := hat.append (e.subject.title.toList ++ ' ' :: '{' :: (e.type.toList ++ '}' ::
    (e.subject.write.toList ++ [' ', '-', ' ']))) e.tight_text
  rw [toList_write]
  simpa using hwhole

theorem single_write : SingleLine e.write := by
  simp only [write, singleLine_append, and_assoc]
  exact ⟨by decide, e.subject.single_title, by decide, e.type_single, by decide,
    e.subject.single_write, by decide, e.text_single⟩

/-- What stands behind the type is the name and then the text. -/
theorem readNameOf_write (s : Subject) (rest : List Char) :
    readNameOf s.title (s.write.toList ++ ' ' :: rest) =
      { name := s.label?.map Label.name
        optional := s.label?.any fun l => l.form.isOptional
        default := s.label?.bind fun l => l.form.default?
        rest := ' ' :: rest } := by
  cases s with
  | param l | property l =>
      rw [readNameOf, if_pos (by rfl)]
      simpa [Subject.write, Subject.label?] using l.readName_write rest
  | result => rfl
  | value => rfl

/-- The line of a tag is read as its parts. -/
theorem read?_write : Tag.read? e.write.toList = some e.tag := by
  have htitle : readTitle e.write.toList = some (e.subject.title, '{' ::
      (e.type.toList ++ '}' :: (e.subject.write.toList ++ ' ' :: '-' :: ' ' :: e.text.toList))) := by
    obtain ⟨hne, hword⟩ := e.subject.title_word
    rw [toList_write, readTitle_write _ _ hne hword, String.ofList_toList]
  have htitles : ∀ t ∈ ["param", "property", "return", "type"],
      canonicalTitle t = t ∧ isTyped t = true := by decide
  obtain ⟨hcanonical, htyped⟩ := htitles _ e.subject.title_mem
  rw [Tag.read?, htitle]
  simp only [Option.map_some, hcanonical, readType_write htyped e.type_balanced, readNameOf_write,
    readDescription_write e.tight_text, String.ofList_toList]
  rfl

end Entry

end Ambient.Doc
