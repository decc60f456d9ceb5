import Ambient.Proofs.Json.Quoted
import Ambient.Source.Node

/-!
# What a string literal denotes

The value of a string literal is a list of 16-bit units.  Between its quotes a character stands for
its own units, and a backslash opens an escape: a letter with a meaning, a line that is continued, a
number in base eight or sixteen, a code point, or any other character for itself.  Escapes are read
alike between either quotes.

Two texts between double quotes are compared with a literal: what `quoteAscii` writes for the text
between the quotes, which denotes that text as it stands, and the text itself, whose quotes may end
the literal before its end.
-/

namespace Ambient.Source

open Ambient.Text Ambient.Json

/-! ### Units -/

/-- The 16-bit units of a code point: two beyond the basic plane. -/
def unitsOf (n : Nat) : List Nat :=
  if n < 0x10000 then [n]
  else [0xd800 + (n - 0x10000) / 0x400, 0xdc00 + (n - 0x10000) % 0x400]

/-- The units of a text. -/
def units (cs : List Char) : List Nat :=
  cs.flatMap fun c => unitsOf c.toNat

@[simp]
theorem units_nil : units [] = [] := rfl

@[simp]
theorem units_cons (c : Char) (cs : List Char) : units (c :: cs) = unitsOf c.toNat ++ units cs :=
  rfl

theorem units_append (cs ds : List Char) : units (cs ++ ds) = units cs ++ units ds :=
  List.flatMap_append ..

theorem length_unitsOf (n : Nat) : 1 ≤ (unitsOf n).length ∧ (unitsOf n).length ≤ 2 := by
  unfold unitsOf
  split <;> simp

theorem length_le_units (cs : List Char) : cs.length ≤ (units cs).length := by
  induction cs with
  | nil => exact Nat.le_refl 0
  | cons c cs ih =>
      have hc := (length_unitsOf c.toNat).1
      rw [units_cons, List.length_append, List.length_cons]
      omega

/-! ### Escapes -/

/-- The characters that end a line of a source. -/
def endsLine (c : Char) : Bool :=
  c == '\n' || c == '\r' || c == '\u2028' || c == '\u2029'

/-- A digit in base eight. -/
def isOctal (c : Char) : Bool :=
  '0' ≤ c && c ≤ '7'

/-- What a character behind a backslash stands for: a control character, or itself. -/
def letterUnits (c : Char) : List Nat :=
  match c with
  | 'b' => [0x08]
  | 't' => [0x09]
  | 'n' => [0x0a]
  | 'v' => [0x0b]
  | 'f' => [0x0c]
  | 'r' => [0x0d]
  | c => unitsOf c.toNat

/-- A unit written by a fixed number of digits, and the text behind it. -/
def fixedEscape? (width : Nat) (cs : List Char) : Option (List Nat × List Char) :=
  if width ≤ cs.length then (hexNumber? 0 (cs.take width)).map fun n => ([n], cs.drop width)
  else none

/-- A code point written up to a closing brace, and the text behind it. -/
def bracedEscape? (cs : List Char) : Option (List Nat × List Char) :=
  match cs.takeWhile (· != '}'), cs.dropWhile (· != '}') with
  | d :: ds, '}' :: rest =>
    (hexNumber? 0 (d :: ds)).bind fun n => if n ≤ 0x10ffff then some (unitsOf n, rest) else none
  | _, _ => none

/-- The octal digits behind a first one: a number below 256 takes up to three in all. -/
def octalTail (c : Char) (cs : List Char) : List Char :=
  (cs.take (if c ≤ '3' then 2 else 1)).takeWhile isOctal

/-- The number that octal digits write. -/
def octalNumber (ds : List Char) : Nat :=
  ds.foldl (fun n d => n * 8 + (d.toNat - 0x30)) 0

/-- The units that an escape stands for, from the character behind the backslash on, and the text
behind the escape. -/
def escape? : List Char → Option (List Nat × List Char)
  | [] => none
  | '\r' :: '\n' :: cs => some ([], cs)
  | 'x' :: cs => fixedEscape? 2 cs
  | 'u' :: '{' :: cs => bracedEscape? cs
  | 'u' :: cs => fixedEscape? 4 cs
  | c :: cs =>
    if endsLine c then some ([], cs)
    else if isOctal c then
      some ([octalNumber (c :: octalTail c cs)], cs.drop (octalTail c cs).length)
    else some (letterUnits c, cs)

/-! ### Literals -/

/-- What stands between the quotes `q` of a literal, and the units that it denotes. -/
inductive Spells (q : Char) : List Char → List Nat → Prop where
  | nil : Spells q [] []
  | plain {c : Char} {cs : List Char} {us : List Nat} (hquote : c ≠ q) (hslash : c ≠ '\\')
      (hbreak : c ≠ '\n' ∧ c ≠ '\r') (h : Spells q cs us) :
      Spells q (c :: cs) (unitsOf c.toNat ++ us)
  | escape {cs rest : List Char} {us vs : List Nat} (hescape : escape? cs = some (us, rest))
      (h : Spells q rest vs) : Spells q ('\\' :: cs) (us ++ vs)

/-- The text is a string literal, between double or single quotes, that denotes the units. -/
def Denotes (text : String) (value : List Nat) : Prop :=
  ∃ q body, (q = '"' ∨ q = '\x27') ∧ text.toList = q :: (body ++ [q]) ∧ Spells q body value

variable {q : Char} {cs rest : List Char} {us vs : List Nat}

/-! ### The characters of an escape -/

/-- A character that neither ends a literal nor opens an escape. -/
def IsQuiet (c : Char) : Prop :=
  c ≠ '"' ∧ c ≠ '\\'

theorem hexValue?_of_mem {n k : Nat} (h : hexNumber? n cs = some k) :
    ∀ d ∈ cs, (hexValue? d).isSome = true := by
  induction cs generalizing n with
  | nil => exact List.forall_mem_nil _
  | cons c cs ih =>
      rw [hexNumber?] at h
      obtain ⟨m, hm, h⟩ := Option.bind_eq_some_iff.1 h
      exact List.forall_mem_cons.2 ⟨by rw [hm]; rfl, ih h⟩

theorem isQuiet_of_satisfies {p : Char → Bool} {c : Char} (hc : p c = true) (hquote : p '"' = false)
    (hslash : p '\\' = false) : IsQuiet c := by
  constructor
  · rintro rfl
    rw [hc] at hquote
    cases hquote
  · rintro rfl
    rw [hc] at hslash
    cases hslash

theorem isQuiet_of_hexNumber? {n k : Nat} (h : hexNumber? n cs = some k) : ∀ d ∈ cs, IsQuiet d :=
  fun d hd =>
    isQuiet_of_satisfies (p := fun d => (hexValue? d).isSome) (hexValue?_of_mem h d hd) rfl rfl

/-- An escape is a character and quiet ones behind it, and stands for no more units than these
have. -/
structure Escaped (cs : List Char) (us : List Nat) (rest : List Char) (c : Char) (mid : List Char) :
    Prop where
  text : cs = c :: (mid ++ rest)
  quiet : ∀ d ∈ mid, IsQuiet d
  length : us.length ≤ (units (c :: mid)).length

theorem length_le_units_cons {k : Nat} (c : Char) (mid : List Char) (h : k ≤ mid.length + 1) :
    k ≤ (units (c :: mid)).length :=
  Nat.le_trans h (length_le_units (c :: mid))

theorem exists_of_fixedEscape? {width : Nat} (c : Char)
    (h : fixedEscape? width cs = some (us, rest)) : ∃ mid, Escaped (c :: cs) us rest c mid := by
  unfold fixedEscape? at h
  split at h
  · obtain ⟨n, hn, heq⟩ := Option.map_eq_some_iff.1 h
    obtain ⟨rfl, rfl⟩ := Prod.mk.inj heq
    refine ⟨cs.take width, by rw [List.take_append_drop], isQuiet_of_hexNumber? hn, ?_⟩
    exact length_le_units_cons c _ (by simp)
  · cases h

theorem exists_of_bracedEscape? (h : bracedEscape? cs = some (us, rest)) :
    ∃ mid, Escaped ('u' :: '{' :: cs) us rest 'u' mid := by
  unfold bracedEscape? at h
  split at h
  · rename_i d ds rest htake hdrop
    obtain ⟨n, hn, h⟩ := Option.bind_eq_some_iff.1 h
    split at h
    · cases h
      have hcs : cs = (d :: ds) ++ '}' :: rest := by
        rw [← htake, ← hdrop, List.takeWhile_append_dropWhile]
      refine ⟨'{' :: ((d :: ds) ++ ['}']), by rw [hcs]; simp, ?_, ?_⟩
      · have hbraces : IsQuiet '{' ∧ IsQuiet '}' := by
          unfold IsQuiet
          decide
        exact List.forall_mem_cons.2 ⟨hbraces.1, List.forall_mem_append.2
          ⟨isQuiet_of_hexNumber? hn, List.forall_mem_singleton.2 hbraces.2⟩⟩
      · have htwo := (length_unitsOf n).2
        exact length_le_units_cons _ _ (by simp; omega)
    · cases h
  · cases h

theorem octalTail_append (c : Char) (cs : List Char) :
    octalTail c cs ++ cs.drop (octalTail c cs).length = cs :=
  List.prefix_iff_eq_append.1 ((List.takeWhile_prefix _).trans (List.take_prefix _ _))

theorem length_letterUnits_le (c : Char) : (letterUnits c).length ≤ (unitsOf c.toNat).length := by
  unfold letterUnits
  split <;> exact Nat.le_refl _

/-- Every escape is a character and quiet ones behind it. -/
theorem exists_of_escape? (h : escape? cs = some (us, rest)) :
    ∃ c mid, Escaped cs us rest c mid := by
  unfold escape? at h
  split at h
  · cases h
  · cases h
    refine ⟨'\r', ['\n'], rfl, ?_, Nat.zero_le _⟩
    exact List.forall_mem_singleton.2 (isQuiet_of_satisfies (p := endsLine) rfl rfl rfl)
  · exact ⟨_, exists_of_fixedEscape? 'x' h⟩
  · exact ⟨_, exists_of_bracedEscape? h⟩
  · exact ⟨_, exists_of_fixedEscape? 'u' h⟩
  · rename_i c cs _ _ _ _
    split at h
    · cases h
      exact ⟨c, [], rfl, List.forall_mem_nil _, Nat.zero_le _⟩
    · split at h
      · cases h
        refine ⟨c, octalTail c cs, by rw [octalTail_append], fun d hd => ?_, ?_⟩
        · have hoctal := List.all_eq_true.1 List.all_takeWhile d hd
          exact isQuiet_of_satisfies hoctal rfl rfl
        · exact length_le_units_cons c _ (by simp)
      · cases h
        refine ⟨c, [], rfl, List.forall_mem_nil _, ?_⟩
        rw [units_cons, units_nil, List.append_nil]
        exact length_letterUnits_le c

/-! ### One value -/

/-- The value does not depend on the quotes. -/
theorem Spells.unique {q' : Char} (h : Spells q cs us) (h' : Spells q' cs vs) : us = vs := by
  induction h generalizing vs with
  | nil =>
      cases h'
      rfl
  | plain hquote hslash hbreak h ih =>
      cases h' with
      | plain _ _ _ h' => rw [ih h']
      | escape => exact absurd rfl hslash
  | escape hescape h ih =>
      cases h' with
      | plain _ hslash => exact absurd rfl hslash
      | escape hescape' h' =>
          rw [hescape] at hescape'
          cases hescape'
          rw [ih h']

theorem Denotes.unique {text : String} (h : Denotes text us) (h' : Denotes text vs) : us = vs := by
  obtain ⟨q, body, -, htext, hspells⟩ := h
  obtain ⟨q', body', -, htext', hspells'⟩ := h'
  rw [htext] at htext'
  obtain ⟨rfl, hbody⟩ := List.cons.inj htext'
  rw [List.append_left_inj] at hbody
  subst hbody
  exact hspells.unique hspells'

/-! ### Raw texts -/

/-- Characters that neither end the literal nor open an escape stand for themselves. -/
theorem spells_units (h : ∀ c ∈ cs, c ∉ [q, '\\', '\n', '\r']) : Spells q cs (units cs) := by
  induction cs with
  | nil => exact .nil
  | cons c cs ih =>
      obtain ⟨hc, hcs⟩ := List.forall_mem_cons.1 h
      simp only [List.mem_cons, List.not_mem_nil, or_false, not_or] at hc
      exact .plain hc.1 hc.2.1 hc.2.2 (ih hcs)

/-- Without escapes every character stands for itself. -/
theorem Spells.eq_units (h : Spells q cs us) (hslash : '\\' ∉ cs) : us = units cs := by
  induction h with
  | nil => rfl
  | plain _ _ _ _ ih => rw [ih fun hmem => hslash (List.mem_cons_of_mem _ hmem), units_cons]
  | escape => exact absurd (List.mem_cons_self ..) hslash

theorem Spells.length_le (h : Spells q cs us) : us.length ≤ (units cs).length := by
  induction h with
  | nil => exact Nat.le_refl 0
  | plain _ _ _ _ ih =>
      rw [units_cons, List.length_append, List.length_append]
      omega
  | escape hescape _ ih =>
      obtain ⟨c, mid, htext, -, hlength⟩ := exists_of_escape? hescape
      rw [htext, ← List.cons_append, units_cons, units_append, List.length_append,
        List.length_append, List.length_append]
      omega

/-- An escape stands for fewer units than it has. -/
theorem Spells.length_lt (h : Spells q cs us) (hslash : '\\' ∈ cs) :
    us.length < (units cs).length := by
  induction h with
  | nil => cases hslash
  | plain _ hne _ _ ih =>
      have hlt := ih ((List.mem_cons.1 hslash).resolve_left hne.symm)
      rw [units_cons, List.length_append, List.length_append]
      omega
  | escape hescape h _ =>
      obtain ⟨c, mid, htext, -, hlength⟩ := exists_of_escape? hescape
      have hrest := h.length_le
      have hone := (length_unitsOf '\\'.toNat).1
      rw [htext, ← List.cons_append, units_cons, units_append, List.length_append,
        List.length_append, List.length_append]
      omega

/-- The text between the quotes has the value of the literal exactly when no escape is in it. -/
theorem Spells.eq_units_iff (h : Spells q cs us) : us = units cs ↔ '\\' ∉ cs := by
  refine ⟨fun heq hslash => ?_, h.eq_units⟩
  have hlt := h.length_lt hslash
  rw [heq] at hlt
  exact absurd hlt (Nat.lt_irrefl _)

/-! ### Literals in visible characters -/

theorem escape?_unit {n : Nat} (h : n < 0x10000) (cs : List Char) :
    escape? ('u' :: (hexDigits 4 n ++ cs)) = some ([n], cs) := by
  have hlength := length_hexDigits 4 n
  have hfixed : fixedEscape? 4 (hexDigits 4 n ++ cs) = some ([n], cs) := by
    rw [fixedEscape?, if_pos (by rw [List.length_append]; omega), List.take_left' hlength,
      List.drop_left' hlength, hexNumber?_unit h]
    rfl
  rw [escape?, hfixed]
  intro ds hbrace
  obtain ⟨d, digits, hdigits⟩ := List.exists_cons_of_ne_nil (l := hexDigits 4 n) (by
    intro hnil
    rw [hnil] at hlength
    cases hlength)
  rw [hdigits, List.cons_append] at hbrace
  obtain rfl : d = '{' := (List.cons.inj hbrace).1
  have hhex := hexValue?_of_mem (hexNumber?_unit h) '{' (by rw [hdigits]; simp)
  cases hhex

/-- What stands for a character in an ASCII literal is spelled as that character. -/
theorem spells_asciiEscape (c : Char) (h : Spells '"' cs us) :
    Spells '"' (asciiEscape c ++ cs) (unitsOf c.toNat ++ us) := by
  unfold asciiEscape
  split
  · rename_i ds hshort
    unfold shortEscape? at hshort
    split at hshort <;> cases hshort <;> exact .escape rfl h
  · rename_i hshort
    obtain ⟨hquote, hslash⟩ := ne_of_shortEscape? hshort
    dsimp only
    split
    · rename_i hrange
      rw [Bool.and_eq_true, decide_eq_true_eq, decide_eq_true_eq] at hrange
      refine .plain hquote hslash ⟨?_, ?_⟩ h
      all_goals
        rintro rfl
        exact absurd hrange.1 (by decide)
    · split
      · rename_i hplane
        rw [unitsOf, if_pos hplane]
        exact .escape (escape?_unit hplane cs) h
      · rename_i hplane
        have hmax := toNat_lt c
        have hhigh := escape?_unit (n := 0xd800 + (c.toNat - 0x10000) / 0x400) (by omega)
          (unitEscape (0xdc00 + (c.toNat - 0x10000) % 0x400) ++ cs)
        have hlow := escape?_unit (n := 0xdc00 + (c.toNat - 0x10000) % 0x400) (by omega) cs
        have hpair := Spells.escape hhigh (Spells.escape hlow h)
        rw [unitsOf, if_neg hplane, List.append_assoc]
        exact hpair

theorem denotes_quoteAscii (s : String) : Denotes (quoteAscii s) (units s.toList) := by
  refine ⟨'"', s.toList.flatMap asciiEscape, .inl rfl, String.toList_ofList, ?_⟩
  have hspells (cs : List Char) : Spells '"' (cs.flatMap asciiEscape) (units cs) := by
    induction cs with
    | nil => exact .nil
    | cons c cs ih => exact spells_asciiEscape c ih
  exact hspells s.toList

/-! ### Texts between double quotes -/

/-- A double quote that no backslash stands before as part of an escape. -/
def hasBareQuote : List Char → Bool
  | [] => false
  | '\\' :: _ :: cs => hasBareQuote cs
  | c :: cs => c == '"' || hasBareQuote cs

theorem hasBareQuote_cons {c : Char} (h : c ≠ '\\') (cs : List Char) :
    hasBareQuote (c :: cs) = (c == '"' || hasBareQuote cs) := by
  rw [hasBareQuote]
  rintro d ds rfl
  exact absurd rfl h

theorem hasBareQuote_append (h : ∀ c ∈ cs, IsQuiet c) (ds : List Char) :
    hasBareQuote (cs ++ ds) = hasBareQuote ds := by
  induction cs with
  | nil => rfl
  | cons c cs ih =>
      obtain ⟨hc, hcs⟩ := List.forall_mem_cons.1 h
      rw [List.cons_append, hasBareQuote_cons hc.2, ih hcs, beq_eq_false_iff_ne.2 hc.1,
        Bool.false_or]

theorem hasBareQuote_escape (h : escape? cs = some (us, rest)) :
    hasBareQuote ('\\' :: cs) = hasBareQuote rest := by
  obtain ⟨c, mid, rfl, hquiet, -⟩ := exists_of_escape? h
  rw [hasBareQuote, hasBareQuote_append hquiet]

theorem hasBareQuote_of_spells (h : Spells '"' cs us) : hasBareQuote cs = false := by
  induction h with
  | nil => rfl
  | plain hquote hslash _ _ ih =>
      rw [hasBareQuote_cons hslash, ih, beq_eq_false_iff_ne.2 hquote]
      rfl
  | escape hescape _ ih => rw [hasBareQuote_escape hescape, ih]

/-- What stands between other quotes may stand between double quotes, if none of these is bare. -/
theorem Spells.double (h : Spells q cs us) (hbare : hasBareQuote cs = false) :
    Spells '"' cs us := by
  induction h with
  | nil => exact .nil
  | plain _ hslash hbreak _ ih =>
      rw [hasBareQuote_cons hslash, Bool.or_eq_false_iff, beq_eq_false_iff_ne] at hbare
      exact .plain hbare.1 hslash hbreak (ih hbare.2)
  | escape hescape _ ih =>
      rw [hasBareQuote_escape hescape] at hbare
      exact .escape hescape (ih hbare)

/-- A text between double quotes, as it is. -/
def enquote (s : String) : String :=
  "\"" ++ s ++ "\""

theorem toList_enquote (s : String) : (enquote s).toList = '"' :: (s.toList ++ ['"']) := by
  simp [enquote]

theorem denotes_enquote_iff {s : String} : Denotes (enquote s) us ↔ Spells '"' s.toList us := by
  constructor
  · rintro ⟨q, body, -, htext, hspells⟩
    rw [toList_enquote] at htext
    obtain ⟨rfl, hbody⟩ := List.cons.inj htext
    rw [List.append_left_inj] at hbody
    rwa [hbody]
  · exact fun h => ⟨'"', s.toList, .inl rfl, toList_enquote s, h⟩

/-! ### A literal that is written again -/

variable {t : Node} {value : List Nat}

/-- The text between the quotes of a literal spells its value. -/
theorem Denotes.exists_spells (h : Denotes t.text value) :
    ∃ q, (q = '"' ∨ q = '\x27') ∧ t.text.toList = q :: (t.unquoted.toList ++ [q]) ∧
      Spells q t.unquoted.toList value := by
  obtain ⟨q, body, hq, htext, hspells⟩ := h
  have hbody : t.unquoted.toList = body := by
    rw [Node.unquoted, String.toList_ofList, htext]
    simp
  exact ⟨q, hq, by rw [hbody, htext], by rwa [hbody]⟩

theorem Denotes.slash_mem_iff (h : Denotes t.text value) :
    '\\' ∈ t.unquoted.toList ↔ '\\' ∈ t.text.toList := by
  obtain ⟨q, hq, htext, -⟩ := h.exists_spells
  rw [htext]
  rcases hq with rfl | rfl <;> simp

/-- A name in visible characters keeps the value of a literal without escapes, and of no other. -/
theorem Denotes.quoteAscii_iff (h : Denotes t.text value) :
    Denotes (quoteAscii t.unquoted) value ↔ '\\' ∉ t.text.toList := by
  obtain ⟨q, -, -, hspells⟩ := h.exists_spells
  have hraw := denotes_quoteAscii t.unquoted
  rw [← h.slash_mem_iff, ← hspells.eq_units_iff]
  refine ⟨fun hvalue => hvalue.unique hraw, fun heq => ?_⟩
  rwa [heq]

/-- The text of a literal between double quotes keeps its value if no double quote in it is bare,
and is no literal otherwise. -/
theorem Denotes.enquote_iff (h : Denotes t.text value) (other : List Nat) :
    Denotes (enquote t.unquoted) other ↔
      other = value ∧ hasBareQuote t.unquoted.toList = false := by
  obtain ⟨q, -, -, hspells⟩ := h.exists_spells
  rw [denotes_enquote_iff]
  constructor
  · intro hother
    exact ⟨hother.unique hspells, hasBareQuote_of_spells hother⟩
  · rintro ⟨rfl, hbare⟩
    exact hspells.double hbare

end Ambient.Source
