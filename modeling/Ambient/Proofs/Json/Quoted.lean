import Ambient.Json.Reader
import Ambient.Text.Quoted
import Mathlib.Algebra.Group.Nat.Defs

/-!
# Quoted texts are read back

The literal that `quoteAscii` writes consists of ASCII characters and is read as the text it was
written for.  The reader takes one character of the text at a time: whatever follows it, the escape
of a character is read as that character.  A character beyond the basic plane is written as two
units, and no other character is taken for half of such a pair.
-/

namespace Ambient.Json

open Ambient.Text

/-! ### Digits -/

/-- The number that a run of hexadecimal digits writes, behind the digits of `n`. -/
def hexNumber? (n : Nat) : List Char → Option Nat
  | [] => some n
  | c :: cs => (hexValue? c).bind fun k => hexNumber? (n * 16 + k) cs

theorem hexValue?_hexDigit : ∀ k < 16, hexValue? (hexDigit k) = some k := by
  decide

theorem hexNumber?_append (n : Nat) (cs ds : List Char) :
    hexNumber? n (cs ++ ds) = (hexNumber? n cs).bind fun k => hexNumber? k ds := by
  induction cs generalizing n with
  | nil => rfl
  | cons c cs ih =>
      rw [List.cons_append, hexNumber?, hexNumber?, Option.bind_assoc]
      exact congrArg _ (funext fun k => ih _)

theorem hexNumber?_hexDigits (width n : Nat) :
    hexNumber? 0 (hexDigits width n) = some (n % 16 ^ width) := by
  induction width generalizing n with
  | zero => simp [hexDigits, hexNumber?, Nat.mod_one]
  | succ width ih =>
      have hdigit := hexValue?_hexDigit (n % 16) (Nat.mod_lt _ (by omega))
      rw [hexDigits, hexNumber?_append, ih, Option.bind_some, hexNumber?, hdigit, Option.bind_some,
        hexNumber?]
      congr 1
      rw [Nat.pow_succ', Nat.mod_mul, Nat.mul_comm, Nat.add_comm]

theorem hexNumber?_unit {n : Nat} (h : n < 0x10000) : hexNumber? 0 (hexDigits 4 n) = some n := by
  have hlt : n < 16 ^ 4 := by omega
  rw [hexNumber?_hexDigits, Nat.mod_eq_of_lt hlt]

theorem readUnit_append {cs : List Char} (h : cs.length = 4) (rest : List Char) :
    readUnit (cs ++ rest) = (hexNumber? 0 cs).map (·, rest) := by
  match cs, h with
  | [a, b, c, d], _ =>
      simp only [readUnit, hexNumber?, List.cons_append, List.nil_append]
      cases hexValue? a <;> cases hexValue? b <;> cases hexValue? c <;> cases hexValue? d <;>
        simp

theorem readUnit_hexDigits {n : Nat} (h : n < 0x10000) (rest : List Char) :
    readUnit (hexDigits 4 n ++ rest) = some (n, rest) := by
  rw [readUnit_append (length_hexDigits 4 n), hexNumber?_unit h]
  rfl

/-! ### Characters -/

/-- The units of a pair, from which a character beyond the basic plane is put together. -/
theorem joinUnits_eq {c : Char} (h : 0x10000 ≤ c.toNat) :
    joinUnits (0xd800 + (c.toNat - 0x10000) / 0x400) (0xdc00 + (c.toNat - 0x10000) % 0x400) =
      c := by
  have hsum : 0x10000 + (0xd800 + (c.toNat - 0x10000) / 0x400 - 0xd800) * 0x400 +
      (0xdc00 + (c.toNat - 0x10000) % 0x400 - 0xdc00) = c.toNat := by omega
  rw [joinUnits, hsum, Char.ofNat_toNat]

/-- A character is not half of a pair. -/
theorem toNat_lt_or_lt (c : Char) : c.toNat < 0xd800 ∨ 0xdfff < c.toNat := by
  rcases c.valid with h | h
  · exact .inl h
  · exact .inr h.1

theorem unitChar_toNat (c : Char) : unitChar c.toNat = c := by
  have hrange : (0xd800 ≤ c.toNat && c.toNat ≤ 0xdfff) = false := by
    rcases toNat_lt_or_lt c with h | h <;> simp <;> omega
  rw [unitChar, hrange]
  exact Char.ofNat_toNat c

/-- The escape of a character of the basic plane reads alike before anything. -/
theorem readEscape_unit {c : Char} (h : c.toNat < 0x10000) (rest : List Char) :
    readEscape ('u' :: (hexDigits 4 c.toNat ++ rest)) = some (c, rest) := by
  have hpair (lo : Nat) :
      (0xd800 ≤ c.toNat && c.toNat ≤ 0xdbff && 0xdc00 ≤ lo && lo ≤ 0xdfff) = false := by
    rcases toNat_lt_or_lt c with h | h <;> simp <;> omega
  rw [readEscape, readUnit_hexDigits h]
  simp only [Option.bind_eq_bind, Option.bind_some]
  split
  · split
    · rw [hpair, unitChar_toNat]
      rfl
    · rw [unitChar_toNat]
      rfl
  · rw [unitChar_toNat]
    rfl

/-- Two units that make a pair are read together. -/
theorem readEscape_units {hi lo : Nat} (hhi : 0xd800 ≤ hi ∧ hi ≤ 0xdbff)
    (hlo : 0xdc00 ≤ lo ∧ lo ≤ 0xdfff) (rest : List Char) :
    readEscape ('u' :: (hexDigits 4 hi ++ (unitEscape lo ++ rest))) =
      some (joinUnits hi lo, rest) := by
  have hpair : (0xd800 ≤ hi && hi ≤ 0xdbff && 0xdc00 ≤ lo && lo ≤ 0xdfff) = true := by
    simp [hhi, hlo]
  rw [readEscape, readUnit_hexDigits (by omega)]
  simp only [Option.bind_eq_bind, Option.bind_some, unitEscape, List.cons_append]
  rw [readUnit_hexDigits (by omega)]
  simp only [hpair]
  rfl

theorem toNat_lt (c : Char) : c.toNat < 0x110000 := by
  rcases c.valid with h | h
  · exact Nat.lt_trans h (by decide)
  · exact h.2

theorem readChars_backslash {cs rest : List Char} {c : Char} (h : readEscape cs = some (c, rest))
    (fuel : Nat) :
    readChars (fuel + 1) ('\\' :: cs) = (readChars fuel rest).map fun r => (c :: r.1, r.2) := by
  rw [readChars, h]
  simp only [Option.bind_eq_bind, Option.bind_some]
  cases readChars fuel rest <;> rfl

theorem readEscape_short {c : Char} {cs : List Char} (h : shortEscape? c = some cs)
    (rest : List Char) : ∃ ds, cs = '\\' :: ds ∧ readEscape (ds ++ rest) = some (c, rest) := by
  unfold shortEscape? at h
  split at h <;> cases h <;> exact ⟨_, rfl, rfl⟩

theorem ne_of_shortEscape? {c : Char} (h : shortEscape? c = none) : c ≠ '"' ∧ c ≠ '\\' := by
  constructor <;>
  · rintro rfl
    cases h

/-- Whatever follows it, a character that is written in a literal is read again. -/
theorem readChars_asciiEscape (c : Char) (fuel : Nat) (rest : List Char) :
    readChars (fuel + 1) (asciiEscape c ++ rest) =
      (readChars fuel rest).map fun r => (c :: r.1, r.2) := by
  unfold asciiEscape
  split
  · rename_i cs hshort
    obtain ⟨ds, rfl, hread⟩ := readEscape_short hshort rest
    exact readChars_backslash hread fuel
  · rename_i hshort
    obtain ⟨hquote, hslash⟩ := ne_of_shortEscape? hshort
    dsimp only
    split
    · rename_i hrange
      have hlow : ¬ c.toNat < 0x20 := by
        simp only [Bool.and_eq_true, decide_eq_true_eq] at hrange
        omega
      rw [List.cons_append, List.nil_append, readChars, if_neg hlow]
      · cases readChars fuel rest <;> rfl
      · exact hquote
      · exact hslash
    · split
      · rename_i hplane
        exact readChars_backslash (readEscape_unit hplane rest) fuel
      · rename_i hplane
        rw [List.append_assoc]
        have hmax := toNat_lt c
        have hhi : 0xd800 ≤ 0xd800 + (c.toNat - 0x10000) / 0x400 ∧
            0xd800 + (c.toNat - 0x10000) / 0x400 ≤ 0xdbff := by omega
        have hlo : 0xdc00 ≤ 0xdc00 + (c.toNat - 0x10000) % 0x400 ∧
            0xdc00 + (c.toNat - 0x10000) % 0x400 ≤ 0xdfff := by omega
        have hread := readEscape_units hhi hlo rest
        rw [joinUnits_eq (by omega)] at hread
        exact readChars_backslash hread fuel

/-! ### Literals -/

theorem readChars_flatMap {cs : List Char} {fuel : Nat} (h : cs.length < fuel) (rest : List Char) :
    readChars fuel (cs.flatMap asciiEscape ++ '"' :: rest) = some (cs, rest) := by
  induction cs generalizing fuel with
  | nil =>
      obtain ⟨n, rfl⟩ : ∃ n, fuel = n + 1 := ⟨fuel - 1, by simp at h; omega⟩
      rfl
  | cons c cs ih =>
      rw [List.length_cons] at h
      obtain ⟨n, rfl⟩ : ∃ n, fuel = n + 1 := ⟨fuel - 1, by omega⟩
      rw [List.flatMap_cons, List.append_assoc, readChars_asciiEscape, ih (by omega)]
      rfl

theorem length_asciiEscape_pos (c : Char) : 0 < (asciiEscape c).length := by
  unfold asciiEscape
  split
  · rename_i cs hshort
    obtain ⟨ds, rfl, -⟩ := readEscape_short hshort []
    exact Nat.succ_pos _
  · dsimp only
    split
    · exact Nat.succ_pos _
    · split <;> exact Nat.succ_pos _

theorem length_le_flatMap (cs : List Char) : cs.length ≤ (cs.flatMap asciiEscape).length := by
  induction cs with
  | nil => exact Nat.le_refl 0
  | cons c cs ih =>
      have hc := length_asciiEscape_pos c
      rw [List.flatMap_cons, List.length_append, List.length_cons]
      omega

/-- A literal is read as the text it was written for. -/
theorem parse?_quoteAscii (s : String) : parse? (quoteAscii s) = some (.str s) := by
  have hlist : (quoteAscii s).toList = '"' :: (s.toList.flatMap asciiEscape ++ ['"']) :=
    String.toList_ofList
  have hfuel : s.toList.length < (s.toList.flatMap asciiEscape ++ ['"']).length + 1 := by
    have hle := length_le_flatMap s.toList
    rw [List.length_append]
    omega
  have hskip : skipGap (quoteAscii s).toList = (quoteAscii s).toList := by
    rw [hlist]
    rfl
  have hvalue : readValue ((quoteAscii s).toList.length + 1) (quoteAscii s).toList =
      some (.str s, []) := by
    rw [hlist, readValue, readChars_flatMap hfuel]
    simp only [Option.bind_eq_bind, Option.bind_some, String.ofList_toList, Option.pure_def]
  rw [parse?, hskip, hvalue]
  rfl

/-! ### Characters of a literal -/

theorem toNat_lt_of_mem_unitEscape {n : Nat} {d : Char} (h : d ∈ unitEscape n) :
    d.toNat < 0x80 := by
  have hdigits (width n : Nat) : ∀ d ∈ hexDigits width n, d.toNat < 0x80 := by
    have hdigit : ∀ k < 16, (hexDigit k).toNat < 0x80 := by decide
    induction width generalizing n with
    | zero => exact List.forall_mem_nil _
    | succ width ih =>
        exact List.forall_mem_append.2 ⟨ih _, List.forall_mem_singleton.2
          (hdigit (n % 16) (Nat.mod_lt _ (by omega)))⟩
  rw [unitEscape, List.mem_cons, List.mem_cons] at h
  rcases h with rfl | rfl | h
  · decide
  · decide
  · exact hdigits 4 n d h

theorem toNat_lt_of_mem_asciiEscape {c d : Char} (h : d ∈ asciiEscape c) : d.toNat < 0x80 := by
  unfold asciiEscape at h
  split at h
  · rename_i cs hshort
    have hall : ∀ e ∈ cs, e.toNat < 0x80 := by
      unfold shortEscape? at hshort
      split at hshort <;> cases hshort <;>
        exact List.forall_mem_cons.2 ⟨by decide, List.forall_mem_singleton.2 (by decide)⟩
    exact hall d h
  · dsimp only at h
    split at h
    · rename_i hrange
      rw [Bool.and_eq_true, decide_eq_true_eq, decide_eq_true_eq] at hrange
      rw [List.mem_singleton.1 h]
      omega
    · split at h
      · exact toNat_lt_of_mem_unitEscape h
      · exact (List.mem_append.1 h).elim toNat_lt_of_mem_unitEscape toNat_lt_of_mem_unitEscape

theorem toNat_lt_of_mem_quoteAscii (s : String) : ∀ d ∈ (quoteAscii s).toList, d.toNat < 0x80 := by
  rw [quoteAscii, String.toList_ofList, List.forall_mem_cons, List.forall_mem_append,
    List.forall_mem_singleton]
  refine ⟨by decide, fun d hd => ?_, by decide⟩
  obtain ⟨c, -, hd⟩ := List.mem_flatMap.1 hd
  exact toNat_lt_of_mem_asciiEscape hd

end Ambient.Json
