import Ambient.TypeExpr.Reader

/-!
# Terminals of type expressions

The terminals of the grammar as languages of words, and which word of a language is met at the front
of a text.  Names and identifiers are as long as they can be; a quoted key ends at the first quote
that can end it.  White space may stand in front of every terminal.  The readers of names and keys
find exactly these words.
-/

namespace Ambient.TypeExpr

open Ambient.Text

/-! ### Words at the front of a text -/

/-- The longest word of the language at the front of the text, and the text behind it. -/
def Longest (L : List Char → Prop) (cs w rest : List Char) : Prop :=
  cs = w ++ rest ∧ L w ∧ ∀ v, L v → v <+: cs → v.length ≤ w.length

/-- The shortest word of the language at the front of the text, and the text behind it. -/
def Shortest (L : List Char → Prop) (cs w rest : List Char) : Prop :=
  cs = w ++ rest ∧ L w ∧ ∀ v, L v → v <+: cs → w.length ≤ v.length

theorem Longest.unique {L : List Char → Prop} {cs w rest v tail : List Char}
    (h : Longest L cs w rest) (h' : Longest L cs v tail) : w = v ∧ rest = tail := by
  obtain ⟨rfl, hw, hmax⟩ := h
  obtain ⟨heq, hv, hmax'⟩ := h'
  have hle := hmax v hv ⟨tail, heq.symm⟩
  have hge := hmax' w hw ⟨rest, rfl⟩
  exact List.append_inj heq (by omega)

theorem Shortest.unique {L : List Char → Prop} {cs w rest v tail : List Char}
    (h : Shortest L cs w rest) (h' : Shortest L cs v tail) : w = v ∧ rest = tail := by
  obtain ⟨rfl, hw, hmin⟩ := h
  obtain ⟨heq, hv, hmin'⟩ := h'
  have hle := hmin v hv ⟨tail, heq.symm⟩
  have hge := hmin' w hw ⟨rest, rfl⟩
  exact List.append_inj heq (by omega)

/-! ### The languages -/

/-- An identifier: its first character and any number of further ones. -/
def IsIdent (w : List Char) : Prop :=
  ∃ c cs, w = c :: cs ∧ isNameHead c = true ∧ ∀ x ∈ cs, isNameTail x = true

/-- A name: identifiers with joints between them. -/
inductive IsName : List Char → Prop
  | ident {w : List Char} (h : IsIdent w) : IsName w
  | joined {w v : List Char} {c : Char} (hw : IsName w) (hc : isJoint c = true)
      (hv : IsIdent v) : IsName (w ++ c :: v)

/-- A quoted text: no line break stands between its quotes, and the backslashes in front of the
closing one pair up. -/
def IsQuoted (w : List Char) : Prop :=
  ∃ u k, w = '"' :: (u ++ List.replicate (2 * k) '\\' ++ ['"']) ∧ '\n' ∉ u ∧
    u.getLast? ≠ some '\\'

/-- A key of a record field.  What a quote opens, the first quote that can close it closes. -/
def KeyAt (cs w rest : List Char) : Prop :=
  Longest IsIdent cs w rest ∨ Shortest IsQuoted cs w rest

/-! ### Names -/

/-- What may follow the first character of a name. -/
inductive Continues : List Char → Prop
  | nil : Continues []
  | tail {c : Char} {v : List Char} (hc : isNameTail c = true) (hv : Continues v) :
      Continues (c :: v)
  | joint {c d : Char} {v : List Char} (hc : isJoint c = true) (hd : isNameHead d = true)
      (hv : Continues v) : Continues (c :: d :: v)

theorem Continues.append {u v : List Char} (hu : Continues u) (hv : Continues v) :
    Continues (u ++ v) := by
  induction hu with
  | nil => exact hv
  | tail hc _ ih => exact .tail hc ih
  | joint hc hd _ ih => exact .joint hc hd ih

theorem continues_of_forall {v : List Char} (h : ∀ x ∈ v, isNameTail x = true) : Continues v := by
  induction v with
  | nil => exact .nil
  | cons c v ih =>
      obtain ⟨hc, hv⟩ := List.forall_mem_cons.1 h
      exact .tail hc (ih hv)

theorem IsIdent.concat {w : List Char} {c : Char} (h : IsIdent w) (hc : isNameTail c = true) :
    IsIdent (w ++ [c]) := by
  obtain ⟨d, ds, rfl, hd, hds⟩ := h
  refine ⟨d, ds ++ [c], rfl, hd, ?_⟩
  exact List.forall_mem_append.2 ⟨hds, List.forall_mem_singleton.2 hc⟩

theorem IsName.concat {w : List Char} {c : Char} (h : IsName w) (hc : isNameTail c = true) :
    IsName (w ++ [c]) := by
  cases h with
  | ident h => exact .ident (h.concat hc)
  | @joined w v d hw hd hv =>
      rw [List.append_assoc, List.cons_append]
      exact .joined hw hd (hv.concat hc)

theorem IsName.append {w v : List Char} (hw : IsName w) (hv : Continues v) : IsName (w ++ v) := by
  induction hv generalizing w with
  | nil => simpa using hw
  | tail hc _ ih => simpa using ih (hw.concat hc)
  | @joint c d v hc hd _ ih =>
      have hident : IsIdent [d] := ⟨d, [], rfl, hd, by simp⟩
      simpa using ih (.joined hw hc hident)

theorem IsName.exists_continues {w : List Char} (h : IsName w) :
    ∃ c v, w = c :: v ∧ isNameHead c = true ∧ Continues v := by
  induction h with
  | ident h =>
      obtain ⟨c, cs, rfl, hc, hcs⟩ := h
      exact ⟨c, cs, rfl, hc, continues_of_forall hcs⟩
  | @joined w v d _ hd hv ih =>
      obtain ⟨c, u, rfl, hc, hu⟩ := ih
      obtain ⟨e, es, rfl, he, hes⟩ := hv
      exact ⟨c, u ++ d :: e :: es, rfl, hc, hu.append (.joint hd he (continues_of_forall hes))⟩

theorem nameRest_tail {c : Char} (hc : isNameTail c = true) (cs : List Char) :
    nameRest (c :: cs) = (c :: (nameRest cs).1, (nameRest cs).2) := by
  simp [nameRest, hc]

theorem nameRest_joint {c d : Char} (hc : isJoint c = true) (hd : isNameHead d = true)
    (cs : List Char) :
    nameRest (c :: d :: cs) = (c :: d :: (nameRest cs).1, (nameRest cs).2) := by
  have hnext := nameRest_tail (isNameTail_of_isNameHead hd) cs
  rw [nameRest, hnext]
  simp [hc, hd]

/-- The rest of a name can follow it, and nothing is lost. -/
theorem continues_nameRest (cs : List Char) :
    Continues (nameRest cs).1 ∧ cs = (nameRest cs).1 ++ (nameRest cs).2 := by
  match cs with
  | [] => exact ⟨.nil, rfl⟩
  | c :: cs =>
      by_cases hc : isNameTail c = true
      · obtain ⟨hcont, heq⟩ := continues_nameRest cs
        rw [nameRest_tail hc]
        exact ⟨.tail hc hcont, congrArg (c :: ·) heq⟩
      · by_cases hjoint : isJoint c = true ∧ cs.head?.any isNameHead = true
        · -- The character behind a joint opens the next part, so it belongs to the name as well.
          match cs, hjoint.2 with
          | d :: ds, hd =>
              have hhead : isNameHead d = true := by simpa using hd
              obtain ⟨hcont, heq⟩ := continues_nameRest ds
              rw [nameRest_joint hjoint.1 hhead]
              exact ⟨.joint hjoint.1 hhead hcont, congrArg (c :: d :: ·) heq⟩
        · have hnone : nameRest (c :: cs) = ([], c :: cs) := by
            rw [nameRest, if_neg]
            simpa [hc] using hjoint
          rw [hnone]
          exact ⟨.nil, rfl⟩
termination_by cs.length

theorem nameRest_append {v : List Char} (hv : Continues v) (cs : List Char) :
    nameRest (v ++ cs) = (v ++ (nameRest cs).1, (nameRest cs).2) := by
  induction hv with
  | nil => rfl
  | tail hc _ ih => rw [List.cons_append, nameRest_tail hc, ih, List.cons_append]
  | joint hc hd _ ih =>
      rw [List.cons_append, List.cons_append, nameRest_joint hc hd, ih, List.cons_append,
        List.cons_append]

theorem longest_name {c : Char} (hc : isNameHead c = true) (cs : List Char) :
    Longest IsName (c :: cs) (c :: (nameRest cs).1) (nameRest cs).2 := by
  obtain ⟨hcont, heq⟩ := continues_nameRest cs
  have hhead : IsName [c] := .ident ⟨c, [], rfl, hc, by simp⟩
  refine ⟨congrArg (c :: ·) heq, hhead.append hcont, ?_⟩
  rintro v hv ⟨tail, htail⟩
  obtain ⟨d, u, rfl, -, hu⟩ := hv.exists_continues
  obtain ⟨rfl, rfl⟩ := List.cons.inj htail
  rw [List.append_eq, nameRest_append hu]
  simp

/-- The reader of names finds the longest name. -/
theorem readName_eq_some_iff {cs w rest : List Char} :
    readName cs = some (w, rest) ↔ Longest IsName cs w rest := by
  constructor
  · intro h
    cases cs with
    | nil => simp [readName] at h
    | cons c cs =>
        rw [readName] at h
        split at h
        · rename_i hc
          cases h
          exact longest_name hc cs
        · cases h
  · intro h
    obtain ⟨c, v, rfl, hc, -⟩ := h.2.1.exists_continues
    have hcs : cs = c :: (v ++ rest) := h.1
    rw [hcs] at h
    obtain ⟨hw, hrest⟩ := (longest_name hc (v ++ rest)).unique h
    rw [hcs, readName, if_pos hc, hw, hrest]

/-! ### Keys -/

theorem longest_ident {c : Char} (hc : isNameHead c = true) (cs : List Char) :
    Longest IsIdent (c :: cs) (c :: cs.takeWhile isNameTail) (cs.dropWhile isNameTail) := by
  refine ⟨?_, ⟨c, _, rfl, hc, List.all_eq_true.1 List.all_takeWhile⟩, ?_⟩
  · rw [List.cons_append, List.takeWhile_append_dropWhile]
  · rintro v ⟨d, ds, rfl, -, hds⟩ ⟨tail, htail⟩
    obtain ⟨rfl, rfl⟩ := List.cons.inj htail
    rw [List.append_eq, List.takeWhile_append_of_pos hds]
    simp

/-- What may stand between the quotes of a key, as it is read. -/
inductive Inside : List Char → Prop
  | nil : Inside []
  | escaped {c : Char} {v : List Char} (hc : c ≠ '\n') (hv : Inside v) : Inside ('\\' :: c :: v)
  | plain {c : Char} {v : List Char} (hquote : c ≠ '"') (hslash : c ≠ '\\') (hc : c ≠ '\n')
      (hv : Inside v) : Inside (c :: v)

theorem inside_of_keyChars {cs v rest : List Char} (h : keyChars cs = some (v, rest)) :
    Inside v ∧ cs = v ++ '"' :: rest := by
  fun_induction keyChars cs generalizing v with
  | case1 => cases h
  | case2 rest =>
      cases h
      exact ⟨.nil, rfl⟩
  | case3 cs hc => cases h
  | case4 c cs hc ih =>
      obtain ⟨⟨u, tail⟩, hu, heq⟩ := Option.map_eq_some_iff.1 h
      cases heq
      obtain ⟨hinside, rfl⟩ := ih hu
      exact ⟨.escaped (by simpa using hc) hinside, rfl⟩
  | case5 c cs hquote hslash hc => cases h
  | case6 c cs hquote hslash hc ih =>
      obtain ⟨⟨u, tail⟩, hu, heq⟩ := Option.map_eq_some_iff.1 h
      cases heq
      obtain ⟨hinside, rfl⟩ := ih hu
      refine ⟨.plain hquote (fun hc => ?_) (by simpa using hc) hinside, rfl⟩
      -- A backslash that is read alone has nothing behind it, so no quote either.
      cases u with
      | nil => exact hslash _ _ hc rfl
      | cons d u => exact hslash _ _ hc rfl

/-- Whether the next character is escaped, when the one after `b` is. -/
def escapes (b : Bool) : List Char → Bool
  | [] => b
  | c :: cs => escapes (!b && c == '\\') cs

theorem escapes_append (b : Bool) (u v : List Char) :
    escapes b (u ++ v) = escapes (escapes b u) v := by
  induction u generalizing b with
  | nil => rfl
  | cons c u ih => exact ih _

theorem escapes_replicate (k : Nat) : escapes false (List.replicate (2 * k) '\\') = false := by
  induction k with
  | zero => rfl
  | succ k ih =>
      have htwo : 2 * (k + 1) = 2 * k + 1 + 1 := by omega
      rw [htwo, List.replicate_succ, List.replicate_succ]
      exact ih

theorem escapes_of_getLast? {u : List Char} (h : u.getLast? ≠ some '\\') :
    escapes false u = false := by
  rcases List.eq_nil_or_concat u with rfl | ⟨init, c, rfl⟩
  · rfl
  · rw [List.concat_eq_append] at h ⊢
    have hc : c ≠ '\\' := by simpa using h
    rw [escapes_append]
    simp [escapes, hc]

/-- A quote inside a key is escaped. -/
theorem Inside.escapes_eq_true {u v : List Char} (h : Inside (u ++ '"' :: v)) :
    escapes false u = true := by
  generalize hw : u ++ '"' :: v = w at h
  induction h generalizing u with
  | nil => simp at hw
  | @escaped c w hc _ ih =>
      match u with
      | [] => simp at hw
      | [d] =>
          obtain ⟨rfl, -⟩ := List.cons.inj hw
          rfl
      | d :: e :: u =>
          obtain ⟨rfl, hnext⟩ := List.cons.inj hw
          obtain ⟨rfl, htail⟩ := List.cons.inj hnext
          have hodd : escapes false u = true := ih htail
          exact hodd
  | @plain c w hquote hslash hc _ ih =>
      match u with
      | [] => exact (hquote (List.cons.inj hw).1.symm).elim
      | d :: u =>
          obtain ⟨rfl, htail⟩ := List.cons.inj hw
          have hd : (d == '\\') = false := by simpa using hslash
          rw [escapes, Bool.not_false, Bool.true_and, hd]
          exact ih htail

theorem isQuoted_of_inside {v : List Char} (h : Inside v) : IsQuoted ('"' :: (v ++ ['"'])) := by
  -- The backslashes at the end are those of the pairs that nothing else follows.
  suffices hsplit : ∃ u k, v = u ++ List.replicate (2 * k) '\\' ∧ '\n' ∉ u ∧
      u.getLast? ≠ some '\\' by
    obtain ⟨u, k, rfl, hline, hlast⟩ := hsplit
    exact ⟨u, k, rfl, hline, hlast⟩
  induction h with
  | nil => exact ⟨[], 0, rfl, by simp, by simp⟩
  | @escaped c v hc _ ih =>
      obtain ⟨u, k, rfl, hline, hlast⟩ := ih
      cases u with
      | nil =>
          by_cases hslash : c = '\\'
          · exact ⟨[], k + 1, by simp [hslash, Nat.mul_add, List.replicate_succ], by simp, by simp⟩
          · exact ⟨['\\', c], k, rfl, by simp [Ne.symm hc], by simp [hslash]⟩
      | cons d u => exact ⟨'\\' :: c :: d :: u, k, rfl, by simp_all [Ne.symm hc], by simp_all⟩
  | @plain c v hquote hslash hc _ ih =>
      obtain ⟨u, k, rfl, hline, hlast⟩ := ih
      cases u with
      | nil => exact ⟨[c], k, rfl, by simp [Ne.symm hc], by simp [hslash]⟩
      | cons d u => exact ⟨c :: d :: u, k, rfl, by simp_all [Ne.symm hc], by simp_all⟩

theorem shortest_quoted {cs v rest : List Char} (h : keyChars cs = some (v, rest)) :
    Shortest IsQuoted ('"' :: cs) ('"' :: (v ++ ['"'])) rest := by
  obtain ⟨hinside, rfl⟩ := inside_of_keyChars h
  refine ⟨by simp, isQuoted_of_inside hinside, ?_⟩
  rintro w ⟨u, k, rfl, -, hlast⟩ ⟨tail, htail⟩
  refine Nat.le_of_not_lt fun hlt => ?_
  -- A shorter word would end at a quote inside the key, and those are escaped.
  have heven : escapes false (u ++ List.replicate (2 * k) '\\') = false := by
    rw [escapes_append, escapes_of_getLast? hlast, escapes_replicate]
  generalize u ++ List.replicate (2 * k) '\\' = x at *
  have hbody : x ++ '"' :: tail = v ++ '"' :: rest := by simpa using htail
  have hshort : x.length < v.length := by simpa using hlt
  obtain ⟨w, rfl⟩ : x <+: v :=
    List.prefix_of_prefix_length_le ⟨_, hbody⟩ ⟨_, rfl⟩ (Nat.le_of_lt hshort)
  cases w with
  | nil => simp at hshort
  | cons d w =>
      rw [List.append_assoc] at hbody
      obtain ⟨rfl, -⟩ := List.cons.inj (List.append_cancel_left hbody)
      rw [hinside.escapes_eq_true] at heven
      cases heven

theorem keyChars_plain {c : Char} (hslash : c ≠ '\\') (hc : c ≠ '\n') {cs : List Char}
    {r : List Char × List Char} (hr : keyChars cs = some r) :
    ∃ r', keyChars (c :: cs) = some r' := by
  by_cases hquote : c = '"'
  · exact ⟨_, by rw [hquote, keyChars]⟩
  · refine ⟨(c :: r.1, r.2), ?_⟩
    rw [keyChars]
    · simp [hc, hr]
    · exact hquote
    · exact fun _ _ h _ => hslash h

/-- A key that can be closed is read. -/
theorem exists_keyChars {u : List Char} (hline : '\n' ∉ u) (heven : escapes false u = false)
    (rest : List Char) : ∃ r, keyChars (u ++ '"' :: rest) = some r := by
  match u with
  | [] => exact ⟨_, rfl⟩
  | [c] =>
      have hslash : c ≠ '\\' := by
        rintro rfl
        cases heven
      have hc : c ≠ '\n' := fun h => hline (by simp [h])
      exact keyChars_plain hslash hc rfl
  | c :: d :: u =>
      simp only [List.mem_cons, not_or] at hline
      obtain ⟨hc, hd, hu⟩ := hline
      by_cases hslash : c = '\\'
      · subst hslash
        obtain ⟨r, hr⟩ := exists_keyChars hu heven rest
        exact ⟨('\\' :: d :: r.1, r.2), by simp [keyChars, Ne.symm hd, hr]⟩
      · have hnext : escapes false (d :: u) = false := by
          rw [escapes, show (c == '\\') = false by simpa using hslash] at heven
          exact heven
        obtain ⟨r, hr⟩ := exists_keyChars (u := d :: u) (by simp [hd, hu]) hnext rest
        exact keyChars_plain hslash (Ne.symm hc) hr
termination_by u.length

theorem isQuote_of_isNameTail {c : Char} (h : isNameTail c = true) : isQuote c = false := by
  rw [isQuote, Bool.or_eq_false_iff, beq_eq_false_iff_ne, beq_eq_false_iff_ne]
  constructor
  · rintro rfl
    revert h
    decide
  · rintro rfl
    revert h
    decide

theorem trimEnds_of_forall {p : Char → Bool} {w : List Char} (h : ∀ c ∈ w, p c = false) :
    trimEnds p w = w := by
  have hfront : w.dropWhile p = w := by
    cases w with
    | nil => rfl
    | cons c w => exact List.dropWhile_cons_of_neg (by simp [h c])
  rw [trimEnds, trimFront, hfront]
  rcases List.eq_nil_or_concat w with rfl | ⟨init, c, rfl⟩
  · rfl
  · rw [List.concat_eq_append] at h ⊢
    exact trimBack_append_singleton_of_neg init (h c (by simp))

theorem trimEnds_ident {w : List Char} (h : IsIdent w) : trimEnds isQuote w = w := by
  obtain ⟨c, cs, rfl, hc, hcs⟩ := h
  refine trimEnds_of_forall (List.forall_mem_cons.2 ⟨?_, fun x hx => ?_⟩)
  · exact isQuote_of_isNameTail (isNameTail_of_isNameHead hc)
  · exact isQuote_of_isNameTail (hcs x hx)

theorem readKey_of_head {c : Char} (hc : isNameHead c = true) (cs : List Char) :
    readKey (c :: cs) =
      some (String.ofList (c :: cs.takeWhile isNameTail), cs.dropWhile isNameTail) := by
  rw [readKey, if_pos hc]
  rintro rfl
  revert hc
  decide

/-- The reader of keys finds the key and drops the quotes around it. -/
theorem readKey_eq_some_iff {cs : List Char} {key : String} {rest : List Char} :
    readKey cs = some (key, rest) ↔
      ∃ w, KeyAt cs w rest ∧ key = String.ofList (trimEnds isQuote w) := by
  constructor
  · intro h
    unfold readKey at h
    split at h
    · rename_i cs
      obtain ⟨⟨v, tail⟩, hv, heq⟩ := Option.map_eq_some_iff.1 h
      cases heq
      exact ⟨_, .inr (shortest_quoted hv), rfl⟩
    · rename_i c cs _
      split at h
      · rename_i hc
        cases h
        have hlongest := longest_ident hc cs
        exact ⟨_, .inl hlongest, by rw [trimEnds_ident hlongest.2.1]⟩
      · cases h
    · cases h
  · rintro ⟨w, hkey, rfl⟩
    rcases hkey with hident | hquoted
    · obtain ⟨c, v, rfl, hc, -⟩ := hident.2.1
      have hcs : cs = c :: (v ++ rest) := hident.1
      obtain ⟨hw, hrest⟩ := (longest_ident hc (v ++ rest)).unique (hcs ▸ hident)
      rw [hcs, readKey_of_head hc, hw, hrest, trimEnds_ident hident.2.1]
    · obtain ⟨u, k, rfl, hline, hlast⟩ := hquoted.2.1
      have hcs : cs = '"' :: (u ++ List.replicate (2 * k) '\\' ++ '"' :: rest) := by
        simpa using hquoted.1
      have heven : escapes false (u ++ List.replicate (2 * k) '\\') = false := by
        rw [escapes_append, escapes_of_getLast? hlast, escapes_replicate]
      have hbody : '\n' ∉ u ++ List.replicate (2 * k) '\\' := by simp [hline]
      obtain ⟨⟨v, tail⟩, hv⟩ := exists_keyChars hbody heven rest
      obtain ⟨hw, rfl⟩ := (shortest_quoted hv).unique (hcs ▸ hquoted)
      rw [hcs, readKey, hv, ← hw]
      rfl

/-! ### White space -/

/-- The text stands in front of the rest, perhaps behind white space. -/
def Token (t cs rest : List Char) : Prop :=
  ∃ gap, (∀ c ∈ gap, isGap c = true) ∧ cs = gap ++ (t ++ rest)

/-- A name stands in front of the rest, perhaps behind white space. -/
def NameToken (w cs rest : List Char) : Prop :=
  ∃ gap mid, (∀ c ∈ gap, isGap c = true) ∧ cs = gap ++ mid ∧ Longest IsName mid w rest

/-- A key stands in front of the rest, perhaps behind white space. -/
def KeyToken (w cs rest : List Char) : Prop :=
  ∃ gap mid, (∀ c ∈ gap, isGap c = true) ∧ cs = gap ++ mid ∧ KeyAt mid w rest

theorem skipGap_append {gap : List Char} (h : ∀ c ∈ gap, isGap c = true) (cs : List Char) :
    skipGap (gap ++ cs) = skipGap cs :=
  List.dropWhile_append_of_pos h

theorem skipGap_cons {c : Char} (h : isGap c = false) (cs : List Char) :
    skipGap (c :: cs) = c :: cs :=
  List.dropWhile_cons_of_neg (by simp [h])

theorem exists_gap (cs : List Char) :
    ∃ gap, (∀ c ∈ gap, isGap c = true) ∧ cs = gap ++ skipGap cs :=
  ⟨cs.takeWhile isGap, List.all_eq_true.1 List.all_takeWhile,
    List.takeWhile_append_dropWhile.symm⟩

@[simp]
theorem skipGap_skipGap (cs : List Char) : skipGap (skipGap cs) = skipGap cs := by
  obtain ⟨gap, hgap, heq⟩ := exists_gap cs
  have h := skipGap_append hgap (skipGap cs)
  rwa [← heq, eq_comm] at h

theorem token_cons_iff {c : Char} {t cs rest : List Char} (hc : isGap c = false) :
    Token (c :: t) cs rest ↔ skipGap cs = c :: (t ++ rest) := by
  constructor
  · rintro ⟨gap, hgap, rfl⟩
    rw [skipGap_append hgap, List.cons_append, skipGap_cons hc]
  · intro h
    obtain ⟨gap, hgap, heq⟩ := exists_gap cs
    exact ⟨gap, hgap, by rw [List.cons_append, ← h, ← heq]⟩

theorem isGap_of_isNameHead {c : Char} (h : isNameHead c = true) : isGap c = false := by
  simp only [isGap, Bool.or_eq_false_iff, beq_eq_false_iff_ne]
  refine ⟨⟨⟨⟨?_, ?_⟩, ?_⟩, ?_⟩, ?_⟩
  all_goals
    rintro rfl
    revert h
    decide

theorem nameToken_iff {w cs rest : List Char} :
    NameToken w cs rest ↔ readName (skipGap cs) = some (w, rest) := by
  constructor
  · rintro ⟨gap, mid, hgap, rfl, hname⟩
    obtain ⟨c, v, rfl, hc, -⟩ := hname.2.1.exists_continues
    have hmid : mid = c :: (v ++ rest) := hname.1
    rw [skipGap_append hgap, hmid, skipGap_cons (isGap_of_isNameHead hc), ← hmid]
    exact readName_eq_some_iff.2 hname
  · intro h
    obtain ⟨gap, hgap, heq⟩ := exists_gap cs
    exact ⟨gap, skipGap cs, hgap, heq, readName_eq_some_iff.1 h⟩

theorem keyToken_iff {cs : List Char} {key : String} {rest : List Char} :
    (∃ w, KeyToken w cs rest ∧ key = String.ofList (trimEnds isQuote w)) ↔
      readKey (skipGap cs) = some (key, rest) := by
  rw [readKey_eq_some_iff]
  constructor
  · rintro ⟨w, ⟨gap, mid, hgap, rfl, hkey⟩, rfl⟩
    have hskip : skipGap mid = mid := by
      rcases hkey with ⟨rfl, ⟨c, v, rfl, hc, -⟩, -⟩ | ⟨rfl, ⟨u, k, rfl, -⟩, -⟩
      · exact skipGap_cons (isGap_of_isNameHead hc) _
      · exact skipGap_cons (by decide) _
    rw [skipGap_append hgap, hskip]
    exact ⟨w, hkey, rfl⟩
  · rintro ⟨w, hkey, rfl⟩
    obtain ⟨gap, hgap, heq⟩ := exists_gap cs
    exact ⟨w, ⟨gap, skipGap cs, hgap, heq, hkey⟩, rfl⟩

end Ambient.TypeExpr
