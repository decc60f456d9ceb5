import Ambient.Proofs.Source.Code
import Ambient.Proofs.Source.Yield

/-!
# What readers take

`Reader.Takes r text more P` says that the reader takes exactly `text` when `more` follows it, and
gives something that satisfies `P`; `Reader.Fails r cs` says that it fails there.  Both have a rule
for each way to put readers together, so that a text is read by reading its parts one after another.
What a node says is kept as its code, so that lines and offsets do not matter.
-/

namespace Ambient

namespace Cursor

theorem rest_advance (n : Nat) (c : Cursor) : (c.advance n).rest = c.rest.drop n := by
  induction n generalizing c with
  | zero => rfl
  | succ n ih =>
      rw [advance, ih, step]
      cases hrest : c.rest with
      | nil => simp [hrest]
      | cons x rest => rfl

theorem advance_advance (m n : Nat) (c : Cursor) : (c.advance m).advance n = c.advance (m + n) := by
  induction m generalizing c with
  | zero => rw [advance, Nat.zero_add]
  | succ m ih => rw [advance, ih, Nat.succ_add, advance]

variable {c : Cursor} {text more : List Char} (h : c.rest = text ++ more)

include h

theorem rest_advance_length : (c.advance text.length).rest = more := by
  rw [rest_advance, h, List.drop_left]

theorem offset_advance_length : (c.advance text.length).offset = c.offset + text.length := by
  rw [Reader.offset_advance, h, List.length_append, Nat.min_eq_left (Nat.le_add_right ..)]

theorem textTo_advance_length : c.textTo (c.advance text.length) = String.ofList text := by
  rw [textTo, offset_advance_length h, h, Nat.add_sub_cancel_left, List.take_left]

end Cursor

namespace Reader

variable {α β : Type} {P : α → Prop} {Q : β → Prop} {text next more : List Char}

/-- The reader takes the text, when `more` follows it, and gives something that satisfies `P`. -/
def Takes (r : Reader α) (text more : List Char) (P : α → Prop) : Prop :=
  ∀ c : Cursor, c.rest = text ++ more → ∃ a, r c = some (a, c.advance text.length) ∧ P a

/-- The reader fails where the text is ahead. -/
def Fails (r : Reader α) (cs : List Char) : Prop :=
  ∀ c : Cursor, c.rest = cs → r c = none

/-! ### Putting readers together -/

namespace Takes

theorem pure {a : α} (h : P a) : Takes (pure a) [] more P :=
  fun _ _ => ⟨a, rfl, h⟩

theorem imp {R : α → Prop} {r : Reader α} (h : Takes r text more P) (hPR : ∀ a, P a → R a) :
    Takes r text more R := by
  intro c hc
  obtain ⟨a, hread, ha⟩ := h c hc
  exact ⟨a, hread, hPR a ha⟩

theorem bind {r : Reader α} {f : α → Reader β} (hr : Takes r text (next ++ more) P)
    (hf : ∀ a, P a → Takes (f a) next more Q) : Takes (r >>= f) (text ++ next) more Q := by
  intro c hc
  rw [List.append_assoc] at hc
  obtain ⟨a, hread, ha⟩ := hr c hc
  obtain ⟨b, hread', hb⟩ := hf a ha _ (Cursor.rest_advance_length hc)
  refine ⟨b, ?_, hb⟩
  rw [Cursor.advance_advance, ← List.length_append] at hread'
  change Option.bind (r c) (fun p => f p.1 p.2) = _
  rw [hread]
  exact hread'

/-- A text, and what takes nothing behind it. -/
theorem before {r : Reader α} {f : α → Reader β} (hr : Takes r text more P)
    (hf : ∀ a, P a → Takes (f a) [] more Q) : Takes (r >>= f) text more Q := by
  have hr' : Takes r text ([] ++ more) P := hr
  have hbind := hr'.bind hf
  rwa [List.append_nil] at hbind

/-- The last part of a text, and what is made of it. -/
theorem last {r : Reader α} {g : α → β} (hr : Takes r text more P) (hg : ∀ a, P a → Q (g a)) :
    Takes (r >>= fun a => Pure.pure (g a)) text more Q :=
  hr.before fun a ha => .pure (hg a ha)

/-- A reader that takes nothing, and what follows it. -/
theorem after {r : Reader α} {f : α → Reader β} (hr : Takes r [] (text ++ more) P)
    (hf : ∀ a, P a → Takes (f a) text more Q) : Takes (r >>= f) text more Q :=
  hr.bind hf

theorem ahead {f : List Char → Reader β} (hf : Takes (f (text ++ more)) text more Q) :
    Takes (Reader.ahead >>= f) text more Q := by
  intro c hc
  have hread := hf c hc
  rw [← hc] at hread
  exact hread

theorem get {f : Cursor → Reader β} (hf : ∀ c, c.rest = text ++ more → Takes (f c) text more Q) :
    Takes (MonadState.get >>= f) text more Q :=
  fun c hc => hf c hc c hc

theorem require {b : Bool} {f : Unit → Reader β} (hb : b = true)
    (hf : Takes (f ()) text more Q) : Takes (Reader.require b >>= f) text more Q := by
  subst hb
  exact hf

theorem left {r r' : Reader α} (hr : Takes r text more P) : Takes (r <|> r') text more P := by
  intro c hc
  obtain ⟨a, hread, ha⟩ := hr c hc
  refine ⟨a, ?_, ha⟩
  change (r c <|> r' c) = _
  rw [hread]
  rfl

theorem right {r r' : Reader α} (hr : Fails r (text ++ more)) (hr' : Takes r' text more P) :
    Takes (r <|> r') text more P := by
  intro c hc
  obtain ⟨a, hread, ha⟩ := hr' c hc
  refine ⟨a, ?_, ha⟩
  change (r c <|> r' c) = _
  rw [hr c hc]
  exact hread

theorem bound : Takes Reader.bound [] more (0 < ·) :=
  fun c _ => ⟨c.bound, rfl, Nat.succ_pos _⟩

theorem look {r : Reader Bool} {b : Bool} (h : Takes r text more (· = b)) :
    Takes (Reader.look r) [] (text ++ more) (· = b) := by
  intro c hc
  obtain ⟨a, hread, rfl⟩ := h c hc
  refine ⟨a, ?_, rfl⟩
  rw [Reader.look, hread]
  rfl

/-- An optional part that is not there. -/
theorem absent {r : Reader (List Node)} (h : Fails r more) :
    Takes (optionally r) [] more (· = []) :=
  right h (.pure rfl)

/-- Items are read until one fails. -/
theorem nothing {item : Reader (List Node)} (h : Fails item more) (limit : Nat) :
    Takes (many item limit) [] more (· = []) := by
  intro c hc
  cases limit with
  | zero => exact ⟨[], rfl, rfl⟩
  | succ n =>
      refine ⟨[], ?_, rfl⟩
      rw [many]
      dsimp only
      rw [h c hc]
      rfl

theorem single {item : Reader (List Node)} {P : List Node → Prop} (h : Takes item text more P)
    (hne : text ≠ []) (hmore : Fails item more) {limit : Nat} (hlimit : 0 < limit) :
    Takes (many item limit) text more P := by
  intro c hc
  obtain ⟨ns, hread, hns⟩ := h c hc
  obtain ⟨n, rfl⟩ := Nat.exists_eq_succ_of_ne_zero (Nat.pos_iff_ne_zero.1 hlimit)
  have hoffset : c.offset < (c.advance text.length).offset := by
    have hpos := List.length_pos_iff.2 hne
    rw [Cursor.offset_advance_length hc]
    omega
  obtain ⟨ms, hread', rfl⟩ := nothing hmore n _ (Cursor.rest_advance_length hc)
  refine ⟨ns, ?_, hns⟩
  rw [many]
  dsimp only
  rw [hread]
  dsimp only
  rw [if_pos hoffset, hread']
  dsimp only
  rw [List.append_nil]
  rfl

end Takes

namespace Fails

theorem failure : Fails (failure : Reader α) more :=
  fun _ _ => rfl

theorem bind {r : Reader α} {f : α → Reader β} (hr : Fails r more) : Fails (r >>= f) more := by
  intro c hc
  change Option.bind (r c) (fun p => f p.1 p.2) = none
  rw [hr c hc]
  rfl

/-- What follows the text fails. -/
theorem behind {r : Reader α} {f : α → Reader β} (hr : Takes r text more P)
    (hf : ∀ a, P a → Fails (f a) more) : Fails (r >>= f) (text ++ more) := by
  intro c hc
  obtain ⟨a, hread, ha⟩ := hr c hc
  change Option.bind (r c) (fun p => f p.1 p.2) = none
  rw [hread]
  exact hf a ha _ (Cursor.rest_advance_length hc)

/-- What follows a reader that takes nothing fails. -/
theorem after {r : Reader α} {f : α → Reader β} (hr : Takes r [] more P)
    (hf : ∀ a, P a → Fails (f a) more) : Fails (r >>= f) more :=
  behind hr hf

theorem ahead {f : List Char → Reader β} (hf : Fails (f more) more) :
    Fails (Reader.ahead >>= f) more := by
  intro c hc
  have hread := hf c hc
  rw [← hc] at hread
  exact hread

theorem get {f : Cursor → Reader β} (hf : ∀ c, Fails (f c) more) :
    Fails (MonadState.get >>= f) more :=
  fun c hc => hf c c hc

theorem require {b : Bool} {f : Unit → Reader β} (hb : b = false) :
    Fails (Reader.require b >>= f) more := by
  subst hb
  exact bind failure

theorem past {b : Bool} {f : Unit → Reader β} (hb : b = true) (hf : Fails (f ()) more) :
    Fails (Reader.require b >>= f) more := by
  subst hb
  exact hf

theorem orElse {r r' : Reader α} (hr : Fails r more) (hr' : Fails r' more) :
    Fails (r <|> r') more := by
  intro c hc
  change (r c <|> r' c) = none
  rw [hr c hc]
  exact hr' c hc

end Fails

/-! ### Nodes -/

/-- The code of a node that was just read. -/
def coded (k : Kind) (text : List Char) (children : List Node) : Node :=
  ⟨k, none, String.ofList text, 0, 0, children⟩

theorem code_as (n : Node) (r : Role) : (n.as r).code = n.code.as r := by
  cases n
  rfl

theorem Takes.node {k : Kind} {body : Reader (List Node)} {children : List Node}
    (h : Takes body text more (·.map Node.code = children)) :
    Takes (node k body) text more (·.code = coded k text children) := by
  intro c hc
  obtain ⟨ns, hread, hns⟩ := h c hc
  refine ⟨⟨k, none, c.textTo (c.advance text.length), c.line, c.offset, ns⟩, ?_, ?_⟩
  · change Option.bind (body c) _ = _
    rw [hread]
    rfl
  · change Node.mk k none (c.textTo (c.advance text.length)) 0 0 (Node.codes ns) = _
    rw [Node.codes_eq_map, hns, Cursor.textTo_advance_length hc]
    rfl

theorem Fails.node {k : Kind} {body : Reader (List Node)} (h : Fails body more) :
    Fails (Reader.node k body) more := by
  intro c hc
  change Option.bind (body c) _ = none
  rw [h c hc]
  rfl

theorem Takes.leaf {k : Kind} :
    Takes (leaf k text.length) text more (·.code = coded k text []) := by
  refine .node fun c hc => ⟨[], ?_, rfl⟩
  rfl

end Reader

namespace Source

open Reader

/-! ### Between tokens -/

/-- Neither white space nor a comment begins here. -/
def isSolid : List Char → Bool
  | [] => true
  | c :: _ => !(isSpace c || ['/', '<', '-'].contains c)

variable {text more : List Char}

theorem comment?_eq_none {html : Bool} {c : Cursor} (h : isSolid c.rest = true) :
    comment? html c = none := by
  have hplain : commentLength? c.rest = none ∧ htmlCommentLength? c.rest = none := by
    cases hrest : c.rest with
    | nil => exact ⟨rfl, rfl⟩
    | cons x cs =>
        rw [hrest, isSolid, Bool.not_eq_true', Bool.or_eq_false_iff] at h
        have hne : x ≠ '/' ∧ x ≠ '<' ∧ x ≠ '-' := by simpa using h.2
        constructor
        · rw [commentLength?]
          · rintro _ ⟨⟩
            exact hne.1 rfl
          · rintro _ ⟨⟩
            exact hne.1 rfl
        · rw [htmlCommentLength?]
          · rintro _ ⟨⟩
            exact hne.2.1 rfl
          · rintro _ ⟨⟩
            exact hne.2.2 rfl
  rw [comment?, hplain.1]
  dsimp only
  rw [hplain.2]
  split <;> rfl

theorem skipSpace_eq (blanks : List Char) (hblanks : blanks.all isSpace = true)
    (hmore : isSolid more = true) {c : Cursor} (hc : c.rest = blanks ++ more) :
    skipSpace c = c.advance blanks.length := by
  have hnone : more.takeWhile isSpace = [] := by
    cases more with
    | nil => rfl
    | cons x cs =>
        rw [isSolid, Bool.not_eq_true', Bool.or_eq_false_iff] at hmore
        rw [List.takeWhile_cons, hmore.1]
        rfl
  rw [skipSpace, hc, List.takeWhile_append_of_pos (List.all_eq_true.1 hblanks), hnone,
    List.append_nil]

theorem skipGap_eq (html : Bool) {limit : Nat} (hlimit : 0 < limit) {c : Cursor}
    {blanks : List Char} (hblanks : blanks.all isSpace = true) (hmore : isSolid more = true)
    (hc : c.rest = blanks ++ more) :
    skipGap html limit c = ([], c.advance blanks.length) := by
  obtain ⟨n, rfl⟩ := Nat.exists_eq_succ_of_ne_zero (Nat.pos_iff_ne_zero.1 hlimit)
  rw [skipGap, skipSpace_eq blanks hblanks hmore hc]
  dsimp only
  rw [comment?_eq_none (by rw [Cursor.rest_advance_length hc, hmore])]

theorem takes_lead (blanks : List Char) (hblanks : blanks.all isSpace = true) (hmore : isSolid more = true) :
    Takes lead blanks more (· = []) := by
  intro c hc
  refine ⟨[], ?_, rfl⟩
  have hskip := skipGap_eq true (Nat.succ_pos (c.stop - c.offset)) hblanks hmore hc
  change some ((skipGap true c.bound c).1, (skipGap true c.bound c).2) = _
  rw [Cursor.bound, hskip]

theorem takes_gap (blanks : List Char) (hblanks : blanks.all isSpace = true) (hmore : isSolid more = true) :
    Takes gap blanks more (· = []) := by
  intro c hc
  refine ⟨[], ?_, rfl⟩
  have hskip := skipGap_eq false (Nat.succ_pos (c.stop - c.offset)) hblanks hmore hc
  change some ((skipGap false c.bound c).1, (skipGap false c.bound c).2) = _
  rw [Cursor.bound, hskip]

/-! ### Tokens -/

/-- The code of a fixed token. -/
def sign (text : String) : Node :=
  coded (.token text) text.toList []

theorem takes_here (mark : String) :
    Takes (here mark) mark.toList more (·.code = sign mark) := by
  refine .ahead (.require ?_ ?_)
  · rw [Text.after?_append]
    rfl
  · rw [← String.length_toList]
    exact .leaf

theorem fails_here {mark : String} (h : Text.after? mark.toList more = none) :
    Fails (here mark) more :=
  .ahead (.require (by rw [h]; rfl))

theorem takes_token (blanks : List Char) (mark : String) (hblanks : blanks.all isSpace = true)
    (hsolid : isSolid (mark.toList ++ more) = true) :
    Takes (token mark) (blanks ++ mark.toList) more (·.map Node.code = [sign mark]) := by
  refine (takes_gap blanks hblanks hsolid).bind fun comments hcomments =>
    (takes_here mark).last fun n hn => ?_
  subst hcomments
  exact congrArg (fun x => [x]) hn

theorem fails_token (blanks : List Char) {mark : String} (hblanks : blanks.all isSpace = true)
    (hsolid : isSolid more = true) (h : Text.after? mark.toList more = none) :
    Fails (token mark) (blanks ++ more) :=
  .behind (takes_gap blanks hblanks hsolid) fun _ _ => .bind (fails_here h)

theorem takes_sub (blanks : List Char) {r : Reader Node} {n : Node}
    (hblanks : blanks.all isSpace = true)
    (hsolid : isSolid (text ++ more) = true) (hr : Takes r text more (·.code = n)) :
    Takes (sub r) (blanks ++ text) more (·.map Node.code = [n]) := by
  refine (takes_lead blanks hblanks hsolid).bind fun comments hcomments => hr.last fun m hm => ?_
  subst hcomments
  exact congrArg (fun x => [x]) hm

theorem fails_sub (blanks : List Char) {r : Reader Node} (hblanks : blanks.all isSpace = true)
    (hsolid : isSolid more = true) (hr : Fails r more) : Fails (sub r) (blanks ++ more) :=
  .behind (takes_lead blanks hblanks hsolid) fun _ _ => .bind hr

theorem takes_part (blanks : List Char) {role : Role} {r : Reader Node} {n : Node}
    (hblanks : blanks.all isSpace = true) (hsolid : isSolid (text ++ more) = true)
    (hr : Takes r text more (·.code = n)) :
    Takes (part role r) (blanks ++ text) more (·.map Node.code = [n.as role]) := by
  refine takes_sub blanks hblanks hsolid (hr.last fun m hm => ?_)
  rw [code_as, hm]

/-! ### Ends of statements -/

/-- No statement ends before its semicolon. -/
theorem takes_mayEnd (bare : Bool) : Takes (mayEnd bare) [] (';' :: more) (· = false) := by
  intro c hc
  refine ⟨false, ?_, rfl⟩
  change some (endsHere bare c.bound c.rest, c) = _
  rw [hc]
  rfl

theorem takes_skipSpace (hsolid : isSolid more = true) :
    Takes (modify skipSpace : Reader PUnit) [] more fun _ => True := by
  intro c hc
  refine ⟨⟨⟩, ?_, trivial⟩
  change some (PUnit.unit, skipSpace c) = _
  rw [skipSpace_eq [] rfl hsolid hc]

theorem takes_semicolon (bare : Bool) :
    Takes (semicolon bare) [';'] more (·.map Node.code = [sign ";"]) := by
  refine Takes.bound.after fun limit hlimit => ?_
  obtain ⟨n, rfl⟩ := Nat.exists_eq_succ_of_ne_zero (Nat.pos_iff_ne_zero.1 hlimit)
  have hsolid : isSolid ([';'] ++ more) = true := rfl
  refine (takes_mayEnd bare).after fun b hb => ?_
  subst hb
  refine (takes_skipSpace hsolid).after fun _ _ => .get fun c hc => ?_
  rw [comment?_eq_none (by rw [hc, hsolid])]
  exact (takes_here ";").last fun n hn => congrArg (fun x => [x]) hn

end Source

end Ambient
