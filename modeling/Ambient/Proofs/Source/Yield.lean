import Ambient.Proofs.Source.Legible
import Ambient.Source.Token

/-!
# What readers give

`Reader.Yields P r` says that whatever the reader gives satisfies `P`; it has a rule for each way to
put readers together, so that the reader of a construct yields a legible node when the readers of
its parts do.  The only readers that look at the characters here are those of words: a word has at
least one character.
-/

namespace Ambient

namespace Reader

open Node

variable {α β : Type} {P : α → Prop} {Q : β → Prop}

/-- Whatever the reader gives satisfies `P`. -/
def Yields (P : α → Prop) (r : Reader α) : Prop :=
  ∀ c a d, r c = some (a, d) → P a

namespace Yields

theorem pure {a : α} (h : P a) : Yields P (pure a) := by
  intro c b d hread
  cases hread
  exact h

theorem failure : Yields P failure := by
  intro c a d hread
  cases hread

/-- Nothing follows a failure. -/
theorem failed {f : β → Reader α} : Yields P (Alternative.failure >>= f) := by
  intro c a d hread
  cases hread

theorem bind {r : Reader β} {f : β → Reader α} (hr : Yields Q r) (hf : ∀ b, Q b → Yields P (f b)) :
    Yields P (r >>= f) := by
  intro c a d hread
  obtain ⟨⟨b, e⟩, hb, ha⟩ := Option.bind_eq_some_iff.1 hread
  exact hf b (hr c b e hb) e a d ha

/-- What is read behind a look at the characters ahead may depend on them. -/
theorem ahead {f : List Char → Reader α} (hf : ∀ c a d, f c.rest c = some (a, d) → P a) :
    Yields P (ahead >>= f) :=
  hf

/-- Nothing is asked of what is read first. -/
theorem behind {r : Reader β} {f : β → Reader α} (hf : ∀ b, Yields P (f b)) : Yields P (r >>= f) :=
  bind (fun _ _ _ _ => trivial) fun b (_ : True) => hf b

theorem orElse {r r' : Reader α} (hr : Yields P r) (hr' : Yields P r') : Yields P (r <|> r') := by
  intro c a d hread
  cases hfirst : r c with
  | some x =>
      have hx : (r <|> r') c = some x := by
        change (r c <|> r' c) = some x
        rw [hfirst]
        rfl
      exact hr c a d (by rw [hfirst, ← hx, hread])
  | none =>
      have hx : (r <|> r') c = r' c := by
        change (r c <|> r' c) = r' c
        rw [hfirst]
        rfl
      exact hr' c a d (by rw [← hx, hread])

theorem ite {b : Prop} [Decidable b] {r r' : Reader α} (hr : Yields P r) (hr' : Yields P r') :
    Yields P (if b then r else r') := by
  split
  · exact hr
  · exact hr'

/-- One of two readers, and what follows it in both cases. -/
theorem choose {b : Prop} [Decidable b] {r r' : Reader β} {f : β → Reader α} (hr : Yields Q r)
    (hr' : Yields Q r') (hf : ∀ b, Q b → Yields P (f b)) :
    Yields P (if b then r >>= f else r' >>= f) :=
  ite (bind hr hf) (bind hr' hf)

theorem imp {R : α → Prop} {r : Reader α} (hr : Yields P r) (h : ∀ a, P a → R a) : Yields R r :=
  fun c a d hread => h a (hr c a d hread)

theorem and {P' : α → Prop} {r : Reader α} (hr : Yields P r) (hr' : Yields P' r) :
    Yields (fun a => P a ∧ P' a) r :=
  fun c a d hread => ⟨hr c a d hread, hr' c a d hread⟩

theorem whole {r : Reader Node} (hr : Yields Bare r) : Yields Whole r :=
  hr.imp fun _ hn => hn.whole

theorem fresh {r : Reader Node} (hr : Yields Whole r) : Yields Fresh r :=
  hr.imp fun _ hn => hn.toFresh

theorem placed {r : Reader (List Node)} (hr : Yields AllBare r) : Yields AllPlaced r :=
  hr.imp fun _ hns => hns.placed

theorem optionally_of {P : List Node → Prop} {r : Reader (List Node)} (hnil : P [])
    (hr : Yields P r) : Yields P (optionally r) :=
  orElse hr (pure hnil)

theorem optionally {r : Reader (List Node)} (hr : Yields AllPlaced r) :
    Yields AllPlaced (Reader.optionally r) :=
  optionally_of allPlaced_nil hr

theorem many_all {item : Reader (List Node)} {P : Node → Prop}
    (h : Yields (fun ns => ∀ n ∈ ns, P n) item) (limit : Nat) :
    Yields (fun ns => ∀ n ∈ ns, P n) (many item limit) := by
  induction limit with
  | zero => exact pure (List.forall_mem_nil P)
  | succ n ih =>
      intro c a d hread
      rw [Reader.many] at hread
      dsimp only at hread
      split at hread
      · cases hread
        exact List.forall_mem_nil P
      · rename_i xs e hitem
        split at hread
        · split at hread
          · rename_i ys f hmany
            cases hread
            exact List.forall_mem_append.2 ⟨h c xs e hitem, ih e ys _ hmany⟩
          · cases hread
        · cases hread
          exact List.forall_mem_nil P

theorem many {item : Reader (List Node)} (h : Yields AllPlaced item) (limit : Nat) :
    Yields AllPlaced (Reader.many item limit) :=
  many_all h limit

theorem node {k : Kind} {body : Reader (List Node)} (hk : k.isCompound = true)
    (h : Yields AllPlaced body) : Yields Fresh (node k body) :=
  behind fun _ => bind h fun _ hns => behind fun _ => pure ⟨legible_of_placed hk hns, rfl⟩

theorem kind_node {k : Kind} {body : Reader (List Node)} :
    Yields (fun n => n.kind = k) (Reader.node k body) :=
  behind fun _ => behind fun _ => behind fun _ => pure rfl

/-- A class. -/
theorem classNode {k : Kind} {body : Reader (List Node)} (hk : k.isClass = true)
    (h : Yields AllInClass body) : Yields Fresh (Reader.node k body) :=
  behind fun _ => bind h fun _ hns => behind fun _ => pure ⟨legible_class hk hns, rfl⟩

/-- A construct that nothing can be put into. -/
theorem closed {k : Kind} {body : Reader (List Node)} (hk : k.isCompound = true)
    (hclosed : k.isClosed = true) (h : Yields AllPlaced body) : Yields Whole (Reader.node k body) :=
  behind fun _ => bind h fun _ hns => behind fun _ =>
    pure ⟨⟨legible_of_placed hk hns, rfl⟩, hclosed⟩

theorem nodeSince (a : Cursor) {k : Kind} {ns : List Node} (hk : k.isCompound = true)
    (h : AllPlaced ns) : Yields Fresh (nodeSince a k ns) :=
  behind fun _ => pure ⟨legible_of_placed hk h, rfl⟩

/-- A construct that no part names asks nothing of the roles of its parts. -/
theorem unnamed {k : Kind} {body : Reader (List Node)} (hk : k.isCompound = true)
    (hnamed : ∀ r, k.isNamedBy r = false) (h : Yields AllLegible body) :
    Yields Fresh (Reader.node k body) :=
  behind fun _ => bind h fun _ hns => behind fun _ => pure ⟨legible_of_unnamed hk hnamed hns, rfl⟩

theorem unnamedSince (a : Cursor) {k : Kind} {ns : List Node} (hk : k.isCompound = true)
    (hnamed : ∀ r, k.isNamedBy r = false) (h : AllLegible ns) :
    Yields Fresh (Reader.nodeSince a k ns) :=
  behind fun _ => pure ⟨legible_of_unnamed hk hnamed h, rfl⟩

theorem leaf {k : Kind} (hk : k.isLeaf = true) (hne : k ≠ .identifier) (n : Nat) :
    Yields Bare (leaf k n) :=
  behind fun _ => bind (Q := fun ns => ns = []) (behind fun _ => pure rfl) fun _ hns =>
    behind fun _ =>
      pure ⟨⟨legible_of_children_eq_nil hns (Kind.declaresVariables_of_isLeaf hk) fun hkind =>
        absurd hkind hne, rfl⟩, hk⟩

/-- A string without parts of its own. -/
theorem plainString (n : Nat) : Yields Fresh (Reader.leaf .string n) :=
  behind fun _ => bind (Q := fun ns => ns = []) (behind fun _ => pure rfl) fun _ hns =>
    behind fun _ => pure ⟨legible_of_children_eq_nil hns rfl (by nofun), rfl⟩

end Yields

/-! ### Words -/

theorem offset_advance (n : Nat) (c : Cursor) :
    (c.advance n).offset = c.offset + min n c.rest.length := by
  induction n generalizing c with
  | zero => simp [Cursor.advance]
  | succ n ih =>
      rw [Cursor.advance, ih]
      cases hrest : c.rest with
      | nil => simp [Cursor.step, hrest]
      | cons x rest =>
          simp only [Cursor.step, hrest, List.length_cons]
          omega

/-- A leaf over at least one character has a text, so it may be an identifier. -/
theorem bare_leaf {k : Kind} {n : Nat} {c d : Cursor} {leafNode : Node} (hk : k.isLeaf = true)
    (hn : 0 < n) (hrest : c.rest ≠ []) (h : leaf k n c = some (leafNode, d)) : leafNode.Bare := by
  cases h
  refine ⟨⟨legible_of_children_eq_nil rfl (Kind.declaresVariables_of_isLeaf hk) fun _ => ?_, rfl⟩, hk⟩
  have hlength := List.length_pos_iff.2 hrest
  simp only [Cursor.textTo, offset_advance]
  intro htext
  have hnil := congrArg String.toList htext
  rw [String.toList_ofList] at hnil
  have hzero := congrArg List.length hnil
  simp only [List.length_take, String.toList_empty, List.length_nil] at hzero
  omega

end Reader

namespace Source

open Node Reader

theorem wordRest_pos {cs : List Char} {n : Nat} (h : codePointLength? cs = some n) :
    0 < wordRest false cs := by
  unfold codePointLength? at h
  split at h
  · simp [wordRest]
  · rename_i a b c d rest hbrace
    split at h
    · rename_i hhex
      simp only [Bool.and_eq_true] at hhex
      rw [wordRest]
      · simp [hhex]
      · intro cs
        grind
    · cases h
  · cases h

/-- A word has a first character. -/
theorem wordLength?_pos {cs : List Char} {n : Nat} (h : wordLength? cs = some n) :
    0 < n ∧ cs ≠ [] := by
  unfold wordLength? at h
  split at h
  · cases h
  · rename_i c rest
    refine ⟨?_, List.cons_ne_nil c rest⟩
    split at h
    · cases h
      omega
    · obtain ⟨k, hk, rfl⟩ := Option.map_eq_some_iff.1 h
      exact wordRest_pos hk

theorem yields_anyWord {k : Kind} (hk : k.isLeaf = true) : Yields Bare (anyWord k) := by
  refine .ahead fun c n d hread => ?_
  cases hlength : wordLength? c.rest with
  | none =>
      rw [hlength] at hread
      cases hread
  | some length =>
      rw [hlength] at hread
      obtain ⟨hpos, hne⟩ := wordLength?_pos hlength
      exact bare_leaf hk hpos hne hread

theorem yields_nameWord {k : Kind} (hk : k.isLeaf = true) : Yields Bare (nameWord k) :=
  .behind fun _ => .behind fun _ => yields_anyWord hk

theorem yields_identifier : Yields Bare identifier :=
  yields_nameWord rfl

theorem yields_privateName : Yields Bare privateName := by
  refine .behind fun cs => ?_
  split
  · split
    · exact .leaf rfl (by nofun) _
    · exact .failure
  · exact .failure

/-! ### Between tokens -/

theorem bare_comment? {html : Bool} {c d : Cursor} {n : Node}
    (h : comment? html c = some (n, d)) : n.Bare := by
  unfold comment? at h
  split at h
  · exact Yields.leaf rfl (by nofun) _ c n d h
  · split at h
    · split at h
      · exact Yields.leaf rfl (by nofun) _ c n d h
      · cases h
    · cases h

theorem allBare_skipGap (html : Bool) (limit : Nat) (c : Cursor) :
    AllBare (skipGap html limit c).1 := by
  induction limit generalizing c with
  | zero => exact allBare_nil
  | succ n ih =>
      rw [skipGap]
      dsimp only
      split
      · rename_i comment d hcomment
        exact allBare_cons.2 ⟨bare_comment? hcomment, ih d⟩
      · exact allBare_nil

theorem yields_lead : Yields AllBare lead :=
  .behind fun c => .behind fun _ => .pure (allBare_skipGap true c.bound c)

theorem yields_gap : Yields AllBare gap :=
  .behind fun c => .behind fun _ => .pure (allBare_skipGap false c.bound c)

theorem yields_here (text : String) : Yields Bare (here text) :=
  .behind fun _ => .behind fun _ => .leaf rfl (by nofun) _

theorem yields_token (text : String) : Yields AllBare (token text) :=
  .bind yields_gap fun _ hcomments => .bind (yields_here text) fun _ htoken =>
    .pure (by simp [hcomments, htoken])

theorem yields_word (text : String) : Yields AllBare (word text) :=
  .bind yields_gap fun _ hcomments => .behind fun _ => .behind fun _ =>
    .bind (.leaf rfl (by nofun) _) fun _ hword => .pure (by simp [hcomments, hword])

/-- As many characters as a word in front has are the word. -/
theorem textTo_advance_of_wordAt {c : Cursor} {text : String} (h : wordAt c.rest = text) :
    c.textTo (c.advance text.length) = text := by
  subst h
  rw [Cursor.textTo, offset_advance, Nat.add_sub_cancel_left, ← List.take_eq_take_min, wordAt,
    String.length_ofList, List.length_take, ← List.take_eq_take_min]

/-- The word that begins a construct has the text asked for. -/
theorem yields_firstWord (text : String) :
    Yields (fun n => n.Bare ∧ n.text = text) (firstWord text) := by
  intro c n d hread
  have hread : (require (wordAt c.rest == text) >>= fun _ => leaf (.token text) text.length) c =
      some (n, d) := hread
  cases hword : wordAt c.rest == text with
  | false =>
      rw [hword] at hread
      cases hread
  | true =>
      rw [hword] at hread
      have hleaf : leaf (.token text) text.length c = some (n, d) := hread
      refine ⟨Yields.leaf rfl (by nofun) _ c n d hleaf, ?_⟩
      cases hleaf
      exact textTo_advance_of_wordAt (eq_of_beq hword)

/-- A construct stands last, behind comments. -/
theorem yields_sub_last {P : Node → Prop} {r : Reader Node} (h : Yields P r) :
    Yields (fun ns => ∃ comments n, ns = comments ++ [n] ∧ AllBare comments ∧ P n) (sub r) :=
  .bind yields_lead fun comments hcomments => .bind h fun n hn =>
    .pure ⟨comments, n, rfl, hcomments, hn⟩

theorem yields_sub {r : Reader Node} (h : Yields Fresh r) : Yields AllPlaced (sub r) := by
  refine (yields_sub_last h).imp ?_
  rintro _ ⟨comments, n, rfl, hcomments, hn⟩
  simp [hcomments, hn]

theorem yields_sub_inClass {r : Reader Node} (h : Yields Fresh r) : Yields AllInClass (sub r) := by
  refine (yields_sub_last h).imp ?_
  rintro _ ⟨comments, n, rfl, hcomments, hn⟩
  simp [hcomments, hn.inClass]

theorem yields_part_last {P : Node → Prop} {role : Role} {r : Reader Node} (h : Yields P r) :
    Yields (fun ns => ∃ comments n, ns = comments ++ [n.as role] ∧ AllBare comments ∧ P n)
      (part role r) :=
  .bind yields_lead fun comments hcomments =>
    .bind (.bind h fun n hn => .pure (P := fun m => ∃ n : Node, m = n.as role ∧ P n) ⟨n, rfl, hn⟩)
      fun _ ⟨n, hm, hn⟩ => .pure ⟨comments, n, by rw [hm], hcomments, hn⟩

theorem yields_part {role : Role} {r : Reader Node} (hrole : role.isNaming = false)
    (h : Yields Fresh r) : Yields AllPlaced (part role r) := by
  refine (yields_part_last h).imp ?_
  rintro _ ⟨comments, n, rfl, hcomments, hn⟩
  have hplaced : (n.as role).Placed := by
    refine placed_as.2 ⟨hn.legible, fun hnaming => ?_⟩
    rw [hrole] at hnaming
    cases hnaming
  simp [hcomments, hplaced]

/-- A part of a construct that no part names. -/
theorem yields_freePart {role : Role} {r : Reader Node} (h : Yields Fresh r) :
    Yields AllLegible (part role r) := by
  refine (yields_part_last h).imp ?_
  rintro _ ⟨comments, n, rfl, hcomments, hn⟩
  simp [hcomments, hn]

/-- A part that may name its construct. -/
theorem yields_namePart {role : Role} {r : Reader Node} (h : Yields Whole r) :
    Yields AllPlaced (part role r) := by
  refine (yields_part_last h).imp ?_
  rintro _ ⟨comments, n, rfl, hcomments, hn⟩
  simp [hcomments, hn]

theorem yields_beforeOperator (limit : Nat) : Yields AllBare (beforeOperator limit) := by
  induction limit with
  | zero => exact .failure
  | succ n ih =>
      refine .behind fun _ => .behind fun _ => .behind fun _ => .behind fun c => ?_
      split
      · rename_i comment d hcomment
        exact .behind fun _ => .bind ih fun _ hrest =>
          .pure (allBare_cons.2 ⟨bare_comment? hcomment, hrest⟩)
      · exact .pure allBare_nil

theorem yields_continuation (place : Place) : Yields AllBare (continuation place) := by
  cases place with
  | loose => exact .behind fun limit => yields_beforeOperator limit
  | enclosed => exact yields_gap

theorem yields_semicolonWithin (bare : Bool) (limit : Nat) :
    Yields AllBare (semicolonWithin bare limit) := by
  induction limit with
  | zero => exact .failure
  | succ n ih =>
      refine .behind fun ends => ?_
      split
      · exact .pure allBare_nil
      · refine .behind fun _ => .behind fun c => ?_
        split
        · rename_i comment d hcomment
          exact .behind fun _ => .bind ih fun _ hrest =>
            .pure (allBare_cons.2 ⟨bare_comment? hcomment, hrest⟩)
        · exact .bind (yields_here ";") fun _ hsign => .pure (by simp [hsign])

theorem yields_semicolon (bare : Bool) : Yields AllBare (semicolon bare) :=
  .behind fun limit => yields_semicolonWithin bare limit

/-! ### Literals -/

theorem yields_number : Yields Bare number :=
  .behind fun _ => .behind fun _ => .leaf rfl (by nofun) _

theorem yields_stringPart (quote : Char) : Yields AllBare (stringPart quote) := by
  refine .behind fun cs => ?_
  dsimp only
  split
  · exact .bind (.leaf rfl (by nofun) _) fun _ h => .pure (by simp [h])
  · split
    · exact .bind (.leaf rfl (by nofun) _) fun _ h => .pure (by simp [h])
    · exact .failure

theorem yields_string : Yields Whole string := by
  refine .behind fun cs => ?_
  split
  · rename_i q _
    have hbody : Yields AllBare (do
        let opening ← here (String.ofList [q])
        let parts ← many (stringPart q) (← bound)
        return opening :: parts ++ (← token (String.ofList [q]))) :=
      .bind (yields_here _) fun _ hopening => .behind fun limit =>
        .bind (.many_all (yields_stringPart q) limit) fun _ hparts =>
          .bind (yields_token _) fun _ hclosing =>
            .pure (List.forall_mem_append.2 ⟨List.forall_mem_cons.2 ⟨hopening, hparts⟩, hclosing⟩)
    exact .behind fun _ => .behind fun _ => .bind hbody fun _ hparts => .behind fun _ =>
      .pure ⟨⟨legible_string rfl hparts, rfl⟩, rfl⟩
  · exact .failure

theorem yields_regex : Yields Fresh regex := by
  refine .node rfl (.bind (yields_here "/") fun _ hopening => .behind fun _ => .behind fun _ =>
    .bind (.leaf rfl (by nofun) _) fun _ hpattern => .bind (yields_here "/") fun _ hclosing =>
      .behind fun _ => ?_)
  dsimp only
  split
  · exact .pure (by simp [hopening, hpattern, hclosing])
  · exact .bind (.leaf rfl (by nofun) _) fun _ hflags =>
      .pure (by simp [hopening, hpattern, hclosing, hflags])

end Source

end Ambient
