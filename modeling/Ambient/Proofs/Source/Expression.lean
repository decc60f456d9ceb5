import Ambient.Proofs.Source.Construct
import Ambient.Source.Element

/-!
# Expressions are legible

Over a grammar that yields legible nodes, an expression of any kind is legible, markup included.  The
readers with a limit are followed by induction on it.
-/

namespace Ambient.Source

open Node Reader

variable {g : Grammar} (hg : g.Legible)

/-! ### Primary expressions -/

theorem allPlaced_enclosedExpression? {a : Cursor} {ns ms : List Node} (h : AllPlaced ns)
    (hms : enclosedExpression? a ns = some ms) : AllPlaced ms := by
  unfold enclosedExpression? at hms
  dsimp only at hms
  split at hms
  · split at hms
    · cases hms
    · split at hms
      · cases hms
        exact h
      · cases hms
        have hbefore : AllPlaced (ns.takeWhile (!!·.isComment)) :=
          fun n hn => h n (List.takeWhile_subset _ hn)
        have hbehind : AllPlaced ((ns.reverse.takeWhile (!!·.isComment)).reverse) :=
          fun n hn => h n (List.mem_reverse.1 (List.takeWhile_subset _ (List.mem_reverse.1 hn)))
        refine allPlaced_append.2 ⟨hbefore, allPlaced_cons.2 ⟨?_, hbehind⟩⟩
        refine Fresh.placed ⟨legible_of_placed rfl fun n hn => ?_, rfl⟩
        have hmem := List.dropWhile_subset _ (List.mem_reverse.1 hn)
        exact h n (List.dropWhile_subset _ (List.mem_reverse.1 hmem))
  · cases hms

theorem yields_importExpression : Yields Fresh importExpression := by
  refine .behind fun a => .bind (yields_anyWord rfl) fun own hown => .orElse ?_ ?_
  · have hkeyword : Fresh { own with kind := Kind.token "import" } := hown.recast rfl (by nofun)
    exact .bind (yields_token ".") fun _ hdot => .bind (yields_word "meta") fun _ htarget =>
      .nodeSince a rfl (by simp [hkeyword, hdot, htarget])
  · exact .behind fun _ => .behind fun _ => .behind fun _ => .pure hown.toFresh

theorem yields_privateOperand : Yields Fresh privateOperand :=
  .bind yields_privateName fun _ hname => .behind fun _ => .behind fun _ => .pure hname.toFresh

section

include hg

theorem yields_templatePart : Yields AllPlaced (templatePart g) := by
  refine .behind fun cs => ?_
  split
  · split
    · exact .bind (.leaf rfl (by nofun) _) fun _ h => .pure (by simp [h])
    · refine .bind (.node rfl ?_) fun _ h => .pure (by simp [h])
      exact .bind (yields_here _) fun _ hopening =>
        .bind (yields_sub (yields_expressions hg .enclosed)) fun _ hinner =>
          .bind (yields_token _) fun _ hclosing => .pure (by simp [hopening, hinner, hclosing])
  · exact .bind (.leaf rfl (by nofun) _) fun _ h => .pure (by simp [h])

theorem yields_template : Yields Fresh (template g) :=
  .node rfl (.bind (yields_here _) fun _ hopening =>
    .bind (.many (yields_templatePart hg) _) fun _ hparts =>
      .bind (yields_here _) fun _ hclosing => .pure (by simp [hopening, hparts, hclosing]))

theorem yields_shorthand : Yields Fresh (shorthand g) := by
  refine .behind fun a => .bind (yields_nameWord rfl) fun name hname =>
    .orElse ?_ (.pure hname.toFresh)
  have htarget := hname.recast (k := .shorthandPropertyIdentifierPattern) rfl (by nofun)
  exact .bind (yields_token "=") fun _ hsign => .behind fun _ => .behind fun _ => .behind fun _ =>
    .bind (yields_part rfl (hg.expression .enclosed)) fun _ hvalue =>
      .nodeSince a rfl (by simp [htarget, hsign, hvalue])

theorem yields_keyedMember : Yields Fresh (keyedMember g) :=
  .behind fun a => .bind (yields_memberHead hg false) fun ⟨_, _⟩ hhead => .behind fun _ =>
    .ite (yields_methodRest hg a hhead.1 hhead.2) (.behind fun _ => .bind (yields_token ":")
      fun _ hcolon => .bind (yields_part rfl (hg.expression .enclosed)) fun _ hvalue =>
        .nodeSince a rfl (by simp [hhead, hcolon, hvalue]))

theorem yields_object : Yields Fresh (object g) :=
  .node rfl (.bind (yields_here _) fun _ hopening =>
    .bind (yields_commaList (.orElse (yields_spread hg)
      (.orElse (yields_keyedMember hg) (yields_shorthand hg))) _ _) fun _ hmembers =>
        .bind (yields_token _) fun _ hclosing => .pure (by simp [hopening, hmembers, hclosing]))

theorem yields_array : Yields Fresh (array g) :=
  .node rfl (.bind (yields_here "[") fun _ hopening =>
    .bind (yields_commaList (yields_listItem hg) "]" _) fun _ hitems =>
      .bind (yields_token "]") fun _ hclosing => .pure (by simp [hopening, hitems, hclosing]))

theorem yields_arrowRest (place : Place) : Yields AllPlaced (arrowRest g place) := by
  refine .bind (yields_continuation place) fun _ hcomments => .bind (yields_here "=>")
    fun _ harrow => .bind (yields_part rfl (.behind fun cs => ?_)) fun _ hbody =>
      .pure (by simp [hcomments, harrow, hbody])
  split
  · exact yields_block hg
  · exact hg.expression place

theorem yields_parenthesized (place : Place) : Yields Fresh (parenthesized g place) := by
  refine .behind fun a => .bind (yields_here "(") fun _ hopening =>
    .bind (yields_commaList (yields_listItem hg) ")" _) fun _ hitems =>
      .bind (yields_token ")") fun _ hclosing => .orElse ?_ ?_
  · dsimp only
    split
    · rename_i ps hps
      have hparameters := allLegible_parameterNodes? hitems hps
      exact .bind (.unnamedSince a rfl (fun _ => rfl) (by simp [hopening, hparameters, hclosing]))
        fun _ hparams => .bind (yields_arrowRest hg place) fun _ hrest =>
          .nodeSince a rfl (by simp [hparams, hrest])
    · exact .failed
  · split
    · rename_i inner hinner
      have hspelt := allPlaced_enclosedExpression? hitems hinner
      exact .nodeSince a rfl (by simp [hopening, hspelt, hclosing])
    · exact .failure

theorem yields_nameOrArrow (place : Place) : Yields Fresh (nameOrArrow g place) := by
  refine .behind fun a => .behind fun text => .bind yields_identifier fun name hname =>
    .orElse ?_ (.pure ?_)
  · exact .behind fun _ => .bind (yields_arrowRest hg place) fun _ hrest =>
      .nodeSince a rfl (by simp [hname, hrest])
  · split
    · exact hname.recast rfl (by nofun)
    · exact hname.toFresh

theorem yields_asynchronous (place : Place) : Yields Fresh (asynchronous g place) := by
  refine .behind fun a => .orElse ?_ (.orElse ?_ (yields_nameOrArrow hg place))
  · exact .behind fun _ => .behind fun _ => yields_functionExpression hg
  · refine .bind (yields_word "async") fun _ hkeyword => .behind fun _ => .behind fun _ =>
      .orElse ?_ ?_
    · exact .bind (yields_part rfl yields_identifier.whole.fresh) fun _ hname =>
        .bind (yields_arrowRest hg place) fun _ hrest =>
          .nodeSince a rfl (by simp [hkeyword, hname, hrest])
    · exact .bind (yields_part rfl (yields_formalParameters hg)) fun _ hparams =>
        .bind (yields_arrowRest hg place) fun _ hrest =>
          .nodeSince a rfl (by simp [hkeyword, hparams, hrest])

theorem yields_primary (place : Place) : Yields Fresh (primary g place) := by
  refine .behind fun cs => ?_
  split
  · exact yields_parenthesized hg place
  · exact yields_array hg
  · exact yields_object hg
  · exact yields_string.fresh
  · exact yields_string.fresh
  · exact yields_template hg
  · exact yields_regex
  · exact hg.element
  · exact yields_classExpression hg
  · exact yields_privateOperand
  · exact yields_number.whole.fresh
  · split
    · exact yields_number.whole.fresh
    · exact yields_functionExpression hg
    · exact yields_classExpression hg
    · exact yields_asynchronous hg place
    · exact (yields_anyWord rfl).whole.fresh
    · exact (yields_anyWord rfl).whole.fresh
    · exact (yields_anyWord rfl).whole.fresh
    · exact (yields_anyWord rfl).whole.fresh
    · exact (yields_anyWord rfl).whole.fresh
    · exact yields_importExpression
    · exact .failure
    · exact .failure
    · exact yields_nameOrArrow hg place

/-! ### Suffixes -/

omit hg in
theorem yields_propertyPart : Yields AllPlaced propertyPart :=
  yields_namePart (.orElse (yields_anyWord rfl).whole yields_privateName.whole)

theorem yields_indexPart : Yields AllPlaced (indexPart g) :=
  .bind (yields_here "[") fun _ hopening => .bind (yields_part rfl (yields_expressions hg .enclosed))
    fun _ hinner => .bind (yields_token "]") fun _ hclosing =>
      .pure (by simp [hopening, hinner, hclosing])

theorem yields_suffix (place : Place) (calls : Bool) (a : Cursor) {n : Node} (hn : n.Fresh) :
    Yields Fresh (suffix g place calls a n) := by
  refine .bind (yields_continuation place) fun comments hcomments => .behind fun cs => ?_
  have hupdate (text : String) : Yields Fresh (do
      let op ← here text
      nodeSince a .updateExpression (n.as .operand :: comments ++ [op.as .operator])) :=
    .bind (yields_here text) fun _ hop => .nodeSince a rfl (by simp [hn, hcomments, hop])
  split
  · exact .bind (yields_here ".") fun _ hdot => .bind yields_propertyPart fun _ hproperty =>
      .nodeSince a rfl (by simp [hn, hcomments, hdot, hproperty])
  · refine .behind fun _ => .bind (.leaf rfl (by nofun) _) fun _ hchain => .orElse ?_ (.orElse ?_ ?_)
    · exact .bind yields_propertyPart fun _ hproperty =>
        .nodeSince a rfl (by simp [hn, hcomments, hchain, hproperty])
    · exact .bind yields_lead fun _ hinner => .bind (yields_indexPart hg) fun _ hindex =>
        .nodeSince a rfl (by simp [hn, hcomments, hchain, hinner, hindex])
    · exact .behind fun _ => .bind (yields_part rfl (yields_arguments hg)) fun _ hargs =>
        .nodeSince a rfl (by simp [hn, hcomments, hchain, hargs])
  · exact .bind (yields_indexPart hg) fun _ hindex =>
      .nodeSince a rfl (by simp [hn, hcomments, hindex])
  · exact .bind (yields_template hg) fun _ htext =>
      .nodeSince a rfl (by simp [hn, hcomments, htext])
  · exact .behind fun _ => .bind (yields_arguments hg) fun _ hargs =>
      .nodeSince a rfl (by simp [hn, hcomments, hargs])
  · refine .behind fun _ => ?_
    split
    · exact hupdate "++"
    · exact hupdate "--"
    · exact .failure

theorem yields_suffixes (place : Place) (calls : Bool) (a : Cursor) (limit : Nat) {n : Node}
    (hn : n.Fresh) : Yields Fresh (suffixes g place calls a limit n) := by
  induction limit generalizing n with
  | zero => exact .pure hn
  | succ k ih =>
      intro c m d hread
      rw [suffixes] at hread
      dsimp only at hread
      split at hread
      · rename_i m' e hsuffix
        exact ih (yields_suffix hg place calls a hn c m' e hsuffix) e m d hread
      · cases hread
        exact hn

theorem yields_newExpression (place : Place) (limit : Nat) :
    Yields Fresh (newExpression g place limit) := by
  induction limit with
  | zero => exact .failure
  | succ k ih =>
      refine .behind fun a => .bind (yields_word "new") fun _ hkeyword => .orElse ?_ ?_
      · exact .bind (yields_token ".") fun _ hdot => .bind (yields_word "target") fun _ htarget =>
          .nodeSince a rfl (by simp [hkeyword, hdot, htarget])
      · refine .bind yields_lead fun _ hcomments => .behind fun b => .behind fun _ =>
          .choose ih (yields_primary hg place) fun _ hbase =>
            .bind (yields_suffixes hg place false b _ hbase) fun _ hctor => .behind fun _ =>
              .choose (Q := AllPlaced) ?_ (.pure allPlaced_nil) fun _ hargs =>
                .nodeSince a rfl (by simp [hkeyword, hcomments, hctor, hargs])
        exact .bind (yields_continuation place) fun _ hcomments => .bind (yields_arguments hg)
          fun _ hargs => .pure (by simp [hcomments, hargs])

/-! ### Operands -/

theorem yields_assignment (place : Place) (a : Cursor) {n : Node} (hn : n.Fresh) :
    Yields Fresh (assignment g place a n) := by
  refine .behind fun _ => .bind (yields_continuation place) fun _ hcomments => .behind fun cs => ?_
  split
  · dsimp only
    split
    · rename_i target htarget
      have hlegible := hn.legible.toTarget? htarget
      exact .bind (.pure hlegible) fun _ htarget => .bind (yields_here "=") fun _ hsign =>
        .bind (yields_part rfl (hg.expression place)) fun _ hvalue =>
          .nodeSince a rfl (by simp [htarget, hcomments, hsign, hvalue])
    · exact .failed
  · exact .behind fun _ => .bind (yields_here _) fun _ hsign =>
      .bind (yields_part rfl (hg.expression place)) fun _ hvalue =>
        .nodeSince a rfl (by simp [hn, hcomments, hsign, hvalue])
  · exact .failure

theorem yields_yieldOperand (place : Place) : Yields AllPlaced (yieldOperand g place) :=
  .optionally (.behind fun _ => .behind fun _ => .bind (.optionally (yields_token "*").placed)
    fun _ hstar => .bind (yields_sub (hg.expression place)) fun _ hvalue =>
      .pure (by simp [hstar, hvalue]))

theorem yields_operand (place : Place) : Yields Fresh (operand g place) := by
  refine .behind fun a => .behind fun cs => ?_
  have hupdate (text : String) : Yields Fresh (do
      let sign ← here text
      let value ← part .operand (g.operand place)
      nodeSince a .updateExpression (sign.as .operator :: value)) :=
    .bind (yields_here text) fun _ hsign => .bind (yields_part rfl (hg.operand place)) fun _ hvalue =>
      .nodeSince a rfl (by simp [hsign, hvalue])
  split
  · refine .bind (.leaf rfl (by simp) _) fun _ hsign =>
      .bind (yields_part_last (hg.operand place)) fun _ hvalue => .behind fun _ => ?_
    obtain ⟨comments, value, hparts, hcomments, hoperand⟩ := hvalue
    exact .pure ⟨legible_signed rfl (by rw [hparts]) hsign hcomments hoperand.legible, rfl⟩
  · split
    · exact hupdate "++"
    · exact hupdate "--"
    · exact .bind (yields_word "await") fun _ hkeyword => .bind (yields_sub (hg.operand place))
        fun _ hvalue => .nodeSince a rfl (by simp [hkeyword, hvalue])
    · exact .bind (yields_word "yield") fun _ hkeyword => .bind (yields_yieldOperand hg place)
        fun _ hvalue => .nodeSince a rfl (by simp [hkeyword, hvalue])
    · exact .choose (yields_newExpression hg place _) (yields_primary hg place) fun _ hbase =>
        .bind (yields_suffixes hg place true a _ hbase) fun _ hn =>
          .orElse (yields_assignment hg place a hn) (.pure hn)

theorem yields_climb (place : Place) (limit least : Nat) (a : Cursor) {n : Node} (hn : n.Fresh) :
    Yields Fresh (climb g place limit least a n) := by
  induction limit generalizing least a n with
  | zero => exact .pure hn
  | succ k ih =>
      refine .bind (Q := fun m? => ∀ m ∈ m?, m.Fresh)
        (.orElse (.bind (Q := Fresh) ?_ fun m hm => .pure (by simpa using hm))
          (.pure (by nofun))) fun m? hm? => ?_
      · refine .bind (yields_continuation place) fun _ hcomments => .behind fun cs => ?_
        split
        · exact .behind fun _ => .bind (.leaf rfl (by nofun) _) fun _ hsign => .bind yields_lead
            fun _ hinner => .behind fun b => .bind (hg.operand place) fun _ hfirst =>
              .bind (ih _ b hfirst) fun _ hright => .nodeSince a rfl
                (by simp [hn, hcomments, hsign, hinner, hright])
        · exact .failure
      · split
        · exact ih least a (hm? _ rfl)
        · exact .pure hn

theorem yields_expression (place : Place) : Yields Fresh (expression g place) :=
  .behind fun a => .bind (hg.operand place) fun _ hfirst =>
    .bind (yields_climb hg place _ 0 a hfirst) fun _ hn => .orElse
      (.bind (yields_continuation place) fun _ hcomments => .behind fun _ => .behind fun _ =>
        .bind (yields_here "?") fun _ hmark => .bind (yields_sub (hg.expression .enclosed))
          fun _ hyes => .bind (yields_token ":") fun _ hcolon =>
            .bind (yields_sub (hg.expression place)) fun _ hno =>
              .nodeSince a rfl (by simp [hn, hcomments, hmark, hyes, hcolon, hno]))
      (.pure hn)

end

/-! ### Markup -/

theorem yields_markupWord {k : Kind} (hk : k.isLeaf = true) : Yields Bare (markupWord k) := by
  refine .ahead fun c n d hread => ?_
  by_cases hlength : markupNameLength c.rest = 0
  · rw [hlength] at hread
    cases hread
  · have hrequire : (markupNameLength c.rest != 0) = true := by simpa using hlength
    rw [hrequire] at hread
    refine bare_leaf hk (Nat.pos_of_ne_zero hlength) (fun hnil => hlength ?_) hread
    rw [hnil]
    rfl

theorem yields_dottedName (a : Cursor) (limit : Nat) {n : Node} (hn : n.Fresh) :
    Yields Fresh (dottedName a limit n) := by
  induction limit generalizing n with
  | zero => exact .pure hn
  | succ k ih =>
      exact .orElse (.bind (yields_token ".") fun _ hdot =>
        .bind (yields_namePart (yields_markupWord rfl).whole) fun _ hproperty =>
          .bind (.nodeSince a rfl (by simp [hn, hdot, hproperty])) fun _ hm => ih hm)
        (.pure hn)

theorem yields_markupName {plain : Kind} (hk : plain.isLeaf = true) :
    Yields Fresh (markupName g plain) := by
  have hword : Yields Bare (markupWord plain) := yields_markupWord hk
  exact .behind fun a => .bind hword fun _ hfirst => .orElse
    (.bind (yields_token ":") fun _ hcolon => .bind (yields_sub hword.whole.fresh)
      fun _ hsecond => .nodeSince a rfl (by simp [hfirst, hcolon, hsecond]))
    (yields_dottedName a _ hfirst.toFresh)

theorem yields_elementText : Yields Fresh elementText :=
  .behind fun _ => .behind fun _ => (Yields.leaf rfl (by nofun) _).whole.fresh

theorem yields_characterReference : Yields Fresh characterReference := by
  refine .behind fun cs => ?_
  split
  · split
    · exact .behind fun _ => (Yields.leaf rfl (by nofun) _).whole.fresh
    · exact .failure
  · exact .failure

theorem yields_closingTag : Yields Fresh (closingTag g) :=
  .unnamed rfl (fun _ => rfl) (.bind (yields_here "<") fun _ hopening => .bind (yields_token "/")
    fun _ hslash => .bind (.optionally_of allLegible_nil (yields_freePart (yields_markupName rfl)))
      fun _ hname => .bind (yields_token ">") fun _ hclosing =>
        .pure (by simp [hopening, hslash, hname, hclosing]))

section

include hg

theorem yields_embedded : Yields Fresh (embedded g) :=
  .node rfl (.bind (yields_here _) fun _ hopening =>
    .bind (.optionally (yields_sub (.orElse (yields_spread hg) (yields_expressions hg .enclosed))))
      fun _ hinner => .bind (yields_token _) fun _ hclosing =>
        .pure (by simp [hopening, hinner, hclosing]))

theorem yields_attributeValue : Yields Fresh (attributeValue g) := by
  refine .behind fun cs => ?_
  split
  · exact hg.element
  · exact yields_embedded hg
  · exact .behind fun _ => .behind fun _ => .plainString _
  · exact .failure

theorem yields_markupAttribute : Yields AllPlaced (markupAttribute g) := by
  refine .bind yields_lead fun _ hcomments => .behind fun cs => ?_
  split
  · exact .bind (yields_embedded hg) fun _ h => .pure (by simp [hcomments, h])
  · refine .bind (.node rfl (.bind (yields_markupName rfl) fun _ hname =>
      .bind (.optionally ?_) fun _ hvalue => .pure (by simp [hname, hvalue])))
      fun _ h => .pure (by simp [hcomments, h])
    exact .bind (yields_token "=") fun _ hsign => .bind (yields_sub (yields_attributeValue hg))
      fun _ hv => .pure (by simp [hsign, hv])

theorem yields_elementChild : Yields AllPlaced (elementChild g) := by
  refine .behind fun cs => ?_
  split
  · exact .failure
  · exact .bind hg.element fun _ h => .pure (by simp [h])
  · exact .bind (yields_embedded hg) fun _ h => .pure (by simp [h])
  · exact .bind yields_characterReference fun _ h => .pure (by simp [h])
  · exact .bind yields_elementText fun _ h => .pure (by simp [h])

theorem yields_element : Yields Fresh (element g) := by
  refine .behind fun a => .bind (yields_here "<") fun _ hopening =>
    .bind (.optionally_of allLegible_nil (yields_freePart (yields_markupName rfl))) fun _ hname =>
      .choose (.pure allPlaced_nil) (.many (yields_markupAttribute hg) _) fun _ hattributes =>
        .orElse (.behind fun _ => ?_) ?_
  · exact .bind (yields_token "/") fun _ hslash => .bind (yields_token ">") fun _ hclosing =>
      .unnamedSince a rfl (fun _ => rfl) (by simp [hopening, hname, hattributes, hslash, hclosing])
  · exact .bind (yields_token ">") fun _ hclosing => .bind (.unnamedSince a rfl (fun _ => rfl)
      (by simp [hopening, hname, hattributes, hclosing]))
        fun _ htag => .bind (.many (yields_elementChild hg) _) fun _ hchildren =>
          .bind yields_closingTag fun _ hclose =>
            .nodeSince a rfl (by simp [htag, hchildren, hclose])

end

end Ambient.Source
