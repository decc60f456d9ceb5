import Ambient.Proofs.Source.Yield
import Ambient.Source.Grammar

/-!
# Patterns, members and functions are legible

Turning an expression into the pattern it spells puts nothing into a name, and the common parts of
the grammar yield legible nodes when the readers that they call back into do.  One lemma for each
reader, in the order in which the readers are defined.
-/

namespace Ambient

namespace Node

/-! ### Patterns -/

theorem legible_restItem {n : Node} (h : AllLegible n.children) : n.restItem.Legible := by
  rw [Node.restItem]
  split
  · exact legible_of_unnamed rfl (fun _ => rfl) h
  · rename_i inner hinner
    have hlegible : inner.Legible := h inner (List.mem_of_find?_eq_some hinner)
    split
    · rename_i target others hchildren
      have hparts := hlegible.inner
      rw [hchildren, allLegible_cons] at hparts
      have hbefore : AllLegible (n.children.takeWhile (·.kind != .assignmentPattern)) :=
        fun c hc => h c (List.takeWhile_subset _ hc)
      have htarget : Legible { target with role := none } := legible_withRole.2 hparts.1
      refine legible_of_unnamed rfl (fun _ => rfl)
        (allLegible_cons.2 ⟨legible_of_unnamed rfl (fun _ => rfl) ?_, hparts.2⟩)
      exact allLegible_append.2 ⟨hbefore, by simp [htarget]⟩
    · exact legible_of_unnamed rfl (fun _ => rfl) h

theorem legible_restPattern? {n m : Node} (h : AllLegible n.children)
    (hm : n.restPattern? = some m) : m.Legible := by
  rw [Node.restPattern?] at hm
  split at hm
  · cases hm
  · cases hm
    exact legible_of_unnamed rfl (fun _ => rfl) h

theorem allLegible_of_bind {first? : Option Node} {others? : Option (List Node)} {ms : List Node}
    (hfirst : ∀ n, first? = some n → n.Legible)
    (hothers : ∀ ns, others? = some ns → AllLegible ns)
    (h : (first?.bind fun first => others?.bind fun others => pure (first :: others)) = some ms) :
    AllLegible ms := by
  obtain ⟨first, h₁, h⟩ := Option.bind_eq_some_iff.1 h
  obtain ⟨others, h₂, h⟩ := Option.bind_eq_some_iff.1 h
  cases h
  exact allLegible_cons.2 ⟨hfirst first h₁, hothers others h₂⟩

theorem role_restItem (n : Node) : n.restItem.role = n.role := by
  rw [Node.restItem]
  split
  · rfl
  · split <;> rfl

theorem role_toPattern? {n m : Node} (h : n.toPattern? = some m) : m.role = n.role := by
  obtain ⟨k, r, t, l, s, cs⟩ := n
  cases k <;> simp only [toPattern?, Option.map_eq_some_iff, reduceCtorEq] at h
  case identifier | undefinedValue | memberExpression | subscriptExpression | objectPattern |
      arrayPattern =>
    cases h
    rfl
  case object | array =>
    obtain ⟨ds, -, rfl⟩ := h
    rfl
  case spreadElement =>
    obtain ⟨ds, -, rfl⟩ := h
    exact role_restItem _
  case assignmentExpression =>
    split at h
    · cases h
    · cases h
      rfl

/-- Only the value of a pair changes when it becomes a pattern. -/
theorem mem_or_value_of_valuePatterns? {ns ms : List Node} (h : valuePatterns? ns = some ms) :
    ∀ m ∈ ms, m ∈ ns ∨ m.role = some .value := by
  induction ns generalizing ms with
  | nil =>
      cases h
      nofun
  | cons c cs ih =>
      have hlater {others : List Node} (hothers : valuePatterns? cs = some others) :
          ∀ m ∈ others, m ∈ c :: cs ∨ m.role = some .value :=
        fun m hm => (ih hothers m hm).imp_left (List.mem_cons_of_mem c)
      rw [valuePatterns?] at h
      split at h
      · rename_i hvalue
        obtain ⟨first, hfirst, h⟩ := Option.bind_eq_some_iff.1 h
        obtain ⟨others, hothers, h⟩ := Option.bind_eq_some_iff.1 h
        cases h
        exact List.forall_mem_cons.2
          ⟨.inr ((role_toPattern? hfirst).trans (eq_of_beq hvalue)), hlater hothers⟩
      · obtain ⟨first, hfirst, h⟩ := Option.bind_eq_some_iff.1 h
        obtain ⟨others, hothers, h⟩ := Option.bind_eq_some_iff.1 h
        cases hfirst
        cases h
        exact List.forall_mem_cons.2 ⟨.inl (List.mem_cons_self ..), hlater hothers⟩

mutual

/-- The pattern that a legible expression spells is legible. -/
theorem legible_toPattern? : ∀ (n : Node) {m : Node}, n.Legible → n.toPattern? = some m → m.Legible
  | ⟨k, r, t, l, s, cs⟩, m, hn, hm => by
    have hcs : AllLegible cs := hn.inner
    cases k <;> simp only [toPattern?, Option.map_eq_some_iff, reduceCtorEq] at hm
    case identifier | undefinedValue | memberExpression | subscriptExpression | objectPattern |
        arrayPattern =>
      cases hm
      exact hn
    case object =>
      obtain ⟨ds, hds, rfl⟩ := hm
      exact legible_of_unnamed rfl (fun _ => rfl) (allLegible_fieldPatterns? cs hcs hds)
    case array =>
      obtain ⟨ds, hds, rfl⟩ := hm
      exact legible_of_unnamed rfl (fun _ => rfl) (allLegible_itemPatterns? cs hcs hds)
    case spreadElement =>
      obtain ⟨ds, hds, rfl⟩ := hm
      exact legible_restItem (allLegible_itemPatterns? cs hcs hds)
    case assignmentExpression =>
      split at hm
      · cases hm
      · cases hm
        exact legible_of_unnamed rfl (fun _ => rfl) hcs

theorem allLegible_itemPatterns? :
    ∀ (ns : List Node) {ms : List Node}, AllLegible ns → itemPatterns? ns = some ms → AllLegible ms
  | [], ms, _, hms => by
    cases hms
    exact allLegible_nil
  | c :: cs, ms, hns, hms => by
    obtain ⟨hc, hcs⟩ := allLegible_cons.1 hns
    have hothers (ds : List Node) (h : itemPatterns? cs = some ds) : AllLegible ds :=
      allLegible_itemPatterns? cs hcs h
    rw [itemPatterns?] at hms
    split at hms
    · exact allLegible_of_bind (fun n h => legible_toPattern? c hc h) hothers hms
    · exact allLegible_of_bind (fun n h => Option.some.inj h ▸ hc) hothers hms

theorem allLegible_fieldPatterns? :
    ∀ (ns : List Node) {ms : List Node}, AllLegible ns → fieldPatterns? ns = some ms → AllLegible ms
  | [], ms, _, hms => by
    cases hms
    exact allLegible_nil
  | ⟨k, r, t, l, s, ds⟩ :: cs, ms, hns, hms => by
    obtain ⟨hc, hcs⟩ := allLegible_cons.1 hns
    have hds : AllLegible ds := hc.inner
    have hothers (es : List Node) (h : fieldPatterns? cs = some es) : AllLegible es :=
      allLegible_fieldPatterns? cs hcs h
    have hnone : ∀ n : Node, none = some n → n.Legible := by nofun
    unfold fieldPatterns? at hms
    dsimp only at hms
    split at hms
    · refine allLegible_of_bind (fun n h => ?_) hothers hms
      obtain ⟨es, hes, rfl⟩ := Option.map_eq_some_iff.1 h
      -- The key stays as it is, so it is still closed.
      refine legible_of_named rfl (allLegible_valuePatterns? ds hds hes) fun {q} hq c hc' hrole => ?_
      rcases mem_or_value_of_valuePatterns? hes c hc' with hmem | hvalue
      · exact hc.own.named (r := .key) rfl c hmem (by grind [Kind.isNamedBy])
      · grind [Kind.isNamedBy]
    · refine allLegible_of_bind (fun n h => ?_) hothers hms
      cases h
      exact legible_of_children_eq_nil (hc.own.leaf rfl) rfl (by nofun)
    · refine allLegible_of_bind (fun n h => ?_) hothers hms
      obtain ⟨es, hes, hrest⟩ := Option.bind_eq_some_iff.1 h
      exact legible_restPattern? (allLegible_itemPatterns? ds hds hes) hrest
    · exact allLegible_of_bind (fun n h => Option.some.inj h ▸ hc) hothers hms
    · exact allLegible_of_bind (fun n h => Option.some.inj h ▸ hc) hothers hms
    · exact allLegible_of_bind (fun n h => Option.some.inj h ▸ hc) hothers hms
    · exact allLegible_of_bind (fun n h => Option.some.inj h ▸ hc) hothers hms
    · exact allLegible_of_bind hnone hothers hms

theorem allLegible_valuePatterns? :
    ∀ (ns : List Node) {ms : List Node}, AllLegible ns → valuePatterns? ns = some ms → AllLegible ms
  | [], ms, _, hms => by
    cases hms
    exact allLegible_nil
  | c :: cs, ms, hns, hms => by
    obtain ⟨hc, hcs⟩ := allLegible_cons.1 hns
    have hothers (ds : List Node) (h : valuePatterns? cs = some ds) : AllLegible ds :=
      allLegible_valuePatterns? cs hcs h
    rw [valuePatterns?] at hms
    split at hms
    · exact allLegible_of_bind (fun n h => legible_toPattern? c hc h) hothers hms
    · exact allLegible_of_bind (fun n h => Option.some.inj h ▸ hc) hothers hms

end

theorem Legible.toTarget? {n m : Node} (h : n.Legible) (hm : n.toTarget? = some m) : m.Legible := by
  rw [Node.toTarget?] at hm
  split at hm
  · exact legible_toPattern? n h hm
  · cases hm
    exact h

theorem Fresh.toPattern? {n m : Node} (h : n.Fresh) (hm : n.toPattern? = some m) : m.Fresh :=
  ⟨legible_toPattern? n h.legible hm, (role_toPattern? hm).trans h.role⟩

end Node

namespace Source

open Node Reader

/-- The readers of the grammar yield legible nodes. -/
structure Grammar.Legible (g : Grammar) : Prop where
  expression (place : Place) : Yields Fresh (g.expression place)
  operand (place : Place) : Yields Fresh (g.operand place)
  statement : Yields Fresh g.statement
  element : Yields Fresh g.element

theorem Grammar.legible_empty (limit : Nat) : (Grammar.empty limit).Legible where
  expression _ := .failure
  operand _ := .failure
  statement := .failure
  element := .failure

/-! ### Lists of items -/

theorem yields_commaList {item : Reader Node} (h : Yields Fresh item) (closing : String)
    (limit : Nat) : Yields AllPlaced (commaList item closing limit) := by
  induction limit with
  | zero => exact .failure
  | succ n ih =>
      refine .bind yields_lead fun _ hcomments => .behind fun cs => ?_
      split
      · exact .pure hcomments.placed
      · refine .behind fun cs => ?_
        split
        · exact .bind (yields_here ",") fun _ hcomma => .bind ih fun _ hrest =>
            .pure (by simp [hcomments, hcomma, hrest])
        · refine .bind h fun _ hfirst => .behind fun more => ?_
          split
          · exact .bind (yields_token ",") fun _ hcomma => .bind ih fun _ hrest =>
              .pure (by simp [hcomments, hfirst, hcomma, hrest])
          · exact .bind yields_lead fun _ hrest => .pure (by simp [hcomments, hfirst, hrest])

theorem allLegible_parameterNodes? {ns ms : List Node} (h : AllPlaced ns)
    (hms : parameterNodes? ns = some ms) : AllLegible ms := by
  rw [parameterNodes?] at hms
  split at hms
  · exact allLegible_itemPatterns? ns h.legible hms
  · cases hms

/-! ### Words before a name -/

theorem yields_modifier (ended : Bool) (text : String) : Yields AllPlaced (modifier ended text) :=
  .bind yields_gap fun _ hcomments => .behind fun _ => .behind fun _ =>
    .bind (.leaf rfl (by nofun) _) fun _ hown => .behind fun _ => .behind fun _ => .behind fun _ =>
      .behind fun _ => .pure (by simp [hcomments, hown])

theorem yields_staticWord (ended : Bool) : Yields AllPlaced (staticWord ended) := by
  refine .orElse (.bind yields_gap fun _ hcomments => .behind fun cs => ?_)
    (yields_modifier ended "static")
  split
  · exact .bind (.leaf rfl (by nofun) _) fun _ hwords => .pure (by simp [hcomments, hwords])
  · exact .failure

theorem yields_modifiers (ended : Bool) : Yields AllPlaced (modifiers ended) :=
  .bind (.optionally (yields_staticWord ended)) fun _ hfirst =>
    .bind (.optionally (yields_modifier ended "async")) fun _ hsecond =>
      .bind (.optionally (.orElse (yields_modifier ended "get")
        (.orElse (yields_modifier ended "set") (yields_token "*").placed))) fun _ hthird =>
          .pure (by simp [hfirst, hsecond, hthird])

section

variable {g : Grammar} (hg : g.Legible)

include hg

/-! ### Expressions in lists -/

theorem yields_expressions (place : Place) : Yields Fresh (expressions g place) := by
  refine .behind fun a => .bind (hg.expression place) fun first hfirst => .bind (.many ?_ _)
    fun others hothers => ?_
  · exact .bind (yields_continuation place) fun _ hcomments => .bind (yields_here ",") fun _ hcomma =>
      .bind (yields_sub (hg.expression place)) fun _ hnext =>
        .pure (by simp [hcomments, hcomma, hnext])
  · exact .ite (.pure hfirst) (.nodeSince a rfl (by simp [hfirst, hothers]))

theorem yields_spread : Yields Fresh (spread g) :=
  .node rfl (.bind (yields_here "...") fun _ hdots =>
    .bind (yields_sub (hg.expression .enclosed)) fun _ hvalue => .pure (by simp [hdots, hvalue]))

theorem yields_listItem : Yields Fresh (listItem g) :=
  .orElse (yields_spread hg) (hg.expression .enclosed)

theorem yields_formalParameters : Yields Fresh (formalParameters g) := by
  refine .unnamed rfl (fun _ => rfl) (.bind (yields_here "(") fun _ hopening =>
    .bind (yields_commaList (yields_listItem hg) ")" _) fun _ hitems =>
      .bind (yields_token ")") fun _ hclosing => ?_)
  split
  · rename_i ps hps
    have hparameters := allLegible_parameterNodes? hitems hps
    exact .pure (by simp [hopening, hparameters, hclosing])
  · exact .failure

theorem yields_arguments : Yields Fresh (arguments g) :=
  .node rfl (.bind (yields_here "(") fun _ hopening =>
    .bind (yields_commaList (yields_listItem hg) ")" _) fun _ hitems =>
      .bind (yields_token ")") fun _ hclosing => .pure (by simp [hopening, hitems, hclosing]))

/-! ### Blocks and names -/

theorem yields_statements : Yields AllPlaced (statements g) :=
  .bind (.many (yields_sub hg.statement) _) fun _ hbody =>
    .bind yields_lead fun _ hcomments => .pure (by simp [hbody, hcomments])

theorem yields_block : Yields Fresh (block g) :=
  .node rfl (.bind (yields_here _) fun _ hopening =>
    .bind (yields_statements hg) fun _ hbody =>
      .bind (yields_token _) fun _ hclosing => .pure (by simp [hopening, hbody, hclosing]))

theorem yields_computedName : Yields Whole (computedName g) :=
  .closed rfl rfl (.bind (yields_here "[") fun _ hopening =>
    .bind (yields_sub (hg.expression .enclosed)) fun _ hinner =>
      .bind (yields_token "]") fun _ hclosing => .pure (by simp [hopening, hinner, hclosing]))

theorem yields_propertyName : Yields Whole (propertyName g) :=
  .orElse (yields_anyWord rfl).whole (.orElse yields_privateName.whole (.orElse yields_string
    (.orElse yields_number.whole (yields_computedName hg))))

/-! ### Decorators -/

theorem yields_decoratorTarget (limit : Nat) (a : Cursor) {n : Node} (hn : n.Fresh) :
    Yields Fresh (decoratorTarget g limit a n) := by
  induction limit generalizing n with
  | zero => exact .pure hn
  | succ k ih =>
      refine .orElse ?_ (.orElse ?_ (.pure hn))
      · exact .bind (yields_token ".") fun _ hdot => .bind (yields_namePart (yields_anyWord rfl).whole)
          fun _ hname => .bind (.nodeSince a rfl (by simp [hn, hdot, hname]))
            fun _ hm => ih hm
      · exact .bind yields_gap fun _ hcomments => .bind (yields_arguments hg) fun _ hargs =>
          .nodeSince a rfl (by simp [hn, hcomments, hargs])

theorem yields_decorator : Yields Fresh (decorator g) :=
  .node rfl (.bind (yields_here "@") fun _ hsign => .bind yields_lead fun _ hcomments =>
    .behind fun a => .bind yields_identifier fun _ hn =>
      .bind (yields_decoratorTarget hg _ a hn.toFresh) fun _ htarget =>
        .pure (by simp [hsign, hcomments, htarget]))

theorem yields_decorators_inClass : Yields AllInClass (decorators g) :=
  .many_all (yields_sub_inClass (yields_decorator hg)) _

theorem yields_decorators : Yields AllPlaced (decorators g) :=
  (yields_decorators_inClass hg).imp fun _ h n hn => (h n hn).toPlaced

/-! ### Functions and classes -/

theorem yields_memberHead (ended : Bool) :
    Yields (fun r => AllPlaced r.1 ∧ r.2.Whole) (memberHead g ended) :=
  .bind (yields_decorators hg) fun _ hmarks => .bind (yields_modifiers ended) fun _ hmods =>
    .bind yields_lead fun _ hcomments => .bind (yields_propertyName hg) fun _ hname =>
      .pure (by simp [hmarks, hmods, hcomments, hname])

theorem yields_methodRest (a : Cursor) {before : List Node} {name : Node}
    (hbefore : AllPlaced before) (hname : name.Whole) :
    Yields Fresh (methodRest g a before name) :=
  .bind yields_gap fun _ hcomments => .bind (yields_formalParameters hg) fun _ hparams =>
    .bind (yields_part rfl (yields_block hg)) fun _ hbody =>
      .nodeSince a rfl (by simp [hbefore, hname, hcomments, hparams, hbody])

theorem yields_functionParts (named : Bool) :
    Yields (fun r => AllPlaced r.2) (functionParts g named) :=
  .bind (.optionally (yields_word "async").placed) fun _ hasync =>
    .bind (yields_word "function") fun _ hkeyword => .bind (.optionally (yields_token "*").placed)
      fun _ hstar => .choose (yields_namePart yields_identifier.whole)
        (.optionally (yields_namePart yields_identifier.whole)) fun _ hname =>
          .bind yields_lead fun _ hcomments => .bind (yields_formalParameters hg) fun _ hparams =>
            .bind (yields_part rfl (yields_block hg)) fun _ hbody =>
              .pure (by simp [hasync, hkeyword, hstar, hname, hcomments, hparams, hbody])

theorem yields_functionExpression : Yields Fresh (functionExpression g) := by
  refine .behind fun a => .bind (yields_functionParts hg false) fun r hchildren =>
    .nodeSince a ?_ hchildren
  split <;> rfl

theorem yields_staticBlock : Yields Fresh (staticBlock g) :=
  .node rfl (.bind (yields_word "static") fun _ hkeyword =>
    .bind (yields_part rfl (yields_block hg)) fun _ hbody => .pure (by simp [hkeyword, hbody]))

theorem yields_methodOrField : Yields AllPlaced (methodOrField g) := by
  refine .behind fun a => .bind (yields_memberHead hg true) fun ⟨before, name⟩ hhead =>
    .behind fun ended => .behind fun _ => .ite ?_ (.behind fun _ => ?_)
  · exact .bind (yields_methodRest hg a hhead.1 hhead.2) fun _ h => .pure (by simp [h])
  · refine .choose (.pure allPlaced_nil) (.optionally ?_) fun value hvalue => ?_
    · exact .bind (yields_token "=") fun _ hsign =>
        .bind (yields_part rfl (hg.expression .loose)) fun _ hv => .pure (by simp [hsign, hv])
    · exact .bind (.nodeSince a rfl (by simp [hhead, hvalue])) fun _ hfield =>
        .bind (yields_semicolon _) fun _ hend => .pure (by simp [hfield, hend])

theorem yields_classMember : Yields AllPlaced (classMember g) := by
  refine .bind yields_lead fun _ hcomments => .behind fun cs => ?_
  split
  · exact .bind (yields_here ";") fun _ hsign => .pure (by simp [hcomments, hsign])
  · exact .failure
  · exact .orElse
      (.bind (yields_staticBlock hg) fun _ hblock => .pure (by simp [hcomments, hblock]))
      (.bind (yields_methodOrField hg) fun _ hmember => .pure (by simp [hcomments, hmember]))

theorem yields_classBody : Yields Fresh (classBody g) :=
  .node rfl (.bind (yields_here _) fun _ hopening =>
    .bind (.many (yields_classMember hg) _) fun _ hmembers => .bind yields_lead fun _ hcomments =>
      .bind (yields_token _) fun _ hclosing =>
        .pure (by simp [hopening, hmembers, hcomments, hclosing]))

theorem yields_heritage : Yields Fresh (heritage g) :=
  .node rfl (.bind (yields_word "extends") fun _ hkeyword =>
    .bind (yields_sub (hg.expression .enclosed)) fun _ hbase => .pure (by simp [hkeyword, hbase]))

omit hg in
theorem yields_className : Yields AllInClass (part .name identifier) := by
  refine (yields_part_last yields_identifier.whole).imp ?_
  rintro _ ⟨comments, n, rfl, hcomments, hn⟩
  simp [hcomments, inClass_as_name hn]

theorem yields_classBodyPart : Yields AllInClass (part .body (classBody g)) := by
  refine (yields_part_last ((yields_classBody hg).and .kind_node)).imp ?_
  rintro _ ⟨comments, n, rfl, hcomments, hn, hk⟩
  simp [hcomments, inClass_as_body hn hk]

theorem yields_classParts (named : Bool) : Yields AllInClass (classParts g named) := by
  have hown : Yields AllInClass (do
      require ((← upcomingWord) != "extends")
      part .name identifier) :=
    .behind fun _ => .behind fun _ => yields_className
  exact .bind (yields_decorators_inClass hg) fun _ hmarks =>
    .bind (yields_word "class") fun _ hkeyword =>
      .choose hown (.optionally_of allInClass_nil hown) fun _ hname =>
        .bind (.optionally_of allInClass_nil (yields_sub_inClass (yields_heritage hg)))
          fun _ hbase => .bind (yields_classBodyPart hg) fun _ hbody =>
            .pure (by simp [hmarks, hkeyword, hname, hbase, hbody])

theorem yields_classExpression : Yields Fresh (classExpression g) :=
  .classNode rfl (yields_classParts hg false)

end

end Source

end Ambient
