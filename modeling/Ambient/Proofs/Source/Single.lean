import Ambient.Proofs.Source.Spelling
import Ambient.Source.Program

/-!
# Sources of one statement

Nothing is read at the end of a source, however deep its grammar is; so a source that holds one
statement behind blanks is the program of that statement.
-/

namespace Ambient

/-! ### What depends on the code alone -/

namespace Node

mutual

theorem code_code (n : Node) : n.code.code = n.code := by
  cases n with
  | mk k role text line start cs => rw [code, code, codes_codes cs]

theorem codes_codes (ns : List Node) : codes (codes ns) = codes ns := by
  cases ns with
  | nil => rfl
  | cons n ns => rw [codes, codes, code_code n, codes_codes ns]

end

mutual

theorem isSound_code (n : Node) : n.code.isSound = n.isSound := by
  cases n with
  | mk k role text line start cs =>
      have hkinds : (fun c : Node => c.kind == .objectAssignmentPattern) ∘ code =
          fun c => c.kind == .objectAssignmentPattern :=
        funext fun c => by rw [Function.comp_apply, kind_code]
      rw [code, isSound, isSound, areSound_codes cs, codes_eq_map, List.any_map, hkinds]

theorem areSound_codes (ns : List Node) : areSound (codes ns) = areSound ns := by
  cases ns with
  | nil => rfl
  | cons n ns => rw [codes, areSound, areSound, isSound_code n, areSound_codes ns]

end

theorem isSound_of_code {tree n : Node} (hkind : tree.kind ≠ .object)
    (hchildren : tree.children.map code = [n]) (hn : n.isSound = true) : tree.isSound = true := by
  have hsound : areSound tree.children = true := by
    rw [← areSound_codes, codes_eq_map, hchildren, areSound, hn]
    rfl
  cases tree with
  | mk k role text line start cs =>
      have hk : (k == Kind.object) = false := beq_false_of_ne hkind
      rw [isSound, hk, hsound]
      rfl

end Node

namespace Source

open Reader

/-! ### The end of a source -/

/-- Nothing is read at the end of a source. -/
structure Grammar.Stops (g : Grammar) : Prop where
  expression (place : Place) : Fails (g.expression place) []
  operand (place : Place) : Fails (g.operand place) []
  statement : Fails g.statement []

theorem stops_empty (limit : Nat) : (Grammar.empty limit).Stops :=
  ⟨fun _ => .failure, fun _ => .failure, .failure⟩

theorem fails_primary (g : Grammar) (place : Place) : Fails (primary g place) [] := by
  have hnumber : Fails number [] := .ahead (.require rfl)
  refine .ahead ?_
  rw [wordAt_of_isWordless rfl]
  exact hnumber

theorem fails_operand (g : Grammar) (place : Place) : Fails (operand g place) [] := by
  have hunary : unaryAt [] = none := by decide
  have hoperator : operatorAt [] = none := by decide
  refine .get fun a => .ahead ?_
  rw [hunary, hoperator, wordAt_of_isWordless rfl]
  exact .bind (fails_primary g place)

theorem fails_declaration (g : Grammar) : Fails (declaration g) [] := by
  refine fails_wordHere ?_
  rw [wordAt_of_isWordless rfl]
  exact .ahead .failure

theorem fails_labeledStatement (g : Grammar) : Fails (labeledStatement g) [] := by
  refine .node (fails_wordHere ?_)
  rw [wordAt_of_isWordless rfl]
  exact .past rfl (.bind (fails_nameWord _ rfl))

theorem stops_layer {g : Grammar} (h : g.Stops) : (layer g).Stops where
  expression place := .get fun a => .bind (h.operand place)
  operand := fails_operand g
  statement := by
    have hexpression : Fails (expressionStatement g) [] :=
      .node (.bind (.get fun a => .bind (h.expression .loose)))
    refine .ahead ?_
    rw [wordAt_of_isWordless rfl]
    exact .orElse (fails_declaration g) (.orElse (fails_labeledStatement g) hexpression)

theorem layers_succ (n : Nat) (g : Grammar) : layers (n + 1) g = layer (layers n g) := by
  induction n generalizing g with
  | zero => rfl
  | succ n ih => rw [layers, ih, layers]

theorem limit_layers (n : Nat) (g : Grammar) : (layers n g).limit = g.limit := by
  induction n with
  | zero => rfl
  | succ n ih => rw [layers_succ, layer, ih]

theorem stops_layers {g : Grammar} (h : g.Stops) (n : Nat) : (layers n g).Stops := by
  induction n with
  | zero => exact h
  | succ n ih =>
      rw [layers_succ]
      exact stops_layer ih

/-! ### Whole sources -/

variable {blanks text : List Char} {n : Node}

theorem takes_hashBang {cs : List Char} (h : cs.head? ≠ some '#') :
    Takes hashBang [] cs (· = []) := by
  refine .ahead ?_
  split
  next heq =>
    rw [List.nil_append] at heq
    rw [heq] at h
    exact absurd rfl h
  next => exact .pure rfl

theorem takes_program {g : Grammar} (hg : g.Stops) (hlimit : 0 < g.limit)
    (hblanks : blanks.all isSpace = true) (hhead : (blanks ++ text).head? ≠ some '#')
    (hsolid : isSolid text = true) (hne : text ≠ [])
    (hread : Takes g.statement text [] (·.code = n)) :
    Takes (program g) (blanks ++ text) [] fun tree =>
      tree.kind = .program ∧ tree.children.map Node.code = [n] := by
  have hstatements : Takes (statements g) text [] (·.map Node.code = [n]) := by
    have hone : Takes (many (sub g.statement) g.limit) text [] (·.map Node.code = [n]) :=
      .single (takes_sub [] rfl (by rwa [List.append_nil]) hread) hne
        (fails_sub [] rfl rfl hg.statement) hlimit
    refine hone.before fun body hbody => (takes_lead [] rfl rfl).last fun rest hrest => ?_
    subst hrest
    rw [List.append_nil, hbody]
  refine .get fun a _ => (takes_hashBang (by rwa [List.append_nil])).after fun line hline =>
    (takes_lead blanks hblanks (by rwa [List.append_nil])).bind fun comments hcomments =>
      hstatements.before fun body hbody => ?_
  subst hline hcomments
  obtain ⟨m, rfl, hm⟩ := List.map_eq_singleton_iff.1 hbody
  exact .ahead (.require rfl (.get fun b _ => .pure ⟨rfl, hbody⟩))

/-- A source of one statement is read as the program of that statement. -/
theorem parse?_of_takes (hblanks : blanks.all isSpace = true)
    (hhead : (blanks ++ text).head? ≠ some '#') (hsolid : isSolid text = true) (hne : text ≠ [])
    (hsound : n.isSound = true)
    (hread : ∀ g : Grammar, 0 < g.limit → Takes (statement g) text [] (·.code = n)) :
    ∃ tree, parse? (String.ofList (blanks ++ text)) = some tree ∧ tree.kind = .program ∧
      tree.children.map Node.code = [n] := by
  have hstops : ∀ m, (layers m (.empty ((blanks ++ text).length + 1))).Stops :=
    stops_layers (stops_empty _)
  have hlimit : ∀ m, 0 < (layers m (.empty ((blanks ++ text).length + 1))).limit := by
    intro m
    rw [limit_layers]
    exact Nat.succ_pos _
  have hprogram : Takes (program (layers (4 * (blanks ++ text).length + 16)
      (.empty ((blanks ++ text).length + 1)))) (blanks ++ text) [] fun tree =>
        tree.kind = .program ∧ tree.children.map Node.code = [n] := by
    refine takes_program (hstops _) (hlimit _) hblanks hhead hsolid hne ?_
    rw [layers_succ]
    exact hread _ (hlimit _)
  obtain ⟨tree, hrun, hkind, hchildren⟩ :=
    hprogram (Cursor.start (blanks ++ text)) (List.append_nil _).symm
  have hsoundTree : tree.isSound = true :=
    Node.isSound_of_code (by rw [hkind]; decide) hchildren hsound
  refine ⟨tree, ?_, hkind, hchildren⟩
  rw [parse?]
  simp only [String.toList_ofList]
  rw [hrun]
  exact if_pos hsoundTree

end Source

end Ambient
