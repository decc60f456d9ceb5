import Ambient.Proofs.Source.Expression
import Ambient.Source.Program

/-!
# Sources are legible

Statements are legible over a grammar that yields legible nodes, so one more layer of the language
keeps a grammar legible, and the tree of a source is legible.
-/

namespace Ambient.Source

open Node Reader

variable {g : Grammar} (hg : g.Legible)

theorem yields_softKeyword (loop : Bool) (text : String) : Yields AllBare (softKeyword loop text) :=
  .bind (yields_word text) fun _ hkeyword => .behind fun _ => .pure hkeyword

/-- A declaration of variables over a reader of its keyword. -/
theorem yields_declaration_of {k : Kind} {keyword : Reader Node} {names : Node → Reader (List Node)}
    (hk : k.declaresVariables = true)
    (hkeyword : Yields (fun n => n.Bare ∧ n.text ∈ declaringWords) keyword)
    (hnames : ∀ word : Node, word.Bare →
      Yields (fun ns => ∃ names, ns = word :: names ∧ AllPlaced names) (names word)) :
    Yields Fresh (node k (keyword >>= names)) := by
  refine .behind fun _ => .bind (Q := fun ns => ∃ word names, ns = word :: names ∧ word.Bare ∧
    word.text ∈ declaringWords ∧ AllPlaced names) (.bind hkeyword fun word hword => ?_)
    fun ns hns => .behind fun _ => ?_
  · refine (hnames word hword.1).imp ?_
    rintro ns ⟨names, rfl, hplaced⟩
    exact ⟨word, names, rfl, hword.1, hword.2, hplaced⟩
  · obtain ⟨word, names, hns, hword, htext, hplaced⟩ := hns
    exact .pure ⟨legible_declaration hk hns hword htext hplaced.legible, rfl⟩

/-! ### Declarations -/

section

include hg

theorem yields_bindingTarget : Yields Fresh (bindingTarget g) := by
  refine .behind fun cs => ?_
  split
  · refine .bind (yields_object hg) fun n hn => ?_
    split
    · rename_i hm
      exact .pure (hn.toPattern? hm)
    · exact .failure
  · refine .bind (yields_array hg) fun n hn => ?_
    split
    · rename_i hm
      exact .pure (hn.toPattern? hm)
    · exact .failure
  · exact yields_identifier.whole.fresh

theorem yields_declarator : Yields (fun r => r.1.Fresh) (declarator g) := by
  refine .behind fun a => .bind (yields_bindingTarget hg) fun _ htarget =>
    .bind (.optionally ?_) fun _ hvalue => .bind (.unnamedSince a rfl (fun _ => rfl)
      (by simp [htarget, hvalue])) fun _ h => .pure h
  exact .behind fun _ => .behind fun _ => .bind (yields_token "=") fun _ hsign =>
    .bind (yields_part rfl (hg.expression .loose)) fun _ hvalue => .pure (by simp [hsign, hvalue])

theorem yields_declarators (limit : Nat) :
    Yields (fun r => AllPlaced r.1) (declarators g limit) := by
  induction limit with
  | zero => exact .failure
  | succ n ih =>
      refine .bind yields_lead fun _ hcomments => .bind (yields_declarator hg) fun ⟨_, _⟩ hd =>
        .orElse ?_ (.pure (by simp [hcomments, hd]))
      exact .behind fun _ => .behind fun _ => .bind (yields_token ",") fun _ hcomma =>
        .bind ih fun ⟨_, _⟩ hothers => .pure (by simp [hcomments, hd, hcomma, hothers])

theorem yields_declared (keyword : List Node) :
    Yields (fun ns => ∃ names, ns = keyword ++ names ∧ AllPlaced names) (declared g keyword) :=
  .bind (yields_declarators hg _) fun ⟨names, bare⟩ hnames => .bind (yields_semicolon bare)
    fun closing hend => .pure ⟨names ++ closing, List.append_assoc .., by simp [hnames, hend]⟩

theorem yields_variableDeclaration : Yields Fresh (variableDeclaration g) := by
  refine yields_declaration_of rfl ((yields_firstWord "var").imp fun n hn => ⟨hn.1, ?_⟩)
    fun word _ => yields_declared hg [word]
  rw [hn.2]
  decide

theorem yields_lexicalDeclaration (loop : Bool) : Yields Fresh (lexicalDeclaration g loop) := by
  have hword (text : String) (htext : text ∈ declaringWords) :
      Yields (fun n => n.Bare ∧ n.text ∈ declaringWords) (firstWord text) :=
    (yields_firstWord text).imp fun n hn => ⟨hn.1, hn.2 ▸ htext⟩
  exact yields_declaration_of rfl (.orElse (hword "const" (by decide))
    (.bind (hword "let" (by decide)) fun _ hkeyword => .behind fun _ => .pure hkeyword))
    fun word _ => yields_declared hg [word]

theorem yields_usingDeclaration : Yields Fresh (usingDeclaration g) := by
  refine .node rfl (.bind (.optionally (yields_word "await").placed) fun await hawait =>
    .bind (yields_softKeyword false "using") fun keyword hkeyword => .behind fun _ => .behind fun _ =>
      (yields_declared hg (await ++ keyword)).imp ?_)
  rintro _ ⟨names, rfl, hnames⟩
  simp [hawait, hkeyword, hnames]

theorem yields_functionDeclaration : Yields Fresh (functionDeclaration g) := by
  refine .behind fun a => .behind fun _ => .behind fun _ => .behind fun _ =>
    .bind (yields_functionParts hg true) fun ⟨generator, _⟩ hchildren => .nodeSince a ?_ hchildren
  cases generator <;> rfl

theorem yields_classDeclaration : Yields Fresh (classDeclaration g) :=
  .classNode rfl (yields_classParts hg true)

theorem yields_declaration : Yields Fresh (declaration g) := by
  refine .behind fun text => ?_
  split
  · exact yields_variableDeclaration hg
  · exact yields_lexicalDeclaration hg false
  · exact yields_lexicalDeclaration hg false
  · exact yields_functionDeclaration hg
  · exact yields_functionDeclaration hg
  · exact yields_classDeclaration hg
  · exact yields_usingDeclaration hg
  · exact yields_usingDeclaration hg
  · refine .behind fun cs => ?_
    split
    · exact yields_classDeclaration hg
    · exact .failure

end

/-! ### Imports and exports -/

theorem yields_fromPart : Yields AllPlaced fromPart :=
  .bind (yields_word "from") fun _ hkeyword => .bind (yields_namePart yields_string) fun _ hpath =>
    .pure (by simp [hkeyword, hpath])

theorem yields_moduleName : Yields Whole moduleName :=
  .behind fun _ => .ite (Yields.leaf rfl (by nofun) _).whole
    (.orElse yields_identifier.whole yields_string)

/-- A star, the word `as` and a name behind it. -/
theorem yields_namespace {k : Kind} {r : Reader Node} (hk : k.isNamespace = true)
    (hr : Yields Whole r) : Yields Fresh (node k do
      let star ← here "*"
      let keyword ← word "as"
      return star :: keyword ++ (← sub r)) := by
  refine .behind fun _ => .bind (Q := fun ns => ∃ before name, ns = before ++ [name] ∧
    AllBare before ∧ name.Whole) ?_ fun ns hns => .behind fun _ => ?_
  · refine .bind (yields_here "*") fun star hstar => .bind (yields_word "as") fun keyword hkeyword =>
      .bind (yields_sub_last hr) ?_
    rintro _ ⟨comments, name, rfl, hcomments, hname⟩
    exact .pure ⟨star :: keyword ++ comments, name, by simp, by simp [hstar, hkeyword, hcomments],
      hname⟩
  · obtain ⟨before, name, rfl, hbefore, hname⟩ := hns
    exact .pure ⟨legible_namespace hk rfl hbefore hname, rfl⟩

theorem yields_namespaceImport : Yields Fresh namespaceImport :=
  yields_namespace rfl yields_identifier.whole

theorem yields_importSpecifier : Yields Fresh importSpecifier :=
  .orElse
    (.node rfl (.bind (yields_namePart yields_moduleName) fun _ hname =>
      .bind (yields_word "as") fun _ hkeyword => .bind (yields_namePart yields_identifier.whole)
        fun _ hown => .pure (by simp [hname, hkeyword, hown])))
    (.node rfl (yields_namePart yields_identifier.whole))

theorem yields_namedImports : Yields Fresh (namedImports g) :=
  .node rfl (.bind (yields_here _) fun _ hopening =>
    .bind (yields_commaList yields_importSpecifier _ _) fun _ hnames => .behind fun _ =>
      .bind (yields_token _) fun _ hclosing => .pure (by simp [hopening, hnames, hclosing]))

theorem yields_importClause : Yields Fresh (importClause g) := by
  refine .node rfl (.behind fun cs => ?_)
  split
  · exact .bind yields_namespaceImport fun _ h => .pure (by simp [h])
  · exact .bind yields_namedImports fun _ h => .pure (by simp [h])
  · refine .bind yields_identifier fun _ hfirst => .bind (.optionally ?_) fun _ hothers =>
      .pure (by simp [hfirst, hothers])
    exact .bind (yields_token ",") fun _ hcomma =>
      .bind (yields_sub (.orElse yields_namespaceImport yields_namedImports)) fun _ hnames =>
        .pure (by simp [hcomma, hnames])

theorem yields_exportSpecifier : Yields Fresh exportSpecifier :=
  .node rfl (.bind (yields_namePart yields_moduleName) fun _ hname =>
    .bind (.optionally (.bind (yields_word "as") fun _ hkeyword =>
      .bind (yields_namePart yields_moduleName) fun _ hother => .pure (by simp [hkeyword, hother])))
        fun _ hother => .pure (by simp [hname, hother]))

theorem yields_exportClause : Yields Fresh (exportClause g) :=
  .node rfl (.bind (yields_here _) fun _ hopening =>
    .bind (yields_commaList yields_exportSpecifier _ _) fun _ hnames => .behind fun _ =>
      .bind (yields_token _) fun _ hclosing => .pure (by simp [hopening, hnames, hclosing]))

theorem yields_namespaceExport : Yields Fresh namespaceExport :=
  yields_namespace rfl yields_moduleName

theorem yields_exportList : Yields AllPlaced (exportList g) := by
  refine .bind yields_lead fun _ hcomments => .behind fun cs => ?_
  split
  · exact .bind yields_exportClause fun _ hclause => .bind (.optionally yields_fromPart)
      fun _ hsource => .bind (yields_semicolon true) fun _ hend =>
        .pure (by simp [hcomments, hclause, hsource, hend])
  · have hwhat : Yields AllPlaced ((do return [← namespaceExport]) <|> do return [← here "*"]) :=
      .orElse (.bind yields_namespaceExport fun _ h => .pure (by simp [h]))
        (.bind (yields_here "*") fun _ h => .pure (by simp [h]))
    exact .bind hwhat fun _ hwhat => .bind yields_fromPart fun _ hsource =>
      .bind (yields_semicolon true) fun _ hend =>
        .pure (by simp [hcomments, hwhat, hsource, hend])
  · exact .failure

section

include hg

theorem yields_importStatement : Yields Fresh (importStatement g) := by
  refine .node rfl (.bind (yields_word "import") fun _ hkeyword =>
    .bind (Q := AllPlaced) (.orElse (yields_namePart yields_string) ?_) fun _ hclause =>
      .bind (.optionally (.behind fun _ => .behind fun _ => yields_sub (.node rfl ?_)))
        fun _ hattributes => .bind (yields_semicolon true) fun _ hend =>
          .pure (by simp [hkeyword, hclause, hattributes, hend]))
  · exact .bind (yields_sub yields_importClause) fun _ hclause => .bind yields_fromPart
      fun _ hpath => .pure (by simp [hclause, hpath])
  · exact .bind (yields_word "with") fun _ hkeyword => .bind (yields_sub (yields_object hg))
      fun _ hvalue => .pure (by simp [hkeyword, hvalue])

theorem yields_exportDefault : Yields AllPlaced (exportDefault g) :=
  .bind (yields_word "default") fun _ hkeyword => .orElse
    (.bind (yields_part rfl (yields_declaration hg)) fun _ h => .pure (by simp [hkeyword, h]))
    (.bind (yields_part rfl (hg.expression .loose)) fun _ hvalue => .bind (yields_semicolon false)
      fun _ hend => .pure (by simp [hkeyword, hvalue, hend]))

theorem yields_exportStatement : Yields Fresh (exportStatement g) :=
  .node rfl (.bind (yields_decorators hg) fun _ hmarks => .bind (yields_word "export")
    fun _ hkeyword => .bind (Q := AllPlaced) (.orElse (.behind fun _ => yields_exportList)
      (.orElse (yields_exportDefault hg) (yields_part rfl (yields_declaration hg)))) fun _ hbody =>
        .pure (by simp [hmarks, hkeyword, hbody]))

/-! ### Control -/

theorem yields_condition : Yields Fresh (condition g) :=
  .node rfl (.bind (yields_here "(") fun _ hopening =>
    .bind (yields_sub (yields_expressions hg .enclosed)) fun _ hinner =>
      .bind (yields_token ")") fun _ hclosing => .pure (by simp [hopening, hinner, hclosing]))

theorem yields_ifStatement : Yields Fresh (ifStatement g) := by
  refine .node rfl (.bind (yields_word "if") fun _ hkeyword =>
    .bind (yields_sub (yields_condition hg)) fun _ htest => .bind (yields_sub hg.statement)
      fun _ hyes => .bind (.optionally (.behind fun _ => .behind fun _ =>
        yields_sub (.node rfl ?_))) fun _ hno =>
          .pure (by simp [hkeyword, htest, hyes, hno]))
  exact .bind (yields_word "else") fun _ hkeyword => .bind (yields_sub hg.statement)
    fun _ hbody => .pure (by simp [hkeyword, hbody])

theorem yields_switchCase : Yields Fresh (switchCase g) :=
  .orElse
    (.node rfl (.bind (yields_word "case") fun _ hkeyword =>
      .bind (yields_part rfl (yields_expressions hg .enclosed)) fun _ hvalue =>
        .bind (yields_token ":") fun _ hcolon => .bind (.many (yields_sub hg.statement) _)
          fun _ hbody => .pure (by simp [hkeyword, hvalue, hcolon, hbody])))
    (.node rfl (.bind (yields_word "default") fun _ hkeyword =>
      .bind (yields_token ":") fun _ hcolon => .bind (.many (yields_sub hg.statement) _)
        fun _ hbody => .pure (by simp [hkeyword, hcolon, hbody])))

theorem yields_switchStatement : Yields Fresh (switchStatement g) :=
  .node rfl (.bind (yields_word "switch") fun _ hkeyword =>
    .bind (yields_part rfl (yields_condition hg)) fun _ hvalue =>
      .bind (yields_part rfl (.node rfl (.bind (yields_here _) fun _ hopening =>
        .bind (.many (yields_sub (yields_switchCase hg)) _) fun _ hcases =>
          .bind yields_lead fun _ hcomments => .bind (yields_token _) fun _ hclosing =>
            .pure (by simp [hopening, hcases, hcomments, hclosing])))) fun _ hbody =>
              .pure (by simp [hkeyword, hvalue, hbody]))

omit hg in
theorem yields_emptyStatement : Yields Fresh emptyStatement :=
  .node rfl (.bind (yields_here ";") fun _ h => .pure (by simp [h]))

theorem yields_forInHead : Yields AllPlaced (forInHead g) := by
  have hkind : Yields AllBare
      (word "var" <|> word "const" <|> softKeyword true "let" <|> softKeyword true "using") :=
    .orElse (yields_word _) (.orElse (yields_word _)
      (.orElse (yields_softKeyword _ _) (yields_softKeyword _ _)))
  refine .bind (yields_token "(") fun _ hopening => .bind (Q := AllPlaced) (.orElse ?_ ?_)
    fun _ hleft => .bind (Q := AllBare) (.orElse (yields_word "in") (yields_word "of"))
      fun _ hoperator => .bind (yields_part rfl (yields_expressions hg .enclosed)) fun _ hright =>
        .bind (yields_token ")") fun _ hclosing =>
          .pure (by simp [hopening, hleft, hoperator, hright, hclosing])
  · exact .bind hkind fun _ hkeyword => .bind (yields_part rfl (yields_bindingTarget hg))
      fun _ hname => .bind (.optionally (.bind (yields_token "=") fun _ hsign =>
        .bind (yields_part rfl (hg.operand .enclosed)) fun _ hv => .pure (by simp [hsign, hv])))
          fun _ hvalue => .pure (by simp [hkeyword, hname, hvalue])
  · refine .bind yields_lead fun _ hcomments => .behind fun a =>
      .bind (yields_primary hg .enclosed) fun _ hbase =>
        .bind (yields_suffixes hg .enclosed true a _ hbase) fun n hn => .behind fun _ => ?_
    split
    · rename_i target htarget
      have hlegible := hn.legible.toTarget? htarget
      exact .pure (by simp [hcomments, hlegible])
    · exact .failure

theorem yields_forHead : Yields AllPlaced (forHead g) := by
  have htest : Yields AllPlaced (do
      let n ← sub (expressions g .enclosed)
      return n ++ (← token ";")) :=
    .bind (yields_sub (yields_expressions hg .enclosed)) fun _ hn => .bind (yields_token ";")
      fun _ hend => .pure (by simp [hn, hend])
  have hfirst : Yields Fresh
      (variableDeclaration g <|> lexicalDeclaration g true <|> emptyStatement) :=
    .orElse (yields_variableDeclaration hg)
      (.orElse (yields_lexicalDeclaration hg true) yields_emptyStatement)
  exact .bind (yields_token "(") fun _ hopening => .bind (.orElse (yields_sub hfirst) htest)
    fun _ hfirst => .bind (.orElse (yields_sub yields_emptyStatement) htest) fun _ hsecond =>
      .bind (.optionally (yields_sub (yields_expressions hg .enclosed))) fun _ hthird =>
        .bind (yields_token ")") fun _ hclosing =>
          .pure (by simp [hopening, hfirst, hsecond, hthird, hclosing])

theorem yields_forStatement : Yields Fresh (forStatement g) :=
  .orElse
    (.node rfl (.bind (yields_word "for") fun _ hkeyword =>
      .bind (.optionally (yields_word "await").placed) fun _ hawait => .bind (yields_forInHead hg)
        fun _ hhead => .bind (yields_part rfl hg.statement) fun _ hbody =>
          .pure (by simp [hkeyword, hawait, hhead, hbody])))
    (.node rfl (.bind (yields_word "for") fun _ hkeyword => .bind (yields_forHead hg)
      fun _ hhead => .bind (yields_part rfl hg.statement) fun _ hbody =>
        .pure (by simp [hkeyword, hhead, hbody])))

theorem yields_whileStatement : Yields Fresh (whileStatement g) :=
  .node rfl (.bind (yields_word "while") fun _ hkeyword =>
    .bind (yields_sub (yields_condition hg)) fun _ htest => .bind (yields_part rfl hg.statement)
      fun _ hbody => .pure (by simp [hkeyword, htest, hbody]))

theorem yields_doStatement : Yields Fresh (doStatement g) :=
  .node rfl (.bind (yields_word "do") fun _ hkeyword => .bind (yields_part rfl hg.statement)
    fun _ hbody => .bind (yields_word "while") fun _ hclosing =>
      .bind (yields_sub (yields_condition hg)) fun _ htest =>
        .bind (.optionally (yields_semicolon true).placed) fun _ hend =>
          .pure (by simp [hkeyword, hbody, hclosing, htest, hend]))

theorem yields_tryStatement : Yields Fresh (tryStatement g) := by
  have hblock : Yields AllPlaced (part .body (block g)) := yields_part rfl (yields_block hg)
  refine .node rfl (.bind (yields_word "try") fun _ hkeyword => .bind hblock fun _ hbody =>
    .bind (.optionally (.behind fun _ => .behind fun _ => yields_sub (.node rfl ?_)))
      fun _ hhandler => .bind (.optionally (.behind fun _ => .behind fun _ =>
        yields_sub (.node rfl ?_))) fun _ hfinalizer =>
          .pure (by simp [hkeyword, hbody, hhandler, hfinalizer]))
  · refine .bind (yields_word "catch") fun _ hkeyword => .bind (.optionally ?_)
      fun _ hparameter => .bind hblock fun _ hbody =>
        .pure (by simp [hkeyword, hparameter, hbody])
    exact .bind (yields_token "(") fun _ hopening => .bind (yields_part rfl (yields_bindingTarget hg))
      fun _ hname => .bind (yields_token ")") fun _ hclosing =>
        .pure (by simp [hopening, hname, hclosing])
  · exact .bind (yields_word "finally") fun _ hkeyword => .bind hblock fun _ hbody =>
      .pure (by simp [hkeyword, hbody])

theorem yields_withStatement : Yields Fresh (withStatement g) :=
  .node rfl (.bind (yields_word "with") fun _ hkeyword =>
    .bind (yields_sub (yields_condition hg)) fun _ hvalue => .bind (yields_part rfl hg.statement)
      fun _ hbody => .pure (by simp [hkeyword, hvalue, hbody]))

omit hg in
theorem yields_jump {k : Kind} (hk : k.isCompound = true) (text : String) :
    Yields Fresh (jump k text) :=
  .node hk (.bind (yields_word text) fun _ hkeyword => .behind fun _ => .ite (.pure hkeyword.placed)
    (.bind (.optionally (yields_sub (yields_nameWord rfl).whole.fresh)) fun _ hlabel =>
      .bind (yields_semicolon true) fun _ hend => .pure (by simp [hkeyword, hlabel, hend])))

omit hg in
theorem yields_debuggerStatement : Yields Fresh debuggerStatement :=
  .node rfl (.bind (yields_word "debugger") fun _ hkeyword =>
    .bind (yields_semicolon true) fun _ hend => .pure (by simp [hkeyword, hend]))

theorem yields_returnStatement : Yields Fresh (returnStatement g) :=
  .node rfl (.bind (yields_word "return") fun _ hkeyword => .orElse
    (.bind (yields_semicolon true) fun _ hend => .pure (by simp [hkeyword, hend]))
    (.bind (yields_sub (yields_expressions hg .loose)) fun _ hvalue =>
      .bind (yields_semicolon false) fun _ hend => .pure (by simp [hkeyword, hvalue, hend])))

theorem yields_throwStatement : Yields Fresh (throwStatement g) :=
  .node rfl (.bind (yields_word "throw") fun _ hkeyword =>
    .bind (yields_sub (yields_expressions hg .loose)) fun _ hvalue =>
      .bind (yields_semicolon false) fun _ hend => .pure (by simp [hkeyword, hvalue, hend]))

theorem yields_expressionStatement : Yields Fresh (expressionStatement g) :=
  .node rfl (.bind (yields_expressions hg .loose) fun _ hvalue =>
    .bind (yields_semicolon false) fun _ hend => .pure (by simp [hvalue, hend]))

theorem yields_labeledStatement : Yields Fresh (labeledStatement g) :=
  .node rfl (.behind fun _ => .behind fun _ => .bind (yields_nameWord rfl) fun _ hlabel =>
    .bind (yields_token ":") fun _ hcolon => .bind (yields_part rfl hg.statement) fun _ hbody =>
      .pure (by simp [hlabel, hcolon, hbody]))

theorem yields_braced : Yields Fresh (braced g) := by
  have hblock := yields_block hg
  have hexpression := yields_expressionStatement hg
  exact .behind fun _ => .behind fun _ =>
    .ite hblock (.ite (.orElse hexpression hblock) (.orElse hblock hexpression))

theorem yields_statement : Yields Fresh (statement g) := by
  have hexpression := yields_expressionStatement hg
  have hlabel := yields_labeledStatement hg
  have hfunction := yields_functionDeclaration hg
  have hclass := yields_classDeclaration hg
  refine .behind fun cs => ?_
  split
  · exact yields_braced hg
  · exact yields_emptyStatement
  · exact .orElse (yields_exportStatement hg) (.orElse hclass hexpression)
  · split
    · exact .orElse (yields_importStatement hg) hexpression
    · exact yields_exportStatement hg
    · exact yields_ifStatement hg
    · exact yields_switchStatement hg
    · exact yields_forStatement hg
    · exact yields_whileStatement hg
    · exact yields_doStatement hg
    · exact yields_tryStatement hg
    · exact yields_withStatement hg
    · exact yields_jump rfl _
    · exact yields_jump rfl _
    · exact yields_returnStatement hg
    · exact yields_throwStatement hg
    · exact yields_debuggerStatement
    · exact .behind fun _ => .ite hfunction hexpression
    · exact .behind fun _ => .behind fun _ => .ite hfunction (.orElse hlabel hexpression)
    · exact .behind fun _ => .ite hclass hexpression
    · exact .orElse (yields_declaration hg) (.orElse hlabel hexpression)

/-! ### Programs -/

theorem legible_layer : (layer g).Legible where
  expression := yields_expression hg
  operand := yields_operand hg
  statement := yields_statement hg
  element := yields_element hg

theorem legible_layers (n : Nat) : (layers n g).Legible := by
  induction n generalizing g with
  | zero => exact hg
  | succ n ih => exact ih (legible_layer hg)

omit hg in
theorem yields_hashBang : Yields AllPlaced hashBang := by
  refine .behind fun cs => ?_
  split
  · exact .bind (.leaf rfl (by nofun) _) fun _ h => .pure (by simp [h])
  · exact .pure allPlaced_nil

theorem yields_program : Yields Fresh (program g) := by
  refine .behind fun a => .bind yields_hashBang fun _ hline => .bind yields_lead
    fun _ hcomments => .bind (yields_statements hg) fun _ hbody => .behind fun _ =>
      .behind fun _ => .behind fun b => ?_
  have hchildren := allPlaced_append.2 ⟨allPlaced_append.2 ⟨hline, hcomments.placed⟩, hbody⟩
  split
  · exact .pure ⟨legible_of_placed rfl allPlaced_nil, rfl⟩
  · exact .pure ⟨legible_of_placed rfl hchildren, rfl⟩

omit hg in
theorem yields_program_kind : Yields (fun n => n.kind = .program) (program g) := by
  refine .behind fun a => .behind fun _ => .behind fun _ => .behind fun _ => .behind fun _ =>
    .behind fun _ => .behind fun b => ?_
  split
  · exact .pure rfl
  · exact .pure rfl

end

/-- The tree of a source is what the reader of programs gives, in a legible grammar. -/
theorem exists_program_of_parse? {source : String} {tree : Node} (h : parse? source = some tree) :
    ∃ (g : Grammar) (c d : Cursor), g.Legible ∧ program g c = some (tree, d) := by
  unfold parse? at h
  dsimp only at h
  split at h
  · rename_i t d hprogram
    split at h
    · cases h
      exact ⟨_, _, d, legible_layers (Grammar.legible_empty _) _, hprogram⟩
    · cases h
  · cases h

/-- The tree of a source is legible. -/
theorem legible_of_parse? {source : String} {tree : Node} (h : parse? source = some tree) :
    tree.Legible := by
  obtain ⟨g, c, d, hg, hprogram⟩ := exists_program_of_parse? h
  exact (yields_program hg c tree d hprogram).legible

/-- The tree of a source is a program. -/
theorem kind_of_parse? {source : String} {tree : Node} (h : parse? source = some tree) :
    tree.kind = .program := by
  obtain ⟨g, c, d, -, hprogram⟩ := exists_program_of_parse? h
  exact yields_program_kind c tree d hprogram

/-- No identifier in the tree of a source is empty. -/
theorem spelt_of_parse? {source : String} {tree : Node} (h : parse? source = some tree) :
    tree.Spelt :=
  (legible_of_parse? h).spelt

end Ambient.Source
