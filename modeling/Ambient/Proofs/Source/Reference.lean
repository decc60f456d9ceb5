import Ambient.Proofs.Source.Spelling
import Ambient.Source.Program

/-!
# Imports and re-exports

How an import and an export from another module are read when they name one thing each.  Every
statement here ends with the path it reads from and a semicolon; what stands before is a star, a
star under a name, a name, or a name in braces, perhaps under another name.
-/

namespace Ambient.Source

open Reader

/-! ### Codes -/

/-- The code of an identifier. -/
def ident (name : String) : Node :=
  coded .identifier name.toList []

/-- The path behind the word `from`. -/
def fromText (path : List Char) : List Char :=
  [' '] ++ "from".toList ++ ([' '] ++ '"' :: (path ++ ['"']))

def fromCodes (path : List Char) : List Node :=
  [sign "from", (quoted path).as .source]

/-- A name behind the word `as`. -/
def asText (name : String) : List Char :=
  [' '] ++ "as".toList ++ ([' '] ++ name.toList)

/-- All names under one name. -/
def starText (name : String) : List Char :=
  ['*'] ++ asText name

def starCode (k : Kind) (name : String) : Node :=
  coded k (starText name) [sign "*", sign "as", ident name]

/-- A name, perhaps bound to another one. -/
def bindingText (name own : String) : List Char :=
  if own = name then name.toList else own.toList ++ asText name

def bindingCode (k : Kind) (name own : String) : Node :=
  coded k (bindingText name own)
    (if own = name then [(ident name).as .name]
     else [(ident own).as .name, sign "as", (ident name).as .renamed])

/-- A binding in braces. -/
def bracedText (name own : String) : List Char :=
  ['{'] ++ ([' '] ++ (bindingText name own ++ [' ']) ++ ['}'])

def bracedCode (k item : Kind) (name own : String) : Node :=
  coded k (bracedText name own) [sign "\x7b", bindingCode item name own, sign "\x7d"]

variable {g : Grammar} {name own : String} {path more : List Char}

theorem text_ident (name : String) : (ident name).text = name :=
  String.ofList_toList

/-! ### Parts -/

theorem isWord_as : IsWord "as".toList :=
  isWord_of_all (by decide) (by decide)

theorem isWord_from : IsWord "from".toList :=
  isWord_of_all (by decide) (by decide)

theorem takes_fromPart (hpath : path.all isPlain = true) :
    Takes fromPart (fromText path) more (·.map Node.code = fromCodes path) := by
  refine (takes_word [' '] isWord_from rfl).bind fun keyword hkeyword =>
    (takes_part [' '] rfl rfl (takes_string hpath)).last fun source hsource => ?_
  rw [List.map_append, hkeyword, hsource]
  rfl

theorem takes_moduleName (hname : IsName name) :
    Takes moduleName name.toList (' ' :: more) (·.code = ident name) := by
  refine takes_wordHere ?_
  have hne : ¬(name == "default") = true := by
    rw [beq_iff_eq]
    rintro rfl
    exact hname.free (by decide)
  rw [wordAt_word hname.word, String.ofList_toList, if_neg hne]
  exact .left (takes_identifier hname)

/-- A star under a name, as an import or an export reads it. -/
theorem takes_star {k : Kind} {r : Reader Node} (hname : IsName name)
    (hr : Takes r name.toList (' ' :: more) (·.code = ident name)) :
    Takes (node k do
      let star ← here "*"
      let keyword ← word "as"
      return star :: keyword ++ (← sub r)) (starText name) (' ' :: more)
      (·.code = starCode k name) := by
  refine .node ((takes_here "*").bind fun star hstar =>
    (takes_word [' '] isWord_as rfl).bind fun keyword hkeyword =>
      (takes_sub [' '] rfl (isSolid_word hname.word) hr).last fun ns hns => ?_)
  rw [List.cons_append, List.map_cons, List.map_append, hstar, hkeyword, hns]
  rfl

/-- The items between braces, when there is one. -/
theorem takes_commaList {item : Reader Node} {text : List Char} {n : Node} {limit : Nat}
    (hlimit : 0 < limit) (htext : ∃ c cs, text = c :: cs ∧ isWordHead c = true)
    (hitem : Takes item text (' ' :: '}' :: more) (·.code = n)) :
    Takes (commaList item "\x7d" limit) ([' '] ++ (text ++ [' '])) ('}' :: more)
      (·.map Node.code = [n]) := by
  obtain ⟨m, rfl⟩ := Nat.exists_eq_succ_of_ne_zero (Nat.pos_iff_ne_zero.1 hlimit)
  obtain ⟨c, cs, rfl, hc⟩ := htext
  have hupcoming : Takes (upcoming ",") [] ([' '] ++ '}' :: more) (· = false) :=
    .look ((takes_lead [' '] rfl rfl).before fun _ _ => .ahead (.pure rfl))
  refine (takes_lead [' '] rfl (isSolid_of_isWordHead hc)).bind fun comments hcomments =>
    .ahead ?_
  have hclosing : ¬(Text.after? "\x7d".toList (c :: cs ++ [' '] ++ '}' :: more)).isSome = true := by
    change ¬(if '}' = c then some _ else none).isSome = true
    rw [if_neg (ne_of_isWordHead hc rfl).symm]
    exact Bool.false_ne_true
  rw [if_neg hclosing]
  refine .ahead ?_
  split
  next heq => exact absurd (List.cons.inj heq).1 (ne_of_isWordHead hc rfl)
  next =>
    refine hitem.bind fun first hfirst => hupcoming.after fun b hb => ?_
    subst hb
    refine (takes_lead [' '] rfl rfl).last fun rest hrest => ?_
    subst hcomments hrest
    rw [List.nil_append, List.map_singleton, hfirst]

/-! ### Clauses -/

theorem exists_cons_bindingText (hname : IsName name) (hown : IsName own) :
    ∃ c cs, bindingText name own = c :: cs ∧ isWordHead c = true := by
  rw [bindingText]
  split
  · exact hname.word.exists_cons
  · obtain ⟨c, cs, heq, hc⟩ := hown.word.exists_cons
    exact ⟨c, _, by rw [heq]; rfl, hc⟩

/-- In front of the closing brace no other name is given. -/
theorem fails_as_closing : Fails (word "as") (' ' :: '}' :: more) :=
  fails_word_of_isWordless [' '] rfl rfl rfl (by decide)

theorem takes_importSpecifier (hname : IsName name) (hown : IsName own) :
    Takes importSpecifier (bindingText name own) (' ' :: '}' :: more)
      (·.code = bindingCode .importSpecifier name own) := by
  rw [bindingText, bindingCode, bindingText]
  split
  next =>
    refine .right (.node (.behind
      (takes_part [] rfl (isSolid_word hname.word) (takes_moduleName hname))
      fun _ _ => .bind fails_as_closing)) ?_
    exact .node (takes_part [] rfl (isSolid_word hname.word) (takes_identifier hname))
  next =>
    refine .left (.node ((takes_part [] rfl (isSolid_word hown.word)
      (takes_moduleName hown)).bind fun first hfirst =>
        (takes_word [' '] isWord_as rfl).bind fun keyword hkeyword =>
          (takes_part [' '] rfl (isSolid_word hname.word) (takes_identifier hname)).last
            fun rest hrest => ?_))
    rw [List.map_append, List.map_append, hfirst, hkeyword, hrest]
    rfl

theorem takes_exportSpecifier (hname : IsName name) (hown : IsName own) :
    Takes exportSpecifier (bindingText name own) (' ' :: '}' :: more)
      (·.code = bindingCode .exportSpecifier name own) := by
  rw [bindingText, bindingCode, bindingText]
  split
  next =>
    refine .node ((takes_part [] rfl (isSolid_word hname.word)
      (takes_moduleName hname)).before fun first hfirst =>
        (Takes.absent (.bind fails_as_closing)).last fun rest hrest => ?_)
    subst hrest
    rw [List.append_nil, hfirst]
  next =>
    have hrenamed : Takes (do
        let keyword ← word "as"
        return keyword ++ (← part .renamed moduleName)) (asText name) (' ' :: '}' :: more)
        (·.map Node.code = [sign "as", (ident name).as .renamed]) := by
      refine (takes_word [' '] isWord_as rfl).bind fun keyword hkeyword =>
        (takes_part [' '] rfl (isSolid_word hname.word) (takes_moduleName hname)).last
          fun rest hrest => ?_
      rw [List.map_append, hkeyword, hrest]
      rfl
    refine .node ((takes_part [] rfl (isSolid_word hown.word)
      (takes_moduleName hown)).bind fun first hfirst =>
        (Takes.left hrenamed).last fun other hother => ?_)
    rw [List.map_append, hfirst, hother]
    rfl

theorem isDense_of_code {n : Node} (hn : n.kind ≠ .token ",") {ns : List Node}
    (hns : ns.map Node.code = [n]) : isDense ns = true := by
  obtain ⟨m, rfl, hm⟩ := List.map_eq_singleton_iff.1 hns
  have hcomma : (m.kind == Kind.token ",") = false := by
    rw [← Node.kind_code m, hm]
    simpa using hn
  rw [isDense, isDense.go, hcomma]
  simp [isDense.go]

/-- A binding in braces, as an import or an export reads it. -/
theorem takes_braced {k item : Kind} {r : Reader Node} (hlimit : 0 < g.limit)
    (hitem : item ≠ .token ",") (hname : IsName name) (hown : IsName own)
    (hr : Takes r (bindingText name own) (' ' :: '}' :: more)
      (·.code = bindingCode item name own)) :
    Takes (node k do
      let opening ← here "\x7b"
      let names ← commaList r "\x7d" g.limit
      require (isDense names)
      return opening :: names ++ (← token "\x7d")) (bracedText name own) more
      (·.code = bracedCode k item name own) := by
  refine .node ((takes_here "\x7b").bind fun opening hopening =>
    (takes_commaList hlimit (exists_cons_bindingText hname hown) hr).bind fun names hnames =>
      .require (isDense_of_code hitem hnames)
        ((takes_token [] "\x7d" rfl rfl).last fun closing hclosing => ?_))
  rw [List.cons_append, List.map_cons, List.map_append, hopening, hnames, hclosing]
  rfl

/-! ### Imports -/

theorem takes_importClause_star (hname : IsName name) :
    Takes (importClause g) (starText name) (' ' :: more)
      (·.code = coded .importClause (starText name) [starCode .namespaceImport name]) :=
  .node (.ahead ((takes_star hname (takes_identifier hname)).last fun _ hn =>
    congrArg (fun x => [x]) hn))

theorem takes_importClause_braced (hlimit : 0 < g.limit) (hname : IsName name)
    (hown : IsName own) :
    Takes (importClause g) (bracedText name own) more
      (·.code = coded .importClause (bracedText name own)
        [bracedCode .namedImports .importSpecifier name own]) :=
  .node (.ahead ((takes_braced hlimit (by decide) hname hown
    (takes_importSpecifier hname hown)).last fun _ hn => congrArg (fun x => [x]) hn))

theorem takes_importClause_name (hname : IsName name) :
    Takes (importClause g) name.toList (fromText path ++ more)
      (·.code = coded .importClause name.toList [ident name]) := by
  have hcomma : Fails (token ",") (fromText path ++ more) := fails_token [' '] rfl rfl rfl
  refine .node (.ahead ?_)
  obtain ⟨c, cs, htext, hc⟩ := hname.word.exists_cons
  split
  next heq =>
    rw [htext] at heq
    exact absurd (List.cons.inj heq).1 (ne_of_isWordHead hc rfl)
  next heq =>
    rw [htext] at heq
    exact absurd (List.cons.inj heq).1 (ne_of_isWordHead hc rfl)
  next =>
    refine Takes.before (takes_identifier hname) fun first hfirst =>
      (Takes.absent (.bind hcomma)).last fun others hothers => ?_
    subst hothers
    exact congrArg (fun x => [x]) hfirst

/-- The text of an import. -/
def importText (clause path : List Char) : List Char :=
  "import".toList ++ ([' '] ++ clause ++ fromText path ++ [';'])

/-- The code of an import with one clause. -/
def importCode (clause path : List Char) (n : Node) : Node :=
  coded .importStatement (importText clause path)
    (sign "import" :: coded .importClause clause [n] :: fromCodes path ++ [sign ";"])

theorem isWord_import : IsWord "import".toList :=
  isWord_of_all (by decide) (by decide)

theorem takes_importStatement {clause : List Char} {n : Node} (hpath : path.all isPlain = true)
    (hsolid : isSolid (clause ++ (fromText path ++ ([';'] ++ more))) = true)
    (hstring : Fails string (clause ++ (fromText path ++ ([';'] ++ more))))
    (hclause : Takes (importClause g) clause (fromText path ++ ([';'] ++ more))
      (·.code = coded .importClause clause [n])) :
    Takes (importStatement g) (importText clause path) more
      (·.code = importCode clause path n) := by
  have hattribute : Fails (sub (importAttribute g)) ([';'] ++ more) :=
    fails_sub [] rfl rfl (.node (.bind (fails_word_of_isWordless [] rfl rfl rfl (by decide))))
  have hnone : Fails (do
      require !(← mayEnd true)
      sub (importAttribute g)) ([';'] ++ more) := by
    refine .after (takes_mayEnd true) fun b hb => ?_
    subst hb
    exact .past rfl hattribute
  have hfrom : Takes (part .source string <|> do
      let clause ← sub (importClause g)
      return clause ++ (← fromPart)) ([' '] ++ clause ++ fromText path) ([';'] ++ more)
      (·.map Node.code = coded .importClause clause [n] :: fromCodes path) := by
    refine .right ?_ ((takes_sub [' '] rfl hsolid hclause).bind fun ns hns =>
      (takes_fromPart hpath).last fun source hsource => ?_)
    · rw [List.append_assoc, List.append_assoc]
      exact fails_sub [' '] rfl hsolid (.bind hstring)
    · rw [List.map_append, hns, hsource]
      rfl
  refine .node ((takes_word [] isWord_import rfl).bind fun keyword hkeyword =>
    hfrom.bind fun parts hparts => (Takes.absent hnone).after fun attributes hattributes =>
      (takes_semicolon true).last fun closing hclosing => ?_)
  subst hattributes
  rw [List.append_nil, List.map_append, List.map_append, hkeyword, hparts, hclosing]
  rfl

/-! ### Exports -/

/-- The text of an export from another module. -/
def exportText (what path : List Char) : List Char :=
  "export".toList ++ ([' '] ++ (what ++ (fromText path ++ [';'])))

/-- The code of an export from another module. -/
def exportCode (what path : List Char) (n : Node) : Node :=
  coded .exportStatement (exportText what path)
    (sign "export" :: n :: fromCodes path ++ [sign ";"])

theorem isWord_export : IsWord "export".toList :=
  isWord_of_all (by decide) (by decide)

/-- What an export reads at a star: all names, under one name or their own. -/
theorem takes_exportList_of_star {rest : List Char} {n : Node} (hpath : path.all isPlain = true)
    (hwhat : Takes ((do return [← namespaceExport]) <|> (do return [← here "*"])) ('*' :: rest)
      (fromText path ++ [';'] ++ more) (·.map Node.code = [n])) :
    Takes (exportList g) ([' '] ++ ('*' :: rest ++ (fromText path ++ [';']))) more
      (·.map Node.code = n :: fromCodes path ++ [sign ";"]) := by
  refine (takes_lead [' '] rfl rfl).bind fun comments hcomments => .ahead ?_
  refine hwhat.bind fun what hwhat => (takes_fromPart hpath).bind fun source hsource =>
    (takes_semicolon true).last fun closing hclosing => ?_
  subst hcomments
  rw [List.nil_append, List.map_append, List.map_append, hwhat, hsource, hclosing]
  rfl

theorem takes_exportList_star (hpath : path.all isPlain = true) (hname : IsName name) :
    Takes (exportList g) ([' '] ++ (starText name ++ (fromText path ++ [';']))) more
      (·.map Node.code = starCode .namespaceExport name :: fromCodes path ++ [sign ";"]) :=
  takes_exportList_of_star hpath (.left ((takes_star hname (takes_moduleName hname)).last
    fun _ hn => congrArg (fun x => [x]) hn))

theorem takes_exportList_all (hpath : path.all isPlain = true) :
    Takes (exportList g) ([' '] ++ (['*'] ++ (fromText path ++ [';']))) more
      (·.map Node.code = sign "*" :: fromCodes path ++ [sign ";"]) := by
  -- The word behind the star is `from`, so the star stands under no name.
  have hfrom : Fails (word "as") (fromText path ++ [';'] ++ more) := by
    rw [fromText]
    simp only [List.append_assoc]
    refine fails_word [' '] rfl rfl ?_
    change wordAt ("from".toList ++ ' ' :: _) ≠ "as"
    rw [wordAt_word isWord_from]
    decide
  have hplain : Fails namespaceExport ('*' :: (fromText path ++ [';'] ++ more)) :=
    .node (.behind (takes_here "*") fun _ _ => .bind hfrom)
  exact takes_exportList_of_star hpath (.right (.bind hplain) ((takes_here "*").last
    fun _ hn => congrArg (fun x => [x]) hn))

theorem takes_exportList_braced (hlimit : 0 < g.limit) (hpath : path.all isPlain = true)
    (hname : IsName name) (hown : IsName own) :
    Takes (exportList g) ([' '] ++ (bracedText name own ++ (fromText path ++ [';']))) more
      (·.map Node.code =
        bracedCode .exportClause .exportSpecifier name own :: fromCodes path ++ [sign ";"]) := by
  refine (takes_lead [' '] rfl rfl).bind fun comments hcomments => .ahead ?_
  refine Takes.bind (takes_braced hlimit (by decide) hname hown (takes_exportSpecifier hname hown))
    fun clause hclause => (Takes.left (takes_fromPart hpath)).bind fun source hsource =>
      (takes_semicolon true).last fun closing hclosing => ?_
  subst hcomments
  rw [List.nil_append, List.map_append, List.map_cons, hclause, hsource, hclosing]

theorem takes_exportStatement {what : List Char} {n : Node}
    (hlist : Takes (exportList g) ([' '] ++ (what ++ (fromText path ++ [';']))) more
      (·.map Node.code = n :: fromCodes path ++ [sign ";"])) :
    Takes (exportStatement g) (exportText what path) more
      (·.code = exportCode what path n) := by
  have hdecorators : Takes (decorators g) []
      (exportText what path ++ more) (· = []) :=
    .nothing (fails_sub [] rfl rfl (.node (.bind (fails_here rfl)))) g.limit
  refine .node (hdecorators.after fun marks hmarks => ?_)
  subst hmarks
  refine (takes_word [] isWord_export rfl).bind fun keyword hkeyword =>
    Takes.last (.left hlist) fun body hbody => ?_
  rw [List.nil_append, List.map_append, hkeyword, hbody]
  rfl

/-! ### Statements -/

theorem takes_statement_import {P : Node → Prop} {clause : List Char}
    (h : Takes (importStatement g) (importText clause path) more P) :
    Takes (statement g) (importText clause path) more P := by
  have hword : wordAt (importText clause path ++ more) = "import" :=
    wordAt_word isWord_import
  refine .ahead ?_
  split
  next heq => cases heq
  next heq => cases heq
  next heq => cases heq
  next =>
    rw [hword]
    exact .left h

theorem takes_statement_export {P : Node → Prop} {what : List Char}
    (h : Takes (exportStatement g) (exportText what path) more P) :
    Takes (statement g) (exportText what path) more P := by
  have hword : wordAt (exportText what path ++ more) = "export" :=
    wordAt_word isWord_export
  refine .ahead ?_
  split
  next heq => cases heq
  next heq => cases heq
  next heq => cases heq
  next =>
    rw [hword]
    exact h

/-! ### Soundness -/

theorem isSound_coded {k : Kind} {text : List Char} {children : List Node} (hk : k ≠ .object)
    (h : ∀ c ∈ children, c.isSound = true) : (coded k text children).isSound = true := by
  have hsound : Node.areSound children = true := by
    induction children with
    | nil => rfl
    | cons c cs ih =>
        rw [List.forall_mem_cons] at h
        rw [Node.areSound, h.1, ih h.2]
        rfl
  rw [coded, Node.isSound, hsound, beq_false_of_ne hk]
  rfl

theorem isSound_quoted (path : List Char) : ((quoted path).as .source).isSound = true := by
  rw [quoted, fragments]
  split <;> rfl

theorem isSound_bracedCode {k item : Kind} (hk : k ≠ .object) (hitem : item ≠ .object) :
    (bracedCode k item name own).isSound = true := by
  have hbinding : (bindingCode item name own).isSound = true := by
    refine isSound_coded hitem ?_
    split
    · exact List.forall_mem_singleton.2 rfl
    · simp only [List.forall_mem_cons]
      exact ⟨rfl, rfl, rfl, nofun⟩
  refine isSound_coded hk ?_
  simp only [List.forall_mem_cons]
  exact ⟨rfl, hbinding, rfl, nofun⟩

theorem isSound_importCode {clause : List Char} {n : Node} (h : n.isSound = true) :
    (importCode clause path n).isSound = true := by
  have hclause : (coded .importClause clause [n]).isSound = true :=
    isSound_coded (by decide) (List.forall_mem_singleton.2 h)
  refine isSound_coded (by decide) ?_
  simp only [fromCodes, List.cons_append, List.nil_append, List.forall_mem_cons]
  exact ⟨rfl, hclause, rfl, isSound_quoted path, rfl, nofun⟩

theorem isSound_exportCode {what : List Char} {n : Node} (h : n.isSound = true) :
    (exportCode what path n).isSound = true := by
  refine isSound_coded (by decide) ?_
  simp only [fromCodes, List.cons_append, List.nil_append, List.forall_mem_cons]
  exact ⟨rfl, h, rfl, isSound_quoted path, rfl, nofun⟩

end Ambient.Source
