import Ambient.Proofs.Build.Naming
import Ambient.Proofs.Build.Statement
import Ambient.Proofs.Render.Line
import Ambient.Proofs.Render.MemberName
import Ambient.Proofs.Source.Literal

/-!
# String literals from source to declaration file

A string literal of a source names a member or gives the path of another module.  Building takes the
text between its quotes, with its escapes as they are written, and a declaration file has that text
as a literal again: a name in visible characters, with every backslash escaped, and a path as it is,
between double quotes.  A name keeps the value of the literal when this has no escapes; a path keeps
it when no double quote in it is bare, and is no literal otherwise.
-/

namespace Ambient

open Source

/-! ### What is written -/

namespace Render

/-- Lines that hold a text in some form, and otherwise do not depend on it. -/
def Holds (form : String → String) (lines : String → List String) : Prop :=
  ∃ before after front back, ∀ s, lines s = before ++ (front ++ form s ++ back) :: after

variable {form : String → String} {lines : String → List String}

theorem Holds.framed (h : Holds form lines) (st : Style) (ind : String) (hd : Header)
    (params : List Parameter) : Holds form fun s => framed st ind hd params (lines s) := by
  obtain ⟨before, after, front, back, hlines⟩ := h
  refine ⟨st.docBlock ind hd.description params ++ before, after ++ st.warningLines ind hd, front,
    back, fun s => ?_⟩
  simp [Render.framed, hlines]

/-- The name of a member stands in its first line of code. -/
theorem holds_memberLines (st : Style) (level : Nat) (d : Decl) :
    Holds st.ident fun name => memberLines st level name d := by
  cases hline : takesLine d with
  | true =>
      simp only [memberLines_of_line st hline]
      refine Holds.framed ?_ st _ _ _
      exact ⟨[], [], st.margin level ++ memberFront d, memberBack d, fun s => by
        simp only [String.append_assoc, List.nil_append]⟩
  | false =>
      match d, hline with
      | .object h (m :: ms), _ =>
          simp only [memberLines]
          refine Holds.framed ?_ st _ _ _
          exact ⟨[], tableLines st (level + 1) (m :: ms) ++ [st.margin level ++ "\x7d;"],
            st.margin level, ": \x7b", fun s => rfl⟩

/-- A table has a line with the written name of each of its members. -/
theorem exists_line_of_mem {members : List (String × Decl)} {name : String} {d : Decl}
    (h : (name, d) ∈ members) (st : Style) (level : Nat) :
    ∃ before after front back, tableLines st level members =
      before ++ (front ++ st.ident (memberName name) ++ back) :: after := by
  induction members with
  | nil => cases h
  | cons m members ih =>
      obtain ⟨other, e⟩ := m
      rw [tableLines]
      rcases List.mem_cons.1 h with heq | h
      · cases heq
        obtain ⟨before, after, front, back, hlines⟩ := holds_memberLines st level d
        exact ⟨before, after ++ tableLines st level members, front, back, by simp [hlines]⟩
      · obtain ⟨before, after, front, back, hlines⟩ := ih h
        exact ⟨memberLines st level (memberName other) e ++ before, after, front, back, by
          simp [hlines]⟩

/-- The path of an import stands between double quotes, in a member. -/
theorem holds_memberLines_imported (st : Style) (level : Nat) (name : String) (h : Header)
    (own : Option String) :
    Holds enquote fun path => memberLines st level name (.imported h path own) := by
  have hline (path : String) : takesLine (.imported h path own) = true := rfl
  simp only [memberLines_of_line st (hline _)]
  refine Holds.framed ?_ st _ _ _
  refine ⟨[], [], st.margin level ++ st.ident name ++ ": typeof import(",
    ")" ++ (own.bind Text.nonEmpty?).elim "" ("." ++ ·) ++ ";", fun path => ?_⟩
  refine congrArg (fun line => [line]) ?_
  rw [← String.toList_inj]
  cases hown : own.bind Text.nonEmpty? <;> simp [memberFront, memberBack, importType, enquote, hown]

theorem exists_importLine (st : Style) (name : String) (h : Header) (own : Option String) :
    ∃ front back, ∀ path, importLine st name h path own = front ++ enquote path ++ back := by
  have hsource (path : String) :
      " from \"" ++ path ++ "\";" = " from " ++ (enquote path ++ ";") := by
    rw [← String.toList_inj]
    simp [enquote]
  have hfront (front : String) : ∃ a b, ∀ path, front ++ (" from \"" ++ path ++ "\";") =
      a ++ enquote path ++ b :=
    ⟨front ++ " from ", ";", fun path => by rw [hsource]; simp only [String.append_assoc]⟩
  unfold importLine
  dsimp only
  cases own with
  | none =>
      dsimp only
      split
      · split
        · exact hfront _
        · exact hfront _
      · exact hfront _
  | some own =>
      dsimp only
      split
      · exact hfront _
      · split
        · exact hfront _
        · exact hfront _

/-- The path of an import stands between double quotes, in an item. -/
theorem holds_itemLines_imported (st : Style) (level : Nat) (name : String) (h : Header)
    (own : Option String) :
    Holds enquote fun path => itemLines st level name (.imported h path own) := by
  obtain ⟨front, back, hline⟩ := exists_importLine st name h own
  have hword (path : String) : exportWord (.imported h path own) = "" := by
    simp [exportWord, Decl.isImported]
  simp only [itemLines, itemBody, hword, hline]
  refine Holds.framed ?_ st _ _ _
  exact ⟨[], [], st.margin level ++ front, back, fun path => by
    simp only [String.append_empty, String.append_assoc, List.nil_append]⟩

end Render

/-! ### What is built -/

/-- The call loads the module whose path is the literal. -/
structure Node.Loads (n : Node) (loaders : List String) (t : Node) : Prop where
  call : n.kind = .callExpression
  callee : ∃ callee, n.child? .callee = some callee ∧ callee.kind = .identifier ∧
    callee.text ∈ loaders
  argument : (n.child? .arguments).map Node.codeChildren = some [t]
  literal : t.kind = .string

/-- The act gives a notice or registers an import from the path. -/
def Act.ImportsFrom (path : String) (a : Act) : Prop :=
  a.IsNote ∨ ∃ name h own, a = .register name (.imported h path own)

namespace Build

/-- A step that takes names from the module whose path is the literal: a declarator that takes a
loaded module apart, an import, or an export of names of the other module. -/
inductive Draws (ctx : Context) (t : Node) : (α : Type) → Build α → Prop where
  | apart {keyword : String} {n call target : Node} (hcall : n.child? .value = some call)
      (hloads : call.Loads ctx.resolver.loaders t) (htarget : n.child? .name = some target)
      (hpattern : target.kind = .objectPattern) : Draws ctx t _ (declaratorNames keyword ctx n)
  | imports {n : Node} (hk : n.kind = .importStatement) (hsource : n.child? .source = some t) :
      Draws ctx t _ (statement ctx n)
  | exports {n : Node} (hk : n.kind = .exportStatement) (hsource : n.child? .source = some t)
      (hdefault : n.children.any (·.kind == .token "default") = false)
      (hdeclaration : n.child? .declaration = none) : Draws ctx t _ (statement ctx n)

variable {ctx : Context} {n t : Node} {path : String}

/-! ### Loaded modules -/

theorem loadedModule?_of_loads (h : n.Loads ctx.resolver.loaders t) :
    loadedModule? ctx n = some t.unquoted := by
  obtain ⟨callee, hcallee, hidentifier, hloader⟩ := h.callee
  rw [loadedModule?, if_pos (by simp [h.call]), hcallee, h.argument]
  simp [hidentifier, hloader, h.literal]

theorem exists_runFrom_documentation (ctx : Context) (s : BuildState) :
    ∃ doc s', runFrom (documentation ctx) s = (.ok doc, s') := by
  unfold documentation
  split
  · rename_i comment _
    exact ⟨_, _, Prod.ext (runFrom_readComment_result comment s) rfl⟩
  · exact ⟨_, _, rfl⟩

theorem value_of_loads (h : n.Loads ctx.resolver.loaders t) :
    value ctx n = (documentation (ctx.enter n)) >>= fun doc =>
      pure (.imported { description := doc.description } t.unquoted none) := by
  have hinner : n.Loads (ctx.enter n).resolver.loaders t := h
  rw [value]
  simp only [h.call]
  rw [callValue, loadedModule?_of_loads hinner]

/-- A call that loads a module stands for an import from it. -/
theorem runFrom_value_of_loads (h : n.Loads ctx.resolver.loaders t) (s : BuildState) :
    ∃ hd s', runFrom (value ctx n) s = (.ok (.imported hd t.unquoted none), s') := by
  obtain ⟨doc, s', hdoc⟩ := exists_runFrom_documentation (ctx.enter n) s
  refine ⟨{ description := doc.description }, s', ?_⟩
  rw [value_of_loads h]
  exact runFrom_bind_of_ok hdoc _

/-! ### Names of other modules -/

theorem importsFrom_of_isNote (a : Act) (h : a.IsNote) : a.ImportsFrom path :=
  .inl h

theorem traced_register_imported (name : String) (h : Header) (own : Option String) :
    Traced (Act.ImportsFrom path) (register name (.imported h path own)) :=
  .of_act fun _ => ⟨_, .inr ⟨name, h, own, rfl⟩, rfl⟩

theorem traced_unhandled_imports {α : Type} (ctx : Context) (n : Node) :
    Traced (Act.ImportsFrom path) (unhandled ctx n : Build α) :=
  traced_unhandled importsFrom_of_isNote ctx n

theorem traced_onlyKind_imports {α : Type} (ctx : Context) (k : Kind) {f : Context → Node → Build α}
    {n : Node} (h : ∀ c, Traced (Act.ImportsFrom path) (f c n)) :
    Traced (Act.ImportsFrom path) (onlyKind ctx k f n) := by
  rw [onlyKind]
  split
  · exact h _
  · exact traced_unhandled_imports _ n

theorem traced_eachCode_imports {nodes : List Node} {f : Node → Build Unit}
    (h : ∀ n, Traced (Act.ImportsFrom path) (f n)) :
    Traced (Act.ImportsFrom path) (eachCode nodes f) := by
  rw [eachCode_eq]
  exact .forM fun n _ => h n

theorem traced_patternNames_imports (ctx : Context) (nodes : List Node) :
    Traced (Act.ImportsFrom path) (patternNames ctx (some path) nodes) := by
  have hbind (ctx : Context) (own imported : String) :
      Traced (Act.ImportsFrom path) (bindMember ctx (some path) own imported) := by
    rw [bindMember]
    simp only [pure_bind]
    exact .bind (traced_register_imported own {} (some imported)) fun _ => .pure _
  have hmember (n : Node) : Traced (Act.ImportsFrom path) (patternMember ctx (some path) n) := by
    unfold patternMember
    dsimp only
    split
    · exact hbind _ _ _
    · split
      · exact traced_onlyKind_imports _ _ fun c => hbind c _ _
      · exact traced_unhandled_imports _ n
    · exact traced_unhandled_imports _ n
  induction nodes with
  | nil => exact .pure _
  | cons n nodes ih => exact .bind (hmember n) fun _ => .bind ih fun _ => .pure _

theorem traced_importClause (ctx : Context) (n : Node) :
    Traced (Act.ImportsFrom path) (importClause ctx path n) := by
  unfold importClause
  dsimp only
  split
  · exact traced_register_imported _ _ _
  · exact traced_register_imported _ _ _
  · refine traced_eachCode_imports fun s => traced_onlyKind_imports _ _ fun _ => ?_
    exact traced_register_imported _ _ _
  · exact traced_unhandled_imports _ n

theorem traced_importStatement (ctx : Context) (hsource : n.child? .source = some t) :
    Traced (Act.ImportsFrom t.unquoted) (importStatement ctx n) := by
  have hpath : ((n.child? .source).map (·.unquoted)).getD "" = t.unquoted := by
    rw [hsource]
    rfl
  unfold importStatement
  dsimp only
  rw [hpath]
  split
  · exact traced_notify importsFrom_of_isNote _
  · exact traced_eachCode_imports fun c => traced_importClause ctx c

theorem traced_exportClause_imports (ctx : Context) (n : Node) :
    Traced (Act.ImportsFrom path) (exportClause ctx (some path) n) := by
  unfold exportClause
  dsimp only
  split
  · refine traced_eachCode_imports fun s => traced_onlyKind_imports _ _ fun _ => ?_
    exact traced_register_imported _ _ _
  · exact traced_register_imported _ _ _
  · exact .pure _
  · exact traced_unhandled_imports _ n

theorem traced_exportList_imports (ctx : Context) (hsource : n.child? .source = some t) :
    Traced (Act.ImportsFrom t.unquoted) (exportList ctx n) := by
  unfold exportList
  dsimp only
  rw [hsource, Option.map_some]
  refine .bind (.forM fun c _ => traced_exportClause_imports ctx c) fun _ => ?_
  dsimp only
  split
  · exact traced_register_imported _ _ _
  · exact .pure _

/-- Whatever is taken from another module is registered under the path as the literal has it. -/
theorem traced_of_draws {α : Type} {x : Build α} (h : Draws ctx t α x) :
    Traced (Act.ImportsFrom t.unquoted) x := by
  cases h with
  | apart hcall hloads htarget hpattern =>
      unfold declaratorNames
      rw [htarget, hcall, Option.bind_some, loadedModule?_of_loads hloads]
      dsimp only
      rw [hpattern]
      exact traced_patternNames_imports _ _
  | imports hk hsource =>
      unfold statement
      dsimp only
      rw [hk]
      exact traced_importStatement _ hsource
  | exports hk hsource hdefault hdeclaration =>
      unfold statement
      dsimp only
      rw [hk]
      dsimp only
      unfold exportStatement
      rw [hdefault, hdeclaration]
      exact traced_exportList_imports _ hsource

/-! ### Values kept -/

/-- A literal as the name of a member. -/
structure NamesMember (t : Node) (value : List Nat) : Prop where
  /-- As a key or as the name of a method it adds the text between its quotes. -/
  adds : ∀ (b : Body) (n : Node), b.Uses n t → n.kind ≠ .fieldDefinition →
    b.Adds n (some t.unquoted)
  /-- A member of that name is written under its written name. -/
  written : ∀ (st : Style) (level : Nat) (members : List (String × Decl)) (d : Decl),
    (t.unquoted, d) ∈ members → ∃ before after front back, Render.tableLines st level members =
      before ++ (front ++ st.ident (Render.memberName t.unquoted) ++ back) :: after
  /-- The written name is the text itself, without quotes, or a literal, which has the value exactly
  when the literal of the source has no escapes. -/
  kept : (Render.memberName t.unquoted = t.unquoted ∧ t.unquoted.toList.head? ≠ some '"') ∨
    Denotes (Render.memberName t.unquoted) (units t.unquoted.toList) ∧
      (Denotes (Render.memberName t.unquoted) value ↔ '\\' ∉ t.text.toList)

/-- A literal as the path of another module. -/
structure LocatesModule (t : Node) (value : List Nat) : Prop where
  /-- A call that loads the module stands for an import from the text between the quotes. -/
  loads : ∀ (ctx : Context) (n : Node), n.Loads ctx.resolver.loaders t → ∀ s, ∃ h s',
    runFrom (Build.value ctx n) s = (.ok (.imported h t.unquoted none), s')
  /-- What is taken from the module is registered as an import from that text. -/
  draws : ∀ (ctx : Context) (α : Type) (x : Build α), Draws ctx t α x →
    Traced (Act.ImportsFrom t.unquoted) x
  /-- An import is written with its path between double quotes, as an item and as a member. -/
  written : ∀ (st : Style) (level : Nat) (name : String) (h : Header) (own : Option String),
    Render.Holds enquote (fun path => Render.itemLines st level name (.imported h path own)) ∧
      Render.Holds enquote (fun path => Render.memberLines st level name (.imported h path own))
  /-- The written path has the value of the literal exactly when no double quote in it is bare, and
  never another one. -/
  kept : ∀ other, Denotes (enquote t.unquoted) other ↔
    other = value ∧ hasBareQuote t.unquoted.toList = false

/-- String literals and their values.  Whatever a literal of a source denotes, the literal that a
declaration file has for it, as the name of a member or as the path of another module, is written
for the text between its quotes.  The name denotes the same exactly when the literal has no escapes,
and the path exactly when no double quote in it is bare. -/
theorem literal_value_kept_iff (t : Node) (ht : t.kind = .string) (value : List Nat)
    (hvalue : Denotes t.text value) : NamesMember t value ∧ LocatesModule t value := by
  constructor
  · refine ⟨fun b n huse hfield => ?_, fun st level members d hmem => ?_, ?_⟩
    · have hadds := adds_definedName? b n
      have hname : t.isPropertyName = true := by simp [Node.isPropertyName, ht]
      have hkey : t.key? = some t.unquoted := by rw [Node.key?, ht]
      rwa [definedName?_of_uses huse hname, if_neg hfield, hkey] at hadds
    · exact Render.exists_line_of_mem hmem st level
    · refine (Render.memberName_eq_or t.unquoted).imp_right fun hquoted => ?_
      rw [hquoted]
      exact ⟨denotes_quoteAscii t.unquoted, hvalue.quoteAscii_iff⟩
  · exact ⟨fun ctx n hloads s => runFrom_value_of_loads hloads s,
      fun ctx α x hdraws => traced_of_draws hdraws,
      fun st level name h own => ⟨Render.holds_itemLines_imported st level name h own,
        Render.holds_memberLines_imported st level name h own⟩, hvalue.enquote_iff⟩

/-- `{ 'é b': 1 }` and a module of that path: both literals that are written denote the same. -/
theorem literal_value_kept_iff_accented :
    let t := (leaf .string "\x27é b\x27").as .key
    Denotes t.text [0xe9, 0x20, 0x62] ∧
      Body.object.Adds (pairOf (leaf .string "\x27é b\x27") (leaf .number "1")) (some "é b") ∧
      Render.memberName "é b" = "\"\\u00e9 b\"" ∧ Denotes "\"\\u00e9 b\"" [0xe9, 0x20, 0x62] ∧
      Denotes "\"é b\"" [0xe9, 0x20, 0x62] := by
  intro t
  have hvalue : Denotes t.text [0xe9, 0x20, 0x62] :=
    ⟨'\x27', ['é', ' ', 'b'], .inr rfl, by decide, spells_units (by simp)⟩
  have hunquoted : t.unquoted = "é b" := by decide
  have hquoted : Render.memberName "é b" = "\"\\u00e9 b\"" := by decide
  have henquote : enquote "é b" = "\"é b\"" := by decide
  obtain ⟨hname, hpath⟩ := literal_value_kept_iff t rfl _ hvalue
  have hadds := hname.adds .object (pairOf (leaf .string "\x27é b\x27") (leaf .number "1"))
    (.pair rfl rfl) nofun
  have hkept := hname.kept
  have hlocated := hpath.kept [0xe9, 0x20, 0x62]
  rw [hunquoted] at hadds hkept hlocated
  rw [hquoted] at hkept
  rw [henquote] at hlocated
  refine ⟨hvalue, hadds, hquoted, ?_, hlocated.2 ⟨rfl, by decide⟩⟩
  rcases hkept with ⟨hbare, -⟩ | ⟨-, hiff⟩
  · exact absurd hbare (by decide)
  · exact hiff.2 (by decide)

/-! ### Values lost -/

/-- `f(a)` -/
def callOf (callee argument : Node) : Node :=
  ⟨.callExpression, none, "", 1, 0,
    [callee.as .callee, ⟨.arguments, some .arguments, "", 1, 0, [argument]⟩]⟩

/-- The key of `{ 'a\'b': 1 }` denotes `a'b`, and the name that is written for it does not.  The
path of `require('a"b')` denotes `a"b`, and what is written for it is no literal. -/
theorem escape_and_quote_lost :
    let key := leaf .string "\x27a\\\x27b\x27"
    let path := leaf .string "\x27a\"b\x27"
    (Denotes key.text [0x61, 0x27, 0x62] ∧
      (∃ d, runFrom (value {} (objectOfNodes [pairOf key (leaf .number "1")])) (start "m") =
          (.ok d, start "m") ∧
        Render.itemLines {} 1 "o" d =
          ["    const o: \x7b", "        \"a\\\\\x27b\": number;", "    \x7d;"]) ∧
      ¬ Denotes "\"a\\\\\x27b\"" [0x61, 0x27, 0x62]) ∧
    (Denotes path.text [0x61, 0x22, 0x62] ∧
      (∃ d, runFrom (value {} (callOf (leaf .identifier "require") path)) (start "m") =
          (.ok d, start "m") ∧
        Render.itemLines {} 1 "m" d = ["    import * as m from \"a\"b\";"]) ∧
      ∀ other, ¬ Denotes "\"a\"b\"" other) := by
  intro key path
  have hkey : Denotes key.text [0x61, 0x27, 0x62] :=
    ⟨'\x27', ['a', '\\', '\x27', 'b'], .inr rfl, by decide,
      .plain (by decide) (by decide) (by decide)
        (.escape (rfl : escape? ['\x27', 'b'] = some ([0x27], ['b'])) (spells_units (by simp)))⟩
  have hpath : Denotes path.text [0x61, 0x22, 0x62] :=
    ⟨'\x27', ['a', '"', 'b'], .inr rfl, by decide, spells_units (by simp)⟩
  have hloads : (callOf (leaf .identifier "require") path).Loads ["require"] path :=
    ⟨rfl, ⟨_, rfl, rfl, by decide⟩, rfl, rfl⟩
  have hcall : runFrom (value {} (callOf (leaf .identifier "require") path)) (start "m") =
      (.ok (.imported {} path.unquoted none), start "m") := by
    rw [value_of_loads hloads]
    rfl
  have hname : Text.quoteAscii key.unquoted = "\"a\\\\\x27b\"" := by decide
  have henquote : enquote path.unquoted = "\"a\"b\"" := by decide
  refine ⟨⟨hkey, ⟨_, runFrom_pairOf _ _, by decide⟩, ?_⟩, ⟨hpath, ⟨_, hcall, by decide⟩, ?_⟩⟩
  · rw [← hname, hkey.quoteAscii_iff]
    decide
  · intro other
    rw [← henquote, hpath.enquote_iff]
    exact fun h => absurd h.2 (by decide)

end Build

end Ambient
