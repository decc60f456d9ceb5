import Ambient.Proofs.Build.Kept
import Ambient.Proofs.Build.Typedef
import Ambient.Proofs.Source.Reference
import Ambient.Proofs.Source.Single
import Ambient.Proofs.Text.Trim

/-!
# Imports read back

An import of a module, or an export from another one, is written as one line; read as a source, the
line gives the module that holds this import and nothing else.
-/

namespace Ambient

namespace Source

/-! ### Names between quotes -/

theorem isQuote_eq_false {p : Char → Bool} {c : Char} (hc : p c = true) (hdouble : p '"' = false)
    (hsingle : p '\x27' = false) : TypeExpr.isQuote c = false := by
  have hne : c ≠ '"' ∧ c ≠ '\x27' := by
    constructor <;> rintro rfl <;> simp_all
  simpa [TypeExpr.isQuote] using hne

theorem isQuote_of_wordTail {w : List Char} (h : WordTail w) :
    ∀ c ∈ w, TypeExpr.isQuote c = false := by
  induction h with
  | nil => nofun
  | @part c cs hc _ ih =>
      refine List.forall_mem_cons.2 ⟨?_, ih⟩
      exact isQuote_eq_false hc rfl rfl
  | fixed _ _ _ ih => exact List.forall_mem_cons.2 ⟨rfl, List.forall_mem_cons.2 ⟨rfl, ih⟩⟩
  | @braced digits cs _ hhex _ ih =>
      have hdigits : ∀ c ∈ digits, TypeExpr.isQuote c = false := fun c hc =>
        isQuote_eq_false (List.all_eq_true.1 hhex c hc) rfl rfl
      simp only [List.forall_mem_cons, List.forall_mem_append]
      exact ⟨rfl, rfl, rfl, hdigits, rfl, ih⟩

theorem trimEnds_name {name : String} (h : IsName name) :
    Text.trimEnds TypeExpr.isQuote name.toList = name.toList := by
  obtain ⟨c, cs, hname, -⟩ := h.word.exists_cons
  exact (Text.tight_of_forall (by rw [hname]; nofun) (isQuote_of_wordTail h.word.tail)).trimEnds_eq

end Source

namespace Build

open Source

/-! ### What one statement registers -/

/-- The state behind the registration of one item. -/
def registeredOne (modName name : String) (d : Decl) : BuildState :=
  { module := { name := modName, items := [(name, d)] }, registered := [name] }

/-- The text is read as the statement of a code, which registers one item. -/
structure Echoes (text : List Char) (n : Node) (name : String) (d : Decl) : Prop where
  front : ∃ c cs, text = c :: cs ∧ isWordHead c = true
  sound : n.isSound = true
  read : ∀ g : Grammar, 0 < g.limit → Reader.Takes (Source.statement g) text [] (·.code = n)
  run : ∀ resolver modName, runFrom (statements { resolver } [] [n]) (start modName) =
    (.ok (), registeredOne modName name d)

section

variable {name own : String} {path : List Char}

theorem echoes_importAll (hpath : path.all isPlain = true) (hname : IsName name) :
    Echoes (importText (starText name) path)
      (importCode (starText name) path (starCode .namespaceImport name))
      name (.imported {} (String.ofList path) none) where
  front := ⟨_, _, rfl, rfl⟩
  sound := isSound_importCode rfl
  read g _ := takes_statement_import (takes_importStatement hpath rfl
    (fails_string (by decide) (by decide)) (takes_importClause_star hname))
  run resolver modName := by
    have hrun : runFrom (statements { resolver } []
        [importCode (starText name) path (starCode .namespaceImport name)]) (start modName) =
        (.ok (), registeredOne modName (ident name).text
          (.imported {} (quoted path).unquoted none)) := rfl
    rw [hrun, text_ident, unquoted_quoted]

theorem echoes_importDefault (hpath : path.all isPlain = true) (hname : IsName name) :
    Echoes (importText name.toList path) (importCode name.toList path (ident name))
      name (.imported {} (String.ofList path) (some "default")) where
  front := ⟨_, _, rfl, rfl⟩
  sound := isSound_importCode rfl
  read g _ := by
    obtain ⟨c, cs, htext, hc⟩ := hname.word.exists_cons
    refine takes_statement_import (takes_importStatement hpath (isSolid_word hname.word) ?_
      (takes_importClause_name hname))
    rw [htext]
    exact fails_string (ne_of_isWordHead hc rfl) (ne_of_isWordHead hc rfl)
  run resolver modName := by
    have hrun : runFrom (statements { resolver } [] [importCode name.toList path (ident name)])
        (start modName) =
        (.ok (), registeredOne modName (ident name).text
          (.imported {} (quoted path).unquoted (some "default"))) := rfl
    rw [hrun, text_ident, unquoted_quoted]

theorem echoes_importNamed (hpath : path.all isPlain = true) (hname : IsName name)
    (hown : IsName own) :
    Echoes (importText (bracedText name own) path)
      (importCode (bracedText name own) path (bracedCode .namedImports .importSpecifier name own))
      name (.imported {} (String.ofList path) (some own)) where
  front := ⟨_, _, rfl, rfl⟩
  sound := isSound_importCode (isSound_bracedCode (by decide) (by decide))
  read g hlimit := takes_statement_import (takes_importStatement hpath rfl
    (fails_string (by decide) (by decide)) (takes_importClause_braced hlimit hname hown))
  run resolver modName := by
    have hrun : runFrom (statements { resolver } [] [importCode (bracedText name own) path
        (bracedCode .namedImports .importSpecifier name own)]) (start modName) =
        (.ok (), registeredOne modName (ident name).text
          (.imported {} (quoted path).unquoted (some (ident own).text))) := by
      rw [bracedCode, bindingCode]
      split
      next heq =>
        subst heq
        rfl
      next => rfl
    rw [hrun, text_ident, text_ident, unquoted_quoted]

theorem echoes_exportAll (hpath : path.all isPlain = true) :
    Echoes (exportText ['*'] path) (exportCode ['*'] path (sign "*"))
      (wildcardName (String.ofList path))
      (.imported { exported := true } (String.ofList path) none) where
  front := ⟨_, _, rfl, rfl⟩
  sound := isSound_exportCode rfl
  read g _ := takes_statement_export (takes_exportStatement (takes_exportList_all hpath))
  run resolver modName := by
    have hrun : runFrom (statements { resolver } [] [exportCode ['*'] path (sign "*")])
        (start modName) =
        (.ok (), registeredOne modName (wildcardName (quoted path).unquoted)
          (.imported { exported := true } (quoted path).unquoted none)) := rfl
    rw [hrun, unquoted_quoted]

theorem echoes_exportAs (hpath : path.all isPlain = true) (hname : IsName name) :
    Echoes (exportText (starText name) path)
      (exportCode (starText name) path (starCode .namespaceExport name))
      name (.imported { exported := true } (String.ofList path) none) where
  front := ⟨_, _, rfl, rfl⟩
  sound := isSound_exportCode rfl
  read g _ := takes_statement_export (takes_exportStatement (takes_exportList_star hpath hname))
  run resolver modName := by
    have hrun : runFrom (statements { resolver } []
        [exportCode (starText name) path (starCode .namespaceExport name)]) (start modName) =
        (.ok (), registeredOne modName
          (String.ofList (Text.trimEnds TypeExpr.isQuote (ident name).text.toList))
          (.imported { exported := true } (quoted path).unquoted none)) := rfl
    rw [hrun, text_ident, trimEnds_name hname, String.ofList_toList, unquoted_quoted]

theorem echoes_exportNamed (hpath : path.all isPlain = true) (hname : IsName name)
    (hown : IsName own) :
    Echoes (exportText (bracedText name own) path)
      (exportCode (bracedText name own) path (bracedCode .exportClause .exportSpecifier name own))
      name (.imported { exported := true } (String.ofList path) (some own)) where
  front := ⟨_, _, rfl, rfl⟩
  sound := isSound_exportCode (isSound_bracedCode (by decide) (by decide))
  read g hlimit := takes_statement_export
    (takes_exportStatement (takes_exportList_braced hlimit hpath hname hown))
  run resolver modName := by
    have hrun : runFrom (statements { resolver } [] [exportCode (bracedText name own) path
        (bracedCode .exportClause .exportSpecifier name own)]) (start modName) =
        (.ok (), registeredOne modName (ident name).text
          (.imported { exported := true } (quoted path).unquoted (some (ident own).text))) := by
      rw [bracedCode, bindingCode]
      split
      next heq =>
        subst heq
        rfl
      next => rfl
    rw [hrun, text_ident, text_ident, unquoted_quoted]

end

/-- A text behind blanks that echoes an import is the source of the module with that import. -/
theorem result_of_echoes (resolver : Resolver) (modName : String) {blanks text : List Char}
    {n : Node} {h : Header} {name path : String} {own : Option String}
    (hecho : Echoes text n name (.imported h path own)) (hblanks : blanks.all isSpace = true) :
    (ofSource resolver modName (String.ofList (blanks ++ text))).result =
      .ok { name := modName, items := [(name, .imported h path own)] } := by
  obtain ⟨c, cs, htext, hc⟩ := hecho.front
  have hhead : (blanks ++ text).head? ≠ some '#' := by
    cases blanks with
    | nil =>
        rw [htext]
        exact fun heq => ne_of_isWordHead hc rfl (Option.some.inj heq)
    | cons b blanks =>
        intro heq
        rw [Option.some.inj heq] at hblanks
        cases hblanks
  obtain ⟨tree, hparse, -, hchildren⟩ := parse?_of_takes hblanks hhead
    (by rw [htext]; exact isSolid_of_isWordHead hc) (by rw [htext]; nofun) hecho.sound hecho.read
  have hcodes : tree.children.map Node.code = [n].map Node.code := by
    obtain ⟨m, -, hm⟩ := List.map_eq_singleton_iff.1 hchildren
    rw [hchildren, List.map_singleton, ← hm, Node.code_code]
  obtain ⟨hresult, hbeside⟩ := (follows_sameCode { resolver } rfl hcodes).run (start modName)
    (start modName) (.refl _) (by nofun)
  rw [hecho.run] at hresult hbeside
  rcases hrun : runFrom (statements { resolver } [] tree.children) (start modName) with
    ⟨f | ⟨⟩, s⟩
  · rw [hrun] at hresult
    cases hresult
  · rw [hrun] at hbeside
    rw [ofSource, hparse]
    dsimp only
    rw [result_ofTree hrun, hbeside.module_eq]
    rfl

/-! ### What is written -/

/-- What an import statement or an export from another module registers: a name, whether it is
exported, the path of the other module and the name there, none for the module as a whole. -/
inductive Reference : String → Bool → String → Option String → Prop where
  | all {name path : String} : IsName name → Reference name false path none
  | default {name path : String} : IsName name → Reference name false path (some "default")
  | named {name path own : String} : IsName name → IsName own →
      Reference name false path (some own)
  | exportedAs {name path : String} : IsName name → Reference name true path none
  | exportedNamed {name path own : String} : IsName name → IsName own →
      Reference name true path (some own)
  | exportedAll {path : String} : Reference (wildcardName path) true path none

theorem entryLines_imported (st : Style) (name : String) (exported : Bool) (path : String)
    (own : Option String) :
    Render.entryLines st name (.imported { exported } path own) =
      [st.margin 1 ++ Render.importLine st name { exported } path own] := by
  have hword : Render.exportWord (.imported { exported } path own) = "" := by
    simp [Render.exportWord, Decl.isImported]
  have hwarnings : st.warningLines (st.margin 1) { exported } = [] := by
    rw [Style.warningLines]
    split <;> rfl
  rw [Render.entryLines, if_neg (by simp [Decl.isImported]), Render.itemLines, hword]
  change st.docBlock (st.margin 1) "" [] ++ [_] ++ st.warningLines (st.margin 1) { exported } = _
  rw [hwarnings, String.append_empty]
  rfl

section

variable {st : Style} {name own : String}

theorem startsWith_star_of_isName (h : IsName name) : Text.startsWith "*" name = false := by
  obtain ⟨c, cs, htext, hc⟩ := h.word.exists_cons
  rw [Text.startsWith, htext]
  change (if '*' = c then some _ else none).isSome = false
  rw [if_neg (ne_of_isWordHead hc rfl).symm]
  rfl

theorem toList_exportAll (path : String) :
    (Render.importLine st (wildcardName path) { exported := true } path none).toList =
      exportText ['*'] path.toList := by
  have hstar : Text.startsWith "*" (wildcardName path) = true := by
    simp [Text.startsWith, wildcardName, Text.after?]
  delta exportText
  simp [Render.importLine, fromText, hstar]

variable (hcolors : st.colors = false)

include hcolors

theorem ident_of_colorless (name : String) : st.ident name = name := by
  rw [Style.ident, Style.paint, hcolors]
  rfl

theorem toList_importBinding (name own : String) :
    (Render.importBinding st name own).toList = bindingText name own := by
  rw [Render.importBinding, bindingText, ident_of_colorless hcolors]
  split <;> simp [asText]

theorem toList_importAll (name path : String) :
    (Render.importLine st name {} path none).toList = importText (starText name) path.toList := by
  delta importText
  simp [Render.importLine, starText, asText, fromText, ident_of_colorless hcolors]

theorem toList_importDefault (name path : String) :
    (Render.importLine st name {} path (some "default")).toList =
      importText name.toList path.toList := by
  delta importText
  simp [Render.importLine, fromText, ident_of_colorless hcolors]

theorem toList_importNamed (name path : String) (hown : own ≠ "default") :
    (Render.importLine st name {} path (some own)).toList =
      importText (bracedText name own) path.toList := by
  delta importText
  simp [Render.importLine, bracedText, fromText, hown, toList_importBinding hcolors]

theorem toList_exportAs (hname : IsName name) (path : String) :
    (Render.importLine st name { exported := true } path none).toList =
      exportText (starText name) path.toList := by
  delta exportText
  simp [Render.importLine, starText, asText, fromText, ident_of_colorless hcolors,
    startsWith_star_of_isName hname]

theorem toList_exportNamed (name own path : String) :
    (Render.importLine st name { exported := true } path (some own)).toList =
      exportText (bracedText name own) path.toList := by
  delta exportText
  simp [Render.importLine, bracedText, fromText, toList_importBinding hcolors]

/-- The line of an import echoes it. -/
theorem echoes_importLine {exported : Bool} {path : String} {own : Option String}
    (hpath : path.toList.all isPlain = true) (h : Reference name exported path own) :
    ∃ n, Echoes (Render.importLine st name { exported } path own).toList n name
      (.imported { exported } path own) := by
  nth_rewrite 2 [← @String.ofList_toList path]
  cases h with
  | all hname =>
      rw [toList_importAll hcolors]
      exact ⟨_, echoes_importAll hpath hname⟩
  | default hname =>
      rw [toList_importDefault hcolors]
      exact ⟨_, echoes_importDefault hpath hname⟩
  | @named _ _ own hname hown =>
      have hne : own ≠ "default" := by
        rintro rfl
        exact hown.free (by decide)
      rw [toList_importNamed hcolors _ _ hne]
      exact ⟨_, echoes_importNamed hpath hname hown⟩
  | exportedAs hname =>
      rw [toList_exportAs hcolors hname]
      exact ⟨_, echoes_exportAs hpath hname⟩
  | exportedNamed hname hown =>
      rw [toList_exportNamed hcolors]
      exact ⟨_, echoes_exportNamed hpath hname hown⟩
  | exportedAll =>
      rw [toList_exportAll]
      have hecho := echoes_exportAll hpath
      rw [String.ofList_toList] at hecho ⊢
      exact ⟨_, hecho⟩

end

/-- **Imports read back.**  Every import that a statement of a source registers is written as one
line, when colours are off; and the line, read as a source, gives the module whose only item is this
import. -/
theorem import_reads_back (resolver : Resolver) (modName : String) {st : Style}
    (hcolors : st.colors = false) {name path : String} {exported : Bool} {own : Option String}
    (h : Reference name exported path own)
    (hpath : ∀ c ∈ path.toList, c ∉ ['"', '\\', '\n', '\r']) :
    ∃ line, Render.entryLines st name (.imported { exported } path own) = [line] ∧
      moduleOf resolver modName line =
        .ok { name := modName, items := [(name, .imported { exported } path own)] } := by
  have hplain : path.toList.all isPlain = true := by
    refine List.all_eq_true.2 fun c hc => ?_
    simpa [isPlain, and_assoc, and_comm, and_left_comm] using hpath c hc
  obtain ⟨n, hecho⟩ := echoes_importLine hcolors hplain h
  have hblanks : (st.margin 1).toList.all isSpace = true := by
    rw [Style.margin, String.toList_ofList, List.all_replicate]
    split <;> rfl
  refine ⟨_, entryLines_imported st name exported path own, ?_⟩
  have hresult := result_of_echoes resolver modName hecho hblanks
  rwa [← String.toList_append, String.ofList_toList] at hresult

/-- The case of `export { a as b } from "./m";`. -/
theorem import_reads_back_renamed :
    ∃ line, Render.entryLines {} "b" (.imported { exported := true } "./m" (some "a")) = [line] ∧
      moduleOf {} "m" line =
        .ok { name := "m", items := [("b", .imported { exported := true } "./m" (some "a"))] } :=
  import_reads_back {} "m" rfl
    (.exportedNamed ⟨isWord_of_all (by decide) (by decide), by decide⟩
      ⟨isWord_of_all (by decide) (by decide), by decide⟩) (by simp)

end Build

end Ambient
