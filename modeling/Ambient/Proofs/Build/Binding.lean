import Ambient.Proofs.Build.Reading
import Ambient.Proofs.Build.Slot

/-!
# Names bound by statements

The names that a statement registers as local declarations, read off its tree.  A finished run of a
statement that does not assign `module.exports` registers exactly these names, in their order, and
exports no name that the statement does not mention.
-/

namespace Ambient

namespace Node

/-- The names bound by a member of a pattern. -/
def memberNames (n : Node) : List String :=
  match n.kind with
  | .shorthandPropertyIdentifierPattern => [n.text]
  | .pairPattern => ((n.child? .value).map (·.text)).toList
  | _ => []

/-- The names bound by a declarator: a plain name, or those of a pattern. -/
def declaratorNames (n : Node) : List String :=
  match n.child? .name with
  | none => []
  | some target =>
    match target.kind with
    | .identifier => [target.text]
    | .objectPattern => target.codeChildren.flatMap memberNames
    | _ => []

/-- The names bound by a declaration. -/
def declaredNames (n : Node) : List String :=
  match n.kind with
  | .variableDeclaration | .lexicalDeclaration => n.codeChildren.flatMap declaratorNames
  | .functionDeclaration | .generatorFunctionDeclaration | .classDeclaration =>
    ((n.child? .name).map (·.text)).toList
  | _ => []

/-- The name that a specifier gives: the one behind `as`, else its own. -/
def specifierName (n : Node) : String :=
  (((n.child? .renamed).or (n.child? .name)).map (·.text)).getD ""

theorem getD_renamed (n : Node) :
    ((n.child? .renamed).map (·.text)).getD (((n.child? .name).map (·.text)).getD "") =
      n.specifierName := by
  rw [specifierName]
  cases n.child? .renamed with
  | none => rfl
  | some r => rfl

/-- The names bound by a clause of an import. -/
def clauseNames (n : Node) : List String :=
  match n.kind with
  | .identifier => [n.text]
  | .namespaceImport => [(n.codeChildren.head?.map (·.text)).getD ""]
  | .namedImports => n.codeChildren.map specifierName
  | _ => []

/-- The names of the types that a comment defines. -/
def typedefNames (n : Node) : List String :=
  if Doc.isBlock n.text && Doc.isDetached n.text then
    ((Doc.Comment.read n.text).find "typedef").flatMap (·.name.toList)
  else []

/-- The names that a statement registers as local declarations. -/
def boundNames (st : Node) : List String :=
  match st.kind with
  | .comment => st.typedefNames
  | .importStatement =>
    ((st.childOfKind? .importClause).map fun c => c.codeChildren.flatMap clauseNames).getD []
  | .exportStatement => ((st.child? .declaration).map declaredNames).getD []
  | _ => st.declaredNames

/-- The statement is an export or has an assignment that exports the name. -/
def MayExport (st : Node) (name : String) : Prop :=
  st.kind = .exportStatement ∨
    ∃ path, st.Assigns path ∧ Build.Target.ofPath path = .exported name

/-- The node does not assign `module.exports`, and its assignments export names of `E` only. -/
def ExportsWithin (E : String → Prop) (n : Node) : Prop :=
  ∀ path, n.Assigns path → Build.Target.ofPath path ≠ .aggregate ∧
    ∀ name, Build.Target.ofPath path = .exported name → E name

theorem ExportsWithin.child {E : String → Prop} {n c : Node} (h : n.ExportsWithin E)
    (hn : n.isFunction = false) (hc : c ∈ n.children) : c.ExportsWithin E :=
  fun path hpath => h path (hpath.of_contains (.child hn hc (.self c)))

end Node

namespace Act

/-- The name under which the act registers a local declaration. -/
def localName? : Act → Option String
  | .register name d => if d.exported then none else some name
  | _ => none

theorem localName?_eq_some {a : Act} {name : String} : a.localName? = some name ↔ a.Binds name := by
  cases a with
  | register other d =>
      rw [localName?, Binds]
      cases hd : d.exported <;> simp
  | _ => simp [localName?, Binds]

/-- The act registers no local declaration, exports names of `E` only and does not export the
module as a whole. -/
def Spares (E : String → Prop) (a : Act) : Prop :=
  ¬ a.IsAggregate ∧ a.localName? = none ∧ ∀ name, a.Exports name → E name

end Act

/-- The acts register exactly the given names as local declarations, in that order, export names of
`E` only and do not export the module as a whole. -/
structure Account (E : String → Prop) (names : List String) (acts : List Act) : Prop where
  memberwise : ∀ a ∈ acts, ¬ a.IsAggregate
  locals : acts.filterMap Act.localName? = names
  exports : ∀ a ∈ acts, ∀ name, a.Exports name → E name

namespace Account

variable {E : String → Prop} {names others : List String} {acts rest : List Act}

theorem of_spares (h : ∀ a ∈ acts, a.Spares E) : Account E [] acts where
  memberwise a ha := (h a ha).1
  locals := List.filterMap_eq_nil_iff.2 fun a ha => (h a ha).2.1
  exports a ha := (h a ha).2.2

theorem append (h : Account E names acts) (h' : Account E others rest) :
    Account E (names ++ others) (acts ++ rest) where
  memberwise := List.forall_mem_append.2 ⟨h.memberwise, h'.memberwise⟩
  locals := by rw [List.filterMap_append, h.locals, h'.locals]
  exports := List.forall_mem_append.2 ⟨h.exports, h'.exports⟩

theorem mem_of_binds (h : Account E names acts) {a : Act} (ha : a ∈ acts) {name : String}
    (hbinds : a.Binds name) : name ∈ names := by
  rw [← h.locals]
  exact List.mem_filterMap.2 ⟨a, ha, Act.localName?_eq_some.2 hbinds⟩

theorem exists_binds_of_mem (h : Account E names acts) {name : String} (hname : name ∈ names) :
    ∃ a ∈ acts, a.Binds name := by
  rw [← h.locals] at hname
  obtain ⟨a, ha, hlocal⟩ := List.mem_filterMap.1 hname
  exact ⟨a, ha, Act.localName?_eq_some.1 hlocal⟩

end Account

namespace Build

variable {α β : Type} {E : String → Prop} {names others : List String}

/-- Every finished run registers exactly the given names as local declarations, in that order,
exports names of `E` only and does not export the module as a whole. -/
def Binds (E : String → Prop) (names : List String) (x : Build α) : Prop :=
  ∀ s a s', runFrom x s = (.ok a, s') →
    ∃ acts : List Act, Account E names acts ∧ s' = s.afterAll acts

namespace Binds

theorem of_traced {x : Build α} (h : Traced (Act.Spares E) x) : Binds E [] x := by
  intro s a s' hrun
  obtain ⟨acts, hacts, hs⟩ := h s
  rw [hrun] at hs
  exact ⟨acts, .of_spares hacts, hs⟩

theorem pure (a : α) : Binds E [] (pure a : Build α) :=
  of_traced (.pure a)

theorem unhandled (ctx : Context) (n : Node) : Binds E names (unhandled ctx n : Build α) := by
  intro s a s' hrun
  cases hrun

theorem bind_of {Q : α → Prop} {x : Build α} {f : α → Build β} (hx : Binds E names x)
    (hgives : Gives Q x) (hf : ∀ a, Q a → Binds E others (f a)) :
    Binds E (names ++ others) (x >>= f) := by
  intro s b s' hrun
  obtain ⟨a, mid, hx', hf'⟩ := runFrom_bind_ok hrun
  obtain ⟨acts, hacts, rfl⟩ := hx s a mid hx'
  obtain ⟨rest, hrest, rfl⟩ := hf a (hgives s a _ hx') _ b s' hf'
  exact ⟨acts ++ rest, hacts.append hrest, (BuildState.afterAll_append s acts rest).symm⟩

theorem bind {x : Build α} {f : α → Build β} (hx : Binds E names x)
    (hf : ∀ a, Binds E others (f a)) : Binds E (names ++ others) (x >>= f) :=
  hx.bind_of (Q := fun _ => True) (fun _ _ _ _ => trivial) fun a _ => hf a

/-- The first step registers nothing. -/
theorem behind_of {Q : α → Prop} {x : Build α} {f : α → Build β} (hx : Traced (Act.Spares E) x)
    (hgives : Gives Q x) (hf : ∀ a, Q a → Binds E names (f a)) : Binds E names (x >>= f) :=
  bind_of (of_traced hx) hgives hf

theorem behind {x : Build α} {f : α → Build β} (hx : Traced (Act.Spares E) x)
    (hf : ∀ a, Binds E names (f a)) : Binds E names (x >>= f) :=
  bind (of_traced hx) hf

/-- The second step registers nothing. -/
theorem followed {x : Build α} {f : α → Build β} (hx : Binds E names x)
    (hf : ∀ a, Traced (Act.Spares E) (f a)) : Binds E names (x >>= f) := by
  have h := hx.bind fun a => of_traced (hf a)
  rwa [List.append_nil] at h

theorem forM {xs : List β} {f : β → Build Unit} {g : β → List String}
    (h : ∀ b ∈ xs, Binds E (g b) (f b)) : Binds E (xs.flatMap g) (xs.forM f) := by
  induction xs with
  | nil => exact pure _
  | cons b xs ih =>
      rw [List.flatMap_cons]
      exact bind (h b (List.mem_cons_self ..)) fun _ =>
        ih fun c hc => h c (List.mem_cons_of_mem _ hc)

end Binds

end Build

end Ambient
