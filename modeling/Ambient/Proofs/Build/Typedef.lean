import Ambient.Proofs.Build.Beside
import Ambient.Proofs.Build.Marker
import Ambient.Proofs.Doc.Mention
import Ambient.Proofs.Doc.Named

/-!
# Where types are defined

A comment that defines types registers them where it stands, and as it is detached it documents
nothing, so a search for documentation passes over it.  Behind it the pass goes on beside the entries
that the comment added, up to the end of the source; before it nothing has happened yet.  So two
places for the comment lead to the same entries, in an order of their own, and validation looks at no
order.
-/

namespace Ambient

namespace Table

variable {α : Type}

/-- Names that are left out may be set or not. -/
theorem without_setAll_of_subset (t : Table α) {u : Table α} {names : List String}
    (h : ∀ name ∈ u.names, name ∈ names) : (t.setAll u).without names = t.without names := by
  induction u generalizing t with
  | nil => rfl
  | cons e u ih =>
      obtain ⟨he, hu⟩ := List.forall_mem_cons.1 h
      rw [setAll_cons, ih _ hu, without_set, if_pos he]

/-- Of a name that is set, what stood under it before does not count. -/
theorem get?_setAll_of_mem (t t' : Table α) {u : Table α} {name : String} (h : name ∈ u.names) :
    (t.setAll u).get? name = (t'.setAll u).get? name := by
  induction u generalizing t t' with
  | nil => cases h
  | cons e u ih =>
      rw [setAll_cons, setAll_cons]
      by_cases hu : name ∈ names u
      · exact ih _ _ hu
      · have he : name = e.1 := (List.mem_cons.1 h).resolve_right hu
        rw [get?_setAll_of_not_mem hu, get?_setAll_of_not_mem hu, he, get?_set_self, get?_set_self]

/-- Tables with distinct names that are equal but for the order have the same entries. -/
theorem get?_of_perm {t u : Table α} (ht : t.names.Nodup) (h : t.Perm u) (name : String) :
    t.get? name = u.get? name := by
  have hu : u.names.Nodup := (h.map Prod.fst).nodup_iff.1 ht
  ext a
  constructor
  · exact fun hget => get?_of_mem hu (h.mem_iff.1 (mem_of_get? hget))
  · exact fun hget => get?_of_mem ht (h.mem_iff.2 (mem_of_get? hget))

end Table

namespace Module

theorem names_validate (m : Module) (extra : List String) :
    (m.validate extra).items.names = m.items.names := by
  rw [validate, Table.names, Table.names, List.map_map]
  rfl

/-- What a module is exported as is settled alike, whatever the order of the items. -/
theorem aggregate_validate_of_perm {m m' : Module} (extra : List String)
    (hitems : m.items.Perm m'.items) (h : m.aggregate = m'.aggregate) :
    (m.validate extra).aggregate = (m'.validate extra).aggregate := by
  have hsettle : Validation.settle (m.scope extra) = Validation.settle (m'.scope extra) :=
    funext (Validation.settle_congr (scope_agree_of_perm extra hitems))
  rw [validate, validate]
  dsimp only
  rw [hsettle, h]

end Module

/-! ### The entries that a comment adds -/

namespace Doc.Comment

variable (doc : Comment)

/-- The types of the name that a tag defines, as far as they are supported. -/
def typesOf (tag : Tag) : List TypeRef :=
  match tag.type.or ((doc.first? "type").bind (·.type)) with
  | some e => (e.expand).toOption.getD []
  | none => [TypeRef.plain "object"]

/-- The name that a tag defines, with its declaration. -/
def definition? (tag : Tag) : Option (String × Decl) :=
  tag.name.map fun name =>
    (name, .typedef { description := doc.description } (doc.typesOf tag))

/-- The names that the comment defines, with their declarations. -/
def definitions : List (String × Decl) :=
  (doc.find "typedef").flatMap fun tag => (doc.definition? tag).toList

/-- Every type that the comment states can be written. -/
def Supported : Prop :=
  ∀ tag ∈ doc.tags, ∀ e, tag.type = some e → ∃ ts, e.expand = .ok ts

variable {doc}

theorem exists_typedef_of_mem_definitions {e : String × Decl} (h : e ∈ doc.definitions) :
    ∃ hd ts, e.2 = .typedef hd ts ∧ hd.exported = false := by
  obtain ⟨tag, -, he⟩ := List.mem_flatMap.1 h
  obtain ⟨name, -, rfl⟩ := Option.map_eq_some_iff.1 (Option.mem_toList.1 he)
  exact ⟨_, _, rfl, rfl⟩

theorem names_definitions (doc : Comment) :
    Table.names doc.definitions = (doc.find "typedef").flatMap (·.name.toList) := by
  rw [Table.names, definitions, List.map_flatMap]
  congr 1
  funext tag
  rw [definition?]
  cases tag.name <;> rfl

theorem isIdle_of_definition {name : String} {d : Decl}
    (h : (Table.ofEntries doc.definitions).get? name = some d) : d.isIdle = true := by
  rcases Table.mem_or_mem_of_mem_setAll (Table.mem_of_get? h) with hmem | hmem
  · cases hmem
  · obtain ⟨hd, ts, hdecl, hlocal⟩ := exists_typedef_of_mem_definitions hmem
    have hdecl : d = .typedef hd ts := hdecl
    rw [hdecl, Decl.isIdle, Decl.exported, Decl.header, hlocal]
    rfl

theorem Supported.exists_types (h : doc.Supported) {tag : Tag} (htag : tag ∈ doc.tags) :
    (∃ e, tag.type.or ((doc.first? "type").bind (·.type)) = some e ∧
      e.expand = .ok (doc.typesOf tag)) ∨
    (tag.type.or ((doc.first? "type").bind (·.type)) = none ∧
      doc.typesOf tag = [TypeRef.plain "object"]) := by
  rw [typesOf]
  cases htype : tag.type.or ((doc.first? "type").bind (·.type)) with
  | none => exact .inr ⟨rfl, rfl⟩
  | some e =>
      have hexpand : ∃ ts, e.expand = .ok ts := by
        rcases Option.or_eq_some_iff.1 htype with hown | ⟨-, hfirst⟩
        · exact h tag htag e hown
        · obtain ⟨other, hother, he⟩ := Option.bind_eq_some_iff.1 hfirst
          exact h other (List.mem_of_find?_eq_some hother) e he
      obtain ⟨ts, hts⟩ := hexpand
      refine .inl ⟨e, rfl, ?_⟩
      dsimp only
      rw [hts]
      rfl

end Doc.Comment

/-- A block comment that defines types and does not describe the module, with types that can all be
written. -/
structure Node.DefinesTypes (c : Node) : Prop where
  kind : c.kind = .comment
  block : Doc.isBlock c.text = true
  tagged : (Doc.Comment.read c.text).has "typedef" = true
  undescriptive : Doc.isModuleComment c.text = false
  supported : (Doc.Comment.read c.text).Supported

namespace Node

/-- The entries that a comment adds. -/
def definitions (c : Node) : List (String × Decl) :=
  (Doc.Comment.read c.text).definitions

namespace DefinesTypes

variable {c : Node} (h : c.DefinesTypes)

include h

theorem detached : Doc.isDetached c.text = true :=
  Doc.Comment.isDetached_of_has_typedef h.tagged

theorem names_definitions : Table.names c.definitions = c.typedefNames := by
  rw [typedefNames, h.block, h.detached, Bool.true_and, if_pos rfl, definitions,
    Doc.Comment.names_definitions]

/-- A search for documentation passes over the comment. -/
theorem documenting (before : List Node) :
    Context.documenting (c :: before) = Context.documenting before := by
  simp [Context.documenting, isComment, h.kind, h.detached]

end DefinesTypes

end Node

namespace Build

variable {ctx : Context} {s : BuildState}

/-- The acts that register entries. -/
def registerActs (entries : List (String × Decl)) : List Act :=
  entries.map fun e => .register e.1 e.2

/-- A tag registers the name it defines; a tag without a name leaves a notice. -/
theorem runFrom_addTypedef {doc : Doc.Comment} (h : doc.Supported) {tag : Doc.Tag}
    (htag : tag ∈ doc.tags) (s : BuildState) : ∃ s', runFrom (addTypedef doc tag) s = (.ok (), s') ∧
      s'.progress = (s.afterAll (registerActs (doc.definition? tag).toList)).progress := by
  rw [addTypedef, Doc.Comment.definition?]
  cases hname : tag.name with
  | none => exact ⟨_, rfl, rfl⟩
  | some name =>
      dsimp only
      rcases h.exists_types htag with ⟨e, htype, hexpand⟩ | ⟨htype, htypes⟩
      · rw [htype]
        dsimp only
        rw [hexpand]
        exact ⟨_, rfl, rfl⟩
      · rw [htype, htypes]
        exact ⟨_, rfl, rfl⟩

theorem runFrom_addTypedefs {doc : Doc.Comment} (h : doc.Supported) {tags : List Doc.Tag}
    (htags : ∀ tag ∈ tags, tag ∈ doc.tags) (s : BuildState) :
    ∃ s', runFrom (tags.forM (addTypedef doc)) s = (.ok (), s') ∧ s'.progress =
      (s.afterAll (registerActs (tags.flatMap fun tag => (doc.definition? tag).toList))).progress := by
  induction tags generalizing s with
  | nil => exact ⟨s, rfl, rfl⟩
  | cons tag tags ih =>
      obtain ⟨htag, htags⟩ := List.forall_mem_cons.1 htags
      obtain ⟨mid, hmid, hprogress⟩ := runFrom_addTypedef h htag s
      obtain ⟨s', hrun, hprogress'⟩ := ih htags mid
      refine ⟨s', (runFrom_bind_of_ok hmid _).trans hrun, ?_⟩
      rw [hprogress', BuildState.progress_afterAll_congr hprogress, ← BuildState.afterAll_append,
        registerActs, registerActs, ← List.map_append]
      rfl

/-- A comment about types registers its definitions. -/
theorem runFrom_commentStatement {c : Node} (h : c.DefinesTypes) (s : BuildState) :
    ∃ s', runFrom (commentStatement c) s = (.ok (), s') ∧
      s'.progress = (s.afterAll (registerActs c.definitions)).progress := by
  have hread : runFrom (readComment c) s =
      (.ok (Doc.Comment.read c.text), (runFrom (readComment c) s).2) :=
    Prod.ext (runFrom_readComment_result c s) rfl
  have htags : ∀ tag ∈ (Doc.Comment.read c.text).find "typedef",
      tag ∈ (Doc.Comment.read c.text).tags := fun tag htag => (List.mem_filter.1 htag).1
  obtain ⟨s', hrun, hprogress⟩ :=
    runFrom_addTypedefs h.supported htags (runFrom (readComment c) s).2
  refine ⟨s', ?_, ?_⟩
  · rw [commentStatement, h.block, h.detached, Bool.true_and, if_pos rfl, runFrom_bind_of_ok hread,
      h.undescriptive]
    exact hrun
  · exact hprogress.trans (BuildState.progress_afterAll_congr (progress_readComment c s) _)

end Build

/-! ### States beside the definitions -/

theorem Module.not_pending_of_get? {m : Module} {name : String}
    (h : ∀ d, m.items.get? name = some d → d.isAlias = false) : ¬ m.Pending name := by
  rintro ⟨hd, hget, -⟩
  cases h _ hget

namespace BuildState

/-- Where no slot is pending, entries are registered as they are. -/
theorem module_registerActs {s : BuildState} {entries : List (String × Decl)}
    (hslots : ∀ e ∈ entries, ∀ d, s.module.items.get? e.1 = some d → d.isAlias = false)
    (hentries : ∀ e ∈ entries, e.2.isAlias = false) :
    (s.afterAll (Build.registerActs entries)).module =
      { s.module with items := s.module.items.setAll entries } := by
  induction entries generalizing s with
  | nil => rfl
  | cons e entries ih =>
      obtain ⟨hslot, hslots⟩ := List.forall_mem_cons.1 hslots
      obtain ⟨hentry, hentries⟩ := List.forall_mem_cons.1 hentries
      have hadd : (s.after (.register e.1 e.2)).module =
          { s.module with items := s.module.items.set e.1 e.2 } := by
        rw [after, Module.add, Module.handOver_of_not_pending _ (Module.not_pending_of_get? hslot)]
      rw [Build.registerActs, List.map_cons, afterAll_cons]
      refine (ih ?_ hentries).trans ?_
      · intro other hother d hd
        rw [hadd] at hd
        by_cases hsame : other.1 = e.1
        · rw [hsame, Table.get?_set_self] at hd
          exact Option.some.inj hd ▸ hentry
        · rw [Table.get?_set_of_ne _ _ hsame] at hd
          exact hslots other hother d hd
      · rw [hadd]
        rfl

theorem registered_registerActs (s : BuildState) (entries : List (String × Decl)) :
    (s.afterAll (Build.registerActs entries)).registered =
      (Table.names entries).reverse ++ s.registered := by
  induction entries generalizing s with
  | nil => rfl
  | cons e entries ih =>
      refine (ih _).trans ?_
      have hnames : Table.names (e :: entries) = e.1 :: Table.names entries := rfl
      rw [hnames, List.reverse_cons, List.append_assoc]
      rfl

/-- Fresh entries stand beside what was there before. -/
theorem Coherent.beside_registerActs {s : BuildState} (h : s.Coherent)
    {entries : List (String × Decl)} (hfresh : ∀ name ∈ Table.names entries, name ∉ s.registered)
    (hentries : ∀ e ∈ entries, e.2.isAlias = false) :
    Beside (Table.ofEntries entries) s (s.afterAll (Build.registerActs entries)) := by
  have hnames (name : String) :
      name ∈ (Table.ofEntries entries).names ↔ name ∈ Table.names entries := by
    rw [Table.ofEntries, Table.mem_names_setAll]
    exact or_iff_right (List.not_mem_nil)
  have hnew : ∀ name ∈ (Table.ofEntries entries).names, name ∉ s.module.items.names :=
    fun name hname hmem => hfresh name ((hnames name).1 hname) (h.registered name hmem)
  have hmodule := module_registerActs (s := s) (fun e he d hd => by
    have hmem := Table.mem_names_of_get? hd
    exact absurd (h.registered _ hmem) (hfresh _ (List.mem_map.2 ⟨e, he, rfl⟩))) hentries
  refine ⟨?_, fun name d hd => ?_, ?_⟩
  · rw [hmodule, Module.without]
    dsimp only
    rw [Table.without_setAll_of_subset _ fun name hname => (hnames name).2 hname,
      Table.without_eq_self hnew]
  · have hmem := (hnames name).1 (Table.mem_names_of_get? hd)
    rw [hmodule, ← hd]
    exact Table.get?_setAll_of_mem _ _ hmem
  · rw [registered_registerActs, List.filter_append, List.filter_eq_nil_iff.2, List.nil_append,
      List.filter_eq_self.2]
    · intro name hname
      have hout : name ∉ (Table.ofEntries entries).names := fun hmem =>
        hfresh name ((hnames name).1 hmem) hname
      simpa using hout
    · intro name hname
      simpa using (hnames name).2 (List.mem_reverse.1 hname)

theorem Coherent.congr {s t : BuildState} (h : s.Coherent) (hst : t.progress = s.progress) :
    t.Coherent := by
  have hmodule : t.module = s.module := congrArg Build.Progress.module hst
  have hregistered : t.registered = s.registered := congrArg Build.Progress.registered hst
  exact ⟨hmodule ▸ h.nodup, hmodule ▸ hregistered ▸ h.registered⟩

end BuildState

/-- Two states beside the same one, with the same further entries, differ in order only. -/
theorem Beside.items_perm {extra : Table Decl} {s t t' : BuildState} (h : Beside extra s t)
    (h' : Beside extra s t') (ht : t.Coherent) (ht' : t'.Coherent) :
    t.module.items.Perm t'.module.items := by
  refine Table.perm_of_get? ht.nodup ht'.nodup fun name => ?_
  by_cases hname : name ∈ extra.names
  · obtain ⟨d, hd⟩ := Table.exists_get?_of_mem_names hname
    rw [h.entry name d hd, h'.entry name d hd]
  · rw [← h.get?_of_not_mem hname, h'.get?_of_not_mem hname]

theorem Beside.frame {extra : Table Decl} {s t : BuildState} (h : Beside extra s t) :
    s.module.name = t.module.name ∧ s.module.description = t.module.description ∧
      s.module.aggregate = t.module.aggregate := by
  rw [h.module]
  exact ⟨rfl, rfl, rfl⟩

/-- Without further entries the states have made the same progress. -/
theorem Beside.progress_eq {s t : BuildState} (h : Beside [] s t) : s.progress = t.progress := by
  have hregistered : s.registered = t.registered := by simpa [Table.names] using h.registered
  rw [BuildState.progress, BuildState.progress, h.module_eq, hregistered]

namespace Build

/-! ### Runs with the comment inserted -/

theorem statements_append (ctx : Context) (before nodes rest : List Node) :
    statements ctx before (nodes ++ rest) =
      statements ctx before nodes >>= fun _ => statements ctx (nodes.reverse ++ before) rest := by
  induction nodes generalizing before with
  | nil => rfl
  | cons n nodes ih =>
      rw [List.cons_append, statements_cons, statements_cons, bind_assoc, List.reverse_cons,
        List.append_assoc]
      exact congrArg _ (funext fun _ => ih (n :: before))

theorem follows_sameCode (ctx : Context) {before before' : List Node}
    (hbefore : (Context.documenting before).map Node.text =
      (Context.documenting before').map Node.text) {nodes nodes' : List Node}
    (h : nodes.map Node.code = nodes'.map Node.code) :
    Follows [] (statements ctx before nodes) (statements ctx before' nodes') :=
  have hpadded : Node.Padded false Node.SameCode nodes nodes' := Node.padded_sameCode h
  follows_statements (fun _ _ hget => by cases hget) Node.likeness_sameCode (.refl ctx) hbefore
    hpadded

theorem coherent_statements (ctx : Context) (before nodes : List Node) {s : BuildState}
    (hs : s.Coherent) : (runFrom (statements ctx before nodes) s).2.Coherent := by
  have hlockstep : Lockstep (fun _ => True) (statements ctx before nodes)
      (statements ctx before nodes) :=
    lockstep_statements (fun _ _ => trivial) (.refl ctx) rfl rfl fun _ _ _ _ _ _ => trivial
  obtain ⟨-, acts, -, hprogress, -⟩ := hlockstep _ s s (.of_progress rfl)
  exact (hs.afterAll acts).congr hprogress

/-- With the comment inserted the source fails as it does without, or else leaves a state beside the
definitions of the comment. -/
theorem beside_statements_inserted {ctx : Context} {c : Node} (hc : c.DefinesTypes)
    (before behind : List Node) {s : BuildState} (hs : s.Coherent)
    (hfree : ∀ name ∈ c.typedefNames,
      name ∉ (runFrom (statements ctx [] (before ++ behind)) s).2.registered) :
    (runFrom (statements ctx [] (before ++ behind)) s).1.mapError Failure.unplaced =
        (runFrom (statements ctx [] (before ++ c :: behind)) s).1.mapError Failure.unplaced ∧
      ((runFrom (statements ctx [] (before ++ behind)) s).1 = .ok () →
        Beside (Table.ofEntries c.definitions)
          (runFrom (statements ctx [] (before ++ behind)) s).2
          (runFrom (statements ctx [] (before ++ c :: behind)) s).2) := by
  rw [statements_append, runFrom_bind, List.append_nil] at hfree ⊢
  rw [statements_append, runFrom_bind, List.append_nil]
  have hmid := coherent_statements ctx [] before hs
  rcases hrun : runFrom (statements ctx [] before) s with ⟨f | u, mid⟩ <;>
    rw [hrun] at hfree hmid
  · -- The source fails in front of the comment.
    exact ⟨rfl, nofun⟩
  · obtain ⟨mid', hstep, hprogress⟩ := runFrom_commentStatement hc mid
    have hlater : Follows [] (statements ctx before.reverse behind)
        (statements ctx before.reverse behind) := follows_sameCode ctx rfl rfl
    have hfresh : ∀ name ∈ Table.names c.definitions, name ∉ mid.registered := by
      rw [hc.names_definitions]
      exact fun name hname hmem => hfree name hname (hlater.grows mid hmem)
    have hbeside := (hmid.beside_registerActs hfresh fun e he => by
      obtain ⟨hd, ts, hdecl, -⟩ := Doc.Comment.exists_typedef_of_mem_definitions he
      rw [hdecl]
      rfl).congr rfl hprogress
    -- Behind the comment the pass follows the one without it.
    have hbehind : Node.Padded false Node.SameCode behind behind := Node.padded_sameCode rfl
    have hfollows : Follows (Table.ofEntries c.definitions) (statements ctx before.reverse behind)
        (statements ctx (c :: before.reverse) behind) :=
      follows_statements (fun _ _ => Doc.Comment.isIdle_of_definition) Node.likeness_sameCode
        (.refl ctx) (congrArg (Option.map Node.text) (hc.documenting before.reverse).symm) hbehind
    have hrest := hfollows.run mid mid' hbeside fun name hname => hfree name (by
      rw [← hc.names_definitions]
      exact (Table.mem_names_setAll.1 hname).resolve_left List.not_mem_nil)
    have hcomment : step ctx before.reverse c = commentStatement c := by
      rw [step, Node.isNamed, statement, hc.kind]
      rfl
    dsimp only
    rw [statements_cons, hcomment, runFrom_bind_of_ok hstep]
    exact ⟨hrest.1, fun _ => hrest.2⟩

theorem insertIdx_append (before behind : List Node) (c : Node) :
    (before ++ behind).insertIdx before.length c = before ++ c :: behind := by
  induction before with
  | nil => rfl
  | cons n before ih => exact congrArg (n :: ·) ih

/-- The pass over nodes with the comment inserted, against the one without the comment. -/
theorem beside_statements_insertIdx {ctx : Context} {c : Node} (hc : c.DefinesTypes)
    {sts nodes : List Node} {s : BuildState} (hs : s.Coherent)
    (hfree : ∀ name ∈ c.typedefNames, name ∉ (runFrom (statements ctx [] sts) s).2.registered)
    {i : Nat} (hi : i ≤ sts.length)
    (hnodes : nodes.map Node.code = (sts.insertIdx i c).map Node.code) :
    (runFrom (statements ctx [] sts) s).1.mapError Failure.unplaced =
        (runFrom (statements ctx [] nodes) s).1.mapError Failure.unplaced ∧
      ((runFrom (statements ctx [] sts) s).1 = .ok () →
        Beside (Table.ofEntries c.definitions) (runFrom (statements ctx [] sts) s).2
          (runFrom (statements ctx [] nodes) s).2) := by
  obtain ⟨before, behind, rfl, rfl⟩ : ∃ before behind, sts = before ++ behind ∧
      before.length = i :=
    ⟨sts.take i, sts.drop i, (List.take_append_drop i sts).symm, List.length_take_of_le hi⟩
  rw [insertIdx_append] at hnodes
  obtain ⟨hresult, hbeside⟩ := beside_statements_inserted hc before behind hs hfree
  have hsame : Follows [] (statements ctx [] (before ++ c :: behind)) (statements ctx [] nodes) :=
    follows_sameCode ctx rfl hnodes.symm
  obtain ⟨hresult', hbeside'⟩ := hsame.run s s (.refl s) fun _ hmem => by cases hmem
  exact ⟨hresult.trans hresult', fun hok => (hbeside hok).congr rfl hbeside'.progress_eq.symm⟩

/-! ### Whole sources -/

/-- A comment that defines types may stand anywhere among the nodes of a source that registers none
of their names, also between another comment and what that one documents.  Both sources fail, and but
for the line they name they fail alike; or both have modules, which differ only in the order of their
items. -/
theorem typedefs_stand_anywhere (resolver : Resolver) (modName : String) (sts : List Node)
    (c : Node) (hc : c.DefinesTypes)
    (hfree : ∀ name ∈ c.typedefNames,
      name ∉ (runFrom (statements { resolver } [] sts) (start modName)).2.registered)
    (i j : Nat) (hi : i ≤ sts.length) (hj : j ≤ sts.length) (tree tree' : Node)
    (htree : tree.children.map Node.code = (sts.insertIdx i c).map Node.code)
    (htree' : tree'.children.map Node.code = (sts.insertIdx j c).map Node.code) :
    (∃ f f', (ofTree resolver modName tree).result = .error f ∧
      (ofTree resolver modName tree').result = .error f' ∧ f.unplaced = f'.unplaced) ∨
    ∃ m m', (ofTree resolver modName tree).result = .ok m ∧
      (ofTree resolver modName tree').result = .ok m' ∧ m.name = m'.name ∧
      m.description = m'.description ∧ m.aggregate = m'.aggregate ∧ m.items.Perm m'.items ∧
      ∀ name, m.items.get? name = m'.items.get? name := by
  have hstart := BuildState.coherent_start modName
  obtain ⟨hresult, hbeside⟩ := beside_statements_insertIdx hc hstart hfree hi htree
  obtain ⟨hresult', hbeside'⟩ := beside_statements_insertIdx hc hstart hfree hj htree'
  have ht := coherent_statements { resolver } [] tree.children hstart
  have ht' := coherent_statements { resolver } [] tree'.children hstart
  rcases hrun : runFrom (statements { resolver } [] tree.children) (start modName) with
    ⟨f | u, t⟩ <;> rw [hrun] at hresult hbeside ht <;>
    rcases hrun' : runFrom (statements { resolver } [] tree'.children) (start modName) with
      ⟨f' | u', t'⟩ <;> rw [hrun'] at hresult' hbeside' ht' <;>
    have hsame := hresult.symm.trans hresult'
  · exact .inl ⟨f, f', result_ofTree_of_error hrun, result_ofTree_of_error hrun',
      Except.error.inj hsame⟩
  · cases hsame
  · cases hsame
  · have hok : (runFrom (statements { resolver } [] sts) (start modName)).1 = .ok () := by
      rcases hbase : (runFrom (statements { resolver } [] sts) (start modName)).1 with f | u
      · rw [hbase] at hresult
        cases hresult
      · rfl
    obtain ⟨hname, hdescription, haggregate⟩ := (hbeside hok).frame
    obtain ⟨hname', hdescription', haggregate'⟩ := (hbeside' hok).frame
    have hperm := (hbeside hok).items_perm (hbeside' hok) ht ht'
    have hitems := Module.items_validate_perm resolver.extraTypes hperm
    refine .inr ⟨_, _, result_ofTree hrun, result_ofTree hrun', hname.symm.trans hname',
      hdescription.symm.trans hdescription', ?_, hitems, Table.get?_of_perm ?_ hitems⟩
    · exact Module.aggregate_validate_of_perm _ hperm (haggregate.symm.trans haggregate')
    rw [Module.names_validate]
    exact ht.nodup

/-- `T` defined between the comment that describes `x` and `var x;`, and behind both. -/
theorem typedefs_stand_anywhere_both_sides :
    let doc := leaf .comment "/** A number. */"
    let x : Node := ⟨.variableDeclaration, none, "var x;", 1, 0,
      [leaf (.token "var") "var",
        ⟨.variableDeclarator, none, "x", 1, 0, [(leaf .identifier "x").as .name]⟩]⟩
    let c := leaf .comment "/** @typedef {number} T */"
    c.DefinesTypes ∧ c.typedefNames = ["T"] ∧
      ∃ m m', (ofTree {} "m" (sourceOf [doc, c, x])).result = .ok m ∧
        (ofTree {} "m" (sourceOf [doc, x, c])).result = .ok m' ∧ m.items.Perm m'.items ∧
        ∀ name, m.items.get? name = m'.items.get? name := by
  intro doc x c
  have hnumber : TypeExpr.parse? "number" = some (.name "number") := by
    have hname : TypeExpr.NameToken "number".toList "number".toList [] :=
      TypeExpr.nameToken_iff.2 (by decide +kernel)
    have hend : TypeExpr.NextIn TypeExpr.followers [] :=
      TypeExpr.nextIn_of_forall_isGap (List.forall_mem_nil _)
    exact TypeExpr.parse?_of_scans (TypeExpr.scans_name hname hend)
      (TypeExpr.resolveUnion_of_operand (TypeExpr.resolveOperand_atom _))
  have htags : (Doc.Comment.read "/** @typedef {number} T */").tags =
      [{ title := "typedef", name := some "T", type := some (.name "number"),
         rawType := some "number" }] :=
    Doc.Comment.tags_read (List.forall_mem_singleton.2 hnumber.symm) (by decide +kernel)
  have hc : c.DefinesTypes := by
    refine ⟨rfl, by decide +kernel, by decide +kernel, by decide +kernel, ?_⟩
    intro tag htag e he
    have htag := htags ▸ htag
    rw [List.mem_singleton.1 htag] at he
    cases he
    exact ⟨[TypeRef.plain "number"], rfl⟩
  have hnames : c.typedefNames = ["T"] := by decide +kernel
  have hok : (runFrom (statements { resolver := {} } [] [doc, x]) (start "m")).1.isOk = true := by
    decide +kernel
  have hfree : ∀ name ∈ c.typedefNames,
      name ∉ (runFrom (statements { resolver := {} } [] [doc, x]) (start "m")).2.registered := by
    decide +kernel
  refine ⟨hc, hnames, ?_⟩
  rcases typedefs_stand_anywhere {} "m" [doc, x] c hc hfree 1 2 (by decide) (by decide)
      (sourceOf [doc, c, x]) (sourceOf [doc, x, c]) rfl rfl with ⟨f, -, hf, -⟩ | h
  · -- Without the comment the source has a module, so it has one with the comment.
    have hinserted : (sourceOf [doc, c, x]).children.map Node.code =
        ([doc, x].insertIdx 1 c).map Node.code := rfl
    have hresult := (beside_statements_insertIdx hc (BuildState.coherent_start "m") hfree
      (by decide) hinserted).1
    rcases hrun : runFrom (statements { resolver := {} } [] (sourceOf [doc, c, x]).children)
      (start "m") with ⟨f' | u, t⟩ <;> rw [hrun] at hresult
    · rcases hbase : (runFrom (statements { resolver := {} } [] [doc, x]) (start "m")).1 with f | u <;>
        rw [hbase] at hok hresult
      · cases hok
      · cases hresult
    · cases hf.symm.trans (result_ofTree hrun)
  · obtain ⟨m, m', hm, hm', -, -, -, hperm, hget⟩ := h
    exact ⟨m, m', hm, hm', hperm, hget⟩

end Build

end Ambient
