import SdkSmith.Proofs.Client.Sdk.DocComments

/-!
Which clients have sound doc comments. A data class tells the descriptions of its object and of each
property, with the values that are allowed; the names of classes that it tells too are letters and
digits. So every comment of a client ends where its block does exactly if no text of the description
that goes into one has an end of its own.
-/
namespace SdkSmith

namespace Client
open Naming (IsAlphanum)
open Php (File Import renderDoc)
open Text (Within commentEnds endsIn endsIn_append)

variable {d : Api.Description} {s : Settings} {sdk : Sdk} {f : File} {c : ClassRef}
  {classes : DtoClasses}

/-! Names of imports -/

/-- Whether the names that imports give are letters and digits. -/
def RenamesPlainly (f : File) : Prop :=
  ∀ i ∈ f.imports, ∀ name ∈ i.rename, IsAlphanum name

theorem RenamesPlainly.addImport {i : Import} (h : RenamesPlainly f)
    (hi : ∀ name ∈ i.rename, IsAlphanum name) : RenamesPlainly (f.addImport i) := by
  intro j hj
  rcases Php.File.mem_of_mem_addImport hj with hj | rfl
  · exact h j hj
  · exact hi

theorem RenamesPlainly.importBase (h : RenamesPlainly f) (path : String) {other : String}
    (hother : IsAlphanum other) : RenamesPlainly (importBase f path other).2 := by
  rw [importBase_eq]
  refine h.addImport fun name hname => ?_
  rw [baseImport, Option.mem_def, Option.ite_none_right_eq_some] at hname
  rwa [← Option.some.inj hname.2]

theorem RenamesPlainly.importClass (h : RenamesPlainly f) (hc : IsAlphanum c.name) {suffix : String}
    (hsuffix : IsAlphanum suffix) : IsAlphanum (importClass f c suffix).1 ∧
      RenamesPlainly (importClass f c suffix).2 := by
  have hother : ∀ name ∈ some (c.name ++ suffix), IsAlphanum name := by
    rintro name ⟨⟩
    exact hc.append hsuffix
  unfold Client.importClass
  split
  · exact ⟨hc, h⟩
  · split
    · rename_i i hfind
      refine ⟨?_, h⟩
      cases hrename : i.rename with
      | none => exact hc
      | some name => exact h i (List.mem_of_find?_eq_some hfind) name hrename
    · simp only
      split
      · exact ⟨hc.append hsuffix, h.addImport hother⟩
      · exact ⟨hc, h.addImport fun _ hname => by cases hname⟩

theorem RenamesPlainly.use {t : MemberType} (h : RenamesPlainly f)
    (ht : ∀ c ∈ t.refs, IsAlphanum c.name) :
    (∀ name ∈ (t.use f).1.listCast, IsAlphanum name) ∧ RenamesPlainly (t.use f).2 := by
  have hsuffix : IsAlphanum "Dto" := Naming.isAlphanum_of_all (by decide)
  have hnone : ∀ name ∈ (none : Option String), IsAlphanum name := fun _ hname => by cases hname
  cases t with
  | plain t => exact ⟨hnone, h⟩
  | object c => exact ⟨hnone, (h.importClass (ht c List.mem_cons_self) hsuffix).2⟩
  | list items =>
    cases items with
    | none => exact ⟨hnone, h⟩
    | some c =>
      obtain ⟨hname, hfile⟩ := h.importClass (ht c List.mem_cons_self) hsuffix
      refine ⟨?_, hfile⟩
      rintro name ⟨⟩
      exact hname

/-! Data classes -/

/-- The texts of a property that go into comments. -/
def propertyTexts (m : Api.Schema) : List String :=
  m.description.toList ++ m.enumValues.map Json.render

/-- The texts of an object that go into comments. -/
def schemaTexts (schema : Api.Schema) : List String :=
  schema.description.toList ++ schema.properties.flatMap fun p => propertyTexts p.2

theorem endsIn_allowedValues (values : List Json) :
    endsIn (allowedValues values).toList = endsIn (values.map Json.render) := by
  unfold allowedValues
  split
  · rename_i hempty
    rw [List.isEmpty_iff.mp hempty]
    rfl
  · have hlead : '*' ∉ "Allowed values: ".toList := by decide
    rw [Option.toList_some, Text.endsIn, String.toList_append,
      Text.commentEnds_append_of_not_mem hlead, Text.commentEnds_join (by decide) (by decide)]
    rfl

theorem commentEnds_itemsLine {name : String} (h : IsAlphanum name) (nullable : Bool) :
    commentEnds (itemsLine name nullable).toList = 0 := by
  have hname : '*' ∉ name.toList := fun hmem => absurd (h _ hmem) (by decide)
  have hnull : '*' ∉ (if nullable then "|null" else "").toList := by cases nullable <;> decide
  refine Text.commentEnds_of_not_mem ?_
  simp only [itemsLine, String.toList_append, List.mem_append, not_or]
  exact ⟨⟨⟨by decide, hname⟩, by decide⟩, hnull⟩

namespace DtoDraft

/-- What a data class with these properties tells, and the names that it tells them by. -/
structure Tells (ps : List (String × Api.Schema)) (b : DtoDraft) : Prop where
  renames : RenamesPlainly b.file
  params : endsIn (b.params.filterMap (·.doc)) = endsIn (ps.flatMap fun p => propertyTexts p.2)

theorem tells_start (s : Settings) (c : ClassRef) (schema : Api.Schema) :
    (start s c schema).Tells [] := by
  constructor
  case renames =>
    have hplain : RenamesPlainly (File.plain c.namespaceName
        { Php.Class.empty .plain c.name with doc := docOf [schema.description] }) :=
      List.forall_mem_nil _
    have hother : IsAlphanum "BaseDto" := Naming.isAlphanum_of_all (by decide)
    have hbase := hplain.importBase (dtoBase s) hother
    simp only [start]
    generalize importBase _ (dtoBase s) "BaseDto" = imported at hbase ⊢
    exact hbase
  case params =>
    simp only [start]
    rfl

theorem Tells.add {ps : List (String × Api.Schema)} {b : DtoDraft} (h : b.Tells ps)
    (d : Api.Description) (hclasses : ∀ x ∈ classes, IsAlphanum x.2.name) (schemaName : String)
    (schema : Api.Schema) (p : String × Api.Schema) :
    (b.add d classes schemaName schema p.1 p.2).Tells (ps ++ [p]) := by
  have hrefs : ∀ c ∈ (memberType d classes p.2).refs, IsAlphanum c.name := by
    intro c hc
    obtain ⟨name, hname⟩ := mem_refs_memberType hc
    exact hclasses _ hname
  obtain ⟨hlistCast, hfile⟩ := h.renames.use hrefs
  constructor
  case renames => exact hfile
  case params =>
    have hitems : ∀ nullable, endsIn (((memberType d classes p.2).use b.file).1.listCast.map
        fun items => itemsLine items nullable).toList = 0 := by
      intro nullable
      rw [Text.endsIn_eq_zero]
      intro t ht
      obtain ⟨name, hname, rfl⟩ := Option.map_eq_some_iff.mp (Option.mem_toList.mp ht)
      exact commentEnds_itemsLine (hlistCast name hname) nullable
    simp only [DtoDraft.add, List.filterMap_append, List.flatMap_append, endsIn_append, h.params]
    rw [List.filterMap_eq_flatMap_toList, List.flatMap_singleton, List.flatMap_singleton,
      endsIn_docOf]
    simp only [List.flatMap_cons, List.flatMap_nil, List.append_nil, endsIn_append,
      endsIn_allowedValues, hitems, propertyTexts, Nat.add_zero]

theorem tells_foldl {b : DtoDraft} (d : Api.Description)
    (hclasses : ∀ x ∈ classes, IsAlphanum x.2.name) (schemaName : String) (schema : Api.Schema)
    (ps qs : List (String × Api.Schema)) (h : b.Tells qs) :
    (ps.foldl (fun b (property, m) => b.add d classes schemaName schema property m) b).Tells
      (qs ++ ps) := by
  induction ps generalizing b qs with
  | nil => rwa [List.append_nil]
  | cons p ps ih =>
    have hrest := ih (qs ++ [p]) (h.add d hclasses schemaName schema p)
    rwa [List.append_assoc] at hrest

theorem declaration_foldl_add (d : Api.Description) (classes : DtoClasses) (b : DtoDraft)
    (schemaName : String) (schema : Api.Schema)
    (ps : List (String × Api.Schema)) :
    (ps.foldl (fun b (property, m) => b.add d classes schemaName schema property m)
      b).file.declaration = b.file.declaration := by
  induction ps generalizing b with
  | nil => rfl
  | cons p ps ih => exact (ih _).trans (declaration_use _ b.file)

theorem docs_finish {b : DtoDraft} (h : ∀ p ∈ b.params, p.promoted = some .everyone) :
    b.finish.declaration.docs = b.file.declaration.doc.toList.map (0, ·) ++
      ((requiredFirst b.params).filterMap (·.doc)).map (2, ·) := by
  have hpromoted : ∀ p ∈ requiredFirst b.params, p.promoted.isSome := by
    intro p hp
    rw [h p ((requiredFirst_perm b.params).mem_iff.mp hp)]
    rfl
  have hmethods : b.finish.declaration.methods =
      [.plain "__construct" (requiredFirst b.params)] := rfl
  rw [Php.Class.docs, hmethods, List.flatMap_singleton, Php.docs_of_promoted hpromoted]
  rfl

end DtoDraft

/-- A data class tells the texts of its object, and beside them nothing that may end a comment. -/
theorem docEnds_dtoFile (hclasses : ∀ x ∈ classes, IsAlphanum x.2.name) (s : Settings)
    (name : String) (c : ClassRef) (schema : Api.Schema) :
    docEnds (dtoFile d s classes name c schema).1 = endsIn (schemaTexts schema) := by
  have htells := DtoDraft.tells_foldl d hclasses name schema schema.properties []
    (DtoDraft.tells_start s c schema)
  have hcasts := DtoDraft.castsOf_foldl name schema schema.properties []
    (DtoDraft.castsOf_start d s classes c schema)
  have hdoc := DtoDraft.declaration_foldl_add d classes (DtoDraft.start s c schema) name schema
    schema.properties
  have hstart : (DtoDraft.start s c schema).file.declaration.doc = docOf [schema.description] := by
    simp only [DtoDraft.start, declaration_importBase]
    rfl
  rw [List.nil_append] at htells hcasts
  rw [dtoFile]
  generalize schema.properties.foldl (fun b (property, m) =>
    b.add d classes name schema property m) (DtoDraft.start s c schema) = b at htells hcasts hdoc
  have hperm := (requiredFirst_perm b.params).filterMap (·.doc)
  rw [docEnds, DtoDraft.docs_finish hcasts.promoted, hdoc, hstart, List.map_append, texts_map,
    texts_map, endsIn_append, endsIn_docOf_singleton, Text.endsIn_perm hperm, htells.params,
    schemaTexts, endsIn_append]

/-! Clients -/

/-- The texts of a description that go into comments. -/
def docTexts (d : Api.Description) : List String :=
  (objectSchemas d).flatMap (fun x => schemaTexts x.2) ++ d.endpoints.flatMap endpointTexts ++
    connectorTexts d

/-- Whether a block of text ends a comment once, where the block ends. -/
structure EndsOnce (block : String) : Prop where
  last : ∃ body, block = body ++ "*/\n"
  once : commentEnds block.toList = 1

theorem endsOnce_renderDoc {level : Nat} {doc : String} :
    EndsOnce (renderDoc level doc) ↔ commentEnds doc.toList = 0 := by
  constructor
  · intro hends
    have honce := hends.once
    rw [Php.commentEnds_renderDoc] at honce
    exact Nat.succ_inj.mp honce
  · intro hnone
    refine ⟨Php.renderDoc_ends level doc, ?_⟩
    rw [Php.commentEnds_renderDoc, hnone]

theorem docEnds_eq_zero : docEnds f = 0 ↔ ∀ x ∈ f.declaration.docs,
    EndsOnce (renderDoc x.1 x.2) := by
  rw [docEnds, Text.endsIn_eq_zero, List.forall_mem_map]
  exact forall₂_congr fun _ _ => endsOnce_renderDoc.symm

theorem docEnds_fixed (s : Settings) :
    ∀ f ∈ Support.resourceFile s :: Support.otherFiles s, docEnds f = 0 := by
  have hresource : docEnds (Support.resourceFile s) = 0 := by
    rw [docEnds, Support.resourceFile, Php.File.declaration_addImport]
    rfl
  have hdto : docEnds (Support.dtoFile s) = 0 := by
    simp only [docEnds, Support.dtoFile, Php.File.declaration_addImport]
    rfl
  have htrait : endsIn ["Builds a Dto from wire data using its field map and casts."] = 0 := by
    decide
  simp only [Support.otherFiles, List.forall_mem_cons]
  exact ⟨hresource, hdto, rfl, htrait, List.forall_mem_nil _⟩

/-- What holds of the class of each object holds of the data classes. -/
theorem forall_objectFiles (hk : (Table.keys d.components.schemas).Nodup) {P : File → Prop}
    {Q : Api.Schema → Prop} (h : ∀ name c schema,
      P (dtoFile d s (dtoClasses d s) name c schema).1 ↔ Q schema) :
    (∀ f ∈ objectFiles d s (!·) ++ objectFiles d s id, P f) ↔
      ∀ x ∈ objectSchemas d, Q x.2 := by
  have hperm := (List.perm_append_comm.trans
    (List.filter_append_perm (fun x => d.components.isResponse x.1) (schemaClasses d s)))
  have hfiles : objectFiles d s (!·) ++ objectFiles d s id =
      (((schemaClasses d s).filter fun x => !d.components.isResponse x.1) ++
        (schemaClasses d s).filter fun x => d.components.isResponse x.1).map
          fun x => (dtoFile d s (dtoClasses d s) x.1 x.2.1 x.2.2).1 := by
    rw [objectFiles_eq, objectFiles_eq, List.map_append]
    rfl
  rw [hfiles, ← schemas_schemaClasses hk s, List.forall_mem_map, List.forall_mem_map]
  constructor
  · intro hall x hx
    exact (h _ _ _).mp (hall x (hperm.mem_iff.mpr hx))
  · intro hall x hx
    exact (h _ _ _).mpr (hall x (hperm.mem_iff.mp hx))

theorem endsIn_docTexts (d : Api.Description) : endsIn (docTexts d) = 0 ↔
    ((∀ x ∈ objectSchemas d, endsIn (schemaTexts x.2) = 0) ∧
      ∀ e ∈ d.endpoints, endsIn (endpointTexts e) = 0) ∧ endsIn (connectorTexts d) = 0 := by
  rw [docTexts, endsIn_append, endsIn_append, Nat.add_eq_zero_iff, Nat.add_eq_zero_iff,
    Text.endsIn_flatMap_eq_zero, Text.endsIn_flatMap_eq_zero]

/-- A description that says the same of all that it has: of tickets and their status, of the way to
list them, of the key and of the region. -/
def remarks (text : String) : Api.Description :=
  let status : Api.Schema := { Api.Schema.scalar "status" .string with
    description := some text, enumValues := [.string "open", .string text] }
  let list : Api.Schema := .array "linked" (.scalar "items" (.named "ticket")) false
  let ticket : Api.Schema := { Api.Schema.object "ticket" [("status", status), ("linked", list)] []
    with description := some text }
  { Api.Description.empty with
    baseUrl := ⟨"https://\x7bregion\x7d.acme.test", [⟨"region", some "eu", some text⟩]⟩
    security := [⟨"key", []⟩]
    components := ⟨[("key", .apiKey "X-Key" .header (some text))], [("ticket", ticket)], []⟩
    endpoints := [{ Api.Endpoint.plain "list tickets" .get "/tickets" with
      collection := some "tickets", description := some text }] }

namespace Sdk

theorem docEnds_resources (h : generate d s = .ok sdk)
    (he : ∀ e ∈ d.endpoints, endsIn (endpointTexts e) = 0) :
    ∀ f ∈ sdk.resources, docEnds f = 0 := by
  obtain ⟨-, connector, -, rfl⟩ := generate_eq_ok h
  intro f hf
  obtain ⟨r, hr, rfl⟩ := List.mem_map.mp hf
  rw [docEnds_resourceFile, Text.endsIn_eq_zero]
  intro t ht
  obtain ⟨c, hc, ht⟩ := List.mem_flatMap.mp ht
  have htexts := Text.endsIn_eq_zero.mp (he c.endpoint (Plan.endpoint_of_mem_calls hr hc))
  exact htexts t (List.mem_cons_of_mem _ ht)

theorem docEnds_files (hk : (Table.keys d.components.schemas).Nodup)
    (h : generate d s = .ok sdk) :
    (∀ f ∈ sdk.files, docEnds f = 0) ↔ endsIn (docTexts d) = 0 := by
  have hrequests := forall_requests h (P := fun f => docEnds f = 0)
    (Q := fun e => endsIn (endpointTexts e) = 0) fun r _ c _ => by rw [docEnds_requestFile]
  have hresources := docEnds_resources h
  have hobjects := forall_objectFiles (s := s) hk (P := fun f => docEnds f = 0)
    (Q := fun schema => endsIn (schemaTexts schema) = 0) fun name c schema => by
      rw [docEnds_dtoFile (apart_dtoClasses d s).isAlphanum]
  obtain ⟨-, connector, hconnector, rfl⟩ := generate_eq_ok h
  rw [endsIn_docTexts, ← hobjects, ← hrequests, ← docEnds_connectorFile hconnector, files,
    List.forall_mem_append, List.forall_mem_append, List.forall_mem_append,
    List.forall_mem_append, List.forall_mem_append, List.forall_mem_append,
    List.forall_mem_singleton]
  constructor
  · rintro ⟨⟨⟨⟨⟨-, hdtos⟩, hresponses⟩, hrequests⟩, -⟩, hconnector⟩
    exact ⟨⟨⟨hdtos, hresponses⟩, hrequests⟩, hconnector⟩
  · rintro ⟨⟨⟨hdtos, hresponses⟩, hall⟩, hconnector⟩
    exact ⟨⟨⟨⟨⟨docEnds_fixed s, hdtos⟩, hresponses⟩, hall⟩, hresources (hrequests.mp hall)⟩,
      hconnector⟩

/-- The block of each doc comment is in its file as it is, with the ends of its text and one more.
So all of them end once, where the block ends, exactly if no text of the description that goes into
one has an end. -/
theorem generate_closesDocs (hk : (Table.keys d.components.schemas).Nodup)
    (h : generate d s = .ok sdk) :
    (∀ f ∈ sdk.files, ∀ x ∈ f.declaration.docs, Within (renderDoc x.1 x.2) f.render ∧
      commentEnds (renderDoc x.1 x.2).toList = commentEnds x.2.toList + 1) ∧
    ((∀ f ∈ sdk.files, ∀ x ∈ f.declaration.docs, EndsOnce (renderDoc x.1 x.2)) ↔
      ∀ t ∈ docTexts d, commentEnds t.toList = 0) := by
  refine ⟨fun f _ x hx => ⟨Php.within_render hx, Php.commentEnds_renderDoc x.1 x.2⟩, ?_⟩
  rw [← Text.endsIn_eq_zero, ← docEnds_files hk h]
  exact forall₂_congr fun _ _ => docEnds_eq_zero.symm

/-- Stars and slashes that do not meet end no comment, also over lines. -/
theorem generate_remarks_closesDocs :
    (Table.keys (remarks "/* a star\n * /").components.schemas).Nodup ∧
    ∃ sdk, generate (remarks "/* a star\n * /") (.new "Acme" "App") = .ok sdk ∧
      sdk.files.map (fun f => f.declaration.docs.length) = [0, 0, 0, 1, 3, 1, 1, 2] ∧
      ∀ f ∈ sdk.files, ∀ x ∈ f.declaration.docs, EndsOnce (renderDoc x.1 x.2) := by
  have hk : (Table.keys (remarks "/* a star\n * /").components.schemas).Nodup := by decide
  have htexts : ∀ t ∈ docTexts (remarks "/* a star\n * /"), commentEnds t.toList = 0 := by
    decide +kernel
  have hrun : (generate (remarks "/* a star\n * /") (.new "Acme" "App")).toOption.map
      (fun sdk => sdk.files.map fun f => f.declaration.docs.length) =
        some [0, 0, 0, 1, 3, 1, 1, 2] := by decide +kernel
  obtain ⟨sdk, hsdk, hlengths⟩ := toOption_map_eq_some.mp hrun
  exact ⟨hk, sdk, hsdk, hlengths, (generate_closesDocs hk hsdk).2.mpr htexts⟩

/-- The block of a doc comment that ends twice: what follows the first end is code. -/
theorem generate_remarks_leavesDoc : ∃ sdk,
    generate (remarks "*/ exit(1); /*") (.new "Acme" "App") = .ok sdk ∧
    ∃ f ∈ sdk.dtos, (0, "*/ exit(1); /*") ∈ f.declaration.docs ∧
      Within "/**\n * */ exit(1); /*\n */\n" f.render ∧
      ¬EndsOnce "/**\n * */ exit(1); /*\n */\n" := by
  have hrun : (generate (remarks "*/ exit(1); /*") (.new "Acme" "App")).toOption.map
      (fun sdk => sdk.dtos.map fun f => f.declaration.docs.head?) =
        some [some (0, "*/ exit(1); /*")] := by decide +kernel
  have hblock : renderDoc 0 "*/ exit(1); /*" = "/**\n * */ exit(1); /*\n */\n" := by
    decide +kernel
  have htwo : commentEnds "/**\n * */ exit(1); /*\n */\n".toList = 2 := by decide +kernel
  obtain ⟨sdk, hsdk, hdocs⟩ := toOption_map_eq_some.mp hrun
  obtain ⟨f, hf, hhead⟩ := List.mem_map.mp (hdocs.symm ▸ List.mem_cons_self)
  have hdoc := List.mem_of_mem_head? hhead
  have hwithin := Php.within_render hdoc
  rw [hblock] at hwithin
  refine ⟨sdk, hsdk, f, hf, hdoc, hwithin, fun hends => ?_⟩
  have honce := htwo.symm.trans hends.once
  exact absurd honce (by decide)

end Sdk
end Client
end SdkSmith
