import SdkSmith.Proofs.Client.Dto.DataMembers
import SdkSmith.Proofs.Client.Dto.ObjectFiles
import SdkSmith.Proofs.Client.Sdk.Clashes
import SdkSmith.Proofs.Php.Comments

/-!
The doc comments of a client. Texts of the description come into those of its data classes and
their properties, of requests and the methods that send them, and of the members of the connector.
Nothing in them is escaped: what a comment has beyond its text is one end, at its end.
-/
namespace SdkSmith

namespace Text

/-- Whether a text stands in another one. -/
def Within (t s : String) : Prop := ∃ before after, s = before ++ t ++ after

variable {t s mark : String} {ts : List String}

theorem Within.append_right (h : Within t s) (u : String) : Within t (s ++ u) := by
  obtain ⟨before, after, rfl⟩ := h
  exact ⟨before, after ++ u, String.append_assoc⟩

theorem Within.append_left (h : Within t s) (u : String) : Within t (u ++ s) := by
  obtain ⟨before, after, rfl⟩ := h
  exact ⟨u ++ before, after, by simp only [String.append_assoc]⟩

theorem within_self (t : String) : Within t t :=
  ⟨"", "", by rw [String.empty_append, String.append_empty]⟩

theorem Within.trans {u : String} (h : Within t s) (hs : Within s u) : Within t u := by
  obtain ⟨before, after, rfl⟩ := hs
  exact (h.append_left before).append_right after

theorem within_join (h : t ∈ ts) : Within t (String.join ts) := by
  induction ts with
  | nil => cases h
  | cons u ts ih =>
    rw [String.join_cons]
    rcases List.mem_cons.mp h with rfl | h
    · exact (within_self t).append_right _
    · exact (ih h).append_left u

theorem within_intercalate (h : t ∈ ts) : Within t (mark.intercalate ts) := by
  induction ts with
  | nil => cases h
  | cons u ts ih =>
    by_cases hts : ts = []
    · rw [hts] at h ⊢
      rw [List.mem_singleton.mp h, String.intercalate_singleton]
      exact within_self u
    · rw [String.intercalate_cons_of_ne_nil hts]
      rcases List.mem_cons.mp h with rfl | h
      · exact ((within_self t).append_right _).append_right _
      · exact (ih h).append_left _

end Text

namespace Php
open Text (Within within_self)

/-- The doc comments of a method, each with its level: its own, and if parameters have lines those
of the parameters. -/
def Method.docs (m : Method) : List (Nat × String) :=
  m.doc.toList.map (1, ·) ++
    if m.isPromoting then (m.params.filterMap (·.doc)).map (2, ·) else []

/-- The doc comments of a class, each with its level: its own, and those of its methods. -/
def Class.docs (c : Class) : List (Nat × String) :=
  c.doc.toList.map (0, ·) ++ c.methods.flatMap Method.docs

variable {x : Nat × String} {f : File} {c : Class} {m : Method} {level : Nat}

theorem within_renderDoc? {doc : Option String} (h : x ∈ doc.toList.map (level, ·)) :
    Within (renderDoc x.1 x.2) (renderDoc? level doc) := by
  obtain ⟨t, ht, rfl⟩ := List.mem_map.mp h
  rw [Option.mem_toList.mp ht]
  exact within_self _

theorem within_renderParamList (hpromoting : m.isPromoting)
    (h : x ∈ (m.params.filterMap (·.doc)).map (2, ·)) :
    Within (renderDoc x.1 x.2) m.renderParamList := by
  obtain ⟨t, ht, rfl⟩ := List.mem_map.mp h
  obtain ⟨p, hp, hdoc⟩ := List.mem_filterMap.mp ht
  have hline : Within (renderDoc 2 t)
      (renderDoc? 2 p.doc ++ indent 2 ++ renderOneParam p ++ ",\n") := by
    rw [hdoc]
    exact (((within_self _).append_right _).append_right _).append_right _
  have hlines := List.mem_map_of_mem (f := fun p : Param =>
    renderDoc? 2 p.doc ++ indent 2 ++ renderOneParam p ++ ",\n") hp
  rw [Method.renderParamList, if_pos hpromoting]
  exact ((hline.trans (Text.within_join hlines)).append_left _).append_right _

theorem within_renderMethod (h : x ∈ m.docs) (kind : ClassKind) :
    Within (renderDoc x.1 x.2) (m.render kind) := by
  rcases List.mem_append.mp h with h | h
  · have hbegin : ∃ rest, m.render kind = renderDoc? 1 m.doc ++ rest := by
      simp only [Method.render, String.append_assoc]
      exact ⟨_, rfl⟩
    obtain ⟨rest, hrest⟩ := hbegin
    rw [hrest]
    exact (within_renderDoc? h).append_right rest
  · split at h
    · rename_i hpromoting
      unfold Method.render
      exact ((((within_renderParamList hpromoting h).append_left _).append_right _).append_right
        _).append_right _
    · cases h

theorem within_renderClass (h : x ∈ c.docs) : Within (renderDoc x.1 x.2) c.render := by
  rcases List.mem_append.mp h with h | h
  · have hbegin : ∃ rest, c.render = renderDoc? 0 c.doc ++ rest := by
      simp only [Class.render, String.append_assoc]
      exact ⟨_, rfl⟩
    obtain ⟨rest, hrest⟩ := hbegin
    rw [hrest]
    exact (within_renderDoc? h).append_right rest
  · obtain ⟨m, hm, hx⟩ := List.mem_flatMap.mp h
    have hsection : m.render c.kind ∈ c.sections :=
      List.mem_append_right _ (List.mem_map_of_mem hm)
    unfold Class.render
    exact (((within_renderMethod hx c.kind).trans (Text.within_intercalate hsection)).append_left
      _).append_right _

/-- The block of each doc comment stands in the text of the file. -/
theorem within_render (h : x ∈ f.declaration.docs) : Within (renderDoc x.1 x.2) f.render := by
  unfold File.render
  exact (within_renderClass h).append_left _

theorem docs_of_bare (h : ∀ p ∈ m.params, p.doc = none) : m.docs = m.doc.toList.map (1, ·) := by
  have hnone : m.params.filterMap (·.doc) = [] := List.filterMap_eq_nil_iff.mpr h
  rw [Method.docs, hnone, List.map_nil, ite_self, List.append_nil]

theorem docs_of_promoted (h : ∀ p ∈ m.params, p.promoted.isSome) :
    m.docs = m.doc.toList.map (1, ·) ++ (m.params.filterMap (·.doc)).map (2, ·) := by
  -- without parameters the method promotes none, but then there are no comments of theirs either
  by_cases hparams : m.params = []
  · rw [Method.docs, hparams, List.filterMap_nil, List.map_nil, ite_self]
  · obtain ⟨p, hp⟩ := List.exists_mem_of_ne_nil _ hparams
    have hpromoting : m.isPromoting = true := List.any_eq_true.mpr ⟨p, hp, h p hp⟩
    rw [Method.docs, if_pos hpromoting]

theorem docs_addMethod (f : File) (m : Method) :
    (f.addMethod m).declaration.docs = f.declaration.docs ++ m.docs := by
  simp only [File.addMethod, Class.docs, List.flatMap_append, List.flatMap_singleton,
    List.append_assoc]

/-- A method without comments leaves those of the class as they were. -/
theorem docs_addMethod_bare (f : File) (hdoc : m.doc = none)
    (hparams : ∀ p ∈ m.params, p.doc = none) :
    (f.addMethod m).declaration.docs = f.declaration.docs := by
  rw [docs_addMethod, docs_of_bare hparams, hdoc]
  exact List.append_nil _

end Php

namespace Client
open Php (File docs_addMethod docs_addMethod_bare)
open Text (endsIn endsIn_append)

variable {d : Api.Description} {s : Settings} {p : Plan} {f : File}

/-- How often the texts in a file's doc comments end a comment. -/
def docEnds (f : File) : Nat := endsIn (f.declaration.docs.map (·.2))

theorem texts_map (level : Nat) (ts : List String) : (ts.map (level, ·)).map (·.2) = ts := by
  rw [List.map_map]
  exact List.map_id ts

/-! Requests and resources -/

/-- The texts of an endpoint that go into comments. -/
def endpointTexts (e : Api.Endpoint) : List String := e.name :: e.description.toList

theorem docs_requestStart (s : Settings) (r : Resource) (c : Call) :
    (requestStart s r c).declaration.docs =
      (docOf [some c.endpoint.name, c.endpoint.description]).toList.map (0, ·) := by
  simp only [requestStart, Php.File.declaration_addImport, File.plain, Php.Class.empty,
    Php.Class.docs, List.flatMap_nil, List.append_nil]

theorem docs_addConstructor (f : File) (ms : List Member) :
    (addConstructor f ms).declaration.docs = f.declaration.docs := by
  unfold addConstructor
  split
  · rfl
  · exact docs_addMethod_bare f rfl (List.forall_mem_map.mpr fun _ _ => rfl)

theorem docs_addValues (f : File) (name : String) (ms : List Member) :
    (addValues f name ms).declaration.docs = f.declaration.docs := by
  unfold addValues
  split
  · rfl
  · exact docs_addMethod_bare f rfl (List.forall_mem_nil _)

theorem docs_addBody (f : File) (ms : List Member) :
    (addBody f ms).declaration.docs = f.declaration.docs := by
  unfold addBody
  split
  · rfl
  · simp only [docs_addValues, Php.File.declaration_addImport]
    rfl

theorem docs_addResponse (f : File) (c : ClassRef) (isList : Bool) :
    (addResponse f c isList).declaration.docs = f.declaration.docs := by
  have hbare : ∀ p ∈ [(Php.ParamOf.typed "response" (.named "Response") : Php.Param)],
      p.doc = none := List.forall_mem_singleton.mpr rfl
  simp only [addResponse]
  rw [docs_addMethod_bare _ rfl hbare, declaration_importClass, Php.File.declaration_addImport]

/-- A request class tells the name and the description of its endpoint, and nothing else. -/
theorem docs_requestFile (d : Api.Description) (s : Settings) (classes : DtoClasses) (r : Resource)
    (c : Call) : (requestFile d s classes r c).declaration.docs =
      (docOf [some c.endpoint.name, c.endpoint.description]).toList.map (0, ·) := by
  unfold requestFile
  split
  case' h_1 => rw [docs_addResponse]
  all_goals rw [docs_addValues, docs_addValues, docs_addBody, docs_addConstructor,
    docs_addMethod_bare _ rfl (List.forall_mem_nil _), docs_requestStart]

theorem docEnds_requestFile (d : Api.Description) (s : Settings) (classes : DtoClasses)
    (r : Resource) (c : Call) :
    docEnds (requestFile d s classes r c) = endsIn (endpointTexts c.endpoint) := by
  rw [docEnds, docs_requestFile, texts_map, endsIn_docOf]
  exact congrArg (fun ts => endsIn (c.endpoint.name :: ts)) (List.append_nil _)

theorem docs_sendMethod (c : Call) (name : String) : (c.sendMethod name).docs =
    (docOf [c.endpoint.description]).toList.map (1, ·) :=
  Php.docs_of_bare (List.forall_mem_map.mpr fun _ _ => rfl)

theorem docs_addCall (s : Settings) (r : Resource) (f : File) (c : Call) :
    (addCall s r f c).declaration.docs = f.declaration.docs ++
      (docOf [c.endpoint.description]).toList.map (1, ·) := by
  rw [addCall_eq, docs_addMethod, docs_sendMethod, declaration_importClass]

theorem docs_resourceStart (s : Settings) (r : Resource) :
    (resourceStart s r).declaration.docs = [] := by
  simp only [resourceStart, Php.File.declaration_addImport, declaration_importBase]
  rfl

theorem docs_foldl_addCall (s : Settings) (r : Resource) (calls : List Call) (f : File) :
    (calls.foldl (addCall s r) f).declaration.docs = f.declaration.docs ++
      calls.flatMap fun c => (docOf [c.endpoint.description]).toList.map (1, ·) := by
  induction calls generalizing f with
  | nil => exact (List.append_nil _).symm
  | cons c calls ih =>
    rw [List.foldl_cons, ih, docs_addCall, List.flatMap_cons, List.append_assoc]

/-- A resource tells the description of each endpoint that it has a method for. -/
theorem docEnds_resourceFile (s : Settings) (r : Resource) : docEnds (resourceFile s r) =
    endsIn (r.calls.flatMap fun c => c.endpoint.description.toList) := by
  rw [docEnds, resourceFile, docs_foldl_addCall, docs_resourceStart, List.nil_append,
    List.map_flatMap]
  refine Text.endsIn_flatMap_congr (fun c => ?_) r.calls
  rw [texts_map, endsIn_docOf_singleton]

/-! The connector -/

/-- The texts of the connector's members. -/
def connectorTexts (d : Api.Description) : List String :=
  (credentials d).filterMap (·.description) ++ (serverMembers d).filterMap (·.description)

theorem endsIn_filterMap_docOf {α : Type} (g : α → Option String) (l : List α) :
    endsIn (l.filterMap fun a => docOf [g a]) = endsIn (l.filterMap g) := by
  rw [List.filterMap_eq_flatMap_toList, List.filterMap_eq_flatMap_toList]
  exact Text.endsIn_flatMap_congr (fun a => endsIn_docOf_singleton (g a)) l

theorem endsIn_connectorParams (d : Api.Description) :
    endsIn ((connectorParams d).filterMap (·.doc)) = endsIn (connectorTexts d) := by
  have hperm := requiredFirst_perm
    ((credentials d).map Credential.toParam ++ (serverMembers d).map serverParam)
  rw [connectorParams, Text.endsIn_perm (hperm.filterMap _), List.filterMap_append,
    List.filterMap_map, List.filterMap_map, connectorTexts, endsIn_append, endsIn_append]
  exact congrArg₂ (· + ·) (endsIn_filterMap_docOf _ _) (endsIn_filterMap_docOf _ _)

theorem docs_addConnectorConstructor (d : Api.Description) (f : File) :
    (addConnectorConstructor d f).declaration.docs =
      f.declaration.docs ++ ((connectorParams d).filterMap (·.doc)).map (2, ·) := by
  have hpromoted : ∀ p ∈ connectorParams d, p.promoted.isSome := by
    intro p hp
    rw [promoted_connectorParams d p hp]
    rfl
  simp only [addConnectorConstructor]
  split
  · rename_i hempty
    rw [declaration_importAuthenticators, List.isEmpty_iff.mp hempty]
    exact (List.append_nil _).symm
  · rw [docs_addMethod, declaration_importAuthenticators, Php.docs_of_promoted hpromoted]
    rfl

theorem docs_foldl_addAccessor (cs : List ClassRef) (f : File) :
    (cs.foldl addAccessor f).declaration.docs = f.declaration.docs := by
  induction cs generalizing f with
  | nil => rfl
  | cons c cs ih =>
    rw [List.foldl_cons, ih, addAccessor_eq, docs_addMethod_bare _ rfl (List.forall_mem_nil _),
      declaration_importClass]

theorem docs_connectorStart (s : Settings) : (connectorStart s).declaration.docs = [] := by
  simp only [connectorStart, declaration_importBase]
  rfl

/-- The connector tells the descriptions of its members. -/
theorem docEnds_connectorFile (h : connectorFile d s p = .ok f) :
    docEnds f = endsIn (connectorTexts d) := by
  obtain ⟨baseUrl, -, h⟩ := bind_eq_ok.mp h
  obtain rfl := Except.ok.inj h
  rw [docEnds, docs_foldl_addAccessor, docs_addMethod_bare _ rfl (List.forall_mem_nil _),
    docs_addMethod_bare _ rfl (List.forall_mem_nil _), docs_addConnectorConstructor,
    docs_connectorStart, List.nil_append, texts_map, endsIn_connectorParams]

end Client
end SdkSmith
