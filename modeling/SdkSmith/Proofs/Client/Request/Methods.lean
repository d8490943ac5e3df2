import SdkSmith.Client.Resource
import SdkSmith.Proofs.Client.Plan.Members

/-!
The methods of a request class: what each step of building the class adds, and so which values are
sent from which member. A resource class has one method for each of its requests.
-/
namespace SdkSmith

namespace Php.File

@[simp] theorem methods_addMethod (f : File) (m : Method) :
    (f.addMethod m).declaration.methods = f.declaration.methods ++ [m] := rfl

end Php.File

namespace Client
open Php (Expr File Method)

/-- The method that gives the values of a place; a path has none. -/
def Place.accessor? : Place → Option String
  | .path => none
  | .body => some "defaultBody"
  | .query => some "defaultQuery"
  | .header => some "defaultHeaders"

/-- The method for the values of one place, if there are any. -/
def valuesMethods (name : String) (ms : List Member) : List Method :=
  if ms.isEmpty then [] else [valuesMethod name ms]

/-- The constructor, if there are members. -/
def constructors (ms : List Member) : List Method :=
  if ms.isEmpty then []
  else [.plain "__construct" (ms.map fun m => { m.toParam with promoted := some .heirs })]

theorem methods_addConstructor (f : File) (ms : List Member) :
    (addConstructor f ms).declaration.methods = f.declaration.methods ++ constructors ms := by
  unfold addConstructor constructors
  split
  · exact (List.append_nil _).symm
  · rfl

theorem methods_addValues (f : File) (name : String) (ms : List Member) :
    (addValues f name ms).declaration.methods =
      f.declaration.methods ++ valuesMethods name ms := by
  unfold addValues valuesMethods
  split
  · exact (List.append_nil _).symm
  · rfl

theorem methods_addBody (f : File) (ms : List Member) :
    (addBody f ms).declaration.methods =
      f.declaration.methods ++ valuesMethods "defaultBody" ms := by
  unfold addBody
  split
  · rename_i hnone
    rw [valuesMethods, if_pos hnone, List.append_nil]
  · rw [methods_addValues, Php.File.declaration_addImport, Php.File.declaration_addImport]

/-- The method that makes objects of a response, by the name that their class has in the file. -/
def responseMethod (className : String) (isList : Bool) : Method :=
  .returning "createDtoFromResponse" [.typed "response" (.named "Response")] .mixed
    (responseExpr className isList)

/-- With the method for its response, a class has one method more. -/
theorem methods_addResponse {f : File} {ms : List Method} (h : f.declaration.methods = ms)
    (c : ClassRef) (isList : Bool) : ∃ response : List Method,
      (∀ m ∈ response, ∃ className isList, m = responseMethod className isList) ∧
      (addResponse f c isList).declaration.methods = ms ++ response := by
  refine ⟨[responseMethod (importClass (f.addImport ⟨"Saloon\\Http\\Response", none⟩) c "Dto").1
    isList], List.forall_mem_singleton.mpr ⟨_, _, rfl⟩, ?_⟩
  rw [addResponse, Php.File.methods_addMethod, declaration_importClass,
    Php.File.declaration_addImport, responseMethod, h]

/-- The methods of a request class, in order. -/
theorem methods_requestFile (d : Api.Description) (s : Settings) (classes : DtoClasses)
    (r : Resource) (c : Call) : ∃ response : List Method,
      (∀ m ∈ response, ∃ className isList, m = responseMethod className isList) ∧
      (requestFile d s classes r c).declaration.methods =
        [.returning "resolveEndpoint" [] .string c.endpointExpr] ++ constructors c.members ++
          valuesMethods "defaultBody" (c.membersIn .body) ++
          valuesMethods "defaultQuery" (c.membersIn .query) ++
          valuesMethods "defaultHeaders" (c.membersIn .header) ++ response := by
  have hstart : (requestStart s r c).declaration.methods = [] := by
    rw [requestStart, Php.File.declaration_addImport, Php.File.declaration_addImport]
    rfl
  unfold requestFile
  split
  · refine methods_addResponse ?_ _ _
    rw [methods_addValues, methods_addValues, methods_addBody, methods_addConstructor,
      Php.File.methods_addMethod, hstart, List.nil_append]
  · refine ⟨[], List.forall_mem_nil _, ?_⟩
    rw [methods_addValues, methods_addValues, methods_addBody, methods_addConstructor,
      Php.File.methods_addMethod, hstart, List.nil_append, List.append_nil]

theorem name_valuesMethods (name : String) (ms : List Member) :
    ∀ m ∈ valuesMethods name ms, m.name = name := by
  unfold valuesMethods
  split
  · exact List.forall_mem_nil _
  · exact List.forall_mem_singleton.mpr rfl

theorem name_constructors (ms : List Member) : ∀ m ∈ constructors ms, m.name = "__construct" := by
  unfold constructors
  split
  · exact List.forall_mem_nil _
  · exact List.forall_mem_singleton.mpr rfl

/-- The first method of a name, among methods of one name. -/
theorem find?_of_name {ms : List Method} {n : String} (h : ∀ m ∈ ms, m.name = n) (name : String) :
    ms.find? (fun m => m.name == name) = if n = name then ms.head? else none := by
  cases ms with
  | nil => simp
  | cons m ms =>
    have hm : m.name = n := h m List.mem_cons_self
    split
    · rename_i hn
      rw [List.find?_cons_of_pos (by rw [hm, hn, beq_self_eq_true])]
      rfl
    · rename_i hn
      rw [List.find?_eq_none]
      intro k hk
      rw [h k hk, beq_iff_eq]
      exact hn

variable {d : Api.Description} {s : Settings} {r : Resource} {c : Call} {place : Place}
  {name : String}

/-- The method of a name is looked for in one group after another. -/
theorem method?_requestFile (d : Api.Description) (s : Settings) (classes : DtoClasses)
    (r : Resource) (c : Call) (name : String) : ∃ response : Option Method,
      (requestFile d s classes r c).declaration.method? name =
        (((((if "resolveEndpoint" = name then
          some (.returning "resolveEndpoint" [] .string c.endpointExpr) else none).or
        (if "__construct" = name then (constructors c.members).head? else none)).or
        (if "defaultBody" = name then
          (valuesMethods "defaultBody" (c.membersIn .body)).head? else none)).or
        (if "defaultQuery" = name then
          (valuesMethods "defaultQuery" (c.membersIn .query)).head? else none)).or
        (if "defaultHeaders" = name then
          (valuesMethods "defaultHeaders" (c.membersIn .header)).head? else none)).or
        (if "createDtoFromResponse" = name then response else none) := by
  obtain ⟨response, hresponse, hmethods⟩ := methods_requestFile d s classes r c
  have hresolve : ∀ m ∈ [Method.returning "resolveEndpoint" [] .string c.endpointExpr],
      m.name = "resolveEndpoint" := List.forall_mem_singleton.mpr rfl
  have hnames : ∀ m ∈ response, m.name = "createDtoFromResponse" := by
    intro m hm
    obtain ⟨className, isList, rfl⟩ := hresponse m hm
    rfl
  refine ⟨response.head?, ?_⟩
  rw [Php.Class.method?, hmethods, List.find?_append, List.find?_append, List.find?_append,
    List.find?_append, List.find?_append, find?_of_name hresolve,
    find?_of_name (name_constructors _), find?_of_name (name_valuesMethods _ _),
    find?_of_name (name_valuesMethods _ _), find?_of_name (name_valuesMethods _ _),
    find?_of_name hnames]
  rfl

theorem constructor?_requestFile (d : Api.Description) (s : Settings) (classes : DtoClasses)
    (r : Resource) (c : Call) : (requestFile d s classes r c).declaration.constructor? =
      (constructors c.members).head? := by
  obtain ⟨response, hmethod⟩ := method?_requestFile d s classes r c "__construct"
  rw [Php.Class.constructor?, hmethod]
  simp

/-- The method for the values of a place is there exactly if there are any. -/
theorem accessor_requestFile (d : Api.Description) (s : Settings) (classes : DtoClasses)
    (r : Resource) (c : Call) (h : place.accessor? = some name) :
    (requestFile d s classes r c).declaration.method? name =
      (valuesMethods name (c.membersIn place)).head? := by
  obtain ⟨response, hmethod⟩ := method?_requestFile d s classes r c name
  rw [hmethod]
  cases place with
  | path => cases h
  | body | query | header =>
    cases h
    simp

theorem head?_valuesMethods (name : String) (ms : List Member) :
    (valuesMethods name ms).head? = if ms = [] then none else some (valuesMethod name ms) := by
  cases ms <;> rfl

theorem head?_constructors {ms : List Member} (h : ms ≠ []) : (constructors ms).head? =
    some (.plain "__construct" (ms.map fun m => { m.toParam with promoted := some .heirs })) := by
  cases ms with
  | nil => exact absurd rfl h
  | cons => rfl

/-- The names of the members of a class: the parameters of its constructor. -/
def memberNames (f : File) : List String :=
  match f.declaration.constructor? with
  | some k => k.params.map (·.name)
  | none => []

theorem memberNames_requestFile (d : Api.Description) (s : Settings) (classes : DtoClasses)
    (r : Resource) (c : Call) :
    memberNames (requestFile d s classes r c) = c.members.map (·.name) := by
  rw [memberNames, constructor?_requestFile]
  by_cases h : c.members = []
  · rw [h]
    rfl
  · rw [head?_constructors h]
    simp only [Method.plain, List.map_map, Function.comp_def, Member.toParam]

/-- The members of a request are those of the path, and then the parameters of the body, the query
and the headers that are neither left out nor named like a type, each with a variable of its own.
The request class gives the values of a place exactly if there are any, under their names on the
wire and in their order, each from its own member of the constructor. -/
theorem requestFile_sends (classes : DtoClasses) (hr : r ∈ (Plan.ofDescription d s).resources)
    (hc : c ∈ r.calls) :
    c.members =
      c.membersIn .path ++ c.membersIn .body ++ c.membersIn .query ++ c.membersIn .header ∧
    (c.membersIn .body).map (·.parameter) = (c.endpoint.bodyParameters.filter fun p =>
      !(s.ignoredBody.contains p.name || Naming.isTypeAnnotation p.name)) ∧
    (c.membersIn .query).map (·.parameter) = (c.endpoint.queryParameters.filter fun p =>
      !(s.ignoredQuery.contains p.name || Naming.isTypeAnnotation p.name)) ∧
    (c.membersIn .header).map (·.parameter) = (c.endpoint.headerParameters.filter fun p =>
      !((s.ignoredHeaders.any fun h => Text.lower h == Text.lower p.name) ||
        Naming.isTypeAnnotation p.name)) ∧
    (c.members.map (·.name)).Nodup ∧
    ∀ place name, place.accessor? = some name →
      (c.membersIn place = [] →
        (requestFile d s classes r c).declaration.method? name = none) ∧
      (c.membersIn place ≠ [] → ∃ m k,
        (requestFile d s classes r c).declaration.method? name = some m ∧
        m.returned? = some (.call "array_filter" [
          .array ((c.membersIn place).map fun m =>
            (.string m.parameter.name, .thisProperty m.name)),
          .arrowFn [.untyped "value"] (.notIdentical (.variable "value") .null)]) ∧
        (requestFile d s classes r c).declaration.constructor? = some k ∧
        k.params.map (fun p => (p.name, p.promoted)) =
          c.members.map fun m => (m.name, some .heirs)) := by
  have hmembers := Plan.members_of_mem_calls hr hc
  have harranged := Call.arranged hmembers
  refine ⟨harranged.members_eq, harranged.body, harranged.query, harranged.header, ?_, ?_⟩
  · have hdistinct := (sound_members s c.endpoint).given.nodup
    rwa [← hmembers, List.map_map] at hdistinct
  · intro place name hname
    rw [accessor_requestFile d s classes r c hname, head?_valuesMethods]
    refine ⟨fun hnone => if_pos hnone, fun hsome => ?_⟩
    have hany : c.members ≠ [] := by
      intro hnil
      apply hsome
      rw [Call.membersIn, hnil]
      rfl
    have hconstructor := constructor?_requestFile d s classes r c
    rw [head?_constructors hany] at hconstructor
    refine ⟨_, _, if_neg hsome, rfl, hconstructor, ?_⟩
    rw [Method.plain, List.map_map]
    rfl

/-- A message to a team, of which some parameters are not sent. -/
def message : Api.Description :=
  { Api.Description.empty with endpoints := [
    { Api.Endpoint.plain "Send" .post "/teams/:team" with
      bodyParameters := [.plain "text" .string, .plain "<string>" .string, .plain "key" .string]
      queryParameters := [.plain "page" .int, .plain "Text" .string]
      headerParameters := [.plain "X-Trace" .string] }] }

/-- Settings that leave out a key and a header. -/
def discreet : Settings :=
  { Settings.new "Acme" "App" with ignoredBody := ["key"], ignoredHeaders := ["x-trace"] }

/-- The text in the query gives way to that in the body, and no header is left to send. -/
theorem requestFile_message_sends : ∃ r ∈ (Plan.ofDescription message discreet).resources,
    ∃ c ∈ r.calls, c.members.map (·.name) = ["team", "text", "page", "textDuplicate1"] ∧
      (requestFile message discreet [] r c).declaration.method? "defaultHeaders" = none ∧
      ∃ m, (requestFile message discreet [] r c).declaration.method? "defaultQuery" = some m ∧
        m.returned? = some (.call "array_filter" [
          .array [(.string "page", .thisProperty "page"),
            (.string "Text", .thisProperty "textDuplicate1")],
          .arrowFn [.untyped "value"] (.notIdentical (.variable "value") .null)]) := by
  have hrun : (Plan.ofDescription message discreet).resources.map (fun r => r.calls.map fun c =>
      (c.members.map (·.name), (c.membersIn .query).map (fun m => (m.parameter.name, m.name)),
        (c.membersIn .header).length)) =
      [[(["team", "text", "page", "textDuplicate1"],
        [("page", "page"), ("Text", "textDuplicate1")], 0)]] := by decide +kernel
  obtain ⟨r, hr, hcalls⟩ := List.mem_map.mp (hrun ▸ List.mem_singleton_self _)
  obtain ⟨c, hc, hvalues⟩ := List.mem_map.mp (hcalls ▸ List.mem_singleton_self _)
  obtain ⟨hnames, hquery, hheader⟩ : _ ∧ _ ∧ _ := by simpa only [Prod.mk.injEq] using hvalues
  obtain ⟨-, -, -, -, -, hplaces⟩ := requestFile_sends [] hr hc
  refine ⟨r, hr, c, hc, hnames, (hplaces .header _ rfl).1 (List.length_eq_zero_iff.mp hheader), ?_⟩
  have hne : c.membersIn .query ≠ [] := by
    intro hnil
    rw [hnil] at hquery
    cases hquery
  obtain ⟨m, k, hm, hreturned, -, -⟩ := (hplaces .query _ rfl).2 hne
  refine ⟨m, hm, ?_⟩
  have hentries : (c.membersIn .query).map
      (fun m => (Expr.string m.parameter.name, Expr.thisProperty m.name)) =
      [(.string "page", .thisProperty "page"),
        (.string "Text", .thisProperty "textDuplicate1")] := by
    have hmap := congrArg (List.map fun x => (Expr.string x.1, Expr.thisProperty x.2)) hquery
    rwa [List.map_map] at hmap
  rw [hreturned, hentries]

/-! Resource classes -/

theorem methods_addCall (s : Settings) (r : Resource) (f : File) (c : Call) :
    (addCall s r f c).declaration.methods = f.declaration.methods ++
      [c.sendMethod (importClass f (r.requestRef s c) "Request").1] := by
  rw [addCall, Php.File.methods_addMethod, declaration_importClass]

theorem methods_resourceStart (s : Settings) (r : Resource) :
    (resourceStart s r).declaration.methods = [] := by
  simp only [resourceStart, Php.File.declaration_addImport, declaration_importBase]
  rfl

/-- A resource class has one method for each call, under the call's name. -/
theorem methods_resourceFile (s : Settings) (r : Resource) :
    (resourceFile s r).declaration.methods.map (·.name) = r.calls.map (·.method) := by
  have hrun : ∀ (calls : List Call) (f : File),
      (calls.foldl (addCall s r) f).declaration.methods.map (·.name) =
        f.declaration.methods.map (·.name) ++ calls.map (·.method) := by
    intro calls
    induction calls with
    | nil => exact fun f => (List.append_nil _).symm
    | cons c calls ih =>
      intro f
      rw [List.foldl_cons, ih, methods_addCall, List.map_append, List.append_assoc]
      rfl
  have hnames := hrun r.calls (resourceStart s r)
  rwa [methods_resourceStart, List.map_nil, List.nil_append] at hnames

end Client
end SdkSmith
