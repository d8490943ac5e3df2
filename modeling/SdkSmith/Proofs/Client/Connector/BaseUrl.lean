import SdkSmith.Proofs.Client.Connector.Credentials
import SdkSmith.Proofs.Client.Connector.Tokens
import SdkSmith.Proofs.OpenApi.Templates

/-!
The base URL. The text between the tokens of its template stays as it is, and each token is replaced
by the property for it. That is the only thing that can keep a client from being made.
-/
namespace SdkSmith

namespace Php

/-- The text of a part in the template that it comes from. -/
def Part.sourceForm : Part → String
  | .literal text => text
  | .property source _ => "\x7b" ++ source ++ "\x7d"

/-- The template that an expression comes from. -/
def Expr.sourceForm? : Expr → Option String
  | .literal (.string text) => some text
  | e => e.template?

end Php

namespace Client.Template
open Php (Part)

variable {members : List (String × String)} {template rest text name : String}
  {cuts : List (String × String)} {ps : List Part}

/-! What becomes of the pieces -/

/-- The part for a text, if there is any. -/
def textParts (text : String) : List Part :=
  if text = "" then [] else [.literal text]

/-- The parts of a template that is cut, or the first token without a member. -/
def cutParts (members : List (String × String)) (rest : String) :
    List (String × String) → Except String (List Part)
  | [] => .ok (textParts rest)
  | (text, name) :: cuts =>
    match members.lookup name with
    | none => .error name
    | some property =>
      (cutParts members rest cuts).map fun ps => textParts text ++ .property name property :: ps

theorem parts_textPieces (text : String) (ps : List Piece) :
    parts members (textPieces text.toList ++ ps) =
      (parts members ps).map (textParts text ++ ·) := by
  by_cases hempty : text = ""
  · rw [hempty]
    cases h : parts members ps <;> simp [textPieces, textParts, h, Except.map]
  · have hne := mt String.toList_eq_nil_iff.mp hempty
    rw [textPieces, if_neg hne, textParts, if_neg hempty, List.singleton_append, parts,
      String.ofList_toList]
    rfl

theorem IsCut.parts_scan (h : IsCut template cuts rest) :
    parts members (scan template) = cutParts members rest cuts := by
  induction h with
  | @rest text h =>
    have hparts : parts members (textPieces text.toList ++ []) = _ := parts_textPieces text []
    rw [List.append_nil] at hparts
    rw [scan_rest h, hparts, cutParts, parts]
    simp [Except.map]
  | @token _ text name tail rest cuts htemplate htext hname h ih =>
    rw [htemplate, scan_token htext hname, parts_textPieces, cutParts]
    simp only [parts, String.ofList_toList, ih]
    cases members.lookup name with
    | none => rfl
    | some property => cases cutParts members rest cuts <;> rfl

/-! What is made of a template -/

/-- The first member of a name. -/
def memberFor? (members : List (String × String)) (name : String) : Option (String × String) :=
  members.find? fun m => m.1 == name

theorem lookup_eq_memberFor? (members : List (String × String)) (name : String) :
    members.lookup name = (memberFor? members name).map (·.2) := by
  induction members with
  | nil => rfl
  | cons m members ih =>
    rw [List.lookup_cons, memberFor?, List.find?_cons, BEq.comm (a := name)]
    cases m.1 == name with
    | true => rfl
    | false => exact ih

theorem name_of_memberFor? {m : String × String} (h : memberFor? members name = some m) :
    m.1 = name := by
  have hname := List.find?_some h
  rwa [beq_iff_eq] at hname

theorem join_textParts {g : Part → String} (hg : ∀ text, g (.literal text) = text)
    (text : String) (ps : List Part) :
    String.join ((textParts text ++ ps).map g) = text ++ String.join (ps.map g) := by
  by_cases hempty : text = ""
  · rw [textParts, if_pos hempty, hempty, List.nil_append, String.empty_append]
  · rw [textParts, if_neg hempty, List.singleton_append, List.map_cons, String.join_cons, hg]

theorem substitutions_textParts (text : String) (ps : List Part) :
    (textParts text ++ ps).filterMap Part.substitution? = ps.filterMap Part.substitution? := by
  rw [textParts]
  split <;> rfl

/-- Whether parts are a template that is cut, with the first member of its name for each token. -/
structure Fits (members cuts : List (String × String)) (rest : String) (ps : List Part) : Prop where
  source : String.join (ps.map Part.sourceForm) =
    String.join (cuts.map fun x => x.1 ++ "\x7b" ++ x.2 ++ "\x7d") ++ rest
  replaced : (ps.filterMap Part.substitution?).map some = cuts.map fun x => memberFor? members x.2
  filled : ∀ values, String.join (ps.map (Part.fill values)) =
    String.join ((cuts.zip (ps.filterMap Part.substitution?)).map fun x => x.1.1 ++ values x.2.2) ++
      rest

theorem fits_textParts (rest : String) : Fits members [] rest (textParts rest) := by
  have hjoin : ∀ {g : Part → String}, (∀ text, g (.literal text) = text) →
      String.join ((textParts rest).map g) = rest := by
    intro g hg
    have hparts := join_textParts hg rest []
    rwa [List.append_nil, List.map_nil, String.join_nil, String.append_empty] at hparts
  have hsubstitutions := substitutions_textParts rest []
  rw [List.append_nil] at hsubstitutions
  constructor
  case source =>
    rw [hjoin fun _ => rfl]
    simp
  case replaced =>
    rw [hsubstitutions]
    rfl
  case filled =>
    intro values
    rw [hjoin fun _ => rfl]
    simp

theorem Fits.token (h : Fits members cuts rest ps) {m : String × String}
    (hm : memberFor? members name = some m) (text : String) :
    Fits members ((text, name) :: cuts) rest (textParts text ++ .property name m.2 :: ps) := by
  have hsubstitutions : (textParts text ++ .property name m.2 :: ps).filterMap Part.substitution? =
      (name, m.2) :: ps.filterMap Part.substitution? := by
    rw [substitutions_textParts]
    rfl
  constructor
  case source =>
    rw [join_textParts fun _ => rfl, List.map_cons, String.join_cons, h.source]
    simp [Part.sourceForm, String.append_assoc]
  case replaced =>
    have hname := name_of_memberFor? hm
    rw [hsubstitutions, List.map_cons, List.map_cons, h.replaced, hm, ← hname]
  case filled =>
    intro values
    rw [hsubstitutions, join_textParts fun _ => rfl, List.map_cons, String.join_cons, h.filled]
    simp [Part.fill, String.append_assoc]

theorem fits_of_cutParts (h : cutParts members rest cuts = .ok ps) :
    Fits members cuts rest ps := by
  induction cuts generalizing ps with
  | nil =>
    cases h
    exact fits_textParts rest
  | cons x cuts ih =>
    rw [cutParts, lookup_eq_memberFor?] at h
    cases hm : memberFor? members x.2 with
    | none =>
      rw [hm] at h
      cases h
    | some m =>
      rw [hm] at h
      obtain ⟨qs, hqs, rfl⟩ := map_eq_ok.mp h
      exact (ih hqs).token hm x.1

/-- The first token without a member is told. -/
theorem cutParts_eq_error {token : String} : cutParts members rest cuts = .error token ↔
    ∃ x, cuts.find? (fun x => (memberFor? members x.2).isNone) = some x ∧ x.2 = token := by
  induction cuts with
  | nil => simp [cutParts]
  | cons x cuts ih =>
    rw [cutParts, lookup_eq_memberFor?, List.find?_cons]
    cases hm : memberFor? members x.2 with
    | none => simp
    | some m =>
      simp only [Option.map_some, Option.isNone_some]
      rw [← ih]
      cases cutParts members rest cuts <;> simp [Except.map]

theorem sourceForm?_exprOf (ps : List Part) :
    (exprOf ps).sourceForm? = some (String.join (ps.map Part.sourceForm)) := by
  unfold exprOf
  split
  · rfl
  · simp [Php.Expr.string, Php.Expr.sourceForm?, Part.sourceForm]
  · rfl

theorem fill?_exprOf (values : String → String) (ps : List Part) :
    (exprOf ps).fill? values = some (String.join (ps.map (Part.fill values))) := by
  unfold exprOf
  split
  · rfl
  · simp [Php.Expr.string, Php.Expr.fill?, Part.fill]
  · rfl

/-- What a template that is cut becomes: a failure that tells the first token without a member and
the template, or an expression that has the template as its source and makes the same text with the
first member of its name for each token. -/
structure Renders (members : List (String × String)) (template : String)
    (cuts : List (String × String)) (rest : String) (result : Except Failure Php.Expr) : Prop where
  fails : ∀ f, result = .error f ↔ ∃ x,
    cuts.find? (fun x => (memberFor? members x.2).isNone) = some x ∧ f = .template template x.2
  source : ∀ e, result = .ok e → e.sourceForm? = some template
  replaced : ∀ e, result = .ok e →
    e.substitutions.map some = cuts.map fun x => memberFor? members x.2
  filled : ∀ e, result = .ok e → ∀ values, e.fill? values =
    some (String.join ((cuts.zip e.substitutions).map fun x => x.1.1 ++ values x.2.2) ++ rest)

theorem IsCut.renders (h : IsCut template cuts rest) (members : List (String × String)) :
    Renders members template cuts rest (render template members) := by
  have hok : ∀ e, render template members = .ok e →
      ∃ ps, e = exprOf ps ∧ Fits members cuts rest ps := by
    intro e he
    rw [render, h.parts_scan] at he
    cases hps : cutParts members rest cuts with
    | error token => simp [hps] at he
    | ok ps =>
      rw [hps] at he
      cases he
      exact ⟨ps, rfl, fits_of_cutParts hps⟩
  constructor
  case fails =>
    intro f
    have herror : render template members = .error f ↔
        ∃ token, cutParts members rest cuts = .error token ∧ f = .template template token := by
      rw [render, h.parts_scan]
      cases cutParts members rest cuts <;> simp [eq_comm]
    rw [herror]
    simp only [cutParts_eq_error]
    constructor
    · rintro ⟨_, ⟨x, hx, rfl⟩, hf⟩
      exact ⟨x, hx, hf⟩
    · rintro ⟨x, hx, hf⟩
      exact ⟨x.2, ⟨x, hx, rfl⟩, hf⟩
  case source =>
    intro e he
    obtain ⟨ps, rfl, hfits⟩ := hok e he
    rw [sourceForm?_exprOf, hfits.source, ← h.template_eq]
  case replaced =>
    intro e he
    obtain ⟨ps, rfl, hfits⟩ := hok e he
    rw [substitutions_exprOf, hfits.replaced]
  case filled =>
    intro e he values
    obtain ⟨ps, rfl, hfits⟩ := hok e he
    rw [fill?_exprOf, substitutions_exprOf, hfits.filled]

end Client.Template

namespace Client
open Template (IsCut Renders memberFor?)

variable {d : Api.Description} {s : Settings}

/-- The variables that the base URL may have, with their properties. -/
def baseUrlMembers (d : Api.Description) : List (String × String) :=
  d.baseUrl.parameters.map fun p => (p.name, serverVariable p)

theorem baseUrlExpr_eq (d : Api.Description) :
    baseUrlExpr d = Template.render d.baseUrl.url (baseUrlMembers d) := rfl

theorem memberFor?_isNone {name : String} :
    (memberFor? (baseUrlMembers d) name).isNone = true ↔
      name ∉ d.baseUrl.parameters.map (·.name) := by
  rw [Option.isNone_iff_eq_none, memberFor?, List.find?_eq_none, baseUrlMembers,
    List.forall_mem_map]
  simp

theorem baseUrlExpr_eq_error {cuts : List (String × String)} {rest : String}
    (h : IsCut d.baseUrl.url cuts rest) : (∃ f, baseUrlExpr d = .error f) ↔
      ∃ x ∈ cuts, x.2 ∉ d.baseUrl.parameters.map (·.name) := by
  have hfails := (h.renders (baseUrlMembers d)).fails
  rw [← baseUrlExpr_eq] at hfails
  constructor
  · rintro ⟨f, hf⟩
    obtain ⟨x, hx, -⟩ := (hfails f).mp hf
    have hnone := List.find?_some hx
    exact ⟨x, List.mem_of_find?_eq_some hx, memberFor?_isNone.mp hnone⟩
  · rintro ⟨x, hx, hnone⟩
    have hsome : (cuts.find? fun x => (memberFor? (baseUrlMembers d) x.2).isNone).isSome :=
      List.find?_isSome.mpr ⟨x, hx, memberFor?_isNone.mpr hnone⟩
    obtain ⟨y, hy⟩ := Option.isSome_iff_exists.mp hsome
    exact ⟨_, (hfails _).mpr ⟨y, hy, rfl⟩⟩

namespace Sdk

/-- With valid settings nothing but the base URL can keep a client from being made. -/
theorem generate_eq_error (h : s.validate = .ok ()) (f : Failure) :
    generate d s = .error f ↔ baseUrlExpr d = .error f := by
  simp only [generate, connectorFile, h]
  cases baseUrlExpr d <;> simp [bind, Except.bind, pure, Except.pure]

/-- The tokens of a template can be found in one way, and a template is rendered by them: it fails
at the first one without a member, and otherwise keeps its text and has the members in their places.
A client for a description, whatever else is wrong with that, is made with valid settings unless a
token of its base URL is no variable that it declares. -/
theorem generate_rendersBaseUrl :
    (∀ template members, ∃ cuts rest, IsCut template cuts rest ∧
      (∀ cuts' rest', IsCut template cuts' rest' → cuts' = cuts ∧ rest' = rest) ∧
      Renders members template cuts rest (Template.render template members)) ∧
    ∀ d s, s.validate = .ok () → ((∃ f, generate d s = .error f) ↔
      ∃ cuts rest, IsCut d.baseUrl.url cuts rest ∧
        ∃ x ∈ cuts, x.2 ∉ d.baseUrl.parameters.map (·.name)) := by
  refine ⟨fun template members => ?_, fun d s hvalid => ?_⟩
  · obtain ⟨cuts, rest, hcut⟩ := Template.exists_isCut template
    exact ⟨cuts, rest, hcut, fun _ _ => hcut.unique, hcut.renders members⟩
  · simp only [generate_eq_error hvalid]
    constructor
    · intro hfails
      obtain ⟨cuts, rest, hcut⟩ := Template.exists_isCut d.baseUrl.url
      exact ⟨cuts, rest, hcut, (baseUrlExpr_eq_error hcut).mp hfails⟩
    · rintro ⟨cuts, rest, hcut, hmissing⟩
      exact (baseUrlExpr_eq_error hcut).mpr hmissing

/-- An API whose base URL has a token with a brace in its name, and a brace that is not closed. -/
def tangled (names : List String) : Api.Description :=
  { Api.Description.empty with
    baseUrl := ⟨"https://\x7bregion\x7d.acme.test/\x7b\x7bversion\x7d/\x7boops",
      names.map fun name => ⟨name, none, none⟩⟩ }

/-- The name of the second token begins with a brace, so a variable without it is not enough. -/
theorem generate_tangled_rendersBaseUrl :
    (Settings.new "Acme" "App").validate = .ok () ∧
    IsCut (tangled []).baseUrl.url [("https://", "region"), (".acme.test/", "\x7bversion")]
      "/\x7boops" ∧
    (∃ f, generate (tangled ["region", "version"]) (.new "Acme" "App") = .error f) ∧
    ¬ ∃ f, generate (tangled ["region", "\x7bversion"]) (.new "Acme" "App") = .error f := by
  have hvalid : (Settings.new "Acme" "App").validate = .ok () := by decide +kernel
  have hrest : IsCut "/\x7boops" [] "/\x7boops" := by
    refine .rest fun before after hsplit hclosed => ?_
    have hopen : '\x7d' ∉ "/\x7boops".toList := by decide
    rw [hsplit] at hopen
    exact hopen (by simp [hclosed])
  have hversion : IsCut ".acme.test/\x7b\x7bversion\x7d/\x7boops"
      [(".acme.test/", "\x7bversion")] "/\x7boops" :=
    .token (by decide) (by decide) (by decide) hrest
  have hcut : IsCut (tangled []).baseUrl.url
      [("https://", "region"), (".acme.test/", "\x7bversion")] "/\x7boops" :=
    .token (by decide) (by decide) (by decide) hversion
  refine ⟨hvalid, hcut, ?_, ?_⟩
  · refine (generate_rendersBaseUrl.2 _ _ hvalid).mpr ⟨_, _, hcut, _, List.mem_cons_of_mem _
      List.mem_cons_self, by decide⟩
  · rw [generate_rendersBaseUrl.2 _ _ hvalid]
    rintro ⟨cuts, rest, hcut', x, hx, hnone⟩
    obtain ⟨rfl, -⟩ := hcut.unique hcut'
    have hall : ∀ y ∈ [("https://", "region"), (".acme.test/", "\x7bversion")],
        y.2 ∈ (tangled ["region", "\x7bversion"]).baseUrl.parameters.map (·.name) := by decide
    exact hnone (hall x hx)

end Sdk
end Client
end SdkSmith
