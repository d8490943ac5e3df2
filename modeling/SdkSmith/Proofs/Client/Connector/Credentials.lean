import Mathlib.Data.List.Dedup
import SdkSmith.Proofs.Client.Sdk.Clashes

/-!
What a connector is given: keys, and values for the variables of the base URL. They are members of
one constructor, of which the first of each name stays. None is lost exactly if no two of them have
the same variable.
-/
namespace SdkSmith

namespace Client.Template
open Php (Part)

variable {members : List (String × String)} {pieces : List Piece} {ps : List Part}

/-- Each token is replaced by the property that is given for it. -/
theorem lookup_of_parts (h : parts members pieces = .ok ps) :
    ∀ x ∈ ps.filterMap Part.substitution?, members.lookup x.1 = some x.2 := by
  induction pieces generalizing ps with
  | nil =>
    cases h
    exact List.forall_mem_nil _
  | cons piece pieces ih =>
    cases piece with
    | text s =>
      obtain ⟨rest, hrest, rfl⟩ := map_eq_ok.mp h
      have hkept := ih hrest
      exact hkept
    | token t =>
      simp only [parts] at h
      split at h
      · cases h
      · rename_i property hproperty
        obtain ⟨rest, hrest, rfl⟩ := map_eq_ok.mp h
        exact List.forall_mem_cons.mpr ⟨hproperty, ih hrest⟩

theorem substitutions_exprOf (ps : List Part) :
    (exprOf ps).substitutions = ps.filterMap Part.substitution? := by
  unfold exprOf
  split <;> rfl

theorem lookup_of_render {template : String} {e : Php.Expr} (h : render template members = .ok e) :
    ∀ x ∈ e.substitutions, members.lookup x.1 = some x.2 := by
  unfold render at h
  split at h
  · rename_i ps hps
    cases h
    rw [substitutions_exprOf]
    exact lookup_of_parts hps
  · cases h

end Client.Template

namespace Client
open Naming (variableName)
open Php (Expr File Stmt)

variable {d : Api.Description} {s : Settings} {p : Plan} {f : File} {c : Credential}
  {r : Api.SecurityRequirement} {sdk : Sdk}

/-- The statement that hands a member over as the value of a key. -/
def handOver (carrier : Carrier) (key member : String) : Stmt :=
  .expr (.methodCall (.variable "this") "authenticate"
    [.new carrier.authenticator (carrier.args (.string key) (.thisProperty member))])

/-- The statements of a class's constructor, if it has one. -/
def constructorBody (f : File) : List Stmt :=
  match f.declaration.constructor? with
  | some k => k.body
  | none => []

/-- Whether a class is given the value of a key as a member, and hands it over when it is made. -/
structure Authenticates (f : File) (carrier : Carrier) (key member : String) : Prop where
  promoted : member ∈ promotedNames f
  call : handOver carrier key member ∈ constructorBody f
  authenticator :
    f.Introduces carrier.authenticator ("Saloon\\Http\\Auth\\" ++ carrier.authenticator)

/-- Whether a class is given a value for each of these variables of its base URL, as members that
differ from one another and from those that are handed over, and puts them in their places. -/
structure Backs (f : File) (names : List String) (member : String → String) : Prop where
  promoted : ∀ n ∈ names, member n ∈ promotedNames f
  distinct : ∀ m ∈ names, ∀ n ∈ names, member m = member n → m = n
  apart : ∀ n ∈ names, ∀ carrier key, handOver carrier key (member n) ∉ constructorBody f
  url : ∃ m e, f.declaration.method? "resolveBaseUrl" = some m ∧ m.returned? = some e ∧
    ∀ x ∈ e.substitutions, x.2 = member x.1

/-- Whether no key in the header or the query that is required is lost, and no variable of the base
URL. -/
structure Connects (d : Api.Description) (f : File) : Prop where
  keys : ∀ r ∈ d.security, ∀ carrier key about,
    Table.find? r.scheme d.components.securitySchemes =
        some (.apiKey key (Carrier.location carrier) about) →
      ∃ member, Authenticates f carrier key member
  servers : ∃ member, Backs f (d.baseUrl.parameters.map (·.name)) member

/-- Whether what a connector is given has variables of its own: each key in each place, and each
variable of the base URL. -/
structure HasOwnVariables (d : Api.Description) : Prop where
  keys : ∀ c ∈ asked d, ∀ c' ∈ asked d, c.name = c'.name → c.key = c'.key ∧ c.carrier = c'.carrier
  servers : ∀ p ∈ d.baseUrl.parameters, ∀ q ∈ d.baseUrl.parameters,
    serverVariable p = serverVariable q → p.name = q.name
  apart : ∀ c ∈ asked d, ∀ p ∈ d.baseUrl.parameters, c.name ≠ serverVariable p

instance (d : Api.Description) : Decidable (HasOwnVariables d) :=
  decidable_of_iff
    ((∀ c ∈ asked d, ∀ c' ∈ asked d,
        c.name = c'.name → c.key = c'.key ∧ c.carrier = c'.carrier) ∧
      (∀ p ∈ d.baseUrl.parameters, ∀ q ∈ d.baseUrl.parameters,
        serverVariable p = serverVariable q → p.name = q.name) ∧
      ∀ c ∈ asked d, ∀ p ∈ d.baseUrl.parameters, c.name ≠ serverVariable p)
    ⟨fun h => ⟨h.1, h.2.1, h.2.2⟩, fun h => ⟨h.keys, h.servers, h.apart⟩⟩

/-! Variables -/

theorem Credential.name_congr {c c' : Credential} (h : c.key = c'.key) : c.name = c'.name := by
  rw [name, name, h]

/-- The variables of the base URL that are members of their own. -/
def serverNames (d : Api.Description) : List String :=
  (serverMembers d).map serverVariable

theorem mem_serverNames {x : String} : x ∈ serverNames d ↔
    x ∈ (d.baseUrl.parameters.map (·.name)).map variableName ∧
      x ∉ (asked d).map (·.name) := by
  have hvariables : (d.baseUrl.parameters.map (·.name)).map variableName =
      d.baseUrl.parameters.map serverVariable := by
    rw [List.map_map]
    exact List.map_congr_left fun p _ => by rw [serverVariable, Function.comp_apply]
  rw [hvariables, serverNames, serverMembers, mem_names_firstOfName, mem_taken_keyring,
    mem_names_credentials]

theorem nodup_serverNames (d : Api.Description) : (serverNames d).Nodup :=
  nodup_firstOfName _ _ _

theorem Carrier.authenticator_inj {a b : Carrier} (h : a.authenticator = b.authenticator) :
    a = b := by
  cases a with
  | header =>
    cases b with
    | header => rfl
    | query => exact absurd h (by decide)
  | query =>
    cases b with
    | header => exact absurd h (by decide)
    | query => rfl

theorem handOver_inj {carrier carrier' : Carrier} {key key' member member' : String} :
    handOver carrier key member = handOver carrier' key' member' ↔
      carrier = carrier' ∧ key = key' ∧ member = member' := by
  constructor
  · intro heq
    simp only [handOver, Stmt.expr.injEq, Expr.methodCall.injEq, Expr.new.injEq, List.cons.injEq,
      and_true, true_and] at heq
    obtain rfl := Carrier.authenticator_inj heq.1
    cases carrier with
    | header =>
      simp only [Carrier.args, List.cons.injEq, Expr.thisProperty.injEq, Expr.string,
        Expr.literal.injEq, Php.Literal.string.injEq, and_true] at heq
      exact ⟨rfl, heq.2.2, heq.2.1⟩
    | query =>
      simp only [Carrier.args, List.cons.injEq, Expr.thisProperty.injEq, Expr.string,
        Expr.literal.injEq, Php.Literal.string.injEq, and_true] at heq
      exact ⟨rfl, heq.2.1, heq.2.2⟩
  · rintro ⟨rfl, rfl, rfl⟩
    rfl

/-! The connector -/

/-- The classes that hand keys over are imported. -/
theorem introduces_importAuthenticators {cs : List Credential} (hc : c ∈ cs) (f : File) :
    (cs.foldl (fun f c => f.addImport
      ⟨"Saloon\\Http\\Auth\\" ++ c.carrier.authenticator, none⟩) f).Introduces
        c.carrier.authenticator ("Saloon\\Http\\Auth\\" ++ c.carrier.authenticator) := by
  have hclass : ∀ carrier : Carrier, '\\' ∉ carrier.authenticator.toList := by
    intro carrier
    cases carrier with
    | header => decide
    | query => decide
  have hpath : ∀ carrier : Carrier, "Saloon\\Http\\Auth\\" ++ carrier.authenticator =
      (ClassRef.mk "Saloon\\Http\\Auth" carrier.authenticator).qualifiedName := by
    intro carrier
    cases carrier with
    | header => decide
    | query => decide
  induction cs using List.reverseRecOn with
  | nil => cases hc
  | append_singleton cs last ih =>
    rw [List.foldl_append, List.foldl_cons, List.foldl_nil]
    rcases List.mem_append.mp hc with hc | hc
    · exact (ih hc).addImport _
    · rw [List.mem_singleton.mp hc, hpath]
      exact introduces_addImport (hclass _) _

/-- As many different values as there are keys are all the images of the keys. -/
theorem perm_map_of_embeds {α β : Type} {as : List α} {bs : List β} {f g : α → β} (has : as.Nodup)
    (hbs : bs.Nodup) (hg : ∀ a ∈ as, ∀ b ∈ as, g a = g b → a = b) (hmem : ∀ a ∈ as, g a ∈ bs)
    (hf : bs ⊆ as.map f) : bs.Perm (as.map f) := by
  have himage : (as.map g).Nodup := has.map_on hg
  have hlength := himage.length_le_of_subset (List.forall_mem_map.mpr hmem)
  refine (List.subperm_of_subset hbs hf).perm_of_length_le ?_
  rwa [List.length_map] at hlength ⊢

variable (hclear : ∀ r ∈ p.resources, '\\' ∉ r.className.toList) (h : connectorFile d s p = .ok f)

include hclear h

theorem constructorBody_connectorFile :
    constructorBody f = (credentials d).map Credential.stmt := by
  rw [constructorBody, constructor?_connectorFile hclear h, connectorConstructors]
  by_cases hempty : (connectorParams d).isEmpty
  · -- a constructor without parameters has no credentials
    have hnames := names_connectorParams d
    rw [List.isEmpty_iff.mp hempty, List.map_nil, List.nil_perm, connectorNames,
      List.append_eq_nil_iff, List.map_eq_nil_iff] at hnames
    rw [if_pos hempty, hnames.1]
    rfl
  · rw [if_neg hempty]
    rfl

theorem mem_constructorBody {carrier : Carrier} {key member : String} :
    handOver carrier key member ∈ constructorBody f ↔
      ∃ c ∈ credentials d, c.carrier = carrier ∧ c.key = key ∧ c.name = member := by
  rw [constructorBody_connectorFile hclear h, List.mem_map]
  exact exists_congr fun c => and_congr_right fun _ => handOver_inj

theorem mem_promotedNames_connectorFile {x : String} : x ∈ promotedNames f ↔
    x ∈ (asked d).map (·.name) ∨ x ∈ serverNames d := by
  have hdeclared := declaredNames_connectorFile hclear h
  rw [declaredNames, properties_connectorFile h, List.map_nil, List.nil_append] at hdeclared
  rw [hdeclared, (names_connectorParams d).mem_iff, connectorNames, List.mem_append,
    mem_names_credentials]
  rfl

omit hclear in
theorem introduces_connectorFile (hc : c ∈ credentials d) : f.Introduces c.carrier.authenticator
    ("Saloon\\Http\\Auth\\" ++ c.carrier.authenticator) := by
  obtain ⟨baseUrl, -, h⟩ := bind_eq_ok.mp h
  cases h
  have hstart := introduces_importAuthenticators hc (connectorStart s)
  have hconstructor : (addConnectorConstructor d (connectorStart s)).Introduces
      c.carrier.authenticator ("Saloon\\Http\\Auth\\" ++ c.carrier.authenticator) := by
    unfold addConnectorConstructor
    simp only
    split
    · exact hstart
    · exact (Php.File.introduces_addMethod _).mpr hstart
  refine List.foldlRecOn (motive := fun f : File => f.Introduces c.carrier.authenticator
    ("Saloon\\Http\\Auth\\" ++ c.carrier.authenticator)) (sortedResources s p) addAccessor ?_ ?_
  · rwa [Php.File.introduces_addMethod, Php.File.introduces_addMethod]
  · intro f hf other _
    rw [addAccessor_eq, Php.File.introduces_addMethod]
    exact introduces_of_importClass hf other "Resource"

omit hclear h in
/-- Each variable in the base URL is replaced by the property for it. -/
theorem substitutions_baseUrlExpr {baseUrl : Expr} (h : baseUrlExpr d = .ok baseUrl) :
    ∀ x ∈ baseUrl.substitutions,
      ∃ q ∈ d.baseUrl.parameters, q.name = x.1 ∧ serverVariable q = x.2 := by
  intro x hx
  have hlookup := Template.lookup_of_render h x hx
  obtain ⟨before, after, hsplit, -⟩ := List.lookup_eq_some_iff.mp hlookup
  have hmem := List.mem_append_right before (List.mem_cons_self (a := (x.1, x.2)) (l := after))
  rw [← hsplit] at hmem
  obtain ⟨q, hq, heq⟩ := List.mem_map.mp hmem
  exact ⟨q, hq, Prod.mk.inj heq⟩

/-- The base URL is read from the members for its variables. -/
theorem resolveBaseUrl_connectorFile : ∃ m e, f.declaration.method? "resolveBaseUrl" = some m ∧
    m.returned? = some e ∧ ∀ x ∈ e.substitutions, x.2 = variableName x.1 := by
  obtain ⟨baseUrl, ms, hbaseUrl, hmethods, -⟩ := accesses_connectorFile hclear h
  have hfind : f.declaration.method? "resolveBaseUrl" =
      some (.returning "resolveBaseUrl" [] .string baseUrl) := by
    rw [Php.Class.method?, hmethods, ownMethods, connectorConstructors]
    split <;> rfl
  refine ⟨_, baseUrl, hfind, rfl, fun x hx => ?_⟩
  obtain ⟨q, -, hname, hvariable⟩ := substitutions_baseUrlExpr hbaseUrl x hx
  rw [← hvariable, ← hname, serverVariable]

/-- Where nothing is lost, each key in each place has a variable of its own. -/
theorem Connects.keys_of_names (hconnects : Connects d f) : ∀ c ∈ asked d, ∀ c' ∈ asked d,
    c.name = c'.name → c.key = c'.key ∧ c.carrier = c'.carrier := by
  have hkept : ∀ c ∈ asked d, ∃ k ∈ credentials d, k.key = c.key ∧ k.carrier = c.carrier := by
    intro c hc
    obtain ⟨r, hr, hfind⟩ := mem_asked.mp hc
    obtain ⟨member, hauthenticates⟩ := hconnects.keys r hr c.carrier c.key _ hfind
    obtain ⟨k, hk, hcarrier, hkey, -⟩ := (mem_constructorBody hclear h).mp hauthenticates.call
    exact ⟨k, hk, hkey, hcarrier⟩
  intro c hc c' hc' hname
  obtain ⟨k, hk, hkey, hcarrier⟩ := hkept c hc
  obtain ⟨k', hk', hkey', hcarrier'⟩ := hkept c' hc'
  -- the credentials that were kept have different names
  have hsame : k = k' := by
    refine List.inj_on_of_nodup_map (nodup_credentials d) hk hk' ?_
    exact (Credential.name_congr hkey).trans (hname.trans (Credential.name_congr hkey').symm)
  subst hsame
  exact ⟨hkey.symm.trans hkey', hcarrier.symm.trans hcarrier'⟩

/-- Members for all variables of the base URL are as many as the variables that were kept. -/
theorem Connects.serverNames_perm (hconnects : Connects d f) : (serverNames d).Perm
    ((d.baseUrl.parameters.map (·.name)).dedup.map variableName) := by
  obtain ⟨member, hbacks⟩ := hconnects.servers
  refine perm_map_of_embeds (List.nodup_dedup _) (nodup_serverNames d) (g := member) ?_ ?_ ?_
  · intro m hm n hn
    exact hbacks.distinct m (List.mem_dedup.mp hm) n (List.mem_dedup.mp hn)
  · intro n hn
    rw [List.mem_dedup] at hn
    refine ((mem_promotedNames_connectorFile hclear h).mp (hbacks.promoted n hn)).resolve_left ?_
    intro hasked
    obtain ⟨c, hc, hname⟩ := List.mem_map.mp (mem_names_credentials.mpr hasked)
    exact hbacks.apart n hn c.carrier c.key
      ((mem_constructorBody hclear h).mpr ⟨c, hc, rfl, rfl, hname⟩)
  · intro x hx
    obtain ⟨n, hn, rfl⟩ := List.mem_map.mp (mem_serverNames.mp hx).1
    exact List.mem_map_of_mem (List.mem_dedup.mpr hn)

theorem Connects.hasOwnVariables (hconnects : Connects d f) : HasOwnVariables d := by
  have hperm := hconnects.serverNames_perm hclear h
  have hname : ∀ p ∈ d.baseUrl.parameters, p.name ∈ (d.baseUrl.parameters.map (·.name)).dedup :=
    fun p hp => List.mem_dedup.mpr (List.mem_map_of_mem hp)
  constructor
  case keys => exact hconnects.keys_of_names hclear h
  case servers =>
    intro p hp q hq hvariable
    have hdistinct := hperm.nodup_iff.mp (nodup_serverNames d)
    exact List.inj_on_of_nodup_map hdistinct (hname p hp) (hname q hq) hvariable
  case apart =>
    intro c hc p hp hvariable
    have hserver : serverVariable p ∈ serverNames d :=
      hperm.mem_iff.mpr (List.mem_map_of_mem (hname p hp))
    refine (mem_serverNames.mp hserver).2 ?_
    rw [← hvariable]
    exact List.mem_map_of_mem hc

theorem HasOwnVariables.connects (hown : HasOwnVariables d) : Connects d f := by
  constructor
  case keys =>
    intro r hr carrier key about hfind
    have hasked : Credential.mk key carrier about ∈ asked d := mem_asked.mpr ⟨r, hr, hfind⟩
    have hname := mem_names_credentials.mpr (List.mem_map_of_mem (f := Credential.name) hasked)
    obtain ⟨c, hc, hcname⟩ := List.mem_map.mp hname
    obtain ⟨hkey, hcarrier⟩ := hown.keys c (credentials_subset d hc) _ hasked hcname
    refine ⟨c.name, ?_, ?_, ?_⟩
    · rw [mem_promotedNames_connectorFile hclear h, hcname]
      exact Or.inl (List.mem_map_of_mem hasked)
    · exact (mem_constructorBody hclear h).mpr ⟨c, hc, hcarrier, hkey, rfl⟩
    · have himported := introduces_connectorFile h hc
      rwa [hcarrier] at himported
  case servers =>
    refine ⟨variableName, ?_, ?_, ?_, resolveBaseUrl_connectorFile hclear h⟩
    · intro n hn
      rw [mem_promotedNames_connectorFile hclear h, mem_serverNames]
      by_cases hasked : variableName n ∈ (asked d).map (·.name)
      · exact Or.inl hasked
      · exact Or.inr ⟨List.mem_map_of_mem hn, hasked⟩
    · intro m hm n hn hvariable
      obtain ⟨p, hp, rfl⟩ := List.mem_map.mp hm
      obtain ⟨q, hq, rfl⟩ := List.mem_map.mp hn
      exact hown.servers p hp q hq hvariable
    · intro n hn carrier key hcall
      obtain ⟨q, hq, rfl⟩ := List.mem_map.mp hn
      obtain ⟨c, hc, -, -, hname⟩ := (mem_constructorBody hclear h).mp hcall
      exact hown.apart c (credentials_subset d hc) q hq hname

omit hclear h

/-! Clients -/

namespace Sdk

/-- The connector of a client hands over each key in the header or the query that is required, in
its place, and has a member of its own for each variable of the base URL, exactly if no two of these
have the same variable. -/
theorem generate_connects (h : generate d s = .ok sdk) :
    Connects d sdk.connector ↔ HasOwnVariables d := by
  obtain ⟨-, connector, hconnector, rfl⟩ := generate_eq_ok h
  have hclear : ∀ r ∈ (Plan.ofDescription d s).resources, '\\' ∉ r.className.toList :=
    fun _ => Plan.clear_className
  exact ⟨Connects.hasOwnVariables hclear hconnector, HasOwnVariables.connects hclear hconnector⟩

/-- An API that asks for keys of these names, in the header and in the query, the former twice. -/
def guarded (header query : String) : Api.Description :=
  { Api.Description.empty with
    baseUrl := ⟨"https://\x7bregion\x7d.acme.test/\x7bversion\x7d",
      [⟨"region", some "eu", none⟩, ⟨"version", none, none⟩]⟩
    security := [⟨"sent", []⟩, ⟨"shown", []⟩, ⟨"sent", []⟩]
    components := ⟨[("sent", .apiKey header .header none), ("shown", .apiKey query .query none)],
      [], []⟩ }

theorem generate_guarded_connects : ∃ sdk,
    generate (guarded "X-Api-Key" "token") (.new "Acme" "App") = .ok sdk ∧
    promotedNames sdk.connector = ["apiKey", "token", "version", "region"] ∧
    Connects (guarded "X-Api-Key" "token") sdk.connector := by
  have hrun : (generate (guarded "X-Api-Key" "token") (.new "Acme" "App")).toOption.map
      (fun sdk => promotedNames sdk.connector) =
      some ["apiKey", "token", "version", "region"] := by
    decide +kernel
  have hown : HasOwnVariables (guarded "X-Api-Key" "token") := by decide +kernel
  obtain ⟨sdk, hsdk, hnames⟩ := toOption_map_eq_some.mp hrun
  exact ⟨sdk, hsdk, hnames, (generate_connects hsdk).mpr hown⟩

/-- The key in the query gives way to the one in the header, and is never asked for. -/
theorem generate_guarded_drops : ∃ sdk,
    generate (guarded "X-Api-Key" "api_key") (.new "Acme" "App") = .ok sdk ∧
    promotedNames sdk.connector = ["apiKey", "version", "region"] ∧
    ¬ Connects (guarded "X-Api-Key" "api_key") sdk.connector := by
  have hrun : (generate (guarded "X-Api-Key" "api_key") (.new "Acme" "App")).toOption.map
      (fun sdk => promotedNames sdk.connector) = some ["apiKey", "version", "region"] := by
    decide +kernel
  have hshared : ¬ HasOwnVariables (guarded "X-Api-Key" "api_key") := by decide +kernel
  obtain ⟨sdk, hsdk, hnames⟩ := toOption_map_eq_some.mp hrun
  obtain ⟨-, connector, hconnector, rfl⟩ := generate_eq_ok hsdk
  refine ⟨_, hsdk, hnames, fun hconnects => hshared ?_⟩
  exact hconnects.hasOwnVariables (fun _ => Plan.clear_className) hconnector

end Sdk
end Client
end SdkSmith
