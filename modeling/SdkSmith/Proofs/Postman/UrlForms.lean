import SdkSmith.Proofs.Api.Segments
import SdkSmith.Proofs.Output.Paths
import SdkSmith.Proofs.Postman.Visits

/-!
The forms of a URL. A request may give the segments of its path one by one, as one text, or in the
text of the whole URL, after a variable or a host and before a query or a fragment. All of them
come to the same segments.
-/
namespace SdkSmith

namespace Text

variable {mark s : List Char}

/-! Marks -/

theorem dropLead?_eq_none (h : ¬ mark <+: s) : dropLead? mark s = none := by
  rw [Option.eq_none_iff_forall_ne_some]
  intro r hr
  exact h ⟨r, (dropLead?_eq_some.mp hr).symm⟩

/-- A text in which a mark does not occur is not cut. -/
theorem cutAt?_eq_none (h : ¬ mark <:+: s) : cutAt? mark s = none := by
  induction s with
  | nil =>
    rw [cutAt?, if_neg]
    rw [List.isEmpty_iff]
    rintro rfl
    exact h List.nil_infix
  | cons c s ih =>
    rw [List.infix_cons_iff, not_or] at h
    rw [cutAt?, dropLead?_eq_none h.1]
    simp only [ih h.2, Option.map_none]

/-- A URL is cut after its scheme, in which there is no slash. -/
theorem cutAt?_scheme (h : '/' ∉ s) (rest : List Char) :
    cutAt? [':', '/', '/'] (s ++ ':' :: '/' :: '/' :: rest) = some (s, rest) := by
  induction s with
  | nil => rfl
  | cons c s ih =>
    rw [List.mem_cons, not_or] at h
    have hlead : ¬ [':', '/', '/'] <+: c :: (s ++ ':' :: '/' :: '/' :: rest) := by
      rw [List.cons_prefix_cons]
      rintro ⟨-, hs⟩
      -- the character after the first is a colon or in the scheme, and not a slash
      cases s with
      | nil => simp at hs
      | cons d s => exact h.2 (List.mem_cons.mpr (Or.inl (List.cons_prefix_cons.mp hs).1))
    rw [List.cons_append, cutAt?, dropLead?_eq_none hlead]
    simp only [ih h.2, Option.map_some]

/-- Where there are two slashes in a row, a piece between slashes is empty. -/
theorem nil_mem_pieces (h : ['/', '/'] <:+: s) : [] ∈ pieces (· == '/') s := by
  obtain ⟨a, b, rfl⟩ := h
  have hpieces := pieces_append (p := (· == '/')) (beq_self_eq_true '/') a ('/' :: b)
  rw [List.append_assoc]
  change [] ∈ pieces (· == '/') (a ++ '/' :: '/' :: b)
  rw [hpieces, List.mem_append, pieces, if_pos (beq_self_eq_true '/')]
  exact Or.inr List.mem_cons_self

end Text

namespace Postman
open Api (PathSegment)
open Document (Datum)

variable {text name scheme host suffix : String} {segments ts : List String} {u : Url}
  {i j : Item}

/-! Segments -/

/-- What a segment in a URL stands for. A name in double braces or after a colon is a placeholder,
and every other segment is its own text. -/
inductive Stands : String → PathSegment → Prop
  | braces {name : String} (h : name ≠ "") :
      Stands ("\x7b\x7b" ++ name ++ "\x7d\x7d") (.placeholder name)
  | colon {name : String} (h : name ≠ "") : Stands (":" ++ name) (.placeholder name)
  | literal {text : String}
      (hbraces : ∀ name, name ≠ "" → text ≠ "\x7b\x7b" ++ name ++ "\x7d\x7d")
      (hcolon : ∀ name, name ≠ "" → text ≠ ":" ++ name) : Stands text (.literal text)

theorem placeholderSegment_eq :
    placeholderSegment = PathSegment.respell "\x7b\x7b" "\x7d\x7d" := rfl

/-- What a segment is read as is what it stands for. -/
theorem stands_parse (segment : String) : Stands segment (.parse (placeholderSegment segment)) := by
  rw [placeholderSegment_eq]
  rcases PathSegment.respell_cases "\x7b\x7b" "\x7d\x7d" segment with
    ⟨name, hne, rfl, heq⟩ | ⟨hbraces, heq⟩
  · rw [heq, PathSegment.parse_colon hne]
    exact .braces hne
  · rw [heq]
    by_cases hcolon : ∃ name, name ≠ "" ∧ segment = ":" ++ name
    · obtain ⟨name, hne, rfl⟩ := hcolon
      rw [PathSegment.parse_colon hne]
      exact .colon hne
    · have hnot : ∀ name, name ≠ "" → segment ≠ ":" ++ name :=
        fun name hne heq => hcolon ⟨name, hne, heq⟩
      rw [PathSegment.parse_text hnot]
      exact .literal hbraces hnot

/-- The segments of a path are those that it is made of. -/
theorem segmentsOf_joinSegments (h : ∀ t ∈ ts, '/' ∉ t.toList) :
    Api.Endpoint.segmentsOf (joinSegments ts) =
      (ts.filter fun t => !t.isEmpty).map fun t => .parse (placeholderSegment t) := by
  rw [joinSegments, Api.Endpoint.segmentsOf_slash, placeholderSegment_eq,
    Api.Endpoint.segmentsOf_respell _ _ h]

/-! Forms -/

/-- Whether a text is free of the characters that end a part of a URL. -/
def IsPart (text : String) : Prop :=
  ∀ c ∈ text.toList, c ≠ '/' ∧ c ≠ '?' ∧ c ≠ '#'

instance (text : String) : Decidable (IsPart text) :=
  List.decidableBAll (fun c => c ≠ '/' ∧ c ≠ '?' ∧ c ≠ '#') text.toList

/-- Whether a text can be a segment of a path. -/
def IsSegment (text : String) : Prop :=
  text ≠ "" ∧ IsPart text

instance (text : String) : Decidable (IsSegment text) :=
  inferInstanceAs (Decidable (text ≠ "" ∧ IsPart text))

/-- Whether a text is empty, or a query or a fragment with its mark. -/
def IsSuffix (suffix : String) : Prop :=
  ∀ c ∈ suffix.toList.head?, c = '?' ∨ c = '#'

instance (suffix : String) : Decidable (IsSuffix suffix) :=
  Option.decidableForallMem suffix.toList.head?

/-- Segments with a slash before each. -/
def slashed (segments : List String) : String :=
  String.join (segments.map ("/" ++ ·))

/-- Whether a URL gives the segments of its path, in one of the forms that there are: as a list, as
a text with or without a slash before it, or in a text that starts with a variable or with a scheme
and a host, and that may go on with a query or a fragment. -/
inductive Spells (u : Url) (segments : List String) : Prop
  | parts (parts : List Json) (hpath : u.path = .segments parts)
      (hparts : parts.map segmentText? = segments.map some) (hraw : parts = [] → u.raw = none)
  | joined (hpath : u.path = .joined ("/".intercalate segments))
  | joinedAfterSlash (hpath : u.path = .joined ("/" ++ "/".intercalate segments))
  | afterVariable (name suffix : String) (hpath : u.path = .segments [])
      (hraw : u.raw = some ("\x7b\x7b" ++ name ++ "\x7d\x7d" ++ slashed segments ++ suffix))
      (hname : IsPart name) (hsuffix : IsSuffix suffix)
  | afterHost (scheme host suffix : String) (hpath : u.path = .segments [])
      (hraw : u.raw = some (scheme ++ "://" ++ host ++ slashed segments ++ suffix))
      (hscheme : IsPart scheme) (hhost : IsPart host) (hsuffix : IsSuffix suffix)

/-! Parts of a text -/

theorem IsPart.not_mem_slash (h : IsPart text) : '/' ∉ text.toList :=
  fun hmem => (h '/' hmem).1 rfl

theorem IsPart.free_of_slash (h : IsPart text) : ∀ c ∈ text.toList, (c == '/') = false :=
  fun c hc => beq_eq_false_iff_ne.mpr (h c hc).1

theorem IsPart.unmarked (h : IsPart text) : ∀ c ∈ text.toList, c ≠ '?' ∧ c ≠ '#' :=
  fun c hc => (h c hc).2

theorem IsPart.append (h : IsPart text) (h' : IsPart name) : IsPart (text ++ name) := by
  rw [IsPart, String.toList_append, List.forall_mem_append]
  exact ⟨h, h'⟩

theorem isSegment_variable (h : IsPart name) : IsSegment ("\x7b\x7b" ++ name ++ "\x7d\x7d") := by
  constructor
  · rw [Ne, ← String.toList_eq_nil_iff]
    simp
  · have hopen : IsPart "\x7b\x7b" := by decide
    have hclose : IsPart "\x7d\x7d" := by decide
    exact (hopen.append h).append hclose

theorem toList_slashed (segments : List String) :
    (slashed segments).toList = segments.flatMap fun s => '/' :: s.toList := by
  rw [slashed, String.toList_join, List.flatMap_map]
  simp

theorem unmarked_slashed (h : ∀ s ∈ segments, IsSegment s) :
    ∀ c ∈ (slashed segments).toList, c ≠ '?' ∧ c ≠ '#' := by
  intro c hc
  rw [toList_slashed, List.mem_flatMap] at hc
  obtain ⟨s, hs, hc⟩ := hc
  rcases List.mem_cons.mp hc with rfl | hc
  · decide
  · exact (h s hs).2.unmarked c hc

/-- A host and the segments after it come apart at the slashes. -/
theorem pieces_slashed (hhost : IsPart host) (h : ∀ s ∈ segments, IsSegment s) :
    Text.pieces (· == '/') (host.toList ++ (slashed segments).toList) =
      host.toList :: segments.map String.toList := by
  rw [toList_slashed]
  induction segments generalizing host with
  | nil =>
    rw [List.flatMap_nil, List.append_nil, Text.pieces_eq_singleton hhost.free_of_slash]
    rfl
  | cons s segments ih =>
    rw [List.forall_mem_cons] at h
    rw [List.flatMap_cons, List.cons_append,
      Text.pieces_append_cons hhost.free_of_slash (beq_self_eq_true '/'), ih h.1.2 h.2]
    rfl

theorem drop_pieces_slashed (hhost : IsPart host) (h : ∀ s ∈ segments, IsSegment s) :
    ((Text.pieces (· == '/') (host.toList ++ (slashed segments).toList)).drop 1).map
      String.ofList = segments := by
  rw [pieces_slashed hhost h, List.drop_one, List.tail_cons, List.map_map]
  simp [Function.comp_def]

theorem withoutQuery_append {text : String} (h : ∀ c ∈ text.toList, c ≠ '?' ∧ c ≠ '#')
    (hsuffix : IsSuffix suffix) : withoutQuery (text ++ suffix) = text.toList := by
  have hkept : ∀ c ∈ text.toList, (c != '?' && c != '#') = true := fun c hc => by
    simpa using h c hc
  have hdropped : suffix.toList.takeWhile (fun c => c != '?' && c != '#') = [] := by
    cases hs : suffix.toList with
    | nil => rfl
    | cons c s =>
      have hmark : c = '?' ∨ c = '#' := hsuffix c (by rw [hs]; rfl)
      rw [List.takeWhile_cons_of_neg]
      rcases hmark with rfl | rfl <;> decide
  rw [withoutQuery, String.toList_append, List.takeWhile_append_of_pos hkept, hdropped,
    List.append_nil]

/-- No scheme is found in a text with a host and segments that are not empty. -/
theorem cutAt?_slashed (hhost : IsSegment host) (h : ∀ s ∈ segments, IsSegment s) :
    Text.cutAt? [':', '/', '/'] (host.toList ++ (slashed segments).toList) = none := by
  refine Text.cutAt?_eq_none fun hmark => ?_
  have hslashes : ['/', '/'] <:+: host.toList ++ (slashed segments).toList :=
    (List.suffix_cons ':' ['/', '/']).isInfix.trans hmark
  have hempty := Text.nil_mem_pieces hslashes
  rw [pieces_slashed hhost.2 h, List.mem_cons, List.mem_map] at hempty
  rcases hempty with hempty | ⟨s, hs, hempty⟩
  · exact hhost.1 (String.toList_eq_nil_iff.mp hempty.symm)
  · exact (h s hs).1 (String.toList_eq_nil_iff.mp hempty)

theorem rawPath_eq (raw : String) : rawPath raw = joinSegments (((Text.pieces (· == '/')
    (((Text.cutAt? [':', '/', '/'] (withoutQuery raw)).map (·.2)).getD
      (withoutQuery raw))).drop 1).map String.ofList) := by
  have hmark : "://".toList = [':', '/', '/'] := rfl
  rw [rawPath]
  simp only [hmark]
  cases Text.cutAt? [':', '/', '/'] (withoutQuery raw) <;> rfl

/-- The path in a text that starts with a host is what comes after it. -/
theorem rawPath_host (hhost : IsSegment host) (h : ∀ s ∈ segments, IsSegment s)
    (hsuffix : IsSuffix suffix) :
    rawPath (host ++ slashed segments ++ suffix) = joinSegments segments := by
  have hcut : withoutQuery (host ++ slashed segments ++ suffix) =
      host.toList ++ (slashed segments).toList := by
    rw [withoutQuery_append _ hsuffix, String.toList_append]
    rw [String.toList_append, List.forall_mem_append]
    exact ⟨hhost.2.unmarked, unmarked_slashed h⟩
  rw [rawPath_eq, hcut, cutAt?_slashed hhost h]
  exact congrArg joinSegments (drop_pieces_slashed hhost.2 h)

/-- The path in a text that starts with a scheme is what comes after the host. -/
theorem rawPath_scheme (hscheme : IsPart scheme) (hhost : IsPart host)
    (h : ∀ s ∈ segments, IsSegment s) (hsuffix : IsSuffix suffix) :
    rawPath (scheme ++ "://" ++ host ++ slashed segments ++ suffix) = joinSegments segments := by
  have hcut : withoutQuery (scheme ++ "://" ++ host ++ slashed segments ++ suffix) =
      scheme.toList ++ ':' :: '/' :: '/' :: (host.toList ++ (slashed segments).toList) := by
    rw [withoutQuery_append _ hsuffix]
    · simp
    · simp only [String.toList_append, List.forall_mem_append]
      exact ⟨⟨⟨hscheme.unmarked, by simp⟩, hhost.unmarked⟩, unmarked_slashed h⟩
  rw [rawPath_eq, hcut, Text.cutAt?_scheme hscheme.not_mem_slash]
  exact congrArg joinSegments (drop_pieces_slashed hhost h)

/-! URLs -/

theorem filter_segments (h : ∀ s ∈ segments, IsSegment s) :
    (segments.filter fun s => !s.isEmpty) = segments := by
  rw [List.filter_eq_self]
  intro s hs
  rw [Bool.not_eq_true', String.isEmpty_eq_false_iff]
  exact (h s hs).1

/-- The parts of a joined path that are not empty are the segments that are joined. -/
theorem filter_split_intercalate (h : ∀ s ∈ segments, IsSegment s) :
    ((Text.split '/' ("/".intercalate segments)).filter fun s => !s.isEmpty) = segments := by
  by_cases hsegments : segments = []
  · subst hsegments
    rfl
  · rw [Text.split_intercalate hsegments fun s hs => (h s hs).2.not_mem_slash, filter_segments h]

theorem segmentsOf_joined {path : String}
    (h : ((Text.split '/' path).filter fun s => !s.isEmpty) = segments) :
    Api.Endpoint.segmentsOf (joinSegments (Text.split '/' path)) =
      segments.map fun s => .parse (placeholderSegment s) := by
  rw [segmentsOf_joinSegments fun t ht => Text.not_mem_of_mem_split ht, h]

/-- In each of its forms, a URL comes to the segments that it gives. -/
theorem Spells.segmentsOf_pathText (h : Spells u segments)
    (hsegments : ∀ s ∈ segments, IsSegment s) : Api.Endpoint.segmentsOf u.pathText =
      segments.map fun s => .parse (placeholderSegment s) := by
  have hslash : ∀ s ∈ segments, '/' ∉ s.toList := fun s hs => (hsegments s hs).2.not_mem_slash
  have hjoin := segmentsOf_joinSegments hslash
  rw [filter_segments hsegments] at hjoin
  cases h with
  | parts parts hpath hparts hraw =>
    have hgiven : parts.filterMap segmentText? = segments := by
      have hsome := congrArg (List.filterMap id) hparts
      simpa [List.filterMap_map, Function.comp_def] using hsome
    rw [Url.pathText, hpath]
    cases parts with
    | nil =>
      obtain rfl : [] = segments := hgiven
      rw [hraw rfl]
      rfl
    | cons part parts =>
      change Api.Endpoint.segmentsOf (joinSegments ((part :: parts).filterMap segmentText?)) = _
      rw [hgiven, hjoin]
  | joined hpath =>
    rw [Url.pathText, hpath]
    exact segmentsOf_joined (filter_split_intercalate hsegments)
  | joinedAfterSlash hpath =>
    rw [Url.pathText, hpath]
    refine segmentsOf_joined ?_
    rw [Text.split_slash]
    exact filter_split_intercalate hsegments
  | afterVariable name suffix hpath hraw hname hsuffix =>
    rw [Url.pathText, hpath, hraw]
    change Api.Endpoint.segmentsOf (rawPath _) = _
    rw [rawPath_host (isSegment_variable hname) hsegments hsuffix, hjoin]
  | afterHost scheme host suffix hpath hraw hscheme hhost hsuffix =>
    rw [Url.pathText, hpath, hraw]
    change Api.Endpoint.segmentsOf (rawPath _) = _
    rw [rawPath_scheme hscheme hhost hsegments hsuffix, hjoin]

/-! Requests -/

theorem Item.exists_endpoint {method : Api.HttpMethod}
    (h : Api.HttpMethod.parse i.request.method = .ok method) : ∃ e, i.endpoint = .ok e ∧
      e.segments = Api.Endpoint.segmentsOf (i.request.url.getD .empty).pathText := by
  rw [Item.endpoint, h]
  exact ⟨_, rfl, rfl⟩

/-- Requests whose URLs give the same segments, each in a form of its own, give endpoints with the
same segments, and these are what the segments in the URLs stand for. -/
theorem endpoints_sameSegments {m n : Api.HttpMethod}
    (hsegments : ∀ s ∈ segments, IsSegment s)
    (hi : Spells (i.request.url.getD .empty) segments)
    (hj : Spells (j.request.url.getD .empty) segments)
    (hm : Api.HttpMethod.parse i.request.method = .ok m)
    (hn : Api.HttpMethod.parse j.request.method = .ok n) :
    ∃ e e', i.endpoint = .ok e ∧ j.endpoint = .ok e' ∧ e.segments = e'.segments ∧
      List.Forall₂ Stands segments e.segments := by
  obtain ⟨e, he, hparts⟩ := Item.exists_endpoint hm
  obtain ⟨e', he', hparts'⟩ := Item.exists_endpoint hn
  rw [hi.segmentsOf_pathText hsegments] at hparts
  rw [hj.segmentsOf_pathText hsegments] at hparts'
  refine ⟨e, e', he, he', hparts.trans hparts'.symm, ?_⟩
  rw [hparts, List.forall₂_map_right_iff, List.forall₂_same]
  exact fun s _ => stands_parse s

/-- A request with a URL, as a value. -/
def requestTo (url : Json) : Json :=
  .object [("name", .string "Get"), ("request", .object [("method", .string "GET"), ("url", url)])]

/-- The request with a URL. -/
def getOf (u : Url) : Item := ⟨"Get", ⟨"GET", some u, [], none, none⟩, none⟩

/-- Segments with placeholders of both kinds, and with a colon that marks none. -/
def oddSegments : List String :=
  ["\x7b\x7bid\x7d\x7d", ":tab", "a:", "\x7b\x7b:x\x7d\x7d"]

/-- The text of a URL with these segments, and with a query that looks like a URL. -/
def oddText : String :=
  "\x7b\x7bbaseUrl\x7d\x7d/\x7b\x7bid\x7d\x7d/:tab/a:/\x7b\x7b:x\x7d\x7d?to=a://b/c#top"

theorem endpoints_sameSegments_odd : ∃ i j e e',
    Read.item (Datum.ofJson (requestTo (.object [("path", .array (oddSegments.map .string))]))) =
      .ok i ∧
    Read.item (Datum.ofJson (requestTo (.string oddText))) = .ok j ∧
    i.endpoint = .ok e ∧ j.endpoint = .ok e' ∧ e.segments = e'.segments ∧
    List.Forall₂ Stands oddSegments e.segments := by
  have hparts : Spells { Url.empty with path := .segments (oddSegments.map .string) } oddSegments :=
    .parts _ rfl rfl fun _ => rfl
  have htext : Spells (.ofRaw oddText) oddSegments :=
    .afterVariable "baseUrl" "?to=a://b/c#top" rfl (by decide) (by decide) (by decide)
  have hget : Api.HttpMethod.parse "GET" = .ok .get := rfl
  have hsegments : ∀ s ∈ oddSegments, IsSegment s := by decide
  obtain ⟨e, e', he⟩ := endpoints_sameSegments (i := getOf _) (j := getOf _) hsegments
    hparts htext hget hget
  exact ⟨_, _, e, e', rfl, rfl, he⟩

end Postman
end SdkSmith
