import HivenetRouter.Redirect.HomeSet

/-!
# Where redirects point

`Location` builds the URL of a redirect from three texts: the URL of the policloud as the map has
it, the path of the request, and its query with the token. The map accepts a URL by what it parses
to (`validatePolicloud`): `https`, a host under the allowed domains, no user, and a path, a query
and a fragment that are *empty as values*. The text may still have more than an origin: several
slashes or their escapes, a `?` or a `#` with nothing behind. It is stored with at most one slash
less, and what `Location` appends then ends up behind it: in the path, in the query or in the
fragment.

`location_sound_iff` has both sides. For every sequence of `Replace` calls the map is safe
(`MapSafe`), and the URL of a redirect parses to the host, the path and the token that it was
built from exactly if the stored URL is an origin and nothing more (`Bare`).
-/

namespace HivenetRouter.Redirect

open NetUrl Option Parts SiblingMap Utf8
open List (append_assoc append_nil any_append)

def endpointKinds : List (String × String) :=
  [("/v1/chat/completions", "chat"), ("/v1/messages", "chat"),
    ("/v1/messages/count_tokens", "chat"), ("/v1/embeddings", "embedding"),
      ("/v1/rerank", "rerank")]

def queryParam : GoString := ofText "rt"

def location (policloudURL : GoString) (req : URL) (token : GoString) : GoString :=
  policloudURL ++ req.path ++ '?'.toUInt8 :: (req.query.set queryParam token).encode

/-- The map and the `Replace` calls on it: one that is refused changes nothing. -/
def siblingMap (F : Formats) (domains : List GoString) : Machine SiblingMap MapDoc where
  Init m := m = .new domains
  step m doc := some ((m.replace F doc).toOption.getD m)

/-! ### The map is safe -/

/-- The URL is an `https` URL with a host under the allowed domains. -/
def UnderDomains (F : Formats) (domains : List GoString) (url : GoString) : Prop :=
  ∃ u, parse F.parseAddr url = .ok u ∧ u.scheme = ofText "https" ∧
    ∃ d ∈ domains, d <:+ F.toLower (hostname u.host)

structure MapSafe (F : Formats) (m : SiblingMap) : Prop where
  id_eq : ∀ id p, m.policlouds.lookup id = some p → p.id = id
  url : ∀ id p, m.policlouds.lookup id = some p → UnderDomains F m.domains p.url
  snapshot : ∀ p ∈ m.doc.policlouds, m.policlouds.lookup p.id = some p
  placed : ∀ pl ∈ m.doc.placements, pl.policloud ∈ m.policlouds
  placedByModel : ∀ model, ∀ pl ∈ (m.byModel.lookup model).getD [], pl.policloud ∈ m.policlouds
  nodup : (m.doc.placements.map Placement.pair).Nodup

/-- After its `//`, the URL has neither a path nor a query nor a fragment. -/
def Bare (url : GoString) : Prop :=
  ∀ c ∈ (url.dropWhile (· ≠ '/'.toUInt8)).drop 2,
    c ≠ '/'.toUInt8 ∧ c ≠ '?'.toUInt8 ∧ c ≠ '#'.toUInt8

instance (url : GoString) : Decidable (Bare url) := inferInstanceAs (Decidable (∀ _ ∈ _, _))

/-- The URL of the redirect leads to the host of the policloud, with the path of the request and
the token. -/
def Leads (F : Formats) (policloudURL : GoString) (req : URL) (token : GoString) : Prop :=
  ∃ u v, parse F.parseAddr policloudURL = .ok u ∧
    parse F.parseAddr (location policloudURL req token) = .ok v ∧
    v.scheme = u.scheme ∧ v.host = u.host ∧ v.path = req.path ∧ v.query.get queryParam = token

/-! ### Stored URLs -/

/-- A URL as the map stores it: an origin, and at most slashes and empty parts behind. -/
structure Stored (F : Formats) (domains : List GoString) (p : Parts) : Prop where
  noControl : p.body.any isControl = false
  query : p.query.getD [] = []
  fragment : p.fragment.getD [] = []
  scheme : p.scheme.map toLowerByte = ofText "https"
  host : ∃ host, parseAuthority F.parseAddr (p.scheme.map toLowerByte) p.authority =
    .ok (none, host) ∧ allowedHost F domains (hostname host) = true
  path : ∃ path, unescape .path p.path = .ok path ∧ hasSegment path = false

section Stored

variable {F : Formats} {domains : List GoString} {p : Policloud} {u : URL} {q : Parts}

theorem validateURL_eq_ok (h : validateURL F domains p u = .ok ()) :
    u.scheme = ofText "https" ∧ u.host ≠ [] ∧ u.user = none ∧ u.rawQuery = [] ∧
      u.fragment = [] ∧ hasSegment u.path = false ∧
      allowedHost F domains (hostname u.host) = true := by
  unfold validateURL at h
  split_ifs at h with horigin hhost
  simp only [not_or, not_not, Bool.not_eq_true, isSome_eq_false_iff, isNone_iff_eq_none] at horigin
  obtain ⟨hscheme, hne, huser, hquery, hfragment, hpath⟩ := horigin
  exact ⟨hscheme, hne, huser, hquery, hfragment, hpath, by simpa using hhost⟩

/-- A URL that passed the check is made of such parts. -/
theorem exists_stored_of_validateURL (hu : parse F.parseAddr p.url = .ok u)
    (h : validateURL F domains p u = .ok ()) :
    ∃ q : Parts, q.text = p.url ∧ Stored F domains q ∧ q.authority ≠ [] := by
  obtain ⟨hscheme, hne, huser, hquery, hfragment, hpath, hhost⟩ := validateURL_eq_ok h
  obtain ⟨q, hq, hcontrol⟩ := exists_parts hu (by rw [hscheme]; decide) hne
  rw [← hq, q.parse_text F.parseAddr hcontrol] at hu
  obtain ⟨hauthority, hpath', hfragment', hscheme', hquery'⟩ := url_eq_ok hu
  rw [huser] at hauthority
  rw [hfragment] at hfragment'
  refine ⟨q, hq, ⟨hcontrol, hquery'.symm.trans hquery, unescape_eq_ok_nil hfragment',
    hscheme'.symm.trans hscheme, ⟨u.host, hauthority, hhost⟩, ⟨u.path, hpath', hpath⟩⟩, ?_⟩
  intro hnil
  have hempty : parseAuthority F.parseAddr (q.scheme.map toLowerByte) [] = .ok (none, []) := rfl
  rw [hnil, hempty, Except.ok.injEq, Prod.mk.injEq] at hauthority
  exact hne hauthority.2.symm

theorem trimSlash_concat {a : GoString} {c : UInt8} (h : c ≠ '/'.toUInt8) :
    trimSlash (a ++ [c]) = a ++ [c] := by
  unfold trimSlash
  rw [List.getLast?_concat, if_neg]
  exact fun heq => h (some.inj heq)

theorem trimSlash_slash (a : GoString) : trimSlash (a ++ ['/'.toUInt8]) = a := by
  unfold trimSlash
  rw [List.getLast?_concat, if_pos rfl, List.dropLast_concat]

theorem eq_none_or_of_getD {o : Option GoString} (h : o.getD [] = []) : o = none ∨ o = some [] := by
  cases o with
  | none => exact .inl rfl
  | some => exact .inr (congrArg some h)

/-- Without its last slash, it is still made of such parts. -/
theorem Stored.exists_trimSlash (h : Stored F domains q) (hne : q.authority ≠ []) :
    ∃ q' : Parts, q'.text = trimSlash q.text ∧ Stored F domains q' := by
  rcases eq_none_or_of_getD h.fragment with hfragment | hfragment
  swap
  · -- the text ends with `#`
    refine ⟨q, ?_, h⟩
    rw [text, hfragment]
    exact (trimSlash_concat (by decide)).symm
  have htext : q.text = q.body := by
    rw [text, hfragment]
    exact append_nil _
  rcases eq_none_or_of_getD h.query with hquery | hquery
  swap
  · -- the text ends with `?`
    refine ⟨q, ?_, h⟩
    have hbody : q.body = (q.scheme ++ ':'.toUInt8 :: q.hier) ++ ['?'.toUInt8] := by
      rw [body, hquery, append_assoc]
      rfl
    rw [htext, hbody]
    exact (trimSlash_concat (by decide)).symm
  have hbody : q.body = (q.scheme ++ [':'.toUInt8, '/'.toUInt8, '/'.toUInt8]) ++
      (q.authority ++ q.path) := by
    rw [body, hquery, hier, append_assoc, after, append_nil]
    rfl
  rw [htext]
  rcases List.eq_nil_or_concat q.path with hnil | ⟨path, c, hpath⟩
  · -- the text ends with the authority
    obtain ⟨authority, c, hauthority⟩ := (List.eq_nil_or_concat q.authority).resolve_left hne
    rw [List.concat_eq_append] at hauthority
    have hc : c ≠ '/'.toUInt8 := by
      rintro rfl
      refine q.slash_not_mem ?_
      rw [hauthority]
      simp
    refine ⟨q, ?_, h⟩
    rw [htext, hbody, hnil, hauthority, append_nil, ← append_assoc, trimSlash_concat hc]
  · -- the text ends with the path, from which a last slash is taken
    rw [List.concat_eq_append] at hpath
    by_cases hc : c = '/'.toUInt8
    · subst hc
      have hmem : ∀ b ∈ path, b ∈ q.path := fun b hb => by rw [hpath]; simp [hb]
      let q' : Parts := { q with
        path := path
        head_path := by
          have hhead := q.head_path
          rw [hpath] at hhead
          cases path with
          | nil => exact .inl rfl
          | cons => exact .inr (hhead.resolve_left (List.cons_ne_nil _ _))
        question_not_mem_path := fun hb => q.question_not_mem_path (hmem _ hb)
        number_not_mem_path := fun hb => q.number_not_mem_path (hmem _ hb) }
      have hbody' : q.body = q'.body ++ ['/'.toUInt8] := by
        have heq : q'.body = (q.scheme ++ [':'.toUInt8, '/'.toUInt8, '/'.toUInt8]) ++
            (q.authority ++ path) := by
          rw [body, show q'.query = none from hquery, hier, append_assoc, after,
            append_nil]
          rfl
        rw [hbody, heq, hpath, ← append_assoc, ← append_assoc, ← append_assoc]
      have htext' : q'.text = q'.body := by
        rw [text, show q'.fragment = none from hfragment]
        exact append_nil _
      obtain ⟨whole, hwhole, hsegment⟩ := h.path
      rw [hpath] at hwhole
      obtain ⟨rest, hrest, rfl⟩ := unescape_path_append_slash hwhole
      refine ⟨q', ?_, ⟨?_, h.query, h.fragment, h.scheme, h.host, rest, hrest, ?_⟩⟩
      · rw [htext', hbody', trimSlash_slash]
      · have hcontrol := h.noControl
        rw [hbody', any_append, Bool.or_eq_false_iff] at hcontrol
        exact hcontrol.1
      · unfold hasSegment at hsegment ⊢
        rw [any_append, Bool.or_eq_false_iff] at hsegment
        exact hsegment.1
    · refine ⟨q, ?_, h⟩
      rw [htext, hbody, hpath, ← append_assoc, ← append_assoc, trimSlash_concat hc]

/-- A URL that `validatePolicloud` returns. -/
theorem exists_stored {url : GoString} (h : validatePolicloud F domains p = .ok url) :
    ∃ q : Parts, q.text = url ∧ Stored F domains q := by
  obtain ⟨rfl, u, hu, hvalid⟩ := validatePolicloud_eq_ok h
  obtain ⟨q, hq, hstored, hne⟩ := exists_stored_of_validateURL hu hvalid
  rw [← hq]
  exact hstored.exists_trimSlash hne

theorem Stored.parse_text (h : Stored F domains q) :
    ∃ u, parse F.parseAddr q.text = .ok u ∧ u.scheme = ofText "https" ∧
      parseAuthority F.parseAddr (q.scheme.map toLowerByte) q.authority = .ok (none, u.host) ∧
      allowedHost F domains (hostname u.host) = true := by
  obtain ⟨host, hauthority, hhost⟩ := h.host
  obtain ⟨path, hpath, -⟩ := h.path
  refine ⟨⟨q.scheme.map toLowerByte, [], none, host, path, decide (q.query = some []),
    q.query.getD [], []⟩, ?_, h.scheme, hauthority, hhost⟩
  rw [q.parse_text F.parseAddr h.noControl, url, hauthority, hpath, h.fragment]
  rfl

theorem Stored.underDomains (h : Stored F domains q) : UnderDomains F domains q.text := by
  obtain ⟨u, hu, hscheme, -, hhost⟩ := h.parse_text
  refine ⟨u, hu, hscheme, ?_⟩
  obtain ⟨d, hd, hsuffix⟩ := List.any_eq_true.mp hhost
  exact ⟨d, hd, of_decide_eq_true hsuffix⟩

/-- The text is an origin and nothing more. -/
theorem bare_text_iff : Bare q.text ↔ q.path = [] ∧ q.query = none ∧ q.fragment = none := by
  have hdrop : (q.text.dropWhile (· ≠ '/'.toUInt8)).drop 2 =
      q.authority ++ q.path ++ after '?'.toUInt8 q.query ++ after '#'.toUInt8 q.fragment := by
    have hscheme : '/'.toUInt8 ∉ q.scheme ++ [':'.toUInt8] := by
      rw [List.mem_append, not_or]
      exact ⟨fun hmem => absurd (q.isSchemeByte_of_mem _ hmem) (by decide), by decide⟩
    have htext : q.text = (q.scheme ++ [':'.toUInt8]) ++
        '/'.toUInt8 :: '/'.toUInt8 :: (q.authority ++ q.path ++ after '?'.toUInt8 q.query ++
          after '#'.toUInt8 q.fragment) := by
      simp only [text, body, hier, append_assoc, List.cons_append, List.nil_append]
    rw [htext, (takeWhile_ne_append hscheme _ (.inr rfl)).2]
    rfl
  unfold Bare
  rw [hdrop]
  constructor
  · intro h
    refine ⟨?_, ?_, ?_⟩
    · -- a path begins with a slash, which a bare text does not have
      rcases q.head_path with hnil | hhead
      · exact hnil
      · have hmem := List.mem_of_mem_head? hhead
        exact absurd rfl (h _ (by simp [hmem])).1
    · cases hquery : q.query with
      | none => rfl
      | some => exact absurd rfl (h '?'.toUInt8 (by simp [hquery, after])).2.1
    · cases hfragment : q.fragment with
      | none => rfl
      | some => exact absurd rfl (h '#'.toUInt8 (by simp [hfragment, after])).2.2
  · rintro ⟨hpath, hquery, hfragment⟩ c hc
    rw [hpath, hquery, hfragment, after, after, append_nil, append_nil,
      append_nil] at hc
    refine ⟨?_, ?_, ?_⟩ <;> rintro rfl
    · exact q.slash_not_mem hc
    · exact q.question_not_mem hc
    · exact q.number_not_mem hc

/-- A path that `Location` can append: it needs no escapes. -/
def PlainPath (path : GoString) : Prop :=
  path.head? = some '/'.toUInt8 ∧ '?'.toUInt8 ∉ path ∧ '#'.toUInt8 ∉ path ∧ '%'.toUInt8 ∉ path ∧
    path.any isControl = false ∧ hasSegment path = true

instance (path : GoString) : Decidable (PlainPath path) := inferInstanceAs (Decidable (_ ∧ _))

theorem plainPath_of_mem : ∀ path ∈ endpointKinds.map Prod.fst, PlainPath (ofText path) := by
  decide +kernel

theorem not_isControl_encode (m : Values) : m.encode.any isControl = false := by
  refine List.any_eq_false.mpr fun c hc hcontrol => ?_
  rcases mem_encode hc with h | rfl | rfl
  · rw [not_isControl_of_isQueryByte h] at hcontrol
    cases hcontrol
  all_goals cases hcontrol

theorem number_not_mem_encode (m : Values) : '#'.toUInt8 ∉ m.encode := by
  intro hmem
  rcases mem_encode hmem with h | h | h <;> exact absurd h (by decide)

variable {req : URL}

/-- Behind a `#` or a `?`, the path of the request is not in the path of the URL. -/
theorem Stored.not_leads (h : Stored F domains q) (hreq : PlainPath req.path) {token : GoString}
    {r : Parts} (hr : r.text = location q.text req token) (hpath : r.path = q.path)
    (hcontrol : r.body.any isControl = false) : ¬Leads F q.text req token := by
  rintro ⟨u, v, -, hv, -, -, hvpath, -⟩
  rw [← hr, r.parse_text F.parseAddr hcontrol] at hv
  obtain ⟨-, hunescape, -⟩ := url_eq_ok hv
  obtain ⟨path, hpath', hsegment⟩ := h.path
  rw [hpath, hpath', hvpath] at hunescape
  cases hunescape
  rw [hreq.2.2.2.2.2] at hsegment
  cases hsegment

def redirectQuery (req : URL) (token : GoString) : GoString :=
  (req.query.set queryParam token).encode

theorem location_eq (url : GoString) (req : URL) (token : GoString) :
    location url req token = url ++ (req.path ++ '?'.toUInt8 :: redirectQuery req token) :=
  append_assoc _ _ _

variable (h : Stored F domains q)

include h

variable (hreq : PlainPath req.path)

include hreq

variable (token : GoString)

/-- What is appended to a stored URL with a fragment, if an empty one, is in the fragment. -/
theorem Stored.not_leads_of_fragment (hfragment : q.fragment = some []) :
    ¬Leads F q.text req token := by
  let r : Parts := { q with fragment := some (req.path ++ '?'.toUInt8 :: redirectQuery req token) }
  refine h.not_leads hreq (r := r) ?_ rfl h.noControl
  rw [location_eq, text, text, hfragment, append_assoc]
  rfl

/-- What is appended to a stored URL with a query, if an empty one, is in the query. -/
theorem Stored.not_leads_of_query (hfragment : q.fragment = none) (hquery : q.query = some []) :
    ¬Leads F q.text req token := by
  obtain ⟨-, -, hnumber, -, hcontrol, -⟩ := id hreq
  have hnumber' : '#'.toUInt8 ∉ req.path ++ '?'.toUInt8 :: redirectQuery req token := by
    rw [List.mem_append, List.mem_cons, not_or, not_or]
    exact ⟨hnumber, by decide, number_not_mem_encode _⟩
  have hbody : (q.setQuery _ hnumber').body =
      q.body ++ (req.path ++ '?'.toUInt8 :: redirectQuery req token) := by
    rw [body, body, hquery, append_assoc, List.cons_append, append_assoc]
    rfl
  refine h.not_leads hreq (r := q.setQuery _ hnumber') ?_ rfl ?_
  · have hnone : (q.setQuery _ hnumber').fragment = none := hfragment
    rw [location_eq, text, text, hfragment, hnone, hbody, after, append_nil, append_nil]
  · rw [hbody, any_append, any_append, List.any_cons, h.noControl, hcontrol]
    exact not_isControl_encode _

/-- What is appended to a stored URL without a query and a fragment is behind its path. -/
theorem Stored.parse_location (hfragment : q.fragment = none) (hquery : q.query = none) :
    ∃ host path b, parseAuthority F.parseAddr (q.scheme.map toLowerByte) q.authority =
        .ok (none, host) ∧ unescape .path q.path = .ok path ∧
      parse F.parseAddr (location q.text req token) = .ok ⟨q.scheme.map toLowerByte, [], none, host,
        path ++ req.path, b, redirectQuery req token, []⟩ := by
  obtain ⟨hhead, hquestion, hnumber, hpercent, hcontrol, -⟩ := hreq
  obtain ⟨host, hauthority, -⟩ := h.host
  obtain ⟨path, hpath, -⟩ := h.path
  -- the parts of the new URL: a longer path, and the query with the token
  let r := (q.appendPath req.path hhead hquestion hnumber).setQuery (redirectQuery req token)
    (number_not_mem_encode _)
  have hbody : r.body = q.body ++ (req.path ++ '?'.toUInt8 :: redirectQuery req token) := by
    have hhier : r.hier = q.hier ++ req.path := by
      show _ :: _ :: (q.authority ++ (q.path ++ req.path)) = _
      rw [← append_assoc]
      rfl
    have hquery' : r.query = some (redirectQuery req token) := rfl
    rw [body, body, hhier, hquery, hquery', after, after, append_nil,
      append_assoc, append_assoc, List.cons_append]
    rfl
  have hr : r.text = location q.text req token := by
    have hnone : r.fragment = none := hfragment
    rw [location_eq, text, text, hfragment, hnone, hbody, after, append_nil, append_nil]
  have hcontrol' : r.body.any isControl = false := by
    rw [hbody, any_append, any_append, List.any_cons, h.noControl, hcontrol]
    exact not_isControl_encode _
  have hpath' : unescape .path r.path = .ok (path ++ req.path) := by
    show unescape .path (q.path ++ req.path) = _
    rw [unescape_append hpath, unescape_path_of_forall hpercent]
    rfl
  refine ⟨host, path, decide (r.query = some []), hauthority, hpath, ?_⟩
  have hauthority' : parseAuthority F.parseAddr (r.scheme.map toLowerByte) r.authority =
      .ok (none, host) := hauthority
  have hnone : r.fragment.getD [] = [] := h.fragment
  rw [← hr, r.parse_text F.parseAddr hcontrol', url, hauthority', hpath', hnone]
  rfl

/-- **The URL of a redirect leads where it should exactly if the stored URL is an origin.** -/
theorem Stored.leads_iff : Leads F q.text req token ↔ Bare q.text := by
  rw [bare_text_iff]
  rcases eq_none_or_of_getD h.fragment with hfragment | hfragment
  swap
  · refine iff_of_false (h.not_leads_of_fragment hreq token hfragment) ?_
    rintro ⟨-, -, hnone⟩
    rw [hfragment] at hnone
    cases hnone
  rcases eq_none_or_of_getD h.query with hquery | hquery
  swap
  · refine iff_of_false (h.not_leads_of_query hreq token hfragment hquery) ?_
    rintro ⟨-, hnone, -⟩
    rw [hquery] at hnone
    cases hnone
  obtain ⟨host, path, b, hauthority, hpath, hparse⟩ := h.parse_location hreq token hfragment hquery
  constructor
  · -- the path is that of the request only if the stored one is empty
    rintro ⟨u, v, -, hv, -, -, hvpath, -⟩
    rw [hparse] at hv
    cases hv
    have hnil : path = [] := List.append_cancel_right (hvpath.trans (List.nil_append _).symm)
    rw [hnil] at hpath
    exact ⟨unescape_eq_ok_nil hpath, hquery, hfragment⟩
  · rintro ⟨hnil, -, -⟩
    obtain ⟨u, hu, hscheme, huhost, -⟩ := h.parse_text
    rw [huhost] at hauthority
    cases hauthority
    rw [hnil] at hpath
    cases hpath
    refine ⟨u, _, hu, hparse, h.scheme.trans hscheme.symm, rfl, rfl, ?_⟩
    exact get_parseQuery_encode_set _ _ _

end Stored

/-! ### Every sequence of calls -/

section Runs

variable {F : Formats} {domains : List GoString} {m n : SiblingMap} {doc : MapDoc}

theorem MadeOf.exists_stored (h : MadeOf F domains doc n) {id : String} {p : Policloud}
    (hp : n.policlouds.lookup id = some p) :
    ∃ q : Parts, q.text = p.url ∧ Stored F domains q := by
  obtain ⟨q, hq, -, rfl⟩ := (h.lookup_iff id p).mp hp
  exact Redirect.exists_stored (h.valid q hq)

theorem MadeOf.mapSafe (h : MadeOf F n.domains doc n) : MapSafe F n where
  id_eq id p hp := by
    obtain ⟨q, -, hid, rfl⟩ := (h.lookup_iff id p).mp hp
    exact hid
  url id p hp := by
    obtain ⟨q, hq, hstored⟩ := h.exists_stored hp
    rw [← hq]
    exact hstored.underDomains
  snapshot p hp := by
    rw [h.policlouds] at hp
    obtain ⟨q, hq, rfl⟩ := List.mem_map.mp hp
    exact (h.lookup_iff q.id q.clean).mpr ⟨q, hq, rfl, rfl⟩
  placed pl hpl := by
    rw [h.placements] at hpl
    exact validatePlacement_eq_ok (h.validPlacement pl hpl)
  placedByModel model pl hpl := by
    rw [h.byModel] at hpl
    obtain ⟨pl₀, hpl₀, rfl⟩ := List.mem_map.mp hpl
    exact validatePlacement_eq_ok (h.validPlacement pl₀ (List.mem_of_mem_filter hpl₀))
  nodup := by
    rw [h.placements]
    exact h.nodup

/-- What holds of a map after any calls. -/
structure MapInv (F : Formats) (domains : List GoString) (m : SiblingMap) : Prop where
  domains_eq : m.domains = domains
  safe : MapSafe F m
  stored : ∀ id p, m.policlouds.lookup id = some p →
    ∃ q : Parts, q.text = p.url ∧ Stored F domains q

theorem MapInv.new (F : Formats) (domains : List GoString) : MapInv F domains (.new domains) :=
  ⟨rfl, ⟨nofun, nofun, nofun, nofun, nofun, List.nodup_nil⟩, nofun⟩

theorem MapInv.replace (h : MapInv F domains m) (hn : m.replace F doc = .ok n) :
    MapInv F domains n := by
  obtain ⟨hmade, hdomains, -⟩ := replace_eq_ok hn
  rw [← hdomains] at hmade
  have heq : n.domains = domains := hdomains.trans h.domains_eq
  refine ⟨heq, hmade.mapSafe, fun id p hp => ?_⟩
  rw [← heq]
  exact hmade.exists_stored hp

theorem version_le_of_replace (hn : m.replace F doc = .ok n) : m.version ≤ n.version := by
  obtain ⟨-, -, hset, hversion, version, hdoc, hcheck⟩ := replace_eq_ok hn
  have hnew : n.version = version := by
    rw [SiblingMap.version, if_pos hset, hversion, hdoc]
    rfl
  rw [hnew, SiblingMap.version]
  unfold checkVersion at hcheck
  split_ifs at hcheck with hstale
  split_ifs with hm
  · exact UInt64.not_lt.mp fun hlt => hstale ⟨hm, hlt⟩
  · exact UInt64.zero_le

theorem siblingMap_step (h : (siblingMap F domains).step m doc = some n) :
    m.replace F doc = .ok n ∨ n = m := by
  cases hreplace : m.replace F doc with
  | error =>
    refine .inr ?_
    have hstep : some ((m.replace F doc).toOption.getD m) = some n := h
    rw [hreplace] at hstep
    exact (some.inj hstep).symm
  | ok =>
    refine .inl (congrArg Except.ok ?_)
    have hstep : some ((m.replace F doc).toOption.getD m) = some n := h
    rw [hreplace] at hstep
    exact some.inj hstep

theorem mapInv_of_reachable (hm : (siblingMap F domains).Reachable m) : MapInv F domains m := by
  refine hm.induction (fun _ hinit => ?_) fun m doc n h hstep => ?_
  · rw [show _ = _ from hinit]
    exact .new F domains
  · rcases siblingMap_step hstep with hn | rfl
    · exact h.replace hn
    · exact h

end Runs

/-- **The sibling map, and where its redirects point.** After any sequence of `Replace` calls the
map is safe; a further call that is refused changes nothing, and no calls lower the version. For
every URL of the map, the redirects of every request lead where they should exactly if the URL is
an origin and nothing more. -/
theorem location_sound_iff (F : Formats) (domains : List GoString) {m : SiblingMap}
    (hm : (siblingMap F domains).Reachable m) :
    m.domains = domains ∧ MapSafe F m ∧
      (∀ doc err, m.replace F doc = .error err → (siblingMap F domains).step m doc = some m) ∧
      (∀ docs n, (siblingMap F domains).run m docs = some n → m.version ≤ n.version) ∧
      ∀ id p, m.policlouds.lookup id = some p →
        ∀ path ∈ endpointKinds.map Prod.fst, ∀ req : URL, req.path = ofText path →
          ∀ token, Leads F p.url req token ↔ Bare p.url := by
  have hinv := mapInv_of_reachable hm
  refine ⟨hinv.domains_eq, hinv.safe, fun doc err herr => ?_, fun docs n hrun => ?_, ?_⟩
  · show some ((m.replace F doc).toOption.getD m) = some m
    rw [herr]
    rfl
  · refine Machine.run_preserves (I := fun n => m.version ≤ n.version) (fun n doc n' h hstep => ?_)
      (UInt64.le_refl _) hrun
    rcases siblingMap_step hstep with hn | rfl
    · exact UInt64.le_trans h (version_le_of_replace hn)
    · exact h
  · intro id p hp path hpath req hreq token
    obtain ⟨q, hq, hstored⟩ := hinv.stored id p hp
    rw [← hq]
    refine hstored.leads_iff ?_ token
    rw [hreq]
    exact plainPath_of_mem path hpath

namespace One

def formats : Formats := ⟨fun _ => none, fun _ => none, fun _ => none, id⟩

def domains : List GoString := [ofText ".x.ai"]

def doc (url : String) : MapDoc := ⟨2, some 1, "r", [⟨"a", ofText url, "FR", some true⟩], [], ""⟩

def map (url : String) : SiblingMap :=
  ((new domains).replace formats (doc url)).toOption.getD (.new domains)

theorem reachable_map (url : String) : (siblingMap formats domains).Reachable (map url) :=
  ⟨.new domains, [doc url], rfl, rfl⟩

def request (path : String) : URL := ⟨[], [], none, [], ofText path, false, ofText "q=1", []⟩

end One

/-- An origin with one slash behind is stored without it, and redirects lead to it. -/
theorem leads_origin : (One.map "https://a.x.ai/").policlouds.lookup "a" =
        some ⟨"a", ofText "https://a.x.ai", "FR", some true⟩ ∧
      Leads One.formats (ofText "https://a.x.ai") (One.request "/v1/messages")
        (ofText "v2.k.t") := by
  have hlookup : (One.map "https://a.x.ai/").policlouds.lookup "a" =
      some ⟨"a", ofText "https://a.x.ai", "FR", some true⟩ := by decide +kernel
  have hsound := location_sound_iff One.formats One.domains (One.reachable_map "https://a.x.ai/")
  have hbare : Bare (ofText "https://a.x.ai") := by decide +kernel
  exact ⟨hlookup, (hsound.2.2.2.2 "a" _ hlookup "/v1/messages" (by decide) _ rfl _).mpr hbare⟩

/-- A URL that ends with `?` is accepted, and its redirects do not lead to the path. -/
theorem not_leads_question : ¬∀ (F : Formats) (domains : List GoString) (m : SiblingMap),
      (siblingMap F domains).Reachable m → ∀ id p, m.policlouds.lookup id = some p →
        ∀ path ∈ endpointKinds.map Prod.fst, ∀ req : URL, req.path = ofText path →
          ∀ token, Leads F p.url req token := by
  intro h
  have hlookup : (One.map "https://a.x.ai?").policlouds.lookup "a" =
      some ⟨"a", ofText "https://a.x.ai?", "FR", some true⟩ := by decide +kernel
  obtain ⟨u, v, -, hv, -, -, hpath, -⟩ := h One.formats One.domains _
    (One.reachable_map "https://a.x.ai?") "a" _ hlookup "/v1/messages" (by decide)
    (One.request "/v1/messages") rfl (ofText "t")
  have hparse : (parse One.formats.parseAddr (location (ofText "https://a.x.ai?")
      (One.request "/v1/messages") (ofText "t"))).toOption.map URL.path = some [] := by
    decide +kernel
  rw [show parse One.formats.parseAddr (location (ofText "https://a.x.ai?")
      (One.request "/v1/messages") (ofText "t")) = _ from hv] at hparse
  rw [some.inj hparse] at hpath
  exact absurd hpath (by decide)

end HivenetRouter.Redirect
