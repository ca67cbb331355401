import RecordSearch.Proofs.Settings.Validity

/-! The path of an endpoint, and what becomes of it in the addresses of calls. -/
namespace RecordSearch
open Url

namespace Url

/-- No path ends as if a name had been put behind it. -/
theorem chars_ne_pathUnder (u : Url) {name : String} (hn : name ≠ "") :
    u.path.chars ≠ u.pathUnder [name] := by
  have hunder : u.pathUnder [name] =
      Text.dropEnd (· == '/') u.path.chars ++ '/' :: written name := by
    rw [pathUnder, List.flatMap_singleton]
    split
    · next h => exact absurd (List.append_eq_nil_iff.1 h).2 (List.cons_ne_nil _ _)
    · rfl
  have hne : written name ≠ [] := by
    rwa [written, ne_eq, Text.Percent.encode_eq_nil_iff, String.toList_eq_nil_iff]
  intro he
  rw [hunder] at he
  have hall : Text.dropEnd (· == '/') u.path.chars = u.path.chars := by
    refine List.rdropWhile_eq_self_iff.2 fun hp => ?_
    have hlast := not_slash_of_mem_written (List.getLast_mem hne)
    rw [Bool.or_eq_false_iff] at hlast
    rw [List.getLast_congr hp (by simp) he, List.getLast_append_of_ne_nil _ (List.cons_ne_nil _ _),
      List.getLast_cons hne, hlast.1]
    exact Bool.false_ne_true
  rw [hall] at he
  exact absurd (List.self_eq_append_right.1 he) (List.cons_ne_nil _ _)

/-- What an address with names behind it is read as, by what follows its path. -/
structure Leads (u : Url) (names : List String) (v : Url) : Prop where
  /-- Only path, query and fragment can differ. -/
  place : v = { u with path := v.path, query := v.query, fragment := v.fragment }
  /-- The names go to the path if nothing follows it. -/
  path : u.query = none → u.fragment = none → (∀ name ∈ names, ¬IsDots name) →
    v.path.chars = u.pathUnder names ∧ v.query = none ∧ v.fragment = none
  /-- They go to the query if there is one and nothing follows it. -/
  query : ∀ q, u.query = some q → u.fragment = none →
    v.path = u.path ∧
    v.query = some (Text.dropEnd (· == '/') q ++ names.flatMap fun name => '/' :: written name)
  /-- Behind a fragment they are not even sent. -/
  fragment : u.fragment ≠ none → Http.bareUrl v = Http.bareUrl u

theorem Leads.path_eq {u v : Url} {names : List String} (h : Leads u names v)
    (hmark : ¬(u.query = none ∧ u.fragment = none)) :
    v.path = u.path := by
  cases hf : u.fragment with
  | some f =>
    have hbare := congrArg Url.path (h.fragment (by simp [hf]))
    exact hbare
  | none =>
    cases hq : u.query with
    | some q => exact (h.query q hq hf).1
    | none => exact absurd ⟨hq, hf⟩ hmark

end Url

namespace Client
variable {c : Client} {u : Url}

theorem exists_leads (h : c.IsFor u) (hs : u.Sendable) (names : List String) :
    ∃ v, Url.ofText (c.url names) = .ok v ∧ Leads u names v := by
  obtain ⟨text, hu⟩ := h.read
  obtain ⟨standard, hw⟩ := isWeb_of_sendable hs
  have hsettled := read_settled hu hw
  rw [ofText_url h]
  cases hf : u.fragment with
  | some f =>
    refine ⟨_, read_extended_fragment hw hsettled hf names, rfl, ?_, ?_, fun _ => rfl⟩
    · exact fun _ hnone => nomatch hnone.symm.trans hf
    · exact fun _ _ hnone => nomatch hnone.symm.trans hf
  | none =>
    have hfragment {v : Url} (hsome : u.fragment ≠ none) : Http.bareUrl v = Http.bareUrl u :=
      absurd hf hsome
    cases hq : u.query with
    | some q =>
      refine ⟨_, read_extended_query hw hsettled hq hf names, rfl, ?_, ?_, hfragment⟩
      · exact fun hnone => nomatch hnone.symm.trans hq
      · intro r hr _
        obtain rfl := Option.some.inj (hq.symm.trans hr)
        exact ⟨rfl, rfl⟩
    | none =>
      have hquery {v : Url} {p : Prop} (q : List Char) (hsome : u.query = some q) : p :=
        nomatch hq.symm.trans hsome
      by_cases hn : ∀ name ∈ names, ¬IsDots name
      · obtain ⟨path, hread, hpath⟩ := read_extended_names hw hsettled hq hf hn
        exact ⟨_, hread, rfl, fun _ _ _ => ⟨hpath, hq, hf⟩,
          fun q hsome => hquery (v := u) q hsome, hfragment⟩
      · obtain ⟨path, query, fragment, hread⟩ := read_extended hw hsettled names
        exact ⟨_, hread, rfl, fun _ _ hnames => absurd hnames hn,
          fun q hsome => hquery (v := u) q hsome, hfragment⟩

/-- A call is sent to the address that its text is read as. -/
theorem request?_of_leads (h : c.IsFor u) (hs : u.Sendable) {call : Call} {v : Url}
    (hv : Url.ofText (c.url call.segments) = .ok v) (hl : Leads u call.segments v) :
    ∃ r, c.request? call = some r ∧ r.url = Http.bareUrl v := by
  have hscheme : v.scheme = u.scheme := by rw [hl.place]
  have htarget : c.target? call = some v :=
    target?_of_read h hs hscheme ((ofText_url h call.segments).symm.trans hv)
  rw [request?, htarget]
  exact ⟨_, rfl, rfl⟩

end Client

/-- Calls go to the path of the endpoint and from there to their own segments exactly if the address
of the endpoint has neither query nor fragment. With one of them every call goes to the path of the
endpoint itself, and with a fragment there is no trace of the segments in what is sent. Scheme,
credentials, host and port are those of the endpoint in any case. -/
theorem calls_follow_base_path_iff {settings : Settings} (hv : settings.validate = .ok ())
    {c : Client} (hc : Client.ofSettings settings = .ok c) :
    ∃ u, Url.ofText settings.engine.url = .ok u ∧
    (∀ names, ∃ v, Url.ofText (c.url names) = .ok v ∧ Leads u names v ∧
      ∀ call : Call, call.segments = names →
        ∃ r, c.request? call = some r ∧ r.url = Http.bareUrl v) ∧
    ((∀ names, (∀ name ∈ names, ¬IsDots name) →
      ∀ v, Url.ofText (c.url names) = .ok v → v.path.chars = u.pathUnder names) ↔
      u.query = none ∧ u.fragment = none) := by
  obtain ⟨u, hu, hfor⟩ := Client.isFor_of_ofSettings hc
  have hs := Settings.sendable_of_validate hv hu
  refine ⟨u, hu, fun names => ?_, fun hlaw => ?_, fun ⟨hq, hf⟩ names hn v hread => ?_⟩
  · obtain ⟨v, hread, hl⟩ := Client.exists_leads hfor hs names
    refine ⟨v, hread, hl, ?_⟩
    rintro call rfl
    exact Client.request?_of_leads hfor hs hread hl
  · obtain ⟨v, hread, hl⟩ := Client.exists_leads hfor hs ["_bulk"]
    by_contra hmark
    exact chars_ne_pathUnder u (by decide) (hl.path_eq hmark ▸ hlaw ["_bulk"] (by decide) v hread)
  · obtain ⟨w, hw, hl⟩ := Client.exists_leads hfor hs names
    obtain rfl := Except.ok.inj (hread.symm.trans hw)
    exact (hl.path hq hf hn).1

/-- Slashes at the end of a base path make no difference, and a slash in a key is encoded. -/
theorem path_of_endpoint_is_kept :
    let settings : Settings := { engine := { url := "https://ann@search/v1//" } }
    ∃ c, Client.ofSettings settings = .ok c ∧
      ∃ v, Url.ofText (c.url ["books", "_doc", "a/b"]) = .ok v ∧
      v.path.chars = "/v1/books/_doc/a%2Fb".toList := by
  intro settings
  have hv : settings.validate = .ok () := Settings.validate_eq_ok_iff.2 ⟨⟨{
    scheme := "https".toList, username := "ann".toList, host := some (.named "search".toList)
    path := .rooted ["v1".toList, [], []] }, by decide +kernel⟩, by decide +kernel⟩
  obtain ⟨c, -, hc⟩ := Client.exists_ofSettings hv (by decide +kernel)
  obtain ⟨u, hu, hall, -⟩ := calls_follow_base_path_iff hv hc
  have hread : Url.ofText "https://ann@search/v1//" = .ok {
    scheme := "https".toList, username := "ann".toList, host := some (.named "search".toList)
    path := .rooted ["v1".toList, [], []] } := by decide +kernel
  obtain rfl := Except.ok.inj (hread.symm.trans hu)
  obtain ⟨v, hv, hl, -⟩ := hall ["books", "_doc", "a/b"]
  obtain ⟨hpath, -, -⟩ := hl.path rfl rfl (by decide)
  exact ⟨_, hc, v, hv, hpath.trans (by decide +kernel)⟩

/-- A fragment in the address of the endpoint: the settings are valid, and every call goes to the
path `/`, a delete of one document as well as a search. -/
theorem fragment_takes_all_calls :
    let settings : Settings := { engine := { url := "http://localhost:9200/#main" } }
    settings.validate = .ok () ∧ ∃ c, Client.ofSettings settings = .ok c ∧
      (∀ call, ∃ r, c.request? call = some r ∧ r.url.text = "http://localhost:9200/") ∧
      localUrl.pathUnder ["books", "_doc", "1"] = "/books/_doc/1".toList := by
  intro settings
  have hread : Url.ofText settings.engine.url =
      .ok { localUrl with fragment := some "main".toList } := by decide +kernel
  have hs : { localUrl with fragment := some "main".toList }.Sendable := by decide
  have hv : settings.validate = .ok () :=
    Settings.validate_eq_ok_iff.2 ⟨⟨_, hread, hs⟩, by decide +kernel⟩
  obtain ⟨c, -, hc⟩ := Client.exists_ofSettings hv (by decide +kernel)
  obtain ⟨u, hu, hfor⟩ := Client.isFor_of_ofSettings hc
  obtain rfl := Except.ok.inj (hread.symm.trans hu)
  refine ⟨hv, _, hc, fun call => ?_, by decide +kernel⟩
  obtain ⟨v, hv, hl⟩ := Client.exists_leads hfor hs call.segments
  obtain ⟨r, hr, hurl⟩ := Client.request?_of_leads hfor hs hv hl
  refine ⟨r, hr, ?_⟩
  rw [hurl, hl.fragment (by simp)]
  decide +kernel

end RecordSearch
