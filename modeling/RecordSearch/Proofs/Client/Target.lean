import RecordSearch.Proofs.Url.ReadBack
import RecordSearch.Client

/-! Where the calls of a client go. -/
namespace RecordSearch
open Url

def Url.Sendable (u : Url) : Prop := u.scheme = "http".toList ∨ u.scheme = "https".toList

instance (u : Url) : Decidable u.Sendable := inferInstanceAs (Decidable (_ ∨ _))

namespace Client

/-- A client for the address `u`, which has been read from some text. -/
structure IsFor (c : Client) (u : Url) : Prop where
  read : ∃ text, Url.ofText text = .ok u
  base : c.base = baseText u

theorem isFor_of_ofEngine {e : EngineSettings} {c : Client} (h : ofEngine e = .ok c) :
    ∃ u, Url.ofText e.url = .ok u ∧ c.IsFor u := by
  unfold ofEngine at h
  split at h
  · contradiction
  · next u hu =>
    split at h
    · contradiction
    · obtain rfl := Except.ok.inj h
      exact ⟨u, hu, ⟨_, hu⟩, rfl⟩

theorem isFor_of_ofSettings {s : Settings} {c : Client} (h : ofSettings s = .ok c) :
    ∃ u, Url.ofText s.engine.url = .ok u ∧ c.IsFor u := by
  obtain ⟨d, hd, h⟩ := ok_of_bind h
  obtain rfl := Except.ok.inj h
  obtain ⟨u, hu, hfor⟩ := isFor_of_ofEngine hd
  exact ⟨u, hu, hfor.read, hfor.base⟩

variable {c : Client} {u : Url}

theorem ofText_url (h : c.IsFor u) (names : List String) :
    Url.ofText (c.url names) = Url.read (extended u names) := by
  rw [Url.ofText, Client.url, h.base, baseText, String.toList_ofList, String.toList_ofList]
  rfl

theorem isWeb_of_sendable (h : u.Sendable) : ∃ standard, IsWeb u.scheme standard := by
  rcases h with h | h
  · exact ⟨80, .inl ⟨h, rfl⟩⟩
  · exact ⟨443, .inr ⟨h, rfl⟩⟩

theorem target?_of_read (h : c.IsFor u) (hs : u.Sendable) {call : Call} {v : Url}
    (hv : v.scheme = u.scheme)
    (hr : Url.read (extended u call.segments) = .ok v) : c.target? call = some v := by
  have hsend : (v.scheme == "http".toList || v.scheme == "https".toList) = true := by
    rw [hv, Bool.or_eq_true, beq_iff_eq, beq_iff_eq]
    exact hs
  unfold target?
  rw [ofText_url h, hr]
  exact if_pos hsend

/-- Every call of a client for such an address can be sent, and goes to the same place. -/
theorem target?_of_sendable (h : c.IsFor u) (hs : u.Sendable) (call : Call) :
    ∃ path query fragment, c.target? call = some { u with path, query, fragment } := by
  obtain ⟨text, hu⟩ := h.read
  obtain ⟨standard, hw⟩ := isWeb_of_sendable hs
  obtain ⟨path, query, fragment, hr⟩ := read_extended hw (read_settled hu hw) call.segments
  exact ⟨path, query, fragment, target?_of_read h hs rfl hr⟩

/-- No call of any other client is sent. -/
theorem target?_of_not_sendable (h : c.IsFor u) (hs : ¬u.Sendable)
    (call : Call) : c.target? call = none := by
  obtain ⟨text, hu⟩ := h.read
  unfold target?
  split
  · next v hv =>
    rw [ofText_url h] at hv
    rw [read_extended_scheme hu hv, if_neg]
    rw [Bool.or_eq_true, beq_iff_eq, beq_iff_eq]
    exact hs
  · rfl

theorem request?_isSome_iff (h : c.IsFor u) (call : Call) :
    (c.request? call).isSome = true ↔ u.Sendable := by
  rw [request?, Option.isSome_map]
  constructor
  · intro hi
    by_contra hs
    rw [target?_of_not_sendable h hs] at hi
    contradiction
  · intro hs
    obtain ⟨path, query, fragment, ht⟩ := target?_of_sendable h hs call
    rw [ht]
    rfl

theorem exists_request (h : c.IsFor u) (hs : u.Sendable) (call : Call) :
    ∃ request, c.request? call = some request :=
  Option.isSome_iff_exists.1 ((request?_isSome_iff h call).2 hs)

theorem segments_ne_nil (call : Call) : call.segments ≠ [] := by
  cases call <;> exact List.cons_ne_nil _ _

/-- The path a call goes to when the base has neither query nor fragment: that of the base, and from
there the segments of the call. -/
theorem target?_path (h : c.IsFor u) (hs : u.Sendable) (hq : u.query = none)
    (hf : u.fragment = none) (call : Call) :
    ∃ standard, c.target? call = some { u with
      path := .rooted (resolve (.special standard) (stem u.path.segments).reverse
        (call.segments.map written)) } := by
  obtain ⟨text, hu⟩ := h.read
  obtain ⟨standard, hw⟩ := isWeb_of_sendable hs
  exact ⟨standard,
    target?_of_read h hs rfl (read_extended_path hw (read_settled hu hw) hq hf
      (segments_ne_nil call))⟩

end Client

def localUrl : Url where
  scheme := "http".toList
  host := some (.named "localhost".toList)
  port := some 9200
  path := .rooted [[]]

def localClient : Client := { base := "http://localhost:9200" }

theorem localClient_isFor : localClient.IsFor localUrl :=
  ⟨⟨"http://localhost:9200", by decide +kernel⟩, by decide +kernel⟩

end RecordSearch
