import RecordSearch.Proofs.Json.Decode
import RecordSearch.Settings.Codec

/-! Settings are read back from their written form, and what is left out of it takes its default. -/
namespace RecordSearch
open Json

def Json.Value.without (removed : String → Bool) : Value → Value
  | .obj members => .obj (members.filter fun e => !removed e.1)
  | v => v

theorem Json.Value.without_nothing (v : Value) : v.without (fun _ => false) = v := by
  cases v with
  | obj members => exact congrArg obj (List.filter_eq_self.2 fun _ _ => rfl)
  | null => rfl
  | bool b => rfl
  | num n => rfl
  | str s => rfl
  | arr items => rfl

section Removed
variable {α σ : Type} {step : σ → String → Decoder σ} {origin : Tree.Origin}
  {removed : String → Bool} {name : String} {v : Value} {x : α}

/-- A member that may be removed is read as it was, and as absent where it is removed. `set` puts it
in its place in the draft. -/
private theorem memberwise_without (set : Option α → σ)
    (h : step (set none) name ⟨.ofValue v, origin⟩ = .ok (set (some x)))
    (rest : List (String × Value)) :
    Decode.memberwise step origin (set none)
      (Tree.ofMembers (((name, v) :: rest).filter fun e => !removed e.1)) =
      Decode.memberwise step origin (set (if removed name then none else some x))
        (Tree.ofMembers (rest.filter fun e => !removed e.1)) := by
  rw [List.filter_cons]
  cases removed name with
  | true => rfl
  | false => exact Decode.memberwise_cons h _

private theorem getD_removed (c : Bool) (x d : α) :
    (if c then none else some x).getD d = if c then d else x := by
  cases c <;> rfl

end Removed

namespace EngineSettings

def reset (removed : String → Bool) (e : EngineSettings) : EngineSettings :=
  let start : EngineSettings := {}
  { url := if removed "url" then start.url else e.url
    username := if removed "username" then start.username else e.username
    password := if removed "password" then start.password else e.password
    requestTimeout := if removed "request_timeout" then start.requestTimeout else e.requestTimeout
    verifySsl := if removed "verify_ssl" then start.verifySsl else e.verifySsl }

theorem decode_without {e : EngineSettings} (h : e.requestTimeout.isFinite = true)
    (removed : String → Bool) :
    decode ⟨.ofValue (e.toValue.without removed), .value⟩ = .ok (e.reset removed) := by
  have hpassword : member {} "password" ⟨.ofValue (Value.orNull .str e.password), .value⟩ =
      .ok { password := some e.password } := by
    cases e.password <;> rfl
  have htimeout (a : Option (Option String)) :
      member { password := a } "request_timeout" ⟨.ofValue (.double e.requestTimeout), .value⟩ =
        .ok { password := a, requestTimeout := some e.requestTimeout } := by
    change (do
        return {
          password := a, requestTimeout := some (← Decode.once none Decode.double _) : Draft }) = _
    rw [Decode.once, Decode.double_double h]
    rfl
  have husername (a : Option (Option String)) (b : Option Float) (c : Option String) :
      member { password := a, requestTimeout := b, url := c } "username"
        ⟨.ofValue (Value.orNull .str e.username), .value⟩ =
        .ok { password := a, requestTimeout := b, url := c, username := some e.username } := by
    cases e.username <;> rfl
  unfold decode
  rw [toValue, Value.without, Decode.record_ofValue,
    memberwise_without (fun x => ({ password := x } : Draft)) hpassword,
    memberwise_without (fun x => ({ password := _, requestTimeout := x } : Draft)) (htimeout _),
    memberwise_without (fun x => ({ password := _, requestTimeout := _, url := x } : Draft)) rfl,
    memberwise_without
      (fun x => ({ password := _, requestTimeout := _, url := _, username := x } : Draft))
      (husername _ _ _),
    memberwise_without
      (fun x => ({
        password := _, requestTimeout := _, url := _, username := _, verifySsl := x } : Draft)) rfl,
    List.filter_nil, Decode.memberwise_nil]
  refine congrArg Except.ok ?_
  simp only [Draft.finish, reset, getD_removed]

end EngineSettings

namespace Query.Policy

def reset (removed : String → Bool) (p : Policy) : Policy :=
  let start : Policy := {}
  { operator := if removed "default_operator" then start.operator else p.operator
    filterContext := if removed "filter_context" then start.filterContext else p.filterContext
    pageSize := if removed "default_page_size" then start.pageSize else p.pageSize }

theorem decode_without (p : Policy) (removed : String → Bool) :
    decode ⟨.ofValue (p.toValue.without removed), .value⟩ = .ok (p.reset removed) := by
  have hoperator : member {} "default_operator" ⟨.ofValue (.str p.operator.name), .value⟩ =
      .ok { operator := some p.operator } := by
    cases p.operator <;> rfl
  have hsize (a : Option TextOperator) :
      member { operator := a } "default_page_size" ⟨.ofValue (.nat p.pageSize), .value⟩ =
        .ok { operator := a, pageSize := some p.pageSize } := by
    change (do
        return { operator := a, pageSize := some (← Decode.once none Decode.word32 _) : Draft }) = _
    rw [Decode.once, Decode.word32_nat]
    rfl
  have hcontext (a : Option TextOperator) (b : Option UInt32) :
      member { operator := a, pageSize := b } "filter_context"
        ⟨.ofValue (.str p.filterContext.name), .value⟩ =
        .ok { operator := a, pageSize := b, filterContext := some p.filterContext } := by
    cases p.filterContext <;> rfl
  unfold decode
  rw [toValue, Value.without, Decode.record_ofValue,
    memberwise_without (fun x => ({ operator := x } : Draft)) hoperator,
    memberwise_without (fun x => ({ operator := _, pageSize := x } : Draft)) (hsize _),
    memberwise_without (fun x => ({ operator := _, pageSize := _, filterContext := x } : Draft))
      (hcontext _ _),
    List.filter_nil, Decode.memberwise_nil]
  refine congrArg Except.ok ?_
  simp only [Draft.finish, reset, getD_removed]

end Query.Policy

namespace Settings

/-- The indexing section, which has one member. -/
private theorem decodeIndexing_without (bulk : Bool) (removed : String → Bool) :
    decodeIndexing ⟨.ofValue ((Value.obj [("bulk", .bool bulk)]).without removed), .value⟩ =
      .ok (if removed "bulk" then ({} : Settings).bulk else bulk) := by
  unfold decodeIndexing
  rw [Value.without, Decode.record_ofValue, memberwise_without (fun x => x) rfl, List.filter_nil,
    Decode.memberwise_nil]
  exact congrArg Except.ok (getD_removed _ bulk false)

def Canonical (s : Settings) : Prop := ∀ e ∈ s.mappings.entries, e.2.Canonical

/-- Members that are left out of written settings: whole ones, and such of the three sections. -/
structure Omission where
  whole : String → Bool
  engine : String → Bool
  query : String → Bool
  indexing : String → Bool

namespace Omission
variable (o : Omission)

def inside (name : String) : String → Bool :=
  match name with
  | "engine" => o.engine
  | "query" => o.query
  | "indexing" => o.indexing
  | _ => fun _ => false

def prune : Value → Value
  | .obj members =>
    (Value.obj (members.map fun e => (e.1, e.2.without (o.inside e.1)))).without o.whole
  | v => v

def reset (s : Settings) : Settings :=
  let start : Settings := {}
  { engine := if o.whole "engine" then start.engine else s.engine.reset o.engine
    mappings := if o.whole "mappings" then start.mappings else s.mappings
    softDelete := if o.whole "soft_delete" then start.softDelete else s.softDelete
    query := if o.whole "query" then start.query else s.query.reset o.query
    bulk := if o.whole "indexing" then start.bulk
      else if o.indexing "bulk" then start.bulk else s.bulk }

def nothing : Omission := ⟨fun _ => false, fun _ => false, fun _ => false, fun _ => false⟩

theorem prune_nothing (v : Value) : nothing.prune v = v := by
  cases v with
  | obj members =>
    have hmember : (fun e : String × Value => (e.1, e.2.without (nothing.inside e.1))) = id := by
      funext e
      have hinside : nothing.inside e.1 = fun _ => false := by
        unfold inside
        split <;> rfl
      rw [hinside, Value.without_nothing]
      rfl
    rw [prune, hmember, List.map_id]
    exact Value.without_nothing _
  | null => rfl
  | bool b => rfl
  | num n => rfl
  | str s => rfl
  | arr items => rfl

theorem reset_nothing (s : Settings) : nothing.reset s = s := rfl

private theorem prune_toValue (s : Settings) : o.prune s.toValue = (Value.obj [
    ("engine", s.engine.toValue.without o.engine),
    ("indexing", (Value.obj [("bulk", .bool s.bulk)]).without o.indexing),
    ("mappings", (Value.ofMap s.mappings).without fun _ => false),
    ("query", s.query.toValue.without o.query),
    ("soft_delete", .bool s.softDelete)]).without o.whole := rfl

/-- What is left out of written settings is read as it is by default, and all else as it was. -/
theorem decode_prune {s : Settings} (hc : s.Canonical)
    (h : s.engine.requestTimeout.isFinite = true) :
    decodeValue Settings.decode (o.prune s.toValue) = .ok (o.reset s) := by
  have hengine : member {} "engine" ⟨.ofValue (s.engine.toValue.without o.engine), .value⟩ =
      .ok { engine := some (s.engine.reset o.engine) } := by
    change (do return { engine := some (← Decode.once none EngineSettings.decode _) : Draft }) = _
    rw [Decode.once, EngineSettings.decode_without h]
    rfl
  have hindexing (a : Option EngineSettings) :
      member { engine := a } "indexing"
        ⟨.ofValue ((Value.obj [("bulk", .bool s.bulk)]).without o.indexing), .value⟩ =
        .ok {
          engine := a
          bulk := some (if o.indexing "bulk" then ({} : Settings).bulk else s.bulk) } := by
    change (do
        return { engine := a, bulk := some (← Decode.once none decodeIndexing _) : Draft }) = _
    rw [Decode.once, decodeIndexing_without]
    rfl
  have hmappings (a : Option EngineSettings) (b : Option Bool) :
      member { engine := a, bulk := b } "mappings"
        ⟨.ofValue ((Value.ofMap s.mappings).without fun _ => false), .value⟩ =
        .ok { engine := a, bulk := b, mappings := some s.mappings } := by
    have hread : Decode.table Decode.free ⟨.ofValue (.ofMap s.mappings), .value⟩ =
        .ok (s.mappings.map id) :=
      Decode.table_ofMap rfl fun e he => Decode.free_ofValue (hc e he)
    change (do
        return {
          engine := a, bulk := b,
          mappings := some (← Decode.once none (Decode.table Decode.free) _) : Draft }) = _
    rw [Decode.once, Value.without_nothing, hread, KeyMap.map_eq_self_iff.2 fun _ _ => rfl]
    rfl
  have hquery (a : Option EngineSettings) (b : Option Bool) (m : Option (KeyMap Value)) :
      member { engine := a, bulk := b, mappings := m } "query"
        ⟨.ofValue (s.query.toValue.without o.query), .value⟩ =
        .ok { engine := a, bulk := b, mappings := m, query := some (s.query.reset o.query) } := by
    change (do
        return {
          engine := a, bulk := b, mappings := m,
          query := some (← Decode.once none Query.Policy.decode _) : Draft }) = _
    rw [Decode.once, Query.Policy.decode_without]
    rfl
  unfold decodeValue Settings.decode
  rw [prune_toValue, Value.without, Decode.record_ofValue,
    memberwise_without (fun x => ({ engine := x } : Draft)) hengine,
    memberwise_without (fun x => ({ engine := _, bulk := x } : Draft)) (hindexing _),
    memberwise_without (fun x => ({ engine := _, bulk := _, mappings := x } : Draft))
      (hmappings _ _),
    memberwise_without (fun x => ({ engine := _, bulk := _, mappings := _, query := x } : Draft))
      (hquery _ _ _),
    memberwise_without
      (fun x => ({ engine := _, bulk := _, mappings := _, query := _, softDelete := x } : Draft))
      rfl,
    List.filter_nil, Decode.memberwise_nil]
  refine congrArg Except.ok ?_
  simp only [Draft.finish, reset, getD_removed]

end Omission
def engineField? (t : Tree) (name : String) : Option Tree :=
  (t.field? ["engine", "mappings", "soft_delete", "query", "indexing"] "engine").bind
    (·.field? ["url", "username", "password", "request_timeout", "verify_ssl"] name)

section Unmentioned

private theorem engine_member {d e : Draft} {c : Cursor} (h : member d "engine" c = .ok e) :
    ∃ x, Decode.once d.engine EngineSettings.decode c = .ok x ∧ e.engine = some x :=
  Decode.of_member (fun _ => rfl) h

private theorem engine_other {d e : Draft} {name : String} {c : Cursor} (hne : name ≠ "engine")
    (h : member d name c = .ok e) :
    e.engine = d.engine := by
  unfold member at h
  split at h
  case h_1 => contradiction
  all_goals exact Decode.of_other h fun _ => rfl

variable {d e : EngineSettings.Draft} {name : String} {c : Cursor}

private theorem timeout_member (h : EngineSettings.member d "request_timeout" c = .ok e) :
    ∃ x, Decode.once d.requestTimeout Decode.double c = .ok x ∧ e.requestTimeout = some x :=
  Decode.of_member (fun _ => rfl) h

private theorem timeout_other (hne : name ≠ "request_timeout")
    (h : EngineSettings.member d name c = .ok e) :
    e.requestTimeout = d.requestTimeout := by
  unfold EngineSettings.member at h
  split at h
  case h_4 => contradiction
  all_goals exact Decode.of_other h fun _ => rfl

private theorem verify_member (h : EngineSettings.member d "verify_ssl" c = .ok e) :
    ∃ x, Decode.once d.verifySsl Decode.flag c = .ok x ∧ e.verifySsl = some x :=
  Decode.of_member (fun _ => rfl) h

private theorem verify_other (hne : name ≠ "verify_ssl")
    (h : EngineSettings.member d name c = .ok e) : e.verifySsl = d.verifySsl := by
  unfold EngineSettings.member at h
  split at h
  case h_5 => contradiction
  all_goals exact Decode.of_other h fun _ => rfl

/-- What the engine section does not mention is as it is by default. -/
theorem unmentioned_of_decode {s : Settings} (h : Settings.decode c = .ok s) :
    (engineField? c.tree "request_timeout" = none → s.engine.requestTimeout = 5.0) ∧
      (engineField? c.tree "verify_ssl" = none → s.engine.verifySsl = true) := by
  obtain ⟨d, hd, rfl⟩ := ok_of_map h
  obtain ⟨inner, -, hengine⟩ :=
    Decode.record_field Draft.engine (fun _ _ _ => engine_member)
      (fun _ _ _ _ => engine_other) rfl hd
  unfold engineField?
  change (_ → (d.engine.getD {}).requestTimeout = 5.0) ∧ (_ → (d.engine.getD {}).verifySsl = true)
  generalize c.tree.field? _ "engine" = t at hengine ⊢
  generalize d.engine = e at hengine ⊢
  cases hengine with
  | absent => exact ⟨fun _ => rfl, fun _ => rfl⟩
  | given hread =>
    obtain ⟨d, hd, rfl⟩ := ok_of_map hread
    constructor
    · intro hnone
      obtain ⟨_, -, htimeout⟩ :=
        Decode.record_field EngineSettings.Draft.requestTimeout (fun _ _ _ => timeout_member)
          (fun _ _ _ _ => timeout_other) rfl hd
      rw [Option.bind_some] at hnone
      rw [hnone] at htimeout
      exact congrArg (Option.getD · 5.0) htimeout.of_none
    · intro hnone
      obtain ⟨_, -, hverify⟩ :=
        Decode.record_field EngineSettings.Draft.verifySsl (fun _ _ _ => verify_member)
          (fun _ _ _ _ => verify_other) rfl hd
      rw [Option.bind_some] at hnone
      rw [hnone] at hverify
      exact congrArg (Option.getD · true) hverify.of_none

end Unmentioned

/-- Settings are read back from their written form. Of a part of it just what is left out is as it
is by default, and all else as it was; and no part of an engine section, whatever it stands in,
touches a timeout or a check of certificates that it does not mention. -/
theorem partial_settings_overlay_defaults :
    (∀ s : Settings, s.Canonical → s.engine.requestTimeout.isFinite = true →
      decodeValue Settings.decode s.toValue = .ok s ∧
      ∀ o : Omission, decodeValue Settings.decode (o.prune s.toValue) = .ok (o.reset s)) ∧
      ∀ c s, Settings.decode c = .ok s →
        (engineField? c.tree "request_timeout" = none → s.engine.requestTimeout = 5.0) ∧
          (engineField? c.tree "verify_ssl" = none → s.engine.verifySsl = true) := by
  refine ⟨fun s hc h => ⟨?_, fun o => o.decode_prune hc h⟩, fun c s => unmentioned_of_decode⟩
  have hread := Omission.nothing.decode_prune hc h
  rwa [Omission.prune_nothing, Omission.reset_nothing] at hread

def remote : Settings where
  engine := {
    url := "https://search:9200", username := some "scout", password := some "secret",
    requestTimeout := 2.5, verifySsl := false }
  mappings := .ofList [("books", .obj [("dynamic", .bool false)])]
  softDelete := true
  query := { operator := .and, filterContext := .must, pageSize := 25 }
  bulk := true

/-- With only an address in the engine section, certificates are checked again. -/
theorem engine_section_of_url :
    let o : Omission := ⟨(· == "query"), (· != "url"), fun _ => false, fun _ => false⟩
    let part :=
      Value.obj [("engine", .obj [("url", .str "https://search:9200")]),
        ("indexing", .obj [("bulk", .bool true)]),
        ("mappings", .obj [("books", .obj [("dynamic", .bool false)])]),
        ("soft_delete", .bool true)]
    decodeValue Settings.decode remote.toValue = .ok remote ∧ o.prune remote.toValue = part ∧
    ∃ s, decodeValue Settings.decode part = .ok s ∧
      s = { remote with engine := { url := "https://search:9200" }, query := {} } ∧
      s.engine.requestTimeout = 5.0 ∧ s.engine.verifySsl = true := by
  intro o part
  have hcanonical : remote.Canonical :=
    List.forall_mem_singleton.2 ⟨List.pairwise_singleton _ _, trivial, trivial⟩
  have hfinite : remote.engine.requestTimeout.isFinite = true := by decide +kernel
  obtain ⟨hwritten, hread⟩ := partial_settings_overlay_defaults
  obtain ⟨hwhole, hpart⟩ := hwritten remote hcanonical hfinite
  have hprune : o.prune remote.toValue = part := rfl
  have hdecode := hprune ▸ hpart o
  obtain ⟨htimeout, hverify⟩ := hread _ _ hdecode
  exact ⟨hwhole, hprune, _, hdecode, rfl, htimeout rfl, hverify rfl⟩

end Settings
end RecordSearch
