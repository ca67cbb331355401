import RecordSearch.Proofs.Engine.Creation
import RecordSearch.Proofs.Engine.Twins
import RecordSearch.Proofs.Indexer.Operations
import RecordSearch.Proofs.Text.Base64
import RecordSearch.Proofs.Text.Utf8

/-! Credentials are on every request, the same on all of them, and nothing else depends on them. -/
namespace RecordSearch
open Text

/-- A value that carries a text in base64, from where it is read back. -/
structure Http.IsBasic (value : String) (text : List Char) : Prop where
  written : value = "Basic " ++ String.ofList (Base64.encode (Utf8.encode text))
  octets : Base64.decode? (Base64.encode (Utf8.encode text)) = some (Utf8.encode text)
  read : Utf8.decode? (Utf8.encode text) = some text

theorem Http.isBasic_basicCredentials (username password : List Char) :
    IsBasic (basicCredentials username password) (username ++ ':' :: password) :=
  ⟨rfl, Base64.decode?_encode _, Utf8.decode?_encode _⟩

theorem Http.urlCredentials_eq_none {u : Url} (hn : u.username = [])
    (hp : u.password = none) : urlCredentials u = none := by
  rw [urlCredentials, hn, hp]
  rfl

def Settings.withUser (s : Settings) (username password : Option String) : Settings :=
  { s with engine := { s.engine with username, password } }

theorem Settings.validate_withUser (s : Settings) (username password : Option String) :
    (s.withUser username password).validate = s.validate := rfl

namespace Client
variable {settings : Settings} {c : Client} {u : Url}

private theorem ofEngine_withUser (e : EngineSettings) (username password : Option String) :
    ofEngine { e with username, password } =
      (ofEngine e).map fun c => { c with username, password } := by
  unfold ofEngine
  dsimp only
  cases Url.ofText e.url with
  | error fault => rfl
  | ok u => cases timeoutFault e.requestTimeout <;> rfl

/-- A client can be made for any user or for none. -/
theorem ofSettings_withUser (settings : Settings) (username password : Option String) :
    ofSettings (settings.withUser username password) =
      (ofSettings settings).map fun c => { c with username, password } := by
  unfold ofSettings Settings.withUser
  rw [ofEngine_withUser]
  cases ofEngine settings.engine <;> rfl

theorem user_of_ofSettings (h : ofSettings settings = .ok c) :
    c.username = settings.engine.username ∧ c.password = settings.engine.password := by
  have hsame := ofSettings_withUser settings settings.engine.username settings.engine.password
  have hself : settings.withUser settings.engine.username settings.engine.password = settings := rfl
  rw [hself, h] at hsame
  have hc := Except.ok.inj hsame
  exact ⟨congrArg Client.username hc, congrArg Client.password hc⟩

end Client

namespace Engine

/-- All requests of a client carry the same credentials, whatever an engine is asked for and
whatever comes back: those in the address of the endpoint if there are any, and behind them those of
the settings. Without a name these are none, even if there is a password. -/
theorem requests_carry_same_credentials {settings : Settings} {c : Client}
    (h : Client.ofSettings settings = .ok c) :
    ∃ u own, Url.ofText settings.engine.url = .ok u ∧
      (u.username = [] → u.password = none → Http.urlCredentials u = none) ∧
      (settings.engine.username = none → own = []) ∧
      (∀ name, settings.engine.username = some name → ∃ value, own = [value] ∧
        Http.IsBasic value (name.toList ++ ':' :: (settings.engine.password.getD "").toList)) ∧
      ∀ e : Engine, e.client = c → ∀ commands s,
        ∃ sent, (e.serve commands s).2.exchanges = s.exchanges ++ sent ∧
          ∀ x ∈ sent, x.request.authorization = (Http.urlCredentials u).toList ++ own := by
  obtain ⟨u, hu, hfor⟩ := Client.isFor_of_ofSettings h
  obtain ⟨hname, hpassword⟩ := Client.user_of_ofSettings h
  refine ⟨u, c.credentials, hu, Http.urlCredentials_eq_none, fun hnone => ?_,
    fun name hsome => ?_, ?_⟩
  · rw [Client.credentials, hname, hnone]
  · rw [Client.credentials, hname, hsome, hpassword]
    exact ⟨_, rfl, Http.isBasic_basicCredentials ..⟩
  · rintro e rfl commands s
    have hself : Twins _ _ e e :=
      ⟨hfor.twins e.client.username e.client.password, rfl, rfl, rfl, rfl⟩
    exact (hself.serve commands rfl).first.sent

/-- A batch of two and a request of its own, with a user in the address and another in the
settings. -/
theorem batch_carries_both_credentials :
    let settings : Settings :=
      { engine := { url := "https://ann@search/v1//", username := some "admin" } }
    let start : Session := { peer := fun _ => .answered 200 none }
    ∃ c, Client.ofSettings settings = .ok c ∧ ∃ sent,
      ((Engine.mk settings c .engine).serve
          [.update titles ["emma", "dune"], .bulk [.delete "books" "emma"]] start).2.exchanges =
        sent ∧
      sent.length = 3 ∧
      ∀ x ∈ sent, x.request.authorization = ["Basic YW5uOg==", "Basic YWRtaW46"] := by
  intro settings start
  have hread : Url.ofText settings.engine.url = .ok {
    scheme := "https".toList, username := "ann".toList, host := some (.named "search".toList)
    path := .rooted ["v1".toList, [], []] } := by decide +kernel
  have hv : settings.validate = .ok () :=
    Settings.validate_eq_ok_iff.2 ⟨⟨_, hread, by decide +kernel⟩, by decide +kernel⟩
  obtain ⟨c, hmade, hc⟩ := Client.exists_ofSettings hv (by decide +kernel)
  rw [Client.ofEngine_of_read hread (by decide +kernel), if_pos (by decide +kernel)] at hmade
  obtain rfl := Except.ok.inj hmade
  obtain ⟨u, own, hu, -, -, hown, hserve⟩ := requests_carry_same_credentials hc
  obtain rfl := Except.ok.inj (hread.symm.trans hu)
  obtain ⟨value, rfl, hvalue⟩ := hown "admin" rfl
  obtain ⟨sent, hsent, hall⟩ :=
    hserve ⟨settings, _, .engine⟩ rfl
      [.update titles ["emma", "dune"], .bulk [.delete "books" "emma"]] start
  refine ⟨_, hc, sent, hsent, ?_, fun x hx => (hall x hx).trans ?_⟩
  · have hlength := congrArg List.length hsent
    refine (hlength.symm.trans ?_)
    decide +kernel
  · rw [hvalue.written]
    decide +kernel

def life (settings : Settings) (executor : Executor) (commands : List Command) (s : Session) :
    Except Error (List Command.Outcome) × Session :=
  match (create settings).result s with
  | (.error error, t) => (.error error, t)
  | (.ok e, t) =>
    let (outcomes, u) := { e with executor }.serve commands t
    (.ok outcomes, u)

/-- With another user everything comes to the same: the results and errors, the log, what the store
and the executor are asked, and the requests as they look without their credentials. -/
theorem credentials_are_seen_by_no_one_else (settings : Settings)
    (username password : Option String) (executor : Executor) (commands : List Command)
    (s : Session) :
    (life (settings.withUser username password) executor commands s).1 =
      (life settings executor commands s).1 ∧
    (life (settings.withUser username password) executor commands s).2.veiled =
      (life settings executor commands s).2.veiled := by
  have hmade := Client.ofSettings_withUser settings username password
  cases hv : settings.validate with
  | error invalid =>
    have hv' := (settings.validate_withUser username password).trans hv
    rw [life, life, result_create_of_invalid hv, result_create_of_invalid hv']
    exact ⟨rfl, rfl⟩
  | ok _ =>
    have hv' := (settings.validate_withUser username password).trans hv
    cases hc : Client.ofSettings settings with
    | error error =>
      rw [hc] at hmade
      rw [life, life, result_create_of_error hv hc, result_create_of_error hv' hmade]
      exact ⟨rfl, rfl⟩
    | ok c =>
      rw [hc] at hmade
      obtain ⟨u, -, hfor⟩ := Client.isFor_of_ofSettings hc
      have htwins : Twins _ _ ⟨settings, c, executor⟩
          ⟨settings.withUser username password, { c with username, password }, executor⟩ :=
        ⟨hfor.twins username password, rfl, rfl, rfl, rfl⟩
      have hends :=
        htwins.serve commands (s := s.reporting .info ("Search engine configured for " ++ c.base))
          rfl
      rw [life, life, result_create hv hc, result_create hv' hmade]
      exact ⟨congrArg Except.ok hends.result.symm, hends.veiled.symm⟩

end Engine
end RecordSearch
