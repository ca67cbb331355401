import RecordSearch.Engine
import RecordSearch.Proofs.Run
import RecordSearch.Proofs.Settings.Discovery
import RecordSearch.Proofs.Settings.Validity

/-! Which settings an engine can be made with. -/
namespace RecordSearch.Engine
variable {settings : Settings} {c : Client}

theorem result_create_of_invalid {invalid : Settings.Invalid}
    (h : settings.validate = .error invalid) (s : Session) :
    (create settings).result s = (.error (.config invalid.message), s) := by
  rw [create, h]
  rfl

theorem result_create_of_error {error : Error} (hv : settings.validate = .ok ())
    (hc : Client.ofSettings settings = .error error) (s : Session) :
    (create settings).result s = (.error error, s) := by
  rw [create, hv, hc]
  rfl

theorem result_create (hv : settings.validate = .ok ()) (hc : Client.ofSettings settings = .ok c)
    (s : Session) :
    (create settings).result s =
      (.ok ⟨settings, c, .engine⟩,
        s.reporting .info ("Search engine configured for " ++ c.base)) := by
  rw [create, hv, hc]
  rfl

/-- Settings that are not valid make no engine, and the error is the sentence of the validation.
Valid ones make a client and an engine exactly if their timeout is shorter than 2^64 seconds; a
longer one is an error of both that names it. Discovered settings are valid. -/
theorem create_by_validity (settings : Settings) (s : Session) :
    (∀ invalid, settings.validate = .error invalid →
      (create settings).result s = (.error (.config invalid.message), s)) ∧
    (settings.validate = .ok () →
      (settings.engine.requestTimeout < 18446744073709551616 →
        ∃ c, Client.ofEngine settings.engine = .ok c ∧
          ((create settings).result s).1 =
            .ok ⟨settings, { c with mappings := settings.mappings }, .engine⟩) ∧
      (¬settings.engine.requestTimeout < 18446744073709551616 →
        let error :=
          Error.config ("invalid request_timeout " ++
            Settings.secondsText settings.engine.requestTimeout ++
            ": cannot convert float seconds to Duration: value is either too big or NaN")
        Client.ofEngine settings.engine = .error error ∧
        (create settings).result s = (.error error, s))) ∧
    ∀ w, Settings.discover w = .ok settings → settings.validate = .ok () := by
  refine ⟨fun invalid h => result_create_of_invalid h s, fun hv => ?_,
    fun w h => (Settings.of_discover h).1⟩
  constructor
  · intro hshort
    obtain ⟨c, hmade, hc⟩ := Client.exists_ofSettings hv hshort
    exact ⟨c, hmade, by rw [result_create hv hc]⟩
  · intro hlong error
    obtain ⟨⟨u, hu, -⟩, -, hpos⟩ := Settings.validate_eq_ok_iff.1 hv
    have herror := Client.ofEngine_of_read hu hpos
    rw [if_neg hlong] at herror
    exact ⟨herror, result_create_of_error hv (by rw [Client.ofSettings, herror]; rfl) s⟩

def endlessWait : Settings.Surroundings where
  env _ := none
  entry path :=
    if path = "opensearch.yml" then .file "engine:\n  request_timeout: 1e20\n".toUTF8.data.toList
    else .missing
  userDirectory := none

private theorem discover_endlessWait : ∃ settings, Settings.discover endlessWait = .ok settings ∧
    ¬settings.engine.requestTimeout < 18446744073709551616 ∧
    Settings.secondsText settings.engine.requestTimeout = "100000000000000000000" := by
  have hfound : (Settings.discover endlessWait).toOption.map (fun s =>
      (decide (s.engine.requestTimeout < 18446744073709551616),
        Settings.secondsText s.engine.requestTimeout)) =
      some (false, "100000000000000000000") := by decide +kernel
  cases hd : Settings.discover endlessWait with
  | error fault =>
    rw [hd] at hfound
    contradiction
  | ok settings =>
    rw [hd] at hfound
    obtain ⟨hlong, htext⟩ := Prod.mk.inj (Option.some.inj hfound)
    exact ⟨settings, rfl, of_decide_eq_false hlong, htext⟩

/-- Settings are discovered and valid, and yet neither a client nor an engine can be made with
them. -/
theorem endless_wait_makes_no_engine :
    ∃ settings, Settings.discover endlessWait = .ok settings ∧ settings.validate = .ok () ∧
    (¬∃ c, Client.ofEngine settings.engine = .ok c) ∧
    ((create settings).result { peer := .unreachable }).1 =
      .error (.config ("invalid request_timeout 100000000000000000000: " ++
        "cannot convert float seconds to Duration: value is either too big or NaN")) := by
  obtain ⟨settings, hd, hlong, htext⟩ := discover_endlessWait
  have hv := (Settings.of_discover hd).1
  obtain ⟨⟨u, hu, -⟩, -, htimeout⟩ := Settings.validate_eq_ok_iff.1 hv
  have herror := Client.ofEngine_of_read hu htimeout
  rw [if_neg hlong, htext] at herror
  refine ⟨settings, hd, hv, (fun ⟨c, hc⟩ => nomatch herror.symm.trans hc), ?_⟩
  rw [result_create_of_error hv (by rw [Client.ofSettings, herror]; rfl)]
  rfl

/-- The defaults make an engine. A negative timeout and an endless one do not, for two different
reasons. -/
theorem timeouts_decide_creation :
    let start : Session := { peer := .unreachable }
    (∃ e, ((create {}).result start).1 = .ok e) ∧
    ((create { engine := { requestTimeout := -1 } }).result start).1 =
      .error (.config "request_timeout must be a positive number of seconds, got -1") ∧
    ∃ settings, Settings.discover endlessWait = .ok settings ∧
      ((create settings).result start).1 =
        .error (.config ("invalid request_timeout 100000000000000000000: " ++
          "cannot convert float seconds to Duration: value is either too big or NaN")) := by
  intro start
  refine ⟨?_, ?_, ?_⟩
  · obtain ⟨c, -, hc⟩ :=
      ((create_by_validity {} start).2.1 Settings.validate_default).1 (by decide +kernel)
    exact ⟨_, hc⟩
  · have hmessage :
        (Settings.validate { engine := { requestTimeout := -1 } }).mapError
          Settings.Invalid.message =
          .error "request_timeout must be a positive number of seconds, got -1" := by decide +kernel
    cases hv : Settings.validate { engine := { requestTimeout := -1 } } with
    | ok _ =>
      rw [hv] at hmessage
      contradiction
    | error invalid =>
      rw [hv] at hmessage
      rw [(create_by_validity _ start).1 invalid hv, Except.error.inj hmessage]
  · obtain ⟨settings, hd, hlong, htext⟩ := discover_endlessWait
    obtain ⟨-, hcreate⟩ :=
      ((create_by_validity settings start).2.1 ((create_by_validity settings start).2.2 _ hd)).2
        hlong
    rw [htext] at hcreate
    exact ⟨settings, hd, congrArg Prod.fst hcreate⟩

end RecordSearch.Engine
