import RecordSearch.Proofs.Run

/-! Work done twice, in sessions that differ in nothing but the credentials of what has been
sent. -/
namespace RecordSearch

def Http.Request.veiled (r : Request) : Request := { r with authorization := [] }

def Exchange.veiled (x : Exchange) : Exchange := { x with request := x.request.veiled }

namespace Session

def veiled (s : Session) : Session := { s with exchanges := s.exchanges.map Exchange.veiled }

/-- What comes of a session while requests with these credentials are sent: the other side stays,
and so does all that has been sent. -/
structure GoesOn (credentials : List String) (s t : Session) : Prop where
  peer : t.peer = s.peer
  sent : ∃ sent, t.exchanges = s.exchanges ++ sent ∧
    ∀ x ∈ sent, x.request.authorization = credentials

variable {credentials : List String} {s t u : Session}

theorem GoesOn.of_eq (hp : t.peer = s.peer)
    (hx : t.exchanges = s.exchanges) : s.GoesOn credentials t :=
  ⟨hp, [], by rw [hx, List.append_nil], List.forall_mem_nil _⟩

theorem GoesOn.trans (h : s.GoesOn credentials t)
    (h' : t.GoesOn credentials u) : s.GoesOn credentials u := by
  obtain ⟨sent, hx, hsent⟩ := h.sent
  obtain ⟨later, hx', hlater⟩ := h'.sent
  refine ⟨h'.peer.trans h.peer, sent ++ later, by rw [hx', hx, List.append_assoc], fun x hx => ?_⟩
  exact (List.mem_append.1 hx).elim (hsent x) (hlater x)

theorem GoesOn.sending {call : Call} {request : Http.Request}
    (h : request.authorization = credentials) :
    s.GoesOn credentials (s.sending call request) :=
  ⟨rfl, [⟨call, request⟩], rfl, List.forall_mem_singleton.2 h⟩

theorem calls_veiled (s : Session) : s.veiled.calls = s.calls := by
  rw [calls, veiled, List.map_map]
  rfl

/-- Sessions that look alike have been through the same calls. -/
theorem calls_eq_of_veiled (h : s.veiled = t.veiled) : s.calls = t.calls := by
  rw [← calls_veiled s, h, calls_veiled]

theorem peer_eq_of_veiled (h : s.veiled = t.veiled) : s.peer = t.peer := by
  have hpeer : s.veiled.peer = t.veiled.peer := by rw [h]
  exact hpeer

theorem veiled_sending (s : Session) (call : Call) (request : Http.Request) :
    (s.sending call request).veiled = s.veiled.sending call request.veiled := by
  simp [veiled, Session.sending, Exchange.veiled]

end Session

structure TwinEnds {α : Type*} (a b : List String) (s t : Session) (m n : α × Session) : Prop where
  result : m.1 = n.1
  veiled : m.2.veiled = n.2.veiled
  first : s.GoesOn a m.2
  second : t.GoesOn b n.2

namespace Run
variable {α β R : Type} {a b : List String}

/-- Work that comes to the same in sessions that look alike, whichever of two credentials its
requests carry. -/
def Twins (a b : List String) (x y : Run α) : Prop :=
  ∀ s t, s.veiled = t.veiled → TwinEnds a b s t (x.result s) (y.result t)

namespace Twins

theorem pure (v : α) : Twins a b (Pure.pure v) (Pure.pure v) :=
  fun _ _ h => ⟨rfl, h, .of_eq rfl rfl, .of_eq rfl rfl⟩

theorem throw (e : Error) : Twins a b (MonadExcept.throw e : Run α) (MonadExcept.throw e) :=
  fun _ _ h => ⟨rfl, h, .of_eq rfl rfl, .of_eq rfl rfl⟩

theorem bind {x y : Run α} {f g : α → Run β} (h : Twins a b x y) (hf : ∀ v, Twins a b (f v) (g v)) :
    Twins a b (x >>= f) (y >>= g) := by
  intro s t hst
  obtain ⟨hresult, hveiled, hfirst, hsecond⟩ := h s t hst
  rcases hx : x.result s with ⟨e | v, s'⟩ <;> rcases hy : y.result t with ⟨e' | v', t'⟩ <;>
    rw [hx] at hresult hveiled hfirst <;> rw [hy] at hresult hveiled hsecond
  · obtain rfl := Except.error.inj hresult
    rw [result_bind_error hx, result_bind_error hy]
    exact ⟨rfl, hveiled, hfirst, hsecond⟩
  · contradiction
  · contradiction
  · obtain rfl := Except.ok.inj hresult
    obtain ⟨hlater, hlast, hfirst', hsecond'⟩ := hf v s' t' hveiled
    rw [result_bind_ok hx, result_bind_ok hy]
    exact ⟨hlater, hlast, hfirst.trans hfirst', hsecond.trans hsecond'⟩

/-- Work that sends nothing and does not look at credentials. -/
theorem modifyGet {f : Session → α × Session}
    (hveiled : ∀ s, f s.veiled = ((f s).1, (f s).2.veiled)) (hpeer : ∀ s, (f s).2.peer = s.peer)
    (hx : ∀ s, (f s).2.exchanges = s.exchanges) :
    Twins a b (MonadStateOf.modifyGet f : Run α) (MonadStateOf.modifyGet f) := by
  intro s t hst
  have hsame : ((f s).1, (f s).2.veiled) = ((f t).1, (f t).2.veiled) := by
    rw [← hveiled, hst, hveiled]
  obtain ⟨hresult, hafter⟩ := Prod.mk.inj hsame
  exact ⟨congrArg Except.ok hresult, hafter, .of_eq (hpeer s) (hx s), .of_eq (hpeer t) (hx t)⟩

theorem say (level : Log.Level) (message : String) :
    Twins a b (Run.say level message) (Run.say level message) :=
  modifyGet (fun _ => rfl) (fun _ => rfl) fun _ => rfl

theorem lookUp (store : RecordStore R) (ids : List String) :
    Twins a b (Run.lookUp store ids) (Run.lookUp store ids) := by
  refine bind (modifyGet (fun _ => rfl) (fun _ => rfl) fun _ => rfl) fun _ => ?_
  cases store ids with
  | ok records => exact pure records
  | error cause => exact throw _

theorem ite {p : Prop} [Decidable p] {x x' y y' : Run α} (h : Twins a b x y)
    (h' : Twins a b x' y') :
    Twins a b (if p then x else x') (if p then y else y') := by
  by_cases hp : p
  · rwa [if_pos hp, if_pos hp]
  · rwa [if_neg hp, if_neg hp]

theorem forM {xs : List α} {f g : α → Run Unit} (h : ∀ x ∈ xs, Twins a b (f x) (g x)) :
    Twins a b (xs.forM f) (xs.forM g) := by
  induction xs with
  | nil => exact pure ()
  | cons x xs ih =>
    obtain ⟨hx, hxs⟩ := List.forall_mem_cons.1 h
    exact bind hx fun _ => ih hxs

/-- One call goes out as two requests that look alike. -/
theorem exchange (call : Call) {r r' : Http.Request} (hveiled : r.veiled = r'.veiled)
    (hr : r.authorization = a) (hr' : r'.authorization = b) :
    Twins a b (Run.exchange call r) (Run.exchange call r') := by
  intro s t hst
  have hpeer : s.peer (s.calls ++ [call]) = t.peer (t.calls ++ [call]) := by
    rw [Session.peer_eq_of_veiled hst, Session.calls_eq_of_veiled hst]
  by_cases hp : s.peer (s.calls ++ [call]) = .unreachable
  · rw [result_exchange_unreachable r hp, result_exchange_unreachable r' (hpeer ▸ hp)]
    exact ⟨rfl, hst, .of_eq rfl rfl, .of_eq rfl rfl⟩
  · rw [result_exchange r hp, result_exchange r' (hpeer ▸ hp)]
    refine ⟨congrArg Except.ok hpeer, ?_, .sending hr, .sending hr'⟩
    rw [Session.veiled_sending, Session.veiled_sending, hst, hveiled]

end Twins
end Run
end RecordSearch
