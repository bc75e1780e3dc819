import SensorKit.Webapi.Forwarder

/-!
# The bound on concurrent streams

A request for a stream is checked against the number of queues in `client_queues`, and its own queue gets there only when
the generator of its response first runs. What the check does not count are the streams that are yet to begin.
-/

namespace SensorKit.Webapi

open Lib

variable {J : Type}

structure StreamConfig extends WebAPIConfig where
  maxStreamClients : ℤ := 32

/-- The service, and the requests that have passed the check and whose streams have yet to begin. -/
structure StreamService (J : Type) where
  service : WebAPI J := {}
  admitted : List Subscription := []

inductive RequestEvent (J : Type) where
  | request (subscription : Subscription)
  /-- The response to an admitted request begins: its generator runs for the first time. -/
  | begin (i : ℕ)
  /-- The client of an admitted request is gone before that. -/
  | leave (i : ℕ)
  /-- What happens to the streams that have begun. -/
  | stream (event : StreamEvent J)

/-- The size of `client_queues`. -/
def WebAPI.clientQueues (service : WebAPI J) : ℕ := service.subscribers.countP (·.registered)

namespace StreamService

variable (config : StreamConfig) (state : StreamService J)

/-- `_check_stream_capacity` lets a request through. -/
def Admits : Prop := (state.service.clientQueues : ℤ) < config.maxStreamClients

instance : Decidable (state.Admits config) := inferInstanceAs (Decidable (_ < _))

def step : RequestEvent J → Option (StreamService J)
  | .request subscription =>
    if state.Admits config then some { state with admitted := state.admitted ++ [subscription] } else some state
  | .begin i => do
    let subscription ← state.admitted[i]?
    let service ← state.service.step config.toWebAPIConfig (.join subscription)
    some { service, admitted := state.admitted.eraseIdx i }
  | .leave i =>
    if i < state.admitted.length then some { state with admitted := state.admitted.eraseIdx i } else none
  | .stream (.join _) => none
  | .stream event => (state.service.step config.toWebAPIConfig event).map fun service => { state with service }

/-- Whatever the order in which the admitted requests begin, the queues stay within the bound. -/
def Bounded : Prop :=
  ∀ n after, exec (step config) state (List.replicate n (.begin 0)) = some after →
    (after.service.clientQueues : ℤ) ≤ config.maxStreamClients

/-- A request that comes while fewer queues are registered and no stream is being set up is admitted. -/
def Open : Prop :=
  ∀ subscription, (state.service.clientQueues : ℤ) < config.maxStreamClients → state.admitted = [] →
    state.step config (.request subscription) = some { state with admitted := [subscription] }

/-- A request fits: if it passes the check, there is room for it beside the streams that have yet to begin. -/
def Fits : RequestEvent J → Prop
  | .request _ => state.Admits config →
    (state.service.clientQueues + state.admitted.length : ℤ) < config.maxStreamClients
  | _ => True

end StreamService

variable {config : StreamConfig} {base : WebAPIConfig} {state after : StreamService J} {service service' : WebAPI J}
  {event : StreamEvent J} {sub sub' : Subscriber J}

/-! ## Streams that have begun -/

theorem registered_broadcast {update : Forwarder × SKRecord J} (there : (sub.broadcast base update).registered = true) :
    sub.registered = true := by
  unfold Subscriber.broadcast at there
  split at there
  · assumption
  · exact there

theorem registered_shutdown (there : (sub.shutdown base).registered = true) : sub.registered = true := by
  unfold Subscriber.shutdown at there
  split at there
  · assumption
  · exact there

theorem registered_next (step : sub.next = some sub') (there : sub'.registered = true) : sub.registered = true := by
  unfold Subscriber.next at step
  split at step
  · cases step
    exact there
  · split at step <;> obtain rfl := Option.some.inj step <;> exact there
  · cases step
    cases there
  · cases step

theorem registered_disconnect (step : sub.disconnect = some sub') (there : sub'.registered = true) :
    sub.registered = true := by
  unfold Subscriber.disconnect at step
  split at step
  · cases step
    cases there
  · cases step

theorem clientQueues_map {f : Subscriber J → Subscriber J} (kept : ∀ sub, (f sub).registered = true → sub.registered = true)
    (subscribers : List (Subscriber J)) :
    (subscribers.map f).countP (·.registered) ≤ subscribers.countP (·.registered) := by
  rw [List.countP_map]
  exact List.countP_mono_left fun sub _ there => kept sub there

theorem clientQueues_set {i : ℕ} {subscribers : List (Subscriber J)} (found : subscribers[i]? = some sub)
    (kept : sub'.registered = true → sub.registered = true) :
    (subscribers.set i sub').countP (·.registered) ≤ subscribers.countP (·.registered) := by
  obtain ⟨bound, at_⟩ := List.getElem?_eq_some_iff.1 found
  have here := List.boole_getElem_le_countP (p := (·.registered)) bound
  rw [List.countP_set bound]
  rw [at_] at here ⊢
  by_cases there : sub'.registered = true
  · rw [if_pos there]
    rw [if_pos (kept there)] at here ⊢
    omega
  · rw [if_neg there]
    omega

/-- What happens to the streams that have begun registers no queue. -/
theorem clientQueues_step (other : ∀ subscription, event ≠ .join subscription)
    (step : service.step base event = some service') : service'.clientQueues ≤ service.clientQueues := by
  cases event with
  | update source entity prop payload =>
    simp only [WebAPI.step] at step
    split at step
    · cases step
      exact clientQueues_map (fun _ => registered_broadcast) _
    · cases step
  | join subscription => exact absurd rfl (other subscription)
  | next i =>
    obtain ⟨sub, found, step⟩ := Option.bind_eq_some_iff.1 step
    obtain ⟨sub', next, step⟩ := Option.bind_eq_some_iff.1 step
    cases step
    exact clientQueues_set found (registered_next next)
  | disconnect i =>
    obtain ⟨sub, found, step⟩ := Option.bind_eq_some_iff.1 step
    obtain ⟨sub', disconnect, step⟩ := Option.bind_eq_some_iff.1 step
    cases step
    exact clientQueues_set found (registered_disconnect disconnect)
  | shutdown =>
    cases step
    exact clientQueues_map (fun _ => registered_shutdown) _

/-! ## Streams that are yet to begin -/

namespace StreamService

/-- There is room for every stream that is yet to begin. -/
def Fitting (config : StreamConfig) (state : StreamService J) : Prop :=
  (state.service.clientQueues + state.admitted.length : ℤ) ≤ config.maxStreamClients

/-- A stream that begins registers its queue. -/
theorem begin_eq {i : ℕ} (began : state.step config (.begin i) = some after) :
    i < state.admitted.length ∧ after.service.clientQueues = state.service.clientQueues + 1 ∧
      after.admitted = state.admitted.eraseIdx i := by
  obtain ⟨subscription, found, began⟩ := Option.bind_eq_some_iff.1 began
  obtain ⟨service, joined, began⟩ := Option.bind_eq_some_iff.1 began
  cases began
  cases joined
  refine ⟨(List.getElem?_eq_some_iff.1 found).1, ?_, rfl⟩
  exact List.countP_append

theorem Fitting.step {event : RequestEvent J} (fitting : state.Fitting config) (fits : state.Fits config event)
    (stepped : state.step config event = some after) : after.Fitting config := by
  unfold Fitting at fitting ⊢
  cases event with
  | request subscription =>
    unfold StreamService.step at stepped
    dsimp only at stepped
    split at stepped
    · rename_i admits
      cases stepped
      have room := fits admits
      simp only [List.length_append, List.length_singleton]
      omega
    · cases stepped
      exact fitting
  | begin i =>
    obtain ⟨bound, queues, rest⟩ := begin_eq stepped
    rw [queues, rest, List.length_eraseIdx_of_lt bound]
    omega
  | leave i =>
    unfold StreamService.step at stepped
    dsimp only at stepped
    split at stepped
    · rename_i bound
      cases stepped
      dsimp only
      rw [List.length_eraseIdx_of_lt bound]
      omega
    · cases stepped
  | stream event =>
    have other : ∀ subscription, event ≠ .join subscription := by
      rintro subscription rfl
      cases stepped
    have through : (state.service.step config.toWebAPIConfig event).map (fun service => { state with service }) =
        some after := by
      cases event with
      | join subscription => cases stepped
      | _ => exact stepped
    obtain ⟨service, served, rfl⟩ := Option.map_eq_some_iff.1 through
    have fewer := clientQueues_step other served
    dsimp only
    omega

theorem Fitting.bounded (fitting : state.Fitting config) : state.Bounded config := by
  intro n after run
  have along : okAlong (StreamService.step config) (Fits config) state (List.replicate n (.begin 0)) := by
    apply okAlong_of_forall
    intro event mem state
    rw [List.eq_of_mem_replicate mem]
    trivial
  have kept : after.Fitting config := exec_invariant run along fitting fun _ _ _ fitting fits stepped => fitting.step fits stepped
  unfold Fitting at kept
  omega

/-- All the admitted requests can begin. -/
theorem exists_begun (config : StreamConfig) (state : StreamService J) : ∃ after,
    exec (StreamService.step config) state (List.replicate state.admitted.length (.begin 0)) = some after ∧
      after.service.clientQueues = state.service.clientQueues + state.admitted.length := by
  induction admitted : state.admitted generalizing state with
  | nil => exact ⟨state, rfl, rfl⟩
  | cons subscription rest ih =>
    have began : ∃ next, state.step config (.begin 0) = some next := by
      unfold StreamService.step
      dsimp only
      rw [admitted]
      exact ⟨_, rfl⟩
    obtain ⟨next, began⟩ := began
    obtain ⟨-, queues, left⟩ := begin_eq began
    rw [admitted] at left
    obtain ⟨after, run, all⟩ := ih next left
    refine ⟨after, exec_cons_eq_some.2 ⟨next, began, run⟩, ?_⟩
    rw [all, queues, List.length_cons]
    omega

/-- Along every run, the queues stay within the bound whatever the order in which admitted requests begin, and requests for
which there is room are admitted, just if every request that passes the check fits. -/
theorem capacity_iff (config : StreamConfig) (events : List (RequestEvent J)) :
    (∀ pre state, pre <+: events → exec (StreamService.step config) {} pre = some state →
      state.Bounded config ∧ state.Open config) ↔
    0 ≤ config.maxStreamClients ∧ okAlong (StreamService.step config) (Fits config) {} events := by
  constructor
  · intro bounded
    constructor
    · exact (bounded [] {} (List.nil_prefix) rfl).1 0 {} rfl
    · rw [okAlong_iff]
      rintro pre event post state rfl run
      cases event with
      | request subscription =>
        intro admits
        have requested : state.step config (.request subscription) =
            some { state with admitted := state.admitted ++ [subscription] } := if_pos admits
        have reached : exec (StreamService.step config) {} (pre ++ [.request subscription]) =
            some { state with admitted := state.admitted ++ [subscription] } := by
          rw [exec_append, run, Option.bind_some]
          exact exec_cons_eq_some.2 ⟨_, requested, rfl⟩
        have prefix_ : pre ++ [.request subscription] <+: pre ++ .request subscription :: post :=
          ⟨post, List.append_assoc _ _ _⟩
        obtain ⟨after, begun, all⟩ := exists_begun config { state with admitted := state.admitted ++ [subscription] }
        have within := (bounded _ _ prefix_ reached).1 _ _ begun
        rw [all] at within
        simp only [List.length_append, List.length_singleton] at within
        omega
      | _ => trivial
  · rintro ⟨positive, fits⟩ pre state ⟨post, rfl⟩ run
    have along : okAlong (StreamService.step config) (Fits config) {} pre := by
      rw [okAlong_iff] at fits ⊢
      rintro before event later reached rfl run
      exact fits before event (later ++ post) reached (List.append_assoc _ _ _) run
    have fitting : state.Fitting config :=
      exec_invariant run along positive fun _ _ _ fitting fits stepped => fitting.step fits stepped
    refine ⟨fitting.bounded, fun subscription admits none => ?_⟩
    have requested : state.step config (.request subscription) =
        some { state with admitted := state.admitted ++ [subscription] } := if_pos admits
    rw [requested, none]
    rfl

/-- Two requests for the one place that there is, both checked before either stream begins. -/
theorem two_for_one_place : ∃ after, exec (StreamService.step { maxStreamClients := 1 }) ({} : StreamService Unit)
    [.request .firehose, .request .firehose, .begin 0, .begin 0] = some after ∧
      ¬(after.service.clientQueues : ℤ) ≤ ({ maxStreamClients := 1 } : StreamConfig).maxStreamClients :=
  ⟨_, rfl, by decide⟩

end StreamService

end SensorKit.Webapi
