/-
`handleMessage` one await at a time: what the runner does next once the hook it has called settles.
Driven by the outcomes of a participant's hooks these steps are `runWithRetry`.
-/
import SagaProofs.Core.Routing
import SagaProofs.Core.Retry

namespace Saga

variable {ρ ε : Type}

/-! ## Phases -/

/-- What a message makes the runner call: the plain handler, or the saga handler, `onFail` with an
error of it, and `onRetryExhausted`. -/
inductive Hook (ρ ε : Type)
  | plain
  | handler
  | onFail (error : ε)
  | onRetryExhausted (error : ρ)

/-- Which of the optional hooks a participant has. -/
structure Hooks where
  onFail : Bool
  onRetryExhausted : Bool

/-- Where the handling of a message stands: a hook has been called and has not settled, a retryable
error is slept on before the given attempt, or the promise has settled. -/
inductive RunnerPhase (ρ ε : Type)
  | calling (hook : Hook ρ ε) (attempt : ℕ)
  | sleeping (hook : Hook ρ ε) (attempt : ℕ)
  | settled (outcome : Outcome ρ ε)

/-- The hook is called by `executeWithRetry`. -/
def Hook.retried : Hook ρ ε → Bool
  | .handler => true
  | .onFail _ => true
  | _ => false

section Phases

variable (options : RunnerOptions) (hooks : Hooks)

/-- The head of the loop of `executeWithRetry`. -/
def enter (hook : Hook ρ ε) (attempt : ℕ) : RunnerPhase ρ ε :=
  if (Number.ofNat attempt).le options.maxRetries then .calling hook attempt else .settled (.ok ())

/-- What follows the outcome of a hook, after its last attempt where it is retried. -/
def leave : Hook ρ ε → Outcome ρ ε → RunnerPhase ρ ε
  | .plain, outcome => .settled outcome
  | .onRetryExhausted _, outcome => .settled outcome
  | _, .ok () => .settled (.ok ())
  | _, .error (.retryable e) =>
    if hooks.onRetryExhausted then .calling (.onRetryExhausted e) 0 else .settled (.ok ())
  | .handler, .error (.other e) => if hooks.onFail then enter options (.onFail e) 0 else .settled (.ok ())
  -- the error of `onFail` is logged and nothing else
  | .onFail _, .error (.other _) => .settled (.ok ())

/-- The call in progress settles. -/
def settle (hook : Hook ρ ε) (attempt : ℕ) (outcome : Outcome ρ ε) : RunnerPhase ρ ε :=
  if hook.retried && outcome.isRetryable && (Number.ofNat attempt).lt options.maxRetries then
    .sleeping hook (attempt + 1)
  else leave options hooks hook outcome

/-- A hook is in progress or will be called when the sleep is over. -/
def RunnerPhase.live : RunnerPhase ρ ε → Bool
  | .calling _ _ => true
  | .sleeping _ attempt => (Number.ofNat attempt).le options.maxRetries
  | .settled _ => false

/-- The hooks and the first phase for a message. -/
def begin (env : ParseEnv) (routeMap : String → Option (RouteEntry Hooks Unit)) (message : InboundMessage) :
    Hooks × RunnerPhase ρ ε :=
  match handleMessage env routeMap message with
  | .skip => (⟨false, false⟩, .settled (.ok ()))
  | .saga hooks _ => (hooks, enter options .handler 0)
  | .plain _ _ => (⟨false, false⟩, .calling .plain 0)

/-- The handling of a message does not begin with a sleep. -/
theorem begin_not_sleeping {options : RunnerOptions} {env : ParseEnv} {routeMap : String → Option (RouteEntry Hooks Unit)}
    {message : InboundMessage} (hook : Hook ρ ε) (attempt : ℕ) :
    (begin options env routeMap message).2 ≠ .sleeping hook attempt := by
  unfold begin
  split
  · simp
  · dsimp only
    unfold enter
    split <;> simp
  · simp

end Phases

/-! ## Driven by a participant -/

section Driven

variable (options : RunnerOptions) (participant : SagaParticipant ρ ε) (handler : ℕ → Outcome ρ ε)

def SagaParticipant.hooks : Hooks := ⟨participant.onFail.isSome, participant.onRetryExhausted.isSome⟩

/-- The outcome of a call of a hook. -/
def SagaParticipant.answer : Hook ρ ε → ℕ → Outcome ρ ε
  | .plain, attempt => handler attempt
  | .handler, attempt => handler attempt
  | .onFail _, attempt => (participant.onFail.map (· attempt)).getD (.ok ())
  | .onRetryExhausted _, _ => participant.onRetryExhausted.getD (.ok ())

/-- The outcome a phase comes to within a number of steps, each call settling as the participant answers. -/
def drive : ℕ → RunnerPhase ρ ε → Option (Outcome ρ ε)
  | 0, _ => none
  | _ + 1, .settled outcome => some outcome
  | n + 1, .sleeping hook attempt => drive n (enter options hook attempt)
  | n + 1, .calling hook attempt =>
    drive n (settle options participant.hooks hook attempt (participant.answer handler hook attempt))

/-- The loop around a retried hook ends with the outcome of `attempts`, and the steps go on from there. -/
theorem drive_of_attempts {call : ℕ → Effect ρ ε} {hook : Hook ρ ε} (hret : hook.retried = true) {o : Outcome ρ ε} :
    ∀ {fuel a : ℕ} {t : Traced ρ ε},
      attempts options.maxRetries options.initialDelayMs call (participant.answer handler hook) fuel a = some t →
      (∃ n, drive options participant handler n (leave options participant.hooks hook t.2) = some o) →
      ∃ n, drive options participant handler n (enter options hook a) = some o
  | 0, _, _, h, _ => by cases h
  | fuel + 1, a, t, h, hn => by
    rw [attempts] at h
    unfold enter
    split at h
    · rename_i hle
      rw [if_pos hle]
      -- the call is made, and its outcome decides whether there is another
      have hdecided : ∀ outcome, participant.answer handler hook a = outcome →
          (outcome.isRetryable && (Number.ofNat a).lt options.maxRetries) = false → t.2 = outcome →
          ∃ n, drive options participant handler n (.calling hook a) = some o := by
        intro outcome hout hno ht
        obtain ⟨n, hn⟩ := hn
        refine ⟨n + 1, ?_⟩
        rw [drive, hout, settle, hret, Bool.true_and, hno, ← ht]
        exact hn
      cases hout : participant.answer handler hook a using Outcome.cases with
      | ok =>
        rw [hout] at h
        cases h
        exact hdecided _ hout rfl rfl
      | other e =>
        rw [hout] at h
        cases h
        exact hdecided _ hout rfl rfl
      | retryable e =>
        rw [hout] at h
        dsimp only at h
        split at h
        · rename_i hlt
          obtain ⟨u, hu, rfl⟩ := Option.map_eq_some_iff.1 h
          obtain ⟨n, hn⟩ := drive_of_attempts hret hu hn
          refine ⟨n + 2, ?_⟩
          rw [drive, hout, settle, hret, hlt]
          exact hn
        · rename_i hlt
          cases h
          exact hdecided _ hout (by simpa [Outcome.isRetryable] using hlt) rfl
    · rename_i hle
      rw [if_neg hle]
      cases h
      obtain ⟨n, hn⟩ := hn
      refine ⟨n, ?_⟩
      rw [← hn]
      cases hook with
      | handler => rfl
      | onFail e => rfl
      | _ => cases hret

/-- Where the steps come to an outcome the loop does, and they go on from its outcome. -/
theorem attempts_of_drive (call : ℕ → Effect ρ ε) {hook : Hook ρ ε} (hret : hook.retried = true) {o : Outcome ρ ε} :
    ∀ {n a : ℕ}, drive options participant handler n (enter options hook a) = some o →
      ∃ fuel t, attempts options.maxRetries options.initialDelayMs call (participant.answer handler hook) fuel a = some t ∧
        ∃ m ≤ n, drive options participant handler m (leave options participant.hooks hook t.2) = some o
  | 0, _, h => by cases h
  | n + 1, a, h => by
    by_cases hle : (Number.ofNat a).le options.maxRetries = true
    · rw [enter, if_pos hle, drive, settle, hret, Bool.true_and] at h
      -- either the call is slept on and repeated, or it was the last
      by_cases hc : (Outcome.isRetryable (participant.answer handler hook a) &&
          (Number.ofNat a).lt options.maxRetries) = true
      · rw [if_pos hc] at h
        rw [Bool.and_eq_true] at hc
        match n, h with
        | n + 1, h =>
          obtain ⟨fuel, t, ht, m, hm, hdrive⟩ := attempts_of_drive call hret h
          refine ⟨fuel + 1, t.after [call a, .sleep (retryDelay options.initialDelayMs a)], ?_, m, by omega, hdrive⟩
          rw [attempts_retry hc.1 hc.2, ht]
          rfl
      · rw [if_neg hc] at h
        rw [Bool.and_eq_true, not_and_or, Bool.not_eq_true, Bool.not_eq_true] at hc
        exact ⟨1, _, attempts_decided hle hc, n, by omega, h⟩
    · rw [Bool.not_eq_true] at hle
      refine ⟨1, _, attempts_guard hle, n + 1, Nat.le_refl _, ?_⟩
      rw [← h, enter, hle]
      cases hook with
      | handler => rfl
      | onFail e => rfl
      | _ => cases hret

variable {options participant handler}

/-- A retried hook comes to an outcome through the outcome of its loop. -/
theorem drive_enter (call : ℕ → Effect ρ ε) {hook : Hook ρ ε} (hret : hook.retried = true) {a : ℕ} {o : Outcome ρ ε} :
    (∃ n, drive options participant handler n (enter options hook a) = some o) ↔
      ∃ fuel t, attempts options.maxRetries options.initialDelayMs call (participant.answer handler hook) fuel a = some t ∧
        ∃ n, drive options participant handler n (leave options participant.hooks hook t.2) = some o := by
  constructor
  · rintro ⟨n, hn⟩
    obtain ⟨fuel, t, ht, m, -, hm⟩ := attempts_of_drive options participant handler call hret hn
    exact ⟨fuel, t, ht, m, hm⟩
  · rintro ⟨fuel, t, ht, hn⟩
    exact drive_of_attempts options participant handler hret ht hn

theorem drive_settled {outcome o : Outcome ρ ε} :
    (∃ n, drive options participant handler n (.settled outcome) = some o) ↔ outcome = o := by
  constructor
  · rintro ⟨_ | n, hn⟩
    · cases hn
    · exact Option.some.inj hn
  · rintro rfl
    exact ⟨1, rfl⟩

/-- Exhausted retries come to what `callOnRetryExhausted` does. -/
theorem drive_exhausted {hook : Hook ρ ε} (hret : hook.retried = true) {e : ρ} {o : Outcome ρ ε} :
    (∃ n, drive options participant handler n (leave options participant.hooks hook (.error (.retryable e))) = some o) ↔
      (callOnRetryExhausted participant e).2 = o := by
  have hleave : leave options participant.hooks hook (.error (.retryable e)) =
      if participant.onRetryExhausted.isSome then .calling (.onRetryExhausted e) 0 else .settled (.ok ()) := by
    cases hook with
    | handler => rfl
    | onFail e => rfl
    | _ => cases hret
  rw [hleave]
  unfold callOnRetryExhausted
  cases hp : participant.onRetryExhausted with
  | none => exact drive_settled
  | some outcome =>
    -- one call, whose outcome is that of the promise
    have hcall : ∀ n, drive options participant handler (n + 1) (.calling (.onRetryExhausted e) 0) =
        drive options participant handler n (.settled outcome) := by
      intro n
      rw [drive, SagaParticipant.answer, hp]
      rfl
    have hset : (∃ n, drive options participant handler n (.settled outcome) = some o) ↔ outcome = o := drive_settled
    rw [← hset]
    constructor
    · rintro ⟨_ | n, hn⟩
      · cases hn
      · exact ⟨n, by rwa [← hcall n]⟩
    · rintro ⟨n, hn⟩
      exact ⟨n + 1, by rwa [← hcall n] at hn⟩

/-- Another error of the handler comes to what the `catch` of `runWithRetry` does with it. -/
theorem drive_failed (topic : String) {e : ε} {o : Outcome ρ ε} :
    (∃ n, drive options participant handler n (leave options participant.hooks .handler (.error (.other e))) = some o) ↔
      ∃ fuel t, runOnFail options participant topic e fuel = some t ∧ t.2 = o := by
  have hleave : leave options participant.hooks (.handler : Hook ρ ε) (.error (.other e)) =
      if participant.onFail.isSome then enter options (.onFail e) 0 else .settled (.ok ()) := rfl
  rw [hleave]
  unfold runOnFail
  cases hp : participant.onFail with
  | none =>
    rw [Option.isSome_none, if_neg Bool.false_ne_true, drive_settled]
    simp
  | some onFail =>
    have hans : participant.answer handler (.onFail e) = onFail := by
      funext k
      rw [SagaParticipant.answer, hp]
      rfl
    rw [Option.isSome_some, if_pos rfl, drive_enter (.onFail e) rfl, hans]
    refine exists_congr fun fuel => ?_
    simp only [executeWithRetry, Option.bind_eq_bind, Option.bind_eq_some_iff]
    constructor
    · rintro ⟨⟨calls, outcome⟩, ht, hn⟩
      cases outcome using Outcome.cases with
      | ok => exact ⟨_, ⟨_, ht, rfl⟩, drive_settled.1 hn⟩
      | retryable _ => exact ⟨_, ⟨_, ht, rfl⟩, (drive_exhausted rfl).1 hn⟩
      | other _ => exact ⟨_, ⟨_, ht, rfl⟩, drive_settled.1 hn⟩
    · rintro ⟨t, ⟨⟨calls, outcome⟩, ht, hrest⟩, ho⟩
      refine ⟨_, ht, ?_⟩
      cases outcome using Outcome.cases with
      | ok => cases hrest; exact drive_settled.2 ho
      | retryable _ => cases hrest; exact (drive_exhausted rfl).2 ho
      | other _ => cases hrest; exact drive_settled.2 ho

theorem runOnFail_mono {topic : String} {e : ε} {fuel fuel' : ℕ} {t : Traced ρ ε} (hle : fuel ≤ fuel')
    (h : runOnFail options participant topic e fuel = some t) : runOnFail options participant topic e fuel' = some t := by
  unfold runOnFail at h ⊢
  split
  · rename_i onFail hp
    rw [hp] at h
    obtain ⟨u, hu, hrest⟩ := Option.bind_eq_some_iff.1 h
    exact Option.bind_eq_some_iff.2 ⟨u, attempts_mono hle hu, hrest⟩
  · rename_i hp
    rw [hp] at h
    exact h

/-- The steps of a saga handler come to an outcome exactly when `runWithRetry` does. -/
theorem drive_iff_runWithRetry {topic : String} {o : Outcome ρ ε} :
    (∃ n, drive options participant handler n (enter options .handler 0) = some o) ↔
      ∃ fuel t, runWithRetry options participant topic handler fuel = some t ∧ t.2 = o := by
  have hans : participant.answer handler .handler = handler := rfl
  rw [drive_enter .handler rfl, hans]
  unfold runWithRetry executeWithRetry
  simp only [Option.bind_eq_bind, Option.bind_eq_some_iff]
  constructor
  · rintro ⟨fuel, ⟨calls, outcome⟩, ht, hn⟩
    cases outcome using Outcome.cases with
    | ok => exact ⟨fuel, _, ⟨_, ht, rfl⟩, drive_settled.1 hn⟩
    | retryable _ => exact ⟨fuel, _, ⟨_, ht, rfl⟩, (drive_exhausted rfl).1 hn⟩
    | other e =>
      obtain ⟨fuel', u, hu, ho⟩ := (drive_failed topic).1 hn
      -- rounds enough for the handler and for `onFail`
      refine ⟨max fuel fuel', u.after calls, ⟨_, attempts_mono (Nat.le_max_left ..) ht, ?_⟩, ho⟩
      show (runOnFail options participant topic e (max fuel fuel')).map (Traced.after calls) = _
      rw [runOnFail_mono (Nat.le_max_right ..) hu]
      rfl
  · rintro ⟨fuel, t, ⟨⟨calls, outcome⟩, ht, hrest⟩, ho⟩
    refine ⟨fuel, _, ht, ?_⟩
    cases outcome using Outcome.cases with
    | ok => cases hrest; exact drive_settled.2 ho
    | retryable _ => cases hrest; exact (drive_exhausted rfl).2 ho
    | other _ =>
      obtain ⟨u, hu, rfl⟩ := Option.map_eq_some_iff.1 hrest
      exact (drive_failed topic).2 ⟨fuel, u, hu, ho⟩

end Driven

end Saga
