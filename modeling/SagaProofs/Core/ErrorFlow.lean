/-
The documented error flow as a function of the outcomes, and that `runWithRetry` is this function
for every natural number of retries: a call is repeated until its first outcome that is not a
`SagaRetryableError`, exhaustion goes to `onRetryExhausted`, another error to `onFail` with a fresh
budget, and what `onFail` throws besides is logged.
-/
import SagaProofs.Core.Retry

namespace Saga

variable {ρ ε : Type}

/-! ## The documented flow -/

/-- The call that decides: the first whose outcome is not a retryable error, or the last allowed. -/
def decisive (maxRetries : ℕ) (fn : ℕ → Outcome ρ ε) : ℕ :=
  ((List.range maxRetries).find? fun k => !(fn k).isRetryable).getD maxRetries

/-- The calls up to the one that decides, with a sleep of `initialDelayMs * 2 ^ k` after each call
`k` but that one, whose outcome is the outcome of the whole. -/
def rounds (maxRetries : ℕ) (initialDelayMs : Number) (call : ℕ → Effect ρ ε) (fn : ℕ → Outcome ρ ε) : Traced ρ ε :=
  let last := decisive maxRetries fn
  ((List.range last).flatMap (fun k => [call k, .sleep (initialDelayMs.mul (.pow2 k))]) ++ [call last], fn last)

/-- Retries are exhausted by an error: the hook is called once, if there is one, and its outcome is
the outcome of the whole. -/
def exhausted (participant : SagaParticipant ρ ε) (error : ρ) : Traced ρ ε :=
  match participant.onRetryExhausted with
  | some outcome => ([.callOnRetryExhausted error, .onRetryExhausted error], outcome)
  | none => ([.callOnRetryExhausted error], .ok ())

/-- Another error of the handler goes to `onFail`, with a fresh budget, or else to the log. -/
def failed (maxRetries : ℕ) (initialDelayMs : Number) (participant : SagaParticipant ρ ε) (topic : String) (error : ε) :
    Traced ρ ε :=
  match participant.onFail with
  | none => ([.log ("[SagaRunner] Non-retryable error in handler for " ++ topic ++ ":") error], .ok ())
  | some onFail =>
    let (calls, outcome) := rounds maxRetries initialDelayMs (.onFail error) onFail
    match outcome with
    | .ok () => (calls, .ok ())
    | .error (.retryable e) => (exhausted participant e).after calls
    | .error (.other e) =>
      (calls ++ [.log ("[SagaRunner] onFail threw non-retryable error for " ++ topic ++ ":") e], .ok ())

/-- The error flow for a number of retries, an initial delay, the hooks and the handler. -/
def errorFlow (maxRetries : ℕ) (initialDelayMs : Number) (participant : SagaParticipant ρ ε) (topic : String)
    (handler : ℕ → Outcome ρ ε) : Traced ρ ε :=
  let (calls, outcome) := rounds maxRetries initialDelayMs .handler handler
  match outcome with
  | .ok () => (calls, .ok ())
  | .error (.retryable e) => (exhausted participant e).after calls
  | .error (.other e) => (failed maxRetries initialDelayMs participant topic e).after calls

/-! ## The deciding call -/

section Decisive

variable {n : ℕ} {fn : ℕ → Outcome ρ ε}

theorem decisive_le : decisive n fn ≤ n := by
  unfold decisive
  cases h : (List.range n).find? fun k => !(fn k).isRetryable with
  | none => exact Nat.le_refl n
  | some k => exact (List.mem_range.1 (List.mem_of_find?_eq_some h)).le

/-- Every call before the deciding one throws a retryable error. -/
theorem isRetryable_of_lt_decisive {k : ℕ} (h : k < decisive n fn) : (fn k).isRetryable = true := by
  unfold decisive at h
  cases hf : (List.range n).find? fun k => !(fn k).isRetryable with
  | none =>
    rw [hf, Option.getD_none] at h
    simpa using List.find?_eq_none.1 hf k (List.mem_range.2 h)
  | some m =>
    rw [hf, Option.getD_some] at h
    simpa using (List.find?_range_eq_some.1 hf).2.2 k h

/-- The deciding call throws no retryable error, or it is the last allowed. -/
theorem decisive_decides : (fn (decisive n fn)).isRetryable = false ∨ decisive n fn = n := by
  unfold decisive
  cases hf : (List.range n).find? fun k => !(fn k).isRetryable with
  | none => exact .inr rfl
  | some m => exact .inl (by simpa using List.find?_some hf)

/-- With a natural number of retries the loop makes the documented rounds, within one round more. -/
theorem attempts_eq_rounds {d : Number} {call : ℕ → Effect ρ ε} {fuel : ℕ} (hf : n < fuel) :
    attempts (.ofNat n) d call fn fuel 0 = some (rounds n d call fn) := by
  have hle : decisive n fn ≤ n := decisive_le
  have hretry : ∀ k, 0 ≤ k → k < 0 + decisive n fn →
      (fn k).isRetryable = true ∧ (Number.ofNat k).lt (.ofNat n) = true := by
    intro k _ hk
    rw [Nat.zero_add] at hk
    exact ⟨isRetryable_of_lt_decisive hk, by rw [Number.ofNat_lt_ofNat]; exact decide_eq_true (by omega)⟩
  have hlast : attempts (.ofNat n) d call fn (fuel - decisive n fn - 1 + 1) (0 + decisive n fn) =
      some ([call (decisive n fn)], fn (decisive n fn)) := by
    rw [Nat.zero_add]
    refine attempts_decided (by rw [Number.ofNat_le_ofNat]; exact decide_eq_true hle) ?_
    have hd : (fn (decisive n fn)).isRetryable = false ∨ decisive n fn = n := decisive_decides
    rcases hd with h | h
    · exact .inl h
    · exact .inr (by rw [Number.ofNat_lt_ofNat, h]; simp)
  calc attempts (.ofNat n) d call fn fuel 0
      = attempts (.ofNat n) d call fn (fuel - decisive n fn - 1 + 1 + decisive n fn) 0 := by congr 1; omega
    _ = (some ([call (decisive n fn)], fn (decisive n fn))).map (Traced.after (retries d call 0 (decisive n fn))) := by
      rw [attempts_retries _ _ _ hretry, hlast]
    _ = some (rounds n d call fn) := by
      unfold rounds retries
      rw [← List.range_eq_range']
      rfl

end Decisive

/-! ## The runner -/

section Runner

variable {options : RunnerOptions} {n : ℕ} {participant : SagaParticipant ρ ε} {topic : String}
variable {handler : ℕ → Outcome ρ ε}

theorem executeWithRetry_eq_rounds (h : options.maxRetries = .ofNat n) {call : ℕ → Effect ρ ε} {fn : ℕ → Outcome ρ ε}
    {fuel : ℕ} (hf : n < fuel) :
    executeWithRetry options call fn fuel = some (rounds n options.initialDelayMs call fn) := by
  unfold executeWithRetry
  rw [h]
  exact attempts_eq_rounds hf

theorem runOnFail_eq_failed (h : options.maxRetries = .ofNat n) {e : ε} {fuel : ℕ} (hf : n < fuel) :
    runOnFail options participant topic e fuel = some (failed n options.initialDelayMs participant topic e) := by
  unfold runOnFail failed
  cases participant.onFail with
  | none => rfl
  | some onFail =>
    simp only [executeWithRetry_eq_rounds h hf, Option.bind_eq_bind, Option.bind_some]
    rcases rounds n options.initialDelayMs (.onFail e) onFail with ⟨calls, outcome⟩
    cases outcome using Outcome.cases with
    | ok => rfl
    | retryable _ => rfl
    | other _ => rfl

theorem runWithRetry_eq_errorFlow (h : options.maxRetries = .ofNat n) {fuel : ℕ} (hf : n < fuel) :
    runWithRetry options participant topic handler fuel =
      some (errorFlow n options.initialDelayMs participant topic handler) := by
  unfold runWithRetry errorFlow
  simp only [executeWithRetry_eq_rounds h hf, runOnFail_eq_failed h hf, Option.bind_eq_bind, Option.bind_some,
    Option.map_some]
  rcases rounds n options.initialDelayMs .handler handler with ⟨calls, outcome⟩
  cases outcome using Outcome.cases with
  | ok => rfl
  | retryable _ => rfl
  | other _ => rfl

/-! ## When the promise rejects -/

/-- The promise rejects exactly when `onRetryExhausted` was called and its call rejected. -/
def RejectsByHook (participant : SagaParticipant ρ ε) (t : Traced ρ ε) : Prop :=
  (∃ x, t.2 = .error x) ↔
    (∃ e, Effect.onRetryExhausted e ∈ t.1) ∧ ∃ x, participant.onRetryExhausted = some (.error x)

theorem RejectsByHook.after {t : Traced ρ ε} (h : RejectsByHook participant t) {effects : List (Effect ρ ε)}
    (hno : ∀ e, Effect.onRetryExhausted e ∉ effects) : RejectsByHook participant (t.after effects) := by
  unfold RejectsByHook Traced.after
  simp only [List.mem_append, hno, false_or]
  exact h

theorem rejectsByHook_fulfilled {effects : List (Effect ρ ε)} (hno : ∀ e, Effect.onRetryExhausted e ∉ effects) :
    RejectsByHook participant (effects, .ok ()) := by
  unfold RejectsByHook
  simp [hno]

theorem rejectsByHook_exhausted (e : ρ) : RejectsByHook participant (exhausted participant e) := by
  unfold RejectsByHook exhausted
  cases participant.onRetryExhausted with
  | none => simp
  | some outcome => simp

theorem rounds_calls {d : Number} {call : ℕ → Effect ρ ε} {fn : ℕ → Outcome ρ ε}
    (hc : ∀ k e, call k ≠ .onRetryExhausted e) (e : ρ) : Effect.onRetryExhausted e ∉ (rounds n d call fn).1 := by
  unfold rounds
  simp only [List.mem_append, List.mem_flatMap, List.mem_cons, List.not_mem_nil, or_false, reduceCtorEq]
  rintro (⟨k, -, h⟩ | h)
  · exact hc k e h.symm
  · exact hc _ e h.symm

theorem rejectsByHook_failed {d : Number} (e : ε) : RejectsByHook participant (failed n d participant topic e) := by
  unfold failed
  cases participant.onFail with
  | none => exact rejectsByHook_fulfilled (by simp)
  | some onFail =>
    have hno : ∀ e', Effect.onRetryExhausted e' ∉ (rounds n d (.onFail e) onFail).1 := rounds_calls (by simp)
    dsimp only
    rcases hr : rounds n d (.onFail e) onFail with ⟨calls, outcome⟩
    rw [hr] at hno
    cases outcome using Outcome.cases with
    | ok => exact rejectsByHook_fulfilled hno
    | retryable e' => exact (rejectsByHook_exhausted e').after hno
    | other e' => exact rejectsByHook_fulfilled (by simpa using hno)

theorem rejectsByHook_errorFlow {d : Number} : RejectsByHook participant (errorFlow n d participant topic handler) := by
  unfold errorFlow
  have hno : ∀ e', Effect.onRetryExhausted e' ∉ (rounds n d .handler handler).1 := rounds_calls (by simp)
  rcases hr : rounds n d .handler handler with ⟨calls, outcome⟩
  rw [hr] at hno
  cases outcome using Outcome.cases with
  | ok => exact rejectsByHook_fulfilled hno
  | retryable e => exact (rejectsByHook_exhausted e).after hno
  | other e => exact (rejectsByHook_failed e).after hno

end Runner

/-- With a natural number of retries `runWithRetry` is the documented error flow, and its promise
rejects exactly when `onRetryExhausted` was called and rejected. -/
theorem runWithRetry_refines {n : ℕ} (options : RunnerOptions) (h : options.maxRetries = .ofNat n)
    (participant : SagaParticipant ρ ε) (topic : String) (handler : ℕ → Outcome ρ ε) :
    (∀ fuel, n < fuel → runWithRetry options participant topic handler fuel =
      some (errorFlow n options.initialDelayMs participant topic handler)) ∧
    ((∃ x, (errorFlow n options.initialDelayMs participant topic handler).2 = .error x) ↔
      (∃ e, Effect.onRetryExhausted e ∈ (errorFlow n options.initialDelayMs participant topic handler).1) ∧
        ∃ x, participant.onRetryExhausted = some (.error x)) :=
  ⟨fun _ hf => runWithRetry_eq_errorFlow h hf, rejectsByHook_errorFlow⟩

/-- The default policy, and a hook that handles the exhaustion of three retries. -/
theorem runWithRetry_refines_default :
    runWithRetry ⟨none, none⟩ ⟨none, some (.ok ())⟩ "order.created"
      (fun _ => .error (.retryable ()) : ℕ → Outcome Unit Unit) 4 =
    some ([.handler 0, .sleep (.finite 200), .handler 1, .sleep (.finite 400), .handler 2, .sleep (.finite 800),
      .handler 3, .callOnRetryExhausted (), .onRetryExhausted ()], .ok ()) := by
  rw [(runWithRetry_refines (n := 3) ⟨none, none⟩ rfl _ _ _).1 4 (by decide)]
  decide +kernel

/-- `onRetryExhausted` is called and fulfils: the promise does not reject. -/
theorem exhausted_without_rejection :
    ¬ ∀ (options : RunnerOptions) (participant : SagaParticipant Unit Unit) (topic : String)
      (handler : ℕ → Outcome Unit Unit) (fuel : ℕ) (t : Traced Unit Unit),
      runWithRetry options participant topic handler fuel = some t →
        ((∃ x, t.2 = .error x) ↔ ∃ e, Effect.onRetryExhausted e ∈ t.1) := by
  intro h
  have hrun := h ⟨none, some ⟨some (.ofNat 0), none⟩⟩ ⟨none, some (.ok ())⟩ "order.created"
    (fun _ => .error (.retryable ())) 1 ([.handler 0, .callOnRetryExhausted (), .onRetryExhausted ()], .ok ()) (by decide)
  obtain ⟨x, hx⟩ := hrun.2 ⟨(), by simp⟩
  cases hx

end Saga
