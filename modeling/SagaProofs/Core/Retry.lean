/-
`SagaRunner.runWithRetry`: a handler is called again after each `SagaRetryableError` while
attempts are left, and what it rejects with goes to `onRetryExhausted`, to `onFail` or to the log.
The loop compares its counter with whatever number the options give, so it can also end by its
guard: then the promise fulfils although the last call did not, and this file says for which
numbers and outcomes.
-/
import SagaProofs.Core.Event

namespace Saga

variable {ρ ε : Type}

/-! ## Outcomes and effects -/

/-- What a hook throws: a `SagaRetryableError` or another error. -/
inductive Thrown (ρ ε : Type)
  | retryable (error : ρ)
  | other (error : ε)
  deriving DecidableEq

/-- How a promise settles: fulfilled, or rejected with an error. -/
abbrev Outcome (ρ ε : Type) := Except (Thrown ρ ε) Unit

@[elab_as_elim]
theorem Outcome.cases {motive : Outcome ρ ε → Prop} (ok : motive (.ok ()))
    (retryable : ∀ e, motive (.error (.retryable e))) (other : ∀ e, motive (.error (.other e))) :
    ∀ outcome, motive outcome
  | .ok () => ok
  | .error (.retryable e) => retryable e
  | .error (.other e) => other e

/-- The outcome is a rejection with a `SagaRetryableError`. -/
def Outcome.isRetryable : Outcome ρ ε → Bool
  | .error (.retryable _) => true
  | _ => false

/-- What `runWithRetry` does, in order: a call of the handler or of `onFail` (the latter with the
error of the handler), each with the number of the attempt, a sleep, `callOnRetryExhausted` and
the call of the hook from there, and a line of the error log. -/
inductive Effect (ρ ε : Type)
  | handler (attempt : ℕ)
  | onFail (error : ε) (attempt : ℕ)
  | sleep (ms : Number)
  | callOnRetryExhausted (error : ρ)
  | onRetryExhausted (error : ρ)
  | log (message : String) (error : ε)
  deriving DecidableEq

/-- The hooks of a participant by the outcomes of their calls; `onRetryExhausted` is called at most
once for a message. -/
structure SagaParticipant (ρ ε : Type) where
  onFail : Option (ℕ → Outcome ρ ε)
  onRetryExhausted : Option (Outcome ρ ε)

def RunnerOptions.maxRetries (options : RunnerOptions) : Number :=
  (options.retryPolicy.bind (·.maxRetries)).getD (.ofNat 3)

def RunnerOptions.initialDelayMs (options : RunnerOptions) : Number :=
  (options.retryPolicy.bind (·.initialDelayMs)).getD (.ofNat 200)

/-! ## The runner -/

/-- The effects of a computation and how it settles. -/
abbrev Traced (ρ ε : Type) := List (Effect ρ ε) × Outcome ρ ε

/-- A computation after the given effects. -/
def Traced.after (effects : List (Effect ρ ε)) (t : Traced ρ ε) : Traced ρ ε := (effects ++ t.1, t.2)

@[simp] theorem Traced.map_after_nil (o : Option (Traced ρ ε)) : o.map (Traced.after []) = o := by
  cases o <;> rfl

/-- `initialDelayMs * Math.pow(2, attempt)`. -/
def retryDelay (initialDelayMs : Number) (attempt : ℕ) : Number := initialDelayMs.mul (.pow2 attempt)

/-- The loop of `executeWithRetry` from an attempt on, within a number of rounds. -/
def attempts (maxRetries initialDelayMs : Number) (call : ℕ → Effect ρ ε) (fn : ℕ → Outcome ρ ε) :
    (fuel attempt : ℕ) → Option (Traced ρ ε)
  | 0, _ => none
  | fuel + 1, attempt =>
    if (Number.ofNat attempt).le maxRetries then
      match fn attempt with
      | .ok () => some ([call attempt], .ok ())
      | .error (.retryable e) =>
        if (Number.ofNat attempt).lt maxRetries then
          (attempts maxRetries initialDelayMs call fn fuel (attempt + 1)).map
            (Traced.after [call attempt, .sleep (retryDelay initialDelayMs attempt)])
        else some ([call attempt], .error (.retryable e))
      | .error (.other e) => some ([call attempt], .error (.other e))
    else
      -- the guard ends the loop and the function returns
      some ([], .ok ())

def executeWithRetry (options : RunnerOptions) (call : ℕ → Effect ρ ε) (fn : ℕ → Outcome ρ ε) (fuel : ℕ) :
    Option (Traced ρ ε) :=
  attempts options.maxRetries options.initialDelayMs call fn fuel 0

def callOnRetryExhausted (participant : SagaParticipant ρ ε) (error : ρ) : Traced ρ ε :=
  match participant.onRetryExhausted with
  | some outcome => ([.callOnRetryExhausted error, .onRetryExhausted error], outcome)
  | none => ([.callOnRetryExhausted error], .ok ())

/-- The `catch` of `runWithRetry` for an error that is not retryable, on an event of the given
topic. -/
def runOnFail (options : RunnerOptions) (participant : SagaParticipant ρ ε) (topic : String) (error : ε) (fuel : ℕ) :
    Option (Traced ρ ε) :=
  match participant.onFail with
  | some onFail => do
    let (calls, outcome) ← executeWithRetry options (.onFail error) onFail fuel
    match outcome with
    | .ok () => some (calls, .ok ())
    | .error (.retryable failError) => some ((callOnRetryExhausted participant failError).after calls)
    | .error (.other failError) =>
      some (calls ++ [.log ("[SagaRunner] onFail threw non-retryable error for " ++ topic ++ ":") failError], .ok ())
  | none => some ([.log ("[SagaRunner] Non-retryable error in handler for " ++ topic ++ ":") error], .ok ())

def runWithRetry (options : RunnerOptions) (participant : SagaParticipant ρ ε) (topic : String)
    (handler : ℕ → Outcome ρ ε) (fuel : ℕ) : Option (Traced ρ ε) := do
  let (calls, outcome) ← executeWithRetry options .handler handler fuel
  match outcome with
  | .ok () => some (calls, .ok ())
  | .error (.retryable error) => some ((callOnRetryExhausted participant error).after calls)
  | .error (.other error) => (runOnFail options participant topic error fuel).map (Traced.after calls)

/-! ## Retried calls -/

/-- The calls from attempt `a` on that are retried, each with the sleep after it. -/
def retries (initialDelayMs : Number) (call : ℕ → Effect ρ ε) (a n : ℕ) : List (Effect ρ ε) :=
  (List.range' a n).flatMap fun k => [call k, .sleep (retryDelay initialDelayMs k)]

section Attempts

variable {maxRetries initialDelayMs : Number} {call : ℕ → Effect ρ ε} {fn : ℕ → Outcome ρ ε}

/-- A call that throws a retryable error with attempts left is followed by a sleep and the next. -/
theorem attempts_retry {fuel a : ℕ} (hr : (fn a).isRetryable = true) (hlt : (Number.ofNat a).lt maxRetries = true) :
    attempts maxRetries initialDelayMs call fn (fuel + 1) a =
      (attempts maxRetries initialDelayMs call fn fuel (a + 1)).map
        (Traced.after [call a, .sleep (retryDelay initialDelayMs a)]) := by
  rw [attempts, if_pos (Number.le_of_lt hlt)]
  cases hf : fn a using Outcome.cases with
  | ok => rw [hf] at hr; cases hr
  | retryable e => exact if_pos hlt
  | other e => rw [hf] at hr; cases hr

/-- A row of such calls. -/
theorem attempts_retries (fuel : ℕ) : ∀ (n a : ℕ),
    (∀ k, a ≤ k → k < a + n → (fn k).isRetryable = true ∧ (Number.ofNat k).lt maxRetries = true) →
    attempts maxRetries initialDelayMs call fn (fuel + n) a =
      (attempts maxRetries initialDelayMs call fn fuel (a + n)).map (Traced.after (retries initialDelayMs call a n))
  | 0, a, _ => by simp [retries]
  | n + 1, a, h => by
    obtain ⟨hr, hlt⟩ := h a (Nat.le_refl _) (by omega)
    have ih := attempts_retries fuel n (a + 1) fun k h1 h2 => h k (by omega) (by omega)
    rw [← Nat.add_assoc, attempts_retry hr hlt, ih, Option.map_map, show a + 1 + n = a + (n + 1) by omega]
    rfl

/-- The call that decides: it does not throw a retryable error, or no attempt is left. -/
theorem attempts_decided {fuel k : ℕ} (hle : (Number.ofNat k).le maxRetries = true)
    (hd : (fn k).isRetryable = false ∨ (Number.ofNat k).lt maxRetries = false) :
    attempts maxRetries initialDelayMs call fn (fuel + 1) k = some ([call k], fn k) := by
  rw [attempts, if_pos hle]
  cases hf : fn k using Outcome.cases with
  | ok => rfl
  | retryable e =>
    rcases hd with hd | hd
    · rw [hf] at hd; cases hd
    · simp [hd]
  | other e => rfl

/-- The guard ends the loop. -/
theorem attempts_guard {fuel a : ℕ} (hle : (Number.ofNat a).le maxRetries = false) :
    attempts maxRetries initialDelayMs call fn (fuel + 1) a = some ([], .ok ()) := by
  rw [attempts, hle]
  rfl

/-- More rounds than the loop needs change nothing. -/
theorem attempts_mono : ∀ {fuel fuel' a : ℕ} {t : Traced ρ ε}, fuel ≤ fuel' →
    attempts maxRetries initialDelayMs call fn fuel a = some t →
      attempts maxRetries initialDelayMs call fn fuel' a = some t
  | 0, _, _, _, _, h => by cases h
  | fuel + 1, fuel' + 1, a, t, hle, h => by
    rw [attempts] at h ⊢
    split
    · rename_i hguard
      rw [if_pos hguard] at h
      cases hf : fn a using Outcome.cases with
      | ok => rw [hf] at h; exact h
      | other e => rw [hf] at h; exact h
      | retryable e =>
        rw [hf] at h
        dsimp only at h ⊢
        split
        · rename_i hlt
          rw [if_pos hlt] at h
          obtain ⟨u, hu, rfl⟩ := Option.map_eq_some_iff.1 h
          rw [attempts_mono (Nat.le_of_succ_le_succ hle) hu]
          rfl
        · rename_i hlt
          rw [if_neg hlt] at h
          exact h
    · rename_i hguard
      rw [if_neg hguard] at h
      exact h

end Attempts

/-! ## Silent success -/

/-- The last call of the handler among the effects. -/
def lastCall (effects : List (Effect ρ ε)) : Option ℕ :=
  (effects.filterMap fun
    | .handler k => some k
    | _ => none).getLast?

/-- The last call of the handler was made and fulfilled. -/
def LastCallFulfilled (handler : ℕ → Outcome ρ ε) (effects : List (Effect ρ ε)) : Prop :=
  ∃ k, lastCall effects = some k ∧ handler k = .ok ()

/-- The error of the handler was handed on: to `callOnRetryExhausted`, to `onFail` or to the log. -/
def Handed (effects : List (Effect ρ ε)) : Prop :=
  ∃ e ∈ effects, match e with
    | .callOnRetryExhausted _ => True
    | .onFail _ _ => True
    | .log _ _ => True
    | _ => False

/-- `executeWithRetry` fulfils only if the last call it made to the handler fulfilled. -/
def NoSilentSuccess (options : RunnerOptions) (handler : ℕ → Outcome ρ ε) : Prop :=
  ∀ fuel effects, executeWithRetry options .handler handler fuel = some (effects, .ok ()) →
    LastCallFulfilled handler effects

/-- `runWithRetry` fulfils only if the handler succeeded in its last call or its error was handed on. -/
def Accounted (options : RunnerOptions) (participant : SagaParticipant ρ ε) (topic : String)
    (handler : ℕ → Outcome ρ ε) : Prop :=
  ∀ fuel effects, runWithRetry options participant topic handler fuel = some (effects, .ok ()) →
    LastCallFulfilled handler effects ∨ Handed effects

/-- The number of retries is at least zero and is a whole number or infinity, or else the handler
throws no retryable error in one of the calls that its whole part allows. -/
def Decides (options : RunnerOptions) (handler : ℕ → Outcome ρ ε) : Prop :=
  (Number.ofNat 0).le options.maxRetries = true ∧
    (options.maxRetries.IsWhole ∨ ∃ k ≤ options.maxRetries.floorNat, (handler k).isRetryable = false)

section Silent

variable {options : RunnerOptions} {handler : ℕ → Outcome ρ ε}

theorem lastCall_append {xs ys : List (Effect ρ ε)} {k : ℕ} (h : lastCall ys = some k) :
    lastCall (xs ++ ys) = some k := by
  unfold lastCall at *
  rw [List.filterMap_append, List.getLast?_append, h]
  rfl

theorem lastCall_retries (d : Number) (a n : ℕ) :
    lastCall (retries (ρ := ρ) (ε := ε) d .handler a (n + 1)) = some (a + n) := by
  unfold retries
  rw [List.range'_concat, List.flatMap_append]
  exact lastCall_append (by simp [lastCall])

/-- Where the counter can pass no number of retries without a call in between, a fulfilled loop ends
with a fulfilled call. -/
theorem attempts_fulfilled {maxRetries d : Number} : ∀ {fuel a : ℕ} {effects : List (Effect ρ ε)},
    (Number.ofNat a).le maxRetries = true →
    (maxRetries.IsWhole ∨ ∃ k ≥ a, (Number.ofNat k).le maxRetries = true ∧ (handler k).isRetryable = false) →
    attempts maxRetries d .handler handler fuel a = some (effects, .ok ()) → LastCallFulfilled handler effects
  | 0, _, _, _, _, h => by cases h
  | fuel + 1, a, effects, hle, hd, h => by
    cases hr : (handler a).isRetryable with
    | false =>
      -- this call decides, and the loop fulfils only if it does
      rw [attempts_decided hle (.inl hr)] at h
      cases hf : handler a with
      | ok u =>
        rw [hf] at h
        cases h; exact ⟨a, rfl, hf⟩
      | error t =>
        rw [hf] at h
        cases h
    | true =>
      cases hlt : (Number.ofNat a).lt maxRetries with
      | false =>
        -- the error of the last attempt is thrown again
        rw [attempts_decided hle (.inr hlt)] at h
        cases hf : handler a with
        | ok u => rw [hf] at hr; cases hr
        | error t => rw [hf] at h; cases h
      | true =>
        rw [attempts_retry hr hlt, Option.map_eq_some_iff] at h
        obtain ⟨⟨rest, o⟩, hrest, heq⟩ := h
        cases heq
        -- the guard lets the next attempt through, so the loop cannot end between the two
        have hnext : (Number.ofNat (a + 1)).le maxRetries = true ∧
            (maxRetries.IsWhole ∨
              ∃ k ≥ a + 1, (Number.ofNat k).le maxRetries = true ∧ (handler k).isRetryable = false) := by
          rcases hd with hw | ⟨k, hk, hkle, hkr⟩
          · exact ⟨Number.le_iff_lt_or_eq hw hle hlt, .inl hw⟩
          · have hne : k ≠ a := by
              rintro rfl
              rw [hr] at hkr; cases hkr
            exact ⟨Number.ofNat_le_mono (by omega) hkle, .inr ⟨k, by omega, hkle, hkr⟩⟩
        obtain ⟨k, hk, hok⟩ := attempts_fulfilled hnext.1 hnext.2 hrest
        have hlast : lastCall ([.handler a, .sleep (retryDelay d a)] ++ rest) = some k := lastCall_append hk
        exact ⟨k, hlast, hok⟩

/-- A fractional number of retries is passed by the counter after a retried call. -/
theorem attempts_fraction {maxRetries d : Number} (h0 : (Number.ofNat 0).le maxRetries = true)
    (hw : ¬ maxRetries.IsWhole) (hr : ∀ k ≤ maxRetries.floorNat, (handler k).isRetryable = true) :
    attempts maxRetries d .handler handler (maxRetries.floorNat + 2) 0 =
      some (retries d .handler 0 (maxRetries.floorNat + 1), .ok ()) := by
  obtain ⟨hlt, hle⟩ := Number.fraction h0 hw
  have h : attempts maxRetries d .handler handler (1 + (maxRetries.floorNat + 1)) 0 = _ :=
    attempts_retries 1 (maxRetries.floorNat + 1) 0 fun k _ hk => ⟨hr k (by omega), hlt k (by omega)⟩
  rw [Nat.zero_add, attempts_guard hle] at h
  rw [show maxRetries.floorNat + 2 = 1 + (maxRetries.floorNat + 1) by omega, h]
  simp [Traced.after]

/-- `executeWithRetry` never fulfils silently exactly for the numbers and outcomes that `Decides` names. -/
theorem noSilentSuccess_iff : NoSilentSuccess options handler ↔ Decides options handler := by
  unfold NoSilentSuccess executeWithRetry Decides
  constructor
  · intro h
    by_contra hcon
    rw [not_and_or, not_or] at hcon
    rcases hcon with h0 | ⟨hw, hno⟩
    · -- the loop is never entered
      obtain ⟨k, hk, -⟩ := h 1 [] (attempts_guard (by simpa using h0))
      cases hk
    · by_cases h0 : (Number.ofNat 0).le options.maxRetries = true
      · have hr : ∀ k ≤ options.maxRetries.floorNat, (handler k).isRetryable = true := by
          intro k hk
          by_contra hne
          exact hno ⟨k, hk, by simpa using hne⟩
        obtain ⟨k, hk, hok⟩ := h _ _ (attempts_fraction h0 hw hr)
        rw [lastCall_retries, Option.some.injEq] at hk
        have := hr k (by omega)
        rw [hok] at this; cases this
      · obtain ⟨k, hk, -⟩ := h 1 [] (attempts_guard (by simpa using h0))
        cases hk
  · rintro ⟨h0, hd⟩ fuel effects h
    refine attempts_fulfilled h0 (hd.imp_right ?_) h
    rintro ⟨k, hk, hkr⟩
    exact ⟨k, Nat.zero_le k, Number.ofNat_le_of_le_floorNat h0 hk, hkr⟩

theorem attempts_effects {maxRetries d : Number} {call : ℕ → Effect ρ ε} {fn : ℕ → Outcome ρ ε} :
    ∀ {fuel a : ℕ} {t : Traced ρ ε}, attempts maxRetries d call fn fuel a = some t →
      ∀ e ∈ t.1, (∃ k, e = call k) ∨ ∃ ms, e = .sleep ms
  | 0, _, _, h => by cases h
  | fuel + 1, a, t, h => by
    rw [attempts] at h
    split at h
    · split at h
      · cases h; simp
      · split at h
        · obtain ⟨u, hu, rfl⟩ := Option.map_eq_some_iff.1 h
          intro e he
          rcases List.mem_append.1 he with he | he
          · rcases List.mem_cons.1 he with rfl | he
            · exact .inl ⟨a, rfl⟩
            · exact .inr ⟨_, List.mem_singleton.1 he⟩
          · exact attempts_effects hu e he
        · cases h; simp
      · cases h; simp
    · cases h; simp

/-- Where the guard lets the first attempt through, the function is called. -/
theorem attempts_first {maxRetries d : Number} {call : ℕ → Effect ρ ε} {fn : ℕ → Outcome ρ ε} {fuel a : ℕ}
    {t : Traced ρ ε} (hle : (Number.ofNat a).le maxRetries = true)
    (h : attempts maxRetries d call fn fuel a = some t) : call a ∈ t.1 := by
  cases fuel with
  | zero => cases h
  | succ fuel =>
    rw [attempts, if_pos hle] at h
    split at h
    · cases h; simp
    · split at h
      · obtain ⟨u, -, rfl⟩ := Option.map_eq_some_iff.1 h
        simp [Traced.after]
      · cases h; simp
    · cases h; simp

/-- A loop that rejects has let the first attempt through. -/
theorem le_of_attempts_error {maxRetries d : Number} {call : ℕ → Effect ρ ε} {fn : ℕ → Outcome ρ ε} {fuel a : ℕ}
    {effects : List (Effect ρ ε)} {e : Thrown ρ ε} (h : attempts maxRetries d call fn fuel a = some (effects, .error e)) :
    (Number.ofNat a).le maxRetries = true := by
  cases fuel with
  | zero => cases h
  | succ fuel =>
    by_contra hle
    rw [attempts_guard (by simpa using hle)] at h
    cases h

theorem Handed.append_left {xs ys : List (Effect ρ ε)} (h : Handed ys) : Handed (xs ++ ys) := by
  obtain ⟨e, he, hh⟩ := h
  exact ⟨e, List.mem_append_right _ he, hh⟩

/-- Whatever `onFail` does, the error of the handler has been handed to it or to the log. -/
theorem runOnFail_handed {participant : SagaParticipant ρ ε} {topic : String} {error : ε} {fuel : ℕ} {t : Traced ρ ε}
    (h0 : (Number.ofNat 0).le options.maxRetries = true)
    (h : runOnFail options participant topic error fuel = some t) : Handed t.1 := by
  unfold runOnFail at h
  split at h
  · obtain ⟨⟨calls, outcome⟩, hex, hrest⟩ := Option.bind_eq_some_iff.1 h
    have hcall : Effect.onFail error 0 ∈ calls := attempts_first h0 hex
    have hmem : Effect.onFail error 0 ∈ t.1 := by
      cases outcome using Outcome.cases with
      | ok => cases hrest; exact hcall
      | retryable e => cases hrest; exact List.mem_append_left _ hcall
      | other e => cases hrest; exact List.mem_append_left _ hcall
    exact ⟨_, hmem, trivial⟩
  · cases h
    exact ⟨_, List.mem_singleton.2 rfl, trivial⟩

theorem callOnRetryExhausted_handed (participant : SagaParticipant ρ ε) (error : ρ) :
    Handed (callOnRetryExhausted participant error).1 := by
  refine ⟨.callOnRetryExhausted error, ?_, trivial⟩
  unfold callOnRetryExhausted
  split <;> simp

/-- The runner accounts for every outcome exactly when its loop does not fulfil silently. -/
theorem accounted_iff {participant : SagaParticipant ρ ε} {topic : String} :
    Accounted options participant topic handler ↔ NoSilentSuccess options handler := by
  constructor
  · intro h fuel effects hex
    have hrun : runWithRetry options participant topic handler fuel = some (effects, .ok ()) := by
      unfold runWithRetry
      rw [hex]
      rfl
    rcases h fuel effects hrun with hlast | ⟨e, he, hh⟩
    · exact hlast
    · -- the loop itself hands nothing on
      rcases attempts_effects hex e he with ⟨k, rfl⟩ | ⟨ms, rfl⟩
      · cases hh
      · cases hh
  · intro h fuel effects hrun
    obtain ⟨⟨calls, outcome⟩, hex, hrest⟩ := Option.bind_eq_some_iff.1 hrun
    cases outcome using Outcome.cases with
    | ok =>
      cases hrest
      exact .inl (h fuel _ hex)
    | retryable e =>
      have heq : (callOnRetryExhausted participant e).after calls = (effects, .ok ()) := Option.some.inj hrest
      have heff : calls ++ (callOnRetryExhausted participant e).1 = effects := congrArg Prod.fst heq
      rw [← heff]
      exact .inr (callOnRetryExhausted_handed participant e).append_left
    | other e =>
      obtain ⟨t, ht, heq⟩ := Option.map_eq_some_iff.1 hrest
      have heff : calls ++ t.1 = effects := congrArg Prod.fst heq
      rw [← heff]
      exact .inr (runOnFail_handed (le_of_attempts_error hex) ht).append_left

/-- The runner never acknowledges a message silently, in the loop and as a whole, exactly for the
numbers of retries and the outcomes that `Decides` names. -/
theorem never_silent_iff_decides (options : RunnerOptions) (handler : ℕ → Outcome ρ ε) :
    (NoSilentSuccess options handler ↔ Decides options handler) ∧
    ∀ participant topic, Accounted options participant topic handler ↔ Decides options handler :=
  ⟨noSilentSuccess_iff, fun _ _ => accounted_iff.trans noSilentSuccess_iff⟩

/-- A handler that always asks for a retry: with NaN it is not even called, and with half a retry it
is called once, and in both cases the promise fulfils. -/
theorem silent_for_nan_and_half :
    ¬ NoSilentSuccess ⟨none, some ⟨some .nan, none⟩⟩ (fun _ => .error (.retryable ()) : ℕ → Outcome Unit Unit) ∧
    ¬ NoSilentSuccess ⟨none, some ⟨some (.finite (1 / 2)), none⟩⟩
      (fun _ => .error (.retryable ()) : ℕ → Outcome Unit Unit) := by
  constructor
  · intro h
    obtain ⟨k, hk, -⟩ := h 1 [] rfl
    cases hk
  · rw [noSilentSuccess_iff]
    rintro ⟨-, hw | ⟨k, -, hk⟩⟩
    · have hhalf : ((⌊(1 / 2 : ℚ)⌋ : ℤ) : ℚ) = 1 / 2 := hw
      norm_num at hhalf
    · cases hk

end Silent

end Saga
