/-
The hints of what the error hooks emit. `handleSagaMessage` makes one emit function for a message and
hands it to the handler and to both error hooks, so what a final or a fork handler does to its emits
happens to those of its error path as well.
-/
import SagaProofs.Core.Registry
import SagaProofs.Core.Runner
import SagaProofs.Core.Publisher
import SagaProofs.Lib.Run

namespace Saga

open Lts SagaRunner

/-! ## The emit function of a message -/

/-- `finalEmit`: the fork layer where the handler has one, and the wrapper otherwise. -/
def SagaRunner.finalEmit (event : SagaEvent) (config : Option HandlerConfig) (current : Option SagaContextData)
    (params : EmitParams) (subSagaId eventId now : String) : SagaEvent :=
  match forkConfig config with
  | some fork => forkEmit event fork subSagaId params eventId now
  | none => wrappedEmit event config current params eventId now

/-- A call of this function: where it is made, with what, and what is generated for it. -/
structure EmitCall where
  current : Option SagaContextData
  params : EmitParams
  subSagaId : String
  eventId : String
  now : String

def EmitCall.publishes (call : EmitCall) (event : SagaEvent) (config : Option HandlerConfig) : SagaEvent :=
  finalEmit event config call.current call.params call.subSagaId call.eventId call.now

/-- A compensation that an error hook emits. -/
def EmitCall.sample : EmitCall :=
  ⟨none, ⟨"order.cancelled", "cancel", none, .null, some .compensation, none⟩, "saga-9", "event-9", "t9"⟩

/-- The handler leaves the hints of its emits as they are: it is neither final nor a fork. -/
def LeavesHints (config : Option HandlerConfig) : Prop := config.bind (·.final) ≠ some true ∧ forkConfig config = none

theorem publishes_of_leavesHints {config : Option HandlerConfig} (h : LeavesHints config) (call : EmitCall)
    (event : SagaEvent) :
    (call.publishes event config).hint = call.params.hint ∧ (call.publishes event config).sagaId = event.sagaId ∧
      (call.publishes event config).parentSagaId = event.parentSagaId ∧
      (call.publishes event config).ancestorChain = event.ancestorChain := by
  unfold EmitCall.publishes finalEmit wrappedEmit
  rw [h.2]
  dsimp only
  rw [if_neg h.1]
  exact ⟨rfl, rfl, rfl, rfl⟩

/-- A final handler and a fork put their own hint in the place of the one given. -/
theorem hint_of_not_leavesHints {config : Option HandlerConfig} (h : ¬ LeavesHints config) (call : EmitCall)
    (event : SagaEvent) :
    (call.publishes event config).hint = some .fork ∨ (call.publishes event config).hint = some .final := by
  unfold EmitCall.publishes finalEmit
  cases hf : forkConfig config with
  | some fork => exact .inl rfl
  | none =>
    have hfinal : config.bind (·.final) = some true := by
      by_contra hn
      exact h ⟨hn, hf⟩
    refine .inr ?_
    unfold wrappedEmit
    dsimp only
    rw [if_pos hfinal]
    rfl

/-! ## The error path -/

section ErrorPath

variable {ρ ε : Type}

/-- The runner goes on: with the outcome of the call in progress, or when the sleep is over. -/
def phaseStep (options : RunnerOptions) (hooks : Hooks) :
    RunnerPhase ρ ε → Option (Outcome ρ ε) → Option (RunnerPhase ρ ε)
  | .calling hook attempt, some outcome => some (settle options hooks hook attempt outcome)
  | .sleeping hook attempt, none => some (enter options hook attempt)
  | _, _ => none

/-- `onFail` and `onRetryExhausted`. -/
def Hook.ofError : Hook ρ ε → Bool
  | .onFail _ => true
  | .onRetryExhausted _ => true
  | _ => false

end ErrorPath

/-- The message is a compensation on the saga of the event. -/
structure Compensates (event : SagaEvent) (message : OutboundMessage) : Prop where
  hint : message.headers.lookup "saga-event-hint" = some "compensation"
  sagaId : message.headers.lookup "saga-id" = some event.sagaId
  parent : message.headers.lookup "saga-parent-id" = truthy event.parentSagaId
  chain : message.headers.lookup "saga-ancestor-chain" = chainHeader event.ancestorChain

/-- Whatever the options and the hooks, and whatever outcomes lead to the call of an error hook, each
event that the hook emits as a compensation is published as one, on the saga of the event. -/
def CompensationKept (json : JSON) (topicPrefix : String) (config : Option HandlerConfig) (event : SagaEvent) : Prop :=
  ∀ (ρ ε : Type) (options : RunnerOptions) (hooks : Hooks) (hook : Hook ρ ε) (attempt : ℕ),
    Reachable (phaseStep options hooks) (enter options .handler 0) (.calling hook attempt) → hook.ofError = true →
      ∀ call : EmitCall, call.params.hint = some .compensation →
        Compensates event (buildOutboundMessage json (call.publishes event config) topicPrefix)

section Kept

variable {json : JSON} {topicPrefix : String} {config : Option HandlerConfig} {event : SagaEvent}

/-- An error of the handler leads to `onFail`, so what is kept is kept for every call. -/
theorem compensates_of_kept (h : CompensationKept json topicPrefix config event) (call : EmitCall)
    (hc : call.params.hint = some .compensation) :
    Compensates event (buildOutboundMessage json (call.publishes event config) topicPrefix) := by
  have hreach : Reachable (phaseStep ⟨none, none⟩ ⟨true, false⟩) (enter ⟨none, none⟩ (Hook.handler : Hook Unit Unit) 0)
      (.calling (.onFail ()) 0) := ⟨[some (.error (.other ()))], rfl⟩
  exact h Unit Unit ⟨none, none⟩ ⟨true, false⟩ (.onFail ()) 0 hreach rfl call hc

/-- Compensations of the error path stay compensations on the saga of the event exactly when its handler
is neither final nor a fork. -/
theorem compensationKept_iff : CompensationKept json topicPrefix config event ↔
    config.bind (·.final) ≠ some true ∧ forkConfig config = none := by
  constructor
  · intro h
    show LeavesHints config
    by_contra hn
    have hhint := (compensates_of_kept h .sample rfl).hint
    rw [buildOutboundMessage_header] at hhint
    have hfield : (EmitCall.sample.publishes event config).hint.map EventHint.toString = some "compensation" := hhint
    rcases hint_of_not_leavesHints hn .sample event with hf | hf
    · rw [hf] at hfield
      exact absurd hfield (by decide)
    · rw [hf] at hfield
      exact absurd hfield (by decide)
  · intro h ρ ε options hooks hook attempt _ _ call hc
    obtain ⟨hhint, hid, hparent, hchain⟩ := publishes_of_leavesHints h call event
    refine ⟨?_, ?_, ?_, ?_⟩
    · rw [buildOutboundMessage_header]
      show (call.publishes event config).hint.map EventHint.toString = _
      rw [hhint, hc]
      rfl
    · rw [buildOutboundMessage_header]
      show some (call.publishes event config).sagaId = _
      rw [hid]
    · rw [buildOutboundMessage_header]
      show truthy (call.publishes event config).parentSagaId = _
      rw [hparent]
    · rw [buildOutboundMessage_header]
      show chainHeader (call.publishes event config).ancestorChain = _
      rw [hchain]

end Kept

/-- A participant whose one handler has options. -/
def SagaRegistry.Participant.withOptions (options : HandlerConfig) : SagaRegistry.Participant Unit Unit :=
  ⟨"orders", AList.singleton "order.created" (), some (AList.singleton "order.created" options), none⟩

/-- The registry takes a final handler, and what its error path emits as a compensation is sent as final. -/
theorem compensation_lost :
    (∃ base, SagaRegistry.buildRouteMap [.withOptions ⟨some true, none⟩] = .ok base ∧
      (SagaRegistry.existing base "order.created").sagaOptions = some ⟨some true, none⟩) ∧
    ¬ CompensationKept JSON.ecma404 "" (some ⟨some true, none⟩) .sample := by
  refine ⟨⟨_, rfl, rfl⟩, fun h => ?_⟩
  have hhint := (compensates_of_kept h .sample rfl).hint
  rw [buildOutboundMessage_header] at hhint
  exact absurd hhint (by decide)

end Saga
