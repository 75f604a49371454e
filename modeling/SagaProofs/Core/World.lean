/-
Sagas as a system: the contexts that were established, the messages that were published, the
handlers that were entered on their delivery and the sagas that were created, each with the saga it
was created in. Any context may act again at any time and any message may be delivered any number of
times, in any order.
-/
import SagaProofs.Core.RoundTrip
import SagaProofs.Core.Publisher
import SagaProofs.Lib.Forest
import SagaProofs.Lib.Run

namespace Saga

/-! ## States -/

/-- What a context or an event belongs to: the handling of an event, or a start outside any handler
or independent of it. -/
inductive Cause
  | handling (event : SagaEvent)
  | started (sagaId : String)

/-- A context that was established, and what for. -/
structure Scope where
  ctx : SagaContextData
  cause : Cause

/-- A handler that was called: the event and the options of the handler. -/
structure Activation where
  event : SagaEvent
  config : Option HandlerConfig

structure Publication where
  event : SagaEvent
  cause : Cause

/-- The state of a run. `created` has every saga with the one it was created in, and `used` every
generated id. -/
structure World where
  scopes : List Scope
  activations : List Activation
  published : List Publication
  created : Forest String
  used : List String

def World.empty : World := ⟨[], [], [], [], []⟩

namespace World

variable (w : World)

/-- A generated id: not empty, without comma and not used before. -/
def Fresh (id : String) : Prop := ChainId id ∧ id ∉ w.used

instance (id : String) : Decidable (ChainId id) := inferInstanceAs (Decidable (_ ∧ _))

instance (id : String) : Decidable (w.Fresh id) := inferInstanceAs (Decidable (_ ∧ _))

/-- The scope a call is made in, if any; `none` where there is no such scope. -/
def ambient : Option ℕ → Option (Option Scope)
  | none => some none
  | some i => w.scopes[i]?.map some

/-- A context is established. -/
def enter (scope : Scope) : World := { w with scopes := w.scopes ++ [scope] }

/-- A saga is created and its context established. -/
def create (sagaId : String) (parent : Option String) (scope : Scope) : World :=
  { w with
    scopes := w.scopes ++ [scope]
    created := (sagaId, parent) :: w.created
    used := sagaId :: w.used }

def publish (event : SagaEvent) (cause : Cause) : World :=
  { w with
    published := w.published ++ [⟨event, cause⟩]
    used := event.eventId :: w.used }

/-- A handler is called on an event, in its context. -/
def activate (event : SagaEvent) (config : Option HandlerConfig) : World :=
  { w with
    scopes := w.scopes ++ [⟨SagaRunner.handlerContext event, .handling event⟩]
    activations := w.activations ++ [⟨event, config⟩] }

end World

/-! ## Steps -/

/-- The operations of a run: `start`, `startChild`, `emit` and both forms of `emitToParent` in a scope,
the delivery of a publication to a handler, with headers that others have added to it, and a call
of the emit function of a handler. -/
inductive SagaAct
  | start (scope : Option ℕ) (opts : Option SagaStartOptions) (sagaId : String)
  | startChild (scope : ℕ) (opts : Option SagaStartOptions) (sagaId : String)
  | emit (scope : ℕ) (params : EmitParams) (eventId now : String)
  | emitToParent (scope : ℕ) (params : EmitParams) (eventId now : String)
  | emitToParentFn (scope : ℕ)
  | deliver (publication : ℕ) (added : List (String × String)) (config : Option HandlerConfig)
  | boundEmit (activation : ℕ) (scope : Option ℕ) (params : EmitParams) (subSagaId eventId now : String)

/-- The name is not one of a saga header. -/
def foreignHeader (name : String) : Bool := !"saga-".toList.isPrefixOf name.toList

/-- The message as it arrives, with headers added on the way. -/
def arrive (sent : OutboundMessage) (added : List (String × String)) : InboundMessage :=
  { topic := sent.topic
    key := sent.key
    value := sent.value
    headers := added.foldl (fun headers h => headers.insert h.1 h.2) sent.headers }

section Steps

open SagaPublisher SagaRunner

variable (env : ParseEnv) (topicPrefix : String)

/-- One operation; `none` where it is not possible, also where the call throws. -/
def sagaStep (w : World) : SagaAct → Option World
  | .start scope opts sagaId =>
    match w.ambient scope with
    | none => none
    | some current =>
      match start (current.map (·.ctx)) opts sagaId with
      | .error _ => none
      | .ok ctx =>
        -- the saga is the child of the scope it is started in, unless it is independent
        let caller := if independent opts then none else current
        let cause := (caller.map (·.cause)).getD (.started sagaId)
        if w.Fresh sagaId then some (w.create sagaId (caller.map (·.ctx.sagaId)) ⟨ctx, cause⟩) else none
  | .startChild scope opts sagaId =>
    match w.scopes[scope]? with
    | none => none
    | some s =>
      match startChild (some s.ctx) opts sagaId with
      | .error _ => none
      | .ok ctx => if w.Fresh sagaId then some (w.create sagaId (some s.ctx.sagaId) ⟨ctx, s.cause⟩) else none
  | .emit scope params eventId now =>
    match w.scopes[scope]? with
    | none => none
    | some s =>
      match emit (some s.ctx) params eventId now with
      | .error _ => none
      | .ok event => if w.Fresh eventId then some (w.publish event s.cause) else none
  | .emitToParent scope params eventId now =>
    match w.scopes[scope]? with
    | none => none
    | some s =>
      match emitToParent (some s.ctx) params eventId now with
      | .error _ => none
      | .ok event => if w.Fresh eventId then some (w.publish event s.cause) else none
  | .emitToParentFn scope =>
    match w.scopes[scope]? with
    | none => none
    | some s =>
      match emitToParentContext (some s.ctx) with
      | .error _ => none
      | .ok ctx => some (w.enter ⟨ctx, s.cause⟩)
  | .deliver publication added config =>
    match w.published[publication]? with
    | none => none
    | some p =>
      let message := arrive (buildOutboundMessage env.json p.event topicPrefix) added
      match parse env message with
      | some (.headers event) => if added.all (foreignHeader ·.1) then some (w.activate event config) else none
      | _ => none
  | .boundEmit activation scope params subSagaId eventId now =>
    match w.activations[activation]?, w.ambient scope with
    | some a, some current =>
      match forkConfig a.config with
      | some fork =>
        if w.Fresh subSagaId ∧ w.Fresh eventId ∧ subSagaId ≠ eventId then
          some ((w.create subSagaId (some a.event.sagaId) ⟨forkContext a.event fork subSagaId, .handling a.event⟩).publish
            (forkEmit a.event fork subSagaId params eventId now) (.handling a.event))
        else none
      | none =>
        if w.Fresh eventId then
          some (w.publish (wrappedEmit a.event a.config (current.map (·.ctx)) params eventId now) (.handling a.event))
        else none
    | _, _ => none

/-- What an operation can do, with all that it checks. -/
inductive SagaMove (w : World) : SagaAct → World → Prop
  | start {scope opts sagaId current ctx} : w.ambient scope = some current →
      start (current.map (·.ctx)) opts sagaId = .ok ctx → w.Fresh sagaId →
      SagaMove w (.start scope opts sagaId)
        (w.create sagaId ((if independent opts then none else current).map (·.ctx.sagaId))
          ⟨ctx, ((if independent opts then none else current).map (·.cause)).getD (.started sagaId)⟩)
  | startChild {scope opts sagaId s ctx} : w.scopes[scope]? = some s → startChild (some s.ctx) opts sagaId = .ok ctx →
      w.Fresh sagaId → SagaMove w (.startChild scope opts sagaId) (w.create sagaId (some s.ctx.sagaId) ⟨ctx, s.cause⟩)
  | emit {scope params eventId now s event} : w.scopes[scope]? = some s →
      emit (some s.ctx) params eventId now = .ok event → w.Fresh eventId →
      SagaMove w (.emit scope params eventId now) (w.publish event s.cause)
  | emitToParent {scope params eventId now s event} : w.scopes[scope]? = some s →
      emitToParent (some s.ctx) params eventId now = .ok event → w.Fresh eventId →
      SagaMove w (.emitToParent scope params eventId now) (w.publish event s.cause)
  | emitToParentFn {scope s ctx} : w.scopes[scope]? = some s → emitToParentContext (some s.ctx) = .ok ctx →
      SagaMove w (.emitToParentFn scope) (w.enter ⟨ctx, s.cause⟩)
  | deliver {publication added config p event} : w.published[publication]? = some p →
      parse env (arrive (buildOutboundMessage env.json p.event topicPrefix) added) = some (.headers event) →
      added.all (foreignHeader ·.1) = true → SagaMove w (.deliver publication added config) (w.activate event config)
  | forkEmit {activation scope params subSagaId eventId now act current fork} : w.activations[activation]? = some act →
      w.ambient scope = some current → forkConfig act.config = some fork → w.Fresh subSagaId → w.Fresh eventId →
      subSagaId ≠ eventId →
      SagaMove w (.boundEmit activation scope params subSagaId eventId now)
        ((w.create subSagaId (some act.event.sagaId) ⟨forkContext act.event fork subSagaId, .handling act.event⟩).publish
          (forkEmit act.event fork subSagaId params eventId now) (.handling act.event))
  | boundEmit {activation scope params subSagaId eventId now act current} : w.activations[activation]? = some act →
      w.ambient scope = some current → forkConfig act.config = none → w.Fresh eventId →
      SagaMove w (.boundEmit activation scope params subSagaId eventId now)
        (w.publish (wrappedEmit act.event act.config (current.map (·.ctx)) params eventId now) (.handling act.event))

variable {env topicPrefix}

theorem sagaStep_move {w w' : World} {a : SagaAct} (h : sagaStep env topicPrefix w a = some w') :
    SagaMove env topicPrefix w a w' := by
  cases a with
  | start scope opts sagaId =>
    simp only [sagaStep] at h
    split at h
    · cases h
    · rename_i current hcur
      split at h
      · cases h
      · rename_i ctx hctx
        split at h
        · rename_i hf
          cases h; exact .start hcur hctx hf
        · cases h
  | startChild scope opts sagaId =>
    simp only [sagaStep] at h
    split at h
    · cases h
    · rename_i s hs
      split at h
      · cases h
      · rename_i ctx hctx
        split at h
        · rename_i hf
          cases h; exact .startChild hs hctx hf
        · cases h
  | emit scope params eventId now =>
    simp only [sagaStep] at h
    split at h
    · cases h
    · rename_i s hs
      split at h
      · cases h
      · rename_i event hev
        split at h
        · rename_i hf
          cases h; exact .emit hs hev hf
        · cases h
  | emitToParent scope params eventId now =>
    simp only [sagaStep] at h
    split at h
    · cases h
    · rename_i s hs
      split at h
      · cases h
      · rename_i event hev
        split at h
        · rename_i hf
          cases h; exact .emitToParent hs hev hf
        · cases h
  | emitToParentFn scope =>
    simp only [sagaStep] at h
    split at h
    · cases h
    · rename_i s hs
      split at h
      · cases h
      · rename_i ctx hctx
        cases h; exact .emitToParentFn hs hctx
  | deliver publication added config =>
    simp only [sagaStep] at h
    split at h
    · cases h
    · rename_i p hp
      split at h
      · rename_i event hparse
        split at h
        · rename_i hadded
          cases h; exact .deliver hp hparse hadded
        · cases h
      · cases h
  | boundEmit activation scope params subSagaId eventId now =>
    simp only [sagaStep] at h
    split at h
    · rename_i act current hact hcur
      split at h
      · rename_i fork hfork
        split at h
        · rename_i hf
          cases h; exact .forkEmit hact hcur hfork hf.1 hf.2.1 hf.2.2
        · cases h
      · rename_i hfork
        split at h
        · rename_i hf
          cases h; exact .boundEmit hact hcur hfork hf
        · cases h
    · cases h

/-- The scope of a call is one that was established. -/
theorem World.mem_of_ambient {w : World} {scope : Option ℕ} {current : Option Scope}
    (h : w.ambient scope = some current) : ∀ s, current = some s → s ∈ w.scopes := by
  rintro s rfl
  cases scope with
  | none => cases h
  | some i =>
    obtain ⟨x, hx, heq⟩ := Option.map_eq_some_iff.1 h
    cases heq; exact List.mem_of_getElem? hx

end Steps

/-- A message that arrives is one that is delivered, when no saga header was added. -/
theorem arrive_delivered (sent : OutboundMessage) {added : List (String × String)}
    (h : added.all (foreignHeader ·.1) = true) : Delivered sent (arrive sent added) := by
  refine ⟨rfl, rfl, rfl, fun name hname => ?_⟩
  unfold arrive
  simp only
  generalize sent.headers = headers
  induction added generalizing headers with
  | nil => rfl
  | cons p rest ih =>
    rw [List.all_cons, Bool.and_eq_true] at h
    rw [List.foldl_cons, ih h.2]
    apply AList.lookup_insert_ne
    rintro rfl
    have := h.1
    unfold foreignHeader at this
    rw [List.isPrefixOf_iff_prefix.2 hname] at this
    cases this

end Saga
