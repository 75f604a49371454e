/-
The operations that establish saga contexts and make events: `SagaPublisher.start`, `startChild`,
`emit`, `emitToParent` and `forSaga`, and the contexts and emit functions that `handleSagaMessage`
gives a handler. The context of the caller is an argument, as `SagaContext.current()` returns it; so
are generated ids and the reading of the clock.
-/
import SagaProofs.Core.Event

namespace Saga

inductive SagaError
  | contextNotFound
  | noParent
  deriving DecidableEq

def SagaError.message : SagaError → String
  | .contextNotFound => "No saga context found. Ensure you are inside a saga handler or after sagaPublisher.start()."
  | .noParent => "No parentSagaId in current saga context."

/-- `SagaContext.require()`. -/
def SagaContext.require (current : Option SagaContextData) : Except SagaError SagaContextData :=
  match current with
  | some ctx => .ok ctx
  | none => .error .contextNotFound

namespace SagaPublisher

/-! ## Contexts -/

/-- The context of a new root saga. -/
def rootContext (opts : Option SagaStartOptions) (sagaId : String) : SagaContextData :=
  { sagaId
    rootSagaId := sagaId
    parentSagaId := none
    ancestorChain := some []
    causationId := sagaId
    key := opts.bind (·.key)
    sagaName := opts.bind (·.sagaName)
    sagaDescription := opts.bind (·.sagaDescription) }

/-- The context `startChild` runs its function in. -/
def startChild (current : Option SagaContextData) (opts : Option SagaStartOptions) (sagaId : String) :
    Except SagaError SagaContextData := do
  let ctx ← SagaContext.require current
  return {
    sagaId
    rootSagaId := ctx.rootSagaId
    parentSagaId := some ctx.sagaId
    ancestorChain := some (ctx.sagaId :: ctx.ancestorChain.getD [])
    causationId := ctx.causationId
    key := (opts.bind (·.key)).or ctx.key
    sagaName := (opts.bind (·.sagaName)).or ctx.sagaName
    sagaDescription := (opts.bind (·.sagaDescription)).or ctx.sagaDescription }

/-- `opts?.independent` counts as true. -/
def independent (opts : Option SagaStartOptions) : Bool := (opts.bind (·.independent)).getD false

/-- The context `start` runs its function in: a child where there is a context, unless the saga is
to be independent. -/
def start (current : Option SagaContextData) (opts : Option SagaStartOptions) (sagaId : String) :
    Except SagaError SagaContextData :=
  if current.isSome && !independent opts then startChild current opts sagaId
  else .ok (rootContext opts sagaId)

/-! ## Events -/

/-- What the function returned by `forSaga` has captured. -/
structure BoundEmit where
  sagaId : String
  rootSagaId : String
  parentSagaId : Option String
  ancestorChain : Option (List String)
  causationId : String
  baseKey : Option String

def forSaga (sagaId : String) (parentCtx : Option ParentSagaContext) (causationId baseKey : Option String) : BoundEmit :=
  { sagaId
    rootSagaId := (parentCtx.map (·.rootSagaId)).getD sagaId
    parentSagaId := parentCtx.bind (·.parentSagaId)
    ancestorChain := parentCtx.bind (·.ancestorChain)
    causationId := causationId.getD sagaId
    baseKey }

/-- The event the returned function publishes when it is called in the given context. -/
def BoundEmit.event (emit : BoundEmit) (current : Option SagaContextData) (params : EmitParams) (eventId now : String) :
    SagaEvent :=
  { eventId
    topic := params.topic
    sagaId := emit.sagaId
    causationId := emit.causationId
    stepName := params.stepName
    stepDescription := params.stepDescription
    sagaName := current.bind (·.sagaName)
    sagaDescription := current.bind (·.sagaDescription)
    occurredAt := now
    publishedAt := now
    schemaVersion := 1
    parentSagaId := emit.parentSagaId
    rootSagaId := emit.rootSagaId
    ancestorChain := emit.ancestorChain
    payload := params.payload
    hint := params.hint
    key := (params.key.or emit.baseKey).or (current.bind (·.key)) }

def emit (current : Option SagaContextData) (params : EmitParams) (eventId now : String) : Except SagaError SagaEvent := do
  let ctx ← SagaContext.require current
  let boundEmit := forSaga ctx.sagaId (some ⟨ctx.parentSagaId, ctx.rootSagaId, ctx.ancestorChain⟩)
    (some ctx.causationId) ctx.key
  return boundEmit.event current params eventId now

/-- The parent of the saga of a context, with the chain above it. -/
def parentOf (ctx : SagaContextData) : Except SagaError (String × List String) :=
  match truthy ctx.parentSagaId with
  | some parent => .ok (parent, (ctx.ancestorChain.getD []).drop 1)
  | none => .error .noParent

/-- `emitToParent` with parameters: the event it publishes. -/
def emitToParent (current : Option SagaContextData) (params : EmitParams) (eventId now : String) :
    Except SagaError SagaEvent := do
  let ctx ← SagaContext.require current
  let (parent, parentAncestorChain) ← parentOf ctx
  let parentEmit := forSaga parent (some ⟨parentAncestorChain.head?, ctx.rootSagaId, some parentAncestorChain⟩)
    (some ctx.causationId) ctx.key
  return parentEmit.event current params eventId now

/-- `emitToParent` with a function: the context it runs the function in. -/
def emitToParentContext (current : Option SagaContextData) : Except SagaError SagaContextData := do
  let ctx ← SagaContext.require current
  let (parent, parentAncestorChain) ← parentOf ctx
  return {
    sagaId := parent
    rootSagaId := ctx.rootSagaId
    parentSagaId := parentAncestorChain.head?
    ancestorChain := some parentAncestorChain
    causationId := ctx.causationId
    key := ctx.key
    sagaName := none
    sagaDescription := none }

section Parent

variable {ctx : SagaContextData} {parent : String} {above : List String} {params : EmitParams} {eventId now : String}

theorem parentOf_of_truthy (h : truthy ctx.parentSagaId = some parent) :
    parentOf ctx = .ok (parent, (ctx.ancestorChain.getD []).drop 1) := by
  unfold parentOf
  rw [h]

/-- `emitToParent` with parameters is an emit of the parent made in the context of the child. -/
theorem emitToParent_of_parent (hp : parentOf ctx = .ok (parent, above)) :
    emitToParent (some ctx) params eventId now =
      .ok ((forSaga parent (some ⟨above.head?, ctx.rootSagaId, some above⟩) (some ctx.causationId) ctx.key).event
        (some ctx) params eventId now) := by
  simp only [emitToParent, SagaContext.require, bind, Except.bind, hp]
  rfl

theorem emitToParentContext_of_parent (hp : parentOf ctx = .ok (parent, above)) :
    emitToParentContext (some ctx) =
      .ok ⟨parent, ctx.rootSagaId, above.head?, some above, ctx.causationId, ctx.key, none, none⟩ := by
  simp only [emitToParentContext, SagaContext.require, bind, Except.bind, hp]
  rfl

theorem emitToParent_ok {event : SagaEvent} (h : emitToParent (some ctx) params eventId now = .ok event) :
    ∃ parent above, parentOf ctx = .ok (parent, above) ∧
      event = (forSaga parent (some ⟨above.head?, ctx.rootSagaId, some above⟩) (some ctx.causationId) ctx.key).event
        (some ctx) params eventId now := by
  cases hp : parentOf ctx with
  | error e =>
    simp only [emitToParent, SagaContext.require, bind, Except.bind, hp] at h
    cases h
  | ok p =>
    rw [emitToParent_of_parent hp] at h
    cases h; exact ⟨p.1, p.2, rfl, rfl⟩

theorem emitToParentContext_ok {ctx' : SagaContextData} (h : emitToParentContext (some ctx) = .ok ctx') :
    ∃ parent above, parentOf ctx = .ok (parent, above) ∧
      ctx' = ⟨parent, ctx.rootSagaId, above.head?, some above, ctx.causationId, ctx.key, none, none⟩ := by
  cases hp : parentOf ctx with
  | error e =>
    simp only [emitToParentContext, SagaContext.require, bind, Except.bind, hp] at h
    cases h
  | ok p =>
    rw [emitToParentContext_of_parent hp] at h
    cases h; exact ⟨p.1, p.2, rfl, rfl⟩

end Parent

end SagaPublisher

/-! ## Handlers -/

namespace SagaRunner

open SagaPublisher

/-- The context a handler runs in. -/
def handlerContext (event : SagaEvent) : SagaContextData :=
  { sagaId := event.sagaId
    rootSagaId := event.rootSagaId
    parentSagaId := event.parentSagaId
    ancestorChain := event.ancestorChain
    causationId := event.eventId
    key := event.key
    sagaName := event.sagaName
    sagaDescription := event.sagaDescription }

/-- The emit function of a handler without fork: a final handler marks what it emits. -/
def wrappedEmit (event : SagaEvent) (config : Option HandlerConfig) (current : Option SagaContextData)
    (params : EmitParams) (eventId now : String) : SagaEvent :=
  let emit := forSaga event.sagaId (some ⟨event.parentSagaId, event.rootSagaId, event.ancestorChain⟩)
    (some event.eventId) event.key
  let finalParams := if config.bind (·.final) = some true then { params with hint := some .final } else params
  emit.event current finalParams eventId now

/-- `sagaOptions?.fork` where it counts as true, with the names it gives the forked sagas. -/
def forkConfig (config : Option HandlerConfig) : Option ForkConfig :=
  match config.bind (·.fork) with
  | some (.flag true) => some ⟨none, none⟩
  | some (.config c) => some c
  | _ => none

/-- The context of a saga that a fork handler's emit starts. -/
def forkContext (event : SagaEvent) (fork : ForkConfig) (subSagaId : String) : SagaContextData :=
  { sagaId := subSagaId
    rootSagaId := event.rootSagaId
    parentSagaId := some event.sagaId
    ancestorChain := some (event.sagaId :: event.ancestorChain.getD [])
    causationId := event.eventId
    key := event.key
    sagaName := fork.sagaName
    sagaDescription := fork.sagaDescription }

/-- The event a fork handler's emit publishes, called in the context of the forked saga. -/
def forkEmit (event : SagaEvent) (fork : ForkConfig) (subSagaId : String) (params : EmitParams) (eventId now : String) :
    SagaEvent :=
  let subEmit := forSaga subSagaId
    (some ⟨some event.sagaId, event.rootSagaId, some (event.sagaId :: event.ancestorChain.getD [])⟩)
    (some event.eventId) event.key
  subEmit.event (some (forkContext event fork subSagaId)) { params with hint := some .fork } eventId now

end SagaRunner

end Saga
