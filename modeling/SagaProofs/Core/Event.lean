/-
The data that travels through the library: events and the parameters of an emit, the ambient
saga context, the messages a transport carries and the options of a handler.
-/
import SagaProofs.Lib.Json
import SagaProofs.Lib.Number
import Mathlib.Data.List.AList

namespace Saga

/-! ## Messages -/

/-- `Record<string, string>`: the headers of a message. -/
abbrev Headers := AList fun _ : String => String

/-- `headers[name] = value` on an object literal, which drops a text that is assigned to `__proto__`. -/
def Headers.set (headers : Headers) (name value : String) : Headers :=
  if name = "__proto__" then headers else headers.insert name value

theorem Headers.lookup_set_of_ne {headers : Headers} {k name value : String} (h : k ≠ name) :
    (headers.set name value).lookup k = headers.lookup k := by
  unfold Headers.set
  split
  · rfl
  · exact AList.lookup_insert_ne h

structure OutboundMessage where
  topic : String
  key : String
  value : String
  headers : Headers
  deriving DecidableEq

structure InboundMessage where
  topic : String
  key : String
  value : String
  headers : Headers
  deriving DecidableEq

/-- A message handed to a plain handler: its body as JSON, or as text where it is not JSON. -/
structure PlainMessage where
  topic : String
  key : String
  payload : Json
  headers : Headers

/-! ## Events -/

inductive EventHint
  | compensation
  | final
  | fork
  deriving DecidableEq

structure SagaEvent where
  eventId : String
  topic : String
  sagaId : String
  causationId : String
  stepName : String
  stepDescription : Option String
  sagaName : Option String
  sagaDescription : Option String
  occurredAt : String
  publishedAt : String
  schemaVersion : ℕ
  parentSagaId : Option String
  rootSagaId : String
  ancestorChain : Option (List String)
  payload : Json
  hint : Option EventHint
  key : Option String

structure EmitParams where
  topic : String
  stepName : String
  stepDescription : Option String
  payload : Json
  hint : Option EventHint
  key : Option String

/-! ## Contexts and options -/

structure SagaContextData where
  sagaId : String
  rootSagaId : String
  parentSagaId : Option String
  ancestorChain : Option (List String)
  causationId : String
  key : Option String
  sagaName : Option String
  sagaDescription : Option String

structure ParentSagaContext where
  parentSagaId : Option String
  rootSagaId : String
  ancestorChain : Option (List String)

structure SagaStartOptions where
  sagaName : Option String
  sagaDescription : Option String
  key : Option String
  independent : Option Bool

structure ForkConfig where
  sagaName : Option String
  sagaDescription : Option String

/-- `fork?: boolean | ForkConfig`. -/
inductive ForkOption
  | flag (b : Bool)
  | config (c : ForkConfig)

structure HandlerConfig where
  final : Option Bool
  fork : Option ForkOption

/-- `retryPolicy` of the runner options. -/
structure RetryPolicy where
  maxRetries : Option Number
  initialDelayMs : Option Number

structure RunnerOptions where
  topicPrefix : Option String
  retryPolicy : Option RetryPolicy

/-! ## Truth of optional strings -/

/-- A string that counts as true: present and not empty. -/
def truthy (s : Option String) : Option String := s.filter (· ≠ "")

@[simp] theorem truthy_none : truthy none = none := rfl

theorem truthy_some {s : String} (h : s ≠ "") : truthy (some s) = some s := by
  simp [truthy, h]

@[simp] theorem truthy_empty : truthy (some "") = none := rfl

theorem truthy_eq_some {o : Option String} {s : String} : truthy o = some s ↔ o = some s ∧ s ≠ "" := by
  simp [truthy]

theorem truthy_eq_none {o : Option String} : truthy o = none ↔ o = none ∨ o = some "" := by
  cases o <;> simp [truthy]

theorem truthy_of_ne {o : Option String} (h : o ≠ some "") : truthy o = o := by
  cases o with
  | none => rfl
  | some s => exact truthy_some fun hs => h (by rw [hs])

@[simp] theorem truthy_truthy (o : Option String) : truthy (truthy o) = truthy o := by
  simp [truthy]

end Saga
