/-
Events on the wire: `buildOutboundMessage` writes an event into the headers and the body of a
message, and `SagaParser.parse` reads one back from the headers, from W3C baggage or from the body.
-/
import SagaProofs.Core.Event
import SagaProofs.Lib.Text

namespace Saga

/-! ## Writing -/

def EventHint.toString : EventHint → String
  | .compensation => "compensation"
  | .final => "final"
  | .fork => "fork"

/-- The ancestor chain joined by commas, when there is one and it is not empty. -/
def chainHeader : Option (List String) → Option String
  | some (x :: xs) => some (Text.join ',' (x :: xs))
  | _ => none

/-- The headers of an event in the order they are set, `none` for one that is left out. -/
def headerFields (event : SagaEvent) : List (String × Option String) :=
  [("saga-id", some event.sagaId),
    ("saga-causation-id", some event.causationId),
    ("saga-event-id", some event.eventId),
    ("saga-step-name", some event.stepName),
    ("saga-published-at", some event.publishedAt),
    ("saga-schema-version", some (toString event.schemaVersion)),
    ("saga-root-id", some event.rootSagaId),
    ("saga-parent-id", truthy event.parentSagaId),
    ("saga-event-hint", event.hint.map EventHint.toString),
    ("saga-name", truthy event.sagaName),
    ("saga-description", truthy event.sagaDescription),
    ("saga-step-description", truthy event.stepDescription),
    ("saga-key", truthy event.key),
    ("saga-ancestor-chain", chainHeader event.ancestorChain),
    ("saga-occurred-at", some event.occurredAt)]

/-- `headers[name] = value`, when there is a value. -/
def setHeader (headers : Headers) (field : String × Option String) : Headers :=
  match field.2 with
  | some value => headers.insert field.1 value
  | none => headers

def buildOutboundMessage (json : JSON) (event : SagaEvent) (topicPrefix : String) : OutboundMessage :=
  { topic := topicPrefix ++ event.topic
    key := event.key.getD event.rootSagaId
    value := json.stringify event.payload
    headers := (headerFields event).foldl setHeader ∅ }

/-! ## Reading -/

/-- The identities carried by W3C baggage. -/
structure Baggage where
  sagaId : Option String
  rootSagaId : Option String
  parentSagaId : Option String

/-- What the parser takes from its surroundings: JSON, the baggage of the active OpenTelemetry
context, a generated id and the readings of the clock. -/
structure ParseEnv where
  json : JSON
  extractBaggage : Baggage
  uuid : String
  occurredNow : String
  publishedNow : String

/-- An event found in baggage: what it takes from the body is unchecked, `none` where undefined. -/
structure BaggageEvent where
  sagaId : String
  causationId : String
  eventId : String
  topic : Option Json
  stepName : String
  occurredAt : Json
  publishedAt : String
  schemaVersion : ℕ
  rootSagaId : String
  parentSagaId : Option String
  payload : Option Json

/-- What `parse` returns where it does not return `null`: an event of one of the first two layers or
a body that is taken for an event as it is. -/
inductive Parsed
  | headers (event : SagaEvent)
  | baggage (event : BaggageEvent)
  | body (value : Json)

/-- `raw.split(",").filter(Boolean)`. -/
def splitChain (raw : String) : List String := (Text.split ',' raw).filter (· ≠ "")

/-- `parseFromHeaders` after the check that there is a saga id; `none` where `JSON.parse` throws. -/
def parseFromHeaders (env : ParseEnv) (message : InboundMessage) (sagaId : String) : Option SagaEvent := do
  let headers := message.headers
  let payload ← env.json.parse message.value
  return {
    sagaId
    causationId := (headers.lookup "saga-causation-id").getD sagaId
    eventId := (headers.lookup "saga-event-id").getD env.uuid
    topic := message.topic
    stepName := (headers.lookup "saga-step-name").getD ""
    occurredAt := (headers.lookup "saga-occurred-at").getD env.occurredNow
    publishedAt := (headers.lookup "saga-published-at").getD env.publishedNow
    schemaVersion := 1
    rootSagaId := (headers.lookup "saga-root-id").getD sagaId
    parentSagaId := truthy (headers.lookup "saga-parent-id")
    ancestorChain := (truthy (headers.lookup "saga-ancestor-chain")).map splitChain
    payload
    sagaName := truthy (headers.lookup "saga-name")
    sagaDescription := truthy (headers.lookup "saga-description")
    stepDescription := truthy (headers.lookup "saga-step-description")
    hint := none
    key := truthy (headers.lookup "saga-key") }

/-- A member of a baggage header: its name and its value, both as they are written but for the white
space around them. -/
def baggageMember (entry : String) : Option (String × String) :=
  match Text.split '=' (Text.trim entry) with
  | key :: value :: _ => if key ≠ "" ∧ value ≠ "" then some (Text.trim key, Text.trim value) else none
  | _ => none

/-- A member set under its name with its value percent-decoded. -/
def setMember (result : Headers) (member : String × String) : Option Headers := do
  let value ← Text.decodeURIComponent member.2
  return result.set member.1 value

/-- `parseBaggageHeader`; `none` where `decodeURIComponent` throws. -/
def parseBaggageHeader (baggage : String) : Option Headers :=
  ((Text.split ',' baggage).filterMap baggageMember).foldlM setMember ∅

/-- The identities of the `baggage` header; `none` where `parseBaggageHeader` throws. -/
def headerBaggage (message : InboundMessage) : Option Baggage :=
  match truthy (message.headers.lookup "baggage") with
  | some header => (parseBaggageHeader header).map fun entries =>
      ⟨entries.lookup "saga.id", entries.lookup "saga.root.id", entries.lookup "saga.parent.id"⟩
  | none => some ⟨none, none, none⟩

/-- These, or those of the OpenTelemetry context where the header has no saga id. -/
def baggageOf (env : ParseEnv) (message : InboundMessage) : Option Baggage :=
  (headerBaggage message).map fun found => if (truthy found.sagaId).isSome then found else env.extractBaggage

/-- `parseFromBaggage`; the outer `none` where it throws, the inner one for `null`. -/
def parseFromBaggage (env : ParseEnv) (message : InboundMessage) : Option (Option BaggageEvent) := do
  let found ← baggageOf env message
  match truthy found.sagaId with
  | none => return none
  | some sagaId =>
    let body ← env.json.parse message.value
    let topic ← body.get "topic"
    let occurredAt ← body.get "occurredAt"
    let payload ← body.get "payload"
    return some {
      sagaId
      causationId := sagaId
      eventId := env.uuid
      topic
      stepName := ""
      occurredAt := match occurredAt with
        | none => .str env.occurredNow
        | some .null => .str env.occurredNow
        | some value => value
      publishedAt := env.publishedNow
      schemaVersion := 1
      rootSagaId := found.rootSagaId.getD sagaId
      parentSagaId := truthy found.parentSagaId
      payload }

/-- The body as an event: an object with a saga id. -/
def parseFromBody (env : ParseEnv) (message : InboundMessage) : Option Json := do
  let body ← env.json.parse message.value
  if body.truthy ∧ (body.field "sagaId").any (·.truthy) then some body else none

/-- `SagaParser.parse`, `none` where it returns `null`; whatever is thrown is caught. -/
def parse (env : ParseEnv) (message : InboundMessage) : Option Parsed :=
  match truthy (message.headers.lookup "saga-id") with
  | some sagaId => (parseFromHeaders env message sagaId).map .headers
  | none =>
    match parseFromBaggage env message with
    | none => none
    | some (some event) => some (.baggage event)
    | some none => (parseFromBody env message).map .body

end Saga
