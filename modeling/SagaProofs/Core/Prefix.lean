/-
The topic prefix and what a handler sees of it. The publisher and the route map both put the prefix in
front of a topic, so the handler selected does not depend on it; the parser takes the topic of the
event from the message, so the event a saga handler receives has the prefix in its topic.
-/
import SagaProofs.Core.Registry
import SagaProofs.Core.World

namespace Saga

open SagaRegistry

/-! ## What a handler receives -/

structure IncomingEvent where
  eventId : String
  sagaId : String
  parentSagaId : Option String
  rootSagaId : String
  ancestorChain : Option (List String)
  causationId : String
  topic : String
  sagaName : Option String
  sagaDescription : Option String
  stepName : String
  stepDescription : Option String
  occurredAt : String
  payload : Json
  key : Option String

/-- The incoming event of `handleSagaMessage`. -/
def SagaEvent.incoming (event : SagaEvent) : IncomingEvent :=
  { sagaId := event.sagaId
    eventId := event.eventId
    causationId := event.causationId
    topic := event.topic
    stepName := event.stepName
    stepDescription := event.stepDescription
    occurredAt := event.occurredAt
    parentSagaId := event.parentSagaId
    rootSagaId := event.rootSagaId
    ancestorChain := event.ancestorChain
    payload := event.payload
    key := event.key
    sagaName := event.sagaName
    sagaDescription := event.sagaDescription }

/-- What a saga handler is given, by the layer of the parser; the fields of the last two are unchecked. -/
inductive Incoming
  | headers (event : IncomingEvent)
  | baggage (event : BaggageEvent)
  | body (value : Json)

def Parsed.incoming : Parsed → Incoming
  | .headers event => .headers event.incoming
  | .baggage event => .baggage event
  | .body value => .body value

/-- The handler selected, a saga handler with what it is given. -/
inductive Reception (Handler PlainHandler : Type)
  | skip
  | saga (handler : Handler) (incoming : Incoming)
  | plain (handler : PlainHandler)

section Reception

variable {Handler PlainHandler : Type}

def Dispatch.reception : Dispatch Handler PlainHandler → Reception Handler PlainHandler
  | .skip => .skip
  | .saga handler event => .saga handler event.incoming
  | .plain handler _ => .plain handler

/-- What becomes of an event that is published and delivered unchanged, with one prefix for the
publisher and the runner. -/
def receive (env : ParseEnv) (participants : List (Participant Handler PlainHandler)) (event : SagaEvent)
    (topicPrefix : String) : Except RegistryError (Reception (Registered Handler PlainHandler Handler)
      (Registered Handler PlainHandler PlainHandler)) := do
  let routeMap ← SagaRunner.startRouteMap participants topicPrefix
  let message := arrive (buildOutboundMessage env.json event topicPrefix) []
  return (handleMessage env routeMap.lookup message).reception

/-- The handler selected and what it is given are those of the run without a prefix. -/
def PrefixInvisible (env : ParseEnv) (participants : List (Participant Handler PlainHandler)) (event : SagaEvent)
    (topicPrefix : String) : Prop :=
  receive env participants event topicPrefix = receive env participants event ""

/-- The saga handler of a topic, if the registry is accepted and has one. -/
def sagaHandlerOf (participants : List (Participant Handler PlainHandler)) (topic : String) :
    Option (Registered Handler PlainHandler Handler) :=
  match buildRouteMap participants with
  | .ok base => (existing base topic).sagaHandler
  | .error _ => none

end Reception

/-! ## Parsing under a prefix -/

section Parsing

variable {env : ParseEnv} {event : SagaEvent}

/-- Without a saga id in the headers the topic of the message is not read. -/
theorem parse_topic {m m' : InboundMessage} (hv : m.value = m'.value) (hh : m.headers = m'.headers)
    (hid : truthy (m.headers.lookup "saga-id") = none) : parse env m = parse env m' := by
  have hid' : truthy (m'.headers.lookup "saga-id") = none := hh ▸ hid
  have hbag : headerBaggage m = headerBaggage m' := by
    unfold headerBaggage
    rw [hh]
  unfold parse
  rw [hid, hid']
  simp only [parseFromBaggage, parseFromBody, baggageOf, hbag, hv]

theorem parse_arrive (hid : event.sagaId ≠ "") (topicPrefix : String) :
    parse env (arrive (buildOutboundMessage env.json event topicPrefix) []) =
      (env.json.parse (env.json.stringify event.payload)).map fun payload =>
        .headers { wire topicPrefix event with payload } :=
  parse_delivered hid (arrive_delivered _ rfl)

theorem parse_arrive_empty (hid : event.sagaId = "") (topicPrefix topicPrefix' : String) :
    parse env (arrive (buildOutboundMessage env.json event topicPrefix) []) =
      parse env (arrive (buildOutboundMessage env.json event topicPrefix') []) := by
  have hd : Delivered (buildOutboundMessage env.json event topicPrefix)
      (arrive (buildOutboundMessage env.json event topicPrefix) []) := arrive_delivered _ rfl
  have hlookup := hd.lookup "saga-id" (by decide) rfl
  refine parse_topic rfl rfl ?_
  rw [hlookup, hid]
  rfl

/-- Whether a message is read does not depend on the prefix. -/
theorem parse_isSome_prefix (topicPrefix : String) :
    (parse env (arrive (buildOutboundMessage env.json event topicPrefix) [])).isSome =
      (parse env (arrive (buildOutboundMessage env.json event "") [])).isSome := by
  by_cases hid : event.sagaId = ""
  · rw [parse_arrive_empty hid topicPrefix ""]
  · rw [parse_arrive hid, parse_arrive hid, Option.isSome_map, Option.isSome_map]

end Parsing

/-! ## The prefix shows in the topic -/

section Prefix

variable {Handler PlainHandler : Type} {env : ParseEnv} {event : SagaEvent}
variable {participants : List (Participant Handler PlainHandler)} {topicPrefix : String}

/-- The reception by the entry of the topic and what is read. -/
def select (entry : Option (RouteEntry Handler PlainHandler)) (read : Option Incoming) :
    Reception Handler PlainHandler :=
  match entry with
  | none => .skip
  | some route =>
    match read with
    | some incoming => (route.sagaHandler.map (Reception.saga · incoming)).getD .skip
    | none => (route.plainHandler.map Reception.plain).getD .skip

theorem reception_eq (env : ParseEnv) (routeMap : String → Option (RouteEntry Handler PlainHandler))
    (message : InboundMessage) :
    (handleMessage env routeMap message).reception =
      select (routeMap message.topic) ((parse env message).map (·.incoming)) := by
  unfold handleMessage
  cases routeMap message.topic with
  | none => rfl
  | some route =>
    obtain ⟨sagaHandler, sagaOptions, plainHandler⟩ := route
    cases parse env message with
    | none => cases plainHandler <;> rfl
    | some parsed => cases sagaHandler <;> rfl

/-- Without a saga handler it matters only whether something is read. -/
theorem select_of_no_saga {entry : Option (RouteEntry Handler PlainHandler)} {read read' : Option Incoming}
    (hs : entry.bind (·.sagaHandler) = none) (hr : read.isSome = read'.isSome) :
    select entry read = select entry read' := by
  cases entry with
  | none => rfl
  | some route =>
    obtain ⟨sagaHandler, sagaOptions, plainHandler⟩ := route
    have hs : sagaHandler = none := hs
    subst hs
    cases read with
    | none =>
      cases read' with
      | none => rfl
      | some incoming' => cases hr
    | some incoming =>
      cases read' with
      | none => cases hr
      | some incoming' => rfl

/-- The reception of a delivery is by the entry of the topic without the prefix. -/
theorem reception_prefixed (base : RouteMap Handler PlainHandler) (topicPrefix : String) :
    (handleMessage env (SagaRunner.prefixed topicPrefix base).lookup
        (arrive (buildOutboundMessage env.json event topicPrefix) [])).reception =
      select (base.lookup event.topic)
        ((parse env (arrive (buildOutboundMessage env.json event topicPrefix) [])).map (·.incoming)) := by
  have hroute : (SagaRunner.prefixed topicPrefix base).lookup
      (arrive (buildOutboundMessage env.json event topicPrefix) []).topic = base.lookup event.topic :=
    SagaRunner.lookup_prefixed topicPrefix event.topic base
  rw [reception_eq]
  show select ((SagaRunner.prefixed topicPrefix base).lookup
    (arrive (buildOutboundMessage env.json event topicPrefix) []).topic) _ = _
  rw [hroute]

theorem bind_existing (base : RouteMap Handler PlainHandler) (topic : String) :
    (existing base topic).sagaHandler = (base.lookup topic).bind (·.sagaHandler) := by
  unfold existing
  cases base.lookup topic <;> rfl

/-- What an event comes to under a prefix is what it comes to without exactly when the prefix is empty,
the topic has no saga handler, or the event is not read from its headers: its saga id is empty or its
body is not JSON. -/
theorem prefixInvisible_iff :
    PrefixInvisible env participants event topicPrefix ↔
      topicPrefix = "" ∨ sagaHandlerOf participants event.topic = none ∨ event.sagaId = "" ∨
        env.json.parse (env.json.stringify event.payload) = none := by
  unfold PrefixInvisible receive SagaRunner.startRouteMap sagaHandlerOf
  cases hb : buildRouteMap participants with
  | error e => simp [bind, Except.bind]
  | ok base =>
    simp only [bind, Except.bind, pure, Except.pure, Except.ok.injEq]
    rw [reception_prefixed, reception_prefixed, bind_existing]
    by_cases hp : topicPrefix = ""
    · rw [hp]
      simp
    by_cases hs : (base.lookup event.topic).bind (·.sagaHandler) = none
    · refine iff_of_true (select_of_no_saga hs ?_) (.inr (.inl hs))
      rw [Option.isSome_map, Option.isSome_map]
      exact parse_isSome_prefix topicPrefix
    by_cases hid : event.sagaId = ""
    · rw [parse_arrive_empty hid topicPrefix ""]
      exact iff_of_true rfl (.inr (.inr (.inl hid)))
    rw [parse_arrive hid, parse_arrive hid]
    cases hj : env.json.parse (env.json.stringify event.payload) with
    | none => exact iff_of_true rfl (.inr (.inr (.inr rfl)))
    | some payload =>
      refine iff_of_false (fun h => ?_) (by simp [hp, hs, hid])
      -- the same handler, with the prefix in the topic of its event
      obtain ⟨handler, hhandler⟩ := Option.ne_none_iff_exists'.1 hs
      obtain ⟨entry, hentry, hsaga⟩ := Option.bind_eq_some_iff.1 hhandler
      simp only [hentry, select, Option.map_some, hsaga, Option.getD_some, Parsed.incoming, Reception.saga.injEq,
        Incoming.headers.injEq, true_and] at h
      have htopic : topicPrefix ++ event.topic = "" ++ event.topic := congrArg IncomingEvent.topic h
      exact hp ((String.append_left_inj event.topic).1 htopic)

end Prefix

/-- A participant with one saga handler. -/
def SagaRegistry.Participant.sample : Participant Unit Unit :=
  ⟨"orders", AList.singleton "order.created" (), none, none⟩

/-- Under a prefix the handler receives the topic with the prefix, and what it emits to that topic reaches
no handler. -/
theorem prefix_shows :
    ¬ PrefixInvisible .sample [.sample] .sample "prod." ∧
      receive .sample [.sample] { SagaEvent.sample with topic := "prod.order.created" } "prod." = .ok .skip := by
  constructor
  · intro h
    have hprod : receive .sample [.sample] .sample "prod." =
        .ok (.saga ⟨.sample, ()⟩ (.headers (wire "prod." .sample).incoming)) := rfl
    have hnone : receive .sample [.sample] .sample "" =
        .ok (.saga ⟨.sample, ()⟩ (.headers (wire "" .sample).incoming)) := rfl
    unfold PrefixInvisible at h
    rw [hprod, hnone] at h
    simp only [Except.ok.injEq, Reception.saga.injEq, Incoming.headers.injEq, true_and] at h
    exact absurd (congrArg IncomingEvent.topic h) (by decide)
  · rfl

end Saga
