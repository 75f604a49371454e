/-
What `SagaParser.parse` returns, as its readers assume it: the ids of the event are strings that are not
empty, its topic is a string and its ancestor chain, where there is one, a list of ids. The three layers build
the event differently, and each takes something unchecked: the header layer the three headers with a default,
the baggage layer the root id and the topic of the body, the legacy layer everything.
-/
import SagaProofs.Core.Routing

namespace Saga

/-! ## What readers assume -/

/-- The fields of an event that contexts, partition keys and spans are made of, `none` where undefined. -/
structure EventFields where
  sagaId : Option Json
  rootSagaId : Option Json
  causationId : Option Json
  eventId : Option Json
  topic : Option Json
  ancestorChain : Option Json

def SagaEvent.fields (event : SagaEvent) : EventFields where
  sagaId := some (.str event.sagaId)
  rootSagaId := some (.str event.rootSagaId)
  causationId := some (.str event.causationId)
  eventId := some (.str event.eventId)
  topic := some (.str event.topic)
  ancestorChain := event.ancestorChain.map fun chain => .arr (chain.map .str)

def BaggageEvent.fields (event : BaggageEvent) : EventFields where
  sagaId := some (.str event.sagaId)
  rootSagaId := some (.str event.rootSagaId)
  causationId := some (.str event.causationId)
  eventId := some (.str event.eventId)
  topic := event.topic
  ancestorChain := none

/-- The fields of a body that is taken for an event. -/
def bodyFields (body : Json) : EventFields where
  sagaId := body.field "sagaId"
  rootSagaId := body.field "rootSagaId"
  causationId := body.field "causationId"
  eventId := body.field "eventId"
  topic := body.field "topic"
  ancestorChain := body.field "ancestorChain"

def Parsed.fields : Parsed → EventFields
  | .headers event => event.fields
  | .baggage event => event.fields
  | .body value => bodyFields value

def IsText (value : Option Json) : Prop := ∃ s, value = some (.str s)

def IsId (value : Option Json) : Prop := ∃ s, value = some (.str s) ∧ s ≠ ""

def IsChain (value : Option Json) : Prop :=
  ∀ w, value = some w → ∃ ids : List String, w = .arr (ids.map .str) ∧ ∀ id ∈ ids, id ≠ ""

structure EventFields.WellFormed (f : EventFields) : Prop where
  sagaId : IsId f.sagaId
  rootSagaId : IsId f.rootSagaId
  causationId : IsId f.causationId
  eventId : IsId f.eventId
  topic : IsText f.topic
  ancestorChain : IsChain f.ancestorChain

/-- What the layer that reads the message takes unchecked is sound: the headers with a default are not empty; the
baggage has no empty root id and the body a topic that is a string; the fields of a legacy body are themselves
as they are assumed. -/
structure SoundInput (env : ParseEnv) (message : InboundMessage) : Prop where
  headers : HasSagaHeader message → (env.json.parse message.value).isSome →
    message.headers.lookup "saga-root-id" ≠ some "" ∧ message.headers.lookup "saga-causation-id" ≠ some "" ∧
      message.headers.lookup "saga-event-id" ≠ some ""
  baggage : ¬ HasSagaHeader message → ∀ found body, baggageOf env message = some found →
    (truthy found.sagaId).isSome → env.json.parse message.value = some body → body ≠ .null →
      found.rootSagaId ≠ some "" ∧ IsText (body.field "topic")
  body : ¬ HasSagaHeader message → ∀ found body, baggageOf env message = some found → truthy found.sagaId = none →
    parseFromBody env message = some body → (bodyFields body).WellFormed

/-! ## The layers -/

section Layers

variable {env : ParseEnv} {message : InboundMessage}

theorem isId_str {s : String} : IsId (some (.str s)) ↔ s ≠ "" := by
  unfold IsId
  simp

/-- A default that is not empty leaves an empty text only where there is one. -/
theorem getD_ne_empty {value : Option String} {default : String} (h : default ≠ "") :
    value.getD default ≠ "" ↔ value ≠ some "" := by
  cases value with
  | none => simpa using h
  | some s => simp

theorem isChain_splitChain (raw : Option String) :
    IsChain ((raw.map splitChain).map fun chain => .arr (chain.map .str)) := by
  rintro w hw
  obtain ⟨chain, hchain, rfl⟩ := Option.map_eq_some_iff.1 hw
  obtain ⟨text, -, rfl⟩ := Option.map_eq_some_iff.1 hchain
  exact ⟨splitChain text, rfl, fun id hid => (mem_splitChain hid).1⟩

/-- The header layer defaults to the saga id, which is not empty. -/
theorem wellFormed_headers_iff {sagaId : String} {event : SagaEvent} (huuid : env.uuid ≠ "") (hid : sagaId ≠ "")
    (h : parseFromHeaders env message sagaId = some event) :
    event.fields.WellFormed ↔ message.headers.lookup "saga-root-id" ≠ some "" ∧
      message.headers.lookup "saga-causation-id" ≠ some "" ∧ message.headers.lookup "saga-event-id" ≠ some "" := by
  unfold parseFromHeaders at h
  obtain ⟨payload, -, hevent⟩ := Option.bind_eq_some_iff.1 h
  cases hevent
  constructor
  · intro hw
    exact ⟨(getD_ne_empty hid).1 (isId_str.1 hw.rootSagaId), (getD_ne_empty hid).1 (isId_str.1 hw.causationId),
      (getD_ne_empty huuid).1 (isId_str.1 hw.eventId)⟩
  · rintro ⟨hroot, hcausation, hevent⟩
    exact ⟨isId_str.2 hid, isId_str.2 ((getD_ne_empty hid).2 hroot), isId_str.2 ((getD_ne_empty hid).2 hcausation),
      isId_str.2 ((getD_ne_empty huuid).2 hevent), ⟨message.topic, rfl⟩, isChain_splitChain _⟩

/-- The baggage layer takes its topic from the body. -/
theorem wellFormed_baggage_iff {found : Baggage} {sagaId : String} {body : Json} (huuid : env.uuid ≠ "")
    (hf : baggageOf env message = some found) (hid : truthy found.sagaId = some sagaId)
    (hj : env.json.parse message.value = some body) (hnull : body ≠ .null) :
    ∃ event, parseFromBaggage env message = some (some event) ∧
      (event.fields.WellFormed ↔ found.rootSagaId ≠ some "" ∧ IsText (body.field "topic")) := by
  have hget : ∀ name, body.get name = some (body.field name) := by
    intro name
    cases body with
    | null => exact absurd rfl hnull
    | _ => rfl
  have hne : sagaId ≠ "" := (truthy_eq_some.1 hid).2
  unfold parseFromBaggage
  simp only [hf, hid, hj, hget, Option.bind_eq_bind, Option.bind_some, Option.pure_def]
  refine ⟨_, rfl, ?_⟩
  constructor
  · intro hw
    exact ⟨(getD_ne_empty hne).1 (isId_str.1 hw.rootSagaId), hw.topic⟩
  · rintro ⟨hroot, htopic⟩
    exact ⟨isId_str.2 hne, isId_str.2 ((getD_ne_empty hne).2 hroot), isId_str.2 hne, isId_str.2 huuid, htopic,
      fun w hw => by cases hw⟩

/-- The header layer reads a body that is JSON. -/
theorem parseFromHeaders_isSome (sagaId : String) :
    (parseFromHeaders env message sagaId).isSome ↔ (env.json.parse message.value).isSome := by
  unfold parseFromHeaders
  cases env.json.parse message.value <;> simp

theorem forall_parse_of_headers (huuid : env.uuid ≠ "") (hh : HasSagaHeader message) :
    (∀ event, parse env message = some event → event.fields.WellFormed) ↔
      ((env.json.parse message.value).isSome → message.headers.lookup "saga-root-id" ≠ some "" ∧
        message.headers.lookup "saga-causation-id" ≠ some "" ∧ message.headers.lookup "saga-event-id" ≠ some "") := by
  obtain ⟨sagaId, hid⟩ := Option.isSome_iff_exists.1 hh
  have hparse : parse env message = (parseFromHeaders env message sagaId).map .headers := by
    unfold parse
    rw [hid]
  rw [hparse, ← parseFromHeaders_isSome sagaId]
  cases hp : parseFromHeaders env message sagaId with
  | none => simp
  | some event =>
    have hne : sagaId ≠ "" := (truthy_eq_some.1 hid).2
    rw [← wellFormed_headers_iff huuid hne hp]
    simp [Parsed.fields]

theorem forall_parse_of_baggage {found : Baggage} {sagaId : String} (huuid : env.uuid ≠ "")
    (hh : ¬ HasSagaHeader message) (hf : baggageOf env message = some found) (hid : truthy found.sagaId = some sagaId) :
    (∀ event, parse env message = some event → event.fields.WellFormed) ↔
      ∀ body, env.json.parse message.value = some body → body ≠ .null →
        found.rootSagaId ≠ some "" ∧ IsText (body.field "topic") := by
  have hs : truthy (message.headers.lookup "saga-id") = none := Option.not_isSome_iff_eq_none.1 hh
  unfold parse
  rw [hs]
  rcases parseFromBaggage_cases hf hid with ⟨-, body, hj, hnull⟩ | ⟨hp, hno⟩
  · obtain ⟨event, hp, hw⟩ := wellFormed_baggage_iff huuid hf hid hj hnull
    rw [hp, hj]
    simp [Parsed.fields, hw, hnull]
  · rw [hp]
    refine iff_of_true (fun event he => by cases he) fun body hj hnull => absurd ⟨body, hj, hnull⟩ hno

theorem forall_parse_of_body {found : Baggage} (hh : ¬ HasSagaHeader message)
    (hf : baggageOf env message = some found) (hid : truthy found.sagaId = none) :
    (∀ event, parse env message = some event → event.fields.WellFormed) ↔
      ∀ body, parseFromBody env message = some body → (bodyFields body).WellFormed := by
  have hs : truthy (message.headers.lookup "saga-id") = none := Option.not_isSome_iff_eq_none.1 hh
  unfold parse
  rw [hs]
  simp only [parseFromBaggage_null hf hid]
  cases parseFromBody env message <;> simp [Parsed.fields]

/-! ## The layer that reads the message -/

theorem soundInput_of_header (hh : HasSagaHeader message) : SoundInput env message ↔
    ((env.json.parse message.value).isSome → message.headers.lookup "saga-root-id" ≠ some "" ∧
      message.headers.lookup "saga-causation-id" ≠ some "" ∧ message.headers.lookup "saga-event-id" ≠ some "") := by
  constructor
  · intro h
    exact h.headers hh
  · intro h
    exact ⟨fun _ => h, fun hn => absurd hh hn, fun hn => absurd hh hn⟩

theorem soundInput_of_baggage {found : Baggage} {sagaId : String} (hh : ¬ HasSagaHeader message)
    (hf : baggageOf env message = some found) (hid : truthy found.sagaId = some sagaId) : SoundInput env message ↔
      ∀ body, env.json.parse message.value = some body → body ≠ .null →
        found.rootSagaId ≠ some "" ∧ IsText (body.field "topic") := by
  constructor
  · intro h body
    exact h.baggage hh found body hf (by rw [hid]; rfl)
  · intro h
    refine ⟨fun hn => absurd hn hh, fun _ found' body hb _ => ?_, fun _ found' body hb hs => ?_⟩
    · rw [hf] at hb
      cases hb
      exact h body
    · rw [hf] at hb
      cases hb
      rw [hid] at hs
      cases hs

theorem soundInput_of_body {found : Baggage} (hh : ¬ HasSagaHeader message) (hf : baggageOf env message = some found)
    (hid : truthy found.sagaId = none) : SoundInput env message ↔
      ∀ body, parseFromBody env message = some body → (bodyFields body).WellFormed := by
  constructor
  · intro h body
    exact h.body hh found body hf hid
  · intro h
    refine ⟨fun hn => absurd hn hh, fun _ found' body hb hs => ?_, fun _ _ body _ _ => h body⟩
    rw [hf] at hb
    cases hb
    rw [hid] at hs
    cases hs

/-- Baggage that cannot be decoded hides the message from the other layers. -/
theorem parse_of_undecodable (hh : ¬ HasSagaHeader message) (hf : baggageOf env message = none) :
    parse env message = none := by
  have hs : truthy (message.headers.lookup "saga-id") = none := Option.not_isSome_iff_eq_none.1 hh
  unfold parse parseFromBaggage
  rw [hs, hf]
  rfl

theorem soundInput_of_undecodable (hh : ¬ HasSagaHeader message) (hf : baggageOf env message = none) :
    SoundInput env message := by
  refine ⟨fun hn => absurd hn hh, fun _ found _ hb => ?_, fun _ found _ hb => ?_⟩
  · rw [hf] at hb
    cases hb
  · rw [hf] at hb
    cases hb

/-- What is parsed is well formed exactly when the layer that reads the message takes nothing unsound. The
generated id is that of the `uuid` package, which is not empty. -/
theorem parse_wellFormed_iff (env : ParseEnv) (message : InboundMessage) (huuid : env.uuid ≠ "") :
    (∀ event, parse env message = some event → event.fields.WellFormed) ↔ SoundInput env message := by
  by_cases hh : HasSagaHeader message
  · rw [forall_parse_of_headers huuid hh, soundInput_of_header hh]
  · cases hf : baggageOf env message with
    | none =>
      refine iff_of_true (fun event he => ?_) (soundInput_of_undecodable hh hf)
      rw [parse_of_undecodable hh hf] at he
      cases he
    | some found =>
      cases hid : truthy found.sagaId with
      | none => rw [forall_parse_of_body hh hf hid, soundInput_of_body hh hf hid]
      | some sagaId => rw [forall_parse_of_baggage huuid hh hf hid, soundInput_of_baggage hh hf hid]

end Layers

/-! ## Partial messages -/

/-- A message with a saga id in its baggage and an empty object in its body. -/
def InboundMessage.bare : InboundMessage :=
  ⟨"order.created", "saga-1", "\x7b\x7d", AList.singleton "baggage" "saga.id=saga-1"⟩

/-- A saga message whose causation id is empty. -/
def InboundMessage.uncaused : InboundMessage :=
  ⟨"order.created", "saga-1", "\x7b\x7d", (AList.singleton "saga-id" "saga-1").insert "saga-causation-id" ""⟩

/-- The event of the one has no topic, and that of the other an empty causation id. -/
theorem partial_events :
    ¬ (∀ (env : ParseEnv) (message : InboundMessage) (event : Parsed), env.uuid ≠ "" →
      parse env message = some event → event.fields.WellFormed) ∧
    (parse .sample .bare).map (·.fields.topic) = some none ∧
    (parse .sample .uncaused).map (·.fields.causationId) = some (some (.str "")) := by
  have hbare : (parse .sample .bare).map (·.fields.topic) = some none := rfl
  refine ⟨fun h => ?_, hbare, rfl⟩
  obtain ⟨event, hp, htopic⟩ := Option.map_eq_some_iff.1 hbare
  obtain ⟨s, hs⟩ := (h .sample .bare event (by decide) hp).topic
  rw [htopic] at hs
  cases hs

/-- An event that was published is read well formed. -/
theorem delivered_wellFormed :
    ∃ event, parse .sample (SagaEvent.sample.delivered "") = some event ∧ event.fields.WellFormed := by
  have hheader : HasSagaHeader (SagaEvent.sample.delivered "") := rfl
  have hsound : SoundInput .sample (SagaEvent.sample.delivered "") :=
    ⟨fun _ _ => by decide, fun hn => absurd hheader hn, fun hn => absurd hheader hn⟩
  exact ⟨_, rfl, (parse_wellFormed_iff .sample (SagaEvent.sample.delivered "") (by decide)).2 hsound _ rfl⟩

end Saga
