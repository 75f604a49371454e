/-
`SagaRunner.handleMessage`: which of the two handlers of a topic a message goes to. The parser turns
whatever throws into "no event", so a message with saga metadata goes to the plain handler when
its body or its baggage cannot be read; this file says for which messages.
-/
import SagaProofs.Core.RoundTrip

namespace Saga

/-! ## Routing -/

structure RouteEntry (Handler PlainHandler : Type) where
  sagaHandler : Option Handler
  sagaOptions : Option HandlerConfig
  plainHandler : Option PlainHandler

/-- Where a message goes. -/
inductive Dispatch (Handler PlainHandler : Type)
  | skip
  | saga (handler : Handler) (event : Parsed)
  | plain (handler : PlainHandler) (message : PlainMessage)

section Dispatch

variable {Handler PlainHandler : Type}

/-- The message `handlePlainMessage` hands to the plain handler. -/
def plainMessage (env : ParseEnv) (message : InboundMessage) : PlainMessage :=
  { topic := message.topic
    key := message.key
    payload := (env.json.parse message.value).getD (.str message.value)
    headers := message.headers }

def handleMessage (env : ParseEnv) (routeMap : String → Option (RouteEntry Handler PlainHandler))
    (message : InboundMessage) : Dispatch Handler PlainHandler :=
  match routeMap message.topic with
  | none => .skip
  | some route =>
    match parse env message with
    | some event =>
      match route.sagaHandler with
      | some handler => .saga handler event
      | none => .skip
    | none =>
      match route.plainHandler with
      | some handler => .plain handler (plainMessage env message)
      | none => .skip

end Dispatch

/-! ## Saga metadata -/

section Metadata

variable (env : ParseEnv) (message : InboundMessage)

/-- The members of the `baggage` header. -/
def baggageMembers : List (String × String) :=
  match truthy (message.headers.lookup "baggage") with
  | some header => (Text.split ',' header).filterMap baggageMember
  | none => []

/-- The message has a `saga-id` header that is not empty. -/
def HasSagaHeader : Prop := (truthy (message.headers.lookup "saga-id")).isSome

/-- The `baggage` header or the OpenTelemetry context has a saga id that is not empty; of two members
with one name the later counts. -/
def HasSagaBaggage : Prop :=
  (truthy ((baggageMembers message).reverse.lookup "saga.id")).isSome ∨ (truthy env.extractBaggage.sagaId).isSome

/-- The body is an object with a saga id. -/
def HasSagaBody : Prop := (parseFromBody env message).isSome

/-- The message carries saga metadata. -/
def CarriesMetadata : Prop := HasSagaHeader message ∨ HasSagaBaggage env message ∨ HasSagaBody env message

/-- Every value in the `baggage` header is percent-encoded correctly. -/
def Decodable : Prop := ∀ p ∈ baggageMembers message, (Text.decodeURIComponent p.2).isSome

/-- With a `saga-id` header the body is JSON. Without one, a saga id in the baggage comes with baggage
that decodes and a body that is JSON other than `null`, and one in the body with such baggage. -/
structure Routable : Prop where
  header : HasSagaHeader message → (env.json.parse message.value).isSome
  baggage : ¬ HasSagaHeader message → HasSagaBaggage env message →
    Decodable message ∧ ∃ body, env.json.parse message.value = some body ∧ body ≠ .null
  body : ¬ HasSagaHeader message → HasSagaBody env message → Decodable message

/-- The message goes to exactly one of the handlers, and to the saga handler when it carries saga
metadata. -/
def RoutedByMetadata {Handler PlainHandler : Type} (dispatch : Dispatch Handler PlainHandler) : Prop :=
  match dispatch with
  | .skip => False
  | .saga _ _ => True
  | .plain _ _ => ¬ CarriesMetadata env message

end Metadata

/-! ## Reading baggage -/

section Reading

variable {env : ParseEnv} {message : InboundMessage}

theorem setMembers_isSome : ∀ {members : List (String × String)} {result : Headers},
    (members.foldlM setMember result).isSome ↔ ∀ p ∈ members, (Text.decodeURIComponent p.2).isSome
  | [], result => by simp
  | p :: rest, result => by
    rw [List.foldlM_cons, List.forall_mem_cons]
    cases hd : Text.decodeURIComponent p.2 with
    | none => simp [setMember, hd]
    | some value =>
      simp only [setMember, hd, Option.bind_eq_bind, Option.bind_some, Option.pure_def, Option.isSome_some, true_and]
      exact setMembers_isSome

/-- Of the members with one name the last is what the header reads as. -/
theorem lookup_setMembers {k : String} (hk : k ≠ "__proto__") : ∀ {members : List (String × String)}
    {result entries : Headers}, members.foldlM setMember result = some entries →
      entries.lookup k = match members.reverse.lookup k with
        | some value => Text.decodeURIComponent value
        | none => result.lookup k
  | [], result, entries, h => by
    cases h; rfl
  | (name, value) :: rest, result, entries, h => by
    rw [List.foldlM_cons] at h
    obtain ⟨next, hset, hrest⟩ := Option.bind_eq_some_iff.1 h
    obtain ⟨decoded, hv, hnext⟩ := Option.bind_eq_some_iff.1 hset
    cases hnext
    rw [lookup_setMembers hk hrest, List.reverse_cons, List.lookup_append]
    cases rest.reverse.lookup k with
    | some v => rfl
    | none =>
      by_cases hname : k = name
      · subst hname
        simpa [Headers.set, hk] using hv.symm
      · rw [Headers.lookup_set_of_ne hname]
        simp [List.lookup_cons, beq_eq_false_iff_ne.2 hname]

theorem mem_of_lookup {k v : String} {members : List (String × String)} (h : members.reverse.lookup k = some v) :
    ∃ p ∈ members, p.2 = v := by
  obtain ⟨l1, l2, hl, -⟩ := List.lookup_eq_some_iff.1 h
  refine ⟨(k, v), List.mem_reverse.1 ?_, rfl⟩
  rw [hl]
  simp

/-- Decoding keeps a value empty or not. -/
theorem truthy_decoded {value : String} (h : (Text.decodeURIComponent value).isSome) :
    (truthy (Text.decodeURIComponent value)).isSome ↔ (truthy (some value)).isSome := by
  obtain ⟨decoded, hd⟩ := Option.isSome_iff_exists.1 h
  have hempty := Text.decodeURIComponent_eq_empty hd
  rw [hd]
  simp only [truthy, Option.isSome_filter, Option.any_some, decide_not, Bool.not_eq_true', decide_eq_false_iff_not, hempty]

/-- The identities of the header are those its members decode to. -/
theorem headerBaggage_eq (message : InboundMessage) :
    headerBaggage message = ((baggageMembers message).foldlM setMember ∅).map fun entries =>
      ⟨entries.lookup "saga.id", entries.lookup "saga.root.id", entries.lookup "saga.parent.id"⟩ := by
  unfold headerBaggage baggageMembers
  cases truthy (message.headers.lookup "baggage") with
  | none => rfl
  | some header => rfl

/-- The baggage is read where it decodes, and has a saga id exactly when the message carries one there. -/
theorem baggageOf_of_decodable (hd : Decodable message) :
    ∃ found, baggageOf env message = some found ∧ ((truthy found.sagaId).isSome ↔ HasSagaBaggage env message) := by
  have hsome : ((baggageMembers message).foldlM setMember ∅).isSome := setMembers_isSome.2 hd
  obtain ⟨entries, he⟩ := Option.isSome_iff_exists.1 hsome
  have hid : (truthy (entries.lookup "saga.id")).isSome ↔
      (truthy ((baggageMembers message).reverse.lookup "saga.id")).isSome := by
    rw [lookup_setMembers (by decide) he]
    cases hl : (baggageMembers message).reverse.lookup "saga.id" with
    | none => rfl
    | some v =>
      obtain ⟨p, hp, rfl⟩ := mem_of_lookup hl
      exact truthy_decoded (hd p hp)
  unfold baggageOf HasSagaBaggage
  rw [headerBaggage_eq, he, ← hid]
  simp only [Option.map_some]
  refine ⟨_, rfl, ?_⟩
  -- the header counts where it has a saga id, and the OpenTelemetry context otherwise
  by_cases hs : (truthy (entries.lookup "saga.id")).isSome
  · rw [if_pos hs]
    exact (or_iff_left_of_imp fun _ => hs).symm
  · rw [if_neg hs]
    exact (or_iff_right hs).symm

theorem baggageOf_of_not_decodable (hd : ¬ Decodable message) : baggageOf env message = none := by
  have hnone : (baggageMembers message).foldlM setMember ∅ = none := by
    rw [← Option.not_isSome_iff_eq_none, setMembers_isSome]
    exact hd
  unfold baggageOf
  rw [headerBaggage_eq, hnone]
  rfl

/-- An event in the baggage needs a body that is JSON other than `null`. -/
theorem parseFromBaggage_cases {found : Baggage} {sagaId : String} (hf : baggageOf env message = some found)
    (hid : truthy found.sagaId = some sagaId) :
    ((∃ event, parseFromBaggage env message = some (some event)) ∧
        ∃ body, env.json.parse message.value = some body ∧ body ≠ .null) ∨
      (parseFromBaggage env message = none ∧ ¬ ∃ body, env.json.parse message.value = some body ∧ body ≠ .null) := by
  unfold parseFromBaggage
  simp only [hf, hid, Option.bind_eq_bind, Option.bind_some, Option.pure_def]
  cases env.json.parse message.value with
  | none => simp
  | some body => cases body <;> simp [Json.get]

theorem parseFromBaggage_null {found : Baggage} (hf : baggageOf env message = some found)
    (hid : truthy found.sagaId = none) : parseFromBaggage env message = some none := by
  unfold parseFromBaggage
  simp [hf, hid]

/-- A message with a `saga-id` header is read exactly when its body is JSON. -/
theorem parse_isSome_of_header (h : HasSagaHeader message) :
    (parse env message).isSome ↔ (env.json.parse message.value).isSome := by
  obtain ⟨sagaId, hs⟩ := Option.isSome_iff_exists.1 h
  unfold parse parseFromHeaders
  rw [hs]
  cases env.json.parse message.value <;> simp

/-- Without the header the baggage has to decode, and it decides where it has a saga id. -/
theorem parse_isSome_of_not_header (h : ¬ HasSagaHeader message) :
    (parse env message).isSome ↔ Decodable message ∧
      ((HasSagaBaggage env message ∧ ∃ body, env.json.parse message.value = some body ∧ body ≠ .null) ∨
        (¬ HasSagaBaggage env message ∧ HasSagaBody env message)) := by
  have hs : truthy (message.headers.lookup "saga-id") = none := Option.not_isSome_iff_eq_none.1 h
  unfold parse
  rw [hs]
  by_cases hd : Decodable message
  · have hread : ∃ found, baggageOf env message = some found ∧ _ := baggageOf_of_decodable hd
    obtain ⟨found, hf, hid⟩ := hread
    simp only [hd, true_and]
    cases hb : truthy found.sagaId with
    | none =>
      have hno : ¬ HasSagaBaggage env message := by
        rw [← hid, hb]
        simp
      rw [parseFromBaggage_null hf hb]
      simp [hno, HasSagaBody]
    | some sagaId =>
      have hyes : HasSagaBaggage env message := hid.1 (by rw [hb]; rfl)
      rcases parseFromBaggage_cases hf hb with ⟨⟨event, hp⟩, hbody⟩ | ⟨hp, hno⟩
      · rw [hp]
        exact iff_of_true rfl (.inl ⟨hyes, hbody⟩)
      · rw [hp]
        refine iff_of_false (by simp) ?_
        rintro (⟨-, hbody⟩ | ⟨hn, -⟩)
        · exact hno hbody
        · exact hn hyes
  · have hnone : parseFromBaggage env message = none := by
      unfold parseFromBaggage
      simp [baggageOf_of_not_decodable hd]
    rw [hnone]
    simp [hd]

/-- The message is routed by its metadata exactly when it is read or carries none. -/
theorem parse_isSome_iff : (CarriesMetadata env message → (parse env message).isSome) ↔ Routable env message := by
  by_cases h : HasSagaHeader message
  · rw [parse_isSome_of_header h]
    constructor
    · intro hp
      exact ⟨fun _ => hp (.inl h), fun hn => absurd h hn, fun hn => absurd h hn⟩
    · intro hr _
      exact hr.header h
  · rw [parse_isSome_of_not_header h]
    constructor
    · intro hp
      refine ⟨fun hh => absurd hh h, fun _ hb => ?_, fun _ hb => (hp (.inr (.inr hb))).1⟩
      obtain ⟨hd, hread⟩ := hp (.inr (.inl hb))
      exact ⟨hd, (hread.resolve_right fun hno => hno.1 hb).2⟩
    · rintro hr (hh | hb | hb)
      · exact absurd hh h
      · obtain ⟨hd, hbody⟩ := hr.baggage h hb
        exact ⟨hd, .inl ⟨hb, hbody⟩⟩
      · refine ⟨hr.body h hb, ?_⟩
        by_cases hbag : HasSagaBaggage env message
        · exact .inl ⟨hbag, (hr.baggage h hbag).2⟩
        · exact .inr ⟨hbag, hb⟩

end Reading

/-! ## The dispatch -/

/-- On a topic with both handlers a message goes to exactly one of them, and to the saga handler
whenever it carries saga metadata, exactly when it is routable. -/
theorem routed_iff_routable {Handler PlainHandler : Type} {env : ParseEnv} {message : InboundMessage}
    {routeMap : String → Option (RouteEntry Handler PlainHandler)} {route : RouteEntry Handler PlainHandler}
    {handler : Handler} {plain : PlainHandler} (hr : routeMap message.topic = some route)
    (hs : route.sagaHandler = some handler) (hp : route.plainHandler = some plain) :
    RoutedByMetadata env message (handleMessage env routeMap message) ↔ Routable env message := by
  rw [← parse_isSome_iff]
  unfold handleMessage
  rw [hr]
  cases hparse : parse env message with
  | none => simp [hp, RoutedByMetadata]
  | some event => simp [hs, RoutedByMetadata]

/-! ## A tombstone -/

/-- A tombstone of a saga message: a `saga-id` header and an empty body. -/
def InboundMessage.tombstone : InboundMessage :=
  ⟨"order.created", "saga-1", "", AList.insert "saga-id" "saga-1" ∅⟩

/-- A route map of one topic with both handlers. -/
def bothHandlers (topic : String) : Option (RouteEntry Unit Unit) :=
  if topic = "order.created" then some ⟨some (), none, some ()⟩ else none

/-- The tombstone carries saga metadata and goes to the plain handler. -/
theorem tombstone_routed_plain :
    ¬ RoutedByMetadata .sample .tombstone (handleMessage .sample bothHandlers .tombstone) := by
  have hd : handleMessage .sample bothHandlers .tombstone = .plain () (plainMessage .sample .tombstone) := rfl
  rw [hd]
  intro h
  exact h (.inl rfl)

/-- A message with a JSON body goes to the saga handler. -/
theorem delivered_routed_saga :
    RoutedByMetadata .sample (SagaEvent.sample.delivered "")
      (handleMessage .sample bothHandlers (SagaEvent.sample.delivered "")) := by
  have hroute : bothHandlers (SagaEvent.sample.delivered "").topic = some ⟨some (), none, some ()⟩ := rfl
  have hheader : HasSagaHeader (SagaEvent.sample.delivered "") := rfl
  have hroutable : Routable .sample (SagaEvent.sample.delivered "") :=
    { header := fun _ => rfl
      baggage := fun hn => absurd hheader hn
      body := fun hn => absurd hheader hn }
  exact (routed_iff_routable hroute rfl rfl).2 hroutable

end Saga
