/-
The wire round trip of the header format: an event that is written and delivered is parsed back
with its fields, where an optional text that is empty is read as absent, and its ancestor chain
survives exactly when every id in it is non-empty and has no comma.
-/
import SagaProofs.Core.Message

namespace Saga

/-! ## Headers -/

theorem lookup_of_notMem {α : Type} {name : String} {fields : List (String × α)}
    (h : name ∉ fields.map Prod.fst) : fields.lookup name = none := by
  rw [List.lookup_eq_none_iff]
  intro p hp
  rw [bne_iff_ne]
  rintro rfl
  exact h (List.mem_map_of_mem hp)

/-- A header is the value its field sets, whatever the others are. -/
theorem lookup_setHeaders (name : String) : ∀ (fields : List (String × Option String)) (headers : Headers),
    (fields.map Prod.fst).Nodup →
      (fields.foldl setHeader headers).lookup name = ((fields.lookup name).bind id).or (headers.lookup name)
  | [], headers, _ => by simp
  | (k, v) :: rest, headers, hn => by
    rw [List.map_cons, List.nodup_cons] at hn
    rw [List.foldl_cons, lookup_setHeaders name rest _ hn.2, List.lookup_cons]
    by_cases hk : name = k
    · subst hk
      -- no later field has this name, so the value stays
      rw [lookup_of_notMem hn.1]
      cases v with
      | none => simp [setHeader]
      | some v => simp [setHeader]
    · have hset : (setHeader headers (k, v)).lookup name = headers.lookup name := by
        cases v with
        | none => rfl
        | some v => exact AList.lookup_insert_ne hk
      rw [hset, beq_eq_false_iff_ne.2 hk]

/-- The message arrives unchanged, but for headers whose names do not start with `saga-`. -/
structure Delivered (sent : OutboundMessage) (received : InboundMessage) : Prop where
  topic : received.topic = sent.topic
  key : received.key = sent.key
  value : received.value = sent.value
  headers : ∀ name : String, "saga-".toList <+: name.toList → received.headers.lookup name = sent.headers.lookup name

variable {env : ParseEnv} {event : SagaEvent} {topicPrefix : String} {message : InboundMessage}

theorem headerFields_nodup (event : SagaEvent) : ((headerFields event).map Prod.fst).Nodup := by
  unfold headerFields
  simp only [List.map_cons, List.map_nil]
  decide

/-- A header of the message of an event. -/
theorem buildOutboundMessage_header (json : JSON) (event : SagaEvent) (topicPrefix name : String) :
    (buildOutboundMessage json event topicPrefix).headers.lookup name = ((headerFields event).lookup name).bind id := by
  show ((headerFields event).foldl setHeader ∅).lookup name = _
  rw [lookup_setHeaders name _ _ (headerFields_nodup event)]
  simp

theorem Delivered.lookup (h : Delivered (buildOutboundMessage env.json event topicPrefix) message) (name : String)
    {value : Option String} (hname : "saga-".toList <+: name.toList) (hv : (headerFields event).lookup name = some value) :
    message.headers.lookup name = value := by
  rw [h.headers name hname, buildOutboundMessage_header, hv]
  rfl

/-! ## The event that is read -/

/-- The ancestor chain as the other side reads it. -/
def wireChain (chain : Option (List String)) : Option (List String) := (truthy (chainHeader chain)).map splitChain

/-- The event as the other side reads it. -/
def wire (topicPrefix : String) (event : SagaEvent) : SagaEvent :=
  { event with
    topic := topicPrefix ++ event.topic
    schemaVersion := 1
    parentSagaId := truthy event.parentSagaId
    ancestorChain := wireChain event.ancestorChain
    sagaName := truthy event.sagaName
    sagaDescription := truthy event.sagaDescription
    stepDescription := truthy event.stepDescription
    hint := none
    key := truthy event.key }

/-- What the parser makes of a delivered event: the event as it was sent, with the payload that its
JSON gives back. -/
theorem parse_delivered (hid : event.sagaId ≠ "")
    (hd : Delivered (buildOutboundMessage env.json event topicPrefix) message) :
    parse env message = (env.json.parse (env.json.stringify event.payload)).map fun payload =>
      .headers { wire topicPrefix event with payload } := by
  have hvalue : message.value = env.json.stringify event.payload := hd.value
  unfold parse
  rw [hd.lookup "saga-id" (by decide) rfl, truthy_some hid]
  unfold parseFromHeaders
  dsimp only
  rw [hd.lookup "saga-causation-id" (by decide) rfl, hd.lookup "saga-event-id" (by decide) rfl,
    hd.lookup "saga-step-name" (by decide) rfl, hd.lookup "saga-occurred-at" (by decide) rfl,
    hd.lookup "saga-published-at" (by decide) rfl, hd.lookup "saga-root-id" (by decide) rfl,
    hd.lookup "saga-parent-id" (by decide) rfl, hd.lookup "saga-ancestor-chain" (by decide) rfl,
    hd.lookup "saga-name" (by decide) rfl, hd.lookup "saga-description" (by decide) rfl,
    hd.lookup "saga-step-description" (by decide) rfl, hd.lookup "saga-key" (by decide) rfl]
  rw [hvalue, hd.topic]
  cases env.json.parse (env.json.stringify event.payload) with
  | none => rfl
  | some payload =>
    simp only [Option.getD_some, truthy_truthy]
    rfl

/-! ## The ancestor chain -/

/-- An id that can stand in the header of a chain. -/
def ChainId (id : String) : Prop := id ≠ "" ∧ ',' ∉ id.toList

theorem mem_splitChain {raw id : String} (h : id ∈ splitChain raw) : ChainId id := by
  unfold splitChain at h
  obtain ⟨hmem, hne⟩ := List.mem_filter.1 h
  exact ⟨by simpa using hne, Text.not_mem_of_mem_split hmem⟩

theorem splitChain_join {chain : List String} (hne : chain ≠ []) (h : ∀ id ∈ chain, ChainId id) :
    splitChain (Text.join ',' chain) = chain := by
  unfold splitChain
  rw [Text.split_join (fun id hid => (h id hid).2) hne]
  exact List.filter_eq_self.2 fun id hid => by simpa using (h id hid).1

theorem join_ne_empty {chain : List String} (hne : chain ≠ []) (h : ∀ id ∈ chain, ChainId id) :
    Text.join ',' chain ≠ "" := by
  match chain with
  | [] => exact absurd rfl hne
  | [x] => rw [Text.join_singleton]; exact (h x (by simp)).1
  | x :: y :: xs => exact Text.join_eq_empty

theorem truthy_chainHeader {x : String} {xs : List String} (h : ∀ id ∈ x :: xs, ChainId id) :
    truthy (chainHeader (some (x :: xs))) = some (Text.join ',' (x :: xs)) :=
  truthy_some (join_ne_empty (by simp) h)

/-- Every id that is read in a chain can stand in one. -/
theorem wireChain_ids {chain : Option (List String)} : ∀ id ∈ (wireChain chain).getD [], ChainId id := by
  intro id hid
  unfold wireChain at hid
  cases hc : truthy (chainHeader chain) with
  | none => rw [hc] at hid; cases hid
  | some raw =>
    rw [hc] at hid
    exact mem_splitChain hid

/-- A chain survives the wire exactly when each of its ids can stand in the header. -/
theorem wireChain_eq_iff (chain : Option (List String)) :
    (wireChain chain).getD [] = chain.getD [] ↔ ∀ id ∈ chain.getD [], ChainId id := by
  constructor
  · intro h id hid
    rw [← h] at hid
    exact wireChain_ids id hid
  · intro h
    match chain with
    | none => rfl
    | some [] => rfl
    | some (x :: xs) =>
      unfold wireChain
      rw [truthy_chainHeader h]
      exact splitChain_join (by simp) h

/-! ## The round trip -/

/-- A delivered event is parsed back with the fields it was built from: an empty optional text reads
as absent, the topic has the prefix, and the ancestor chain is the same (an empty one read as
absent) exactly when every id of it is non-empty and has no comma. -/
theorem parse_buildOutboundMessage (hid : event.sagaId ≠ "")
    (hj : env.json.parse (env.json.stringify event.payload) = some event.payload)
    (hd : Delivered (buildOutboundMessage env.json event topicPrefix) message) :
    ∃ event', parse env message = some (.headers event') ∧
      event'.sagaId = event.sagaId ∧ event'.causationId = event.causationId ∧ event'.eventId = event.eventId ∧
      event'.stepName = event.stepName ∧ event'.occurredAt = event.occurredAt ∧
      event'.publishedAt = event.publishedAt ∧ event'.rootSagaId = event.rootSagaId ∧ event'.payload = event.payload ∧
      event'.parentSagaId = truthy event.parentSagaId ∧ event'.stepDescription = truthy event.stepDescription ∧
      event'.sagaName = truthy event.sagaName ∧ event'.sagaDescription = truthy event.sagaDescription ∧
      event'.key = truthy event.key ∧ event'.topic = topicPrefix ++ event.topic ∧
      (event'.ancestorChain.getD [] = event.ancestorChain.getD [] ↔
        ∀ id ∈ event.ancestorChain.getD [], id ≠ "" ∧ ',' ∉ id.toList) :=
  ⟨wire topicPrefix event, by rw [parse_delivered hid hd, hj]; rfl, rfl, rfl, rfl, rfl, rfl, rfl, rfl, rfl, rfl, rfl,
    rfl, rfl, rfl, rfl, wireChain_eq_iff event.ancestorChain⟩

/-! ## Encoding again -/

/-- Two messages that a consumer that forwards events may not tell apart: one key, one body and one set of
headers, but for the hint. -/
structure SameWire (sent resent : OutboundMessage) : Prop where
  key : resent.key = sent.key
  value : resent.value = sent.value
  headers : ∀ name, name ≠ "saga-event-hint" → resent.headers.lookup name = sent.headers.lookup name

/-- A chain of ids that can stand in the header is written as it was before it was read. -/
theorem chainHeader_wireChain {chain : Option (List String)} (h : ∀ id ∈ chain.getD [], ChainId id) :
    chainHeader (wireChain chain) = chainHeader chain := by
  have hread := (wireChain_eq_iff chain).2 h
  match chain with
  | none => rfl
  | some [] => rfl
  | some (x :: xs) =>
    unfold wireChain at hread ⊢
    rw [truthy_chainHeader h] at hread ⊢
    rw [Option.map_some, Option.getD_some] at hread
    rw [Option.map_some, hread, Option.getD_some]

/-- The hint is written into its own header only. -/
theorem lookup_headerFields_hint {name : String} (hint : Option EventHint) (h : name ≠ "saga-event-hint") :
    (headerFields { event with hint }).lookup name = (headerFields event).lookup name := by
  unfold headerFields
  simp only [List.lookup_cons, beq_eq_false_iff_ne.2 h]

/-- The headers of the event that is read are those it was read from, less the hint. -/
theorem headerFields_wire (hv : event.schemaVersion = 1) (hc : ∀ id ∈ event.ancestorChain.getD [], ChainId id) :
    headerFields (wire topicPrefix event) = headerFields { event with hint := none } := by
  unfold headerFields wire
  simp only [truthy_truthy, chainHeader_wireChain hc, hv]

/-- The key of a message is that of the event that is read from it, unless the event has an empty key and a
root id. -/
theorem key_wire_iff (key : Option String) (rootSagaId : String) :
    (truthy key).getD rootSagaId = key.getD rootSagaId ↔ key ≠ some "" ∨ rootSagaId = "" := by
  by_cases h : key = some ""
  · subst h
    simp
  · rw [truthy_of_ne h]
    simp [h]

/-- An event that is read and written again makes the message it was read from exactly when it has no
empty key beside a root id. -/
theorem reencode_iff (resendPrefix : String) (hid : event.sagaId ≠ "")
    (hc : ∀ id ∈ event.ancestorChain.getD [], id ≠ "" ∧ ',' ∉ id.toList) (hv : event.schemaVersion = 1)
    (hj : env.json.parse (env.json.stringify event.payload) = some event.payload)
    (hd : Delivered (buildOutboundMessage env.json event topicPrefix) message) :
    ∃ event', parse env message = some (.headers event') ∧
      (SameWire (buildOutboundMessage env.json event topicPrefix) (buildOutboundMessage env.json event' resendPrefix) ↔
        event.key ≠ some "" ∨ event.rootSagaId = "") := by
  refine ⟨wire topicPrefix event, by rw [parse_delivered hid hd, hj]; rfl, ?_⟩
  rw [← key_wire_iff]
  refine ⟨fun h => h.key, fun hkey => ⟨hkey, rfl, fun name hname => ?_⟩⟩
  rw [buildOutboundMessage_header, buildOutboundMessage_header, headerFields_wire hv hc,
    lookup_headerFields_hint none hname]

/-! ## Samples -/

/-- An environment with ECMA-404 as its JSON. -/
def ParseEnv.sample : ParseEnv :=
  ⟨JSON.ecma404, ⟨none, none, none⟩, "generated", "2024-01-01T00:00:00.000Z", "2024-01-01T00:00:00.000Z"⟩

/-- An event of a saga two levels below its root. -/
def SagaEvent.sample : SagaEvent :=
  { eventId := "event-1"
    topic := "order.created"
    sagaId := "saga-3"
    causationId := "event-0"
    stepName := "create"
    stepDescription := some ""
    sagaName := some "order"
    sagaDescription := none
    occurredAt := "2024-01-01T00:00:00.000Z"
    publishedAt := "2024-01-01T00:00:00.000Z"
    schemaVersion := 1
    parentSagaId := some "saga-2"
    rootSagaId := "saga-1"
    ancestorChain := some ["saga-2", "saga-1"]
    payload := .obj [("orderId", .str "456")]
    hint := some .fork
    key := none }

/-- The message of an event as it arrives, with a header that tracing has added. -/
def SagaEvent.delivered (event : SagaEvent) (topicPrefix : String) : InboundMessage :=
  let sent := buildOutboundMessage JSON.ecma404 event topicPrefix
  ⟨sent.topic, sent.key, sent.value, sent.headers.insert "traceparent" "00-0af7651916cd43dd-b7ad6b7169203331-01"⟩

theorem SagaEvent.delivered_spec (event : SagaEvent) (topicPrefix : String) :
    Delivered (buildOutboundMessage JSON.ecma404 event topicPrefix) (event.delivered topicPrefix) := by
  refine ⟨rfl, rfl, rfl, fun name hname => ?_⟩
  apply AList.lookup_insert_ne
  rintro rfl
  exact absurd hname (by decide)

theorem parse_buildOutboundMessage_sample :
    ∃ event', parse .sample (SagaEvent.sample.delivered "prod.") = some (.headers event') ∧
      event'.topic = "prod.order.created" ∧ event'.stepDescription = none ∧
      event'.ancestorChain.getD [] = ["saga-2", "saga-1"] := by
  have hid : SagaEvent.sample.sagaId ≠ "" := by decide
  have hj : ParseEnv.sample.json.parse (ParseEnv.sample.json.stringify SagaEvent.sample.payload) =
      some SagaEvent.sample.payload := rfl
  obtain ⟨event', hp, -, -, -, -, -, -, -, -, -, hdesc, -, -, -, htopic, hchain⟩ :=
    parse_buildOutboundMessage hid hj (SagaEvent.delivered_spec .sample "prod.")
  exact ⟨event', hp, htopic, hdesc, hchain.2 (by decide)⟩

theorem reencode_sample :
    ∃ event', parse .sample (SagaEvent.sample.delivered "prod.") = some (.headers event') ∧
      SameWire (buildOutboundMessage JSON.ecma404 .sample "prod.") (buildOutboundMessage JSON.ecma404 event' "") := by
  have hid : SagaEvent.sample.sagaId ≠ "" := by decide
  have hj : ParseEnv.sample.json.parse (ParseEnv.sample.json.stringify SagaEvent.sample.payload) =
      some SagaEvent.sample.payload := rfl
  obtain ⟨event', hp, hw⟩ := reencode_iff "" hid (by decide) rfl hj (SagaEvent.delivered_spec .sample "prod.")
  exact ⟨event', hp, hw.2 (.inl (by decide))⟩

/-- An event with an empty key is sent without a key and forwarded under its root id. -/
theorem empty_key_moves :
    ¬ ∀ event : SagaEvent, event.sagaId ≠ "" → (∀ id ∈ event.ancestorChain.getD [], id ≠ "" ∧ ',' ∉ id.toList) →
      event.schemaVersion = 1 → JSON.ecma404.parse (JSON.ecma404.stringify event.payload) = some event.payload →
        ∃ event', parse .sample (event.delivered "") = some (.headers event') ∧
          SameWire (buildOutboundMessage JSON.ecma404 event "") (buildOutboundMessage JSON.ecma404 event' "") := by
  intro hall
  obtain ⟨event', hp, hw⟩ := hall { SagaEvent.sample with key := some "" } (by decide) (by decide) rfl rfl
  have hread : parse .sample (({ SagaEvent.sample with key := some "" } : SagaEvent).delivered "") =
      some (.headers (wire "" { SagaEvent.sample with key := some "" })) := rfl
  rw [hp] at hread
  cases hread
  exact absurd hw.key (by decide)

end Saga
