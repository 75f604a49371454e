/-
The two decoders of the saga headers: the header layer of the library's parser and `extractSagaHeaders`
of the monitor. They read one set of headers as the same saga, and the monitor also reads back the hint
that the library writes and its own parser leaves out.
-/
import SagaProofs.Core.RoundTrip
import SagaProofs.Monitor.Consume

namespace Saga.Monitor

variable {Buffer : Type}

/-! ## What the two agree on -/

/-- Headers whose values are strings, as the monitor takes them. -/
def stringHeaders (headers : Headers) : List (String × Kafka.HeaderValue Buffer) :=
  headers.entries.map fun e => (e.1, .string e.2)

/-- An event of the library and what the monitor has parsed are the same saga event. The two default
the event id and the date differently, so these agree where there is a header. -/
structure SameSaga (headers : Headers) (event : SagaEvent) (parsed : ParsedSagaHeaders) : Prop where
  sagaId : parsed.sagaId = event.sagaId
  rootSagaId : parsed.sagaRootId = event.rootSagaId
  parentSagaId : parsed.sagaParentId = event.parentSagaId
  causationId : parsed.sagaCausationId = event.causationId
  stepName : parsed.sagaStepName = event.stepName
  stepDescription : parsed.sagaStepDescription = event.stepDescription
  sagaName : parsed.sagaName = event.sagaName
  sagaDescription : parsed.sagaDescription = event.sagaDescription
  eventId : (headers.lookup "saga-event-id").isSome → parsed.sagaEventId = event.eventId
  publishedAt : (headers.lookup "saga-published-at").isSome → parsed.sagaPublishedAt = event.publishedAt

/-- A hint of the library among those of the monitor. -/
def EventHint.ofLibrary : Saga.EventHint → EventHint
  | .compensation => .compensation
  | .final => .final
  | .fork => .fork

/-! ## The monitor -/

section Extract

variable (str : Buffer → String) (publishedNow : String)

theorem lookup_stringHeaders (headers : Headers) (name : String) :
    ((stringHeaders headers).lookup name).bind (headerToString str) = headers.lookup name := by
  have h : ∀ entries : List (Sigma fun _ : String => String),
      ((entries.map fun e => (e.1, Kafka.HeaderValue.string e.2)).lookup name).bind (headerToString str) =
        entries.dlookup name := by
    intro entries
    induction entries with
    | nil => rfl
    | cons e entries ih =>
      rw [List.map_cons, List.lookup_cons]
      by_cases he : name = e.1
      · subst he
        rw [beq_self_eq_true, List.dlookup_cons_eq]
        rfl
      · rw [beq_eq_false_iff_ne.2 he, List.dlookup_cons_ne entries e he]
        exact ih
  exact h headers.entries

/-- What the monitor makes of headers whose values are strings. -/
theorem extractSagaHeaders_stringHeaders (headers : Headers) :
    extractSagaHeaders str publishedNow (stringHeaders headers) =
      (truthy (headers.lookup "saga-id")).map fun sagaId =>
        { sagaId
          sagaRootId := (headers.lookup "saga-root-id").getD sagaId
          sagaParentId := truthy (headers.lookup "saga-parent-id")
          sagaCausationId := (headers.lookup "saga-causation-id").getD sagaId
          sagaEventId := (headers.lookup "saga-event-id").getD ""
          sagaStepName := (headers.lookup "saga-step-name").getD ""
          sagaStepDescription := truthy (headers.lookup "saga-step-description")
          sagaEventHint := (headers.lookup "saga-event-hint").bind fun hint => validHints.find? (·.toString = hint)
          sagaName := truthy (headers.lookup "saga-name")
          sagaDescription := truthy (headers.lookup "saga-description")
          sagaPublishedAt := (headers.lookup "saga-published-at").getD publishedNow
          sagaSchemaVersion := .parseInt ((headers.lookup "saga-schema-version").getD "1") } := by
  unfold extractSagaHeaders
  simp only [lookup_stringHeaders]

/-- A hint is read back from its text. -/
theorem find_validHints (hint : Saga.EventHint) :
    validHints.find? (·.toString = Saga.EventHint.toString hint) = some (.ofLibrary hint) := by
  cases hint <;> rfl

end Extract

/-! ## Both -/

section Both

variable {str : Buffer → String} {publishedNow : String} {env : ParseEnv} {message : InboundMessage}

theorem getD_congr_of_isSome {α : Type*} {o : Option α} (h : o.isSome) (a b : α) : o.getD a = o.getD b := by
  obtain ⟨x, rfl⟩ := Option.isSome_iff_exists.1 h
  rfl

/-- Headers with a saga id and a body that is JSON are read as the same saga by both. -/
theorem extract_parsed {sagaId : String} (hs : truthy (message.headers.lookup "saga-id") = some sagaId)
    (hj : (env.json.parse message.value).isSome) :
    ∃ event parsed, parse env message = some (.headers event) ∧
      extractSagaHeaders str publishedNow (stringHeaders message.headers) = some parsed ∧
      SameSaga message.headers event parsed := by
  obtain ⟨payload, hp⟩ := Option.isSome_iff_exists.1 hj
  have hevent : parse env message = (parseFromHeaders env message sagaId).map .headers := by
    unfold parse
    rw [hs]
  unfold parseFromHeaders at hevent
  rw [hp] at hevent
  have hparsed := extractSagaHeaders_stringHeaders str publishedNow message.headers
  rw [hs] at hparsed
  exact ⟨_, _, hevent, hparsed, rfl, rfl, rfl, rfl, rfl, rfl, rfl, rfl, fun h => getD_congr_of_isSome h _ _,
    fun h => getD_congr_of_isSome h _ _⟩

/-- Of an event that is sent the monitor reads what the library reads, and the hint. -/
theorem extract_sent (json : JSON) {event : SagaEvent} (topicPrefix : String) (hid : event.sagaId ≠ "") :
    ∃ parsed, extractSagaHeaders str publishedNow (stringHeaders (buildOutboundMessage json event topicPrefix).headers) =
        some parsed ∧
      SameSaga (buildOutboundMessage json event topicPrefix).headers (wire topicPrefix event) parsed ∧
      parsed.sagaEventHint = event.hint.map .ofLibrary := by
  have hlookup := buildOutboundMessage_header json event topicPrefix
  have hsaga : (buildOutboundMessage json event topicPrefix).headers.lookup "saga-id" = some event.sagaId :=
    hlookup "saga-id"
  have hparsed := extractSagaHeaders_stringHeaders str publishedNow (buildOutboundMessage json event topicPrefix).headers
  rw [hsaga, truthy_some hid] at hparsed
  -- what is read under each name is what the field of that name sets
  simp only [hlookup] at hparsed
  refine ⟨_, hparsed, ?_, ?_⟩
  · exact
      { sagaId := rfl
        rootSagaId := rfl
        parentSagaId := truthy_truthy event.parentSagaId
        causationId := rfl
        stepName := rfl
        stepDescription := truthy_truthy event.stepDescription
        sagaName := truthy_truthy event.sagaName
        sagaDescription := truthy_truthy event.sagaDescription
        eventId := fun _ => rfl
        publishedAt := fun _ => rfl }
  · show (event.hint.map Saga.EventHint.toString).bind _ = _
    cases event.hint with
    | none => rfl
    | some hint => exact find_validHints hint

end Both

/-- The library and the monitor decode the same saga, and of an event of the library the monitor
recovers the hint too. -/
theorem decoders_agree (str : Buffer → String) (publishedNow : String) :
    (∀ (env : ParseEnv) (message : InboundMessage), (truthy (message.headers.lookup "saga-id")).isSome →
      (env.json.parse message.value).isSome →
        ∃ event parsed, parse env message = some (.headers event) ∧
          extractSagaHeaders str publishedNow (stringHeaders message.headers) = some parsed ∧
          SameSaga message.headers event parsed) ∧
    ∀ (json : JSON) (event : SagaEvent) (topicPrefix : String), event.sagaId ≠ "" →
      ∃ parsed, extractSagaHeaders str publishedNow
          (stringHeaders (buildOutboundMessage json event topicPrefix).headers) = some parsed ∧
        SameSaga (buildOutboundMessage json event topicPrefix).headers (wire topicPrefix event) parsed ∧
        parsed.sagaEventHint = event.hint.map .ofLibrary := by
  constructor
  · intro env message hs hj
    obtain ⟨sagaId, hs⟩ := Option.isSome_iff_exists.1 hs
    exact extract_parsed hs hj
  · intro json event topicPrefix hid
    exact extract_sent json topicPrefix hid

/-- The event of a fork, as both read it. -/
theorem decoders_agree_sample :
    (∃ event parsed, parse .sample (SagaEvent.sample.delivered "") = some (.headers event) ∧
      extractSagaHeaders id "t9" (stringHeaders (SagaEvent.sample.delivered "").headers) = some parsed ∧
      SameSaga (SagaEvent.sample.delivered "").headers event parsed) ∧
    ∃ parsed, extractSagaHeaders id "t9" (stringHeaders (buildOutboundMessage .ecma404 .sample "").headers) =
        some parsed ∧ parsed.sagaEventHint = some .fork := by
  have h := decoders_agree (id : String → String) "t9"
  obtain ⟨parsed, hp, -, hhint⟩ := h.2 .ecma404 .sample "" (by decide)
  exact ⟨h.1 .sample (SagaEvent.sample.delivered "") rfl rfl, parsed, hp, hhint⟩

end Saga.Monitor
