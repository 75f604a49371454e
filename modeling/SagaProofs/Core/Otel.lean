/-
`SagaPublisher.publish` under an OpenTelemetry context. `W3cOtelContext.injectBaggage` makes the baggage of
the event active around an empty function, so when `injectTraceContext` runs it is active no more: the
message carries the baggage that is active around `publish`, whatever the event is.
-/
import SagaProofs.Core.Decoding
import SagaProofs.Core.RoundTrip

namespace Saga

/-! ## The API of OpenTelemetry -/

/-- The entries of a baggage in their order. -/
abbrev BaggageEntries := List (String × String)

/-- What the library calls of `@opentelemetry/api`; the active context is the state. -/
structure OtelApi (Ctx : Type) where
  getBaggage : Ctx → Option BaggageEntries
  setBaggage : Ctx → BaggageEntries → Ctx
  contextWith : {α : Type} → Ctx → StateM Ctx α → StateM Ctx α
  inject : Ctx → Headers → Headers

/-- The entries percent-encoded, as the propagator writes them. -/
def baggageText (entries : BaggageEntries) : String :=
  Text.join ',' (entries.map fun e => Text.encodeURIComponent e.1 ++ "=" ++ Text.encodeURIComponent e.2)

/-- The header of a baggage; one without entries is not written. -/
def baggageHeader : Option BaggageEntries → Option String
  | some (e :: entries) => some (baggageText (e :: entries))
  | _ => none

/-- What is assumed of it: a context given to `context.with` is active while the function runs, `inject` writes
the baggage of its context into the `baggage` header, and leaves the headers of sagas alone. -/
structure OtelApi.Lawful {Ctx : Type} (api : OtelApi Ctx) : Prop where
  contextWith : ∀ {α : Type} (ctx : Ctx) (fn : StateM Ctx α) (active : Ctx),
    (api.contextWith ctx fn).run active = ((fn.run ctx).1, active)
  getBaggage_setBaggage : ∀ ctx entries, api.getBaggage (api.setBaggage ctx entries) = some entries
  inject_baggage : ∀ ctx headers, (api.inject ctx headers).lookup "baggage" =
    (baggageHeader (api.getBaggage ctx)).or (headers.lookup "baggage")
  inject_saga : ∀ ctx headers (name : String), "saga-".toList <+: name.toList →
    (api.inject ctx headers).lookup name = headers.lookup name

/-! ## The contexts of the library -/

/-- `OtelContext`, less its spans. -/
structure OtelContext (Ctx : Type) where
  injectBaggage : (sagaId rootSagaId : String) → (parentSagaId : Option String) → StateM Ctx Unit
  extractBaggage : StateM Ctx Baggage
  injectTraceContext : Headers → StateM Ctx Headers

def NoopOtelContext (Ctx : Type) : OtelContext Ctx where
  injectBaggage _ _ _ := pure ()
  extractBaggage := pure ⟨none, none, none⟩
  injectTraceContext headers := pure headers

/-- The entries of `injectBaggage`. -/
def sagaEntries (sagaId rootSagaId : String) (parentSagaId : Option String) : BaggageEntries :=
  ("saga.id", sagaId) :: ("saga.root.id", rootSagaId) ::
    match truthy parentSagaId with
    | some parent => [("saga.parent.id", parent)]
    | none => []

/-- What `extractBaggage` returns of the active baggage. -/
def entriesBaggage : Option BaggageEntries → Baggage
  | none => ⟨none, none, none⟩
  | some entries => ⟨entries.lookup "saga.id", entries.lookup "saga.root.id", entries.lookup "saga.parent.id"⟩

def W3cOtelContext {Ctx : Type} (api : OtelApi Ctx) : OtelContext Ctx where
  injectBaggage sagaId rootSagaId parentSagaId := do
    let ctx := api.setBaggage (← get) (sagaEntries sagaId rootSagaId parentSagaId)
    -- `context.with(ctx, () => {})`
    api.contextWith ctx (pure ())
  extractBaggage := do
    return entriesBaggage (api.getBaggage (← get))
  injectTraceContext headers := do
    return api.inject (← get) headers

/-- `publish` up to the message it hands to the transport. -/
def SagaPublisher.publish {Ctx : Type} (otelCtx : OtelContext Ctx) (json : JSON) (topicPrefix : String)
    (event : SagaEvent) : StateM Ctx OutboundMessage := do
  otelCtx.injectBaggage event.sagaId event.rootSagaId event.parentSagaId
  let message := buildOutboundMessage json event topicPrefix
  let headers ← otelCtx.injectTraceContext message.headers
  return { message with headers }

/-! ## The two layers -/

/-- A message without its `saga-` headers. -/
def OutboundMessage.withoutSagaHeaders (message : OutboundMessage) : InboundMessage where
  topic := message.topic
  key := message.key
  value := message.value
  headers := ⟨message.headers.entries.filter fun e => ¬ "saga-".toList <+: e.1.toList,
    message.headers.nodupKeys.sublist List.filter_sublist⟩

/-- The baggage layer reads the identity of the event from its message: the saga, its root and, when it is set,
its parent. -/
def BaggageAgrees (event : SagaEvent) (message : OutboundMessage) : Prop :=
  ∃ found, headerBaggage message.withoutSagaHeaders = some found ∧ found.sagaId = some event.sagaId ∧
    found.rootSagaId = some event.rootSagaId ∧
    ∀ parent, truthy event.parentSagaId = some parent → found.parentSagaId = some parent

/-! ## What is published -/

section Publish

variable {Ctx : Type} {api : OtelApi Ctx} (json : JSON) (topicPrefix : String) (event : SagaEvent) (active : Ctx)

/-- The baggage of the event is active for no step of `publish`. -/
theorem injectBaggage_run (hl : api.Lawful) (sagaId rootSagaId : String) (parentSagaId : Option String) :
    ((W3cOtelContext api).injectBaggage sagaId rootSagaId parentSagaId).run active = ((), active) :=
  hl.contextWith (api.setBaggage active (sagaEntries sagaId rootSagaId parentSagaId)) (pure ()) active

/-- The headers are injected from the context of the caller. -/
theorem publish_run (hl : api.Lawful) :
    (SagaPublisher.publish (W3cOtelContext api) json topicPrefix event).run active =
      ({ buildOutboundMessage json event topicPrefix with
          headers := api.inject active (buildOutboundMessage json event topicPrefix).headers }, active) := by
  unfold SagaPublisher.publish
  rw [StateT.run_bind, injectBaggage_run active hl]
  rfl

/-- Without OpenTelemetry what is published is the message of the event. -/
theorem publish_noop : (SagaPublisher.publish (NoopOtelContext Ctx) json topicPrefix event).run active =
    (buildOutboundMessage json event topicPrefix, active) := rfl

/-- The header layer is that of a message sent without OpenTelemetry. -/
theorem publish_delivered (hl : api.Lawful) {received : InboundMessage}
    (h : Delivered ((SagaPublisher.publish (W3cOtelContext api) json topicPrefix event).run active).1 received) :
    Delivered (buildOutboundMessage json event topicPrefix) received := by
  rw [publish_run json topicPrefix event active hl] at h
  refine ⟨h.topic, h.key, h.value, fun name hname => ?_⟩
  rw [h.headers name hname]
  exact hl.inject_saga _ _ name hname

/-- The baggage of a message is that of the caller. -/
theorem publish_baggage (hl : api.Lawful) :
    ((SagaPublisher.publish (W3cOtelContext api) json topicPrefix event).run active).1.headers.lookup "baggage" =
      baggageHeader (api.getBaggage active) := by
  have hnone : (buildOutboundMessage json event topicPrefix).headers.lookup "baggage" = none := by
    rw [buildOutboundMessage_header]
    rfl
  rw [publish_run json topicPrefix event active hl]
  show (api.inject active (buildOutboundMessage json event topicPrefix).headers).lookup "baggage" = _
  rw [hl.inject_baggage, hnone, Option.or_none]

theorem lookup_withoutSagaHeaders (message : OutboundMessage) :
    message.withoutSagaHeaders.headers.lookup "baggage" = message.headers.lookup "baggage" := by
  apply Option.ext
  intro value
  rw [← Option.mem_def, ← Option.mem_def, AList.mem_lookup_iff, AList.mem_lookup_iff]
  unfold OutboundMessage.withoutSagaHeaders
  rw [List.mem_filter]
  refine and_iff_left ?_
  show decide (¬ "saga-".toList <+: "baggage".toList) = true
  decide

theorem headerBaggage_of_none {message : InboundMessage} (h : message.headers.lookup "baggage" = none) :
    headerBaggage message = some ⟨none, none, none⟩ := by
  unfold headerBaggage
  rw [h]
  rfl

theorem headerBaggage_of_some {message : InboundMessage} {header : String}
    (h : message.headers.lookup "baggage" = some header) (hne : header ≠ "") :
    headerBaggage message = (parseBaggageHeader header).map fun entries =>
      ⟨entries.lookup "saga.id", entries.lookup "saga.root.id", entries.lookup "saga.parent.id"⟩ := by
  unfold headerBaggage
  rw [h, truthy_some hne]

/-- Where no other baggage is active, the message of no event carries its identity as baggage. -/
theorem publish_never_agrees (hl : api.Lawful) (hnone : api.getBaggage active = none) :
    ¬ BaggageAgrees event ((SagaPublisher.publish (W3cOtelContext api) json topicPrefix event).run active).1 := by
  have hlookup := publish_baggage json topicPrefix event active hl
  rintro ⟨found, hfound, hid, -⟩
  rw [headerBaggage_of_none (by rw [lookup_withoutSagaHeaders, hlookup, hnone]; rfl)] at hfound
  cases hfound
  cases hid

end Publish

/-! ## The baggage that is lost -/

section Lost

/-- A member of a percent-encoded text. -/
def encodedMember (key : W3C.Token) (value : String) : W3C.Member :=
  compactMember key (.encode value) (by
    show (Text.decodeURIComponent (Text.encodeURIComponent value)).isSome
    rw [Text.decodeURIComponent_encodeURIComponent]
    rfl) []

theorem encodedMember_text (key : W3C.Token) (value : String) :
    (encodedMember key value).text = key.text ++ "=" ++ Text.encodeURIComponent value := by
  rw [← String.toList_inj]
  simp [encodedMember, compactMember, W3C.Member.text, W3C.Member.tailChars, W3C.Member.propertyChars, W3C.Value.encode]

theorem encodedMember_plain (key : W3C.Token) (value : String) : Plain (encodedMember key value) :=
  ⟨rfl, W3C.Value.equals_notMem_encode value⟩

theorem encodedMember_isRead (key : W3C.Token) (value : String) : IsRead (encodedMember key value) ↔ value ≠ "" := by
  rw [ne_eq, ← Text.encodeURIComponent_eq_empty]
  constructor
  · intro h
    exact h.filled.resolve_right fun hprops => hprops rfl
  · exact (encodedMember_plain key value).isRead

theorem decode_encodedMember (key : W3C.Token) (value : String) :
    Text.decodeURIComponent (readText (encodedMember key value)) = some value := by
  rw [(encodedMember_plain key value).readText_eq]
  exact Text.decodeURIComponent_encodeURIComponent value

/-- Of members with names of their own each is read as its text, unless that is empty. -/
theorem last_encodedMember (name : String) : ∀ {es : List (W3C.Token × String)}, (es.map (·.1.text)).Nodup →
    ((W3C.last IsRead (es.map fun e => encodedMember e.1 e.2) name).bind fun m => Text.decodeURIComponent (readText m)) =
      truthy ((es.map fun e => (e.1.text, e.2)).lookup name)
  | [], _ => rfl
  | e :: es, hn => by
    rw [List.map_cons, List.nodup_cons] at hn
    have ih := last_encodedMember name hn.2
    rw [List.map_cons, List.map_cons, List.lookup_cons]
    by_cases hk : e.1.text = name
    · have hrest : W3C.last IsRead (es.map fun e => encodedMember e.1 e.2) name = none := by
        rw [W3C.last_eq_none]
        intro m hm heq
        obtain ⟨e', he', rfl⟩ := List.mem_map.1 hm
        exact absurd (List.mem_map.2 ⟨e', he', heq.trans hk.symm⟩) hn.1
      rw [W3C.last_cons_of_eq hk hrest, beq_iff_eq.2 hk.symm]
      by_cases hv : e.2 = ""
      · rw [if_neg fun hread => (encodedMember_isRead e.1 e.2).1 hread hv, hv]
        rfl
      · rw [if_pos ((encodedMember_isRead e.1 e.2).2 hv), Option.bind_some, decode_encodedMember, truthy_some hv]
    · rw [W3C.last_cons_of_ne _ hk, ih, beq_eq_false_iff_ne.2 (Ne.symm hk)]

/-- A header of percent-encoded texts is read back, but for texts that are empty. -/
theorem parseBaggageHeader_encodedMember {es : List (W3C.Token × String)} (hn : (es.map (·.1.text)).Nodup) :
    ∃ entries, parseBaggageHeader (W3C.header (es.map fun e => encodedMember e.1 e.2)) = some entries ∧
      ∀ name, name ≠ "__proto__" → entries.lookup name = truthy ((es.map fun e => (e.1.text, e.2)).lookup name) := by
  have hsome : (parseBaggageHeader (W3C.header (es.map fun e => encodedMember e.1 e.2))).isSome := by
    rw [parseBaggageHeader_isSome]
    intro m hm _
    obtain ⟨e, -, rfl⟩ := List.mem_map.1 hm
    rw [decode_encodedMember]
    rfl
  obtain ⟨entries, he⟩ := Option.isSome_iff_exists.1 hsome
  refine ⟨entries, he, fun name hname => ?_⟩
  rw [lookup_header he hname]
  exact last_encodedMember name hn

theorem sagaName_spec : ∀ name ∈ ["saga.id", "saga.root.id", "saga.parent.id"],
    name ≠ "" ∧ name.toList.all W3C.isTchar = true := by
  decide

/-- The names of the saga members are tokens. -/
def sagaToken (name : String) (h : name ∈ ["saga.id", "saga.root.id", "saga.parent.id"]) : W3C.Token :=
  ⟨name, (sagaName_spec name h).1, (sagaName_spec name h).2⟩

theorem sagaToken_text {name : String} (h : name ∈ ["saga.id", "saga.root.id", "saga.parent.id"]) :
    (sagaToken name h).text = name :=
  rfl

/-- The entries of `injectBaggage`, their names as tokens. -/
def sagaTokens (sagaId rootSagaId : String) (parentSagaId : Option String) : List (W3C.Token × String) :=
  (sagaToken "saga.id" (by decide), sagaId) :: (sagaToken "saga.root.id" (by decide), rootSagaId) ::
    match truthy parentSagaId with
    | some parent => [(sagaToken "saga.parent.id" (by decide), parent)]
    | none => []

variable (sagaId rootSagaId : String) (parentSagaId : Option String)

theorem sagaTokens_nodup : ((sagaTokens sagaId rootSagaId parentSagaId).map (·.1.text)).Nodup := by
  unfold sagaTokens
  cases truthy parentSagaId with
  | none => exact (by decide : ["saga.id", "saga.root.id"].Nodup)
  | some parent => exact (by decide : ["saga.id", "saga.root.id", "saga.parent.id"].Nodup)

theorem map_sagaTokens : (sagaTokens sagaId rootSagaId parentSagaId).map (fun e => (e.1.text, e.2)) =
    sagaEntries sagaId rootSagaId parentSagaId := by
  unfold sagaTokens sagaEntries
  cases truthy parentSagaId <;> rfl

theorem baggageText_sagaEntries : baggageText (sagaEntries sagaId rootSagaId parentSagaId) =
    W3C.header ((sagaTokens sagaId rootSagaId parentSagaId).map fun e => encodedMember e.1 e.2) := by
  have hid : Text.encodeURIComponent "saga.id" = "saga.id" := by decide
  have hroot : Text.encodeURIComponent "saga.root.id" = "saga.root.id" := by decide
  have hparent : Text.encodeURIComponent "saga.parent.id" = "saga.parent.id" := by decide
  unfold baggageText W3C.header sagaEntries sagaTokens
  cases truthy parentSagaId with
  | none => simp only [List.map_cons, List.map_nil, encodedMember_text, sagaToken_text, hid, hroot]
  | some parent => simp only [List.map_cons, List.map_nil, encodedMember_text, sagaToken_text, hid, hroot, hparent]

theorem lookup_sagaEntries : (sagaEntries sagaId rootSagaId parentSagaId).lookup "saga.id" = some sagaId ∧
    (sagaEntries sagaId rootSagaId parentSagaId).lookup "saga.root.id" = some rootSagaId ∧
    (sagaEntries sagaId rootSagaId parentSagaId).lookup "saga.parent.id" = truthy parentSagaId := by
  unfold sagaEntries
  cases truthy parentSagaId with
  | none => exact ⟨rfl, rfl, rfl⟩
  | some parent => exact ⟨rfl, rfl, rfl⟩

/-- The parser would find them in the active context as well. -/
theorem extractBaggage_run {Ctx : Type} {api : OtelApi Ctx} (hl : api.Lawful) (active : Ctx) :
    ((W3cOtelContext api).extractBaggage.run (api.setBaggage active (sagaEntries sagaId rootSagaId parentSagaId))).1 =
      ⟨some sagaId, some rootSagaId, truthy parentSagaId⟩ := by
  obtain ⟨hid, hroot, hparent⟩ := lookup_sagaEntries sagaId rootSagaId parentSagaId
  show entriesBaggage (api.getBaggage (api.setBaggage active (sagaEntries sagaId rootSagaId parentSagaId))) = _
  rw [hl.getBaggage_setBaggage, entriesBaggage, hid, hroot, hparent]

/-- Had `publish` run where the baggage of the event is active, the two layers would agree for every event with
ids that are not empty. -/
theorem publish_agrees_iff {Ctx : Type} {api : OtelApi Ctx} (hl : api.Lawful) (json : JSON) (topicPrefix : String)
    (event : SagaEvent) (active : Ctx) :
    BaggageAgrees event ((SagaPublisher.publish (W3cOtelContext api) json topicPrefix event).run
        (api.setBaggage active (sagaEntries event.sagaId event.rootSagaId event.parentSagaId))).1 ↔
      event.sagaId ≠ "" ∧ event.rootSagaId ≠ "" := by
  obtain ⟨entries, hparse, hentries⟩ := parseBaggageHeader_encodedMember
    (sagaTokens_nodup event.sagaId event.rootSagaId event.parentSagaId)
  obtain ⟨hid, hroot, hparent⟩ := lookup_sagaEntries event.sagaId event.rootSagaId event.parentSagaId
  rw [map_sagaTokens] at hentries
  rw [← baggageText_sagaEntries] at hparse
  have hheader : ((SagaPublisher.publish (W3cOtelContext api) json topicPrefix event).run
      (api.setBaggage active (sagaEntries event.sagaId event.rootSagaId event.parentSagaId))).1.headers.lookup "baggage" =
        some (baggageText (sagaEntries event.sagaId event.rootSagaId event.parentSagaId)) := by
    rw [publish_baggage json topicPrefix event _ hl, hl.getBaggage_setBaggage]
    rfl
  have hread := headerBaggage_of_some ((lookup_withoutSagaHeaders _).trans hheader) Text.join_eq_empty
  rw [hparse, Option.map_some, hentries "saga.id" (by decide), hentries "saga.root.id" (by decide),
    hentries "saga.parent.id" (by decide), hid, hroot, hparent, truthy_truthy] at hread
  unfold BaggageAgrees
  rw [hread]
  constructor
  · rintro ⟨found, hfound, hsaga, hsagaRoot, -⟩
    cases hfound
    have hid : truthy (some event.sagaId) = some event.sagaId := hsaga
    have hroot : truthy (some event.rootSagaId) = some event.rootSagaId := hsagaRoot
    exact ⟨(truthy_eq_some.1 hid).2, (truthy_eq_some.1 hroot).2⟩
  · rintro ⟨hsaga, hsagaRoot⟩
    exact ⟨_, rfl, truthy_some hsaga, truthy_some hsagaRoot, fun parent hp => hp⟩

end Lost

/-! ## A message without baggage -/

/-- Contexts that carry a baggage and nothing else. -/
def baggageApi : OtelApi (Option BaggageEntries) where
  getBaggage ctx := ctx
  setBaggage _ entries := some entries
  contextWith ctx fn := fun active => ((fn.run ctx).1, active)
  inject ctx headers :=
    match baggageHeader ctx with
    | some header => headers.insert "baggage" header
    | none => headers

theorem baggageApi_lawful : baggageApi.Lawful := by
  refine ⟨fun _ _ _ => rfl, fun _ _ => rfl, fun ctx headers => ?_, fun ctx headers name hname => ?_⟩
  · show (match baggageHeader ctx with
      | some header => headers.insert "baggage" header
      | none => headers).lookup "baggage" = (baggageHeader ctx).or (headers.lookup "baggage")
    cases baggageHeader ctx with
    | none => rfl
    | some header => exact AList.lookup_insert headers
  · have hne : name ≠ "baggage" := by
      rintro rfl
      exact absurd hname (by decide)
    show (match baggageHeader ctx with
      | some header => headers.insert "baggage" header
      | none => headers).lookup name = headers.lookup name
    cases baggageHeader ctx with
    | none => rfl
    | some header => exact AList.lookup_insert_ne hne

/-- The event of a saga is published without its identity as baggage. -/
theorem sample_never_agrees : ¬ BaggageAgrees .sample
    ((SagaPublisher.publish (W3cOtelContext baggageApi) JSON.ecma404 "" .sample).run none).1 :=
  publish_never_agrees JSON.ecma404 "" .sample none baggageApi_lawful rfl

/-- Its message has no baggage at all. -/
theorem sample_without_baggage :
    ((SagaPublisher.publish (W3cOtelContext baggageApi) JSON.ecma404 "" .sample).run none).1.headers.lookup "baggage" =
        none ∧
      ¬ ∀ event, BaggageAgrees event
        ((SagaPublisher.publish (W3cOtelContext baggageApi) JSON.ecma404 "" event).run none).1 := by
  have hnone : ((SagaPublisher.publish (W3cOtelContext baggageApi) JSON.ecma404 "" .sample).run
      none).1.headers.lookup "baggage" = none := publish_baggage JSON.ecma404 "" .sample none baggageApi_lawful
  refine ⟨hnone, fun hall => ?_⟩
  obtain ⟨found, hfound, hid, -⟩ := hall .sample
  rw [headerBaggage_of_none ((lookup_withoutSagaHeaders _).trans hnone)] at hfound
  cases hfound
  cases hid

end Saga
