/-
When two emits publish the same message but for the event id and the timestamps: the two forms of
`emitToParent`, and an emit function of `forSaga` called in two contexts. An emit takes the names of
the saga, and a key where none was given, from the context it is called in, so in both cases it
depends on what that context has.
-/
import SagaProofs.Core.RoundTrip
import SagaProofs.Core.Publisher

namespace Saga

/-! ## Messages but for id and time -/

/-- The headers that differ from one emit to the next: the event id and the timestamps. -/
def stampHeaders : List String := ["saga-event-id", "saga-published-at", "saga-occurred-at"]

/-- The same message, up to the event id and the timestamps. -/
structure SameMessage (m m' : OutboundMessage) : Prop where
  topic : m.topic = m'.topic
  key : m.key = m'.key
  value : m.value = m'.value
  headers : ∀ name, name ∉ stampHeaders → m.headers.lookup name = m'.headers.lookup name

/-- The same event up to its id, its timestamps, its key and the names of its saga. -/
structure SameBody (e e' : SagaEvent) : Prop where
  topic : e.topic = e'.topic
  sagaId : e.sagaId = e'.sagaId
  causationId : e.causationId = e'.causationId
  stepName : e.stepName = e'.stepName
  stepDescription : e.stepDescription = e'.stepDescription
  schemaVersion : e.schemaVersion = e'.schemaVersion
  parentSagaId : e.parentSagaId = e'.parentSagaId
  rootSagaId : e.rootSagaId = e'.rootSagaId
  ancestorChain : e.ancestorChain = e'.ancestorChain
  payload : e.payload = e'.payload
  hint : e.hint = e'.hint

section Messages

variable {json : JSON} {topicPrefix : String} {e e' : SagaEvent}

/-- The header fields of two such events are the same under every name but those of the stamps. -/
theorem SameBody.header (h : SameBody e e') (hkey : truthy e.key = truthy e'.key)
    (hname : truthy e.sagaName = truthy e'.sagaName) (hdesc : truthy e.sagaDescription = truthy e'.sagaDescription)
    {name : String} (hn : name ∉ stampHeaders) : (headerFields e).lookup name = (headerFields e').lookup name := by
  unfold stampHeaders at hn
  simp only [List.mem_cons, List.not_mem_nil, or_false, not_or] at hn
  obtain ⟨h1, h2, h3⟩ := hn
  unfold headerFields
  rw [h.sagaId, h.causationId, h.stepName, h.stepDescription, h.schemaVersion, h.parentSagaId, h.rootSagaId,
    h.ancestorChain, h.hint, hkey, hname, hdesc]
  simp only [List.lookup_cons, beq_eq_false_iff_ne.2 h1, beq_eq_false_iff_ne.2 h2, beq_eq_false_iff_ne.2 h3]

/-- Such events are sent as the same message exactly when key and names are the same on the wire. -/
theorem sameMessage_iff (h : SameBody e e') :
    SameMessage (buildOutboundMessage json e topicPrefix) (buildOutboundMessage json e' topicPrefix) ↔
      (e.key.getD e.rootSagaId = e'.key.getD e.rootSagaId ∧ truthy e.key = truthy e'.key) ∧
        truthy e.sagaName = truthy e'.sagaName ∧ truthy e.sagaDescription = truthy e'.sagaDescription := by
  constructor
  · intro hs
    have hheader : ∀ name, name ∉ stampHeaders →
        ((headerFields e).lookup name).bind id = ((headerFields e').lookup name).bind id := by
      intro name hname
      rw [← buildOutboundMessage_header json e topicPrefix, ← buildOutboundMessage_header json e' topicPrefix]
      exact hs.headers name hname
    have hkey : e.key.getD e.rootSagaId = e'.key.getD e'.rootSagaId := hs.key
    rw [← h.rootSagaId] at hkey
    exact ⟨⟨hkey, hheader "saga-key" (by decide)⟩, hheader "saga-name" (by decide),
      hheader "saga-description" (by decide)⟩
  · rintro ⟨⟨hkey, htruthy⟩, hname, hdesc⟩
    refine ⟨?_, ?_, ?_, fun name hn => ?_⟩
    · show topicPrefix ++ e.topic = topicPrefix ++ e'.topic
      rw [h.topic]
    · show e.key.getD e.rootSagaId = e'.key.getD e'.rootSagaId
      rw [hkey, h.rootSagaId]
    · show json.stringify e.payload = json.stringify e'.payload
      rw [h.payload]
    · rw [buildOutboundMessage_header, buildOutboundMessage_header, h.header htruthy hname hdesc hn]

end Messages

open SagaPublisher

/-! ## The two forms of `emitToParent` -/

/-- `emitToParent(() => emit(params))`: the event it publishes. -/
def SagaPublisher.emitToParentFn (current : Option SagaContextData) (params : EmitParams) (eventId now : String) :
    Except SagaError SagaEvent := do
  let ctx ← emitToParentContext current
  emit (some ctx) params eventId now

/-- Both forms publish, and the same message. -/
def FormsAgree (json : JSON) (topicPrefix : String) (ctx : SagaContextData) (params : EmitParams)
    (eventId now eventId' now' : String) : Prop :=
  ∃ direct viaFn, emitToParent (some ctx) params eventId now = .ok direct ∧
    emitToParentFn (some ctx) params eventId' now' = .ok viaFn ∧
    SameMessage (buildOutboundMessage json direct topicPrefix) (buildOutboundMessage json viaFn topicPrefix)

section Forms

variable {json : JSON} {topicPrefix : String} {ctx : SagaContextData}

/-- A context with a parent: what the two forms publish is the same but for the names of the saga,
which the direct form takes from the context of the child and the function form leaves out. -/
theorem emitToParent_forms (params : EmitParams) (eventId now eventId' now' : String) {parent : String}
    (hp : truthy ctx.parentSagaId = some parent) :
    ∃ direct viaFn, emitToParent (some ctx) params eventId now = .ok direct ∧
      emitToParentFn (some ctx) params eventId' now' = .ok viaFn ∧ SameBody direct viaFn ∧ direct.key = viaFn.key ∧
      direct.sagaName = ctx.sagaName ∧ direct.sagaDescription = ctx.sagaDescription ∧
      viaFn.sagaName = none ∧ viaFn.sagaDescription = none := by
  have hparent := parentOf_of_truthy hp
  have hfn : emitToParentFn (some ctx) params eventId' now' =
      (emitToParentContext (some ctx)).bind fun parentCtx => emit (some parentCtx) params eventId' now' := rfl
  rw [emitToParentContext_of_parent hparent] at hfn
  exact ⟨_, _, emitToParent_of_parent hparent, hfn.trans rfl, ⟨rfl, rfl, rfl, rfl, rfl, rfl, rfl, rfl, rfl, rfl, rfl⟩,
    rfl, rfl, rfl, rfl, rfl⟩

/-- The two forms of `emitToParent` publish the same message exactly when the context of the child has
neither a name nor a description. -/
theorem emitToParent_forms_agree_iff {params : EmitParams} {eventId now eventId' now' : String}
    (hp : (truthy ctx.parentSagaId).isSome) :
    FormsAgree json topicPrefix ctx params eventId now eventId' now' ↔
      truthy ctx.sagaName = none ∧ truthy ctx.sagaDescription = none := by
  obtain ⟨parent, hp⟩ := Option.isSome_iff_exists.1 hp
  obtain ⟨direct, viaFn, hd, hf, hbody, hkey, hdn, hdd, hfn, hfd⟩ :=
    emitToParent_forms params eventId now eventId' now' hp
  have hsame :
      SameMessage (buildOutboundMessage json direct topicPrefix) (buildOutboundMessage json viaFn topicPrefix) ↔
        truthy ctx.sagaName = none ∧ truthy ctx.sagaDescription = none := by
    rw [sameMessage_iff hbody, hkey, hdn, hdd, hfn, hfd]
    simp
  rw [← hsame]
  constructor
  · rintro ⟨direct', viaFn', hd', hf', hs⟩
    rw [hd] at hd'
    rw [hf] at hf'
    cases hd'
    cases hf'
    exact hs
  · intro hs
    exact ⟨direct, viaFn, hd, hf, hs⟩

end Forms

/-- A saga started in another one under a name of its own. -/
def SagaContextData.childSample (sagaName : Option String) : SagaContextData :=
  { sagaId := "saga-2"
    rootSagaId := "saga-1"
    parentSagaId := some "saga-1"
    ancestorChain := some ["saga-1"]
    causationId := "event-0"
    key := some "customer-7"
    sagaName
    sagaDescription := none }

def EmitParams.reportSample : EmitParams :=
  ⟨"sub-task.completed", "complete-sub-task", none, .obj [("result", .str "ok")], none, none⟩

/-- With a name the direct form sends it on the event of the parent and the other does not. -/
theorem emitToParent_forms_differ :
    ¬ FormsAgree JSON.ecma404 "" (.childSample (some "provisioning")) .reportSample "event-1" "t1" "event-2" "t2" := by
  rintro ⟨direct, viaFn, hd, hf, hs⟩
  cases hd
  cases hf
  have hname := hs.headers "saga-name" (by decide)
  rw [buildOutboundMessage_header, buildOutboundMessage_header] at hname
  exact absurd hname (by decide)

theorem emitToParent_forms_agree_sample :
    FormsAgree JSON.ecma404 "" (.childSample none) .reportSample "event-1" "t1" "event-2" "t2" :=
  (emitToParent_forms_agree_iff rfl).2 ⟨rfl, rfl⟩

/-! ## Emits by hand -/

/-- Two keys are the same on the wire when they are the same; an empty key is as good as none where
the id of the root saga is empty too. -/
theorem wireKey_iff (o o' : Option String) (root : String) :
    (o.getD root = o'.getD root ∧ truthy o = truthy o') ↔
      o = o' ∨ (root = "" ∧ truthy o = none ∧ truthy o' = none) := by
  constructor
  · rintro ⟨hd, ht⟩
    cases o with
    | none =>
      cases o' with
      | none => exact .inl rfl
      | some k' =>
        rcases truthy_eq_none.1 ht.symm with h | h
        · cases h
        · rw [h] at hd
          exact .inr ⟨hd, rfl, ht.symm⟩
    | some k =>
      cases o' with
      | none =>
        rcases truthy_eq_none.1 ht with h | h
        · cases h
        · rw [h] at hd
          exact .inr ⟨hd.symm, ht, rfl⟩
      | some k' => exact .inl (congrArg some hd)
  · rintro (rfl | ⟨rfl, h, h'⟩)
    · exact ⟨rfl, rfl⟩
    · have hempty : ∀ o : Option String, truthy o = none → o.getD "" = "" := by
        intro o ho
        rcases truthy_eq_none.1 ho with rfl | rfl
        · rfl
        · rfl
      exact ⟨by rw [hempty o h, hempty o' h'], h.trans h'.symm⟩

/-- What one emit function publishes for one set of parameters. -/
theorem SameBody.of_emit (emit : BoundEmit) (current current' : Option SagaContextData) (params : EmitParams)
    (eventId now eventId' now' : String) :
    SameBody (emit.event current params eventId now) (emit.event current' params eventId' now') :=
  ⟨rfl, rfl, rfl, rfl, rfl, rfl, rfl, rfl, rfl, rfl, rfl⟩

/-- The emit function publishes the same message in both contexts. -/
def AgreesIn (json : JSON) (topicPrefix : String) (emit : BoundEmit) (current current' : Option SagaContextData)
    (params : EmitParams) (eventId now eventId' now' : String) : Prop :=
  SameMessage (buildOutboundMessage json (emit.event current params eventId now) topicPrefix)
    (buildOutboundMessage json (emit.event current' params eventId' now') topicPrefix)

/-- An emit function of `forSaga` publishes the same message in two contexts, either of them possibly
none, exactly when these have the same name and the same description and, where neither the parameters
nor `forSaga` gave a key, the same key. -/
theorem forSaga_agreesIn_iff {json : JSON} {topicPrefix sagaId : String} {parentCtx : Option ParentSagaContext}
    {causationId baseKey : Option String} {current current' : Option SagaContextData} {params : EmitParams}
    {eventId now eventId' now' : String} :
    AgreesIn json topicPrefix (forSaga sagaId parentCtx causationId baseKey) current current' params eventId now
        eventId' now' ↔
      (truthy (current.bind (·.sagaName)) = truthy (current'.bind (·.sagaName)) ∧
        truthy (current.bind (·.sagaDescription)) = truthy (current'.bind (·.sagaDescription))) ∧
      ((params.key.or baseKey).isSome ∨ current.bind (·.key) = current'.bind (·.key) ∨
        ((parentCtx.map (·.rootSagaId)).getD sagaId = "" ∧ truthy (current.bind (·.key)) = none ∧
          truthy (current'.bind (·.key)) = none)) := by
  unfold AgreesIn
  rw [sameMessage_iff (.of_emit _ _ _ _ _ _ _ _), and_comm]
  refine and_congr Iff.rfl ?_
  show (((params.key.or baseKey).or (current.bind (·.key))).getD ((parentCtx.map (·.rootSagaId)).getD sagaId) =
      ((params.key.or baseKey).or (current'.bind (·.key))).getD ((parentCtx.map (·.rootSagaId)).getD sagaId) ∧
    truthy ((params.key.or baseKey).or (current.bind (·.key))) =
      truthy ((params.key.or baseKey).or (current'.bind (·.key)))) ↔ _
  cases params.key.or baseKey with
  | some key => simp
  | none =>
    rw [Option.none_or, Option.none_or, wireKey_iff]
    simp

/-- Another saga that happens to be current. -/
def SagaContextData.otherSample : SagaContextData :=
  { sagaId := "saga-9"
    rootSagaId := "saga-9"
    parentSagaId := none
    ancestorChain := some []
    causationId := "event-9"
    key := some "customer-9"
    sagaName := some "billing"
    sagaDescription := none }

/-- Inside another saga the events of a saga without a key go to the partition of that other saga,
under its name. -/
theorem forSaga_takes_current :
    ¬ AgreesIn JSON.ecma404 "" (forSaga "saga-1" none none none) none (some .otherSample) .reportSample "event-1" "t1"
      "event-2" "t2" ∧
    (buildOutboundMessage JSON.ecma404
      ((forSaga "saga-1" none none none).event (some .otherSample) .reportSample "event-2" "t2") "").key =
        "customer-9" := by
  refine ⟨fun hs => ?_, by decide⟩
  have hkey := hs.key
  exact absurd hkey (by decide)

end Saga
