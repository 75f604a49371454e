/-
The two ways a handler has to emit: the function it is given and `SagaPublisher.emit`, which takes what it
needs from the ambient context. The event may come from any layer of the parser. A body that is taken for an
event is not checked, so its fields are any JSON values; the functions here are those of `Core.Publisher`
and `Core.Message` over such values.
-/
import SagaProofs.Core.Hints

namespace Saga

namespace Unchecked

/-! ## Values -/

/-- A field of an object, `none` where it is `undefined`. -/
abbrev Value := Option Json

def text (s : String) : Value := some (.str s)

/-- `a ?? b`. -/
def coalesce : Value → Value → Value
  | none, b => b
  | some .null, b => b
  | some v, _ => some v

def truthy (v : Value) : Bool := v.any Json.truthy

/-- `String(v)` and `v > 0` of a JSON value; `none` where they throw, as of an object with a field `toString`. -/
structure Coercion where
  string : Json → Option String
  positive : Json → Option Bool
  string_str : ∀ s, string (.str s) = some s

/-- An element in `join`. -/
def Coercion.element (c : Coercion) : Json → Option String
  | .null => some ""
  | v => c.string v

/-- `v && v.length > 0`. -/
def Coercion.hasLength (c : Coercion) : Value → Option Bool
  | some (.str s) => some (s ≠ "")
  | some (.arr items) => some (items ≠ [])
  | some (.obj fields) =>
    match fields.lookup "length" with
    | some v => c.positive v
    | none => some false
  | _ => some false

/-- What `...v` spreads; `none` where `v` is not iterable. -/
def spread : Json → Option (List Json)
  | .str s => some (s.toList.map fun ch => .str (String.singleton ch))
  | .arr items => some items
  | _ => none

/-! ## Events and messages -/

/-- What emits read of the event that is delivered. -/
structure Received where
  sagaId : Value
  eventId : Value
  parentSagaId : Value
  rootSagaId : Value
  ancestorChain : Value
  key : Value
  sagaName : Value
  sagaDescription : Value

structure SagaContextData where
  sagaId : Value
  rootSagaId : Value
  parentSagaId : Value
  ancestorChain : Value
  causationId : Value
  key : Value
  sagaName : Value
  sagaDescription : Value

structure SagaEvent where
  eventId : String
  topic : String
  sagaId : Value
  causationId : Value
  stepName : String
  stepDescription : Option String
  sagaName : Value
  sagaDescription : Value
  occurredAt : String
  publishedAt : String
  schemaVersion : ℕ
  parentSagaId : Value
  rootSagaId : Value
  ancestorChain : Value
  payload : Json
  hint : Option EventHint
  key : Value

structure OutboundMessage where
  topic : String
  key : Value
  value : String
  headers : List (String × Value)

/-- The header of the ancestor chain; `none` where `join` is not a function or throws. -/
def Coercion.chainHeader (c : Coercion) (chain : Value) : Option (Option Value) :=
  match c.hasLength chain with
  | none => none
  | some false => some none
  | some true =>
    match chain with
    | some (.arr items) => (items.mapM c.element).map fun elements => some (text (Text.join ',' elements))
    | _ => none

/-- The headers in the order they are set, `none` for one that is left out. -/
def headerFields (event : SagaEvent) (ancestorChain : Option Value) : List (String × Option Value) :=
  [("saga-id", some event.sagaId),
    ("saga-causation-id", some event.causationId),
    ("saga-event-id", some (text event.eventId)),
    ("saga-step-name", some (text event.stepName)),
    ("saga-published-at", some (text event.publishedAt)),
    ("saga-schema-version", some (text (toString event.schemaVersion))),
    ("saga-root-id", some event.rootSagaId),
    ("saga-parent-id", Option.guard truthy event.parentSagaId),
    ("saga-event-hint", event.hint.map fun hint => text hint.toString),
    ("saga-name", Option.guard truthy event.sagaName),
    ("saga-description", Option.guard truthy event.sagaDescription),
    ("saga-step-description", (Saga.truthy event.stepDescription).map text),
    ("saga-key", Option.guard truthy event.key),
    ("saga-ancestor-chain", ancestorChain),
    ("saga-occurred-at", some (text event.occurredAt))]

/-- The message of an event; `none` where an exception is thrown. -/
def buildOutboundMessage (json : JSON) (c : Coercion) (topicPrefix : String) (event : SagaEvent) :
    Option OutboundMessage := do
  let ancestorChain ← c.chainHeader event.ancestorChain
  return {
    topic := topicPrefix ++ event.topic
    key := coalesce event.key event.rootSagaId
    value := json.stringify event.payload
    headers := (headerFields event ancestorChain).filterMap fun f => f.2.map (f.1, ·) }

/-! ## The emit functions -/

/-- What is generated for an emit. -/
structure Generated where
  eventId : String
  now : String
  subSagaId : String

structure BoundEmit where
  sagaId : Value
  rootSagaId : Value
  parentSagaId : Value
  ancestorChain : Value
  causationId : Value
  baseKey : Value

structure ParentSagaContext where
  parentSagaId : Value
  rootSagaId : Value
  ancestorChain : Value

def forSaga (sagaId : Value) (parentCtx : ParentSagaContext) (causationId baseKey : Value) : BoundEmit :=
  { sagaId
    rootSagaId := coalesce parentCtx.rootSagaId sagaId
    parentSagaId := parentCtx.parentSagaId
    ancestorChain := parentCtx.ancestorChain
    causationId := coalesce causationId sagaId
    baseKey }

/-- The event the returned function publishes when it is called in a context. -/
def BoundEmit.event (emit : BoundEmit) (ctx : SagaContextData) (params : EmitParams) (generated : Generated) :
    SagaEvent :=
  { eventId := generated.eventId
    topic := params.topic
    sagaId := emit.sagaId
    causationId := emit.causationId
    stepName := params.stepName
    stepDescription := params.stepDescription
    sagaName := ctx.sagaName
    sagaDescription := ctx.sagaDescription
    occurredAt := generated.now
    publishedAt := generated.now
    schemaVersion := 1
    parentSagaId := emit.parentSagaId
    rootSagaId := emit.rootSagaId
    ancestorChain := emit.ancestorChain
    payload := params.payload
    hint := params.hint
    key := coalesce (coalesce (params.key.map .str) emit.baseKey) ctx.key }

/-- `SagaPublisher.emit` in a context. -/
def emit (ctx : SagaContextData) (params : EmitParams) (generated : Generated) : SagaEvent :=
  let boundEmit := forSaga ctx.sagaId ⟨ctx.parentSagaId, ctx.rootSagaId, ctx.ancestorChain⟩ ctx.causationId ctx.key
  boundEmit.event ctx params generated

/-- The context a handler runs in. -/
def handlerContext (event : Received) : SagaContextData :=
  { sagaId := event.sagaId
    rootSagaId := event.rootSagaId
    parentSagaId := event.parentSagaId
    ancestorChain := event.ancestorChain
    causationId := event.eventId
    key := event.key
    sagaName := event.sagaName
    sagaDescription := event.sagaDescription }

def wrappedEmit (event : Received) (config : Option HandlerConfig) (ctx : SagaContextData) (params : EmitParams)
    (generated : Generated) : SagaEvent :=
  let emit := forSaga event.sagaId ⟨event.parentSagaId, event.rootSagaId, event.ancestorChain⟩ event.eventId event.key
  let finalParams := if config.bind (·.final) = some true then { params with hint := some .final } else params
  emit.event ctx finalParams generated

/-- `[event.sagaId, ...(event.ancestorChain ?? [])]`; `none` where it throws. In an array that is joined,
`undefined` and `null` are one. -/
def subAncestorChain (event : Received) : Option (List Json) := do
  let chain ← (coalesce event.ancestorChain (some (.arr []))).bind spread
  return event.sagaId.getD .null :: chain

def forkEmit (event : Received) (fork : ForkConfig) (params : EmitParams) (generated : Generated) :
    Option SagaEvent := do
  let chain ← subAncestorChain event
  let subEmit := forSaga (text generated.subSagaId) ⟨event.sagaId, event.rootSagaId, some (.arr chain)⟩ event.eventId
    event.key
  let forkCtx : SagaContextData :=
    { sagaId := text generated.subSagaId
      rootSagaId := event.rootSagaId
      parentSagaId := event.sagaId
      ancestorChain := some (.arr chain)
      causationId := event.eventId
      key := event.key
      sagaName := fork.sagaName.map .str
      sagaDescription := fork.sagaDescription.map .str }
  return subEmit.event forkCtx { params with hint := some .fork } generated

/-- `finalEmit`; `none` where it throws. -/
def finalEmit (event : Received) (config : Option HandlerConfig) (ctx : SagaContextData) (params : EmitParams)
    (generated : Generated) : Option SagaEvent :=
  match SagaRunner.forkConfig config with
  | some fork => forkEmit event fork params generated
  | none => some (wrappedEmit event config ctx params generated)

end Unchecked

/-! ## Agreement -/

def SagaEvent.received (event : SagaEvent) : Unchecked.Received where
  sagaId := Unchecked.text event.sagaId
  eventId := Unchecked.text event.eventId
  parentSagaId := event.parentSagaId.map .str
  rootSagaId := Unchecked.text event.rootSagaId
  ancestorChain := event.ancestorChain.map fun chain => .arr (chain.map .str)
  key := event.key.map .str
  sagaName := event.sagaName.map .str
  sagaDescription := event.sagaDescription.map .str

def BaggageEvent.received (event : BaggageEvent) : Unchecked.Received where
  sagaId := Unchecked.text event.sagaId
  eventId := Unchecked.text event.eventId
  parentSagaId := event.parentSagaId.map .str
  rootSagaId := Unchecked.text event.rootSagaId
  ancestorChain := none
  key := none
  sagaName := none
  sagaDescription := none

/-- A body that is taken for an event. -/
def bodyReceived (body : Json) : Unchecked.Received where
  sagaId := body.field "sagaId"
  eventId := body.field "eventId"
  parentSagaId := body.field "parentSagaId"
  rootSagaId := body.field "rootSagaId"
  ancestorChain := body.field "ancestorChain"
  key := body.field "key"
  sagaName := body.field "sagaName"
  sagaDescription := body.field "sagaDescription"

def Parsed.received : Parsed → Unchecked.Received
  | .headers event => event.received
  | .baggage event => event.received
  | .body value => bodyReceived value

namespace Unchecked

/-- The headers with what is generated for each emit anew; a fork generates a saga id as well. -/
def generatedHeaders (config : Option HandlerConfig) : List String :=
  ["saga-event-id", "saga-published-at", "saga-occurred-at"] ++
    if (SagaRunner.forkConfig config).isSome then ["saga-id"] else []

/-- One message but for the headers with these names. -/
structure SameMessage (generated : List String) (m m' : OutboundMessage) : Prop where
  topic : m.topic = m'.topic
  key : m.key = m'.key
  value : m.value = m'.value
  headers : ∀ name, name ∉ generated → m.headers.lookup name = m'.headers.lookup name

/-- The emit function a handler is given and `SagaPublisher.emit`, called in its body with the same
parameters, publish the same message, or both throw. -/
def PathsAgree (json : JSON) (c : Coercion) (topicPrefix : String) (config : Option HandlerConfig) (event : Parsed)
    (params : EmitParams) : Prop :=
  ∀ generated generated', Option.Rel (SameMessage (generatedHeaders config))
    ((finalEmit event.received config (handlerContext event.received) params generated).bind
      (buildOutboundMessage json c topicPrefix))
    (buildOutboundMessage json c topicPrefix (emit (handlerContext event.received) params generated'))

/-- A chain whose length cannot be compared, or that has one and cannot be joined: a text, an object, or an array
with an element that is no text and cannot be made one. -/
def Coercion.Unjoinable (c : Coercion) (chain : Value) : Prop :=
  c.hasLength chain = none ∨
    (c.hasLength chain = some true ∧ ∀ items, chain = some (.arr items) → ∃ x ∈ items, c.element x = none)

/-- An event whose chain cannot be spread, or has an element, the saga id in front of it included, that cannot be
made a text. -/
def Coercion.Unforkable (c : Coercion) (event : Received) : Prop :=
  ∀ items, (coalesce event.ancestorChain (some (.arr []))).bind spread = some items →
    ∃ x ∈ event.sagaId.getD .null :: items, c.element x = none

section Elements

variable {α β : Type} {f : α → Option β}

theorem mapM_cons_eq_some {x : α} {xs : List α} {ys : List β} :
    (x :: xs).mapM f = some ys ↔ ∃ y zs, f x = some y ∧ xs.mapM f = some zs ∧ ys = y :: zs := by
  rw [List.mapM_cons]
  constructor
  · intro h
    obtain ⟨y, hy, hrest⟩ := Option.bind_eq_some_iff.1 h
    obtain ⟨zs, hzs, heq⟩ := Option.bind_eq_some_iff.1 hrest
    exact ⟨y, zs, hy, hzs, (Option.some_inj.1 heq).symm⟩
  · rintro ⟨y, zs, hy, hzs, rfl⟩
    rw [hy, hzs]
    rfl

theorem mapM_eq_none {xs : List α} : xs.mapM f = none ↔ ∃ x ∈ xs, f x = none := by
  induction xs with
  | nil => simp
  | cons x xs ih =>
    rw [List.exists_mem_cons_iff, ← ih, List.mapM_cons]
    cases f x with
    | none => simp
    | some y =>
      cases xs.mapM f with
      | none => simp
      | some ys => simp

end Elements

section Headers

theorem lookup_filterMap {α : Type} (name : String) : ∀ fields : List (String × Option α),
    (fields.map Prod.fst).Nodup →
      (fields.filterMap fun f => f.2.map (f.1, ·)).lookup name = (fields.lookup name).bind id
  | [], _ => rfl
  | (k, v) :: rest, hn => by
    rw [List.map_cons, List.nodup_cons] at hn
    have ih := lookup_filterMap name rest hn.2
    rw [List.lookup_cons]
    by_cases hk : name = k
    · subst hk
      cases v with
      | some v => simp
      | none =>
        -- no later field has this name
        have hrest := lookup_of_notMem hn.1
        simp [ih, hrest]
    · cases v with
      | some v => simp [List.lookup_cons, beq_eq_false_iff_ne.2 hk, ih]
      | none => simp [beq_eq_false_iff_ne.2 hk, ih]

variable {json : JSON} {c : Coercion} {topicPrefix : String} {event : SagaEvent} {chain : Value}

theorem headerFields_nodup (event : SagaEvent) (chain : Option Value) :
    ((headerFields event chain).map Prod.fst).Nodup := by
  unfold headerFields
  simp only [List.map_cons, List.map_nil]
  decide

/-- The message of an event whose chain can be joined. -/
theorem buildOutboundMessage_some (json : JSON) (topicPrefix : String) (event : SagaEvent) {chain : Option Value}
    (h : c.chainHeader event.ancestorChain = some chain) :
    ∃ m, buildOutboundMessage json c topicPrefix event = some m ∧ m.topic = topicPrefix ++ event.topic ∧
      m.key = coalesce event.key event.rootSagaId ∧ m.value = json.stringify event.payload ∧
      ∀ name, m.headers.lookup name = ((headerFields event chain).lookup name).bind id := by
  refine ⟨_, by unfold buildOutboundMessage; rw [h]; rfl, rfl, rfl, rfl, fun name => ?_⟩
  exact lookup_filterMap name _ (headerFields_nodup event chain)

theorem buildOutboundMessage_none (h : c.chainHeader event.ancestorChain = none) :
    buildOutboundMessage json c topicPrefix event = none := by
  unfold buildOutboundMessage
  rw [h]
  rfl

/-- Where two events have one message, they have the same headers. -/
theorem header_of_rel {event' : SagaEvent} {generated : List String} {chain chain' : Option Value} {name : String}
    (h : Option.Rel (SameMessage generated) (buildOutboundMessage json c topicPrefix event)
      (buildOutboundMessage json c topicPrefix event'))
    (hchain : c.chainHeader event.ancestorChain = some chain)
    (hchain' : c.chainHeader event'.ancestorChain = some chain') (hname : name ∉ generated) :
    ((headerFields event chain).lookup name).bind id = ((headerFields event' chain').lookup name).bind id := by
  obtain ⟨m, hm, -, -, -, hheaders⟩ := buildOutboundMessage_some json topicPrefix event hchain
  obtain ⟨m', hm', -, -, -, hheaders'⟩ := buildOutboundMessage_some json topicPrefix event' hchain'
  rw [hm, hm'] at h
  cases h with
  | some hsame => rw [← hheaders, ← hheaders', hsame.headers name hname]

theorem lookup_hint (event : SagaEvent) (chain : Option Value) :
    ((headerFields event chain).lookup "saga-event-hint").bind id = event.hint.map fun hint => text hint.toString := rfl

theorem lookup_ancestorChain (event : SagaEvent) (chain : Option Value) :
    ((headerFields event chain).lookup "saga-ancestor-chain").bind id = chain := rfl

/-- Writing the chain throws on what cannot be joined. -/
theorem chainHeader_eq_none : c.chainHeader chain = none ↔ c.Unjoinable chain := by
  unfold Coercion.chainHeader Coercion.Unjoinable
  cases h : c.hasLength chain with
  | none => simp
  | some long =>
    cases long with
    | false => simp
    | true =>
      cases chain with
      | none => simp
      | some v => cases v <;> simp [mapM_eq_none]

/-- What is written of a chain: the texts of an array, or nothing. -/
theorem chainHeader_cases {header : Option Value} (h : c.chainHeader chain = some header) :
    header = none ∨ ∃ items elements, chain = some (.arr items) ∧ items.mapM c.element = some elements ∧
      elements ≠ [] ∧ header = some (text (Text.join ',' elements)) := by
  unfold Coercion.chainHeader at h
  cases hlength : c.hasLength chain with
  | none =>
    rw [hlength] at h
    cases h
  | some long =>
    rw [hlength] at h
    cases long with
    | false =>
      cases h
      exact .inl rfl
    | true =>
      cases chain with
      | none => cases hlength
      | some v =>
        cases v with
        | arr items =>
          obtain ⟨elements, helements, rfl⟩ := Option.map_eq_some_iff.1 h
          refine .inr ⟨items, elements, rfl, helements, ?_, rfl⟩
          rintro rfl
          -- an array with a length has a first element
          obtain ⟨x, xs, rfl⟩ : ∃ x xs, items = x :: xs := by
            cases items with
            | nil => cases hlength
            | cons x xs => exact ⟨x, xs, rfl⟩
          obtain ⟨y, ys, -, -, hcons⟩ := mapM_cons_eq_some.1 helements
          cases hcons
        | null => cases h
        | bool b => cases h
        | num mantissa scale => cases h
        | str s => cases h
        | obj fields => cases h

/-- The chain of a forked saga. -/
theorem chainHeader_cons (c : Coercion) (x : Json) (items : List Json) :
    c.chainHeader (some (.arr (x :: items))) =
      ((x :: items).mapM c.element).map fun elements => some (text (Text.join ',' elements)) := rfl

/-- The chain of a forked saga is longer, so it is written in another header. -/
theorem chainHeader_cons_ne {x : Json} {items : List Json} {header : Option Value} {elements : List String}
    (hs : (coalesce chain (some (.arr []))).bind spread = some items) (h : c.chainHeader chain = some header)
    (he : (x :: items).mapM c.element = some elements) : header ≠ some (text (Text.join ',' elements)) := by
  rcases chainHeader_cases h with rfl | ⟨items', elements', rfl, he', hne, rfl⟩
  · simp
  · cases hs
    obtain ⟨first, rest, -, hrest, rfl⟩ := mapM_cons_eq_some.1 he
    rw [he'] at hrest
    cases hrest
    intro heq
    have htext := Option.some.inj (Option.some.inj heq)
    rw [Json.str.injEq] at htext
    exact Text.join_cons_ne first hne htext.symm

end Headers

/-! ## When the two ways agree -/

section Agreement

variable {json : JSON} {c : Coercion} {topicPrefix : String} {config : Option HandlerConfig} {event : Parsed}
  {received : Received} {params : EmitParams} {generated generated' : Generated}

theorem finalEmit_of_no_fork (h : SagaRunner.forkConfig config = none) (ctx : SagaContextData) :
    finalEmit received config ctx params generated = some (wrappedEmit received config ctx params generated) := by
  unfold finalEmit
  rw [h]

theorem finalEmit_of_fork {fork : ForkConfig} (h : SagaRunner.forkConfig config = some fork) (ctx : SagaContextData) :
    finalEmit received config ctx params generated = forkEmit received fork params generated := by
  unfold finalEmit
  rw [h]

theorem emit_of_unjoinable (h : c.Unjoinable received.ancestorChain) :
    buildOutboundMessage json c topicPrefix (emit (handlerContext received) params generated) = none :=
  buildOutboundMessage_none (chainHeader_eq_none.2 h)

/-- A handler without options, or a final one that marks its emits itself, is given `SagaPublisher.emit`. -/
theorem wrappedEmit_eq_emit (h : config.bind (·.final) = some true → params.hint = some .final) :
    wrappedEmit received config (handlerContext received) params generated =
      emit (handlerContext received) params generated := by
  have hparams : (if config.bind (·.final) = some true then { params with hint := some .final } else params) = params := by
    split
    · rename_i hfinal
      rw [← h hfinal]
    · rfl
  unfold wrappedEmit
  rw [hparams]
  rfl

theorem ne_of_notMem_generated {name header : String} (h : name ∉ generatedHeaders config)
    (hheader : header ∈ ["saga-event-id", "saga-published-at", "saga-occurred-at"]) : name ≠ header := by
  rintro rfl
  exact h (List.mem_append_left _ hheader)

/-- Emits with the same parameters in one context differ in what is generated for them. -/
theorem emit_rel (config : Option HandlerConfig) (ctx : SagaContextData) :
    Option.Rel (SameMessage (generatedHeaders config))
      (buildOutboundMessage json c topicPrefix (emit ctx params generated))
      (buildOutboundMessage json c topicPrefix (emit ctx params generated')) := by
  cases hchain : c.chainHeader ctx.ancestorChain with
  | none =>
    rw [buildOutboundMessage_none hchain, buildOutboundMessage_none hchain]
    exact .none
  | some chain =>
    obtain ⟨m, hm, htopic, hkey, hvalue, hheaders⟩ := buildOutboundMessage_some json topicPrefix
      (emit ctx params generated) hchain
    obtain ⟨m', hm', htopic', hkey', hvalue', hheaders'⟩ := buildOutboundMessage_some json
      topicPrefix (emit ctx params generated') hchain
    rw [hm, hm']
    refine .some ⟨htopic.trans htopic'.symm, hkey.trans hkey'.symm, hvalue.trans hvalue'.symm, fun name hname => ?_⟩
    have hevent : name ≠ "saga-event-id" := ne_of_notMem_generated hname (by decide)
    have hpublished : name ≠ "saga-published-at" := ne_of_notMem_generated hname (by decide)
    have hoccurred : name ≠ "saga-occurred-at" := ne_of_notMem_generated hname (by decide)
    rw [hheaders, hheaders']
    unfold headerFields
    simp only [List.lookup_cons, beq_eq_false_iff_ne.2 hevent, beq_eq_false_iff_ne.2 hpublished,
      beq_eq_false_iff_ne.2 hoccurred]
    rfl

theorem wrappedEmit_hint (h : config.bind (·.final) = some true) (ctx : SagaContextData) :
    (wrappedEmit received config ctx params generated).hint = some .final := by
  unfold wrappedEmit
  rw [if_pos h]
  rfl

/-- A message that the emit function of a final handler publishes has the final hint. -/
theorem hint_of_pathsAgree (h : PathsAgree json c topicPrefix config event params)
    (hfork : SagaRunner.forkConfig config = none) (hfinal : config.bind (·.final) = some true)
    (hjoin : ¬ c.Unjoinable event.received.ancestorChain) : params.hint = some .final := by
  have hrel := h ⟨"", "", ""⟩ ⟨"", "", ""⟩
  have hname : "saga-event-hint" ∉ generatedHeaders config := by
    unfold generatedHeaders
    rw [hfork]
    decide
  rw [finalEmit_of_no_fork hfork, Option.bind_some] at hrel
  cases hchain : c.chainHeader event.received.ancestorChain with
  | none => exact absurd (chainHeader_eq_none.1 hchain) hjoin
  | some chain =>
    have hhint := header_of_rel hrel hchain hchain hname
    rw [lookup_hint, lookup_hint, wrappedEmit_hint hfinal] at hhint
    have hparams : some (text "final") = params.hint.map fun hint => text hint.toString := hhint
    cases hp : params.hint with
    | none =>
      rw [hp] at hparams
      cases hparams
    | some hint =>
      rw [hp] at hparams
      cases hint with
      | final => rfl
      | compensation => exact absurd hparams (by simp [text, EventHint.toString])
      | fork => exact absurd hparams (by simp [text, EventHint.toString])

theorem forkEmit_none (fork : ForkConfig)
    (h : (coalesce received.ancestorChain (some (.arr []))).bind spread = none) :
    forkEmit received fork params generated = none := by
  unfold forkEmit subAncestorChain
  rw [h]
  rfl

theorem forkEmit_some (fork : ForkConfig) (params : EmitParams) (generated : Generated) {items : List Json}
    (h : (coalesce received.ancestorChain (some (.arr []))).bind spread = some items) :
    ∃ event, forkEmit received fork params generated = some event ∧
      event.ancestorChain = some (.arr (received.sagaId.getD .null :: items)) := by
  unfold forkEmit subAncestorChain
  rw [h]
  exact ⟨_, rfl, rfl⟩

/-- An emit of a fork throws exactly on what cannot be forked. -/
theorem forkMessage_eq_none (fork : ForkConfig) (params : EmitParams) (generated : Generated) :
    (forkEmit received fork params generated).bind (buildOutboundMessage json c topicPrefix) = none ↔
      c.Unforkable received := by
  unfold Coercion.Unforkable
  cases hspread : (coalesce received.ancestorChain (some (.arr []))).bind spread with
  | none =>
    rw [forkEmit_none fork hspread, Option.bind_none]
    simp
  | some items =>
    obtain ⟨event, hevent, hchain⟩ := forkEmit_some fork params generated hspread
    rw [hevent, Option.bind_some]
    have hnone : buildOutboundMessage json c topicPrefix event = none ↔ c.chainHeader event.ancestorChain = none := by
      cases hheader : c.chainHeader event.ancestorChain with
      | none => exact iff_of_true (buildOutboundMessage_none hheader) rfl
      | some header =>
        obtain ⟨m, hm, -⟩ := buildOutboundMessage_some json topicPrefix event hheader
        rw [hm]
        simp
    rw [hnone, hchain, chainHeader_cons, Option.map_eq_none_iff, mapM_eq_none]
    simp

/-- Emits of a fork agree with those of the context where both throw: what a fork can spread gives a longer
chain than the one of the event. -/
theorem throws_of_pathsAgree (h : PathsAgree json c topicPrefix config event params) {fork : ForkConfig}
    (hfork : SagaRunner.forkConfig config = some fork) :
    c.Unjoinable event.received.ancestorChain ∧ c.Unforkable event.received := by
  have hrel := h ⟨"", "", ""⟩ ⟨"", "", ""⟩
  have hname : "saga-ancestor-chain" ∉ generatedHeaders config := by
    unfold generatedHeaders
    rw [hfork, Option.isSome_some]
    decide
  rw [finalEmit_of_fork hfork] at hrel
  by_cases hun : c.Unforkable event.received
  · refine ⟨?_, hun⟩
    rw [(forkMessage_eq_none fork params ⟨"", "", ""⟩).2 hun] at hrel
    rw [← chainHeader_eq_none]
    cases hchain : c.chainHeader event.received.ancestorChain with
    | none => rfl
    | some chain =>
      obtain ⟨m', hm', -⟩ := buildOutboundMessage_some json topicPrefix
        (emit (handlerContext event.received) params ⟨"", "", ""⟩) hchain
      rw [hm'] at hrel
      cases hrel
  · -- the fork publishes a message, with a chain that the other one cannot have
    exfalso
    have hspread := hun
    unfold Coercion.Unforkable at hspread
    push Not at hspread
    obtain ⟨items, hitems, hsome⟩ := hspread
    obtain ⟨forked, hforked, hforkedChain⟩ := forkEmit_some fork params ⟨"", "", ""⟩ hitems
    obtain ⟨elements, helements⟩ : ∃ elements,
        (event.received.sagaId.getD .null :: items).mapM c.element = some elements := by
      rw [← Option.ne_none_iff_exists', ne_eq, mapM_eq_none]
      rintro ⟨x, hx, hnone⟩
      exact hsome x hx hnone
    have hlonger : c.chainHeader forked.ancestorChain = some (some (text (Text.join ',' elements))) := by
      rw [hforkedChain, chainHeader_cons, helements]
      rfl
    rw [hforked, Option.bind_some] at hrel
    cases hchain : c.chainHeader event.received.ancestorChain with
    | none =>
      obtain ⟨m, hm, -⟩ := buildOutboundMessage_some json topicPrefix forked hlonger
      rw [hm, emit_of_unjoinable (chainHeader_eq_none.1 hchain)] at hrel
      cases hrel
    | some chain =>
      have hheader := header_of_rel hrel hlonger hchain hname
      rw [lookup_ancestorChain, lookup_ancestorChain] at hheader
      exact chainHeader_cons_ne hitems hchain helements hheader.symm

/-- The two ways agree exactly where the handler does not fork and, if it is final, the parameters have the
final hint already; or where both throw, for a chain or a saga id of another shape. -/
theorem pathsAgree_iff : PathsAgree json c topicPrefix config event params ↔
    (SagaRunner.forkConfig config = none ∧ (config.bind (·.final) = some true → params.hint = some .final)) ∨
      (c.Unjoinable event.received.ancestorChain ∧
        ((SagaRunner.forkConfig config).isSome → c.Unforkable event.received)) := by
  cases hfork : SagaRunner.forkConfig config with
  | some fork =>
    constructor
    · intro h
      obtain ⟨hun, hthrows⟩ := throws_of_pathsAgree h hfork
      exact .inr ⟨hun, fun _ => hthrows⟩
    · rintro (⟨hnone, -⟩ | ⟨hun, hthrows⟩) generated generated'
      · cases hnone
      · rw [finalEmit_of_fork hfork, (forkMessage_eq_none fork params generated).2 (hthrows rfl),
          emit_of_unjoinable hun]
        exact .none
  | none =>
    constructor
    · intro h
      by_cases hun : c.Unjoinable event.received.ancestorChain
      · exact .inr ⟨hun, by simp⟩
      · exact .inl ⟨rfl, fun hfinal => hint_of_pathsAgree h hfork hfinal hun⟩
    · rintro (⟨-, hhint⟩ | ⟨hun, -⟩) generated generated'
      · rw [finalEmit_of_no_fork hfork, Option.bind_some, wrappedEmit_eq_emit hhint]
        exact emit_rel config (handlerContext event.received)
      · have hwrapped : buildOutboundMessage json c topicPrefix
            (wrappedEmit event.received config (handlerContext event.received) params generated) = none :=
          buildOutboundMessage_none (chainHeader_eq_none.2 hun)
        rw [finalEmit_of_no_fork hfork, Option.bind_some, hwrapped, emit_of_unjoinable hun]
        exact .none

end Agreement

/-! ## Events of the header layer -/

section Checked

/-- An event with its fields as values. -/
def ofEvent (event : Saga.SagaEvent) : SagaEvent where
  eventId := event.eventId
  topic := event.topic
  sagaId := text event.sagaId
  causationId := text event.causationId
  stepName := event.stepName
  stepDescription := event.stepDescription
  sagaName := event.sagaName.map .str
  sagaDescription := event.sagaDescription.map .str
  occurredAt := event.occurredAt
  publishedAt := event.publishedAt
  schemaVersion := event.schemaVersion
  parentSagaId := event.parentSagaId.map .str
  rootSagaId := text event.rootSagaId
  ancestorChain := event.ancestorChain.map fun chain => .arr (chain.map .str)
  payload := event.payload
  hint := event.hint
  key := event.key.map .str

/-- The message with its fields as values. -/
structure Represents (m : OutboundMessage) (message : Saga.OutboundMessage) : Prop where
  topic : m.topic = message.topic
  key : m.key = text message.key
  value : m.value = message.value
  headers : ∀ name, m.headers.lookup name = (message.headers.lookup name).map text

variable {json : JSON} {c : Coercion} {topicPrefix : String} {event : Saga.SagaEvent} {config : Option HandlerConfig}
  {params : EmitParams} {generated : Generated}

theorem coalesce_map (a b : Option String) : coalesce (a.map .str) (b.map .str) = (a.or b).map .str := by
  cases a <;> rfl

theorem guard_truthy_map (a : Option String) : Option.guard truthy (a.map .str) = (Saga.truthy a).map text := by
  cases a with
  | none => rfl
  | some s =>
    by_cases h : s = ""
    · subst h
      rfl
    · rw [Saga.truthy_some h]
      simp [Option.guard, truthy, Json.truthy, h, text]

theorem chainHeader_map (chain : Option (List String)) :
    c.chainHeader (chain.map fun chain => .arr (chain.map .str)) = some ((Saga.chainHeader chain).map text) := by
  cases chain with
  | none => rfl
  | some chain =>
    cases chain with
    | nil => rfl
    | cons x xs =>
      have hmap : ((x :: xs).map Json.str).mapM c.element = some (x :: xs) := by
        induction x :: xs with
        | nil => rfl
        | cons y ys ih => exact mapM_cons_eq_some.2 ⟨y, ys, c.string_str y, ih, rfl⟩
      show (((x :: xs).map Json.str).mapM c.element).map (fun elements => some (text (Text.join ',' elements))) = _
      rw [hmap]
      rfl

/-- The chain of an event of the header layer can be joined. -/
theorem joinable_received (c : Coercion) (event : Saga.SagaEvent) : ¬ c.Unjoinable event.received.ancestorChain := by
  rw [← chainHeader_eq_none]
  have hchain : c.chainHeader event.received.ancestorChain = _ := chainHeader_map event.ancestorChain
  simp [hchain]

theorem lookup_map {α β : Type} (f : α → β) (name : String) : ∀ fields : List (String × α),
    (fields.map fun p => (p.1, f p.2)).lookup name = (fields.lookup name).map f
  | [] => rfl
  | (k, v) :: rest => by
    rw [List.map_cons, List.lookup_cons, List.lookup_cons, lookup_map f name rest]
    cases name == k <;> rfl

theorem headerFields_ofEvent (event : Saga.SagaEvent) :
    headerFields (ofEvent event) ((Saga.chainHeader event.ancestorChain).map text) =
      (Saga.headerFields event).map fun p => (p.1, p.2.map text) := by
  unfold headerFields Saga.headerFields ofEvent
  simp only [guard_truthy_map, List.map_cons, List.map_nil, Option.map_some, Option.map_map]
  rfl

/-- The message of such an event is that of the event. -/
theorem buildOutboundMessage_ofEvent (json : JSON) (c : Coercion) (topicPrefix : String) (event : Saga.SagaEvent) :
    ∃ m, buildOutboundMessage json c topicPrefix (ofEvent event) = some m ∧
      Represents m (Saga.buildOutboundMessage json event topicPrefix) := by
  obtain ⟨m, hm, htopic, hkey, hvalue, hheaders⟩ := buildOutboundMessage_some (c := c) json topicPrefix (ofEvent event)
    (chainHeader_map event.ancestorChain)
  refine ⟨m, hm, htopic, ?_, hvalue, fun name => ?_⟩
  · rw [hkey]
    show coalesce (event.key.map .str) (text event.rootSagaId) = text (event.key.getD event.rootSagaId)
    cases event.key <;> rfl
  · rw [hheaders, headerFields_ofEvent, lookup_map, Saga.buildOutboundMessage_header]
    cases (Saga.headerFields event).lookup name with
    | none => rfl
    | some value => rfl

theorem key_map (event : Saga.SagaEvent) (params : EmitParams) :
    coalesce (coalesce (params.key.map .str) (event.key.map .str)) (event.key.map .str) =
      ((params.key.or event.key).or event.key).map .str := by
  rw [coalesce_map, coalesce_map]

/-- Over an event of the header layer `emit` is that of `Core.Publisher`. -/
theorem emit_received (event : Saga.SagaEvent) (params : EmitParams) (generated : Generated) :
    ∃ sent, SagaPublisher.emit (some (SagaRunner.handlerContext event)) params generated.eventId generated.now =
        .ok sent ∧
      emit (handlerContext event.received) params generated = ofEvent sent := by
  refine ⟨_, rfl, ?_⟩
  exact congrArg (fun key => { emit (handlerContext event.received) params generated with key }) (key_map event params)

theorem wrappedEmit_received (event : Saga.SagaEvent) (config : Option HandlerConfig) (params : EmitParams)
    (generated : Generated) : wrappedEmit event.received config (handlerContext event.received) params generated =
      ofEvent (SagaRunner.wrappedEmit event config (some (SagaRunner.handlerContext event)) params generated.eventId
        generated.now) := by
  unfold wrappedEmit SagaRunner.wrappedEmit
  split
  · have hfinal := key_map event { params with hint := some .final }
    exact congrArg (fun key =>
      { emit (handlerContext event.received) { params with hint := some .final } generated with key }) hfinal
  · exact congrArg (fun key => { emit (handlerContext event.received) params generated with key }) (key_map event params)

/-- Over an event of the header layer the emit function of a handler is that of `Core.Hints`. -/
theorem finalEmit_received (event : Saga.SagaEvent) (config : Option HandlerConfig) (params : EmitParams)
    (generated : Generated) : finalEmit event.received config (handlerContext event.received) params generated =
      some (ofEvent (SagaRunner.finalEmit event config (some (SagaRunner.handlerContext event)) params
        generated.subSagaId generated.eventId generated.now)) := by
  unfold finalEmit SagaRunner.finalEmit
  cases SagaRunner.forkConfig config with
  | none => exact congrArg some (wrappedEmit_received event config params generated)
  | some fork =>
    have hspread : (coalesce event.received.ancestorChain (some (.arr []))).bind spread =
        some ((event.ancestorChain.getD []).map .str) := by
      unfold Saga.SagaEvent.received
      cases event.ancestorChain <;> rfl
    dsimp only
    unfold forkEmit subAncestorChain
    rw [hspread]
    exact congrArg (fun key => some { ofEvent (SagaRunner.forkEmit event fork generated.subSagaId params
      generated.eventId generated.now) with key }) (key_map event params)

end Checked

/-! ## A final handler and a fork -/

/-- A handler that emits without a hint. -/
def shipParams : EmitParams := ⟨"order.shipped", "ship", none, .null, none, none⟩

/-- The registry takes a handler with these options. -/
def Accepted (options : HandlerConfig) : Prop :=
  ∃ base, SagaRegistry.buildRouteMap [.withOptions options] = .ok base ∧
    (SagaRegistry.existing base "order.created").sagaOptions = some options

/-- In the body of a final handler `SagaPublisher.emit` publishes a message without the final hint, and in that
of a fork one of the saga itself. -/
theorem ambient_emit_differs :
    (Accepted ⟨some true, none⟩ ∧ ∀ json c topicPrefix,
      ¬ PathsAgree json c topicPrefix (some ⟨some true, none⟩) (.headers .sample) shipParams) ∧
    (Accepted ⟨none, some (.flag true)⟩ ∧ ∀ json c topicPrefix,
      ¬ PathsAgree json c topicPrefix (some ⟨none, some (.flag true)⟩) (.headers .sample) shipParams) := by
  refine ⟨⟨⟨_, rfl, rfl⟩, fun json c topicPrefix h => ?_⟩, ⟨⟨_, rfl, rfl⟩, fun json c topicPrefix h => ?_⟩⟩
  · exact absurd (hint_of_pathsAgree h rfl rfl (joinable_received c .sample)) (by decide)
  · exact joinable_received c .sample (throws_of_pathsAgree h rfl).1

end Unchecked

end Saga
