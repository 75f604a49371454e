/-
The monitor beside the sagas it watches: the services create sagas and publish events, the broker
delivers the messages to the projector any number of times and in any order, with messages of others
among them, and the batches of the projector run interleaved. What the tables hold is what the sagas
did: each row of `saga_event_log` is one publication, each row of `saga_state` has the root and the
parent of its saga, and the query for the descendants of a saga ends.

The sagas are created by `start`, `startChild` and forks, and what is published of them comes from `emit`,
`emitToParent` and the emit functions of handlers. A caller of `forSaga` who chooses ids and lineage by hand is no
part of the system: two such calls can store sagas as parents of each other.
-/
import SagaProofs.Core.Causation
import SagaProofs.Monitor.Decoders
import SagaProofs.Monitor.Descendants
import SagaProofs.Monitor.Status

namespace Saga.Monitor

open Keyed Lts Relation

variable {Buffer Time : Type}

/-! ## The system -/

/-- A message of a polled batch: a publication with the headers that others have added to it, or a
message that is none of a saga. -/
inductive Arrival (Buffer : Type)
  | publication (i : ℕ) (added : List (String × String)) (key value : Option Buffer) (offset : String)
  | foreign (message : Kafka.KafkaMessage Buffer)

structure Monitored (Time : Type) where
  world : World
  projector : ProjectorState Time

/-- A step of the sagas, a batch that is polled, or any other step of the projector. -/
inductive MonitoredAct (Buffer Time : Type)
  | saga (a : SagaAct)
  | poll (topic : String) (partition : ℕ) (arrivals : List (Arrival Buffer))
  | project (a : ProjectorAct Time)

def Monitored.empty : Monitored Time := ⟨.empty, ⟨⟨∅, ∅⟩, []⟩⟩

/-- A batch is given up. -/
def MonitoredAct.isAbort : MonitoredAct Buffer Time → Bool
  | .project (.abort _) => true
  | _ => false

/-- The publications in a polled batch. -/
def MonitoredAct.polled : MonitoredAct Buffer Time → List ℕ
  | .poll _ _ arrivals =>
    arrivals.filterMap fun
      | .publication i .. => some i
      | .foreign _ => none
  | _ => []

section System

variable (encode : String → Buffer) (str : Buffer → String) (publishedNow : Kafka.KafkaMessage Buffer → String)
variable (env : ParseEnv) (topicPrefix : String) (date : String → Time) (localeCompare : String → String → ℤ)

/-- The headers of a message as the broker hands them out. -/
def bufferHeaders (headers : Headers) : List (String × Kafka.HeaderValue Buffer) :=
  headers.entries.map fun e => (e.1, .buffer (encode e.2))

/-- The message that arrives; `none` where there is no such publication, where a saga header was added,
or where a message of others has a saga id. -/
def Arrival.message (w : World) : Arrival Buffer → Option (Kafka.KafkaMessage Buffer)
  | .publication i added key value offset =>
    match w.published[i]? with
    | none => none
    | some p =>
      let sent := buildOutboundMessage env.json p.event topicPrefix
      if added.all (foreignHeader ·.1) then
        some ⟨key, value, offset, some (bufferHeaders encode (arrive sent added).headers)⟩
      else none
  | .foreign message =>
    match extractSagaHeaders str (publishedNow message) (message.headers.getD []) with
    | none => some message
    | some _ => none

/-- The messages of a batch, if all of them can arrive. -/
def arrivalMessages (w : World) : List (Arrival Buffer) → Option (List (Kafka.KafkaMessage Buffer))
  | [] => some []
  | a :: rest =>
    match a.message encode str publishedNow env topicPrefix w, arrivalMessages w rest with
    | some m, some ms => some (m :: ms)
    | _, _ => none

def monitoredStep (s : Monitored Time) : MonitoredAct Buffer Time → Option (Monitored Time)
  | .saga a => (sagaStep env topicPrefix s.world a).map fun w => { s with world := w }
  | .poll topic partition arrivals =>
    match arrivalMessages encode str publishedNow env topicPrefix s.world arrivals with
    | none => none
    | some messages =>
      let batch : PartitionBatch Buffer := ⟨⟨topic, messages⟩, partition⟩
      (projectorStep date localeCompare s.projector (.poll (batch.prepared str publishedNow))).map
        fun p => { s with projector := p }
  | .project (.poll _) => none
  | .project a => (projectorStep date localeCompare s.projector a).map fun p => { s with projector := p }

end System

/-! ## What is to be shown -/

/-- A parsed message has what the headers of an event say. -/
structure Reports (event : SagaEvent) (parsed : ParsedSagaHeaders) : Prop where
  eventId : parsed.sagaEventId = event.eventId
  sagaId : parsed.sagaId = event.sagaId
  rootId : parsed.sagaRootId = event.rootSagaId
  parentId : parsed.sagaParentId = truthy event.parentSagaId
  causationId : parsed.sagaCausationId = event.causationId
  stepName : parsed.sagaStepName = event.stepName
  stepDescription : parsed.sagaStepDescription = truthy event.stepDescription
  sagaName : parsed.sagaName = truthy event.sagaName
  sagaDescription : parsed.sagaDescription = truthy event.sagaDescription
  hint : parsed.sagaEventHint = event.hint.map .ofLibrary
  publishedAt : parsed.sagaPublishedAt = event.publishedAt

/-- The root and the parent of a saga are those of its creation. -/
structure Placed (created : Forest String) (sagaId rootId : String) (parentId : Option String) : Prop where
  mem : sagaId ∈ created.nodes
  root : rootId = created.root sagaId
  parent : parentId = (created.ancestors sagaId).head?

/-- The log row of a publication. -/
def LogsPublication (date : String → Time) (w : World) (row : BulkInsertEventLogData Time) : Prop :=
  ∃ p ∈ w.published, ∃ m before after, Reports p.event m.parsed ∧ row = buildEventLogRow date m before after

/-- The tables show what the sagas did. -/
structure Faithful (date : String → Time) (s : Monitored Time) : Prop where
  states : ∀ k row, s.projector.db.states.lookup k = some row →
    Placed s.world.created k row.sagaRootId row.sagaParentId
  log : ∀ id row, s.projector.db.log.lookup id = some row →
    row.sagaEventId = id ∧ Placed s.world.created row.sagaId row.sagaRootId row.sagaParentId ∧
      LogsPublication date s.world row
  -- a saga has a state exactly when an event of it is logged
  references : ∀ k, k ∈ s.projector.db.states ↔ ∃ id row, s.projector.db.log.lookup id = some row ∧ row.sagaId = k

/-- A repository that reads the states of a database, each list in any order. -/
structure SagaStateRepository.Reads (repo : SagaStateRepository) (db : Database Time) : Prop where
  findById : ∀ k, repo.findById k = (db.states.lookup k).map fun row => ⟨k, row.sagaRootId, row.sagaParentId⟩
  findByRootId : ∀ rootId record, record ∈ repo.findByRootId rootId ↔
    repo.findById record.sagaId = some record ∧ record.sagaRootId = rootId

/-- On the way from a saga up to another every saga is stored. -/
def StoredUpTo (db : Database Time) (created : Forest String) (ancestor descendant : String) : Prop :=
  ∃ below, descendant :: created.ancestors descendant = below ++ ancestor :: created.ancestors ancestor ∧
    ∀ k ∈ ancestor :: below, k ∈ db.states

/-! ## What is read of a publication -/

section Read

variable {str : Buffer → String} {publishedNow : Kafka.KafkaMessage Buffer → String} {env : ParseEnv}
  {topicPrefix : String}

/-- Values that are read as the text they stand for. -/
theorem lookup_valueHeaders {value : String → Kafka.HeaderValue Buffer} (hv : ∀ v, headerToString str (value v) = some v)
    (headers : Headers) (name : String) :
    ((headers.entries.map fun e => (e.1, value e.2)).lookup name).bind (headerToString str) = headers.lookup name := by
  have h : ∀ entries : List (Sigma fun _ : String => String),
      ((entries.map fun e => (e.1, value e.2)).lookup name).bind (headerToString str) = entries.dlookup name := by
    intro entries
    induction entries with
    | nil => rfl
    | cons e entries ih =>
      rw [List.map_cons, List.lookup_cons]
      by_cases he : name = e.1
      · subst he
        rw [beq_self_eq_true, List.dlookup_cons_eq]
        exact hv e.2
      · rw [beq_eq_false_iff_ne.2 he, List.dlookup_cons_ne entries e he]
        exact ih
  exact h headers.entries

theorem lookup_bufferHeaders {encode : String → Buffer} (hstr : ∀ s, str (encode s) = s) (headers : Headers)
    (name : String) : ((bufferHeaders encode headers).lookup name).bind (headerToString str) = headers.lookup name := by
  have hvalue : ∀ v, headerToString str (.buffer (encode v)) = some v := fun v => congrArg some (hstr v)
  exact lookup_valueHeaders hvalue headers name

/-- Only the saga headers are read. -/
theorem extractSagaHeaders_congr (now : String) {headers headers' : List (String × Kafka.HeaderValue Buffer)}
    (h : ∀ name : String, "saga-".toList <+: name.toList →
      (headers.lookup name).bind (headerToString str) = (headers'.lookup name).bind (headerToString str)) :
    extractSagaHeaders str now headers = extractSagaHeaders str now headers' := by
  unfold extractSagaHeaders
  simp only [h "saga-id" (by decide), h "saga-root-id" (by decide), h "saga-parent-id" (by decide),
    h "saga-causation-id" (by decide), h "saga-event-id" (by decide), h "saga-step-name" (by decide),
    h "saga-step-description" (by decide), h "saga-event-hint" (by decide), h "saga-name" (by decide),
    h "saga-description" (by decide), h "saga-published-at" (by decide), h "saga-schema-version" (by decide)]

/-- What a message with the headers of an event reports is the event. -/
theorem exists_reports (now : String) {event : SagaEvent} (hid : event.sagaId ≠ "")
    {headers : List (String × Kafka.HeaderValue Buffer)}
    (h : ∀ name : String, "saga-".toList <+: name.toList → (headers.lookup name).bind (headerToString str) =
      (buildOutboundMessage env.json event topicPrefix).headers.lookup name) :
    ∃ parsed, extractSagaHeaders str now headers = some parsed ∧ Reports event parsed := by
  obtain ⟨parsed, hparsed, hsame, hhint⟩ : ∃ parsed, extractSagaHeaders str now
        (stringHeaders (buildOutboundMessage env.json event topicPrefix).headers) = some parsed ∧
      SameSaga (buildOutboundMessage env.json event topicPrefix).headers (wire topicPrefix event) parsed ∧
      parsed.sagaEventHint = event.hint.map .ofLibrary := extract_sent env.json topicPrefix hid
  refine ⟨parsed, ?_, ?_⟩
  · rw [← hparsed]
    refine extractSagaHeaders_congr now fun name hname => ?_
    rw [h name hname, lookup_stringHeaders]
  · have hhas : ∀ name value, (headerFields event).lookup name = some (some value) →
        ((buildOutboundMessage env.json event topicPrefix).headers.lookup name).isSome := by
      intro name value hv
      rw [buildOutboundMessage_header, hv]
      rfl
    exact
      { eventId := hsame.eventId (hhas "saga-event-id" event.eventId rfl)
        sagaId := hsame.sagaId
        rootId := hsame.rootSagaId
        parentId := hsame.parentSagaId
        causationId := hsame.causationId
        stepName := hsame.stepName
        stepDescription := hsame.stepDescription
        sagaName := hsame.sagaName
        sagaDescription := hsame.sagaDescription
        hint := hhint
        publishedAt := hsame.publishedAt (hhas "saga-published-at" event.publishedAt rfl) }

end Read

/-! ## The sagas -/

section Sagas

open SagaPublisher SagaRunner

variable {env : ParseEnv} {topicPrefix : String} {w w' : World}

/-- What a step of the sagas leaves: every publication has its place, an event that is new has an id, and
at most one saga is created. -/
structure Grows (w w' : World) : Prop where
  published : w.published <+: w'.published
  ids : ∀ p ∈ w'.published, p ∈ w.published ∨ p.event.eventId ≠ ""
  created : w'.created = w.created ∨ ∃ x parent, w'.created = (x, parent) :: w.created

theorem Grows.publish (w : World) {event : SagaEvent} (cause : Cause) (h : event.eventId ≠ "") :
    Grows w (w.publish event cause) := by
  refine ⟨List.prefix_append _ _, fun p hp => ?_, .inl rfl⟩
  rcases List.mem_append.1 hp with hp | hp
  · exact .inl hp
  · rw [List.mem_singleton.1 hp]; exact .inr h

theorem grows_step {a : SagaAct} (h : sagaStep env topicPrefix w a = some w') : Grows w w' := by
  cases sagaStep_move h with
  | start _ _ hf => exact ⟨List.prefix_rfl, fun p hp => .inl hp, .inr ⟨_, _, rfl⟩⟩
  | startChild _ _ hf => exact ⟨List.prefix_rfl, fun p hp => .inl hp, .inr ⟨_, _, rfl⟩⟩
  | emit _ hev hf =>
    have hid := (emit_causationId hev).2
    exact .publish w _ (hid ▸ hf.1.1)
  | emitToParent _ hev hf =>
    have hid := (emitToParent_causationId hev).2
    exact .publish w _ (hid ▸ hf.1.1)
  | emitToParentFn _ _ => exact ⟨List.prefix_rfl, fun p hp => .inl hp, .inl rfl⟩
  | deliver _ _ _ => exact ⟨List.prefix_rfl, fun p hp => .inl hp, .inl rfl⟩
  | @forkEmit _ _ params subSagaId eventId now act _ fork _ _ _ hfs hfe _ =>
    have hid : (forkEmit act.event fork subSagaId params eventId now).eventId ≠ "" := hfe.1.1
    -- the saga is created first, which publishes nothing
    obtain ⟨hpub, hids, -⟩ := Grows.publish (w.create subSagaId (some act.event.sagaId)
      ⟨forkContext act.event fork subSagaId, .handling act.event⟩) (.handling act.event) hid
    exact ⟨hpub, hids, .inr ⟨_, _, rfl⟩⟩
  | boundEmit _ _ _ hf => exact .publish w _ hf.1.1

theorem Placed.grow {k rootId : String} {parentId : Option String} (h : Placed w.created k rootId parentId)
    (hw : Grows w w') (hg : w'.created.Grown) : Placed w'.created k rootId parentId := by
  rcases hw.created with heq | ⟨x, parent, heq⟩
  · rw [heq]; exact h
  · rw [heq] at hg ⊢
    have ha := Forest.ancestors_grow hg h.mem
    refine ⟨List.mem_cons_of_mem x h.mem, ?_, ?_⟩
    · unfold Forest.root
      rw [ha]; exact h.root
    · rw [ha]; exact h.parent

/-- The saga of a publication is placed where its message says. -/
theorem Reports.placed {event : SagaEvent} {parsed : ParsedSagaHeaders} (h : Reports event parsed)
    (hl : LineageInv w) (he : event.lineage.Of w.created) :
    Placed w.created parsed.sagaId parsed.sagaRootId parsed.sagaParentId := by
  refine ⟨?_, ?_, ?_⟩
  · rw [h.sagaId]; exact he.mem
  · rw [h.sagaId, h.rootId]; exact he.root
  · rw [h.sagaId, h.parentId]
    exact (he.wire hl.grown fun id hid => (hl.ids id hid).1).parent

theorem getElem?_of_prefix {α : Type*} {l l' : List α} {i : ℕ} {x : α} (h : l <+: l') (hx : l[i]? = some x) :
    l'[i]? = some x := by
  obtain ⟨t, rfl⟩ := h
  rw [List.getElem?_append_left (List.getElem?_eq_some_iff.1 hx).1]
  exact hx

end Sagas

/-! ## The messages of a batch -/

section Arrivals

variable {encode : String → Buffer} {str : Buffer → String} {publishedNow : Kafka.KafkaMessage Buffer → String}
variable {env : ParseEnv} {topicPrefix : String} {w : World}

theorem parseMessage_of_extract {message : Kafka.KafkaMessage Buffer} {parsed : ParsedSagaHeaders} (topic : String)
    (partition : ℕ) (h : extractSagaHeaders str (publishedNow message) (message.headers.getD []) = some parsed)
    (hne : parsed.sagaEventId ≠ "") :
    parseMessage str publishedNow topic partition message =
      some ⟨parsed, serializeHeaders str (message.headers.getD []), topic, partition, message.offset⟩ := by
  unfold parseMessage
  simp only [h]
  exact if_neg hne

/-- A publication arrives as a message that reports it. -/
theorem parse_arrival (hstr : ∀ s, str (encode s) = s) (hl : LineageInv w) (hids : ∀ p ∈ w.published, p.event.eventId ≠ "")
    {i : ℕ} {added : List (String × String)} {key value : Option Buffer} {offset : String}
    {message : Kafka.KafkaMessage Buffer} (topic : String) (partition : ℕ)
    (h : (Arrival.publication i added key value offset).message encode str publishedNow env topicPrefix w = some message) :
    ∃ p m, w.published[i]? = some p ∧ parseMessage str publishedNow topic partition message = some m ∧
      Reports p.event m.parsed := by
  simp only [Arrival.message] at h
  cases hp : w.published[i]? with
  | none => rw [hp] at h; cases h
  | some p =>
    have hmem : p ∈ w.published := List.mem_of_getElem? hp
    have hid : p.event.sagaId ≠ "" := (hl.ids _ (hl.published p hmem).mem).1.1
    rw [hp] at h
    dsimp only at h
    split at h
    · rename_i hadded
      cases h
      let sent := buildOutboundMessage env.json p.event topicPrefix
      let headers := bufferHeaders encode (arrive sent added).headers
      have hheaders : ∀ name : String, "saga-".toList <+: name.toList →
          (headers.lookup name).bind (headerToString str) = sent.headers.lookup name := fun name hname =>
        (lookup_bufferHeaders hstr _ name).trans ((arrive_delivered sent hadded).headers name hname)
      obtain ⟨parsed, hparsed, hrep⟩ :=
        exists_reports (publishedNow ⟨key, value, offset, some headers⟩) hid hheaders
      have hne : parsed.sagaEventId ≠ "" := by
        rw [hrep.eventId]
        exact hids p hmem
      have hparse := parseMessage_of_extract topic partition hparsed hne
      exact ⟨p, _, rfl, hparse, hrep⟩
    · cases h

/-- A message of others is skipped. -/
theorem parse_foreign {foreign message : Kafka.KafkaMessage Buffer} (topic : String) (partition : ℕ)
    (h : (Arrival.foreign foreign).message encode str publishedNow env topicPrefix w = some message) :
    parseMessage str publishedNow topic partition message = none := by
  unfold Arrival.message at h
  dsimp only at h
  split at h
  · rename_i hnone
    cases h
    unfold parseMessage
    simp only [hnone]
    rfl
  · cases h

theorem arrivalMessages_mem : ∀ {arrivals : List (Arrival Buffer)} {messages : List (Kafka.KafkaMessage Buffer)},
    arrivalMessages encode str publishedNow env topicPrefix w arrivals = some messages →
      (∀ message ∈ messages, ∃ a ∈ arrivals, a.message encode str publishedNow env topicPrefix w = some message) ∧
      ∀ a ∈ arrivals, ∃ message ∈ messages, a.message encode str publishedNow env topicPrefix w = some message
  | [], messages, h => by
    cases h
    exact ⟨nofun, nofun⟩
  | a :: rest, messages, h => by
    rw [arrivalMessages] at h
    split at h
    · rename_i m ms hm hms
      cases h
      obtain ⟨h1, h2⟩ := arrivalMessages_mem hms
      constructor
      · intro message hmem
        rcases List.mem_cons.1 hmem with rfl | hmem
        · exact ⟨a, .head _, hm⟩
        · obtain ⟨b, hb, heq⟩ := h1 message hmem
          exact ⟨b, .tail _ hb, heq⟩
      · intro b hb
        rcases List.mem_cons.1 hb with rfl | hb
        · exact ⟨m, .head _, hm⟩
        · obtain ⟨message, hmem, heq⟩ := h2 b hb
          exact ⟨message, .tail _ hmem, heq⟩
    · cases h

/-- The messages of a polled batch are those of its publications. -/
theorem prepared_arrivals (hstr : ∀ s, str (encode s) = s) (hl : LineageInv w)
    (hids : ∀ p ∈ w.published, p.event.eventId ≠ "") {topic : String} {partition : ℕ} {arrivals : List (Arrival Buffer)}
    {messages : List (Kafka.KafkaMessage Buffer)}
    (h : arrivalMessages encode str publishedNow env topicPrefix w arrivals = some messages) :
    let prepared := (⟨⟨topic, messages⟩, partition⟩ : PartitionBatch Buffer).prepared str publishedNow
    let polled := (.poll topic partition arrivals : MonitoredAct Buffer Time).polled
    (∀ m ∈ prepared, ∃ i ∈ polled, ∃ p, w.published[i]? = some p ∧ Reports p.event m.parsed) ∧
      ∀ i ∈ polled, ∃ m ∈ prepared, ∃ p, w.published[i]? = some p ∧ Reports p.event m.parsed := by
  obtain ⟨h1, h2⟩ := arrivalMessages_mem h
  constructor
  · intro m hm
    obtain ⟨message, hmem, hparse⟩ := List.mem_filterMap.1 hm
    obtain ⟨a, ha, hmessage⟩ := h1 message hmem
    cases a with
    | publication i added key value offset =>
      obtain ⟨p, m', hp, hparse', hrep⟩ := parse_arrival hstr hl hids topic partition hmessage
      rw [show parseMessage str publishedNow topic partition message = some m from hparse] at hparse'
      cases hparse'
      exact ⟨i, List.mem_filterMap.2 ⟨_, ha, rfl⟩, p, hp, hrep⟩
    | foreign f =>
      have hnone := parse_foreign topic partition hmessage
      rw [show parseMessage str publishedNow topic partition message = some m from hparse] at hnone
      cases hnone
  · intro i hi
    obtain ⟨a, ha, heq⟩ := List.mem_filterMap.1 hi
    cases a with
    | publication j added key value offset =>
      cases heq
      obtain ⟨message, hmem, hmessage⟩ := h2 _ ha
      obtain ⟨p, m, hp, hparse, hrep⟩ := parse_arrival hstr hl hids topic partition hmessage
      exact ⟨m, List.mem_filterMap.2 ⟨message, hmem, hparse⟩, p, hp, hrep⟩
    | foreign f => cases heq

end Arrivals

/-! ## A commit -/

section Commit

variable {date : String → Time} {localeCompare : String → String → ℤ} {now now' : Time} {stateMap : StateMap Time}
variable {ms : List PreparedMessage} {db : Database Time} {k id : String}

/-- A merge keeps the root and the parent that are stored, or takes those of the row. -/
theorem mergeState_origin (stored : Option (SagaStateRow Time)) (r : BulkUpsertStateData Time) :
    (∃ row, stored = some row ∧ (mergeState now stored r).sagaRootId = row.sagaRootId ∧
        (mergeState now stored r).sagaParentId = row.sagaParentId) ∨
      ((mergeState now stored r).sagaRootId = r.sagaRootId ∧ (mergeState now stored r).sagaParentId = r.sagaParentId) := by
  cases stored with
  | none => exact .inr ⟨rfl, rfl⟩
  | some row => exact .inl ⟨row, rfl, rfl, rfl⟩

/-- The root and the parent of a state are those that were stored or those of a message of the saga. -/
theorem origin_persistBatch {row : SagaStateRow Time}
    (h : (persistBatch localeCompare now' (deriveChanges date now stateMap ms).sagaStates
      (deriveChanges date now stateMap ms).eventLogs db).states.lookup k = some row) :
    (∃ stored, db.states.lookup k = some stored ∧ row.sagaRootId = stored.sagaRootId ∧
        row.sagaParentId = stored.sagaParentId) ∨
      ∃ m ∈ ms, m.sagaId = k ∧ row.sagaRootId = m.parsed.sagaRootId ∧ row.sagaParentId = m.parsed.sagaParentId := by
  rw [lookup_persistBatch] at h
  cases hr : (deriveChanges date now stateMap ms).sagaStatesMap.lookup k with
  | none =>
    rw [hr] at h
    exact .inl ⟨row, h, rfl, rfl⟩
  | some r =>
    rw [hr] at h
    cases h
    rw [lookup_sagaStatesMap] at hr
    obtain ⟨m, s, hm, -, rfl⟩ := exists_of_rowAfter hr
    obtain ⟨hmem, hk⟩ := mem_ofSaga.1 (mem_of_mem_unguarded (List.mem_of_getLast? hm))
    rcases mergeState_origin (db.states.lookup k) _ with hstored | hnew
    · exact .inl hstored
    · exact .inr ⟨m, hmem, hk, hnew⟩

/-- The states after a commit are those before it and those of the sagas of the batch. -/
theorem mem_states_persistBatch (hknown : ∀ k, statusIn stateMap k = some .completed → k ∈ db.states) :
    k ∈ (persistBatch localeCompare now' (deriveChanges date now stateMap ms).sagaStates
      (deriveChanges date now stateMap ms).eventLogs db).states ↔ k ∈ db.states ∨ ∃ m ∈ ms, m.sagaId = k := by
  rw [← Finmap.lookup_isSome, lookup_persistBatch, Option.isSome_or, Bool.or_eq_true, Finmap.lookup_isSome,
    Option.isSome_map]
  constructor
  · rintro (hr | hk)
    · obtain ⟨r, hr⟩ := Option.isSome_iff_exists.1 hr
      exact .inr (exists_mem_of_row hr)
    · exact .inl hk
  · rintro (hk | ⟨m, hm, rfl⟩)
    · exact .inr hk
    · by_cases hc : statusIn stateMap m.sagaId = some .completed
      · exact .inr (hknown _ hc)
      · have hrow : ∃ r, (deriveChanges date now stateMap ms).sagaStatesMap.lookup m.sagaId = some r := exists_row hm hc
        obtain ⟨r, hr⟩ := hrow
        rw [hr]
        exact .inl rfl

/-- A log row is that of a message. -/
theorem exists_of_mem_logRows {l : List PreparedMessage} {status : String → Option SagaStatus}
    {row : BulkInsertEventLogData Time} (h : row ∈ logRows date status l) :
    ∃ m ∈ l, ∃ before after, row = buildEventLogRow date m before after := by
  induction l generalizing status with
  | nil => cases h
  | cons m l ih =>
    rcases List.mem_cons.1 h with rfl | h
    · exact ⟨m, .head _, _, _, rfl⟩
    · obtain ⟨x, hx, hrow⟩ := ih h
      exact ⟨x, .tail _ hx, hrow⟩

/-- A row of the log stays, and a new one is that of a message of the batch. -/
theorem log_persistBatch {row : BulkInsertEventLogData Time}
    (h : (persistBatch localeCompare now' (deriveChanges date now stateMap ms).sagaStates
      (deriveChanges date now stateMap ms).eventLogs db).log.lookup id = some row) :
    db.log.lookup id = some row ∨ ∃ m ∈ ms, m.eventId = id ∧ ∃ before after, row = buildEventLogRow date m before after := by
  unfold persistBatch bulkInsert at h
  rw [lookup_insertAll] at h
  cases hl : db.log.lookup id with
  | some stored =>
    rw [hl] at h
    exact .inl h
  | none =>
    rw [hl, Option.none_or] at h
    obtain ⟨hmem, hid⟩ := List.mem_filter.1 (List.mem_of_mem_head? h)
    rw [(List.perm_insertionSort _ _).mem_iff, eventLogs_deriveChanges] at hmem
    obtain ⟨m, hm, before, after, rfl⟩ := exists_of_mem_logRows hmem
    exact .inr ⟨m, hm, of_decide_eq_true hid, before, after, rfl⟩

theorem lookup_log_persistBatch (states : List (BulkUpsertStateData Time)) (logs : List (BulkInsertEventLogData Time))
    {row : BulkInsertEventLogData Time} (h : db.log.lookup id = some row) :
    (persistBatch localeCompare now' states logs db).log.lookup id = some row := by
  unfold persistBatch bulkInsert
  rw [lookup_insertAll, h, Option.some_or]

theorem mem_log_persistBatch :
    id ∈ (persistBatch localeCompare now' (deriveChanges date now stateMap ms).sagaStates
      (deriveChanges date now stateMap ms).eventLogs db).log ↔ id ∈ db.log ∨ ∃ m ∈ ms, m.eventId = id := by
  unfold persistBatch bulkInsert
  rw [mem_insertAll, ((List.perm_insertionSort _ _).map _).mem_iff, eventLogs_deriveChanges, map_sagaEventId_logRows,
    List.mem_map]

end Commit

/-! ## The invariant -/

/-- The messages that a batch is still to write. -/
def BatchPhase.pending : BatchPhase Time → List PreparedMessage
  | .polled ms => ms
  | .deduped ms => ms
  | .lookedUp ms _ => ms
  | .derived ms _ _ => ms
  | .ended => []

/-- What the batch has looked up as completed is stored. -/
def BatchPhase.Known (db : Database Time) : BatchPhase Time → Prop
  | .lookedUp _ stateMap => ∀ k, statusIn stateMap k = some .completed → k ∈ db.states
  | .derived _ stateMap _ => ∀ k, statusIn stateMap k = some .completed → k ∈ db.states
  | _ => True

/-- The message reports a publication that was polled. -/
def Delivered (as : List (MonitoredAct Buffer Time)) (w : World) (m : PreparedMessage) : Prop :=
  ∃ a ∈ as, ∃ i ∈ a.polled, ∃ p, w.published[i]? = some p ∧ Reports p.event m.parsed

structure MonitoredInv (env : ParseEnv) (topicPrefix : String) (date : String → Time)
    (as : List (MonitoredAct Buffer Time)) (s : Monitored Time) : Prop where
  lineage : LineageInv s.world
  causation : CausationInv env topicPrefix s.world
  ids : ∀ p ∈ s.world.published, p.event.eventId ≠ ""
  batches : ∀ phase ∈ s.projector.batches,
    phase.Sound date ∧ phase.Known s.projector.db ∧ ∀ m ∈ phase.pending, Delivered as s.world m
  states : ∀ k row, s.projector.db.states.lookup k = some row →
    Placed s.world.created k row.sagaRootId row.sagaParentId
  log : ∀ id row, s.projector.db.log.lookup id = some row → ∃ m, m.eventId = id ∧ Delivered as s.world m ∧
    ∃ before after, row = buildEventLogRow date m before after
  references : ∀ k, k ∈ s.projector.db.states ↔ ∃ id row, s.projector.db.log.lookup id = some row ∧ row.sagaId = k

theorem Delivered.mono {as as' : List (MonitoredAct Buffer Time)} {w w' : World} {m : PreparedMessage}
    (h : Delivered as w m) (has : as ⊆ as') (hw : w.published <+: w'.published) : Delivered as' w' m := by
  obtain ⟨a, ha, i, hi, p, hp, hrep⟩ := h
  exact ⟨a, has ha, i, hi, p, getElem?_of_prefix hw hp, hrep⟩

theorem BatchPhase.Known.mono {db db' : Database Time} {phase : BatchPhase Time} (h : phase.Known db)
    (hdb : ∀ k, k ∈ db.states → k ∈ db'.states) : phase.Known db' := by
  cases phase with
  | lookedUp _ _ => exact fun k hk => hdb k (h k hk)
  | derived _ _ _ => exact fun k hk => hdb k (h k hk)
  | _ => trivial

/-- What holds of the batches and of a phase holds of them when one of them enters it. -/
theorem forall_put {P : BatchPhase Time → Prop} {s : ProjectorState Time} {phase : BatchPhase Time}
    (h : ∀ b ∈ s.batches, P b) (hp : P phase) (i : ℕ) : ∀ b ∈ (s.put i phase).batches, P b := by
  intro b hb
  rcases List.mem_or_eq_of_mem_set hb with hb | rfl
  · exact h b hb
  · exact hp

namespace MonitoredInv

variable {encode : String → Buffer} {str : Buffer → String} {publishedNow : Kafka.KafkaMessage Buffer → String}
variable {env : ParseEnv} {topicPrefix : String} {date : String → Time} {localeCompare : String → String → ℤ}
variable {as : List (MonitoredAct Buffer Time)} {s : Monitored Time}

theorem later (hi : MonitoredInv env topicPrefix date as s) (a : MonitoredAct Buffer Time) :
    MonitoredInv env topicPrefix date (as ++ [a]) s := by
  have hmono : ∀ {m}, Delivered as s.world m → Delivered (as ++ [a]) s.world m := fun h =>
    h.mono (List.subset_append_left _ _) List.prefix_rfl
  refine { hi with batches := fun b hb => ?_, log := fun id row hrow => ?_ }
  · obtain ⟨hs, hk, hd⟩ := hi.batches b hb
    exact ⟨hs, hk, fun m hm => hmono (hd m hm)⟩
  · obtain ⟨m, hid, hd, hrow⟩ := hi.log id row hrow
    exact ⟨m, hid, hmono hd, hrow⟩

/-- What two messages with one event id report is one publication. -/
theorem eq_of_eventId (hi : MonitoredInv env topicPrefix date as s) {m m' : PreparedMessage}
    (h : Delivered as s.world m) (h' : Delivered as s.world m') (heq : m.eventId = m'.eventId) :
    ∃ event, Reports event m.parsed ∧ Reports event m'.parsed := by
  obtain ⟨-, -, i, -, p, hp, hrep⟩ := h
  obtain ⟨-, -, j, -, q, hq, hrep'⟩ := h'
  have hpq : p = q := List.inj_on_of_nodup_map hi.causation.distinct (List.mem_of_getElem? hp) (List.mem_of_getElem? hq)
    (hrep.eventId.symm.trans (heq.trans hrep'.eventId))
  exact ⟨p.event, hrep, hpq ▸ hrep'⟩

/-- The saga of a message that is delivered is placed where the message says. -/
theorem placed (hi : MonitoredInv env topicPrefix date as s) {m : PreparedMessage} (h : Delivered as s.world m) :
    Placed s.world.created m.sagaId m.parsed.sagaRootId m.parsed.sagaParentId := by
  obtain ⟨-, -, i, -, p, hp, hrep⟩ := h
  exact hrep.placed hi.lineage (hi.lineage.published p (List.mem_of_getElem? hp))

theorem saga (hi : MonitoredInv env topicPrefix date as s) {a : SagaAct} {w : World}
    (h : sagaStep env topicPrefix s.world a = some w) :
    MonitoredInv env topicPrefix date as { s with world := w } := by
  have hg : Grows s.world w := grows_step h
  have hl : LineageInv w := lineageInv_step hi.lineage h
  have hmono : ∀ {m}, Delivered as s.world m → Delivered as w m := fun h => h.mono (List.Subset.refl _) hg.published
  refine
    { lineage := hl
      causation := causationInv_step hi.lineage hi.causation h
      ids := fun p hp => ?_
      batches := fun b hb => ?_
      states := fun k row hrow => (hi.states k row hrow).grow hg hl.grown
      log := fun id row hrow => ?_
      references := hi.references }
  · rcases hg.ids p hp with hp | hp
    · exact hi.ids p hp
    · exact hp
  · obtain ⟨hs, hk, hd⟩ := hi.batches b hb
    exact ⟨hs, hk, fun m hm => hmono (hd m hm)⟩
  · obtain ⟨m, hid, hd, hrow⟩ := hi.log id row hrow
    exact ⟨m, hid, hmono hd, hrow⟩

/-- A batch enters a phase in which it still has messages that were delivered. -/
theorem put (hi : MonitoredInv env topicPrefix date as s) (i : ℕ) {phase : BatchPhase Time} (hs : phase.Sound date)
    (hk : phase.Known s.projector.db) (hd : ∀ m ∈ phase.pending, Delivered as s.world m) :
    MonitoredInv env topicPrefix date as { s with projector := s.projector.put i phase } :=
  { hi with batches := forall_put hi.batches ⟨hs, hk, hd⟩ i }

/-- A batch ends, with nothing more to write. -/
theorem ended (hi : MonitoredInv env topicPrefix date as s) (i : ℕ) :
    MonitoredInv env topicPrefix date as { s with projector := s.projector.put i .ended } :=
  hi.put i trivial trivial fun _ hm => absurd hm List.not_mem_nil

/-- A batch is written. -/
theorem commit (hi : MonitoredInv env topicPrefix date as s) {i : ℕ} {ms : List PreparedMessage} {stateMap : StateMap Time}
    {changes : DeriveChanges Time} (hp : s.projector.batches[i]? = some (.derived ms stateMap changes)) (now : Time) :
    MonitoredInv env topicPrefix date as
      { s with
        projector :=
          { s.projector.put i .ended with
            db := persistBatch localeCompare now changes.sagaStates changes.eventLogs s.projector.db } } := by
  obtain ⟨⟨now', rfl⟩, hknown, hd⟩ := hi.batches _ (List.mem_of_getElem? hp)
  have hgrow : ∀ k, k ∈ s.projector.db.states → k ∈ (persistBatch localeCompare now
      (deriveChanges date now' stateMap ms).sagaStates (deriveChanges date now' stateMap ms).eventLogs
      s.projector.db).states := fun k hk => (mem_states_persistBatch hknown).2 (.inl hk)
  have hended : BatchPhase.Sound date (.ended : BatchPhase Time) := trivial
  refine
    { hi with
      batches := fun b hb => ?_
      states := fun k row hrow => ?_
      log := fun id row hrow => ?_
      references := fun k => ?_ }
  · obtain ⟨hs, hk, hd⟩ := forall_put hi.batches ⟨hended, trivial, fun m hm => nomatch hm⟩ i b hb
    exact ⟨hs, hk.mono hgrow, hd⟩
  · rcases origin_persistBatch hrow with ⟨stored, hstored, hroot, hparent⟩ | ⟨m, hm, rfl, hroot, hparent⟩
    · rw [hroot, hparent]
      exact hi.states k stored hstored
    · rw [hroot, hparent]
      exact hi.placed (hd m hm)
  · rcases log_persistBatch hrow with hstored | ⟨m, hm, hid, hrow⟩
    · exact hi.log id row hstored
    · exact ⟨m, hid, hd m hm, hrow⟩
  · rw [mem_states_persistBatch hknown, hi.references]
    constructor
    · rintro (⟨id, row, hrow, hk⟩ | ⟨m, hm, rfl⟩)
      · exact ⟨id, row, lookup_log_persistBatch _ _ hrow, hk⟩
      · -- the row of the event may be one that was there, of the same publication
        obtain ⟨row, hrow⟩ := Finmap.mem_iff.1 (mem_log_persistBatch.2 (.inr ⟨m, hm, rfl⟩))
        refine ⟨m.eventId, row, hrow, ?_⟩
        rcases log_persistBatch hrow with hstored | ⟨m', hm', hid, before, after, rfl⟩
        · obtain ⟨m', hid, hd', before, after, rfl⟩ := hi.log _ row hstored
          obtain ⟨event, h1, h2⟩ := hi.eq_of_eventId hd' (hd m hm) hid
          exact h1.sagaId.trans h2.sagaId.symm
        · obtain ⟨event, h1, h2⟩ := hi.eq_of_eventId (hd m' hm') (hd m hm) hid
          exact h1.sagaId.trans h2.sagaId.symm
    · rintro ⟨id, row, hrow, rfl⟩
      rcases log_persistBatch hrow with hstored | ⟨m, hm, -, before, after, rfl⟩
      · exact .inl ⟨id, row, hstored, rfl⟩
      · exact .inr ⟨m, hm, rfl⟩

end MonitoredInv

/-! ## Runs -/

section Runs

variable {encode : String → Buffer} {str : Buffer → String} {publishedNow : Kafka.KafkaMessage Buffer → String}
variable {env : ParseEnv} {topicPrefix : String} {date : String → Time} {localeCompare : String → String → ℤ}
variable {as : List (MonitoredAct Buffer Time)} {s s' : Monitored Time}

/-- A batch is polled. -/
theorem MonitoredInv.poll (hstr : ∀ s, str (encode s) = s) (hi : MonitoredInv env topicPrefix date as s)
    {topic : String} {partition : ℕ} {arrivals : List (Arrival Buffer)} {messages : List (Kafka.KafkaMessage Buffer)}
    (ha : .poll topic partition arrivals ∈ as)
    (h : arrivalMessages encode str publishedNow env topicPrefix s.world arrivals = some messages) :
    MonitoredInv env topicPrefix date as
      { s with
        projector :=
          { s.projector with
            batches := s.projector.batches ++
              [.polled ((⟨⟨topic, messages⟩, partition⟩ : PartitionBatch Buffer).prepared str publishedNow)] } } := by
  obtain ⟨hprepared, -⟩ := prepared_arrivals hstr hi.lineage hi.ids h
  refine { hi with batches := fun b hb => ?_ }
  rcases List.mem_append.1 hb with hb | hb
  · exact hi.batches b hb
  · rw [List.mem_singleton.1 hb]
    refine ⟨trivial, trivial, fun m hm => ?_⟩
    obtain ⟨i, hmem, p, hp, hrep⟩ := hprepared m hm
    exact ⟨_, ha, i, hmem, p, hp, hrep⟩

theorem MonitoredInv.project (hi : MonitoredInv env topicPrefix date as s) {a : ProjectorAct Time} {t : ProjectorState Time}
    (ha : ∀ ms, a ≠ .poll ms) (h : projectorStep date localeCompare s.projector a = some t) :
    MonitoredInv env topicPrefix date as { s with projector := t } := by
  cases projectorStep_move date localeCompare h with
  | poll ms => exact absurd rfl (ha ms)
  | nothingNew hp hn => exact hi.ended _
  | dedupe hp hn =>
    obtain ⟨-, -, hd⟩ := hi.batches _ (List.mem_of_getElem? hp)
    exact hi.put _ trivial trivial fun m hm => hd m (List.mem_filter.1 hm).1
  | @lookup i ms hp =>
    obtain ⟨-, -, hd⟩ := hi.batches _ (List.mem_of_getElem? hp)
    refine hi.put i trivial (fun k hk => ?_) hd
    -- a status that was looked up is that of a row
    unfold statusIn lookupStates bulkLookup at hk
    split at hk
    · obtain ⟨info, hinfo, -⟩ := Option.map_eq_some_iff.1 hk
      obtain ⟨row, hrow, -⟩ := Option.map_eq_some_iff.1 hinfo
      exact Finmap.mem_iff.2 ⟨row, hrow⟩
    · cases hk
  | @derive i ms stateMap now hp =>
    obtain ⟨-, hk, hd⟩ := hi.batches _ (List.mem_of_getElem? hp)
    exact hi.put i ⟨now, rfl⟩ hk hd
  | @commit i ms stateMap changes now hp => exact hi.commit hp now
  | abort hp => exact hi.ended _

/-- What a step does: the sagas move, messages arrive, or a batch moves. -/
theorem monitoredStep_cases {a : MonitoredAct Buffer Time}
    (h : monitoredStep encode str publishedNow env topicPrefix date localeCompare s a = some s') :
    (∃ act w, a = .saga act ∧ sagaStep env topicPrefix s.world act = some w ∧ s' = { s with world := w }) ∨
    (∃ topic partition arrivals messages, a = .poll topic partition arrivals ∧
      arrivalMessages encode str publishedNow env topicPrefix s.world arrivals = some messages ∧
      s' = { s with
        projector :=
          { s.projector with
            batches := s.projector.batches ++
              [.polled ((⟨⟨topic, messages⟩, partition⟩ : PartitionBatch Buffer).prepared str publishedNow)] } }) ∨
    ∃ act t, a = .project act ∧ (∀ ms, act ≠ .poll ms) ∧ projectorStep date localeCompare s.projector act = some t ∧
      s' = { s with projector := t } := by
  cases a with
  | saga act =>
    obtain ⟨w, hw, rfl⟩ := Option.map_eq_some_iff.1 h
    exact .inl ⟨act, w, rfl, hw, rfl⟩
  | poll topic partition arrivals =>
    simp only [monitoredStep] at h
    split at h
    · cases h
    · rename_i messages hm
      cases h
      exact .inr (.inl ⟨topic, partition, arrivals, messages, rfl, hm, rfl⟩)
  | project act =>
    cases act with
    | poll ms => cases h
    | _ =>
      obtain ⟨t, ht, rfl⟩ := Option.map_eq_some_iff.1 h
      exact .inr (.inr ⟨_, t, rfl, nofun, ht, rfl⟩)

theorem monitoredInv_step (hstr : ∀ s, str (encode s) = s) {a : MonitoredAct Buffer Time}
    (hi : MonitoredInv env topicPrefix date as s)
    (h : monitoredStep encode str publishedNow env topicPrefix date localeCompare s a = some s') :
    MonitoredInv env topicPrefix date (as ++ [a]) s' := by
  rcases monitoredStep_cases h with ⟨act, w, rfl, hw, rfl⟩ | ⟨topic, partition, arrivals, messages, rfl, hm, rfl⟩ |
    ⟨act, t, rfl, hne, ht, rfl⟩
  · exact (hi.later _).saga hw
  · exact (hi.later _).poll hstr (List.mem_append_right _ (List.mem_singleton_self _)) hm
  · exact (hi.later _).project hne ht

theorem monitoredInv_empty : MonitoredInv env topicPrefix date ([] : List (MonitoredAct Buffer Time)) .empty where
  lineage := lineageInv_empty
  causation := causationInv_empty
  ids _ hp := absurd hp List.not_mem_nil
  batches _ hb := absurd hb List.not_mem_nil
  states _ _ h := by cases h
  log _ _ h := by cases h
  references k := by
    refine iff_of_false (Finmap.notMem_empty) ?_
    rintro ⟨id, row, hrow, -⟩
    cases hrow

theorem monitoredInv_run (hstr : ∀ s, str (encode s) = s)
    (h : run (monitoredStep encode str publishedNow env topicPrefix date localeCompare) .empty as = some s) :
    MonitoredInv env topicPrefix date as s :=
  run_history (I := fun as s => MonitoredInv env topicPrefix date as s)
    (fun _ _ _ _ hi hs => monitoredInv_step hstr hi hs) monitoredInv_empty h

/-- In every run, the rows of the log are publications and those of the states are the sagas of these, each
with the root and the parent that its creation gives it. -/
theorem faithful_of_run (hstr : ∀ s, str (encode s) = s)
    (h : run (monitoredStep encode str publishedNow env topicPrefix date localeCompare) .empty as = some s) :
    Faithful date s := by
  have hi := monitoredInv_run hstr h
  refine ⟨hi.states, fun id row hrow => ?_, hi.references⟩
  obtain ⟨m, hid, hd, before, after, rfl⟩ := hi.log id row hrow
  refine ⟨hid, hi.placed hd, ?_⟩
  obtain ⟨-, -, i, -, p, hp, hrep⟩ := hd
  exact ⟨p, List.mem_of_getElem? hp, m, before, after, hrep, rfl⟩

/-! ## No publication is lost -/

/-- Every publication that was polled is in the log or waits in a batch. -/
def Accounted (as : List (MonitoredAct Buffer Time)) (s : Monitored Time) : Prop :=
  ∀ a ∈ as, ∀ i ∈ a.polled, ∃ p, s.world.published[i]? = some p ∧
    (p.event.eventId ∈ s.projector.db.log ∨
      ∃ b ∈ s.projector.batches, ∃ m ∈ b.pending, m.eventId = p.event.eventId)

theorem Accounted.saga (h : Accounted as s) {act : SagaAct} {w : World} (hw : sagaStep env topicPrefix s.world act = some w) :
    Accounted (as ++ [.saga act]) { s with world := w } := by
  intro a ha i hi
  rcases List.mem_append.1 ha with ha | ha
  · obtain ⟨p, hp, hacc⟩ := h a ha i hi
    exact ⟨p, getElem?_of_prefix (grows_step hw).published hp, hacc⟩
  · rw [List.mem_singleton.1 ha] at hi
    cases hi

/-- The phase a batch leaves is replaced, and the other batches stay. -/
theorem eq_or_mem_put {t : ProjectorState Time} {i : ℕ} {old phase b : BatchPhase Time} (hp : t.batches[i]? = some old)
    (hb : b ∈ t.batches) : b = old ∨ b ∈ (t.put i phase).batches := by
  obtain ⟨j, hj⟩ := List.mem_iff_getElem?.1 hb
  by_cases hij : i = j
  · subst hij
    rw [hp] at hj
    cases hj
    exact .inl rfl
  · refine .inr (List.mem_iff_getElem?.2 ⟨j, ?_⟩)
    show (t.batches.set i phase)[j]? = some b
    rw [List.getElem?_set_ne hij, hj]

/-- A batch enters a phase, and what it no longer has is in the log. -/
theorem Accounted.move (h : Accounted as s) {act : ProjectorAct Time} {t : ProjectorState Time} {i : ℕ}
    {old phase : BatchPhase Time} (hp : s.projector.batches[i]? = some old) (ht : t.batches = (s.projector.put i phase).batches)
    (hlog : ∀ id ∈ s.projector.db.log, id ∈ t.db.log)
    (hm : ∀ m ∈ old.pending, m.eventId ∈ t.db.log ∨ m ∈ phase.pending) :
    Accounted (as ++ [.project act]) { s with projector := t } := by
  intro a ha j hj
  rcases List.mem_append.1 ha with ha | ha
  · obtain ⟨p, hpub, hacc⟩ := h a ha j hj
    refine ⟨p, hpub, ?_⟩
    rcases hacc with hl | ⟨b, hb, m, hmem, hid⟩
    · exact .inl (hlog _ hl)
    · have hphase : i < s.projector.batches.length := (List.getElem?_eq_some_iff.1 hp).1
      rcases eq_or_mem_put hp hb with rfl | hb
      · rcases hm m hmem with hl | hmem
        · exact .inl (hid ▸ hl)
        · refine .inr ⟨phase, ?_, m, hmem, hid⟩
          rw [ht]
          exact List.mem_iff_getElem?.2 ⟨i, List.getElem?_set_self hphase⟩
      · exact .inr ⟨b, ht ▸ hb, m, hmem, hid⟩
  · rw [List.mem_singleton.1 ha] at hj
    cases hj

theorem Accounted.project (hi : MonitoredInv env topicPrefix date as s) (h : Accounted as s) {a : ProjectorAct Time}
    {t : ProjectorState Time} (hpoll : ∀ ms, a ≠ .poll ms) (habort : (.project a : MonitoredAct Buffer Time).isAbort = false)
    (ht : projectorStep date localeCompare s.projector a = some t) :
    Accounted (as ++ [.project a]) { s with projector := t } := by
  cases projectorStep_move date localeCompare ht with
  | poll ms => exact absurd rfl (hpoll ms)
  | nothingNew hp hn => exact h.move hp rfl (fun _ hl => hl) fun m hm => .inl (dedupe_eq_nil_iff.1 hn m hm)
  | @dedupe i prepared hp hn =>
    refine h.move hp rfl (fun _ hl => hl) fun m hm => ?_
    by_cases hl : m.eventId ∈ s.projector.db.log
    · exact .inl hl
    · refine .inr ?_
      show m ∈ dedupe s.projector.db prepared
      rw [dedupe_eq_filter]
      exact List.mem_filter.2 ⟨hm, by simpa using hl⟩
  | lookup hp => exact h.move hp rfl (fun _ hl => hl) fun m hm => .inr hm
  | derive hp => exact h.move hp rfl (fun _ hl => hl) fun m hm => .inr hm
  | commit hp =>
    obtain ⟨⟨now', rfl⟩, -, -⟩ := hi.batches _ (List.mem_of_getElem? hp)
    refine h.move hp rfl (fun id hl => mem_log_persistBatch.2 (.inl hl)) fun m hm => .inl ?_
    exact mem_log_persistBatch.2 (.inr ⟨m, hm, rfl⟩)
  | abort hp => cases habort

theorem Accounted.poll (hstr : ∀ s, str (encode s) = s) (hi : MonitoredInv env topicPrefix date as s) (h : Accounted as s)
    {topic : String} {partition : ℕ} {arrivals : List (Arrival Buffer)} {messages : List (Kafka.KafkaMessage Buffer)}
    (hm : arrivalMessages encode str publishedNow env topicPrefix s.world arrivals = some messages) :
    Accounted (as ++ [.poll topic partition arrivals])
      { s with
        projector :=
          { s.projector with
            batches := s.projector.batches ++
              [.polled ((⟨⟨topic, messages⟩, partition⟩ : PartitionBatch Buffer).prepared str publishedNow)] } } := by
  obtain ⟨-, hpolled⟩ := prepared_arrivals hstr hi.lineage hi.ids hm
  intro a ha i hmem
  rcases List.mem_append.1 ha with ha | ha
  · obtain ⟨p, hp, hacc⟩ := h a ha i hmem
    refine ⟨p, hp, hacc.imp id fun ⟨b, hb, hrest⟩ => ⟨b, List.mem_append_left _ hb, hrest⟩⟩
  · rw [List.mem_singleton.1 ha] at hmem
    obtain ⟨m, hprepared, p, hp, hrep⟩ := hpolled i hmem
    exact ⟨p, hp, .inr ⟨_, List.mem_append_right _ (List.mem_singleton_self _), m, hprepared, hrep.eventId⟩⟩

/-- In every run in which no batch is given up each publication that was polled is logged or still waits. -/
theorem accounted_run (hstr : ∀ s, str (encode s) = s)
    (h : run (monitoredStep encode str publishedNow env topicPrefix date localeCompare) .empty as = some s)
    (hno : ∀ a ∈ as, a.isAbort = false) : Accounted as s := by
  refine (run_history (I := fun as s => MonitoredInv env topicPrefix date as s ∧
    ((∀ a ∈ as, a.isAbort = false) → Accounted as s)) (fun as s a s' ⟨hi, hacc⟩ hs => ?_)
    ⟨monitoredInv_empty, fun _ a ha => nomatch ha⟩ h).2 hno
  refine ⟨monitoredInv_step hstr hi hs, fun hno => ?_⟩
  have hbefore := hacc fun a ha => hno a (List.mem_append_left _ ha)
  have hlast := hno a (List.mem_append_right _ (List.mem_singleton_self a))
  rcases monitoredStep_cases hs with ⟨act, w, rfl, hw, rfl⟩ | ⟨topic, partition, arrivals, messages, rfl, hm, rfl⟩ |
    ⟨act, t, rfl, hne, ht, rfl⟩
  · exact hbefore.saga hw
  · exact hbefore.poll hstr hi hm
  · exact hbefore.project hi hne hlast ht

/-- Where no batch was given up and all have ended the log has exactly the publications that were polled, each once,
whatever was delivered twice or out of order. -/
theorem logged_iff_polled (hstr : ∀ s, str (encode s) = s)
    (h : run (monitoredStep encode str publishedNow env topicPrefix date localeCompare) .empty as = some s)
    (hno : ∀ a ∈ as, a.isAbort = false) (hended : ∀ b ∈ s.projector.batches, b.pending = [])
    (i : ℕ) (p : Publication) (hp : s.world.published[i]? = some p) :
    p.event.eventId ∈ s.projector.db.log ↔ ∃ a ∈ as, i ∈ a.polled := by
  have hi := monitoredInv_run hstr h
  constructor
  · intro hl
    obtain ⟨row, hrow⟩ := Finmap.mem_iff.1 hl
    obtain ⟨m, hid, ⟨a, ha, j, hj, q, hq, hrep⟩, -⟩ := hi.log _ row hrow
    -- event ids are distinct, so it is the publication at the same place
    have hlen := (List.getElem?_eq_some_iff.1 hp).1
    have hsame : (s.world.published.map (·.event.eventId))[i]? = (s.world.published.map (·.event.eventId))[j]? := by
      rw [List.getElem?_map, List.getElem?_map, hp, hq]
      exact congrArg some (hid.symm.trans hrep.eventId)
    have hij : i = j := (List.getElem?_inj (by simpa using hlen) hi.causation.distinct).1 hsame
    exact ⟨a, ha, hij ▸ hj⟩
  · rintro ⟨a, ha, hmem⟩
    obtain ⟨q, hq, hacc⟩ := accounted_run hstr h hno a ha i hmem
    rw [hp] at hq
    cases hq
    rcases hacc with hl | ⟨b, hb, m, hm, -⟩
    · exact hl
    · rw [hended b hb] at hm
      cases hm

end Runs

/-! ## The query over what is stored -/

section Query

variable {repo : SagaStateRepository} {db : Database Time} {w : World} {sagaId id rootId parent child : String}

/-- Every state has the root and the parent of its saga. -/
def Database.Placed (db : Database Time) (created : Forest String) : Prop :=
  ∀ k row, db.states.lookup k = some row → Monitor.Placed created k row.sagaRootId row.sagaParentId

/-- The parent links among the states of a root are those of the sagas that are stored. -/
theorem isParent_iff (hl : LineageInv w) (hdb : db.Placed w.created) (hrepo : repo.Reads db) :
    IsParent (repo.findByRootId rootId) parent child ↔
      child ∈ db.states ∧ w.created.root child = rootId ∧ (w.created.ancestors child).head? = some parent := by
  unfold IsParent
  constructor
  · rintro ⟨record, hmem, rfl, hp, -⟩
    obtain ⟨hfind, hroot⟩ := (hrepo.findByRootId rootId record).1 hmem
    rw [hrepo.findById] at hfind
    obtain ⟨row, hrow, heq⟩ := Option.map_eq_some_iff.1 hfind
    have hplaced := hdb _ row hrow
    have hr : record.sagaRootId = row.sagaRootId := (congrArg SagaStateRecord.sagaRootId heq).symm
    have hpar : record.sagaParentId = row.sagaParentId := (congrArg SagaStateRecord.sagaParentId heq).symm
    refine ⟨Finmap.mem_iff.2 ⟨row, hrow⟩, ?_, ?_⟩
    · rw [← hplaced.root, ← hr, hroot]
    · rw [← hplaced.parent, ← hpar, hp]
  · rintro ⟨hmem, hroot, hp⟩
    obtain ⟨row, hrow⟩ := Finmap.mem_iff.1 hmem
    have hplaced := hdb child row hrow
    have hparent : parent ∈ w.created.nodes :=
      Forest.ancestors_subset hl.grown child parent (List.mem_of_mem_head? hp)
    refine ⟨⟨child, row.sagaRootId, row.sagaParentId⟩, (hrepo.findByRootId _ _).2 ⟨?_, ?_⟩, rfl, ?_,
      (hl.ids parent hparent).1.1⟩
    · rw [hrepo.findById, hrow]
      rfl
    · exact hplaced.root.trans hroot
    · exact hplaced.parent.trans hp

/-- A saga that is stored leads down to the sagas above which all are stored. -/
theorem descends_iff (hl : LineageInv w) (hdb : db.Placed w.created) (hrepo : repo.Reads db) (hs : sagaId ∈ db.states) :
    Descends (repo.findByRootId (w.created.root sagaId)) sagaId id ↔ StoredUpTo db w.created sagaId id := by
  constructor
  · intro h
    induction h with
    | refl => exact ⟨[], rfl, by simpa using hs⟩
    | @tail b c _ hbc ih =>
      obtain ⟨hc, -, hp⟩ := (isParent_iff hl hdb hrepo).1 hbc
      obtain ⟨below, heq, hall⟩ := ih
      obtain ⟨above, habove⟩ := List.head?_eq_some_iff.1 hp
      refine ⟨c :: below, ?_, fun k hk => ?_⟩
      · rw [List.cons_append, ← heq, habove, (Forest.ancestors_parent hl.grown habove).2]
      · rcases List.mem_cons.1 hk with rfl | hk
        · exact hs
        · rcases List.mem_cons.1 hk with rfl | hk
          · exact hc
          · exact hall k (List.mem_cons_of_mem _ hk)
  · rintro ⟨below, heq, hall⟩
    -- down from the ancestor, one saga for each that is below it
    induction below generalizing id with
    | nil =>
      cases heq
      exact .refl
    | cons x below ih =>
      have hx : id = x := (List.cons.inj heq).1
      subst hx
      have hroot := Forest.root_of_append heq
      obtain ⟨p, hp, hrest⟩ := Forest.parent_of_append hl.grown heq
      have hmem : id ∈ db.states := hall id (by simp)
      refine .tail (ih hrest fun k hk => hall k ?_) ((isParent_iff hl hdb hrepo).2 ⟨hmem, hroot, hp⟩)
      rcases List.mem_cons.1 hk with rfl | hk
      · exact .head _
      · exact .tail _ (.tail _ hk)

/-- No other saga is both below and above one. -/
theorem eq_of_storedUpTo (hg : w.created.Grown) (h : StoredUpTo db w.created sagaId id)
    (h' : StoredUpTo db w.created id sagaId) : id = sagaId := by
  obtain ⟨below, heq, -⟩ := h
  obtain ⟨below', heq', -⟩ := h'
  cases below with
  | nil => exact (List.cons.inj heq).1
  | cons x below =>
    cases below' with
    | nil => exact (List.cons.inj heq').1.symm
    | cons x' below' =>
      have hup : sagaId ∈ w.created.ancestors id := by rw [(List.cons.inj heq).2]; simp
      have hdown : id ∈ w.created.ancestors sagaId := by rw [(List.cons.inj heq').2]; simp
      exact absurd hdown (Forest.not_mem_ancestors_of_mem hg hup)

theorem StoredUpTo.mem {created : Forest String} (h : StoredUpTo db created sagaId id) :
    sagaId ∈ db.states ∧ id ∈ db.states := by
  obtain ⟨below, heq, hall⟩ := h
  refine ⟨hall sagaId (.head _), ?_⟩
  cases below with
  | nil => rw [(List.cons.inj heq).1]; exact hall _ (by simp)
  | cons x below => rw [(List.cons.inj heq).1]; exact hall _ (by simp)

/-- A query that ends has found the saga and those below it above which all are stored. -/
theorem mem_of_collected (hl : LineageInv w) (hdb : db.Placed w.created) (hrepo : repo.Reads db) {fuel : ℕ}
    {ids : List String} (h : collectDescendantIds repo sagaId fuel = some ids) (id : String) :
    id ∈ ids ↔ id = sagaId ∨ StoredUpTo db w.created sagaId id := by
  unfold collectDescendantIds at h
  rw [hrepo.findById] at h
  cases hrow : db.states.lookup sagaId with
  | none =>
    rw [hrow] at h
    cases h
    rw [List.mem_singleton]
    refine ⟨.inl, fun h => h.resolve_right fun hup => ?_⟩
    have hmem := hup.mem.1
    rw [← Finmap.lookup_isSome, hrow] at hmem
    cases hmem
  | some row =>
    have hs : sagaId ∈ db.states := Finmap.mem_iff.2 ⟨row, hrow⟩
    have hroot : row.sagaRootId = w.created.root sagaId := (hdb sagaId row hrow).root
    rw [hrow] at h
    simp only [Option.map_some, hroot] at h
    rw [Search.mem_of_search h, below_iff, descends_iff hl hdb hrepo hs]
    refine ⟨.inr, fun h => h.elim (fun heq => ?_) fun h => h⟩
    subst heq
    exact ⟨[], rfl, by simpa using hs⟩

/-- Over states with the roots and the parents of their sagas the query ends, with the saga and those below
it above which all are stored, each once. -/
theorem collects_of_placed (hl : LineageInv w) (hdb : db.Placed w.created) (hrepo : repo.Reads db) (sagaId : String) :
    ∃ fuel ids, collectDescendantIds repo sagaId fuel = some ids ∧ ids.Nodup ∧
      ∀ id, id ∈ ids ↔ id = sagaId ∨ StoredUpTo db w.created sagaId id := by
  suffices h : ∃ fuel ids, collectDescendantIds repo sagaId fuel = some ids ∧ ids.Nodup by
    obtain ⟨fuel, ids, hids, hn⟩ := h
    exact ⟨fuel, ids, hids, hn, mem_of_collected hl hdb hrepo hids⟩
  unfold collectDescendantIds
  rw [hrepo.findById]
  cases hrow : db.states.lookup sagaId with
  | none => exact ⟨0, [sagaId], rfl, List.nodup_singleton _⟩
  | some row =>
    have hs : sagaId ∈ db.states := Finmap.mem_iff.2 ⟨row, hrow⟩
    have hroot : row.sagaRootId = w.created.root sagaId := (hdb sagaId row hrow).root
    have htree : Search.TreeFrom (childIds (repo.findByRootId (w.created.root sagaId))) sagaId := by
      rw [treeFrom_childIds_iff (repo.distinct _), cycle_iff]
      rintro ⟨other, hne, hdown, hup⟩
      obtain ⟨below, heq, hall⟩ := (descends_iff hl hdb hrepo hs).1 hdown
      have hother : other ∈ db.states := by
        cases below with
        | nil => exact absurd (List.cons.inj heq).1 hne
        | cons x below => exact hall other (by rw [(List.cons.inj heq).1]; simp)
      rw [← Forest.root_of_append heq] at hup
      exact hne (eq_of_storedUpTo hl.grown ⟨below, heq, hall⟩ ((descends_iff hl hdb hrepo hother).1 hup))
    obtain ⟨fuel, ids, hids, hn, -⟩ := (Search.search_exact_iff fun _ => mem_of_below).2 htree
    refine ⟨fuel, ids, ?_, hn⟩
    simpa only [Option.map_some, hroot] using hids

/-- In every run of the operations of `SagaAct` the query for the descendants of a saga ends: no parent links of sagas that
these create form a cycle, whatever has been projected so far. -/
theorem descendants_of_run {encode : String → Buffer} {str : Buffer → String}
    {publishedNow : Kafka.KafkaMessage Buffer → String} {env : ParseEnv} {topicPrefix : String} {date : String → Time}
    {localeCompare : String → String → ℤ} (hstr : ∀ s, str (encode s) = s) {as : List (MonitoredAct Buffer Time)}
    {s : Monitored Time}
    (h : run (monitoredStep encode str publishedNow env topicPrefix date localeCompare) .empty as = some s)
    {repo : SagaStateRepository} (hrepo : repo.Reads s.projector.db) (sagaId : String) :
    ∃ fuel ids, collectDescendantIds repo sagaId fuel = some ids ∧ ids.Nodup ∧
      ∀ id, id ∈ ids ↔ id = sagaId ∨ StoredUpTo s.projector.db s.world.created sagaId id := by
  have hi := monitoredInv_run hstr h
  exact collects_of_placed hi.lineage hi.states hrepo sagaId

end Query

/-! ## What stays -/

section Later

variable {encode : String → Buffer} {str : Buffer → String} {publishedNow : Kafka.KafkaMessage Buffer → String}
variable {env : ParseEnv} {topicPrefix : String} {date : String → Time} {localeCompare : String → String → ℤ}
variable {as : List (MonitoredAct Buffer Time)} {s s' s'' : Monitored Time}

/-- What is stored is stored later too, and a saga keeps those above it. -/
structure Extends (s s' : Monitored Time) : Prop where
  log : ∀ id row, s.projector.db.log.lookup id = some row → s'.projector.db.log.lookup id = some row
  states : ∀ k, k ∈ s.projector.db.states → k ∈ s'.projector.db.states
  created : ∀ k ∈ s.world.created.nodes,
    k ∈ s'.world.created.nodes ∧ s'.world.created.ancestors k = s.world.created.ancestors k

theorem Extends.refl (s : Monitored Time) : Extends s s := ⟨fun _ _ h => h, fun _ h => h, fun _ h => ⟨h, rfl⟩⟩

theorem Extends.trans (h : Extends s s') (h' : Extends s' s'') : Extends s s'' where
  log id row hrow := h'.log id row (h.log id row hrow)
  states k hk := h'.states k (h.states k hk)
  created k hk := by
    obtain ⟨hmem, heq⟩ := h.created k hk
    obtain ⟨hmem', heq'⟩ := h'.created k hmem
    exact ⟨hmem', heq'.trans heq⟩

theorem extends_step (hstr : ∀ s, str (encode s) = s) {a : MonitoredAct Buffer Time}
    (hi : MonitoredInv env topicPrefix date as s)
    (h : monitoredStep encode str publishedNow env topicPrefix date localeCompare s a = some s') : Extends s s' := by
  have hi' := monitoredInv_step hstr hi h
  rcases monitoredStep_cases h with ⟨act, w, rfl, hw, rfl⟩ | ⟨topic, partition, arrivals, messages, rfl, hm, rfl⟩ |
    ⟨act, t, rfl, hne, ht, rfl⟩
  · refine ⟨fun _ _ h => h, fun _ h => h, fun k hk => ?_⟩
    have hgrown : w.created.Grown := hi'.lineage.grown
    rcases (grows_step hw).created with heq | ⟨x, parent, heq⟩
    · show k ∈ w.created.nodes ∧ w.created.ancestors k = _
      rw [heq]
      exact ⟨hk, rfl⟩
    · show k ∈ w.created.nodes ∧ w.created.ancestors k = _
      rw [heq] at hgrown ⊢
      exact ⟨List.mem_cons_of_mem x hk, Forest.ancestors_grow hgrown hk⟩
  · exact ⟨fun _ _ h => h, fun _ h => h, fun _ h => ⟨h, rfl⟩⟩
  · refine ⟨fun id row hrow => ?_, fun k hk => ?_, fun _ hk => ⟨hk, rfl⟩⟩
    · cases projectorStep_move date localeCompare ht with
      | commit hp => exact lookup_log_persistBatch _ _ hrow
      | _ => exact hrow
    · cases projectorStep_move date localeCompare ht with
      | commit hp =>
        obtain ⟨⟨now', rfl⟩, hknown, -⟩ := hi.batches _ (List.mem_of_getElem? hp)
        exact (mem_states_persistBatch hknown).2 (.inl hk)
      | _ => exact hk

theorem extends_run (hstr : ∀ s, str (encode s) = s) (hi : MonitoredInv env topicPrefix date as s)
    (h : Reachable (monitoredStep encode str publishedNow env topicPrefix date localeCompare) s s') :
    (∃ as' : List (MonitoredAct Buffer Time), MonitoredInv env topicPrefix date as' s') ∧ Extends s s' := by
  refine h.induction (I := fun t =>
    (∃ as' : List (MonitoredAct Buffer Time), MonitoredInv env topicPrefix date as' t) ∧ Extends s t) ?_ ⟨⟨as, hi⟩, .refl s⟩
  rintro t a t' ⟨⟨as', hi'⟩, he⟩ ht
  exact ⟨⟨_, monitoredInv_step hstr hi' ht⟩, he.trans (extends_step hstr hi' ht)⟩

/-- Sagas that are stored up to one are so later. -/
theorem StoredUpTo.later (hi : MonitoredInv env topicPrefix date as s) (he : Extends s s') {ancestor descendant : String}
    (h : StoredUpTo s.projector.db s.world.created ancestor descendant) :
    StoredUpTo s'.projector.db s'.world.created ancestor descendant := by
  have hnode : ∀ k, k ∈ s.projector.db.states → k ∈ s.world.created.nodes := by
    intro k hk
    obtain ⟨row, hrow⟩ := Finmap.mem_iff.1 hk
    exact (hi.states k row hrow).mem
  obtain ⟨hancestor, hdescendant⟩ := h.mem
  obtain ⟨below, heq, hall⟩ := h
  refine ⟨below, ?_, fun k hk => he.states k (hall k hk)⟩
  rw [(he.created _ (hnode _ hdescendant)).2, (he.created _ (hnode _ hancestor)).2, heq]

end Later

/-! ## A tree of sagas that is watched -/

/-- Every database has such a repository. -/
theorem exists_reads (db : Database Time) : ∃ repo : SagaStateRepository, repo.Reads db := by
  let ofRoot (rootId : String) : List String :=
    db.states.keys.toList.filter fun k => (db.states.lookup k).map (·.sagaRootId) = some rootId
  let record (rootId k : String) : SagaStateRecord := ⟨k, rootId, (db.states.lookup k).bind (·.sagaParentId)⟩
  have hid : ∀ rootId, ((ofRoot rootId).map (record rootId)).map (·.sagaId) = ofRoot rootId := by
    intro rootId
    rw [List.map_map]
    exact List.map_id _
  refine ⟨⟨fun k => (db.states.lookup k).map fun row => ⟨k, row.sagaRootId, row.sagaParentId⟩,
    fun rootId => (ofRoot rootId).map (record rootId), fun rootId => ?_⟩, fun _ => rfl, fun rootId r => ?_⟩
  · rw [hid]
    exact (Finset.nodup_toList _).filter _
  · simp only [List.mem_map, Option.map_eq_some_iff]
    constructor
    · rintro ⟨k, hk, rfl⟩
      obtain ⟨row, hrow, hroot⟩ := Option.map_eq_some_iff.1 (of_decide_eq_true (List.mem_filter.1 hk).2)
      refine ⟨⟨row, hrow, ?_⟩, rfl⟩
      simp only [record, hrow, hroot, Option.bind_some]
    · rintro ⟨⟨row, hrow, hr⟩, rfl⟩
      rw [← hr] at hrow ⊢
      refine ⟨r.sagaId, List.mem_filter.2 ⟨?_, ?_⟩, ?_⟩
      · exact Finset.mem_toList.2 (Finmap.mem_iff.2 ⟨row, hrow⟩)
      · rw [hrow]
        exact decide_eq_true rfl
      · simp only [record, hrow, Option.bind_some]

/-- The sagas run, a batch arrives out of order with a message of others, and what is left arrives with a
repeat. -/
def MonitoredAct.sampleRun : List (MonitoredAct String String) :=
  SagaAct.sampleRun.map .saga ++
    [.poll "prod.order.created" 0
        [.publication 2 [] none none "0", .foreign ⟨none, none, "1", none⟩,
          .publication 0 [("traceparent", "00-0af7651916cd43dd-b7ad6b7169203331-01")] none none "2"],
      .project (.dedupe 0), .project (.lookup 0), .project (.derive 0 "t"), .project (.commit 0 "t"),
      .poll "prod.order.created" 1 [.publication 1 [] none none "0", .publication 0 [] none none "1"],
      .project (.dedupe 1), .project (.lookup 1), .project (.derive 1 "t"), .project (.commit 1 "t")]

/-- The system that runs it, with strings for buffers and dates. -/
def monitoredStep.sample : Monitored String → MonitoredAct String String → Option (Monitored String) :=
  monitoredStep id id (fun _ => "t") .sample "prod." id compareText

theorem faithful_of_run_sample :
    ∃ s, run monitoredStep.sample .empty MonitoredAct.sampleRun = some s ∧
      "saga-3" ∈ s.projector.db.states ∧ "saga-1" ∉ s.projector.db.states ∧ Faithful id s := by
  obtain ⟨s, hr, hp⟩ := exists_of_run monitoredStep.sample Monitored.empty MonitoredAct.sampleRun
    (fun s => decide ("saga-3" ∈ s.projector.db.states) && decide ("saga-1" ∉ s.projector.db.states)) (by decide +kernel)
  rw [Bool.and_eq_true, decide_eq_true_iff, decide_eq_true_iff] at hp
  exact ⟨s, hr, hp.1, hp.2, faithful_of_run (fun _ => rfl) hr⟩

theorem logged_iff_polled_sample :
    ∃ s, run monitoredStep.sample .empty MonitoredAct.sampleRun = some s ∧
      ∀ i p, s.world.published[i]? = some p →
        (p.event.eventId ∈ s.projector.db.log ↔ ∃ a ∈ MonitoredAct.sampleRun, i ∈ a.polled) := by
  obtain ⟨s, hr, hp⟩ := exists_of_run monitoredStep.sample Monitored.empty MonitoredAct.sampleRun
    (fun s => s.projector.batches.all (·.pending = [])) (by decide +kernel)
  rw [List.all_eq_true] at hp
  exact ⟨s, hr, logged_iff_polled (fun _ => rfl) hr (by decide) fun b hb => of_decide_eq_true (hp b hb)⟩

/-- No event of the root saga has arrived, and the query starts at the saga below it. -/
theorem descendants_of_run_sample :
    ∃ s repo fuel ids, run monitoredStep.sample .empty MonitoredAct.sampleRun = some s ∧ repo.Reads s.projector.db ∧
      collectDescendantIds repo "saga-2" fuel = some ids ∧ ids.Nodup ∧
        ∀ id, id ∈ ids ↔ id = "saga-2" ∨ StoredUpTo s.projector.db s.world.created "saga-2" id := by
  obtain ⟨s, hr, -⟩ := exists_of_run monitoredStep.sample Monitored.empty MonitoredAct.sampleRun (fun _ => true)
    (by decide +kernel)
  obtain ⟨repo, hrepo⟩ := exists_reads s.projector.db
  obtain ⟨fuel, ids, hids⟩ := descendants_of_run (fun _ => rfl) hr hrepo "saga-2"
  exact ⟨s, repo, fuel, ids, hr, hrepo, hids⟩

end Saga.Monitor
