/-
The projector of the monitor: it reads batches of saga messages and keeps a row per saga in
`saga_state` and a row per event in `saga_event_log`. A batch is deduplicated against the log, the
states of its sagas are looked up, the changes are derived in memory and written in one transaction.

`Time` is the type of dates and `date` stands for `new Date(…)` on the text of a header. A date, a number
or a text that a column does not take makes the transaction fail and changes no row. The columns
`created_at` and `metadata` are not written by this code, and counters stay in the range of theirs.
-/
import SagaProofs.Core.Event
import SagaProofs.Lib.Keyed

namespace Saga.Monitor

open Keyed

variable {Time : Type}

/-! ## Messages -/

inductive EventHint
  | step
  | compensation
  | final
  | fork
  deriving DecidableEq

inductive SagaStatus
  | running
  | compensating
  | completed
  deriving DecidableEq

structure ParsedSagaHeaders where
  sagaId : String
  sagaRootId : String
  sagaParentId : Option String
  sagaCausationId : String
  sagaEventId : String
  sagaStepName : String
  sagaStepDescription : Option String
  sagaEventHint : Option EventHint
  sagaName : Option String
  sagaDescription : Option String
  sagaPublishedAt : String
  sagaSchemaVersion : Number
  deriving DecidableEq

structure PreparedMessage where
  parsed : ParsedSagaHeaders
  headersJson : Headers
  topic : String
  partition : ℕ
  offset : String
  deriving DecidableEq

def PreparedMessage.sagaId (msg : PreparedMessage) : String := msg.parsed.sagaId

def PreparedMessage.eventId (msg : PreparedMessage) : String := msg.parsed.sagaEventId

def PreparedMessage.hint (msg : PreparedMessage) : Option EventHint := msg.parsed.sagaEventHint

/-! ## Rows -/

/-- What the lookup returns of a stored state. -/
structure StateInfo (Time : Type) where
  status : SagaStatus
  startedAt : Time
  eventCount : ℕ

/-- The states of a batch by the ids of their sagas. -/
abbrev StateMap (Time : Type) := String → Option (StateInfo Time)

structure BulkUpsertStateData (Time : Type) where
  sagaId : String
  sagaRootId : String
  sagaParentId : Option String
  sagaName : Option String
  sagaDescription : Option String
  status : SagaStatus
  currentStepName : String
  currentStepDescription : Option String
  lastEventId : String
  lastEventHint : Option EventHint
  lastCausationId : String
  startedAt : Time
  endedAt : Option Time
  eventCountIncrement : ℕ
  schemaVersion : Number
  lastTopic : String
  lastPartition : ℕ
  lastOffset : String

structure BulkInsertEventLogData (Time : Type) where
  sagaEventId : String
  sagaId : String
  sagaRootId : String
  sagaParentId : Option String
  sagaCausationId : String
  sagaName : Option String
  sagaDescription : Option String
  sagaStepName : String
  sagaStepDescription : Option String
  sagaEventHint : Option EventHint
  sagaPublishedAt : Time
  sagaSchemaVersion : Number
  topic : String
  partition : ℕ
  offset : String
  statusBefore : Option SagaStatus
  statusAfter : SagaStatus
  headersJson : Headers

structure SagaUpdateState (Time : Type) where
  sagaId : String
  sagaRootId : String
  sagaParentId : Option String
  sagaName : Option String
  sagaDescription : Option String
  status : SagaStatus
  currentStepName : String
  currentStepDescription : Option String
  lastEventHint : Option EventHint
  lastTopic : String
  startedAt : Time
  endedAt : Option Time
  updatedAt : Time
  eventCount : ℕ

structure SagaUpdateEvent (Time : Type) where
  sagaEventId : String
  sagaEventHint : Option EventHint
  sagaStepName : String
  sagaPublishedAt : Time

structure SagaUpdate (Time : Type) where
  state : SagaUpdateState Time
  event : SagaUpdateEvent Time

/-- A row of `saga_state` but for its key. -/
structure SagaStateRow (Time : Type) where
  sagaRootId : String
  sagaParentId : Option String
  sagaName : Option String
  sagaDescription : Option String
  status : SagaStatus
  currentStepName : String
  currentStepDescription : Option String
  lastEventId : String
  lastEventHint : Option EventHint
  lastCausationId : String
  startedAt : Time
  endedAt : Option Time
  eventCount : ℕ
  schemaVersion : Number
  lastTopic : Option String
  lastPartition : Option ℕ
  lastOffset : Option String
  version : ℕ
  updatedAt : Time

/-- The two tables by their primary keys. -/
structure Database (Time : Type) where
  states : Table String (SagaStateRow Time)
  log : Table String (BulkInsertEventLogData Time)

/-- The status stored of a saga. -/
def Database.status (db : Database Time) (k : String) : Option SagaStatus := (db.states.lookup k).map (·.status)

/-! ## Derivation -/

def deriveStatus (hint : Option EventHint) (currentStatus : Option SagaStatus) : SagaStatus :=
  if hint = some .final then .completed
  else if hint = some .compensation then .compensating
  -- compensation is sticky until final
  else if currentStatus = some .compensating then .compensating
  else .running

/-- The local variables of `DeriveChangesCommand.execute`. -/
structure DeriveChanges (Time : Type) where
  eventLogs : List (BulkInsertEventLogData Time)
  sagaStatesMap : AList fun _ : String => BulkUpsertStateData Time
  sagaUpdates : List (SagaUpdate Time)
  inBatchStatus : AList fun _ : String => SagaStatus
  completedGuard : ℕ
  processed : ℕ

def DeriveChanges.empty : DeriveChanges Time := ⟨[], ∅, [], ∅, 0, 0⟩

section Derive

variable (date : String → Time) (now : Time) (stateMap : StateMap Time)

def buildEventLogRow (msg : PreparedMessage) (statusBefore : Option SagaStatus) (statusAfter : SagaStatus) :
    BulkInsertEventLogData Time where
  sagaEventId := msg.parsed.sagaEventId
  sagaId := msg.parsed.sagaId
  sagaRootId := msg.parsed.sagaRootId
  sagaParentId := msg.parsed.sagaParentId
  sagaCausationId := msg.parsed.sagaCausationId
  sagaName := msg.parsed.sagaName
  sagaDescription := msg.parsed.sagaDescription
  sagaStepName := msg.parsed.sagaStepName
  sagaStepDescription := msg.parsed.sagaStepDescription
  sagaEventHint := msg.parsed.sagaEventHint
  sagaPublishedAt := date msg.parsed.sagaPublishedAt
  sagaSchemaVersion := msg.parsed.sagaSchemaVersion
  topic := msg.topic
  partition := msg.partition
  offset := msg.offset
  statusBefore := statusBefore
  statusAfter := statusAfter
  headersJson := msg.headersJson

/-- The row that a message sets in `sagaStatesMap`, over the increment of the row that was there. -/
def buildStateRow (msg : PreparedMessage) (newStatus : SagaStatus) (existing : ℕ) : BulkUpsertStateData Time where
  sagaId := msg.parsed.sagaId
  sagaRootId := msg.parsed.sagaRootId
  sagaParentId := msg.parsed.sagaParentId
  sagaName := msg.parsed.sagaName
  sagaDescription := msg.parsed.sagaDescription
  status := newStatus
  currentStepName := msg.parsed.sagaStepName
  currentStepDescription := msg.parsed.sagaStepDescription
  lastEventId := msg.parsed.sagaEventId
  lastEventHint := msg.parsed.sagaEventHint
  lastCausationId := msg.parsed.sagaCausationId
  startedAt := ((stateMap msg.parsed.sagaId).map (·.startedAt)).getD (date msg.parsed.sagaPublishedAt)
  endedAt := if newStatus = .completed then some (date msg.parsed.sagaPublishedAt) else none
  eventCountIncrement := existing + 1
  schemaVersion := msg.parsed.sagaSchemaVersion
  lastTopic := msg.topic
  lastPartition := msg.partition
  lastOffset := msg.offset

def buildUpdate (msg : PreparedMessage) (newStatus : SagaStatus) (existing : ℕ) : SagaUpdate Time where
  state :=
    { sagaId := msg.parsed.sagaId
      sagaRootId := msg.parsed.sagaRootId
      sagaParentId := msg.parsed.sagaParentId
      sagaName := msg.parsed.sagaName
      sagaDescription := msg.parsed.sagaDescription
      status := newStatus
      currentStepName := msg.parsed.sagaStepName
      currentStepDescription := msg.parsed.sagaStepDescription
      lastEventHint := msg.parsed.sagaEventHint
      lastTopic := msg.topic
      startedAt := ((stateMap msg.parsed.sagaId).map (·.startedAt)).getD (date msg.parsed.sagaPublishedAt)
      endedAt := if newStatus = .completed then some (date msg.parsed.sagaPublishedAt) else none
      updatedAt := now
      eventCount := ((stateMap msg.parsed.sagaId).map (·.eventCount)).getD 0 + existing + 1 }
  event :=
    { sagaEventId := msg.parsed.sagaEventId
      sagaEventHint := msg.parsed.sagaEventHint
      sagaStepName := msg.parsed.sagaStepName
      sagaPublishedAt := date msg.parsed.sagaPublishedAt }

/-- The status of a saga in the batch so far: `inBatchStatus`, or else what was looked up. -/
def DeriveChanges.currentStatus (d : DeriveChanges Time) (sagaId : String) : Option SagaStatus :=
  (d.inBatchStatus.lookup sagaId).or ((stateMap sagaId).map (·.status))

/-- The increment of the row of a saga in `sagaStatesMap`. -/
def DeriveChanges.existing (d : DeriveChanges Time) (sagaId : String) : ℕ :=
  ((d.sagaStatesMap.lookup sagaId).map (·.eventCountIncrement)).getD 0

/-- The body of the loop over the messages. -/
def deriveMessage (d : DeriveChanges Time) (msg : PreparedMessage) : DeriveChanges Time :=
  let sagaId := msg.parsed.sagaId
  let currentStatus := d.currentStatus stateMap sagaId
  if currentStatus = some .completed then
    { d with
      eventLogs := d.eventLogs ++ [buildEventLogRow date msg (some .completed) .completed]
      completedGuard := d.completedGuard + 1 }
  else
    let newStatus := deriveStatus msg.parsed.sagaEventHint currentStatus
    { eventLogs := d.eventLogs ++ [buildEventLogRow date msg currentStatus newStatus]
      sagaStatesMap := d.sagaStatesMap.insert sagaId (buildStateRow date stateMap msg newStatus (d.existing sagaId))
      sagaUpdates := d.sagaUpdates ++ [buildUpdate date now stateMap msg newStatus (d.existing sagaId)]
      inBatchStatus := d.inBatchStatus.insert sagaId newStatus
      completedGuard := d.completedGuard
      processed := d.processed + 1 }

/-- `DeriveChangesCommand.execute`. -/
def deriveChanges (newMessages : List PreparedMessage) : DeriveChanges Time :=
  newMessages.foldl (deriveMessage date now stateMap) .empty

/-- `[...sagaStatesMap.values()]`, in an order that the sort of the rows does not keep. -/
def DeriveChanges.sagaStates (d : DeriveChanges Time) : List (BulkUpsertStateData Time) :=
  d.sagaStatesMap.entries.map (·.2)

end Derive

/-! ## The repositories -/

/-- `bulkCheckExisting`. -/
def bulkCheckExisting (db : Database Time) (eventIds : List String) : List String := eventIds.filter (· ∈ db.log)

/-- The columns that `bulkLookup` selects. -/
def SagaStateRow.info (row : SagaStateRow Time) : StateInfo Time := ⟨row.status, row.startedAt, row.eventCount⟩

/-- `bulkLookup`. -/
def bulkLookup (db : Database Time) (sagaIds : List String) (sagaId : String) : Option (StateInfo Time) :=
  if sagaId ∈ sagaIds then (db.states.lookup sagaId).map (·.info) else none

/-- The row that `INSERT INTO saga_state … ON CONFLICT (saga_id) DO UPDATE` leaves, over the row that
is stored. -/
def mergeState (now : Time) (stored : Option (SagaStateRow Time)) (excluded : BulkUpsertStateData Time) :
    SagaStateRow Time :=
  match stored with
  | none =>
    { sagaRootId := excluded.sagaRootId
      sagaParentId := excluded.sagaParentId
      sagaName := excluded.sagaName
      sagaDescription := excluded.sagaDescription
      status := excluded.status
      currentStepName := excluded.currentStepName
      currentStepDescription := excluded.currentStepDescription
      lastEventId := excluded.lastEventId
      lastEventHint := excluded.lastEventHint
      lastCausationId := excluded.lastCausationId
      startedAt := excluded.startedAt
      endedAt := excluded.endedAt
      eventCount := excluded.eventCountIncrement
      schemaVersion := excluded.schemaVersion
      lastTopic := excluded.lastTopic
      lastPartition := excluded.lastPartition
      lastOffset := excluded.lastOffset
      version := 1
      updatedAt := now }
  | some row =>
    { row with
      status :=
        if row.status = .completed then row.status
        else if excluded.status = .completed then excluded.status
        else if excluded.status = .compensating then excluded.status
        else excluded.status
      currentStepName := if row.status = .completed then row.currentStepName else excluded.currentStepName
      currentStepDescription :=
        if row.status = .completed then row.currentStepDescription else excluded.currentStepDescription
      lastEventId := if row.status = .completed then row.lastEventId else excluded.lastEventId
      lastEventHint := if row.status = .completed then row.lastEventHint else excluded.lastEventHint
      lastCausationId := if row.status = .completed then row.lastCausationId else excluded.lastCausationId
      endedAt :=
        if excluded.status = .completed then excluded.endedAt
        else if row.status = .completed then row.endedAt
        else none
      schemaVersion := excluded.schemaVersion
      lastTopic := excluded.lastTopic
      lastPartition := excluded.lastPartition
      lastOffset := excluded.lastOffset
      eventCount := row.eventCount + excluded.eventCountIncrement
      version := row.version + 1
      updatedAt := now }

/-- `bulkUpsert`: the chunks in order, each row by row. -/
def bulkUpsert (now : Time) (states : List (BulkUpsertStateData Time)) (t : Table String (SagaStateRow Time)) :
    Table String (SagaStateRow Time) := upsertAll (·.sagaId) (mergeState now) t states

/-- `bulkInsert`, with `ON CONFLICT (saga_event_id) DO NOTHING`. -/
def bulkInsert (events : List (BulkInsertEventLogData Time)) (t : Table String (BulkInsertEventLogData Time)) :
    Table String (BulkInsertEventLogData Time) := upsertAll (·.sagaEventId) (fun stored e => stored.getD e) t events

/-! ## Columns -/

/-- What PostgreSQL takes: a text, the text of a date, a number and the headers as JSON. -/
structure Columns where
  text : String → Bool
  timestamp : String → Bool
  integer : Number → Bool
  jsonb : Headers → Bool

/-- The texts of a message that are written. -/
def PreparedMessage.texts (msg : PreparedMessage) : List String :=
  [msg.parsed.sagaEventId, msg.parsed.sagaId, msg.parsed.sagaRootId, msg.parsed.sagaCausationId,
    msg.parsed.sagaStepName, msg.topic, msg.offset] ++ msg.parsed.sagaParentId.toList ++ msg.parsed.sagaName.toList ++
      msg.parsed.sagaDescription.toList ++ msg.parsed.sagaStepDescription.toList

/-- The columns take the values of a message. Its log row has all of them, and the row of its saga has no others
but what is stored of the saga. -/
def Columns.takes (columns : Columns) (msg : PreparedMessage) : Bool :=
  msg.texts.all columns.text && columns.timestamp msg.parsed.sagaPublishedAt &&
    columns.integer msg.parsed.sagaSchemaVersion && columns.jsonb msg.headersJson

/-! ## A batch -/

section Batch

variable (date : String → Time) (localeCompare : String → String → ℤ)

/-- A transaction of `PersistBatchCommand` that commits. -/
def persistBatch (now : Time) (states : List (BulkUpsertStateData Time))
    (eventLogs : List (BulkInsertEventLogData Time)) (db : Database Time) : Database Time where
  states := bulkUpsert now (states.insertionSort fun a b => localeCompare a.sagaId b.sagaId ≤ 0) db.states
  log := bulkInsert (eventLogs.insertionSort fun a b => localeCompare a.sagaId b.sagaId ≤ 0) db.log

/-- The messages of a batch that are not in the log. -/
def dedupe (db : Database Time) (prepared : List PreparedMessage) : List PreparedMessage :=
  let existingIds := bulkCheckExisting db (prepared.map (·.eventId))
  prepared.filter (·.eventId ∉ existingIds)

/-- The states of the sagas of a batch. -/
def lookupStates (db : Database Time) (newMessages : List PreparedMessage) : StateMap Time :=
  bulkLookup db (newMessages.map (·.sagaId))

/-- A batch whose transaction commits. -/
def commitBatch (now : Time) (db : Database Time) (prepared : List PreparedMessage) : Database Time :=
  let newMessages := dedupe db prepared
  if newMessages = [] then db
  else
    let changes := deriveChanges date now (lookupStates db newMessages) newMessages
    persistBatch localeCompare now changes.sagaStates changes.eventLogs db

/-- The columns take all that the transaction of a batch writes. -/
def Columns.Take (columns : Columns) (db : Database Time) (prepared : List PreparedMessage) : Prop :=
  ∀ m ∈ dedupe db prepared, columns.takes m

instance (columns : Columns) (db : Database Time) (prepared : List PreparedMessage) :
    Decidable (columns.Take db prepared) :=
  inferInstanceAs (Decidable (∀ m ∈ dedupe db prepared, columns.takes m))

/-- `processBatch`, with nothing else writing to the database. A value that a column refuses is refused at each
attempt and rolls the transaction back. -/
def processBatch (columns : Columns) (now : Time) (db : Database Time) (prepared : List PreparedMessage) :
    Database Time :=
  if columns.Take db prepared then commitBatch date localeCompare now db prepared else db

end Batch

/-! ## Samples -/

/-- Columns that take texts without the character 0, dates in UTC and the version 1. -/
def Columns.sample : Columns where
  text s := '\x00' ∉ s.toList
  timestamp s := s.toList.getLast? = some 'Z'
  integer n := n = .ofNat 1
  jsonb headers := headers.entries.all fun h => '\x00' ∉ h.2.toList

/-- A comparison of strings. -/
def compareText (a b : String) : ℤ := if a = b then 0 else if a < b then -1 else 1

/-- A message of one saga, by the id of its event, its topic, its hint and its date. -/
def PreparedMessage.sample (eventId topic : String) (hint : Option EventHint) (publishedAt : String) :
    PreparedMessage where
  parsed := ⟨"saga-1", "saga-1", none, "saga-1", eventId, topic, none, hint, none, none, publishedAt, .ofNat 1⟩
  headersJson := ∅
  topic := topic
  partition := 0
  offset := "0"

end Saga.Monitor
