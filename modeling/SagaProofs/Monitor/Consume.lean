/-
The consumer of the monitor: a batch of Kafka messages is parsed, deduplicated, looked up, derived and
persisted, with three attempts at the transaction, and its last offset is resolved. KafkaJS resolves it
too when the callback fulfils. A batch whose transaction has failed is to be delivered again; the callback
fulfils all the same, so it is not.

The observers of a batch measure and log; their durations are left out.
-/
import SagaProofs.Monitor.Redelivery
import SagaProofs.Kafka.AutoResolve

namespace Saga.Monitor

open Keyed

variable {Buffer Time : Type}

/-! ## Parsing -/

def EventHint.toString : EventHint → String
  | .step => "step"
  | .compensation => "compensation"
  | .final => "final"
  | .fork => "fork"

def validHints : List EventHint := [.step, .compensation, .final, .fork]

/-- A batch of one partition. -/
structure PartitionBatch (Buffer : Type) extends Kafka.Batch Buffer where
  partition : ℕ

section Parse

variable (str : Buffer → String)

/-- `toString('utf-8')` of an array joins its elements. -/
def headerToString : Kafka.HeaderValue Buffer → Option String
  | .buffer b => some (str b)
  | .string s => some s
  | .array xs => some (Text.join ',' (xs.map (Sum.elim str id)))
  | .undefined => none

def extractSagaHeaders (publishedNow : String) (headers : List (String × Kafka.HeaderValue Buffer)) :
    Option ParsedSagaHeaders :=
  let header (name : String) : Option String := (headers.lookup name).bind (headerToString str)
  (truthy (header "saga-id")).map fun sagaId =>
    { sagaId
      sagaRootId := (header "saga-root-id").getD sagaId
      sagaParentId := truthy (header "saga-parent-id")
      sagaCausationId := (header "saga-causation-id").getD sagaId
      sagaEventId := (header "saga-event-id").getD ""
      sagaStepName := (header "saga-step-name").getD ""
      sagaStepDescription := truthy (header "saga-step-description")
      sagaEventHint := (header "saga-event-hint").bind fun hint => validHints.find? (·.toString = hint)
      sagaName := truthy (header "saga-name")
      sagaDescription := truthy (header "saga-description")
      sagaPublishedAt := (header "saga-published-at").getD publishedNow
      sagaSchemaVersion := .parseInt ((header "saga-schema-version").getD "1") }

def serializeHeaders (headers : List (String × Kafka.HeaderValue Buffer)) : Headers :=
  headers.foldl (fun result h =>
    match headerToString str h.2 with
    | some value => result.set h.1 value
    | none => result) ∅

variable (publishedNow : Kafka.KafkaMessage Buffer → String)

/-- The body of the loop of `ParseBatchCommand.execute`, with what the clock reads at each message. -/
def parseMessage (topic : String) (partition : ℕ) (message : Kafka.KafkaMessage Buffer) : Option PreparedMessage := do
  let headers := message.headers.getD []
  let parsed ← extractSagaHeaders str (publishedNow message) headers
  if parsed.sagaEventId = "" then none
  else some ⟨parsed, serializeHeaders str headers, topic, partition, message.offset⟩

/-- The messages of a batch that are parsed. -/
def PartitionBatch.prepared (batch : PartitionBatch Buffer) : List PreparedMessage :=
  batch.messages.filterMap (parseMessage str publishedNow batch.topic batch.partition)

end Parse

/-! ## Persisting -/

/-- How a transaction ends: a rejected one has written nothing. -/
inductive TransactionResult
  | committed
  | failed (error : String)

/-- `String(err).includes('40P01')`. -/
def isDeadlock (error : String) : Bool := "40P01".toList <:+: error.toList

def maxRetries : ℕ := 3

section Persist

variable (localeCompare : String → String → ℤ) (transaction : ℕ → TransactionResult) (now : Time)
  (states : List (BulkUpsertStateData Time)) (eventLogs : List (BulkInsertEventLogData Time)) (db : Database Time)

/-- The attempts that are left: the database they leave and the errors they report. -/
def persistLoop : List ℕ → Database Time × ℕ
  | [] => (db, 0)
  | attempt :: rest =>
    match transaction attempt with
    | .committed => (persistBatch localeCompare now states eventLogs db, 0)
    | .failed error => if isDeadlock error ∧ attempt < maxRetries then persistLoop rest else (db, eventLogs.length)

/-- `PersistBatchCommand.execute`. -/
def persistBatchCommand : Database Time × ℕ :=
  persistLoop localeCompare transaction now states eventLogs db (List.range' 1 maxRetries)

end Persist

/-! ## The batch -/

structure BatchProcessedEvent where
  topic : String
  partition : ℕ
  messageCount : ℕ
  processed : ℕ
  skipped : ℕ
  deduped : ℕ
  completedGuard : ℕ
  errors : ℕ

/-- What may go wrong while a batch is processed. -/
structure Troubles where
  dedupeFails : Bool
  lookupFails : Bool
  transaction : ℕ → TransactionResult
  heartbeatFails : Bool

/-- How the callback settles, what it resolves, publishes and observes, and the database it leaves. -/
structure Processed (Time : Type) where
  settlement : Kafka.Settlement
  resolved : List String
  db : Database Time
  published : List (SagaUpdate Time)
  notified : List BatchProcessedEvent

/-- The argument of `consumer.run` in `onModuleInit`, less the callback. -/
def onModuleInit.runConfig : Kafka.RunConfig :=
  { partitionsConsumedConcurrently := 25
    eachBatchAutoResolve := none }

section Consume

variable (str : Buffer → String) (publishedNow : Kafka.KafkaMessage Buffer → String) (date : String → Time)
  (localeCompare : String → String → ℤ) (troubles : Troubles) (now : Time) (db : Database Time)
  (batch : PartitionBatch Buffer)

/-- `KafkaProjectorService.processBatch`, with nothing else writing to the database. -/
def KafkaProjectorService.processBatch : Processed Time :=
  match batch.lastOffset with
  -- the last message of an empty batch has no offset to read
  | none => ⟨.rejected, [], db, [], []⟩
  | some lastOffset =>
    let prepared := batch.prepared str publishedNow
    if prepared = [] then ⟨.fulfilled, [lastOffset], db, [], []⟩
    else if troubles.dedupeFails then ⟨.rejected, [], db, [], []⟩
    else
      let newMessages := dedupe db prepared
      if newMessages = [] then ⟨.fulfilled, [lastOffset], db, [], []⟩
      else if troubles.lookupFails then ⟨.rejected, [], db, [], []⟩
      else
        let changes := deriveChanges date now (lookupStates db newMessages) newMessages
        let (db', errors) :=
          persistBatchCommand localeCompare troubles.transaction now changes.sagaStates changes.eventLogs db
        let event : BatchProcessedEvent :=
          { topic := batch.topic
            partition := batch.partition
            messageCount := batch.messages.length
            processed := changes.processed
            skipped := batch.messages.length - prepared.length
            deduped := prepared.length - newMessages.length
            completedGuard := changes.completedGuard
            errors := errors }
        if 0 < errors then ⟨.fulfilled, [], db', [], [{ event with processed := 0 }]⟩
        else if troubles.heartbeatFails then ⟨.rejected, [lastOffset], db', changes.sagaUpdates, []⟩
        else ⟨.fulfilled, [lastOffset], db', changes.sagaUpdates, [event]⟩

/-! ## What is to be shown -/

/-- The last offset of the batch is resolved, by the projector or by KafkaJS after it. -/
def Processed.Resolves (r : Processed Time) (config : Kafka.RunConfig) (lastOffset : Option String) : Prop :=
  (∃ o ∈ r.resolved, lastOffset = some o) ∨ (config.autoResolves ∧ r.settlement = .fulfilled)

/-- Every message is in the log. -/
def Database.Logs (db : Database Time) (prepared : List PreparedMessage) : Prop := ∀ m ∈ prepared, m.eventId ∈ db.log

/-- An attempt commits, and those before it are deadlocks. -/
def Commits (transaction : ℕ → TransactionResult) : Prop :=
  ∃ n, n < maxRetries ∧ transaction (n + 1) = .committed ∧
    ∀ k < n, ∃ error, transaction (k + 1) = .failed error ∧ isDeadlock error

/-! ## The attempts -/

variable {str publishedNow date localeCompare troubles now db batch}

variable (localeCompare now db) in
/-- The transaction is written by the attempt that commits, or the batch is reported as failed. -/
theorem persistLoop_range' (transaction : ℕ → TransactionResult) (states : List (BulkUpsertStateData Time))
    (eventLogs : List (BulkInsertEventLogData Time)) : ∀ {k s : ℕ}, s + k = maxRetries → 0 < k →
      (persistLoop localeCompare transaction now states eventLogs db (List.range' (s + 1) k) =
          (persistBatch localeCompare now states eventLogs db, 0) ∧
        ∃ n, s ≤ n ∧ n < maxRetries ∧ transaction (n + 1) = .committed ∧
          ∀ j, s ≤ j → j < n → ∃ error, transaction (j + 1) = .failed error ∧ isDeadlock error) ∨
      (persistLoop localeCompare transaction now states eventLogs db (List.range' (s + 1) k) = (db, eventLogs.length) ∧
        ¬ ∃ n, s ≤ n ∧ n < maxRetries ∧ transaction (n + 1) = .committed ∧
          ∀ j, s ≤ j → j < n → ∃ error, transaction (j + 1) = .failed error ∧ isDeadlock error)
  | k + 1, s, hs, _ => by
    rw [List.range'_succ, persistLoop]
    cases ht : transaction (s + 1) with
    | committed => exact .inl ⟨rfl, s, le_rfl, by omega, ht, fun j h1 h2 => absurd h1 (by omega)⟩
    | failed error =>
      -- nothing commits at this attempt, so whatever does comes after it
      have hlater : ∀ n, s ≤ n → transaction (n + 1) = .committed → s + 1 ≤ n := by
        intro n hn hc
        rcases Nat.lt_or_eq_of_le hn with h | rfl
        · exact h
        · rw [ht] at hc
          cases hc
      by_cases hd : isDeadlock error ∧ s + 1 < maxRetries
      · simp only [if_pos hd]
        rcases persistLoop_range' transaction states eventLogs (k := k) (s := s + 1) (by omega) (by omega) with
          ⟨heq, n, h1, h2, h3, h4⟩ | ⟨heq, hno⟩
        · refine .inl ⟨heq, n, by omega, h2, h3, fun j hj hjn => ?_⟩
          rcases Nat.lt_or_eq_of_le hj with h | rfl
          · exact h4 j h hjn
          · exact ⟨error, ht, hd.1⟩
        · refine .inr ⟨heq, ?_⟩
          rintro ⟨n, h1, h2, h3, h4⟩
          exact hno ⟨n, hlater n h1 h3, h2, h3, fun j hj => h4 j (by omega)⟩
      · simp only [if_neg hd]
        refine .inr ⟨trivial, ?_⟩
        rintro ⟨n, h1, h2, h3, h4⟩
        have hn := hlater n h1 h3
        obtain ⟨error', herr, hdead⟩ := h4 s le_rfl (by omega)
        rw [ht] at herr
        cases herr
        exact hd ⟨hdead, by omega⟩

variable (localeCompare now db) in
theorem persistBatchCommand_cases (transaction : ℕ → TransactionResult) (states : List (BulkUpsertStateData Time))
    (eventLogs : List (BulkInsertEventLogData Time)) :
    (Commits transaction ∧ persistBatchCommand localeCompare transaction now states eventLogs db =
        (persistBatch localeCompare now states eventLogs db, 0)) ∨
      (¬ Commits transaction ∧
        persistBatchCommand localeCompare transaction now states eventLogs db = (db, eventLogs.length)) := by
  have h := persistLoop_range' localeCompare now db transaction states eventLogs (Nat.zero_add maxRetries) (by decide)
  simp only [Nat.zero_le, true_and, forall_const] at h
  rcases h with ⟨heq, hc⟩ | ⟨heq, hc⟩
  · exact .inl ⟨hc, heq⟩
  · exact .inr ⟨hc, heq⟩

/-! ## The batch -/

theorem dedupe_eq_nil_iff {prepared : List PreparedMessage} : dedupe db prepared = [] ↔ db.Logs prepared := by
  rw [dedupe_eq_filter, List.filter_eq_nil_iff]
  simp [Database.Logs]

theorem length_eventLogs (stateMap : StateMap Time) (ms : List PreparedMessage) :
    (deriveChanges date now stateMap ms).eventLogs.length = ms.length := by
  rw [eventLogs_deriveChanges, ← List.length_map (·.sagaEventId), map_sagaEventId_logRows, List.length_map]

/-- What is logged stays logged. -/
theorem logs_consume (h : db.Logs (batch.prepared str publishedNow)) :
    (KafkaProjectorService.processBatch str publishedNow date localeCompare troubles now db batch).db.Logs
      (batch.prepared str publishedNow) := by
  have hnil : dedupe db (batch.prepared str publishedNow) = [] := dedupe_eq_nil_iff.2 h
  unfold KafkaProjectorService.processBatch
  cases batch.lastOffset with
  | none => exact h
  | some lastOffset =>
    simp only [hnil, if_true]
    split
    · exact h
    · split <;> exact h

variable (date localeCompare troubles now) in
/-- A batch with a message that is not logged is rejected by a query, persisted, or left behind by a callback
that fulfils. -/
theorem consume_cases (h : ¬ db.Logs (batch.prepared str publishedNow)) :
    let r := KafkaProjectorService.processBatch str publishedNow date localeCompare troubles now db batch
    ((troubles.dedupeFails = true ∨ troubles.lookupFails = true) ∧
        r.settlement = .rejected ∧ r.resolved = [] ∧ r.db = db) ∨
      (Commits troubles.transaction ∧
        r.db = commitBatch date localeCompare now db (batch.prepared str publishedNow)) ∨
      ((¬ troubles.dedupeFails = true ∧ ¬ troubles.lookupFails = true ∧ ¬ Commits troubles.transaction) ∧
        r.settlement = .fulfilled ∧ r.resolved = [] ∧ r.db = db) := by
  have hnew : dedupe db (batch.prepared str publishedNow) ≠ [] := fun hd => h (dedupe_eq_nil_iff.1 hd)
  have hprepared : batch.prepared str publishedNow ≠ [] := by
    intro hp
    rw [hp] at hnew
    exact hnew rfl
  obtain ⟨lastOffset, hlast⟩ : ∃ o, batch.lastOffset = some o := by
    cases hl : batch.lastOffset with
    | some o => exact ⟨o, rfl⟩
    | none =>
      unfold Kafka.Batch.lastOffset Kafka.Batch.offsets at hl
      rw [List.getLast?_eq_none_iff, List.map_eq_nil_iff] at hl
      unfold PartitionBatch.prepared at hprepared
      rw [hl] at hprepared
      exact absurd rfl hprepared
  intro r
  by_cases hdedupe : troubles.dedupeFails = true
  · refine .inl ⟨.inl hdedupe, ?_⟩
    simp [r, KafkaProjectorService.processBatch, hlast, hprepared, hdedupe]
  by_cases hlookup : troubles.lookupFails = true
  · refine .inl ⟨.inr hlookup, ?_⟩
    simp [r, KafkaProjectorService.processBatch, hlast, hprepared, hdedupe, hnew, hlookup]
  refine .inr ?_
  let newMessages := dedupe db (batch.prepared str publishedNow)
  let changes := deriveChanges date now (lookupStates db newMessages) newMessages
  rcases persistBatchCommand_cases localeCompare now db troubles.transaction changes.sagaStates changes.eventLogs with
    ⟨hc, heq⟩ | ⟨hc, heq⟩ <;> dsimp only [changes, newMessages] at heq
  · refine .inl ⟨hc, ?_⟩
    simp only [r, KafkaProjectorService.processBatch, hlast, if_neg hprepared, if_neg hdedupe, if_neg hnew,
      if_neg hlookup, heq, lt_irrefl, if_false]
    unfold commitBatch
    rw [if_neg hnew]
    split <;> rfl
  · have hpos : 0 < (dedupe db (batch.prepared str publishedNow)).length := List.length_pos_of_ne_nil hnew
    refine .inr ⟨⟨hdedupe, hlookup, hc⟩, ?_⟩
    simp [r, KafkaProjectorService.processBatch, hlast, hprepared, hdedupe, hnew, hlookup, heq, length_eventLogs, hpos]

/-- The offset of the batch is resolved only with all its messages in the log exactly when they are there
already, a query rejects, or the transaction commits. -/
theorem resolved_logged_iff (str : Buffer → String) (publishedNow : Kafka.KafkaMessage Buffer → String)
    (date : String → Time) (localeCompare : String → String → ℤ) (troubles : Troubles) (now : Time)
    (db : Database Time) (batch : PartitionBatch Buffer) :
    let r := KafkaProjectorService.processBatch str publishedNow date localeCompare troubles now db batch
    (r.Resolves onModuleInit.runConfig batch.lastOffset → r.db.Logs (batch.prepared str publishedNow)) ↔
      db.Logs (batch.prepared str publishedNow) ∨ troubles.dedupeFails = true ∨ troubles.lookupFails = true ∨
        Commits troubles.transaction := by
  intro r
  by_cases hl : db.Logs (batch.prepared str publishedNow)
  · exact iff_of_true (fun _ => logs_consume hl) (.inl hl)
  rcases consume_cases date localeCompare troubles now hl with
    ⟨hq, hs, hr, -⟩ | ⟨hc, hdb⟩ | ⟨⟨hd, hk, hc⟩, hs, -, hdb⟩
  · -- a callback that rejects has resolved nothing
    refine iff_of_true ?_ (.inr (or_assoc.1 (.inl hq)))
    rintro (⟨o, ho, -⟩ | ⟨-, hf⟩)
    · rw [hr] at ho
      cases ho
    · rw [hs] at hf
      cases hf
  · refine iff_of_true (fun _ m hm => ?_) (.inr (.inr (.inr hc)))
    rw [hdb, mem_log_commitBatch]
    exact .inr (List.mem_map_of_mem hm)
  · refine iff_of_false (fun h => hl ?_) (by simp [hl, hd, hk, hc])
    have hlogs := h (.inr ⟨rfl, hs⟩)
    rw [hdb] at hlogs
    exact hlogs

end Consume

/-! ## A transaction that fails -/

/-- A saga message. -/
def PartitionBatch.sample : PartitionBatch String where
  topic := "order.created"
  messages := [⟨some "saga-1", some "1", "10",
    some [("saga-id", .buffer "saga-1"), ("saga-event-id", .buffer "e1")]⟩]
  partition := 0

/-- Nothing fails but the transaction. -/
def Troubles.refused : Troubles := ⟨false, false, fun _ => .failed "connection refused", false⟩

/-- The transaction fails, the callback fulfils, KafkaJS resolves offset 10 and the event is not logged. -/
theorem failed_batch_resolved :
    let consume := fun (troubles : Troubles) (db : Database String) batch =>
      KafkaProjectorService.processBatch id (fun _ => "t") id compareText troubles "t" db batch
    (¬ ∀ troubles db batch, (consume troubles db batch).Resolves onModuleInit.runConfig batch.lastOffset →
      (consume troubles db batch).db.Logs (batch.prepared id fun _ => "t")) ∧
    (consume .refused ⟨∅, ∅⟩ .sample).settlement = .fulfilled ∧
    (PartitionBatch.sample.prepared id fun _ => "t").map (·.eventId) = ["e1"] ∧
    "e1" ∉ (consume .refused ⟨∅, ∅⟩ .sample).db.log := by
  intro consume
  have hs : (consume .refused ⟨∅, ∅⟩ .sample).settlement = .fulfilled := by decide +kernel
  have hids : (PartitionBatch.sample.prepared id fun _ => "t").map (·.eventId) = ["e1"] := by decide +kernel
  have hlog : "e1" ∉ (consume .refused ⟨∅, ∅⟩ .sample).db.log := by decide +kernel
  refine ⟨fun h => ?_, hs, hids, hlog⟩
  obtain ⟨m, hm, hid⟩ := List.mem_map.1 (hids ▸ List.mem_singleton_self "e1")
  exact hlog (hid ▸ h .refused ⟨∅, ∅⟩ .sample (.inr ⟨rfl, hs⟩) m hm)

end Saga.Monitor
