/-
Messages that are delivered again. A batch is deduplicated against the log before its changes are derived, so
a message that an earlier batch has logged changes nothing. A message that occurs twice in one batch is
logged once and counted twice, unless its saga is completed when it comes again. A batch whose transaction fails
changes nothing, whatever it repeats.
-/
import SagaProofs.Monitor.Batches
import SagaProofs.Lib.Run

namespace Saga.Monitor

open Keyed Lts

variable {Time : Type}

/-! ## What is to be shown -/

/-- The events that are counted of a saga. -/
def Database.eventCount (db : Database Time) (k : String) : ℕ := ((db.states.lookup k).map (·.eventCount)).getD 0

/-- A log row of the saga that it was not completed before. -/
def BulkInsertEventLogData.Counts (k : String) (row : BulkInsertEventLogData Time) : Prop :=
  row.sagaId = k ∧ row.statusBefore ≠ some .completed

instance (k : String) : DecidablePred fun row : BulkInsertEventLogData Time => row.Counts k := fun _ =>
  inferInstanceAs (Decidable (_ ∧ _))

/-- The log rows of a saga whose `status_before` is not `COMPLETED`. -/
def Database.logged (db : Database Time) (k : String) : ℕ := count (BulkInsertEventLogData.Counts k) db.log

/-- Every saga counts as many events as are logged of it before it is completed. -/
def Database.Counted (db : Database Time) : Prop := ∀ k, db.eventCount k = db.logged k

/-- The message does not count: its saga is stored as completed, or a message before it ends it. -/
def Guarded (db : Database Time) (before : List PreparedMessage) (m : PreparedMessage) : Prop :=
  db.status m.sagaId = some .completed ∨ ∃ x ∈ before, x.sagaId = m.sagaId ∧ x.isFinal = true

section Redelivery

variable (date : String → Time) (localeCompare : String → String → ℤ)

/-- The messages in the order in which their log rows are written. -/
def inLogOrder (ms : List PreparedMessage) : List PreparedMessage :=
  ms.insertionSort fun a b => localeCompare a.sagaId b.sagaId ≤ 0

/-- Of the messages whose event is not logged yet, each that repeats the event of one before it is guarded. -/
def RepeatsGuarded (db : Database Time) (prepared : List PreparedMessage) : Prop :=
  Justified (fun before m => m.eventId ∈ before.map (·.eventId) → Guarded db before m)
    (inLogOrder localeCompare (dedupe db prepared))

/-- A batch that is processed, with the time of its transaction. The transaction may fail though the columns take
all values, as when the connection is lost. -/
structure DeliveredBatch (Time : Type) where
  now : Time
  prepared : List PreparedMessage
  fails : Bool

def batchStep (columns : Columns) (db : Database Time) (batch : DeliveredBatch Time) : Option (Database Time) :=
  some (if batch.fails then db else processBatch date localeCompare columns batch.now db batch.prepared)

/-- The transaction of the batch commits. -/
def DeliveredBatch.Commits (columns : Columns) (db : Database Time) (batch : DeliveredBatch Time) : Prop :=
  batch.fails = false ∧ columns.Take db batch.prepared

variable {date localeCompare} {columns : Columns} {now : Time} {db : Database Time} {ms prepared : List PreparedMessage}

/-! ## Deduplication -/

theorem dedupe_eq_filter (db : Database Time) (prepared : List PreparedMessage) :
    dedupe db prepared = prepared.filter (·.eventId ∉ db.log) := by
  unfold dedupe bulkCheckExisting
  refine List.filter_congr fun m hm => ?_
  have hmem : m.eventId ∈ prepared.map (·.eventId) := List.mem_map_of_mem hm
  simp [hmem]

theorem new_of_mem_dedupe {m : PreparedMessage} (h : m ∈ dedupe db prepared) : m.eventId ∉ db.log := by
  rw [dedupe_eq_filter] at h
  simpa using (List.mem_filter.1 h).2

/-- Only the messages that are not logged matter. -/
theorem commitBatch_dedupe (db : Database Time) (prepared : List PreparedMessage) :
    commitBatch date localeCompare now db (dedupe db prepared) = commitBatch date localeCompare now db prepared := by
  have h : dedupe db (dedupe db prepared) = dedupe db prepared := dedupe_of_new fun _ => new_of_mem_dedupe
  unfold commitBatch
  rw [h]

/-! ## One batch of new messages -/

variable (date localeCompare now) in
/-- The count of a saga grows by its messages that are not guarded. -/
theorem eventCount_commitBatch (h : ∀ m ∈ ms, m.eventId ∉ db.log) (k : String) :
    (commitBatch date localeCompare now db ms).eventCount k =
      db.eventCount k + (unguarded (db.status k) (ofSaga k ms)).length := by
  unfold Database.eventCount Database.status
  rw [lookup_commitBatch h]
  generalize db.states.lookup k = stored
  generalize ofSaga k ms = ms
  cases hu : unguarded (stored.map (·.status)) ms with
  | nil => rw [stateAfter_of_nil hu]; rfl
  | cons e es =>
    obtain ⟨m, hm⟩ := exists_last hu
    obtain ⟨s, -, hst⟩ := stateAfter_of_last date now hm
    rw [hst, hu]
    cases stored with
    | none => simp [mergeState, buildStateRow]
    | some row => simp [mergeState, buildStateRow]

theorem log_commitBatch_sorted (h : ∀ m ∈ ms, m.eventId ∉ db.log) :
    (commitBatch date localeCompare now db ms).log = insertAll (·.sagaEventId) db.log
      ((logRows date db.status ms).insertionSort fun a b => localeCompare a.sagaId b.sagaId ≤ 0) := by
  rw [commitBatch_of_new h]
  unfold persistBatch bulkInsert
  rw [eventLogs_deriveChanges, logRows_congr fun m hm => statusIn_lookupStates hm]

theorem mem_log_commitBatch (prepared : List PreparedMessage) (id : String) :
    id ∈ (commitBatch date localeCompare now db prepared).log ↔ id ∈ db.log ∨ id ∈ prepared.map (·.eventId) := by
  have hids : (logRows date db.status (dedupe db prepared)).map (·.sagaEventId) =
      (dedupe db prepared).map (·.eventId) := map_sagaEventId_logRows _ _
  rw [← commitBatch_dedupe, log_commitBatch_sorted fun _ => new_of_mem_dedupe, mem_insertAll,
    ((List.perm_insertionSort _ _).map _).mem_iff, hids, dedupe_eq_filter]
  simp only [List.mem_map, List.mem_filter, decide_eq_true_eq]
  constructor
  · rintro (h | ⟨m, ⟨hm, -⟩, rfl⟩)
    · exact .inl h
    · exact .inr ⟨m, hm, rfl⟩
  · rintro (h | ⟨m, hm, rfl⟩)
    · exact .inl h
    · by_cases h : m.eventId ∈ db.log
      · exact .inl h
      · exact .inr ⟨m, ⟨hm, h⟩, rfl⟩

/-- The rows that count are those of the messages that are not guarded. -/
theorem countP_logRows (k : String) : ∀ (ms : List PreparedMessage) (status : String → Option SagaStatus),
    (logRows date status ms).countP (fun row => row.Counts k) = (unguarded (status k) (ofSaga k ms)).length
  | [], _ => rfl
  | m :: ms, status => by
    rw [logRows, List.countP_cons, countP_logRows k ms]
    by_cases hk : m.sagaId = k
    · subst hk
      rw [Function.update_self, ofSaga_cons_self]
      by_cases hs : status m.sagaId = some .completed
      · rw [hs]
        simp [BulkInsertEventLogData.Counts, buildEventLogRow]
      · rw [unguarded_cons hs]
        have hrow : (buildEventLogRow date m (status m.sagaId) (nextStatus (status m.sagaId) m)).Counts m.sagaId :=
          ⟨rfl, hs⟩
        simp [hrow]
    · rw [Function.update_of_ne (Ne.symm hk), ofSaga_cons_of_ne hk]
      have hrow : ¬ (buildEventLogRow date m (status m.sagaId) (nextStatus (status m.sagaId) m)).Counts k :=
        fun h => hk h.1
      simp [hrow]

/-! ## The order of the log rows -/

/-- Rows of one saga stay in the order of their messages, so the rows can be derived in the order in which
they are written. -/
theorem logRows_inLogOrder (hl : ∀ a, localeCompare a a = 0) : ∀ (ms : List PreparedMessage)
    (status : String → Option SagaStatus), logRows date status (inLogOrder localeCompare ms) =
      (logRows date status ms).insertionSort fun a b => localeCompare a.sagaId b.sagaId ≤ 0
  | [], _ => rfl
  | m :: ms, status => by
    have ih : ∀ status, logRows date status (inLogOrder localeCompare ms) =
        (logRows date status ms).insertionSort fun a b => localeCompare a.sagaId b.sagaId ≤ 0 :=
      fun status => logRows_inLogOrder hl ms status
    rw [logRows, List.insertionSort_cons, ← ih]
    show logRows date status ((inLogOrder localeCompare ms).orderedInsert _ m) = _
    generalize inLogOrder localeCompare ms = l
    induction l generalizing status with
    | nil => rfl
    | cons x l ihl =>
      rw [List.orderedInsert_cons, logRows, List.orderedInsert_cons]
      by_cases hle : localeCompare m.sagaId x.sagaId ≤ 0
      · rw [if_pos hle, logRows, logRows]
        exact (if_pos hle).symm
      · -- a message of another saga, which neither sees the other's status
        have hne : m.sagaId ≠ x.sagaId := fun h => hle (by rw [h, hl])
        rw [if_neg hle, logRows, ihl, Function.update_of_ne hne, Function.update_of_ne hne.symm,
          Function.update_comm hne]
        exact (if_neg hle).symm

theorem guarded_iff (db : Database Time) (before : List PreparedMessage) (m : PreparedMessage) :
    statusAfter (db.status m.sagaId) (ofSaga m.sagaId before) = some .completed ↔ Guarded db before m := by
  rw [statusAfter_eq_completed]
  simp only [mem_ofSaga, and_assoc]
  rfl

/-- Each row that counts has an event that no row before it has, exactly when each message that repeats one is
guarded. -/
theorem pairwise_logRows_iff (l : List PreparedMessage) :
    (logRows date db.status l).Pairwise
        (fun row row' => row'.statusBefore ≠ some .completed → row.sagaEventId ≠ row'.sagaEventId) ↔
      Justified (fun before m => m.eventId ∈ before.map (·.eventId) → Guarded db before m) l := by
  induction l using List.reverseRecOn with
  | nil => exact iff_of_true List.Pairwise.nil (justified_nil _)
  | append_singleton l m ih =>
    rw [logRows_append, List.pairwise_append, ih, justified_snoc_iff]
    refine and_congr Iff.rfl ?_
    have hids : (logRows date db.status l).map (·.sagaEventId) = l.map (·.eventId) := map_sagaEventId_logRows l _
    rw [← guarded_iff, ← hids]
    simp only [logRows, List.pairwise_singleton, List.mem_singleton, forall_eq, true_and, List.mem_map]
    constructor
    · rintro h ⟨row, hrow, hid⟩
      by_contra hne
      exact h row hrow hne hid
    · intro h row hrow hne hid
      exact hne (h ⟨row, hrow, hid⟩)

variable (date now) in
/-- A batch of new messages logs no more events of a saga than it counts, and of every saga as many exactly
when the repeated messages are guarded. -/
theorem logged_commitBatch (hl : ∀ a, localeCompare a a = 0) (h : ∀ m ∈ ms, m.eventId ∉ db.log) :
    (∀ k, (commitBatch date localeCompare now db ms).logged k ≤
      db.logged k + (unguarded (db.status k) (ofSaga k ms)).length) ∧
    ((∀ k, (commitBatch date localeCompare now db ms).logged k =
      db.logged k + (unguarded (db.status k) (ofSaga k ms)).length) ↔
      Justified (fun before m => m.eventId ∈ before.map (·.eventId) → Guarded db before m)
        (inLogOrder localeCompare ms)) := by
  have hrows : ∀ k, ((logRows date db.status ms).insertionSort
      fun a b => localeCompare a.sagaId b.sagaId ≤ 0).countP (fun row => row.Counts k) =
      (unguarded (db.status k) (ofSaga k ms)).length := fun k => by
    rw [(List.perm_insertionSort _ _).countP_eq, countP_logRows]
  have hnew : ∀ row ∈ (logRows date db.status ms).insertionSort
      (fun a b => localeCompare a.sagaId b.sagaId ≤ 0), row.sagaEventId ∉ db.log := by
    intro row hrow
    have hids : (logRows date db.status ms).map (·.sagaEventId) = ms.map (·.eventId) := map_sagaEventId_logRows ms _
    have hid : row.sagaEventId ∈ ms.map (·.eventId) := by
      rw [← hids]
      exact List.mem_map_of_mem ((List.perm_insertionSort _ _).mem_iff.1 hrow)
    obtain ⟨m, hm, hid⟩ := List.mem_map.1 hid
    rw [← hid]
    exact h m hm
  unfold Database.logged
  rw [log_commitBatch_sorted h]
  have hcount := fun k => count_insertAll (·.sagaEventId) (BulkInsertEventLogData.Counts k)
    ((logRows date db.status ms).insertionSort fun a b => localeCompare a.sagaId b.sagaId ≤ 0) db.log
  refine ⟨fun k => (hrows k) ▸ (hcount k).1, ?_⟩
  rw [← pairwise_logRows_iff, logRows_inLogOrder hl]
  constructor
  · intro heq
    rw [List.pairwise_iff_forall_sublist]
    intro row row' hsub hc
    have hk := ((hcount row'.sagaId).2.1 (by rw [hrows, heq])).2
    exact List.pairwise_iff_forall_sublist.1 hk hsub ⟨rfl, hc⟩
  · intro hp k
    rw [← hrows]
    exact (hcount k).2.2 ⟨fun row hrow _ => hnew row hrow, hp.imp fun hr hc => hr hc.2⟩

/-! ## Runs -/

/-- Of two counts that grow, the one by no more than the other, both are equal after the growth exactly when they
were before and grow by as much. -/
theorem forall_eq_iff_of_le {κ : Type*} {f f' g g' n : κ → ℕ} (hf : ∀ k, f' k = f k + n k) (hle : ∀ k, g k ≤ f k)
    (hg : ∀ k, g' k ≤ g k + n k) : (∀ k, f' k = g' k) ↔ (∀ k, f k = g k) ∧ ∀ k, g' k = g k + n k := by
  constructor
  · intro heq
    have hboth : ∀ k, f k = g k ∧ g' k = g k + n k := by
      intro k
      have h1 := heq k
      have h2 := hle k
      have h3 := hg k
      rw [hf] at h1
      omega
    exact ⟨fun k => (hboth k).1, fun k => (hboth k).2⟩
  · rintro ⟨heq, hgrow⟩ k
    rw [hf, hgrow, heq]

/-- No more is logged of a saga before it is completed than is counted. -/
def Database.Covered (db : Database Time) : Prop := ∀ k, db.logged k ≤ db.eventCount k

variable (date now) in
theorem covered_commitBatch (hl : ∀ a, localeCompare a a = 0) (prepared : List PreparedMessage) (hi : db.Covered) :
    (commitBatch date localeCompare now db prepared).Covered ∧
      ((commitBatch date localeCompare now db prepared).Counted ↔
        db.Counted ∧ RepeatsGuarded localeCompare db prepared) := by
  have hnew : ∀ m ∈ dedupe db prepared, m.eventId ∉ db.log := fun _ => new_of_mem_dedupe
  obtain ⟨hle, heq⟩ := logged_commitBatch date now hl hnew
  have hcount := fun k => eventCount_commitBatch date localeCompare now hnew k
  simp only [commitBatch_dedupe] at hle heq hcount
  refine ⟨fun k => ?_, ?_⟩
  · rw [hcount]
    exact (hle k).trans (Nat.add_le_add_right (hi k) _)
  · rw [show RepeatsGuarded localeCompare db prepared ↔ _ from heq.symm]
    exact forall_eq_iff_of_le hcount hi hle

/-- A batch is committed, or its transaction fails and leaves the tables as they are. -/
theorem batchStep_cases {db' : Database Time} {batch : DeliveredBatch Time}
    (h : batchStep date localeCompare columns db batch = some db') :
    (batch.Commits columns db ∧ db' = commitBatch date localeCompare batch.now db batch.prepared) ∨
      (¬ batch.Commits columns db ∧ db' = db) := by
  unfold batchStep processBatch at h
  obtain rfl := Option.some_inj.1 h
  by_cases hf : batch.fails = true
  · refine .inr ⟨fun hc => ?_, if_pos hf⟩
    rw [hc.1] at hf
    cases hf
  · rw [if_neg hf]
    by_cases ht : columns.Take db batch.prepared
    · exact .inl ⟨⟨by simpa using hf, ht⟩, if_pos ht⟩
    · exact .inr ⟨fun hc => ht hc.2, if_neg ht⟩

theorem covered_batchStep (hl : ∀ a, localeCompare a a = 0) {db' : Database Time} {batch : DeliveredBatch Time}
    (hi : db.Covered) (h : batchStep date localeCompare columns db batch = some db') :
    db'.Covered ∧
      (db'.Counted ↔ db.Counted ∧ (batch.Commits columns db → RepeatsGuarded localeCompare db batch.prepared)) := by
  rcases batchStep_cases h with ⟨hc, rfl⟩ | ⟨hc, rfl⟩
  · obtain ⟨hcovered, hcounted⟩ := covered_commitBatch date batch.now hl batch.prepared hi
    refine ⟨hcovered, hcounted.trans (and_congr Iff.rfl ?_)⟩
    exact ⟨fun hg _ => hg, fun hg => hg hc⟩
  · exact ⟨hi, (and_iff_left fun h => absurd h hc).symm⟩

/-- After batches that are processed one after the other every saga counts the events that are logged of it before it
is completed exactly when in each batch that is committed the repeated messages are guarded. -/
theorem counted_run_iff (hl : ∀ a, localeCompare a a = 0) {as : List (DeliveredBatch Time)}
    (h : run (batchStep date localeCompare columns) ⟨∅, ∅⟩ as = some db) :
    db.Counted ↔ Each (batchStep date localeCompare columns)
      (fun db batch => batch.Commits columns db → RepeatsGuarded localeCompare db batch.prepared) ⟨∅, ∅⟩ as := by
  have hempty : ∀ k, (⟨∅, ∅⟩ : Database Time).eventCount k = (⟨∅, ∅⟩ : Database Time).logged k := fun _ => rfl
  rw [run_kept_of (I := Database.Covered) (P := Database.Counted)
    (fun _ _ _ hi hs => (covered_batchStep hl hi hs).1) (fun _ _ _ hi hs => (covered_batchStep hl hi hs).2)
    (fun k => (hempty k).ge) h]
  exact and_iff_right hempty

/-! ## A batch with and without its repeats -/

/-- Messages with one event id are deliveries of one event. -/
def Redelivered (prepared : List PreparedMessage) : Prop :=
  ∀ m ∈ prepared, ∀ m' ∈ prepared, m.eventId = m'.eventId → m.parsed = m'.parsed

/-- The batch without the messages that repeat an earlier one. -/
abbrev withoutRepeats (prepared : List PreparedMessage) : List PreparedMessage := firsts (·.eventId) prepared

theorem dedupe_withoutRepeats (db : Database Time) (prepared : List PreparedMessage) :
    dedupe db (withoutRepeats prepared) = withoutRepeats (dedupe db prepared) := by
  rw [dedupe_eq_filter, dedupe_eq_filter, withoutRepeats, withoutRepeats, firsts_filter]
  intro m _ m' _ h
  simp only [h]

theorem Redelivered.subset (h : Redelivered prepared) (hs : ∀ m ∈ ms, m ∈ prepared) : Redelivered ms :=
  fun m hm m' hm' => h m (hs m hm) m' (hs m' hm')

theorem Redelivered.ofSaga (h : Redelivered prepared) (k : String) : Redelivered (ofSaga k prepared) :=
  h.subset fun _ hm => (mem_ofSaga.1 hm).1

theorem ofSaga_withoutRepeats (h : Redelivered ms) (k : String) :
    ofSaga k (withoutRepeats ms) = withoutRepeats (ofSaga k ms) := by
  unfold ofSaga withoutRepeats
  rw [firsts_filter]
  intro m hm m' hm' hid
  have hsaga : m.sagaId = m'.sagaId := congrArg ParsedSagaHeaders.sagaId (h m hm m' hm' hid)
  simp only [hsaga]

/-- The status after messages depends on the hints that occur among them. -/
theorem statusAfter_eq (s : Option SagaStatus) (m : PreparedMessage) (ms : List PreparedMessage) :
    statusAfter s (m :: ms) =
      if s = some .completed ∨ ∃ x ∈ m :: ms, x.hint = some .final then some .completed
      else if s = some .compensating ∨ ∃ x ∈ m :: ms, x.hint = some .compensation then some .compensating
      else some .running := by
  induction ms generalizing s m with
  | nil =>
    unfold statusAfter nextStatus deriveStatus
    simp only [List.foldl_cons, List.foldl_nil, List.mem_singleton, exists_eq_left]
    generalize m.hint = hint
    rcases s with _ | _ | _ | _ <;> rcases hint with _ | _ | _ | _ | _ <;> decide
  | cons m' ms ih =>
    rw [statusAfter_cons, ih]
    simp only [List.exists_mem_cons_iff (a := m)]
    unfold nextStatus deriveStatus
    generalize m.hint = hint
    rcases s with _ | _ | _ | _ <;> rcases hint with _ | _ | _ | _ | _ <;> simp

theorem statusAfter_withoutRepeats (h : Redelivered ms) (s : Option SagaStatus) :
    statusAfter s (withoutRepeats ms) = statusAfter s ms := by
  cases ms with
  | nil => rfl
  | cons m ms =>
    have hhint : ∀ hint : Option EventHint,
        (∃ x ∈ withoutRepeats (m :: ms), x.hint = hint) ↔ ∃ x ∈ m :: ms, x.hint = hint := by
      intro hint
      constructor
      · rintro ⟨x, hx, hh⟩
        exact ⟨x, mem_of_mem_firsts hx, hh⟩
      · rintro ⟨x, hx, hh⟩
        have hfirst : ∃ y ∈ withoutRepeats (m :: ms), y.eventId = x.eventId := exists_firsts hx
        obtain ⟨y, hy, hid⟩ := hfirst
        have hparsed := h y (mem_of_mem_firsts hy) x hx hid
        exact ⟨y, hy, (congrArg ParsedSagaHeaders.sagaEventHint hparsed).trans hh⟩
    have hcons : withoutRepeats (m :: ms) = m :: (withoutRepeats ms).filter (·.eventId ≠ m.eventId) := rfl
    rw [hcons] at hhint ⊢
    rw [statusAfter_eq, statusAfter_eq]
    simp only [hhint]

/-- The messages that are not guarded are, without repeats, those that are not guarded without repeats. -/
theorem unguarded_withoutRepeats {ms : List PreparedMessage} (h : Redelivered ms) (s : Option SagaStatus) :
    unguarded s (withoutRepeats ms) = withoutRepeats (unguarded s ms) := by
  induction ms using List.reverseRecOn with
  | nil => rfl
  | append_singleton ms m ih =>
    have hms : Redelivered ms := h.subset fun _ => List.mem_append_left _
    unfold withoutRepeats at ih ⊢
    rw [firsts_snoc, unguarded_append]
    by_cases hs : statusAfter s ms = some .completed
    · rw [hs, unguarded_completed, List.append_nil, ← ih hms]
      split
      · rfl
      · rw [unguarded_append]
        show _ ++ unguarded (statusAfter s (withoutRepeats ms)) [m] = _
        rw [statusAfter_withoutRepeats hms, hs, unguarded_completed, List.append_nil]
    · have hall : unguarded s ms = ms := unguarded_of_ne hs
      rw [unguarded_cons hs, hall, unguarded_nil, firsts_snoc]
      rw [hall] at ih
      split
      · exact ih hms
      · rw [unguarded_append, ih hms]
        show _ ++ unguarded (statusAfter s (withoutRepeats ms)) [m] = _
        rw [statusAfter_withoutRepeats hms, unguarded_cons hs, unguarded_nil]

/-- Of each event the same row comes first. -/
theorem head_logRows_withoutRepeats {l : List PreparedMessage} (h : Redelivered l) (status : String → Option SagaStatus)
    (id : String) : ((logRows date status (withoutRepeats l)).filter (·.sagaEventId = id)).head? =
      ((logRows date status l).filter (·.sagaEventId = id)).head? := by
  induction l using List.reverseRecOn with
  | nil => rfl
  | append_singleton l m ih =>
    have hl : Redelivered l := h.subset fun _ => List.mem_append_left _
    unfold withoutRepeats at ih ⊢
    rw [firsts_snoc, logRows_append, List.filter_append, List.head?_append, ← ih hl]
    by_cases hm : m.eventId ∈ l.map (·.eventId)
    · rw [if_pos hm]
      by_cases hid : m.eventId = id
      · -- the event has a row already
        have hrow : m.eventId ∈ (logRows date status (firsts (·.eventId) l)).map (·.sagaEventId) := by
          rw [map_sagaEventId_logRows, mem_map_firsts]
          exact hm
        obtain ⟨row, hrow, hrid⟩ := List.mem_map.1 hrow
        have hmem : row ∈ (logRows date status (firsts (·.eventId) l)).filter (·.sagaEventId = id) :=
          List.mem_filter.2 ⟨hrow, by simp [hrid, hid]⟩
        obtain ⟨row', rows, hcons⟩ := List.exists_cons_of_ne_nil (List.ne_nil_of_mem hmem)
        rw [hcons]
        rfl
      · simp [logRows, buildEventLogRow, show m.parsed.sagaEventId ≠ id from hid]
    · have hstatus : statusAfter (status m.sagaId) (ofSaga m.sagaId (withoutRepeats l)) =
          statusAfter (status m.sagaId) (ofSaga m.sagaId l) := by
        rw [ofSaga_withoutRepeats hl, statusAfter_withoutRepeats (hl.ofSaga _)]
      rw [if_neg hm, logRows_append, List.filter_append, List.head?_append, logRows, logRows, hstatus]
      rfl

/-! ## Both batches -/

/-- Messages of one saga stay in their order. -/
theorem ofSaga_inLogOrder (hl : ∀ a, localeCompare a a = 0) (k : String) : ∀ ms : List PreparedMessage,
    ofSaga k (inLogOrder localeCompare ms) = ofSaga k ms
  | [] => rfl
  | m :: ms => by
    have ih : ofSaga k (inLogOrder localeCompare ms) = ofSaga k ms := ofSaga_inLogOrder hl k ms
    have hins : ∀ l : List PreparedMessage,
        ofSaga k (l.orderedInsert (fun a b => localeCompare a.sagaId b.sagaId ≤ 0) m) = ofSaga k (m :: l) := by
      intro l
      induction l with
      | nil => rfl
      | cons x l ihl =>
        rw [List.orderedInsert_cons]
        split
        · rfl
        · rename_i hle
          -- the message passes one of another saga
          have hne : m.sagaId ≠ x.sagaId := fun h => hle (by rw [h, hl])
          unfold ofSaga at ihl ⊢
          simp only [List.filter_cons, ihl]
          by_cases hm : m.sagaId = k
          · subst hm
            simp [Ne.symm hne]
          · simp [hm]
    show ofSaga k ((inLogOrder localeCompare ms).orderedInsert _ m) = _
    rw [hins]
    unfold ofSaga at ih ⊢
    rw [List.filter_cons, List.filter_cons, ih]

theorem filter_logRows_ofSaga (k : String) : ∀ (l : List PreparedMessage) (status : String → Option SagaStatus),
    (logRows date status l).filter (·.sagaId = k) = logRows date status (ofSaga k l)
  | [], _ => rfl
  | m :: l, status => by
    rw [logRows]
    by_cases hk : m.sagaId = k
    · subst hk
      rw [ofSaga_cons_self, logRows, List.filter_cons_of_pos (by simp [buildEventLogRow, PreparedMessage.sagaId]),
        filter_logRows_ofSaga]
    · have hrow : ¬ decide ((buildEventLogRow date m (status m.sagaId) (nextStatus (status m.sagaId) m)).sagaId = k) :=
        fun h => hk (of_decide_eq_true h)
      rw [ofSaga_cons_of_ne hk, List.filter_cons_of_neg (p := fun row : BulkInsertEventLogData Time => row.sagaId = k) hrow,
        filter_logRows_ofSaga]
      refine logRows_congr fun x hx => ?_
      rw [(mem_ofSaga.1 hx).2, Function.update_of_ne (Ne.symm hk)]

/-- A log row is one of a message. -/
theorem mem_logRows {l : List PreparedMessage} {status : String → Option SagaStatus}
    {row : BulkInsertEventLogData Time} (h : row ∈ logRows date status l) :
    ∃ m ∈ l, row.sagaId = m.sagaId ∧ row.sagaEventId = m.eventId := by
  induction l generalizing status with
  | nil => cases h
  | cons m l ih =>
    rcases List.mem_cons.1 h with rfl | h
    · exact ⟨m, .head _, rfl, rfl⟩
    · obtain ⟨x, hx, hrow⟩ := ih h
      exact ⟨x, .tail _ hx, hrow⟩

/-- The row an event gets is the first of its saga's messages with that event. -/
theorem lookup_log_commitBatch (hl : ∀ a, localeCompare a a = 0) (hnew : ∀ m ∈ ms, m.eventId ∉ db.log)
    (hred : Redelivered ms) {m : PreparedMessage} (hm : m ∈ ms) :
    (commitBatch date localeCompare now db ms).log.lookup m.eventId =
      ((logRows date db.status (ofSaga m.sagaId ms)).filter (·.sagaEventId = m.eventId)).head? := by
  have hrow : ∀ row ∈ logRows date db.status (inLogOrder localeCompare ms),
      row.sagaEventId = m.eventId → row.sagaId = m.sagaId := by
    intro row hrow hid
    obtain ⟨x, hx, hsaga, hxid⟩ := mem_logRows hrow
    rw [hsaga]
    exact congrArg ParsedSagaHeaders.sagaId
      (hred x ((List.perm_insertionSort _ _).mem_iff.1 hx) m hm (hxid.symm.trans hid))
  rw [log_commitBatch_sorted hnew, ← logRows_inLogOrder hl, lookup_insertAll, Finmap.lookup_eq_none.2 (hnew m hm),
    Option.none_or, ← ofSaga_inLogOrder hl m.sagaId ms, ← filter_logRows_ofSaga, List.filter_filter]
  congr 1
  refine List.filter_congr fun row hmem => ?_
  by_cases hid : row.sagaEventId = m.eventId
  · simp [hid, hrow row hmem hid]
  · simp [hid]

variable (date now) in
/-- The log does not show the repeats. -/
theorem log_withoutRepeats (hl : ∀ a, localeCompare a a = 0) (hnew : ∀ m ∈ ms, m.eventId ∉ db.log)
    (hred : Redelivered ms) (now' : Time) :
    (commitBatch date localeCompare now db ms).log =
      (commitBatch date localeCompare now' db (withoutRepeats ms)).log := by
  have hnew' : ∀ m ∈ withoutRepeats ms, m.eventId ∉ db.log := fun m hm => hnew m (mem_of_mem_firsts hm)
  apply Finmap.ext_lookup
  intro id
  by_cases hid : id ∈ ms.map (·.eventId)
  · obtain ⟨m, hm, rfl⟩ := List.mem_map.1 (mem_map_firsts.2 hid)
    have hmem : m ∈ ms := mem_of_mem_firsts hm
    rw [lookup_log_commitBatch hl hnew hred hmem,
      lookup_log_commitBatch hl hnew' (hred.subset fun _ => mem_of_mem_firsts) hm, ofSaga_withoutRepeats hred,
      head_logRows_withoutRepeats (hred.ofSaga _)]
  · have hout : ∀ l : List PreparedMessage, (∀ m ∈ l, m.eventId ∉ db.log) → id ∉ l.map (·.eventId) → ∀ now,
        (commitBatch date localeCompare now db l).log.lookup id = db.log.lookup id := by
      intro l hnewl hidl now
      rw [log_commitBatch_sorted hnewl]
      refine lookup_upsertAll_of_notMem fun h => hidl ?_
      have hids : (logRows date db.status l).map (·.sagaEventId) = l.map (·.eventId) := map_sagaEventId_logRows l _
      rw [← hids]
      exact ((List.perm_insertionSort _ _).map _).mem_iff.1 h
    rw [hout ms hnew hid, hout _ hnew' fun h => hid (mem_map_firsts.1 h)]

theorem Database.Same.eventCount {db db' : Database Time} (h : db.Same db') (k : String) :
    db.eventCount k = db'.eventCount k := by
  have hk := h.2 k
  unfold Database.eventCount
  generalize db.states.lookup k = row at hk
  generalize db'.states.lookup k = row' at hk
  cases hk with
  | none => rfl
  | some hrow =>
    unfold SagaStateRow.Same at hrow
    rw [← hrow]
    rfl

/-- Without repeats nothing has to be guarded. -/
theorem justified_of_nodup (db : Database Time) (h : (ms.map (·.eventId)).Nodup) :
    Justified (fun before m => m.eventId ∈ before.map (·.eventId) → Guarded db before m)
      (inLogOrder localeCompare ms) := by
  intro before m after heq hmem
  have hn : ((inLogOrder localeCompare ms).map (·.eventId)).Nodup :=
    ((List.perm_insertionSort _ _).map _).nodup_iff.2 h
  rw [heq, List.map_append, List.nodup_append] at hn
  exact absurd rfl (hn.2.2 m.eventId hmem m.eventId (by simp))

theorem repeatsGuarded_of_nodup (db : Database Time) (h : (prepared.map (·.eventId)).Nodup) :
    RepeatsGuarded localeCompare db prepared := by
  refine justified_of_nodup db (h.sublist (List.Sublist.map _ ?_))
  rw [dedupe_eq_filter]
  exact List.filter_sublist

variable (date now) in
/-- A batch of new messages leaves the rows that it leaves without its repeats exactly when they are guarded. -/
theorem same_withoutRepeats_iff (hl : ∀ a, localeCompare a a = 0) (hnew : ∀ m ∈ ms, m.eventId ∉ db.log)
    (hred : Redelivered ms) (now' : Time) :
    (commitBatch date localeCompare now db ms).Same (commitBatch date localeCompare now' db (withoutRepeats ms)) ↔
      Justified (fun before m => m.eventId ∈ before.map (·.eventId) → Guarded db before m)
        (inLogOrder localeCompare ms) := by
  have hnew' : ∀ m ∈ withoutRepeats ms, m.eventId ∉ db.log := fun m hm => hnew m (mem_of_mem_firsts hm)
  have hlog := log_withoutRepeats date now hl hnew hred now'
  have hlogged' := (logged_commitBatch date now' hl hnew').2.2 (justified_of_nodup db (nodup_firsts ms))
  have hunguarded : ∀ k, unguarded (db.status k) (ofSaga k (withoutRepeats ms)) =
      withoutRepeats (unguarded (db.status k) (ofSaga k ms)) := fun k => by
    rw [ofSaga_withoutRepeats hred, unguarded_withoutRepeats (hred.ofSaga k)]
  unfold Database.logged at hlogged'
  rw [← (logged_commitBatch date now hl hnew).2]
  unfold Database.logged
  rw [hlog]
  constructor
  · intro h k
    have hk := h.eventCount k
    rw [eventCount_commitBatch date localeCompare now hnew, eventCount_commitBatch date localeCompare now' hnew'] at hk
    rw [hlogged' k]
    omega
  · intro h
    refine ⟨hlog, fun k => ?_⟩
    -- as many messages are taken, so none of them is left out
    have hlen : (withoutRepeats (unguarded (db.status k) (ofSaga k ms))).length =
        (unguarded (db.status k) (ofSaga k ms)).length := by
      have h1 := h k
      rw [hlogged' k, hunguarded] at h1
      omega
    have heq : withoutRepeats (unguarded (db.status k) (ofSaga k ms)) = unguarded (db.status k) (ofSaga k ms) :=
      (firsts_sublist _).eq_of_length hlen
    rw [lookup_commitBatch hnew, lookup_commitBatch hnew']
    have hsame : stateAfter date now' (db.states.lookup k) (ofSaga k (withoutRepeats ms)) =
        stateAfter date now' (db.states.lookup k) (ofSaga k ms) := by
      have hst : statusAfter (db.status k) (ofSaga k (withoutRepeats ms)) = statusAfter (db.status k) (ofSaga k ms) := by
        rw [ofSaga_withoutRepeats hred, statusAfter_withoutRepeats (hred.ofSaga k)]
      have hun := (hunguarded k).trans heq
      unfold Database.status at hst hun
      unfold stateAfter
      rw [hst, hun]
    rw [hsame]
    exact same_stateAfter now now' _ _

variable (date) in
/-- A batch that commits leaves the rows that it leaves without its repeats exactly when they are guarded. -/
theorem commit_withoutRepeats_iff (hl : ∀ a, localeCompare a a = 0) (db : Database Time) (now now' : Time)
    (hred : Redelivered prepared) :
    (commitBatch date localeCompare now db prepared).Same
        (commitBatch date localeCompare now' db (withoutRepeats prepared)) ↔
      RepeatsGuarded localeCompare db prepared := by
  have hmem : ∀ m ∈ dedupe db prepared, m ∈ prepared := by
    rw [dedupe_eq_filter]
    exact fun _ hm => (List.mem_filter.1 hm).1
  have h := same_withoutRepeats_iff date now hl (fun _ => new_of_mem_dedupe) (hred.subset hmem) now'
  rw [commitBatch_dedupe, ← dedupe_withoutRepeats, commitBatch_dedupe] at h
  exact h

theorem Columns.Take.withoutRepeats (h : columns.Take db prepared) : columns.Take db (withoutRepeats prepared) := by
  intro m hm
  rw [dedupe_withoutRepeats] at hm
  exact h m (mem_of_mem_firsts hm)

/-- A batch that commits and has a new message changes the log. -/
theorem not_same_commitBatch (hnew : dedupe db prepared ≠ []) :
    ¬ db.Same (commitBatch date localeCompare now db prepared) := by
  obtain ⟨m, rest, hm⟩ := List.exists_cons_of_ne_nil hnew
  have hmem : m ∈ dedupe db prepared := by rw [hm]; exact .head _
  intro h
  apply new_of_mem_dedupe hmem
  rw [h.1, mem_log_commitBatch]
  rw [dedupe_eq_filter] at hmem
  exact .inr (List.mem_map_of_mem (List.mem_filter.1 hmem).1)

/-- After batches that are processed one after the other every saga counts the events that are logged of it before it
is completed exactly when in each batch that is committed the repeated messages are guarded. A batch leaves the same rows with
and without its repeats exactly when, if it commits without them, it commits with them and they are guarded. -/
theorem redelivery_harmless_iff (date : String → Time) (columns : Columns) (hl : ∀ a, localeCompare a a = 0) :
    (∀ (as : List (DeliveredBatch Time)) (db : Database Time),
      run (batchStep date localeCompare columns) ⟨∅, ∅⟩ as = some db →
        ((∀ k, db.eventCount k = db.logged k) ↔
          Each (batchStep date localeCompare columns)
            (fun db batch => batch.Commits columns db → RepeatsGuarded localeCompare db batch.prepared) ⟨∅, ∅⟩ as)) ∧
    ∀ (db : Database Time) (now now' : Time) (prepared : List PreparedMessage), Redelivered prepared →
      ((processBatch date localeCompare columns now db prepared).Same
          (processBatch date localeCompare columns now' db (withoutRepeats prepared)) ↔
        (columns.Take db (withoutRepeats prepared) →
          columns.Take db prepared ∧ RepeatsGuarded localeCompare db prepared)) := by
  refine ⟨fun as db h => counted_run_iff hl h, fun db now now' prepared hred => ?_⟩
  unfold processBatch
  by_cases hone : columns.Take db (withoutRepeats prepared)
  · by_cases hall : columns.Take db prepared
    · rw [if_pos hone, if_pos hall, commit_withoutRepeats_iff date hl db now now' hred]
      exact ⟨fun h _ => ⟨hall, h⟩, fun h => (h hone).2⟩
    · rw [if_pos hone, if_neg hall]
      refine iff_of_false (not_same_commitBatch ?_) fun h => hall (h hone).1
      -- the message that is refused has an event that is new
      rw [dedupe_withoutRepeats]
      intro hnil
      apply hall
      intro m hm
      have hid : m.eventId ∈ (withoutRepeats (dedupe db prepared)).map (·.eventId) :=
        mem_map_firsts.2 (List.mem_map_of_mem hm)
      rw [hnil] at hid
      cases hid
  · have hall : ¬ columns.Take db prepared := fun h => hone h.withoutRepeats
    rw [if_neg hone, if_neg hall]
    exact iff_of_true (Database.Same.refl db) fun h => absurd h hone

end Redelivery

/-! ## An event that is delivered twice -/

/-- The message of an event at another offset. -/
def PreparedMessage.again (m : PreparedMessage) : PreparedMessage := { m with offset := m.offset ++ "1" }

theorem compareText_self (a : String) : compareText a a = 0 := if_pos rfl

theorem redelivered_again (m : PreparedMessage) : Redelivered [m, m.again] := by
  intro x hx y hy _
  have hparsed : ∀ z ∈ [m, m.again], z.parsed = m.parsed := by
    intro z hz
    rcases List.mem_cons.1 hz with rfl | hz
    · rfl
    · rw [List.mem_singleton.1 hz]
      rfl
  rw [hparsed x hx, hparsed y hy]

/-- Twice in one batch, it is counted twice and logged once, and counted once without its repeat. -/
theorem repeat_counted_twice :
    ¬ ((∀ as db, run (batchStep id compareText .sample) ⟨∅, ∅⟩ as = some db → ∀ k, db.eventCount k = db.logged k) ∧
      ∀ (db : Database String) (prepared : List PreparedMessage), Redelivered prepared →
        (processBatch id compareText .sample "t" db prepared).Same
          (processBatch id compareText .sample "t" db (withoutRepeats prepared))) ∧
    (processBatch id compareText .sample "t" ⟨∅, ∅⟩ [firstEvent, firstEvent.again]).eventCount "saga-1" = 2 ∧
    (processBatch id compareText .sample "t" ⟨∅, ∅⟩ [firstEvent, firstEvent.again]).logged "saga-1" = 1 ∧
    ¬ (processBatch id compareText .sample "t" ⟨∅, ∅⟩ [firstEvent, firstEvent.again]).Same
      (processBatch id compareText .sample "t" ⟨∅, ∅⟩ (withoutRepeats [firstEvent, firstEvent.again])) := by
  have hcount : (processBatch id compareText .sample "t" ⟨∅, ∅⟩ [firstEvent, firstEvent.again]).eventCount "saga-1" = 2 := by
    decide +kernel
  have hlogged : (processBatch id compareText .sample "t" ⟨∅, ∅⟩ [firstEvent, firstEvent.again]).logged "saga-1" = 1 := by
    decide +kernel
  have hone : (processBatch id compareText .sample "t" ⟨∅, ∅⟩
      (withoutRepeats [firstEvent, firstEvent.again])).eventCount "saga-1" = 1 := by
    decide +kernel
  refine ⟨fun h => ?_, hcount, hlogged, fun h => ?_⟩
  · have hk : (processBatch id compareText .sample "t" ⟨∅, ∅⟩ [firstEvent, firstEvent.again]).eventCount "saga-1" =
        (processBatch id compareText .sample "t" ⟨∅, ∅⟩ [firstEvent, firstEvent.again]).logged "saga-1" :=
      h.1 [⟨"t", [firstEvent, firstEvent.again], false⟩] _ rfl "saga-1"
    rw [hcount, hlogged] at hk
    cases hk
  · have hk := h.eventCount "saga-1"
    rw [hcount, hone] at hk
    cases hk

/-- The event that ends the saga. -/
def lastEvent : PreparedMessage := .sample "e4" "order.done" (some .final) "2024-01-01T00:00:12.000Z"

/-- An event whose date no column takes. -/
def refusedEvent : PreparedMessage := .sample "e5" "order.created" none "not-a-date"

/-- A batch with a repeat that fails for another event, one without it, and one with the event of the batch before. -/
def redelivered : List (DeliveredBatch String) :=
  [⟨"t", [firstEvent, firstEvent.again, refusedEvent], false⟩, ⟨"t", [firstEvent], false⟩,
    ⟨"t", [firstEvent.again, secondEvent], false⟩]

/-- An event that comes again in a later batch is counted once, and so is a final one that comes again at once. -/
theorem redelivery_harmless_sample :
    (∃ db, run (batchStep id compareText .sample) ⟨∅, ∅⟩ redelivered = some db ∧
      ∀ k, db.eventCount k = db.logged k) ∧
    (processBatch id compareText .sample "t" ⟨∅, ∅⟩ [lastEvent, lastEvent.again]).Same
      (processBatch id compareText .sample "t" ⟨∅, ∅⟩ (withoutRepeats [lastEvent, lastEvent.again])) := by
  constructor
  · refine ⟨_, rfl, ((redelivery_harmless_iff id .sample compareText_self).1 redelivered _ rfl).2 ?_⟩
    refine ⟨fun h => absurd h.2 (by decide +kernel), fun _ _ => ?_⟩
    exact ⟨fun _ => repeatsGuarded_of_nodup _ (by decide),
      fun _ _ => ⟨fun _ => repeatsGuarded_of_nodup _ (by decide), fun _ _ => trivial⟩⟩
  · refine ((redelivery_harmless_iff id .sample compareText_self).2 ⟨∅, ∅⟩ "t" "t" _ (redelivered_again _)).2
      fun _ => ⟨by decide +kernel, ?_⟩
    have hsorted : inLogOrder compareText (dedupe (⟨∅, ∅⟩ : Database String) [lastEvent, lastEvent.again]) =
        [] ++ [lastEvent] ++ [lastEvent.again] := rfl
    unfold RepeatsGuarded
    rw [hsorted, justified_snoc_iff, justified_snoc_iff]
    exact ⟨⟨justified_nil _, fun h => by cases h⟩, fun _ => .inr ⟨lastEvent, by simp, rfl, rfl⟩⟩

end Saga.Monitor
