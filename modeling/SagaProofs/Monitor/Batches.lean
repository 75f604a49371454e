/-
The projection of a sequence of messages that is cut into one batch or two. In memory a batch builds the
row of a saga from its last message, while the table keeps the columns of the first row that was inserted:
of a saga that is not stored yet, the root, the parent, the names and the start come from the last message
of the batch that inserts it. All else agrees, in both tables, unless a column refuses a value: the transaction
of its batch fails, and with it all that the batch holds.
-/
import SagaProofs.Monitor.Derive

namespace Saga.Monitor

open Keyed

variable {Time : Type}

/-! ## What is to be shown -/

/-- The rows agree in all columns but `version` and `updated_at`. -/
def SagaStateRow.Same (row row' : SagaStateRow Time) : Prop :=
  { row with
    version := row'.version
    updatedAt := row'.updatedAt } = row'

/-- The two databases hold the same log rows and, but for `version` and `updated_at`, the same states. -/
def Database.Same (db db' : Database Time) : Prop :=
  db.log = db'.log ∧ ∀ k, Option.Rel SagaStateRow.Same (db.states.lookup k) (db'.states.lookup k)

/-- The message ends its saga. -/
def PreparedMessage.isFinal (m : PreparedMessage) : Bool := m.hint = some .final

/-- The last message of a saga that a batch takes: the first one that ends it, or the last. -/
def lastTaken (ms : List PreparedMessage) : Option PreparedMessage := (ms.find? (·.isFinal)).or ms.getLast?

/-- The messages agree in the columns that only an inserted row takes. -/
def SameOrigin (date : String → Time) (m m' : PreparedMessage) : Prop :=
  m.parsed.sagaRootId = m'.parsed.sagaRootId ∧ m.parsed.sagaParentId = m'.parsed.sagaParentId ∧
    m.parsed.sagaName = m'.parsed.sagaName ∧ m.parsed.sagaDescription = m'.parsed.sagaDescription ∧
    date m.parsed.sagaPublishedAt = date m'.parsed.sagaPublishedAt

/-- For every saga that is not stored yet and that the first batch does not end, the last message of the
first batch and the last one taken of the second agree in what an inserted row takes. -/
def CutAgrees (date : String → Time) (db : Database Time) (b1 b2 : List PreparedMessage) : Prop :=
  ∀ k ∈ b1.map (·.sagaId), db.states.lookup k = none → (∀ m ∈ ofSaga k b1, m.isFinal = false) →
    ∀ m ∈ (ofSaga k b1).getLast?, ∀ m' ∈ lastTaken (ofSaga k b2), SameOrigin date m m'

/-! ## The log -/

section Log

variable {date : String → Time} {now : Time}

/-- The log rows of messages, over the statuses of their sagas. -/
def logRows (date : String → Time) :
    (String → Option SagaStatus) → List PreparedMessage → List (BulkInsertEventLogData Time)
  | _, [] => []
  | status, m :: ms =>
    buildEventLogRow date m (status m.sagaId) (nextStatus (status m.sagaId) m) ::
      logRows date (Function.update status m.sagaId (some (nextStatus (status m.sagaId) m))) ms

theorem logRows_congr : ∀ {ms : List PreparedMessage} {status status' : String → Option SagaStatus},
    (∀ m ∈ ms, status m.sagaId = status' m.sagaId) → logRows date status ms = logRows date status' ms
  | [], _, _, _ => rfl
  | m :: ms, status, status', h => by
    have hm := h m (.head _)
    rw [logRows, logRows, hm]
    congr 1
    apply logRows_congr
    intro m' hm'
    by_cases hk : m'.sagaId = m.sagaId
    · rw [hk, Function.update_self, Function.update_self]
    · rw [Function.update_of_ne hk, Function.update_of_ne hk]
      exact h m' (.tail _ hm')

theorem logRows_append : ∀ (ms ms' : List PreparedMessage) (status : String → Option SagaStatus),
    logRows date status (ms ++ ms') =
      logRows date status ms ++ logRows date (fun k => statusAfter (status k) (ofSaga k ms)) ms'
  | [], _, _ => rfl
  | m :: ms, ms', status => by
    rw [List.cons_append, logRows, logRows_append ms ms', logRows, List.cons_append]
    congr 2
    apply logRows_congr
    intro m' _
    by_cases hk : m.sagaId = m'.sagaId
    · rw [← hk, Function.update_self, ofSaga_cons_self, statusAfter_cons]
    · rw [Function.update_of_ne (Ne.symm hk), ofSaga_cons_of_ne hk]

theorem currentStatus_deriveMessage {stateMap : StateMap Time} (d : DeriveChanges Time)
    (m : PreparedMessage) :
    (deriveMessage date now stateMap d m).currentStatus stateMap =
      Function.update (d.currentStatus stateMap) m.sagaId
        (some (nextStatus (d.currentStatus stateMap m.sagaId) m)) := by
  funext k
  have h : (deriveMessage date now stateMap d m).currentStatus stateMap k = _ :=
    congrArg SagaView.status (view_deriveMessage d m k)
  rw [h]
  by_cases hk : m.sagaId = k
  · subst hk
    rw [if_pos rfl, status_take, Function.update_self]
    rfl
  · rw [if_neg hk, Function.update_of_ne (Ne.symm hk)]
    rfl

/-- The log rows of a batch are those of its messages, in order. -/
theorem eventLogs_foldl {stateMap : StateMap Time} : ∀ (ms : List PreparedMessage) (d : DeriveChanges Time),
    (ms.foldl (deriveMessage date now stateMap) d).eventLogs =
      d.eventLogs ++ logRows date (d.currentStatus stateMap) ms
  | [], d => (List.append_nil _).symm
  | m :: ms, d => by
    have hrow : (deriveMessage date now stateMap d m).eventLogs = d.eventLogs ++
        [buildEventLogRow date m (d.currentStatus stateMap m.sagaId)
          (nextStatus (d.currentStatus stateMap m.sagaId) m)] := by
      by_cases hc : d.currentStatus stateMap m.sagaId = some .completed
      · rw [deriveMessage_guarded hc, hc, nextStatus_completed]
      · rw [deriveMessage_taken hc]
    rw [List.foldl_cons, eventLogs_foldl ms, hrow, currentStatus_deriveMessage, logRows, List.append_assoc]
    rfl

theorem eventLogs_deriveChanges {stateMap : StateMap Time} (ms : List PreparedMessage) :
    (deriveChanges date now stateMap ms).eventLogs = logRows date (statusIn stateMap) ms :=
  eventLogs_foldl ms .empty

theorem map_sagaEventId_logRows : ∀ (ms : List PreparedMessage) (status : String → Option SagaStatus),
    (logRows date status ms).map (·.sagaEventId) = ms.map (·.eventId)
  | [], _ => rfl
  | _ :: ms, _ => congrArg _ (map_sagaEventId_logRows ms _)

end Log

/-! ## A batch of new messages -/

section Batch

variable {date : String → Time} {localeCompare : String → String → ℤ} {now : Time} {db : Database Time}
variable {ms : List PreparedMessage}

theorem dedupe_of_new (h : ∀ m ∈ ms, m.eventId ∉ db.log) : dedupe db ms = ms := by
  unfold dedupe bulkCheckExisting
  rw [List.filter_eq_self]
  intro m hm
  simp [h m hm]

theorem commitBatch_of_new (h : ∀ m ∈ ms, m.eventId ∉ db.log) :
    commitBatch date localeCompare now db ms =
      persistBatch localeCompare now (deriveChanges date now (lookupStates db ms) ms).sagaStates
        (deriveChanges date now (lookupStates db ms) ms).eventLogs db := by
  unfold commitBatch
  rw [dedupe_of_new h]
  by_cases hms : ms = []
  · subst hms
    rfl
  · exact if_neg hms

theorem lookupStates_of_mem {m : PreparedMessage} (hm : m ∈ ms) :
    lookupStates db ms m.sagaId = (db.states.lookup m.sagaId).map (·.info) :=
  if_pos (List.mem_map_of_mem hm)

theorem statusIn_lookupStates {m : PreparedMessage} (hm : m ∈ ms) :
    statusIn (lookupStates db ms) m.sagaId = db.status m.sagaId := by
  unfold statusIn Database.status
  rw [lookupStates_of_mem hm, Option.map_map]
  rfl

/-- The log after a batch of new messages. -/
theorem log_commitBatch (h : ∀ m ∈ ms, m.eventId ∉ db.log) (hn : (ms.map (·.eventId)).Nodup) :
    (commitBatch date localeCompare now db ms).log =
      upsertAll (·.sagaEventId) (fun stored e => stored.getD e) db.log (logRows date db.status ms) := by
  rw [commitBatch_of_new h]
  unfold persistBatch bulkInsert
  rw [eventLogs_deriveChanges, logRows_congr fun m hm => statusIn_lookupStates hm]
  exact (upsertAll_perm (List.perm_insertionSort _ _).symm (by rw [map_sagaEventId_logRows]; exact hn)).symm

/-- The row of a saga after a batch in which it has these messages. -/
def stateAfter (date : String → Time) (now : Time) (stored : Option (SagaStateRow Time)) (ms : List PreparedMessage) :
    Option (SagaStateRow Time) :=
  ((rowAfter date (fun _ => stored.map (·.info)) none (statusAfter (stored.map (·.status)) ms)
    (unguarded (stored.map (·.status)) ms)).map (mergeState now stored)).or stored

theorem lookup_commitBatch (h : ∀ m ∈ ms, m.eventId ∉ db.log) (k : String) :
    (commitBatch date localeCompare now db ms).states.lookup k =
      stateAfter date now (db.states.lookup k) (ofSaga k ms) := by
  rw [commitBatch_of_new h, lookup_persistBatch, lookup_sagaStatesMap]
  unfold stateAfter
  cases hk : ofSaga k ms with
  | nil => rfl
  | cons m rest =>
    have hm : m ∈ ms ∧ m.sagaId = k := mem_ofSaga.1 (by rw [hk]; exact .head _)
    have hst : statusIn (lookupStates db ms) k = (db.states.lookup k).map (·.status) := by
      rw [← hm.2]
      exact statusIn_lookupStates hm.1
    have hinfo : ∀ m' ∈ unguarded ((db.states.lookup k).map (·.status)) (m :: rest),
        lookupStates db ms m'.sagaId = (db.states.lookup k).map (·.info) := by
      intro m' hm'
      have hmem : m' ∈ ms ∧ m'.sagaId = k := mem_ofSaga.1 (by rw [hk]; exact mem_of_mem_unguarded hm')
      rw [lookupStates_of_mem hmem.1, hmem.2]
    rw [hst, rowAfter_congr (fun _ => (db.states.lookup k).map (·.info)) hinfo]

/-! ## A saga cut in two -/

theorem stateAfter_of_nil {stored : Option (SagaStateRow Time)} (h : unguarded (stored.map (·.status)) ms = []) :
    stateAfter date now stored ms = stored := by
  unfold stateAfter
  rw [h]
  rfl

theorem ne_completed_of_last {s : Option SagaStatus} {m : PreparedMessage} (h : (unguarded s ms).getLast? = some m) :
    s ≠ some .completed := by
  rintro rfl
  rw [unguarded_completed] at h
  cases h

/-- A saga with unguarded messages is left with a status, and its row is that of the last one. -/
theorem stateAfter_of_last (date : String → Time) (now : Time) {stored : Option (SagaStateRow Time)}
    {m : PreparedMessage} (h : (unguarded (stored.map (·.status)) ms).getLast? = some m) :
    ∃ s, statusAfter (stored.map (·.status)) ms = some s ∧
      stateAfter date now stored ms = some (mergeState now stored (buildStateRow date (fun _ => stored.map (·.info)) m s
        ((unguarded (stored.map (·.status)) ms).length - 1))) := by
  obtain ⟨x, xs, rfl⟩ : ∃ x xs, ms = x :: xs := by
    cases ms with
    | nil => cases h
    | cons x xs => exact ⟨x, xs, rfl⟩
  obtain ⟨s, hs⟩ := exists_statusAfter_cons (stored.map (·.status)) x xs
  refine ⟨s, hs, ?_⟩
  unfold stateAfter
  rw [hs, rowAfter_last h]
  simp [counted]

/-- The status that is stored after a batch is the one the messages leave. -/
theorem status_stateAfter (date : String → Time) (now : Time) (stored : Option (SagaStateRow Time))
    (ms : List PreparedMessage) :
    (stateAfter date now stored ms).map (·.status) = statusAfter (stored.map (·.status)) ms := by
  cases hu : unguarded (stored.map (·.status)) ms with
  | nil => rw [stateAfter_of_nil hu, statusAfter_of_unguarded_nil hu]
  | cons e es =>
    have hlast : ∃ m, (unguarded (stored.map (·.status)) ms).getLast? = some m :=
      ⟨_, List.getLast?_eq_some_getLast (by rw [hu]; simp)⟩
    obtain ⟨m, hm⟩ := hlast
    obtain ⟨s, hs, hst⟩ := stateAfter_of_last date now hm
    rw [hst, hs]
    exact congrArg some (status_mergeState_of_ne (ne_completed_of_last hm) _)

/-- The row of a second batch, over the row of the first. -/
theorem same_mergeState_some {row : SagaStateRow Time} (now1 now2 : Time) {m m' : PreparedMessage} {s s' : SagaStatus}
    {n n' : ℕ} {info info' : StateMap Time} (hrow : row.status ≠ .completed) (hs : s ≠ .completed) :
    (mergeState now2 (some (mergeState now1 (some row) (buildStateRow date info m s n)))
      (buildStateRow date info' m' s' n')).Same
      (mergeState now (some row) (buildStateRow date info m' s' (n + n' + 1))) := by
  have hcount : row.eventCount + (n + 1) + (n' + 1) = row.eventCount + (n + n' + 1 + 1) := by omega
  cases s' <;> simp [SagaStateRow.Same, mergeState, buildStateRow, hrow, hs, hcount]

/-- Over a saga that is not stored the two agree exactly when the messages agree in what is inserted. -/
theorem same_mergeState_none_iff (now1 now2 : Time) {m m' : PreparedMessage} {s s' : SagaStatus} {n n' : ℕ}
    {info' : StateMap Time} (hs : s ≠ .completed) :
    (mergeState now2 (some (mergeState now1 none (buildStateRow date (fun _ => none) m s n)))
      (buildStateRow date info' m' s' n')).Same
      (mergeState now none (buildStateRow date (fun _ => none) m' s' (n + n' + 1))) ↔ SameOrigin date m m' := by
  have hcount : n + 1 + (n' + 1) = n + n' + 1 + 1 := by omega
  cases s' <;> simp [SagaStateRow.Same, mergeState, buildStateRow, hs, SameOrigin, hcount]

/-- The clock does not show in the columns that are compared. -/
theorem same_stateAfter (now1 now2 : Time) (stored : Option (SagaStateRow Time)) (ms : List PreparedMessage) :
    Option.Rel SagaStateRow.Same (stateAfter date now1 stored ms) (stateAfter date now2 stored ms) := by
  unfold stateAfter
  generalize rowAfter date _ none _ _ = derived
  cases derived with
  | none =>
    cases stored with
    | none => exact .none
    | some row => exact .some rfl
  | some r =>
    cases stored with
    | none => exact .some rfl
    | some row => exact .some rfl

theorem exists_last {l : List PreparedMessage} {e : PreparedMessage} {es : List PreparedMessage} (h : l = e :: es) :
    ∃ m, l.getLast? = some m := ⟨_, List.getLast?_eq_some_getLast (by rw [h]; simp)⟩

/-- Both batches have unguarded messages of the saga. -/
theorem same_append_of_last {now1 now2 : Time} {stored : Option (SagaStateRow Time)} {ms ms' : List PreparedMessage}
    {m m' : PreparedMessage} (hm : (unguarded (stored.map (·.status)) ms).getLast? = some m)
    (hm' : (unguarded (statusAfter (stored.map (·.status)) ms) ms').getLast? = some m') :
    Option.Rel SagaStateRow.Same (stateAfter date now2 (stateAfter date now1 stored ms) ms')
      (stateAfter date now stored (ms ++ ms')) ↔ (stored = none → SameOrigin date m m') := by
  obtain ⟨s, hs, h1⟩ := stateAfter_of_last date now1 hm
  have hst := status_stateAfter date now1 stored ms
  have hm2 : (unguarded ((stateAfter date now1 stored ms).map (·.status)) ms').getLast? = some m' := by rw [hst, hm']
  obtain ⟨s', hs', h2⟩ := stateAfter_of_last date now2 hm2
  have hm3 : (unguarded (stored.map (·.status)) (ms ++ ms')).getLast? = some m' := by
    rw [unguarded_append, List.getLast?_append, hm']
    rfl
  obtain ⟨s'', hs'', h3⟩ := stateAfter_of_last date now hm3
  -- the status is the same whether the batch is cut or not
  rw [statusAfter_append, ← hst, hs'] at hs''
  cases hs''
  have hne : s ≠ .completed := by
    rintro rfl
    exact ne_completed_of_last hm' hs
  have hlen : (unguarded (stored.map (·.status)) (ms ++ ms')).length - 1 =
      (unguarded (stored.map (·.status)) ms).length - 1 +
        ((unguarded (statusAfter (stored.map (·.status)) ms) ms').length - 1) + 1 := by
    have hpos := List.length_pos_of_mem (List.mem_of_getLast? hm)
    have hpos' := List.length_pos_of_mem (List.mem_of_getLast? hm')
    rw [unguarded_append, List.length_append]
    omega
  rw [hst, h1] at h2
  rw [h1, h2, h3, Option.rel_some_some, hlen]
  cases stored with
  | none => exact (same_mergeState_none_iff now1 now2 hne).trans (by simp)
  | some row =>
    have hrow : row.status ≠ .completed := fun hc => ne_completed_of_last hm (congrArg some hc)
    exact ⟨fun _ => by simp, fun _ => same_mergeState_some now1 now2 hrow hne⟩

/-- A saga cut in two is left as it is in one batch exactly when it was stored, or its last messages agree. -/
theorem same_append_iff (now1 now2 : Time) (stored : Option (SagaStateRow Time)) (ms ms' : List PreparedMessage) :
    Option.Rel SagaStateRow.Same (stateAfter date now2 (stateAfter date now1 stored ms) ms')
      (stateAfter date now stored (ms ++ ms')) ↔
      (stored = none → ∀ m ∈ (unguarded none ms).getLast?, ∀ m' ∈ (unguarded (statusAfter none ms) ms').getLast?,
        SameOrigin date m m') := by
  cases hu : unguarded (stored.map (·.status)) ms with
  | nil =>
    have hone : stateAfter date now stored (ms ++ ms') = stateAfter date now stored ms' := by
      unfold stateAfter
      rw [unguarded_append, statusAfter_append, hu, statusAfter_of_unguarded_nil hu, List.nil_append]
    rw [stateAfter_of_nil hu, hone]
    refine ⟨fun _ => ?_, fun _ => same_stateAfter now2 now stored ms'⟩
    rintro rfl m hm
    have hu' : unguarded none ms = [] := hu
    rw [hu'] at hm
    cases hm
  | cons e es =>
    obtain ⟨m, hm⟩ := exists_last hu
    cases hu' : unguarded (statusAfter (stored.map (·.status)) ms) ms' with
    | nil =>
      have hone : stateAfter date now stored (ms ++ ms') = stateAfter date now stored ms := by
        unfold stateAfter
        rw [unguarded_append, statusAfter_append, hu', statusAfter_of_unguarded_nil hu', List.append_nil]
      rw [stateAfter_of_nil (by rw [status_stateAfter, hu']), hone]
      refine ⟨fun _ => ?_, fun _ => same_stateAfter now1 now stored ms⟩
      rintro rfl m _ m' hm'
      have hu'' : unguarded (statusAfter none ms) ms' = [] := hu'
      rw [hu''] at hm'
      cases hm'
    | cons e' es' =>
      obtain ⟨m', hm'⟩ := exists_last hu'
      rw [same_append_of_last hm hm']
      constructor
      · rintro h rfl x hx x' hx'
        cases Option.some_inj.1 ((show _ = some m from hm).symm.trans hx)
        cases Option.some_inj.1 ((show _ = some m' from hm').symm.trans hx')
        exact h rfl
      · rintro h rfl
        exact h rfl m hm m' hm'

/-! ## The first message that ends a saga -/

theorem nextStatus_eq_completed {s : Option SagaStatus} {m : PreparedMessage} :
    nextStatus s m = .completed ↔ s = some .completed ∨ m.isFinal = true := by
  unfold nextStatus deriveStatus PreparedMessage.isFinal
  generalize m.hint = hint
  rcases s with _ | _ | _ | _ <;> rcases hint with _ | _ | _ | _ | _ <;> decide

theorem statusAfter_eq_completed : ∀ {ms : List PreparedMessage} {s : Option SagaStatus},
    statusAfter s ms = some .completed ↔ s = some .completed ∨ ∃ m ∈ ms, m.isFinal = true
  | [], s => by simp
  | m :: ms, s => by
    rw [statusAfter_cons, statusAfter_eq_completed, Option.some_inj, nextStatus_eq_completed, or_assoc,
      List.exists_mem_cons_iff]

/-- The last unguarded message of a saga that is not completed is the first one that ends it, or the last. -/
theorem getLast?_unguarded : ∀ {ms : List PreparedMessage} {s : Option SagaStatus}, s ≠ some .completed →
    (unguarded s ms).getLast? = lastTaken ms
  | [], _, _ => rfl
  | m :: ms, s, hs => by
    rw [unguarded_cons hs]
    by_cases hf : m.isFinal = true
    · have hc : nextStatus s m = .completed := nextStatus_eq_completed.2 (.inr hf)
      rw [hc, unguarded_completed, lastTaken, List.find?_cons_of_pos hf]
      rfl
    · have hne : some (nextStatus s m) ≠ some .completed := by
        rw [Ne, Option.some_inj, nextStatus_eq_completed]
        simp [hs, hf]
      have ih : (unguarded (some (nextStatus s m)) ms).getLast? = lastTaken ms := getLast?_unguarded hne
      rw [lastTaken, List.find?_cons_of_neg hf]
      cases ms with
      | nil => rfl
      | cons m' ms' =>
        rw [unguarded_cons hne] at ih ⊢
        rw [List.getLast?_cons_cons, List.getLast?_cons_cons]
        exact ih

theorem lastTaken_of_not_final {ms : List PreparedMessage} (h : ∀ m ∈ ms, m.isFinal = false) :
    lastTaken ms = ms.getLast? := by
  have hnone : ms.find? (·.isFinal) = none := List.find?_eq_none.2 fun m hm => by simp [h m hm]
  rw [lastTaken, hnone]
  rfl

/-! ## The cut -/

theorem status_commitBatch (h : ∀ m ∈ ms, m.eventId ∉ db.log) (k : String) :
    (commitBatch date localeCompare now db ms).status k = statusAfter (db.status k) (ofSaga k ms) := by
  unfold Database.status
  rw [lookup_commitBatch h, status_stateAfter]

/-- The messages of the second batch are new to the first. -/
theorem new_commitBatch {b1 b2 : List PreparedMessage} (hid : ((b1 ++ b2).map (·.eventId)).Nodup)
    (hnew : ∀ m ∈ b1 ++ b2, m.eventId ∉ db.log) :
    ∀ m ∈ b2, m.eventId ∉ (commitBatch date localeCompare now db b1).log := by
  intro m hm
  rw [List.map_append, List.nodup_append] at hid
  obtain ⟨hid1, -, hdisj⟩ := hid
  rw [log_commitBatch (fun m hm => hnew m (List.mem_append_left b2 hm)) hid1, ← Finmap.lookup_eq_none,
    lookup_upsertAll_of_notMem, Finmap.lookup_eq_none]
  · exact hnew m (List.mem_append_right b1 hm)
  · rw [map_sagaEventId_logRows]
    exact fun hmem => hdisj _ hmem _ (List.mem_map_of_mem hm) rfl

/-- The log does not show where the messages were cut. -/
theorem log_cut {b1 b2 : List PreparedMessage} (hid : ((b1 ++ b2).map (·.eventId)).Nodup)
    (hnew : ∀ m ∈ b1 ++ b2, m.eventId ∉ db.log) (now1 now2 : Time) :
    (commitBatch date localeCompare now2 (commitBatch date localeCompare now1 db b1) b2).log =
      (commitBatch date localeCompare now db (b1 ++ b2)).log := by
  have hnew1 : ∀ m ∈ b1, m.eventId ∉ db.log := fun m hm => hnew m (List.mem_append_left b2 hm)
  have hids := hid
  rw [List.map_append, List.nodup_append] at hids
  rw [log_commitBatch (new_commitBatch hid hnew) hids.2.1, log_commitBatch hnew1 hids.1, log_commitBatch hnew hid,
    logRows_append, upsertAll_append]
  congr 1
  apply logRows_congr
  intro m _
  exact status_commitBatch hnew1 m.sagaId

/-- The condition on a saga, in terms of the messages that are unguarded and of those that end it. -/
theorem unguarded_agree_iff {ms ms' : List PreparedMessage} :
    (∀ m ∈ (unguarded none ms).getLast?, ∀ m' ∈ (unguarded (statusAfter none ms) ms').getLast?, SameOrigin date m m') ↔
      ((∀ m ∈ ms, m.isFinal = false) → ∀ m ∈ ms.getLast?, ∀ m' ∈ lastTaken ms', SameOrigin date m m') := by
  by_cases hf : ∃ m ∈ ms, m.isFinal = true
  · have hc : statusAfter none ms = some .completed := statusAfter_eq_completed.2 (.inr hf)
    obtain ⟨x, hx, hfx⟩ := hf
    rw [hc, unguarded_completed]
    refine ⟨fun _ hno => ?_, fun _ m _ m' hm' => by cases hm'⟩
    rw [hno x hx] at hfx
    cases hfx
  · have hno : ∀ m ∈ ms, m.isFinal = false := fun m hm => by
      by_contra hm'
      exact hf ⟨m, hm, by simpa using hm'⟩
    have hne : statusAfter none ms ≠ some .completed := fun hc => by
      rcases statusAfter_eq_completed.1 hc with hc | hc
      · cases hc
      · exact hf hc
    rw [getLast?_unguarded hne, getLast?_unguarded (by simp), lastTaken_of_not_final hno]
    exact ⟨fun h _ => h, fun h => h hno⟩

/-- Where all transactions commit the cut does not show, if and only if the last messages of the sagas that the
first batch inserts and does not end agree with those of the second in what an inserted row takes. -/
theorem commit_cut_iff {b1 b2 : List PreparedMessage} (hid : ((b1 ++ b2).map (·.eventId)).Nodup)
    (hnew : ∀ m ∈ b1 ++ b2, m.eventId ∉ db.log) (now1 now2 : Time) :
    (commitBatch date localeCompare now2 (commitBatch date localeCompare now1 db b1) b2).Same
      (commitBatch date localeCompare now db (b1 ++ b2)) ↔ CutAgrees date db b1 b2 := by
  have hnew1 : ∀ m ∈ b1, m.eventId ∉ db.log := fun m hm => hnew m (List.mem_append_left b2 hm)
  have hk : ∀ k, Option.Rel SagaStateRow.Same
      ((commitBatch date localeCompare now2 (commitBatch date localeCompare now1 db b1) b2).states.lookup k)
      ((commitBatch date localeCompare now db (b1 ++ b2)).states.lookup k) ↔
      (db.states.lookup k = none → (∀ m ∈ ofSaga k b1, m.isFinal = false) →
        ∀ m ∈ (ofSaga k b1).getLast?, ∀ m' ∈ lastTaken (ofSaga k b2), SameOrigin date m m') := by
    intro k
    rw [lookup_commitBatch (new_commitBatch hid hnew), lookup_commitBatch hnew1, lookup_commitBatch hnew,
      ofSaga_append, same_append_iff, unguarded_agree_iff]
  constructor
  · rintro ⟨-, h⟩ k - hnone
    exact (hk k).1 (h k) hnone
  · intro h
    refine ⟨log_cut hid hnew now1 now2, fun k => (hk k).2 fun hnone hno m hm => ?_⟩
    obtain ⟨hmem, hmk⟩ := mem_ofSaga.1 (List.mem_of_getLast? hm)
    exact h k (List.mem_map.2 ⟨m, hmem, hmk⟩) hnone hno m hm

variable {columns : Columns}

theorem take_iff_of_new (h : ∀ m ∈ ms, m.eventId ∉ db.log) : columns.Take db ms ↔ ∀ m ∈ ms, columns.takes m := by
  unfold Columns.Take
  rw [dedupe_of_new h]

/-- New messages that are committed are in the log. -/
theorem log_commitBatch_ne (h : ∀ m ∈ ms, m.eventId ∉ db.log) (hn : (ms.map (·.eventId)).Nodup) (hms : ms ≠ []) :
    (commitBatch date localeCompare now db ms).log ≠ db.log := by
  obtain ⟨m, rest, rfl⟩ := List.exists_cons_of_ne_nil hms
  intro heq
  apply h m (.head _)
  rw [← heq, log_commitBatch h hn, mem_insertAll, map_sagaEventId_logRows]
  exact .inr (.head _)

theorem Database.Same.refl (db : Database Time) : db.Same db := by
  refine ⟨rfl, fun k => ?_⟩
  cases db.states.lookup k with
  | none => exact .none
  | some row => exact .some rfl

/-- Messages with new, distinct event ids leave the same log and the same states whether they are processed in one
batch or in two, if and only if a batch is empty or both have a message that the columns refuse or neither does,
and, where none is refused, the last messages of the sagas that the first batch inserts and does not end agree with
those of the second in what an inserted row takes. -/
theorem cut_invisible_iff (columns : Columns) {b1 b2 : List PreparedMessage} (hid : ((b1 ++ b2).map (·.eventId)).Nodup)
    (hnew : ∀ m ∈ b1 ++ b2, m.eventId ∉ db.log) (now1 now2 : Time) :
    (processBatch date localeCompare columns now2 (processBatch date localeCompare columns now1 db b1) b2).Same
      (processBatch date localeCompare columns now db (b1 ++ b2)) ↔
        (b1 = [] ∨ b2 = [] ∨ ((∀ m ∈ b1, columns.takes m) ↔ ∀ m ∈ b2, columns.takes m)) ∧
          ((∀ m ∈ b1 ++ b2, columns.takes m) → CutAgrees date db b1 b2) := by
  have hnew1 : ∀ m ∈ b1, m.eventId ∉ db.log := fun m hm => hnew m (List.mem_append_left b2 hm)
  have hnew2 : ∀ m ∈ b2, m.eventId ∉ db.log := fun m hm => hnew m (List.mem_append_right b1 hm)
  have hids := hid
  rw [List.map_append, List.nodup_append] at hids
  have hboth : (∀ m ∈ b1 ++ b2, columns.takes m) ↔ (∀ m ∈ b1, columns.takes m) ∧ ∀ m ∈ b2, columns.takes m :=
    List.forall_mem_append
  by_cases h1 : ∀ m ∈ b1, columns.takes m
  · have hp1 : processBatch date localeCompare columns now1 db b1 = commitBatch date localeCompare now1 db b1 :=
      if_pos ((take_iff_of_new hnew1).2 h1)
    by_cases h2 : ∀ m ∈ b2, columns.takes m
    · have hp2 : processBatch date localeCompare columns now2 (commitBatch date localeCompare now1 db b1) b2 =
          commitBatch date localeCompare now2 (commitBatch date localeCompare now1 db b1) b2 :=
        if_pos ((take_iff_of_new (new_commitBatch hid hnew)).2 h2)
      have hp : processBatch date localeCompare columns now db (b1 ++ b2) =
          commitBatch date localeCompare now db (b1 ++ b2) := if_pos ((take_iff_of_new hnew).2 (hboth.2 ⟨h1, h2⟩))
      rw [hp1, hp2, hp, commit_cut_iff hid hnew now1 now2]
      exact ⟨fun h => ⟨.inr (.inr (iff_of_true h1 h2)), fun _ => h⟩, fun h => h.2 (hboth.2 ⟨h1, h2⟩)⟩
    · -- the second batch is lost, and in one batch the first one too
      have hp2 : processBatch date localeCompare columns now2 (commitBatch date localeCompare now1 db b1) b2 =
          commitBatch date localeCompare now1 db b1 := if_neg fun h => h2 ((take_iff_of_new (new_commitBatch hid hnew)).1 h)
      have hp : processBatch date localeCompare columns now db (b1 ++ b2) = db :=
        if_neg fun h => h2 (hboth.1 ((take_iff_of_new hnew).1 h)).2
      rw [hp1, hp2, hp]
      constructor
      · intro h
        refine ⟨.inl ?_, fun h => absurd (hboth.1 h).2 h2⟩
        by_contra hne
        exact log_commitBatch_ne hnew1 hids.1 hne h.1
      · rintro ⟨rfl | rfl | h, -⟩
        · exact Database.Same.refl db
        · exact absurd (by simp) h2
        · exact absurd (h.1 h1) h2
  · have hp1 : processBatch date localeCompare columns now1 db b1 = db :=
      if_neg fun h => h1 ((take_iff_of_new hnew1).1 h)
    have hp : processBatch date localeCompare columns now db (b1 ++ b2) = db :=
      if_neg fun h => h1 (hboth.1 ((take_iff_of_new hnew).1 h)).1
    rw [hp1, hp]
    by_cases h2 : ∀ m ∈ b2, columns.takes m
    · -- the second batch is stored, unless the first one is in it
      have hp2 : processBatch date localeCompare columns now2 db b2 = commitBatch date localeCompare now2 db b2 :=
        if_pos ((take_iff_of_new hnew2).2 h2)
      rw [hp2]
      constructor
      · intro h
        refine ⟨.inr (.inl ?_), fun h => absurd (hboth.1 h).1 h1⟩
        by_contra hne
        exact log_commitBatch_ne hnew2 hids.2.1 hne h.1
      · rintro ⟨rfl | rfl | h, -⟩
        · exact absurd (by simp) h1
        · exact Database.Same.refl db
        · exact absurd (h.2 h2) h1
    · have hp2 : processBatch date localeCompare columns now2 db b2 = db :=
        if_neg fun h => h2 ((take_iff_of_new hnew2).1 h)
      rw [hp2]
      exact iff_of_true (Database.Same.refl db)
        ⟨.inr (.inr (iff_of_false h1 h2)), fun h => absurd (hboth.1 h).1 h1⟩

end Batch

/-! ## A start that depends on the cut -/

/-- The first two events of a saga. -/
def firstEvent : PreparedMessage := .sample "e1" "order.created" none "2024-01-01T00:00:00.000Z"

def secondEvent : PreparedMessage := .sample "e2" "order.reserved" none "2024-01-01T00:00:05.000Z"

theorem Database.Same.startedAt {db db' : Database Time} (h : db.Same db') (k : String) :
    (db.states.lookup k).map (·.startedAt) = (db'.states.lookup k).map (·.startedAt) := by
  have hk := h.2 k
  generalize db.states.lookup k = row at hk
  generalize db'.states.lookup k = row' at hk
  cases hk with
  | none => rfl
  | some hrow =>
    unfold SagaStateRow.Same at hrow
    rw [← hrow]
    rfl

/-- In two batches the saga starts with its first event, in one with its second. -/
theorem cut_shows :
    ¬ ∀ (db : Database String) (b1 b2 : List PreparedMessage), ((b1 ++ b2).map (·.eventId)).Nodup →
      (∀ m ∈ b1 ++ b2, m.eventId ∉ db.log) →
        (processBatch id compareText .sample "t" (processBatch id compareText .sample "t" db b1) b2).Same
          (processBatch id compareText .sample "t" db (b1 ++ b2)) := by
  intro hall
  have h := (hall ⟨∅, ∅⟩ [firstEvent] [secondEvent] (by decide) (by decide +kernel)).startedAt "saga-1"
  have h2 : ((processBatch id compareText .sample "t" (processBatch id compareText .sample "t" ⟨∅, ∅⟩ [firstEvent])
      [secondEvent]).states.lookup "saga-1").map (·.startedAt) = some "2024-01-01T00:00:00.000Z" := by decide +kernel
  have h1 : ((processBatch id compareText .sample "t" ⟨∅, ∅⟩ ([firstEvent] ++ [secondEvent])).states.lookup "saga-1").map
      (·.startedAt) = some "2024-01-01T00:00:05.000Z" := by decide +kernel
  rw [h2, h1] at h
  exact absurd h (by decide)

/-- The events of a saga that is stored, after its first. -/
def thirdEvent : PreparedMessage := .sample "e3" "order.cancelled" (some .compensation) "2024-01-01T00:00:09.000Z"

theorem cut_invisible_when_stored :
    (processBatch id compareText .sample "t" (processBatch id compareText .sample "t"
      (processBatch id compareText .sample "t" ⟨∅, ∅⟩ [firstEvent]) [secondEvent]) [thirdEvent]).Same
      (processBatch id compareText .sample "t" (processBatch id compareText .sample "t" ⟨∅, ∅⟩ [firstEvent])
        ([secondEvent] ++ [thirdEvent])) := by
  refine (cut_invisible_iff .sample (by decide) (by decide +kernel) "t" "t").2
    ⟨.inr (.inr (iff_of_true (by decide) (by decide))), fun _ k hk hnone => ?_⟩
  have hstored : ((processBatch id compareText .sample "t" ⟨∅, ∅⟩ [firstEvent]).states.lookup "saga-1").isSome = true := by
    decide +kernel
  have hsaga : k = "saga-1" := List.mem_singleton.1 hk
  rw [← hsaga, hnone] at hstored
  cases hstored

end Saga.Monitor
