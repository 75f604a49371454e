/-
What `DeriveChangesCommand` derives, saga by saga: the status of a saga after its messages of a batch,
the messages that are not guarded by a completed status, the row of the saga and the log rows. A saga
sees its own messages only, so each is a fold over those.
-/
import SagaProofs.Monitor.Projector

namespace Saga.Monitor

open Keyed

variable {Time : Type}

/-! ## The status of a saga -/

/-- The status a message leaves: a completed saga stays completed. -/
def nextStatus (status : Option SagaStatus) (msg : PreparedMessage) : SagaStatus :=
  if status = some .completed then .completed else deriveStatus msg.hint status

/-- The status after the messages of a saga. -/
def statusAfter (status : Option SagaStatus) (ms : List PreparedMessage) : Option SagaStatus :=
  ms.foldl (fun s m => some (nextStatus s m)) status

/-- The messages of a saga up to the one that completes it. -/
def unguarded : Option SagaStatus → List PreparedMessage → List PreparedMessage
  | _, [] => []
  | s, m :: ms => if s = some .completed then [] else m :: unguarded (some (nextStatus s m)) ms

@[simp] theorem statusAfter_nil (s : Option SagaStatus) : statusAfter s [] = s := rfl

@[simp] theorem statusAfter_cons (s : Option SagaStatus) (m : PreparedMessage) (ms : List PreparedMessage) :
    statusAfter s (m :: ms) = statusAfter (some (nextStatus s m)) ms := rfl

theorem statusAfter_append (s : Option SagaStatus) (ms ms' : List PreparedMessage) :
    statusAfter s (ms ++ ms') = statusAfter (statusAfter s ms) ms' := List.foldl_append

@[simp] theorem unguarded_nil (s : Option SagaStatus) : unguarded s [] = [] := rfl

@[simp] theorem nextStatus_completed (m : PreparedMessage) : nextStatus (some .completed) m = .completed := rfl

@[simp] theorem unguarded_completed (ms : List PreparedMessage) : unguarded (some .completed) ms = [] := by
  cases ms <;> rfl

@[simp] theorem statusAfter_completed (ms : List PreparedMessage) :
    statusAfter (some .completed) ms = some .completed := by
  induction ms with
  | nil => rfl
  | cons m ms ih => exact ih

theorem unguarded_cons {s : Option SagaStatus} (hs : s ≠ some .completed) (m : PreparedMessage)
    (ms : List PreparedMessage) : unguarded s (m :: ms) = m :: unguarded (some (nextStatus s m)) ms := if_neg hs

theorem unguarded_append : ∀ (s : Option SagaStatus) (ms ms' : List PreparedMessage),
    unguarded s (ms ++ ms') = unguarded s ms ++ unguarded (statusAfter s ms) ms'
  | _, [], _ => rfl
  | s, m :: ms, ms' => by
    by_cases hs : s = some .completed
    · subst hs
      simp
    · rw [List.cons_append, unguarded_cons hs, unguarded_cons hs, unguarded_append, statusAfter_cons, List.cons_append]

/-- Without an unguarded message the status is what it was. -/
theorem statusAfter_of_unguarded_nil {s : Option SagaStatus} {ms : List PreparedMessage} (h : unguarded s ms = []) :
    statusAfter s ms = s := by
  cases ms with
  | nil => rfl
  | cons m ms =>
    by_cases hs : s = some .completed
    · subst hs
      simp
    · rw [unguarded_cons hs] at h
      cases h

/-- Where the saga is not completed in the end no message was guarded. -/
theorem unguarded_of_ne : ∀ {s : Option SagaStatus} {ms : List PreparedMessage}, statusAfter s ms ≠ some .completed →
    unguarded s ms = ms
  | _, [], _ => rfl
  | s, m :: ms, h => by
    have hs : s ≠ some .completed := by
      rintro rfl
      exact h (statusAfter_completed (m :: ms))
    have ih : unguarded (some (nextStatus s m)) ms = ms := unguarded_of_ne h
    rw [unguarded_cons hs, ih]

theorem nextStatus_of_ne {s : Option SagaStatus} (hs : s ≠ some .completed) (m : PreparedMessage) :
    nextStatus s m = deriveStatus m.hint s := if_neg hs

/-! ## The row of a saga -/

section Derive

variable {date : String → Time} {now : Time} {stateMap : StateMap Time}

/-- What a batch has derived for a saga so far. -/
structure SagaView (Time : Type) where
  status : Option SagaStatus
  row : Option (BulkUpsertStateData Time)

def DeriveChanges.view (stateMap : StateMap Time) (k : String) (d : DeriveChanges Time) : SagaView Time :=
  ⟨d.currentStatus stateMap k, d.sagaStatesMap.lookup k⟩

/-- The messages counted in a row. -/
def counted (row : Option (BulkUpsertStateData Time)) : ℕ := (row.map (·.eventCountIncrement)).getD 0

/-- The view after a message of the saga. -/
def SagaView.take (date : String → Time) (stateMap : StateMap Time) (v : SagaView Time)
    (msg : PreparedMessage) : SagaView Time :=
  if v.status = some .completed then v
  else
    let newStatus := nextStatus v.status msg
    ⟨some newStatus, some (buildStateRow date stateMap msg newStatus (counted v.row))⟩

/-- A message of a completed saga is logged and changes nothing else. -/
theorem deriveMessage_guarded {d : DeriveChanges Time} {msg : PreparedMessage}
    (h : d.currentStatus stateMap msg.sagaId = some .completed) :
    deriveMessage date now stateMap d msg =
      { d with
        eventLogs := d.eventLogs ++ [buildEventLogRow date msg (some .completed) .completed]
        completedGuard := d.completedGuard + 1 } := if_pos h

theorem deriveMessage_taken {d : DeriveChanges Time} {msg : PreparedMessage}
    (h : d.currentStatus stateMap msg.sagaId ≠ some .completed) :
    deriveMessage date now stateMap d msg =
      let newStatus := nextStatus (d.currentStatus stateMap msg.sagaId) msg
      { eventLogs := d.eventLogs ++ [buildEventLogRow date msg (d.currentStatus stateMap msg.sagaId) newStatus]
        sagaStatesMap :=
          d.sagaStatesMap.insert msg.sagaId (buildStateRow date stateMap msg newStatus (d.existing msg.sagaId))
        sagaUpdates := d.sagaUpdates ++ [buildUpdate date now stateMap msg newStatus (d.existing msg.sagaId)]
        inBatchStatus := d.inBatchStatus.insert msg.sagaId newStatus
        completedGuard := d.completedGuard
        processed := d.processed + 1 } := by
  rw [nextStatus_of_ne h]
  exact if_neg h

theorem view_deriveMessage (d : DeriveChanges Time) (msg : PreparedMessage) (k : String) :
    (deriveMessage date now stateMap d msg).view stateMap k =
      if msg.sagaId = k then (d.view stateMap k).take date stateMap msg else d.view stateMap k := by
  by_cases hc : d.currentStatus stateMap msg.sagaId = some .completed
  · rw [deriveMessage_guarded hc]
    split
    · rename_i hk
      subst hk
      exact (if_pos hc).symm
    · rfl
  · rw [deriveMessage_taken hc]
    split
    · rename_i hk
      subst hk
      unfold SagaView.take
      rw [if_neg (show (d.view stateMap msg.sagaId).status ≠ _ from hc)]
      unfold DeriveChanges.view DeriveChanges.currentStatus
      rw [AList.lookup_insert, AList.lookup_insert]
      rfl
    · rename_i hk
      unfold DeriveChanges.view DeriveChanges.currentStatus
      rw [AList.lookup_insert_ne (Ne.symm hk), AList.lookup_insert_ne (Ne.symm hk)]

/-- The messages of a saga. -/
def ofSaga (k : String) (ms : List PreparedMessage) : List PreparedMessage := ms.filter (·.sagaId = k)

theorem ofSaga_cons_self (m : PreparedMessage) (ms : List PreparedMessage) :
    ofSaga m.sagaId (m :: ms) = m :: ofSaga m.sagaId ms := List.filter_cons_of_pos (by simp)

theorem ofSaga_cons_of_ne {k : String} {m : PreparedMessage} (h : m.sagaId ≠ k) (ms : List PreparedMessage) :
    ofSaga k (m :: ms) = ofSaga k ms := List.filter_cons_of_neg (by simpa using h)

theorem ofSaga_append (k : String) (ms ms' : List PreparedMessage) :
    ofSaga k (ms ++ ms') = ofSaga k ms ++ ofSaga k ms' := List.filter_append ..

theorem mem_ofSaga {k : String} {m : PreparedMessage} {ms : List PreparedMessage} :
    m ∈ ofSaga k ms ↔ m ∈ ms ∧ m.sagaId = k := by simp [ofSaga]

/-- The row of a saga after its unguarded messages: that of the last one, with all of them counted. -/
def rowAfter (date : String → Time) (stateMap : StateMap Time) (row : Option (BulkUpsertStateData Time))
    (status : Option SagaStatus) (ms : List PreparedMessage) : Option (BulkUpsertStateData Time) :=
  match ms.getLast?, status with
  | some m, some s => some (buildStateRow date stateMap m s (counted row + (ms.length - 1)))
  | _, _ => row

theorem rowAfter_last {row : Option (BulkUpsertStateData Time)} {s : SagaStatus} {ms : List PreparedMessage}
    {m : PreparedMessage} (h : ms.getLast? = some m) :
    rowAfter date stateMap row (some s) ms =
      some (buildStateRow date stateMap m s (counted row + (ms.length - 1))) := by
  unfold rowAfter
  rw [h]

/-- After a message that is not guarded the saga has a status. -/
theorem exists_statusAfter_cons (s : Option SagaStatus) (m : PreparedMessage) (ms : List PreparedMessage) :
    ∃ s', statusAfter s (m :: ms) = some s' := by
  induction ms generalizing s m with
  | nil => exact ⟨_, rfl⟩
  | cons m' ms ih => exact ih (some (nextStatus s m)) m'

theorem take_completed {v : SagaView Time} (h : v.status = some .completed) (msg : PreparedMessage) :
    v.take date stateMap msg = v := if_pos h

theorem take_of_ne {v : SagaView Time} (h : v.status ≠ some .completed) (msg : PreparedMessage) :
    v.take date stateMap msg =
      ⟨some (nextStatus v.status msg),
        some (buildStateRow date stateMap msg (nextStatus v.status msg) (counted v.row))⟩ := if_neg h

theorem status_take (v : SagaView Time) (msg : PreparedMessage) :
    (v.take date stateMap msg).status = some (nextStatus v.status msg) := by
  by_cases hv : v.status = some .completed
  · rw [take_completed hv, hv, nextStatus_completed]
  · rw [take_of_ne hv]

theorem foldl_take (ms : List PreparedMessage) (v : SagaView Time) :
    ms.foldl (SagaView.take date stateMap) v =
      ⟨statusAfter v.status ms, rowAfter date stateMap v.row (statusAfter v.status ms) (unguarded v.status ms)⟩ := by
  induction ms generalizing v with
  | nil => rfl
  | cons m ms ih =>
    rw [List.foldl_cons, ih]
    by_cases hv : v.status = some .completed
    · rw [take_completed hv, hv]
      simp
    · rw [take_of_ne hv, unguarded_cons hv, statusAfter_cons]
      congr 1
      cases hes : unguarded (some (nextStatus v.status m)) ms with
      | nil =>
        -- the message is the last one taken
        have hone : [m].getLast? = some m := rfl
        rw [statusAfter_of_unguarded_nil hes, rowAfter_last hone]
        rfl
      | cons e es =>
        obtain ⟨l, hl⟩ : ∃ l, (e :: es).getLast? = some l := ⟨_, List.getLast?_eq_some_getLast (by simp)⟩
        have hm : ∃ m' ms', ms = m' :: ms' := by
          cases ms with
          | nil => cases hes
          | cons m' ms' => exact ⟨m', ms', rfl⟩
        obtain ⟨m', ms', rfl⟩ := hm
        obtain ⟨s, hs⟩ := exists_statusAfter_cons (some (nextStatus v.status m)) m' ms'
        rw [hs, rowAfter_last hl, rowAfter_last (List.getLast?_cons_cons.trans hl)]
        have hcount : counted (some (buildStateRow date stateMap m (nextStatus v.status m) (counted v.row))) +
            ((e :: es).length - 1) = counted v.row + ((m :: e :: es).length - 1) := by
          simp only [counted, Option.map_some, Option.getD_some, buildStateRow, List.length_cons]
          omega
        rw [hcount]

/-- The status looked up for a saga. -/
def statusIn (stateMap : StateMap Time) (k : String) : Option SagaStatus := (stateMap k).map (·.status)

theorem view_deriveChanges (ms : List PreparedMessage) (k : String) :
    (deriveChanges date now stateMap ms).view stateMap k =
      ⟨statusAfter (statusIn stateMap k) (ofSaga k ms),
        rowAfter date stateMap none (statusAfter (statusIn stateMap k) (ofSaga k ms))
          (unguarded (statusIn stateMap k) (ofSaga k ms))⟩ := by
  unfold deriveChanges
  rw [foldl_at (DeriveChanges.view stateMap k) (fun d msg => view_deriveMessage d msg k)]
  exact foldl_take _ _

/-- The row that a batch derives for a saga. -/
theorem lookup_sagaStatesMap (ms : List PreparedMessage) (k : String) :
    (deriveChanges date now stateMap ms).sagaStatesMap.lookup k =
      rowAfter date stateMap none (statusAfter (statusIn stateMap k) (ofSaga k ms))
        (unguarded (statusIn stateMap k) (ofSaga k ms)) :=
  congrArg SagaView.row (view_deriveChanges ms k)

/-! ## The rows of a batch -/

theorem buildStateRow_congr {stateMap' : StateMap Time} {m : PreparedMessage} {s : SagaStatus} {n : ℕ}
    (h : stateMap m.sagaId = stateMap' m.sagaId) :
    buildStateRow date stateMap m s n = buildStateRow date stateMap' m s n := by
  have h' : stateMap m.parsed.sagaId = stateMap' m.parsed.sagaId := h
  unfold buildStateRow
  rw [h']

theorem rowAfter_congr (stateMap' : StateMap Time) {row : Option (BulkUpsertStateData Time)}
    {s : Option SagaStatus} {ms : List PreparedMessage} (h : ∀ m ∈ ms, stateMap m.sagaId = stateMap' m.sagaId) :
    rowAfter date stateMap row s ms = rowAfter date stateMap' row s ms := by
  unfold rowAfter
  cases hm : ms.getLast? with
  | none => rfl
  | some m =>
    cases s with
    | none => rfl
    | some s => exact congrArg some (buildStateRow_congr (h m (List.mem_of_getLast? hm)))

theorem mem_of_mem_unguarded : ∀ {s : Option SagaStatus} {ms : List PreparedMessage} {m : PreparedMessage},
    m ∈ unguarded s ms → m ∈ ms
  | _, [], _, h => h
  | s, m' :: ms, m, h => by
    by_cases hs : s = some .completed
    · subst hs
      simp at h
    · rw [unguarded_cons hs] at h
      rcases List.mem_cons.1 h with rfl | h
      · exact .head _
      · exact .tail _ (mem_of_mem_unguarded h)

/-- A row that was derived is that of a message. -/
theorem exists_of_rowAfter {s : Option SagaStatus} {ms : List PreparedMessage} {r : BulkUpsertStateData Time}
    (h : rowAfter date stateMap none s ms = some r) :
    ∃ m s', ms.getLast? = some m ∧ s = some s' ∧ r = buildStateRow date stateMap m s' (ms.length - 1) := by
  unfold rowAfter at h
  cases hm : ms.getLast? with
  | none => rw [hm] at h; cases h
  | some m =>
    rw [hm] at h
    cases s with
    | none => cases h
    | some s' =>
      cases h
      exact ⟨m, s', rfl, rfl, by simp [counted]⟩

/-- A saga with a message and no completed status gets a row. -/
theorem exists_row {ms : List PreparedMessage} {m : PreparedMessage} (hm : m ∈ ms)
    (h : statusIn stateMap m.sagaId ≠ some .completed) :
    ∃ r, (deriveChanges date now stateMap ms).sagaStatesMap.lookup m.sagaId = some r := by
  rw [lookup_sagaStatesMap]
  have hmem : m ∈ ofSaga m.sagaId ms := mem_ofSaga.2 ⟨hm, rfl⟩
  obtain ⟨x, xs, hx⟩ := List.exists_cons_of_ne_nil (List.ne_nil_of_mem hmem)
  obtain ⟨s, hs⟩ := exists_statusAfter_cons (statusIn stateMap m.sagaId) x xs
  rw [hx, hs, unguarded_cons h]
  exact ⟨_, rowAfter_last (List.getLast?_eq_some_getLast (by simp))⟩

/-- A saga with a row has a message. -/
theorem exists_mem_of_row {ms : List PreparedMessage} {k : String} {r : BulkUpsertStateData Time}
    (h : (deriveChanges date now stateMap ms).sagaStatesMap.lookup k = some r) : ∃ m ∈ ms, m.sagaId = k := by
  rw [lookup_sagaStatesMap] at h
  obtain ⟨m, s, hm, -, -⟩ := exists_of_rowAfter h
  exact ⟨m, mem_ofSaga.1 (mem_of_mem_unguarded (List.mem_of_getLast? hm))⟩

/-- Each row of `sagaStatesMap` is under the id of its saga. -/
theorem sagaId_of_lookup {ms : List PreparedMessage} {k : String} {r : BulkUpsertStateData Time}
    (h : (deriveChanges date now stateMap ms).sagaStatesMap.lookup k = some r) : r.sagaId = k := by
  rw [lookup_sagaStatesMap] at h
  obtain ⟨m, s, hm, -, rfl⟩ := exists_of_rowAfter h
  exact (mem_ofSaga.1 (mem_of_mem_unguarded (List.mem_of_getLast? hm))).2

theorem mem_sagaStates_iff {ms : List PreparedMessage} {r : BulkUpsertStateData Time} :
    r ∈ (deriveChanges date now stateMap ms).sagaStates ↔
      (deriveChanges date now stateMap ms).sagaStatesMap.lookup r.sagaId = some r := by
  unfold DeriveChanges.sagaStates
  rw [List.mem_map]
  constructor
  · rintro ⟨⟨k, r'⟩, hmem, rfl⟩
    have h := AList.mem_lookup_iff.2 hmem
    have hk : r'.sagaId = k := sagaId_of_lookup h
    rw [hk]
    exact h
  · intro h
    exact ⟨⟨_, r⟩, AList.mem_lookup_iff.1 h, rfl⟩

/-- The rows are of distinct sagas. -/
theorem nodup_sagaStates (ms : List PreparedMessage) :
    ((deriveChanges date now stateMap ms).sagaStates.map (·.sagaId)).Nodup := by
  have hkeys : (deriveChanges date now stateMap ms).sagaStates.map (·.sagaId) =
      (deriveChanges date now stateMap ms).sagaStatesMap.keys := by
    unfold DeriveChanges.sagaStates AList.keys List.keys
    rw [List.map_map]
    apply List.map_congr_left
    rintro ⟨k, r⟩ hmem
    exact sagaId_of_lookup (AList.mem_lookup_iff.2 hmem)
  rw [hkeys]
  exact AList.keys_nodup _

/-- What the transaction leaves of a saga: its derived row, if there is one, merged into the stored one. -/
theorem lookup_persistBatch (localeCompare : String → String → ℤ) (ms : List PreparedMessage) (now' : Time)
    (db : Database Time) (k : String) :
    (persistBatch localeCompare now' (deriveChanges date now stateMap ms).sagaStates
      (deriveChanges date now stateMap ms).eventLogs db).states.lookup k =
      (((deriveChanges date now stateMap ms).sagaStatesMap.lookup k).map (mergeState now' (db.states.lookup k))).or
        (db.states.lookup k) := by
  unfold persistBatch bulkUpsert
  rw [← upsertAll_perm (List.perm_insertionSort _ _).symm (nodup_sagaStates ms)]
  cases hr : (deriveChanges date now stateMap ms).sagaStatesMap.lookup k with
  | some r =>
    have hk : r.sagaId = k := sagaId_of_lookup hr
    subst hk
    exact lookup_upsertAll_of_mem (nodup_sagaStates ms) (mem_sagaStates_iff.2 hr)
  | none =>
    refine lookup_upsertAll_of_notMem fun hmem => ?_
    obtain ⟨r, hmem, hk⟩ := List.mem_map.1 hmem
    rw [← hk, mem_sagaStates_iff.1 hmem] at hr
    cases hr

/-! ## The merge -/

theorem status_mergeState (now : Time) (row : SagaStateRow Time) (r : BulkUpsertStateData Time) :
    (mergeState now (some row) r).status = if row.status = .completed then .completed else r.status := by
  unfold mergeState
  dsimp only
  split
  · assumption
  · split
    · rfl
    · split <;> rfl

/-- Over a row that is not completed the merge takes the derived status. -/
theorem status_mergeState_of_ne {stored : Option (SagaStateRow Time)} (h : stored.map (·.status) ≠ some .completed)
    (r : BulkUpsertStateData Time) : (mergeState now stored r).status = r.status := by
  cases stored with
  | none => rfl
  | some row => rw [status_mergeState, if_neg fun hc => h (congrArg some hc)]

end Derive

end Saga.Monitor
