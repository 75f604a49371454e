/-
What `DeriveChangesCommand` derives from a batch, read off its output alone: a log row for each message in
order, which chain from status to status within each saga, and a state row for each saga with a message that
no completed status guards. The foreign key of the log holds, and the counters add up.
-/
import SagaProofs.Monitor.Redelivery

namespace Saga.Monitor

open Keyed

variable {Time : Type} {date : String → Time} {now : Time} {stateMap : StateMap Time}

/-! ## A faithful fold -/

/-- The log rows of a saga. -/
def DeriveChanges.rowsOf (out : DeriveChanges Time) (k : String) : List (BulkInsertEventLogData Time) :=
  out.eventLogs.filter (·.sagaId = k)

/-- Those of its messages that are not guarded. -/
def DeriveChanges.unguardedRows (out : DeriveChanges Time) (k : String) : List (BulkInsertEventLogData Time) :=
  (out.rowsOf k).filter (·.statusBefore ≠ some .completed)

structure FaithfulFold (date : String → Time) (stateMap : StateMap Time) (ms : List PreparedMessage)
    (out : DeriveChanges Time) : Prop where
  /-- One log row for each message, in their order, made of the message and two statuses. -/
  rows : List.Forall₂ (fun m row => row = buildEventLogRow date m row.statusBefore row.statusAfter) ms out.eventLogs
  derived : ∀ row ∈ out.eventLogs, row.statusBefore ≠ some .completed →
    row.statusAfter = deriveStatus row.sagaEventHint row.statusBefore
  first : ∀ k row, (out.rowsOf k).head? = some row → row.statusBefore = statusIn stateMap k
  chain : ∀ k, (out.rowsOf k).IsChain fun row next => next.statusBefore = some row.statusAfter
  completed : ∀ k, (out.rowsOf k).Pairwise fun row later => row.statusAfter = .completed →
    later.statusBefore = some .completed ∧ later.statusAfter = .completed
  oneRow : (out.sagaStates.map (·.sagaId)).Nodup
  states : ∀ k, k ∈ out.sagaStates.map (·.sagaId) ↔ out.unguardedRows k ≠ []
  counted : ∀ r ∈ out.sagaStates, r.eventCountIncrement = (out.unguardedRows r.sagaId).length ∧
    (out.unguardedRows r.sagaId).getLast?.map (·.statusAfter) = some r.status
  total : out.processed + out.completedGuard = ms.length
  increments : (out.sagaStates.map (·.eventCountIncrement)).sum = out.processed
  foreignKey : ∀ row ∈ out.eventLogs, (stateMap row.sagaId).isSome ∨ row.sagaId ∈ out.sagaStates.map (·.sagaId)

/-! ## The log rows of one saga -/

/-- The log rows of the messages of one saga, over its status. -/
def sagaRows (date : String → Time) : Option SagaStatus → List PreparedMessage → List (BulkInsertEventLogData Time)
  | _, [] => []
  | s, m :: ms => buildEventLogRow date m s (nextStatus s m) :: sagaRows date (some (nextStatus s m)) ms

theorem logRows_eq_sagaRows {k : String} : ∀ {ms : List PreparedMessage} {status : String → Option SagaStatus},
    (∀ m ∈ ms, m.sagaId = k) → logRows date status ms = sagaRows date (status k) ms
  | [], _, _ => rfl
  | m :: ms, status, h => by
    obtain ⟨hm, hms⟩ := List.forall_mem_cons.1 h
    subst hm
    rw [logRows, sagaRows, logRows_eq_sagaRows hms, Function.update_self]

theorem rowsOf_deriveChanges (ms : List PreparedMessage) (k : String) :
    (deriveChanges date now stateMap ms).rowsOf k = sagaRows date (statusIn stateMap k) (ofSaga k ms) := by
  unfold DeriveChanges.rowsOf
  rw [eventLogs_deriveChanges, filter_logRows_ofSaga, logRows_eq_sagaRows fun m hm => (mem_ofSaga.1 hm).2]

theorem head_sagaRows {s : Option SagaStatus} {ms : List PreparedMessage} {row : BulkInsertEventLogData Time}
    (h : (sagaRows date s ms).head? = some row) : row.statusBefore = s := by
  cases ms with
  | nil => cases h
  | cons m ms =>
    cases h
    rfl

theorem isChain_sagaRows : ∀ (s : Option SagaStatus) (ms : List PreparedMessage),
    (sagaRows date s ms).IsChain fun row next => next.statusBefore = some row.statusAfter
  | _, [] => .nil
  | s, m :: ms => by
    rw [sagaRows, List.isChain_cons]
    refine ⟨fun row hrow => ?_, isChain_sagaRows _ ms⟩
    exact head_sagaRows hrow

/-- A completed saga stays completed. -/
theorem sagaRows_completed : ∀ {ms : List PreparedMessage}, ∀ row ∈ sagaRows date (some .completed) ms,
    row.statusBefore = some .completed ∧ row.statusAfter = .completed
  | [], row, h => by cases h
  | m :: ms, row, h => by
    rcases List.mem_cons.1 h with rfl | h
    · exact ⟨rfl, rfl⟩
    · exact sagaRows_completed row h

theorem pairwise_sagaRows : ∀ (s : Option SagaStatus) (ms : List PreparedMessage),
    (sagaRows date s ms).Pairwise fun row later => row.statusAfter = .completed →
      later.statusBefore = some .completed ∧ later.statusAfter = .completed
  | _, [] => .nil
  | s, m :: ms => by
    rw [sagaRows, List.pairwise_cons]
    refine ⟨fun row hrow hc => ?_, pairwise_sagaRows _ ms⟩
    have hnext : nextStatus s m = .completed := hc
    rw [hnext] at hrow
    exact sagaRows_completed row hrow

theorem derived_sagaRows : ∀ {ms : List PreparedMessage} {s : Option SagaStatus}, ∀ row ∈ sagaRows date s ms,
    row.statusBefore ≠ some .completed → row.statusAfter = deriveStatus row.sagaEventHint row.statusBefore
  | [], _, row, h, _ => by cases h
  | m :: ms, s, row, h, hs => by
    rcases List.mem_cons.1 h with rfl | h
    · exact nextStatus_of_ne hs m
    · exact derived_sagaRows row h hs

/-- The rows that no completed status guards are those of the messages before it. -/
theorem filter_sagaRows : ∀ (s : Option SagaStatus) (ms : List PreparedMessage),
    (sagaRows date s ms).filter (·.statusBefore ≠ some .completed) = sagaRows date s (unguarded s ms)
  | _, [] => rfl
  | s, m :: ms => by
    by_cases hs : s = some .completed
    · subst hs
      rw [unguarded_completed, sagaRows, List.filter_eq_nil_iff]
      intro row hrow
      simp [(sagaRows_completed row hrow).1]
    · rw [unguarded_cons hs, sagaRows, sagaRows, ← filter_sagaRows]
      exact List.filter_cons_of_pos (decide_eq_true hs)

theorem length_sagaRows : ∀ (s : Option SagaStatus) (ms : List PreparedMessage),
    (sagaRows date s ms).length = ms.length
  | _, [] => rfl
  | s, m :: ms => congrArg (· + 1) (length_sagaRows (some (nextStatus s m)) ms)

theorem getLast_sagaRows : ∀ {ms : List PreparedMessage} {s s' : Option SagaStatus}, ms ≠ [] → statusAfter s ms = s' →
    (sagaRows date s ms).getLast?.map (·.statusAfter) = s'
  | [], _, _, h, _ => absurd rfl h
  | [m], s, s', _, h => h
  | m :: m' :: ms, s, s', _, h => by
    rw [sagaRows, sagaRows, List.getLast?_cons_cons, ← sagaRows]
    exact getLast_sagaRows (List.cons_ne_nil m' ms) h

theorem unguardedRows_deriveChanges (ms : List PreparedMessage) (k : String) :
    (deriveChanges date now stateMap ms).unguardedRows k =
      sagaRows date (statusIn stateMap k) (unguarded (statusIn stateMap k) (ofSaga k ms)) := by
  unfold DeriveChanges.unguardedRows
  rw [rowsOf_deriveChanges, filter_sagaRows]

/-! ## The state rows and the counters -/

/-- A saga has a state row exactly when one of its messages is not guarded. -/
theorem mem_sagaStates_ids {ms : List PreparedMessage} {k : String} :
    k ∈ (deriveChanges date now stateMap ms).sagaStates.map (·.sagaId) ↔
      unguarded (statusIn stateMap k) (ofSaga k ms) ≠ [] := by
  rw [List.mem_map]
  constructor
  · rintro ⟨r, hr, rfl⟩ hnil
    have hlookup := mem_sagaStates_iff.1 hr
    rw [lookup_sagaStatesMap] at hlookup
    obtain ⟨m, s, hm, -, -⟩ := exists_of_rowAfter hlookup
    rw [hnil] at hm
    cases hm
  · intro hne
    obtain ⟨m, hm⟩ := List.exists_mem_of_ne_nil _ hne
    obtain ⟨hmem, hk⟩ := mem_ofSaga.1 (mem_of_mem_unguarded hm)
    have hs : statusIn stateMap m.sagaId ≠ some .completed := by
      rw [hk]
      intro hs
      rw [hs, unguarded_completed] at hne
      exact hne rfl
    have hrow : ∃ r, (deriveChanges date now stateMap ms).sagaStatesMap.lookup m.sagaId = some r := exists_row hmem hs
    obtain ⟨r, hr⟩ := hrow
    have hid : r.sagaId = m.sagaId := sagaId_of_lookup hr
    rw [← hid] at hr
    exact ⟨r, mem_sagaStates_iff.2 hr, hid.trans hk⟩

/-- The state row counts the messages that are not guarded and has the status after them. -/
theorem counted_of_mem {ms : List PreparedMessage} {r : BulkUpsertStateData Time}
    (h : r ∈ (deriveChanges date now stateMap ms).sagaStates) :
    r.eventCountIncrement = (unguarded (statusIn stateMap r.sagaId) (ofSaga r.sagaId ms)).length ∧
      statusAfter (statusIn stateMap r.sagaId) (ofSaga r.sagaId ms) = some r.status := by
  have hlookup := mem_sagaStates_iff.1 h
  rw [lookup_sagaStatesMap] at hlookup
  obtain ⟨m, s, hm, hs, hr⟩ := exists_of_rowAfter hlookup
  have hcount : r.eventCountIncrement = (unguarded (statusIn stateMap r.sagaId) (ofSaga r.sagaId ms)).length - 1 + 1 :=
    congrArg BulkUpsertStateData.eventCountIncrement hr
  have hstatus : r.status = s := congrArg BulkUpsertStateData.status hr
  have hpos : 0 < (unguarded (statusIn stateMap r.sagaId) (ofSaga r.sagaId ms)).length :=
    List.length_pos_of_mem (List.mem_of_getLast? hm)
  rw [hs, hstatus]
  exact ⟨by omega, rfl⟩

/-- The status after the unguarded messages is the status after all. -/
theorem statusAfter_unguarded : ∀ (s : Option SagaStatus) (ms : List PreparedMessage),
    statusAfter s (unguarded s ms) = statusAfter s ms
  | _, [] => rfl
  | s, m :: ms => by
    by_cases hs : s = some .completed
    · subst hs
      rw [unguarded_completed, statusAfter_nil, statusAfter_completed]
    · rw [unguarded_cons hs, statusAfter_cons, statusAfter_cons, statusAfter_unguarded]

/-- The counters after some messages: each message is counted once, and the increments are those processed. -/
structure Tallied (n : ℕ) (d : DeriveChanges Time) : Prop where
  total : d.processed + d.completedGuard = n
  increments : (d.sagaStates.map (·.eventCountIncrement)).sum = d.processed

section Tally

variable (date now stateMap)

theorem Tallied.step {n : ℕ} {d : DeriveChanges Time} (h : Tallied n d) (m : PreparedMessage) :
    Tallied (n + 1) (deriveMessage date now stateMap d m) := by
  obtain ⟨htotal, hsum⟩ := h
  by_cases hc : d.currentStatus stateMap m.sagaId = some .completed
  · rw [deriveMessage_guarded hc]
    exact ⟨by dsimp only; omega, hsum⟩
  · rw [deriveMessage_taken hc]
    refine ⟨by dsimp only; omega, ?_⟩
    have hinsert := sum_insert (fun r => r.eventCountIncrement) d.sagaStatesMap m.sagaId
      (buildStateRow date stateMap m (nextStatus (d.currentStatus stateMap m.sagaId) m) (d.existing m.sagaId))
    have hrow : (buildStateRow date stateMap m (nextStatus (d.currentStatus stateMap m.sagaId) m)
        (d.existing m.sagaId)).eventCountIncrement =
          ((d.sagaStatesMap.lookup m.sagaId).map (·.eventCountIncrement)).getD 0 + 1 := rfl
    rw [hrow] at hinsert
    unfold DeriveChanges.sagaStates at hsum ⊢
    rw [List.map_map] at hsum ⊢
    simp only [Function.comp_def] at hsum ⊢
    omega

theorem tallied_foldl : ∀ (ms : List PreparedMessage) {n : ℕ} {d : DeriveChanges Time}, Tallied n d →
    Tallied (n + ms.length) (ms.foldl (deriveMessage date now stateMap) d)
  | [], _, _, h => h
  | m :: ms, n, d, h => by
    have ih := tallied_foldl ms (h.step date now stateMap m)
    rw [List.foldl_cons, List.length_cons, Nat.add_comm ms.length, ← Nat.add_assoc]
    exact ih

theorem tallied_deriveChanges (ms : List PreparedMessage) :
    Tallied ms.length (deriveChanges date now stateMap ms) := by
  have hempty : Tallied 0 (.empty : DeriveChanges Time) := ⟨rfl, rfl⟩
  have h := tallied_foldl date now stateMap ms hempty
  rwa [Nat.zero_add] at h

end Tally

/-! ## The whole batch -/

theorem forall₂_logRows : ∀ (ms : List PreparedMessage) (status : String → Option SagaStatus),
    List.Forall₂ (fun m row => row = buildEventLogRow date m row.statusBefore row.statusAfter) ms
      (logRows date status ms)
  | [], _ => .nil
  | _ :: ms, _ => .cons rfl (forall₂_logRows ms _)

/-- A row of the log is one of the rows of its saga. -/
theorem mem_rowsOf {out : DeriveChanges Time} {row : BulkInsertEventLogData Time} (h : row ∈ out.eventLogs) :
    row ∈ out.rowsOf row.sagaId := List.mem_filter.2 ⟨h, decide_eq_true rfl⟩

/-- Whatever the messages and the states that were looked up, the derivation is a faithful fold. -/
theorem deriveChanges_faithful (date : String → Time) (now : Time) (stateMap : StateMap Time)
    (ms : List PreparedMessage) : FaithfulFold date stateMap ms (deriveChanges date now stateMap ms) := by
  have htally := tallied_deriveChanges date now stateMap ms
  refine
    { rows := ?_
      derived := fun row hrow => ?_
      first := fun k row => ?_
      chain := fun k => ?_
      completed := fun k => ?_
      oneRow := nodup_sagaStates ms
      states := fun k => ?_
      counted := fun r hr => ?_
      total := htally.total
      increments := htally.increments
      foreignKey := fun row hrow => ?_ }
  · rw [eventLogs_deriveChanges]
    exact forall₂_logRows ms _
  · have hmem := mem_rowsOf hrow
    rw [rowsOf_deriveChanges] at hmem
    exact derived_sagaRows row hmem
  · rw [rowsOf_deriveChanges]
    exact head_sagaRows
  · rw [rowsOf_deriveChanges]
    exact isChain_sagaRows _ _
  · rw [rowsOf_deriveChanges]
    exact pairwise_sagaRows _ _
  · rw [mem_sagaStates_ids, unguardedRows_deriveChanges, ← List.length_pos_iff, ← List.length_pos_iff, length_sagaRows]
  · obtain ⟨hcount, hstatus⟩ := counted_of_mem hr
    have hne := mem_sagaStates_ids.1 (List.mem_map_of_mem hr)
    rw [unguardedRows_deriveChanges, length_sagaRows]
    exact ⟨hcount, getLast_sagaRows hne ((statusAfter_unguarded _ _).trans hstatus)⟩
  · rw [eventLogs_deriveChanges] at hrow
    obtain ⟨m, hm, hid, -⟩ := mem_logRows hrow
    rw [hid]
    cases hs : stateMap m.sagaId with
    | some info => exact .inl rfl
    | none =>
      -- no state was looked up, so the first message of the saga is not guarded
      have hne : statusIn stateMap m.sagaId ≠ some .completed := by
        unfold statusIn
        rw [hs]
        simp
      have hlookup : ∃ r, (deriveChanges date now stateMap ms).sagaStatesMap.lookup m.sagaId = some r :=
        exists_row hm hne
      obtain ⟨r, hr⟩ := hlookup
      have hrid : r.sagaId = m.sagaId := sagaId_of_lookup hr
      rw [← hrid] at hr ⊢
      exact .inr (List.mem_map_of_mem (mem_sagaStates_iff.2 hr))

end Saga.Monitor
