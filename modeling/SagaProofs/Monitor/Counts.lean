/-
The counts of the sagas under concurrent batches. A batch checks the log before the batches it overlaps with
have written theirs, so an event that two of them have is counted by both and logged once: no count is ever
below what is logged before completion, and it is above as soon as one such event is written. What is logged of a
saga that is completed already counts on neither side.
-/
import SagaProofs.Monitor.Redelivery
import SagaProofs.Monitor.Status

namespace Saga.Monitor

open Keyed Lts

variable {Time : Type} {date : String → Time} {localeCompare : String → String → ℤ} {now now' : Time}
variable {db : Database Time} {stateMap : StateMap Time} {ms : List PreparedMessage}

/-! ## What is to be shown -/

/-- The message does not count in its batch: its saga was looked up as completed, or a message before it
ends it. -/
def GuardedIn (status : String → Option SagaStatus) (before : List PreparedMessage) (m : PreparedMessage) : Prop :=
  status m.sagaId = some .completed ∨ ∃ x ∈ before, x.sagaId = m.sagaId ∧ x.isFinal = true

/-- Each message of a batch whose event is in the log by now, or that repeats one before it, is guarded. -/
def Database.CountsOnce (localeCompare : String → String → ℤ) (db : Database Time) (status : String → Option SagaStatus)
    (ms : List PreparedMessage) : Prop :=
  Justified (fun before m => m.eventId ∈ db.log ∨ m.eventId ∈ before.map (·.eventId) → GuardedIn status before m)
    (inLogOrder localeCompare ms)

/-- A batch that commits counts no event that is logged already. -/
def ProjectorState.CountsOnce (localeCompare : String → String → ℤ) (s : ProjectorState Time) : ProjectorAct Time → Prop
  | .commit i _ => ∀ ms stateMap changes, s.batches[i]? = some (.derived ms stateMap changes) →
      s.db.CountsOnce localeCompare (statusIn stateMap) ms
  | _ => True

/-! ## A commit -/

theorem guardedIn_iff (status : String → Option SagaStatus) (before : List PreparedMessage) (m : PreparedMessage) :
    statusAfter (status m.sagaId) (ofSaga m.sagaId before) = some .completed ↔ GuardedIn status before m := by
  rw [statusAfter_eq_completed]
  simp only [mem_ofSaga, and_assoc]
  rfl

/-- Each row that counts is inserted exactly when each message that has an event of the log or of one before it
is guarded. -/
theorem insertable_logRows_iff (db : Database Time) (status : String → Option SagaStatus) (l : List PreparedMessage) :
    ((∀ row ∈ logRows date status l, row.statusBefore ≠ some .completed → row.sagaEventId ∉ db.log) ∧
      (logRows date status l).Pairwise
        fun row row' => row'.statusBefore ≠ some .completed → row.sagaEventId ≠ row'.sagaEventId) ↔
      Justified (fun before m => m.eventId ∈ db.log ∨ m.eventId ∈ before.map (·.eventId) → GuardedIn status before m) l := by
  induction l using List.reverseRecOn with
  | nil => exact iff_of_true ⟨fun _ h => absurd h List.not_mem_nil, List.Pairwise.nil⟩ (justified_nil _)
  | append_singleton l m ih =>
    have hids : (logRows date status l).map (·.sagaEventId) = l.map (·.eventId) := map_sagaEventId_logRows l _
    rw [justified_snoc_iff, ← ih, logRows_append, List.forall_mem_append, List.pairwise_append, ← guardedIn_iff, ← hids]
    simp only [logRows, List.pairwise_singleton, List.mem_singleton, forall_eq, true_and, List.mem_map]
    constructor
    · rintro ⟨⟨hlog, hlast⟩, hpair, hrepeat⟩
      refine ⟨⟨hlog, hpair⟩, ?_⟩
      rintro (hl | ⟨row, hrow, hid⟩)
      · by_contra hne
        exact hlast hne hl
      · by_contra hne
        exact hrepeat row hrow hne hid
    · rintro ⟨⟨hlog, hpair⟩, hg⟩
      exact ⟨⟨hlog, fun hne hl => hne (hg (.inl hl))⟩, hpair, fun row hrow hne hid => hne (hg (.inr ⟨row, hrow, hid⟩))⟩

variable (date localeCompare now now' db stateMap ms) in
/-- The count of a saga grows by the messages that its batch counts, whatever is stored by now. -/
theorem eventCount_persistBatch (k : String) :
    (persistBatch localeCompare now' (deriveChanges date now stateMap ms).sagaStates
      (deriveChanges date now stateMap ms).eventLogs db).eventCount k =
      db.eventCount k + (unguarded (statusIn stateMap k) (ofSaga k ms)).length := by
  unfold Database.eventCount
  rw [lookup_persistBatch, lookup_sagaStatesMap]
  generalize statusIn stateMap k = status
  generalize ofSaga k ms = ms
  cases hu : unguarded status ms with
  | nil => simp [rowAfter]
  | cons e es =>
    obtain ⟨m, hm⟩ := exists_last hu
    obtain ⟨x, xs, rfl⟩ : ∃ x xs, ms = x :: xs := by
      cases ms with
      | nil => cases hu
      | cons x xs => exact ⟨x, xs, rfl⟩
    obtain ⟨s, hs⟩ := exists_statusAfter_cons status x xs
    rw [hs, rowAfter_last (hu ▸ hm)]
    cases db.states.lookup k with
    | none => simp [mergeState, buildStateRow, counted]
    | some row => simp [mergeState, buildStateRow, counted]

variable (date) in
/-- A commit logs no more events of a saga than it counts, and of every saga as many exactly when it counts none
twice. -/
theorem logged_persistBatch (hl : ∀ a, localeCompare a a = 0) (db : Database Time) (stateMap : StateMap Time)
    (ms : List PreparedMessage) (now now' : Time) :
    let db' := persistBatch localeCompare now' (deriveChanges date now stateMap ms).sagaStates
      (deriveChanges date now stateMap ms).eventLogs db
    (∀ k, db'.logged k ≤ db.logged k + (unguarded (statusIn stateMap k) (ofSaga k ms)).length) ∧
      ((∀ k, db'.logged k = db.logged k + (unguarded (statusIn stateMap k) (ofSaga k ms)).length) ↔
        db.CountsOnce localeCompare (statusIn stateMap) ms) := by
  intro db'
  have hlog : db'.log = insertAll (·.sagaEventId) db.log (logRows date (statusIn stateMap) (inLogOrder localeCompare ms)) := by
    rw [logRows_inLogOrder hl, ← eventLogs_deriveChanges]
    rfl
  have hrows : ∀ k, (logRows date (statusIn stateMap) (inLogOrder localeCompare ms)).countP (fun row => row.Counts k) =
      (unguarded (statusIn stateMap k) (ofSaga k ms)).length := fun k => by
    rw [logRows_inLogOrder hl, (List.perm_insertionSort _ _).countP_eq, countP_logRows]
  have hcount := fun k => count_insertAll (·.sagaEventId) (BulkInsertEventLogData.Counts k)
    (logRows date (statusIn stateMap) (inLogOrder localeCompare ms)) db.log
  unfold Database.logged
  rw [hlog]
  refine ⟨fun k => hrows k ▸ (hcount k).1, ?_⟩
  unfold Database.CountsOnce
  rw [← insertable_logRows_iff]
  constructor
  · intro heq
    have hk := fun k => (hcount k).2.1 (by rw [hrows, heq])
    refine ⟨fun row hrow hc => (hk row.sagaId).1 row hrow ⟨rfl, hc⟩, ?_⟩
    rw [List.pairwise_iff_forall_sublist]
    intro row row' hsub hc
    exact List.pairwise_iff_forall_sublist.1 (hk row'.sagaId).2 hsub ⟨rfl, hc⟩
  · rintro ⟨hnew, hp⟩ k
    rw [← hrows]
    exact (hcount k).2.2 ⟨fun row hrow hc => hnew row hrow hc.2, hp.imp fun hr hc => hr hc.2⟩

/-! ## Runs -/

/-- A step of the projector keeps the counts above what is logged before completion, and equal to it exactly when it counts none twice. -/
theorem covered_projectorStep (hl : ∀ a, localeCompare a a = 0) {s s' : ProjectorState Time} {a : ProjectorAct Time}
    (hs : s.Sound date) (hc : s.db.Covered) (h : projectorStep date localeCompare s a = some s') :
    s'.db.Covered ∧ (s'.db.Counted ↔ s.db.Counted ∧ s.CountsOnce localeCompare a) := by
  cases projectorStep_move date localeCompare h with
  | @commit i ms stateMap changes now' hp =>
    obtain ⟨now, rfl⟩ : BatchPhase.Sound date (.derived ms stateMap changes) := hs _ (List.mem_of_getElem? hp)
    obtain ⟨hle, heq⟩ := logged_persistBatch date hl s.db stateMap ms now now'
    have hcount := fun k => eventCount_persistBatch date localeCompare now now' s.db stateMap ms k
    refine ⟨fun k => ?_, ?_⟩
    · show _ ≤ Database.eventCount _ k
      rw [hcount]
      exact (hle k).trans (Nat.add_le_add_right (hc k) _)
    · have honce : s.CountsOnce localeCompare (.commit i now') ↔ s.db.CountsOnce localeCompare (statusIn stateMap) ms := by
        refine ⟨fun h => h ms stateMap _ hp, fun h ms' stateMap' changes' hp' => ?_⟩
        rw [hp] at hp'
        cases hp'
        exact h
      rw [honce, ← heq]
      exact forall_eq_iff_of_le hcount hc hle
  | _ => exact ⟨hc, (and_iff_left trivial).symm⟩

/-- In every run of concurrent batches no saga counts fewer events than are logged of it before it is completed, and
every saga counts just these exactly when no batch that commits counts an event that is in the log by then. -/
theorem concurrent_counted_iff (hl : ∀ a, localeCompare a a = 0) {as : List (ProjectorAct Time)} {s : ProjectorState Time}
    (h : run (projectorStep date localeCompare) ⟨⟨∅, ∅⟩, []⟩ as = some s) :
    (∀ k, s.db.logged k ≤ s.db.eventCount k) ∧
      (s.db.Counted ↔ Each (projectorStep date localeCompare) (fun s a => s.CountsOnce localeCompare a)
        ⟨⟨∅, ∅⟩, []⟩ as) := by
  have hinit : ProjectorState.Sound date (⟨⟨∅, ∅⟩, []⟩ : ProjectorState Time) := by simp [ProjectorState.Sound]
  have hempty : (⟨∅, ∅⟩ : Database Time).Counted := fun _ => rfl
  have hcovered : (⟨∅, ∅⟩ : Database Time).Covered := fun k => (hempty k).ge
  have hstep : ∀ s a s', s.Sound date ∧ s.db.Covered → projectorStep date localeCompare s a = some s' →
      s'.Sound date ∧ s'.db.Covered := fun s a s' hI h =>
    ⟨sound_step hI.1 h, (covered_projectorStep hl hI.1 hI.2 h).1⟩
  refine ⟨(run_induction hstep ⟨hinit, hcovered⟩ h).2, ?_⟩
  rw [run_kept_of (I := fun s => s.Sound date ∧ s.db.Covered) (P := fun s => s.db.Counted) hstep
    (fun s a s' hI h => (covered_projectorStep hl hI.1 hI.2 h).2) ⟨hinit, hcovered⟩ h]
  exact and_iff_right hempty

/-! ## An event that two batches have -/

/-- Two batches have one event, and both find the log without it. -/
def overlappingRun : List (ProjectorAct String) :=
  [.poll [reservedEvent], .poll [reservedEvent], .dedupe 0, .dedupe 1, .lookup 0, .derive 0 "t", .commit 0 "t",
    .lookup 1, .derive 1 "t", .commit 1 "t"]

theorem concurrent_counted_sample :
    ∃ s, run (projectorStep id compareText) ⟨⟨∅, ∅⟩, []⟩ overlappingRun = some s ∧
      s.db.eventCount "saga-1" = 2 ∧ s.db.logged "saga-1" = 1 ∧
      ¬ Each (projectorStep id compareText) (fun s a => s.CountsOnce compareText a) ⟨⟨∅, ∅⟩, []⟩ overlappingRun := by
  obtain ⟨s, hr, hp⟩ := exists_of_run (projectorStep id compareText) ⟨⟨∅, ∅⟩, []⟩ overlappingRun
    (fun s => s.db.eventCount "saga-1" == 2 && s.db.logged "saga-1" == 1) (by decide +kernel)
  rw [Bool.and_eq_true, beq_iff_eq, beq_iff_eq] at hp
  refine ⟨s, hr, hp.1, hp.2, fun he => ?_⟩
  have hcounted := (concurrent_counted_iff compareText_self hr).2.2 he "saga-1"
  rw [hp.1, hp.2] at hcounted
  cases hcounted

end Saga.Monitor
