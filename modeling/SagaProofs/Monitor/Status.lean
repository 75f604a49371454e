/-
The status of a saga under concurrent batches. The batches of different partitions run interleaved and
each derives the statuses from what it looked up, which another batch may have overwritten since. The
`ON CONFLICT` clause keeps a completed status, but takes any other: a batch that looked a saga up
before it was compensating, and has none of its compensations, sets it back to running.
-/
import SagaProofs.Monitor.Derive
import SagaProofs.Lib.Run

namespace Saga.Monitor

open Keyed Lts

variable {Time : Type}

/-! ## Batches in flight -/

/-- Where a call of `processBatch` stands, with the values that it has read. -/
inductive BatchPhase (Time : Type)
  | polled (prepared : List PreparedMessage)
  | deduped (newMessages : List PreparedMessage)
  | lookedUp (newMessages : List PreparedMessage) (stateMap : StateMap Time)
  | derived (newMessages : List PreparedMessage) (stateMap : StateMap Time) (changes : DeriveChanges Time)
  | ended

/-- The database and the batches polled so far. -/
structure ProjectorState (Time : Type) where
  db : Database Time
  batches : List (BatchPhase Time)

/-- A batch is polled; the batch `i` reads the log, reads the states, derives its changes, and has its
transaction committed or given up. An attempt that PostgreSQL rolls back and that is made again changes
nothing and is no step. -/
inductive ProjectorAct (Time : Type)
  | poll (prepared : List PreparedMessage)
  | dedupe (i : ℕ)
  | lookup (i : ℕ)
  | derive (i : ℕ) (now : Time)
  | commit (i : ℕ) (now : Time)
  | abort (i : ℕ)

def ProjectorState.put (s : ProjectorState Time) (i : ℕ) (phase : BatchPhase Time) : ProjectorState Time :=
  { s with batches := s.batches.set i phase }

section Projector

variable (date : String → Time) (localeCompare : String → String → ℤ)

def projectorStep (s : ProjectorState Time) : ProjectorAct Time → Option (ProjectorState Time)
  | .poll prepared => some { s with batches := s.batches ++ [.polled prepared] }
  | .dedupe i =>
    match s.batches[i]? with
    | some (.polled prepared) =>
      let newMessages := dedupe s.db prepared
      some (s.put i (if newMessages = [] then .ended else .deduped newMessages))
    | _ => none
  | .lookup i =>
    match s.batches[i]? with
    | some (.deduped newMessages) => some (s.put i (.lookedUp newMessages (lookupStates s.db newMessages)))
    | _ => none
  | .derive i now =>
    match s.batches[i]? with
    | some (.lookedUp newMessages stateMap) =>
      some (s.put i (.derived newMessages stateMap (deriveChanges date now stateMap newMessages)))
    | _ => none
  | .commit i now =>
    match s.batches[i]? with
    | some (.derived _ _ changes) =>
      some { s.put i .ended with db := persistBatch localeCompare now changes.sagaStates changes.eventLogs s.db }
    | _ => none
  | .abort i =>
    match s.batches[i]? with
    | some (.derived _ _ _) => some (s.put i .ended)
    | _ => none

/-- What a step does and when. -/
inductive ProjectorMove (s : ProjectorState Time) : ProjectorAct Time → ProjectorState Time → Prop
  | poll (prepared : List PreparedMessage) :
    ProjectorMove s (.poll prepared) { s with batches := s.batches ++ [.polled prepared] }
  | nothingNew {i : ℕ} {prepared : List PreparedMessage} (hp : s.batches[i]? = some (.polled prepared))
    (hn : dedupe s.db prepared = []) : ProjectorMove s (.dedupe i) (s.put i .ended)
  | dedupe {i : ℕ} {prepared : List PreparedMessage} (hp : s.batches[i]? = some (.polled prepared))
    (hn : dedupe s.db prepared ≠ []) : ProjectorMove s (.dedupe i) (s.put i (.deduped (dedupe s.db prepared)))
  | lookup {i : ℕ} {ms : List PreparedMessage} (hp : s.batches[i]? = some (.deduped ms)) :
    ProjectorMove s (.lookup i) (s.put i (.lookedUp ms (lookupStates s.db ms)))
  | derive {i : ℕ} {ms : List PreparedMessage} {stateMap : StateMap Time} {now : Time}
    (hp : s.batches[i]? = some (.lookedUp ms stateMap)) :
    ProjectorMove s (.derive i now) (s.put i (.derived ms stateMap (deriveChanges date now stateMap ms)))
  | commit {i : ℕ} {ms : List PreparedMessage} {stateMap : StateMap Time} {changes : DeriveChanges Time}
    {now : Time} (hp : s.batches[i]? = some (.derived ms stateMap changes)) :
    ProjectorMove s (.commit i now)
      { s.put i .ended with db := persistBatch localeCompare now changes.sagaStates changes.eventLogs s.db }
  | abort {i : ℕ} {ms : List PreparedMessage} {stateMap : StateMap Time} {changes : DeriveChanges Time}
    (hp : s.batches[i]? = some (.derived ms stateMap changes)) : ProjectorMove s (.abort i) (s.put i .ended)

theorem projectorStep_move {s s' : ProjectorState Time} {a : ProjectorAct Time}
    (h : projectorStep date localeCompare s a = some s') : ProjectorMove date localeCompare s a s' := by
  unfold projectorStep at h
  cases a with
  | poll prepared => cases h; exact .poll prepared
  | dedupe i =>
    dsimp only at h
    split at h
    · rename_i prepared hp
      split at h
      · rename_i hn
        cases h; exact .nothingNew hp hn
      · rename_i hn
        cases h; exact .dedupe hp hn
    · cases h
  | lookup i =>
    dsimp only at h
    split at h
    · rename_i hp
      cases h; exact .lookup hp
    · cases h
  | derive i now =>
    dsimp only at h
    split at h
    · rename_i hp
      cases h; exact .derive hp
    · cases h
  | commit i now =>
    dsimp only at h
    split at h
    · rename_i hp
      cases h; exact .commit hp
    · cases h
  | abort i =>
    dsimp only at h
    split at h
    · rename_i hp
      cases h; exact .abort hp
    · cases h

/-! ## What is to be shown -/

def SagaStatus.rank : SagaStatus → ℕ
  | .running => 0
  | .compensating => 1
  | .completed => 2

/-- No row is lost and no status goes down. -/
def Database.Forward (db db' : Database Time) : Prop :=
  ∀ k row, db.states.lookup k = some row → ∃ row', db'.states.lookup k = some row' ∧ row.status.rank ≤ row'.status.rank

/-- The action does not set a committed status back. -/
def ProjectorState.Forward (s : ProjectorState Time) (a : ProjectorAct Time) : Prop :=
  ∀ s', projectorStep date localeCompare s a = some s' → s.db.Forward s'.db

/-- The message ends in a compensating or a completed saga, wherever it starts. -/
def PreparedMessage.turns (m : PreparedMessage) : Bool := m.hint = some .compensation || m.hint = some .final

/-- The batch looked each of its sagas that is compensating up as such, or has a compensation or the end
of the saga itself. -/
def Database.InformedBy (db : Database Time) (ms : List PreparedMessage) (stateMap : StateMap Time) : Prop :=
  ∀ m ∈ ms, db.status m.sagaId = some .compensating →
    statusIn stateMap m.sagaId = some .compensating ∨ statusIn stateMap m.sagaId = some .completed ∨
      ∃ m' ∈ ofSaga m.sagaId ms, m'.turns = true

def BatchPhase.InformedOf (db : Database Time) : BatchPhase Time → Prop
  | .derived ms stateMap _ => db.InformedBy ms stateMap
  | _ => True

/-- A batch that commits is informed of the sagas that compensate. -/
def ProjectorState.Informed (s : ProjectorState Time) : ProjectorAct Time → Prop
  | .commit i _ => ∀ phase ∈ s.batches[i]?, phase.InformedOf s.db
  | _ => True

instance (db : Database Time) (ms : List PreparedMessage) (stateMap : StateMap Time) :
    Decidable (db.InformedBy ms stateMap) := inferInstanceAs (Decidable (∀ m ∈ ms, _ → _))

instance (db : Database Time) : DecidablePred (BatchPhase.InformedOf db)
  | .polled _ => .isTrue trivial
  | .deduped _ => .isTrue trivial
  | .lookedUp _ _ => .isTrue trivial
  | .derived ms stateMap _ => inferInstanceAs (Decidable (db.InformedBy ms stateMap))
  | .ended => .isTrue trivial

instance (s : ProjectorState Time) : DecidablePred s.Informed
  | .poll _ => .isTrue trivial
  | .dedupe _ => .isTrue trivial
  | .lookup _ => .isTrue trivial
  | .derive _ _ => .isTrue trivial
  | .commit i _ => inferInstanceAs (Decidable (∀ phase ∈ s.batches[i]?, phase.InformedOf s.db))
  | .abort _ => .isTrue trivial

/-! ## A merged status -/

variable {date localeCompare}

/-- The merge lowers a status exactly when it sets a compensating saga back to running. -/
theorem rank_le_mergeState (now : Time) (row : SagaStateRow Time) (r : BulkUpsertStateData Time) :
    row.status.rank ≤ (mergeState now (some row) r).status.rank ↔
      ¬ (row.status = .compensating ∧ r.status = .running) := by
  rw [status_mergeState]
  cases row.status <;> cases r.status <;> decide

theorem nextStatus_eq_running {s : Option SagaStatus} {m : PreparedMessage} :
    nextStatus s m = .running ↔ s ≠ some .completed ∧ s ≠ some .compensating ∧ m.turns = false := by
  unfold nextStatus deriveStatus PreparedMessage.turns
  generalize m.hint = hint
  rcases s with _ | _ | _ | _ <;> rcases hint with _ | _ | _ | _ | _ <;> decide

theorem eq_running_iff (s : SagaStatus) : s = .running ↔ s ≠ .completed ∧ s ≠ .compensating := by cases s <;> decide

/-- A saga is running after its messages exactly when it was neither compensating nor completed and none
of them turns it. -/
theorem statusAfter_eq_running : ∀ {ms : List PreparedMessage} {s : Option SagaStatus}, ms ≠ [] →
    (statusAfter s ms = some .running ↔ s ≠ some .completed ∧ s ≠ some .compensating ∧ ∀ m ∈ ms, m.turns = false)
  | [], _, h => absurd rfl h
  | [m], s, _ => by simp [nextStatus_eq_running]
  | m :: m' :: ms, s, _ => by
    have ih : statusAfter (some (nextStatus s m)) (m' :: ms) = some .running ↔ _ := statusAfter_eq_running (by simp)
    have hm : (some (nextStatus s m) ≠ some .completed ∧ some (nextStatus s m) ≠ some .compensating) ↔
        s ≠ some .completed ∧ s ≠ some .compensating ∧ m.turns = false := by
      rw [← nextStatus_eq_running, eq_running_iff, Ne, Ne, Option.some_inj, Option.some_inj]
    rw [statusAfter_cons, ih, List.forall_mem_cons (a := m), ← and_assoc, hm, and_assoc, and_assoc]

/-! ## A commit -/

/-- The changes of a batch that waits for its transaction are those derived from what it looked up. -/
def BatchPhase.Sound (date : String → Time) : BatchPhase Time → Prop
  | .derived ms stateMap changes => ∃ now, changes = deriveChanges date now stateMap ms
  | _ => True

def ProjectorState.Sound (date : String → Time) (s : ProjectorState Time) : Prop := ∀ p ∈ s.batches, p.Sound date

theorem ProjectorState.Sound.set {s : ProjectorState Time} (hs : s.Sound date) (i : ℕ) {phase : BatchPhase Time}
    (hp : phase.Sound date) : ∀ p ∈ s.batches.set i phase, p.Sound date := by
  intro p hmem
  rcases List.mem_or_eq_of_mem_set hmem with hmem | rfl
  · exact hs p hmem
  · exact hp

theorem sound_step {s s' : ProjectorState Time} {a : ProjectorAct Time} (hs : s.Sound date)
    (h : projectorStep date localeCompare s a = some s') : s'.Sound date := by
  cases projectorStep_move date localeCompare h with
  | poll prepared =>
    intro p hmem
    rcases List.mem_append.1 hmem with hmem | hmem
    · exact hs p hmem
    · rw [List.mem_singleton.1 hmem]
      trivial
  | @nothingNew i => exact hs.set i trivial
  | @dedupe i => exact hs.set i trivial
  | @lookup i => exact hs.set i trivial
  | @derive i _ _ now => exact hs.set i ⟨now, rfl⟩
  | @commit i => exact hs.set i trivial
  | @abort i => exact hs.set i trivial

/-- The row of a saga sets a compensating status back exactly when the batch did not know of it. -/
theorem row_eq_running {now : Time} {stateMap : StateMap Time} {ms : List PreparedMessage} {k : String}
    {r : BulkUpsertStateData Time} (h : (deriveChanges date now stateMap ms).sagaStatesMap.lookup k = some r) :
    r.status = .running ↔ statusIn stateMap k ≠ some .completed ∧ statusIn stateMap k ≠ some .compensating ∧
      ∀ m ∈ ofSaga k ms, m.turns = false := by
  rw [lookup_sagaStatesMap] at h
  obtain ⟨m, s, hm, hs, rfl⟩ := exists_of_rowAfter h
  have hne : ofSaga k ms ≠ [] := by
    intro hnil
    rw [hnil] at hm
    cases hm
  rw [← statusAfter_eq_running hne, hs, Option.some_inj]
  rfl

/-- A commit moves forward exactly when no row sets a compensating saga back to running. -/
theorem forward_persistBatch_iff (localeCompare : String → String → ℤ) (now now' : Time) (stateMap : StateMap Time)
    (ms : List PreparedMessage) (db : Database Time) :
    db.Forward (persistBatch localeCompare now' (deriveChanges date now stateMap ms).sagaStates
      (deriveChanges date now stateMap ms).eventLogs db) ↔
      db.InformedBy ms stateMap := by
  constructor
  · intro h m hm hstored
    obtain ⟨row, hrow, hst⟩ := Option.map_eq_some_iff.1 hstored
    by_contra hno
    simp only [not_or, not_exists, not_and, Bool.not_eq_true] at hno
    obtain ⟨h1, h2, h3⟩ := hno
    -- the batch has a running row for the saga, which the merge takes
    have hex : ∃ r, (deriveChanges date now stateMap ms).sagaStatesMap.lookup m.sagaId = some r := exists_row hm h2
    obtain ⟨r, hr⟩ := hex
    have hrun : r.status = .running := (row_eq_running hr).2 ⟨h2, h1, h3⟩
    obtain ⟨row', hrow', hle⟩ := h m.sagaId row hrow
    rw [lookup_persistBatch, hr, hrow] at hrow'
    cases hrow'
    exact (rank_le_mergeState now' row r).1 hle ⟨hst, hrun⟩
  · intro h k row hrow
    rw [lookup_persistBatch]
    cases hr : (deriveChanges date now stateMap ms).sagaStatesMap.lookup k with
    | none => exact ⟨row, hrow, le_rfl⟩
    | some r =>
      refine ⟨mergeState now' (some row) r, by rw [hrow]; rfl, (rank_le_mergeState now' row r).2 ?_⟩
      rintro ⟨hst, hrun⟩
      obtain ⟨h1, h2, h3⟩ := (row_eq_running hr).1 hrun
      obtain ⟨m, hm, rfl⟩ := exists_mem_of_row hr
      rcases h m hm (Option.map_eq_some_iff.2 ⟨row, hrow, hst⟩) with hc | hc | ⟨m', hm', ht⟩
      · exact h2 hc
      · exact h1 hc
      · rw [h3 m' hm'] at ht
        cases ht

theorem Database.Forward.refl (db : Database Time) : db.Forward db := fun _ row h => ⟨row, h, le_rfl⟩

theorem informed_commit {s : ProjectorState Time} {i : ℕ} {now : Time} :
    s.Informed (.commit i now) ↔
      ∀ ms stateMap changes, s.batches[i]? = some (.derived ms stateMap changes) → s.db.InformedBy ms stateMap := by
  unfold ProjectorState.Informed
  constructor
  · intro h ms stateMap changes hp
    exact h _ hp
  · intro h phase hp
    cases phase with
    | derived ms stateMap changes => exact h ms stateMap changes hp
    | _ => trivial

/-- A step of a sound state sets no status back exactly when it is informed. -/
theorem forward_iff_informed {s : ProjectorState Time} (hs : s.Sound date) (a : ProjectorAct Time) :
    s.Forward date localeCompare a ↔ s.Informed a := by
  cases a with
  | commit i now =>
    rw [informed_commit]
    constructor
    · intro h ms stateMap changes hp
      obtain ⟨now', rfl⟩ : BatchPhase.Sound date (.derived ms stateMap changes) := hs _ (List.mem_of_getElem? hp)
      have hstep : projectorStep date localeCompare s (.commit i now) =
          some
            { s.put i .ended with
              db := persistBatch localeCompare now (deriveChanges date now' stateMap ms).sagaStates
                (deriveChanges date now' stateMap ms).eventLogs s.db } := by
        simp only [projectorStep, hp]
      exact (forward_persistBatch_iff localeCompare now' now stateMap ms s.db).1 (h _ hstep)
    · intro h s' hstep
      cases projectorStep_move date localeCompare hstep with
      | @commit _ ms stateMap changes _ hp =>
        obtain ⟨now', rfl⟩ : BatchPhase.Sound date (.derived ms stateMap changes) := hs _ (List.mem_of_getElem? hp)
        exact (forward_persistBatch_iff localeCompare now' now stateMap ms s.db).2 (h ms stateMap _ hp)
  | _ =>
    refine ⟨fun _ => trivial, fun _ s' h => ?_⟩
    cases projectorStep_move date localeCompare h <;> exact .refl s.db

theorem Database.Forward.trans {db db' db'' : Database Time} (h : db.Forward db') (h' : db'.Forward db'') :
    db.Forward db'' := by
  intro k row hrow
  obtain ⟨row', hrow', hle⟩ := h k row hrow
  obtain ⟨row'', hrow'', hle'⟩ := h' k row' hrow'
  exact ⟨row'', hrow'', hle.trans hle'⟩

/-- In every run no commit sets a committed status back if and only if every batch that commits is informed
of the sagas that compensate; and then no status of the end is below that of the start. -/
theorem status_forward_iff (date : String → Time) (localeCompare : String → String → ℤ) (db : Database Time)
    (as : List (ProjectorAct Time)) :
    (Each (projectorStep date localeCompare) (fun s a => s.Forward date localeCompare a) ⟨db, []⟩ as ↔
      Each (projectorStep date localeCompare) (·.Informed) ⟨db, []⟩ as) ∧
    ∀ s, run (projectorStep date localeCompare) ⟨db, []⟩ as = some s →
      Each (projectorStep date localeCompare) (·.Informed) ⟨db, []⟩ as → db.Forward s.db := by
  have hinit : ProjectorState.Sound date ⟨db, []⟩ := by simp [ProjectorState.Sound]
  refine ⟨each_congr_of (I := fun s => s.Sound date) (fun _ _ _ hs h => sound_step hs h)
    (fun _ a hs => forward_iff_informed hs a) hinit, fun s hr hi => ?_⟩
  have hrun : s.Sound date ∧ db.Forward s.db :=
    run_each_induction (I := fun s => s.Sound date ∧ db.Forward s.db)
      (fun _ _ s' ⟨hs, hf⟩ hi h => ⟨sound_step hs h, hf.trans ((forward_iff_informed hs _).2 hi s' h)⟩)
      ⟨hinit, .refl db⟩ hi hr
  exact hrun.2

end Projector

/-! ## A compensation undone -/

/-- A step of a saga and its compensation. -/
def reservedEvent : PreparedMessage := .sample "e1" "order.reserved" none "2024-01-01T00:00:00.000Z"

def cancelledEvent : PreparedMessage := .sample "e2" "order.cancelled" (some .compensation) "2024-01-01T00:00:01.000Z"

/-- The step and the compensation are read from two topics at once, and the batch of the
compensation has committed. -/
def staleRun : List (ProjectorAct String) :=
  [.poll [reservedEvent], .poll [cancelledEvent],
    .dedupe 0, .lookup 0, .derive 0 "t", .dedupe 1, .lookup 1, .derive 1 "t", .commit 1 "t"]

/-- The batch of the step commits last, with the status from before the compensation. -/
theorem compensating_set_back :
    ¬ ∀ (db : Database String) as,
      Each (projectorStep id compareText) (fun s a => s.Forward id compareText a) ⟨db, []⟩ as := by
  intro hall
  have hrun : (run (projectorStep id compareText) ⟨⟨∅, ∅⟩, []⟩ staleRun).any
      (fun t => t.db.status "saga-1" = some .compensating &&
        (projectorStep id compareText t (.commit 0 "t")).any fun s => s.db.status "saga-1" = some .running) = true := by
    decide +kernel
  obtain ⟨t, ht, hp⟩ := (Option.any_eq_true _ _).1 hrun
  rw [Bool.and_eq_true, decide_eq_true_iff, Option.any_eq_true] at hp
  obtain ⟨hst, s, hs, hst'⟩ := hp
  have hf := Each.at (hall ⟨∅, ∅⟩ (staleRun ++ .commit 0 "t" :: [])) ht
  obtain ⟨row, hrow, hc⟩ := Option.map_eq_some_iff.1 hst
  obtain ⟨row', hrow', hc'⟩ := Option.map_eq_some_iff.1 (of_decide_eq_true hst')
  obtain ⟨row'', hrow'', hle⟩ := hf s hs "saga-1" row hrow
  rw [hrow'] at hrow''
  cases hrow''
  rw [hc, hc'] at hle
  exact absurd hle (by decide)

/-- A schedule in which the batch of the step is looked up after the compensation. -/
def informedRun : List (ProjectorAct String) :=
  [.poll [reservedEvent], .poll [cancelledEvent],
    .dedupe 1, .lookup 1, .derive 1 "t", .commit 1 "t", .dedupe 0, .lookup 0, .derive 0 "t", .commit 0 "t"]

theorem compensating_when_informed :
    ∃ s, run (projectorStep id compareText) ⟨⟨∅, ∅⟩, []⟩ informedRun = some s ∧
      s.db.status "saga-1" = some .compensating ∧
      Each (projectorStep id compareText) (fun s a => s.Forward id compareText a) ⟨⟨∅, ∅⟩, []⟩ informedRun ∧
      Database.Forward ⟨∅, ∅⟩ s.db := by
  obtain ⟨s, hr, hp⟩ := exists_of_run (projectorStep id compareText) ⟨⟨∅, ∅⟩, []⟩ informedRun
    (fun s => s.db.status "saga-1" = some .compensating) (by decide +kernel)
  have hi : Each (projectorStep id compareText) (·.Informed) ⟨⟨∅, ∅⟩, []⟩ informedRun :=
    each_of_eachB _ (fun s a => decide (s.Informed a)) (fun s a => of_decide_eq_true) _ _ (by decide +kernel)
  have hiff := status_forward_iff id compareText ⟨∅, ∅⟩ informedRun
  exact ⟨s, hr, of_decide_eq_true hp, hiff.1.2 hi, hiff.2 s hr hi⟩

end Saga.Monitor
