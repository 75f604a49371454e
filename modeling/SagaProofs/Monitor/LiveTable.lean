/-
The table of sagas on a page: the updates of a short time are merged into its rows together, the last one of each saga
only. This is as merging them one by one; no update is forgotten, every highlight ends, and the count of new sagas
counts each once.
-/
import SagaProofs.Monitor.Hub

namespace Saga.Monitor

open Keyed Lts

variable {ρ : Type}

/-! ## Rows -/

/-- The fields of a `SagaStateDto` that updates change; `rest` has the others. -/
structure SagaStateDto (ρ : Type) where
  sagaId : String
  status : SagaStatus
  currentStepName : String
  currentStepDescription : Option String
  lastEventId : String
  lastEventHint : Option EventHint
  lastTopic : Option String
  updatedAt : String
  endedAt : Option String
  eventCount : ℕ
  rest : ρ

/-- A page of `CursorPaginationResult`. -/
structure SagaPage (ρ : Type) where
  data : List (SagaStateDto ρ)
  nextCursor : Option String

/-- What the queries of sagas have in the cache, the pages of each; a query that waits for its first has none. -/
abbrev SagaQueries (ρ : Type) := List (Option (List (SagaPage ρ)))

/-- `{ ...saga, ...sseToPartialUpdate(message) }` -/
def SagaStateDto.update (saga : SagaStateDto ρ) (message : SagaSseMessage) : SagaStateDto ρ :=
  { saga with
    status := message.status
    currentStepName := message.currentStepName
    currentStepDescription := message.currentStepDescription
    lastEventId := message.eventId
    lastEventHint := message.lastEventHint
    lastTopic := some message.lastTopic
    updatedAt := message.updatedAt
    endedAt := message.endedAt
    eventCount := message.eventCount }

namespace SagaQueries

def mapRows (f : SagaStateDto ρ → SagaStateDto ρ) (queries : SagaQueries ρ) : SagaQueries ρ :=
  queries.map fun pageData => pageData.map fun pages => pages.map fun page => { page with data := page.data.map f }

def rows (queries : SagaQueries ρ) : List (SagaStateDto ρ) :=
  queries.flatMap fun pageData => (pageData.getD []).flatMap (·.data)

/-- `allExistingIds` -/
def existingIds (queries : SagaQueries ρ) : Finset String := ((queries.rows.map (·.sagaId)).toFinset).filter (· ≠ "")

end SagaQueries

/-! ## The table -/

/-- The references of `useSseInvalidation`, with the cache; `clearTimers` has for each timer the ids it clears. -/
structure LiveTable (ρ : Type) where
  pendingMessages : Table String SagaSseMessage
  flushTimer : Bool
  queries : SagaQueries ρ
  highlight : Finset String
  newCount : ℕ
  newSeenIds : Finset String
  clearTimers : List (Finset String)

inductive TableAct (ρ : Type)
  -- the store notifies of a message
  | message (message : SagaSseMessage)
  | flush
  -- the timer ends a highlight
  | clear (i : ℕ)
  | resetNewCount
  -- the cache is brought up to date by requests of its own
  | fetched (queries : SagaQueries ρ)

namespace LiveTable

def initial : LiveTable ρ := ⟨∅, false, [], ∅, 0, ∅, []⟩

variable (t : LiveTable ρ)

/-- The callback of `flushTimer`. -/
def flush : LiveTable ρ :=
  let batch := t.pendingMessages
  let allExistingIds := t.queries.existingIds
  let newIds := batch.keys.filter fun sagaId => sagaId ∉ allExistingIds ∧ sagaId ∉ t.newSeenIds
  let updatedIds := batch.keys.filter (· ∈ allExistingIds)
  { flushTimer := false
    pendingMessages := ∅
    queries := t.queries.mapRows fun saga =>
      if saga.sagaId = "" then saga
      else match batch.lookup saga.sagaId with
        | none => saga
        | some update => saga.update update
    newSeenIds := t.newSeenIds ∪ newIds
    newCount := t.newCount + newIds.card
    highlight := t.highlight ∪ updatedIds
    clearTimers := if updatedIds = ∅ then t.clearTimers else t.clearTimers ++ [updatedIds] }

def step : TableAct ρ → Option (LiveTable ρ)
  | .message message =>
    some { t with pendingMessages := t.pendingMessages.insert message.sagaId message, flushTimer := true }
  | .flush => if t.flushTimer then some t.flush else none
  | .clear i =>
    match t.clearTimers[i]? with
    | none => none
    | some updatedIds =>
      some { t with highlight := t.highlight \ updatedIds, clearTimers := t.clearTimers.eraseIdx i }
  | .resetNewCount => some { t with newCount := 0, newSeenIds := ∅ }
  | .fetched queries => some { t with queries }

end LiveTable

/-! ## Merging one by one -/

/-- The table that keeps all messages, and merges them one by one. -/
structure PlainTable (ρ : Type) where
  queue : List SagaSseMessage
  queries : SagaQueries ρ
  highlight : Finset String
  newCount : ℕ
  newSeenIds : Finset String
  clearTimers : List (Finset String)

namespace PlainTable

def initial : PlainTable ρ := ⟨[], [], ∅, 0, ∅, []⟩

variable (p : PlainTable ρ)

/-- A message updates the rows of its saga, which is highlighted; without a row it is new, unless it was before. -/
def merge (message : SagaSseMessage) : PlainTable ρ :=
  if message.sagaId ∈ p.queries.existingIds then
    { p with
      queries := p.queries.mapRows fun saga => if saga.sagaId = message.sagaId then saga.update message else saga
      highlight := insert message.sagaId p.highlight }
  else if message.sagaId ∈ p.newSeenIds then p
  else { p with newSeenIds := insert message.sagaId p.newSeenIds, newCount := p.newCount + 1 }

def flush : PlainTable ρ :=
  let updatedIds := (p.queue.map (·.sagaId)).toFinset.filter (· ∈ p.queries.existingIds)
  let p := p.queue.foldl merge p
  { p with
    queue := []
    clearTimers := if updatedIds = ∅ then p.clearTimers else p.clearTimers ++ [updatedIds] }

def step : TableAct ρ → Option (PlainTable ρ)
  | .message message => some { p with queue := p.queue ++ [message] }
  | .flush => if p.queue = [] then none else some p.flush
  | .clear i =>
    match p.clearTimers[i]? with
    | none => none
    | some updatedIds =>
      some { p with highlight := p.highlight \ updatedIds, clearTimers := p.clearTimers.eraseIdx i }
  | .resetNewCount => some { p with newCount := 0, newSeenIds := ∅ }
  | .fetched queries => some { p with queries }

end PlainTable

/-! ## Messages of a batch -/

@[simp] theorem SagaStateDto.update_sagaId (saga : SagaStateDto ρ) (m : SagaSseMessage) :
    (saga.update m).sagaId = saga.sagaId := rfl

/-- The last update of a row hides those before. -/
@[simp] theorem SagaStateDto.update_update (saga : SagaStateDto ρ) (m m' : SagaSseMessage) :
    (saga.update m).update m' = saga.update m' := rfl

namespace SagaQueries

theorem mem_existingIds {queries : SagaQueries ρ} {id : String} :
    id ∈ queries.existingIds ↔ (∃ saga ∈ queries.rows, saga.sagaId = id) ∧ id ≠ "" := by
  simp [existingIds]

theorem rows_mapRows (f : SagaStateDto ρ → SagaStateDto ρ) (queries : SagaQueries ρ) :
    (queries.mapRows f).rows = queries.rows.map f := by
  unfold rows mapRows
  rw [List.flatMap_map, List.map_flatMap]
  congr 1
  funext pageData
  cases pageData with
  | none => rfl
  | some pages => simp [List.flatMap_map, List.map_flatMap]

theorem existingIds_mapRows {f : SagaStateDto ρ → SagaStateDto ρ} (hf : ∀ saga, (f saga).sagaId = saga.sagaId)
    (queries : SagaQueries ρ) : (queries.mapRows f).existingIds = queries.existingIds := by
  have hmap : (fun saga => (f saga).sagaId) = fun saga : SagaStateDto ρ => saga.sagaId := funext hf
  unfold existingIds
  rw [rows_mapRows, List.map_map]
  exact congrArg (fun g => ((queries.rows.map g).toFinset).filter (· ≠ "")) hmap

theorem mapRows_mapRows (f g : SagaStateDto ρ → SagaStateDto ρ) (queries : SagaQueries ρ) :
    (queries.mapRows f).mapRows g = queries.mapRows fun saga => g (f saga) := by
  simp [mapRows, Function.comp_def]

theorem mapRows_congr {f g : SagaStateDto ρ → SagaStateDto ρ} {queries : SagaQueries ρ}
    (h : ∀ saga ∈ queries.rows, f saga = g saga) : queries.mapRows f = queries.mapRows g := by
  refine List.map_congr_left fun pageData hpageData => ?_
  cases pageData with
  | none => rfl
  | some pages =>
    refine congrArg some (List.map_congr_left fun page hpage => ?_)
    have hdata : page.data.map f = page.data.map g := List.map_congr_left fun saga hsaga => h saga <| by
      unfold rows
      exact List.mem_flatMap.2 ⟨_, hpageData, List.mem_flatMap.2 ⟨page, hpage, hsaga⟩⟩
    rw [hdata]

theorem mapRows_self (queries : SagaQueries ρ) : (queries.mapRows fun saga => saga) = queries := by
  simp [mapRows]

end SagaQueries

open SagaQueries

/-- The ids of the sagas of a list of messages. -/
def sagaIds (ms : List SagaSseMessage) : Finset String := (ms.map (·.sagaId)).toFinset

@[simp] theorem mem_sagaIds {ms : List SagaSseMessage} {id : String} : id ∈ sagaIds ms ↔ ∃ m ∈ ms, m.sagaId = id := by
  simp [sagaIds]

theorem sagaIds_concat (ms : List SagaSseMessage) (m : SagaSseMessage) :
    sagaIds (ms ++ [m]) = insert m.sagaId (sagaIds ms) := by
  ext id
  simp [or_comm, eq_comm]

/-- What a message does to a row, where the sagas of `ids` have rows. -/
def mergeRow (ids : Finset String) (saga : SagaStateDto ρ) (m : SagaSseMessage) : SagaStateDto ρ :=
  if m.sagaId ∈ ids ∧ saga.sagaId = m.sagaId then saga.update m else saga

theorem mergeRow_sagaId (ids : Finset String) (saga : SagaStateDto ρ) (m : SagaSseMessage) :
    (mergeRow ids saga m).sagaId = saga.sagaId := by
  unfold mergeRow
  split <;> rfl

theorem foldl_mergeRow_sagaId (ids : Finset String) (ms : List SagaSseMessage) (saga : SagaStateDto ρ) :
    (ms.foldl (mergeRow ids) saga).sagaId = saga.sagaId := by
  induction ms generalizing saga with
  | nil => rfl
  | cons m ms ih => rw [List.foldl_cons, ih, mergeRow_sagaId]

/-- A row has what the last message of its saga says. -/
theorem foldl_mergeRow {ids : Finset String} {saga : SagaStateDto ρ} (hid : saga.sagaId ∈ ids)
    (ms : List SagaSseMessage) :
    ms.foldl (mergeRow ids) saga =
      match (ms.filter (·.sagaId = saga.sagaId)).getLast? with
      | none => saga
      | some m => saga.update m := by
  induction ms using List.reverseRecOn with
  | nil => rfl
  | append_singleton ms m ih =>
    rw [List.foldl_append, List.foldl_cons, List.foldl_nil, ih, List.filter_append, List.filter_singleton]
    by_cases hm : m.sagaId = saga.sagaId
    · rw [decide_eq_true hm, cond_true, List.getLast?_append, List.getLast?_singleton]
      unfold mergeRow
      cases (ms.filter (·.sagaId = saga.sagaId)).getLast? with
      | none => exact if_pos ⟨hm ▸ hid, hm.symm⟩
      | some m' => exact if_pos ⟨hm ▸ hid, hm.symm⟩
    · rw [decide_eq_false hm, cond_false, List.append_nil]
      unfold mergeRow
      cases (ms.filter (·.sagaId = saga.sagaId)).getLast? with
      | none => exact if_neg fun h => hm h.2.symm
      | some m' => exact if_neg fun h => hm h.2.symm

theorem foldl_mergeRow_of_notMem {ids : Finset String} {saga : SagaStateDto ρ} (hid : saga.sagaId ∉ ids)
    (ms : List SagaSseMessage) : ms.foldl (mergeRow ids) saga = saga := by
  induction ms with
  | nil => rfl
  | cons m ms ih =>
    have hsame : mergeRow ids saga m = saga := by
      unfold mergeRow
      refine if_neg ?_
      rintro ⟨hm, hsaga⟩
      exact hid (hsaga ▸ hm)
    rw [List.foldl_cons, hsame, ih]

namespace PlainTable

/-- All messages merged one by one. -/
theorem foldl_merge (ms : List SagaSseMessage) (p : PlainTable ρ) :
    ms.foldl merge p =
      { p with
        queries := p.queries.mapRows fun saga => ms.foldl (mergeRow p.queries.existingIds) saga
        highlight := p.highlight ∪ (sagaIds ms).filter (· ∈ p.queries.existingIds)
        newSeenIds := p.newSeenIds ∪ (sagaIds ms).filter (· ∉ p.queries.existingIds)
        newCount := p.newCount +
          ((sagaIds ms).filter fun id => id ∉ p.queries.existingIds ∧ id ∉ p.newSeenIds).card } := by
  induction ms using List.reverseRecOn with
  | nil => simp [sagaIds, mapRows_self]
  | append_singleton ms m ih =>
    rw [List.foldl_append, List.foldl_cons, List.foldl_nil, ih, sagaIds_concat]
    unfold merge
    dsimp only
    rw [existingIds_mapRows fun saga => foldl_mergeRow_sagaId _ ms saga, mapRows_mapRows]
    by_cases hrow : m.sagaId ∈ p.queries.existingIds
    · rw [if_pos hrow]
      simp [Finset.filter_insert, hrow, List.foldl_append, mergeRow, Finset.union_insert]
    · rw [if_neg hrow]
      have hsame : ∀ saga : SagaStateDto ρ, mergeRow p.queries.existingIds saga m = saga := fun saga =>
        if_neg fun h => hrow h.1
      by_cases hseen : m.sagaId ∈ p.newSeenIds
      · simp [Finset.filter_insert, hrow, hseen, List.foldl_append, hsame, Finset.union_insert]
      · by_cases hms : m.sagaId ∈ sagaIds ms
        · have hcounted : m.sagaId ∈ p.newSeenIds ∪ (sagaIds ms).filter (· ∉ p.queries.existingIds) :=
            Finset.mem_union_right _ (Finset.mem_filter.2 ⟨hms, hrow⟩)
          rw [if_pos hcounted, Finset.insert_eq_of_mem hms]
          simp [List.foldl_append, hsame]
        · have hnew : m.sagaId ∉ p.newSeenIds ∪ (sagaIds ms).filter (· ∉ p.queries.existingIds) := by
            rw [Finset.mem_union, Finset.mem_filter]
            rintro (h | h)
            · exact hseen h
            · exact hms h.1
          rw [if_neg hnew]
          simp only [Finset.filter_insert, hrow, hseen, not_false_eq_true, and_self, if_true, if_false, List.foldl_append,
            List.foldl_cons, List.foldl_nil, hsame, Finset.union_insert]
          rw [Finset.card_insert_of_notMem fun h => hms (Finset.mem_filter.1 h).1, Nat.add_assoc]

end PlainTable

/-! ## The tables agree -/

/-- The table has the last message of each saga that the plain table has queued, and all else is the same. -/
structure Agree (t : LiveTable ρ) (p : PlainTable ρ) : Prop where
  pending : ∀ id, t.pendingMessages.lookup id = (p.queue.filter (·.sagaId = id)).getLast?
  flushTimer : t.flushTimer = true ↔ p.queue ≠ []
  queries : t.queries = p.queries
  highlight : t.highlight = p.highlight
  newCount : t.newCount = p.newCount
  newSeenIds : t.newSeenIds = p.newSeenIds
  clearTimers : t.clearTimers = p.clearTimers

variable {t t' : LiveTable ρ} {p : PlainTable ρ}

theorem Agree.keys (h : Agree t p) : t.pendingMessages.keys = sagaIds p.queue := by
  ext id
  rw [Finmap.mem_keys, ← Finmap.lookup_isSome, h.pending, List.getLast?_isSome, mem_sagaIds]
  simp

theorem agree_flush (h : Agree t p) : Agree t.flush p.flush := by
  have hkeys := h.keys
  unfold LiveTable.flush PlainTable.flush
  rw [PlainTable.foldl_merge]
  refine ⟨fun id => rfl, by simp, ?_, ?_, ?_, ?_, ?_⟩
  · dsimp only
    rw [h.queries]
    refine mapRows_congr fun saga hsaga => ?_
    by_cases hid : saga.sagaId = ""
    · rw [if_pos hid, foldl_mergeRow_of_notMem fun h => (mem_existingIds.1 h).2 hid]
    · rw [if_neg hid, foldl_mergeRow (mem_existingIds.2 ⟨⟨saga, hsaga, rfl⟩, hid⟩), h.pending]
  · dsimp only
    rw [hkeys, h.queries, h.highlight]
  · dsimp only
    rw [hkeys, h.queries, h.newCount, h.newSeenIds]
  · dsimp only
    rw [hkeys, h.queries, h.newSeenIds]
    ext id
    simp
    tauto
  · dsimp only
    rw [hkeys, h.queries, h.clearTimers]
    rfl

theorem agree_step {a : TableAct ρ} (h : Agree t p) (hstep : t.step a = some t') :
    ∃ p', p.step a = some p' ∧ Agree t' p' := by
  cases a with
  | message m =>
    cases hstep
    refine ⟨_, rfl, fun id => ?_, by simp, h.queries, h.highlight, h.newCount, h.newSeenIds, h.clearTimers⟩
    dsimp only
    rw [List.filter_append, List.filter_singleton]
    by_cases hid : id = m.sagaId
    · subst hid
      rw [Finmap.lookup_insert, decide_eq_true rfl, cond_true, List.getLast?_append]
      rfl
    · rw [Finmap.lookup_insert_of_ne _ hid, decide_eq_false (Ne.symm hid), cond_false, List.append_nil]
      exact h.pending id
  | flush =>
    simp only [LiveTable.step, Option.ite_none_right_eq_some, Option.some.injEq] at hstep
    obtain ⟨htimer, rfl⟩ := hstep
    exact ⟨_, if_neg (h.flushTimer.1 htimer), agree_flush h⟩
  | clear i =>
    simp only [LiveTable.step] at hstep
    split at hstep
    · cases hstep
    · rename_i updatedIds hi
      cases hstep
      rw [h.clearTimers] at hi
      refine ⟨{ p with highlight := p.highlight \ updatedIds, clearTimers := p.clearTimers.eraseIdx i }, ?_, h.pending,
        h.flushTimer, h.queries, ?_, h.newCount, h.newSeenIds, ?_⟩
      · unfold PlainTable.step
        dsimp only
        rw [hi]
      · dsimp only
        rw [h.highlight]
      · dsimp only
        rw [h.clearTimers]
  | resetNewCount =>
    cases hstep
    exact ⟨_, rfl, h.pending, h.flushTimer, h.queries, h.highlight, rfl, rfl, h.clearTimers⟩
  | fetched queries =>
    cases hstep
    exact ⟨_, rfl, h.pending, h.flushTimer, rfl, h.highlight, h.newCount, h.newSeenIds, h.clearTimers⟩

/-! ## What the table keeps -/

/-- A timer will end each highlight, and the count is that of the new sagas. -/
structure LiveTable.Tidy (t : LiveTable ρ) : Prop where
  cleared : ∀ id ∈ t.highlight, ∃ ids ∈ t.clearTimers, id ∈ ids
  counted : t.newCount = t.newSeenIds.card

theorem tidy_step {a : TableAct ρ} (h : t.Tidy) (hstep : t.step a = some t') : t'.Tidy := by
  cases a with
  | message m =>
    cases hstep
    exact ⟨h.cleared, h.counted⟩
  | flush =>
    simp only [LiveTable.step, Option.ite_none_right_eq_some, Option.some.injEq] at hstep
    obtain ⟨-, rfl⟩ := hstep
    unfold LiveTable.flush
    constructor
    · dsimp only
      intro id hid
      rcases Finset.mem_union.1 hid with hid | hid
      · obtain ⟨ids, hmem, hin⟩ := h.cleared id hid
        refine ⟨ids, ?_, hin⟩
        split
        · exact hmem
        · exact List.mem_append_left _ hmem
      · rw [if_neg (Finset.ne_empty_of_mem hid)]
        exact ⟨_, List.mem_append_right _ (List.mem_singleton_self _), hid⟩
    · dsimp only
      rw [Finset.card_union_of_disjoint, h.counted]
      rw [Finset.disjoint_left]
      intro id hseen hnew
      exact (Finset.mem_filter.1 hnew).2.2 hseen
  | clear i =>
    simp only [LiveTable.step] at hstep
    split at hstep
    · cases hstep
    · rename_i updatedIds hi
      cases hstep
      refine ⟨fun id hid => ?_, h.counted⟩
      obtain ⟨hid, hnot⟩ := Finset.mem_sdiff.1 hid
      obtain ⟨ids, hmem, hin⟩ := h.cleared id hid
      obtain ⟨j, hj⟩ := List.mem_iff_getElem?.1 hmem
      -- the timer that ends it is another one
      have hne : j ≠ i := by
        rintro rfl
        rw [hi] at hj
        cases hj
        exact hnot hin
      exact ⟨ids, List.mem_eraseIdx_iff_getElem?.2 ⟨j, hne, hj⟩, hin⟩
  | resetNewCount =>
    cases hstep
    exact ⟨h.cleared, rfl⟩
  | fetched queries =>
    cases hstep
    exact ⟨h.cleared, h.counted⟩

/-- In every run the table is as if it merged the messages one by one at each flush, in the order they came in; while a
message waits so does the timer that merges it; a timer will end each highlight; and the count of new sagas is the
number of sagas without a row it was told of since it was reset. -/
theorem table_agrees {as : List (TableAct ρ)} (h : run LiveTable.step .initial as = some t) :
    ∃ p, run PlainTable.step .initial as = some p ∧
      t.queries = p.queries ∧ t.highlight = p.highlight ∧ t.newCount = p.newCount ∧
      (t.flushTimer = true ↔ p.queue ≠ []) ∧
      (∀ id ∈ t.highlight, ∃ ids ∈ t.clearTimers, id ∈ ids) ∧
      t.newCount = t.newSeenIds.card := by
  obtain ⟨⟨p, hp, hagree⟩, htidy⟩ := run_history
    (I := fun as t => (∃ p, run PlainTable.step .initial as = some p ∧ Agree t p) ∧ t.Tidy)
    (fun as t a t' ⟨⟨p, hp, hagree⟩, htidy⟩ hstep => by
      obtain ⟨p', hp', hagree'⟩ := agree_step hagree hstep
      exact ⟨⟨p', run_append_some.2 ⟨p, hp, run_cons_some.2 ⟨p', hp', rfl⟩⟩, hagree'⟩, tidy_step htidy hstep⟩)
    ⟨⟨.initial, rfl, fun _ => rfl, by simp [LiveTable.initial, PlainTable.initial], rfl, rfl, rfl, rfl, rfl⟩,
      fun _ hid => absurd hid (Finset.notMem_empty _), rfl⟩ h
  exact ⟨p, hp, hagree.queries, hagree.highlight, hagree.newCount, hagree.flushTimer, htidy.cleared, htidy.counted⟩

namespace TableAct

/-- A message of a saga, by the id of its event. -/
def sampleMessage (sagaId eventId : String) : SagaSseMessage :=
  { RedisPublisherService.payload id HubAct.sampleUpdate with sagaId, eventId }

def sampleRow (sagaId : String) : SagaStateDto Unit :=
  ⟨sagaId, .running, "order.created", none, "e0", none, none, "2024-01-01T00:00:00.000Z", none, 1, ()⟩

/-- A page has one saga; two messages of it and two of another one come before the first flush, one after it. -/
def sampleRun : List (TableAct Unit) :=
  [.fetched [none, some [⟨[sampleRow "saga-1"], none⟩]], .message (sampleMessage "saga-1" "e1"),
    .message (sampleMessage "saga-2" "e2"), .message (sampleMessage "saga-1" "e3"),
    .message (sampleMessage "saga-2" "e4"), .flush, .message (sampleMessage "saga-2" "e5"), .flush]

end TableAct

theorem table_agrees_sample :
    ∃ t p, run LiveTable.step .initial TableAct.sampleRun = some t ∧
      run PlainTable.step .initial TableAct.sampleRun = some p ∧ t.queries = p.queries ∧
      t.queries.rows.map (·.lastEventId) = ["e3"] ∧ t.newCount = 1 ∧ t.highlight = {"saga-1"} := by
  obtain ⟨t, hr, ht⟩ := exists_of_run LiveTable.step .initial TableAct.sampleRun
    (fun t => decide (t.queries.rows.map (·.lastEventId) = ["e3"]) && decide (t.newCount = 1) &&
      decide (t.highlight = {"saga-1"})) (by decide +kernel)
  simp only [Bool.and_eq_true, decide_eq_true_eq] at ht
  obtain ⟨p, hp, hqueries, -⟩ := table_agrees hr
  exact ⟨t, p, hr, hp, hqueries, ht.1.1, ht.1.2, ht.2⟩

end Saga.Monitor
