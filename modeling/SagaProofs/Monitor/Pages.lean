/-
The events of a saga page by page: `GetSagaEventsQuery.execute` finds the sagas below one and reads a page of
their events behind a cursor, and `useTreeEvents` of the client fetches pages until there is none left, while
the projector writes on. Prisma lists the rows in the order of their time, and from behind the cursor; rows of
the same time have no order it promises, so the times are taken to be distinct.
-/
import SagaProofs.Lib.Paging
import SagaProofs.Monitor.Subtree

namespace Saga.Monitor

open Lts

variable {Time : Type} [LinearOrder Time]

/-! ## The query -/

/-- The rows of a saga event log are read in any order. -/
structure LogReads (rows : List (BulkInsertEventLogData Time)) (db : Database Time) : Prop where
  mem : ∀ row, row ∈ rows ↔ db.log.lookup row.sagaEventId = some row
  nodup : rows.Nodup

/-- `findBySagaIds` of `PrismaSagaEventLogRepository`. -/
def findBySagaIds (log : List (BulkInsertEventLogData Time)) (sagaIds : List String) (cursor : Option String)
    (limit : Option ℕ) : List (BulkInsertEventLogData Time) :=
  let take := limit.getD 50
  let rows : List (BulkInsertEventLogData Time) :=
    (log.filter (·.sagaId ∈ sagaIds)).insertionSort fun a b => a.sagaPublishedAt ≤ b.sagaPublishedAt
  match truthy cursor with
  | some c => ((rows.dropWhile fun row => row.sagaEventId ≠ c).drop 1).take (take + 1)
  | none => rows.take (take + 1)

structure CursorPaginationResult (Time : Type) where
  data : List (BulkInsertEventLogData Time)
  nextCursor : Option String

/-- `GetSagaEventsQuery.execute` with the ids that `collectDescendantIds` has found. -/
def GetSagaEventsQuery.page (log : List (BulkInsertEventLogData Time)) (sagaIds : List String) (cursor : Option String)
    (limit : Option ℕ) : CursorPaginationResult Time :=
  let effectiveLimit := limit.getD 50
  let records := findBySagaIds log sagaIds cursor (some effectiveLimit)
  let hasMore := decide (effectiveLimit < records.length)
  let data := if hasMore then records.take effectiveLimit else records
  ⟨data, if hasMore then data.getLast?.map (·.sagaEventId) else none⟩

def GetSagaEventsQuery.execute (repo : SagaStateRepository) (log : List (BulkInsertEventLogData Time)) (sagaId : String)
    (cursor : Option String) (limit : Option ℕ) (fuel : ℕ) : Option (CursorPaginationResult Time) :=
  (collectDescendantIds repo sagaId fuel).map fun sagaIds => page log sagaIds cursor limit

/-! ## The client -/

/-- The `do … while` loop of `useTreeEvents`, with fuel: its `k`-th request is answered by `fetch k`. -/
def fetchAllEvents (fetch : ℕ → Option String → CursorPaginationResult Time) :
    ℕ → ℕ → Option String → List (BulkInsertEventLogData Time) → Option (List (BulkInsertEventLogData Time))
  | 0, _, _, _ => none
  | fuel + 1, k, cursor, allEvents =>
    let page := fetch k cursor
    match truthy page.nextCursor with
    | some c => fetchAllEvents fetch fuel (k + 1) (some c) (allEvents ++ page.data)
    | none => some (allEvents ++ page.data)

/-! ## The loop as reading in pages -/

section Loop

variable {log : List (BulkInsertEventLogData Time)} {sagaIds : List String}

/-- The rows of the log that a page is taken from. -/
def selected (log : List (BulkInsertEventLogData Time)) (sagaIds : List String) : List (BulkInsertEventLogData Time) :=
  log.filter (·.sagaId ∈ sagaIds)

/-- In rows in order, what comes after one of them is what has a later time. -/
theorem drop_dropWhile_eq {l : List (BulkInsertEventLogData Time)} {c : BulkInsertEventLogData Time}
    (hs : l.Pairwise fun a b => a.sagaPublishedAt < b.sagaPublishedAt) (hn : (l.map (·.sagaEventId)).Nodup) (hc : c ∈ l) :
    (l.dropWhile fun row => row.sagaEventId ≠ c.sagaEventId).drop 1 =
      l.filter fun row => c.sagaPublishedAt < row.sagaPublishedAt := by
  obtain ⟨pre, post, rfl⟩ := List.append_of_mem hc
  obtain ⟨-, hpost, hlt⟩ := List.pairwise_append.1 hs
  have hpre : ∀ row ∈ pre, row.sagaEventId ≠ c.sagaEventId := by
    intro row hrow heq
    rw [List.map_append, List.nodup_append] at hn
    exact hn.2.2 _ (List.mem_map_of_mem hrow) _ (List.mem_map_of_mem (List.mem_cons_self ..)) heq
  rw [List.dropWhile_append_of_pos fun row hrow => by simpa using hpre row hrow,
    List.dropWhile_cons_of_neg (by simp), List.drop_one, List.tail_cons, List.filter_append,
    List.filter_cons_of_neg (by simp)]
  have hnone : pre.filter (fun row => c.sagaPublishedAt < row.sagaPublishedAt) = [] :=
    List.filter_eq_nil_iff.2 fun row hrow => by
      simpa using le_of_lt (hlt row hrow c (List.mem_cons_self ..))
  have hall : post.filter (fun row => c.sagaPublishedAt < row.sagaPublishedAt) = post :=
    List.filter_eq_self.2 fun row hrow => by simpa using (List.pairwise_cons.1 hpost).1 row hrow
  rw [hnone, hall, List.nil_append]

theorem behind_none (rows : List (BulkInsertEventLogData Time)) :
    Paging.behind (·.sagaPublishedAt) none rows =
      rows.insertionSort fun a b => a.sagaPublishedAt ≤ b.sagaPublishedAt := by
  unfold Paging.behind
  congr 1
  exact List.filter_eq_self.2 fun _ _ => rfl

/-- The rows have ids of their own, each of which can be a cursor. -/
structure Identified (rows : List (BulkInsertEventLogData Time)) : Prop where
  nodup : (rows.map (·.sagaEventId)).Nodup
  ids : ∀ row ∈ rows, row.sagaEventId ≠ ""

/-- The cursor is a row of the time behind which the next page is read. -/
def CursorAt (rows : List (BulkInsertEventLogData Time)) (cursor : Option String) (after : Option Time) : Prop :=
  (cursor = none ∧ after = none) ∨
    ∃ c ∈ rows, cursor = some c.sagaEventId ∧ after = some c.sagaPublishedAt

section Page

variable {cursor : Option String} {after : Option Time} {n : ℕ}
variable (hid : Identified (selected log sagaIds))
variable (hinj : ∀ r ∈ selected log sagaIds, ∀ r' ∈ selected log sagaIds, r.sagaPublishedAt = r'.sagaPublishedAt → r = r')
variable (hc : CursorAt (selected log sagaIds) cursor after)

include hid hinj hc

/-- The rows behind the cursor are those of a later time. -/
theorem findBySagaIds_eq : findBySagaIds log sagaIds cursor (some n) =
    (Paging.behind (·.sagaPublishedAt) after (selected log sagaIds)).take (n + 1) := by
  have hn : (selected log sagaIds).Nodup := .of_map _ hid.nodup
  unfold findBySagaIds
  dsimp only
  rcases hc with ⟨rfl, rfl⟩ | ⟨c, hmem, rfl, rfl⟩
  · rw [behind_none]
    rfl
  · rw [truthy_some (hid.ids c hmem)]
    show List.take (n + 1) (List.drop 1 (List.dropWhile _ ((selected log sagaIds).insertionSort _))) = _
    congr 1
    have hsorted : (Paging.behind (·.sagaPublishedAt) none (selected log sagaIds)).Pairwise
        fun a b => a.sagaPublishedAt < b.sagaPublishedAt := Paging.behind_sorted hn hinj
    have hperm : ((selected log sagaIds).insertionSort fun a b => a.sagaPublishedAt ≤ b.sagaPublishedAt).Perm
        (selected log sagaIds) := List.perm_insertionSort _ _
    rw [behind_none] at hsorted
    rw [drop_dropWhile_eq hsorted ((hperm.map _).nodup_iff.2 hid.nodup) (hperm.mem_iff.2 hmem)]
    -- both are the later rows, in order
    refine List.Perm.eq_of_pairwise
      (fun a b _ _ (hab : a.sagaPublishedAt < b.sagaPublishedAt) hba => absurd hba (lt_asymm hab)) (hsorted.filter _)
      (Paging.behind_sorted hn hinj) ?_
    exact (hperm.filter _).trans (List.perm_insertionSort _ _).symm

/-- A page has the first rows behind the cursor, and the last of them as the next cursor when there are more. -/
theorem GetSagaEventsQuery.page_eq : page log sagaIds cursor (some n) =
    if n < (Paging.behind (·.sagaPublishedAt) after (selected log sagaIds)).length then
      ⟨(Paging.behind (·.sagaPublishedAt) after (selected log sagaIds)).take n,
        ((Paging.behind (·.sagaPublishedAt) after (selected log sagaIds)).take n).getLast?.map (·.sagaEventId)⟩
    else ⟨Paging.behind (·.sagaPublishedAt) after (selected log sagaIds), none⟩ := by
  unfold GetSagaEventsQuery.page
  simp only [Option.getD_some, findBySagaIds_eq hid hinj hc, List.length_take, List.take_take, decide_eq_true_eq]
  by_cases hlt : n < (Paging.behind (·.sagaPublishedAt) after (selected log sagaIds)).length
  · have hmore : n < min (n + 1) (Paging.behind (·.sagaPublishedAt) after (selected log sagaIds)).length := by omega
    rw [if_pos hlt, if_pos hmore, if_pos hmore, Nat.min_eq_left (Nat.le_succ n)]
  · have hlast : ¬ n < min (n + 1) (Paging.behind (·.sagaPublishedAt) after (selected log sagaIds)).length := by omega
    rw [if_neg hlt, if_neg hlast, if_neg hlast, List.take_of_length_le (by omega)]

end Page

/-- The loop reads in pages, whatever the server's log and the sagas below the one have become from page to page. -/
theorem fetchAllEvents_eq {fetch : ℕ → Option String → CursorPaginationResult Time}
    {logs : ℕ → List (BulkInsertEventLogData Time)} {ids : ℕ → List String} {n : ℕ} (hn : 0 < n)
    (hg : Paging.Growing (·.sagaPublishedAt) fun k => selected (logs k) (ids k))
    (hid : ∀ k, Identified (selected (logs k) (ids k)))
    (hfetch : ∀ k cursor, fetch k cursor = GetSagaEventsQuery.page (logs k) (ids k) cursor (some n)) {fuel k : ℕ}
    {cursor : Option String} {after : Option Time} (hc : CursorAt (selected (logs k) (ids k)) cursor after)
    (all : List (BulkInsertEventLogData Time)) :
    fetchAllEvents fetch fuel k cursor all =
      Paging.collect (·.sagaPublishedAt) n (fun k => selected (logs k) (ids k)) fuel k after all := by
  induction fuel generalizing k cursor after all with
  | zero => rfl
  | succ fuel ih =>
    have hpage := GetSagaEventsQuery.page_eq (n := n) (hid k) (hg.inj k) hc
    simp only [fetchAllEvents, Paging.collect, hfetch, hpage]
    by_cases hlt : n < (Paging.behind (·.sagaPublishedAt) after (selected (logs k) (ids k))).length
    · obtain ⟨last, hlast⟩ : ∃ last,
          ((Paging.behind (·.sagaPublishedAt) after (selected (logs k) (ids k))).take n).getLast? = some last := by
        refine ⟨_, List.getLast?_eq_some_getLast fun hnil => ?_⟩
        have hlen := congrArg List.length hnil
        rw [List.length_take, List.length_nil] at hlen
        omega
      have hmem : last ∈ selected (logs k) (ids k) :=
        (Paging.mem_behind.1 (List.mem_of_mem_take (List.mem_of_getLast? hlast))).1
      rw [if_pos hlt, if_pos hlt, hlast, Option.map_some, Option.map_some, truthy_some ((hid k).ids last hmem)]
      exact ih (.inr ⟨last, hg.kept k hmem, rfl, rfl⟩) _
    · rw [if_neg hlt, if_neg hlt]
      rfl

end Loop

/-! ## While the projector writes -/

section Runs

variable {Buffer : Type} {encode : String → Buffer} {str : Buffer → String}
variable {publishedNow : Kafka.KafkaMessage Buffer → String} {env : ParseEnv} {topicPrefix : String}
variable {date : String → Time} {localeCompare : String → String → ℤ} {as : List (MonitoredAct Buffer Time)}

/-- The requests of a loop are answered one after the other: each reads the state of the saga, then those of its
root, then the log, at moments between which the sagas run and the projector writes on. It is answered with what
the query returns. -/
structure Answered (step : Monitored Time → MonitoredAct Buffer Time → Option (Monitored Time))
    (moments : ℕ → Monitored Time) (sagaId : String) (n : ℕ)
    (fetch : ℕ → Option String → CursorPaginationResult Time) : Prop where
  later : ∀ i, Reachable step (moments i) (moments (i + 1))
  answer : ∀ k, ∃ (byId byRoot : SagaStateRepository) (log : List (BulkInsertEventLogData Time)),
    byId.Reads (moments (3 * k)).projector.db ∧ byRoot.Reads (moments (3 * k + 1)).projector.db ∧
      LogReads log (moments (3 * k + 2)).projector.db ∧ ∀ cursor fuel page,
        GetSagaEventsQuery.execute { byRoot with findById := byId.findById } log sagaId cursor (some n) fuel =
          some page → fetch k cursor = page

/-- An event that the monitor has of a saga or of one below it. -/
def Shown (s : Monitored Time) (sagaId : String) (row : BulkInsertEventLogData Time) : Prop :=
  s.projector.db.log.lookup row.sagaEventId = some row ∧ StoredUpTo s.projector.db s.world.created sagaId row.sagaId

variable {s s' : Monitored Time} {sagaId : String}

omit [LinearOrder Time] in
theorem Shown.later (hi : MonitoredInv env topicPrefix date as s) (he : Extends s s') {row : BulkInsertEventLogData Time}
    (h : Shown s sagaId row) : Shown s' sagaId row :=
  ⟨he.log _ row h.1, StoredUpTo.later hi he h.2⟩

omit [LinearOrder Time] in
/-- A saga that is stored keeps its root, so the search that has read its state begins with the states of the root it
has later too. -/
theorem collect_later (hi : MonitoredInv env topicPrefix date as s) {as' : List (MonitoredAct Buffer Time)}
    (hi' : MonitoredInv env topicPrefix date as' s') (he : Extends s s') {byId byRoot : SagaStateRepository}
    (hById : byId.Reads s.projector.db) (hByRoot : byRoot.Reads s'.projector.db) (hs : sagaId ∈ s.projector.db.states)
    (fuel : ℕ) : collectDescendantIds { byRoot with findById := byId.findById } sagaId fuel =
      collectDescendantIds byRoot sagaId fuel := by
  obtain ⟨row, hrow⟩ := Finmap.mem_iff.1 hs
  obtain ⟨row', hrow'⟩ := Finmap.mem_iff.1 (he.states sagaId hs)
  have hplaced := hi.states sagaId row hrow
  have hsame : row.sagaRootId = row'.sagaRootId := by
    rw [hplaced.root, (hi'.states sagaId row' hrow').root]
    unfold Forest.root
    rw [(he.created sagaId hplaced.mem).2]
  unfold collectDescendantIds
  dsimp only
  rw [hById.findById, hByRoot.findById, hrow, hrow', Option.map_some, Option.map_some]
  dsimp only
  rw [hsame]

omit [LinearOrder Time] in
/-- What is not stored has nothing below it. -/
theorem collect_of_notMem {byId byRoot : SagaStateRepository} (hById : byId.Reads s.projector.db)
    (hs : sagaId ∉ s.projector.db.states) (fuel : ℕ) :
    collectDescendantIds { byRoot with findById := byId.findById } sagaId fuel = some [sagaId] := by
  unfold collectDescendantIds
  dsimp only
  rw [hById.findById, Finmap.lookup_eq_none.2 hs]
  rfl

omit [LinearOrder Time] in
/-- The query ends when the state of the saga is read before those of its root, with the saga, all that was stored
below it when its state was read, and only what is stored below it when those of its root are. -/
theorem collects_between {as' : List (MonitoredAct Buffer Time)} (hi : MonitoredInv env topicPrefix date as s)
    (hi' : MonitoredInv env topicPrefix date as' s') (he : Extends s s') {byId byRoot : SagaStateRepository}
    (hById : byId.Reads s.projector.db) (hByRoot : byRoot.Reads s'.projector.db) (sagaId : String) :
    ∃ fuel ids, collectDescendantIds { byRoot with findById := byId.findById } sagaId fuel = some ids ∧
      (∀ id, id = sagaId ∨ StoredUpTo s.projector.db s.world.created sagaId id → id ∈ ids) ∧
        ∀ id ∈ ids, id = sagaId ∨ StoredUpTo s'.projector.db s'.world.created sagaId id := by
  by_cases hs : sagaId ∈ s.projector.db.states
  · obtain ⟨fuel, ids, hids, -, hmem⟩ := collects_of_placed hi'.lineage hi'.states hByRoot sagaId
    refine ⟨fuel, ids, (collect_later hi hi' he hById hByRoot hs fuel).trans hids, fun id hid => ?_, fun id hid => ?_⟩
    · exact (hmem id).2 (hid.imp_right (StoredUpTo.later hi he))
    · exact (hmem id).1 hid
  · refine ⟨0, [sagaId], collect_of_notMem hById hs 0, fun id hid => ?_, fun id hid => .inl ?_⟩
    · rcases hid with rfl | hup
      · exact List.mem_singleton_self _
      · exact absurd hup.mem.1 hs
    · exact List.mem_singleton.1 hid

omit [LinearOrder Time] in
/-- Searches that end have found the same sagas. -/
theorem collected_unique {repo : SagaStateRepository} {fuel fuel' : ℕ} {ids ids' : List String}
    (h : collectDescendantIds repo sagaId fuel = some ids) (h' : collectDescendantIds repo sagaId fuel' = some ids')
    (id : String) : id ∈ ids ↔ id ∈ ids' := by
  unfold collectDescendantIds at h h'
  cases hrow : repo.findById sagaId with
  | none =>
    rw [hrow] at h h'
    cases h
    cases h'
    exact Iff.rfl
  | some record =>
    rw [hrow] at h h'
    exact (Search.mem_of_search h id).trans (Search.mem_of_search h' id).symm

theorem GetSagaEventsQuery.page_congr (log : List (BulkInsertEventLogData Time)) {ids ids' : List String}
    (h : ∀ id, id ∈ ids ↔ id ∈ ids') (cursor : Option String) (limit : Option ℕ) :
    page log ids cursor limit = page log ids' cursor limit := by
  have hsame : (fun row : BulkInsertEventLogData Time => decide (row.sagaId ∈ ids)) =
      fun row => decide (row.sagaId ∈ ids') := funext fun row => decide_eq_decide.2 (h row.sagaId)
  unfold page findBySagaIds
  simp only [hsame]

omit [LinearOrder Time] in
/-- A row of the log has an event id of its own, and the time of a publication. -/
theorem publication_of_logged (hi : MonitoredInv env topicPrefix date as s) {id : String}
    {row : BulkInsertEventLogData Time} (h : s.projector.db.log.lookup id = some row) :
    row.sagaEventId = id ∧ ∃ p ∈ s.world.published, row.sagaEventId = p.event.eventId ∧
      row.sagaPublishedAt = date p.event.publishedAt := by
  obtain ⟨m, hid, ⟨-, -, i, -, p, hp, hrep⟩, before, after, rfl⟩ := hi.log id row h
  exact ⟨hid, p, List.mem_of_getElem? hp, hrep.eventId, congrArg date hrep.publishedAt⟩

omit [LinearOrder Time] in
/-- What is logged of the saga or of one that was found below it is shown. -/
theorem shown_of_collected (hi : MonitoredInv env topicPrefix date as s) {row : BulkInsertEventLogData Time}
    (hrow : s.projector.db.log.lookup row.sagaEventId = some row)
    (h : row.sagaId = sagaId ∨ StoredUpTo s.projector.db s.world.created sagaId row.sagaId) : Shown s sagaId row := by
  refine ⟨hrow, h.elim (fun heq => ?_) fun h => h⟩
  have hstored : row.sagaId ∈ s.projector.db.states := (hi.references _).2 ⟨_, row, hrow, rfl⟩
  subst heq
  exact ⟨[], rfl, by simpa using hstored⟩

/-- The times of the publications are distinct. -/
def DistinctTimes (date : String → Time) (w : World) : Prop :=
  ∀ p ∈ w.published, ∀ q ∈ w.published, date p.event.publishedAt = date q.event.publishedAt → p = q

variable {step : Monitored Time → MonitoredAct Buffer Time → Option (Monitored Time)} {moments : ℕ → Monitored Time}
variable {n : ℕ} {fetch : ℕ → Option String → CursorPaginationResult Time}

/-- What the requests are answered with: pages of rows that have what was shown at the first moment of the request
and are shown at its last. -/
theorem exists_rows (hi : ∀ i, ∃ as : List (MonitoredAct Buffer Time), MonitoredInv env topicPrefix date as (moments i))
    (he : ∀ i, Extends (moments i) (moments (i + 1))) (ha : Answered step moments sagaId n fetch) :
    ∃ (logs : ℕ → List (BulkInsertEventLogData Time)) (ids : ℕ → List String),
      (∀ k cursor, fetch k cursor = GetSagaEventsQuery.page (logs k) (ids k) cursor (some n)) ∧
      (∀ k, (logs k).Nodup) ∧ (∀ k row, Shown (moments (3 * k)) sagaId row → row ∈ selected (logs k) (ids k)) ∧
      ∀ k, ∀ row ∈ selected (logs k) (ids k), Shown (moments (3 * k + 2)) sagaId row := by
  choose byId byRoot logs hById hByRoot hlogs hanswer using ha.answer
  have hcollected : ∀ k, ∃ fuel ids,
      collectDescendantIds { byRoot k with findById := (byId k).findById } sagaId fuel = some ids ∧
      (∀ id, id = sagaId ∨ StoredUpTo (moments (3 * k)).projector.db (moments (3 * k)).world.created sagaId id →
        id ∈ ids) ∧
      ∀ id ∈ ids, id = sagaId ∨
        StoredUpTo (moments (3 * k + 1)).projector.db (moments (3 * k + 1)).world.created sagaId id := by
    intro k
    obtain ⟨as, hi₀⟩ := hi (3 * k)
    obtain ⟨as', hi₁⟩ := hi (3 * k + 1)
    exact collects_between hi₀ hi₁ (he _) (hById k) (hByRoot k) sagaId
  choose fuel ids hids hfound hsound using hcollected
  refine ⟨logs, ids, fun k cursor => hanswer k cursor (fuel k) _ ?_, fun k => (hlogs k).nodup, fun k row hrow => ?_,
    fun k row hrow => ?_⟩
  · unfold GetSagaEventsQuery.execute
    rw [hids k]
    rfl
  · refine List.mem_filter.2 ⟨((hlogs k).mem row).2 ?_, decide_eq_true (hfound k _ (.inr hrow.2))⟩
    exact (he _).log _ row ((he _).log _ row hrow.1)
  · obtain ⟨hlog, hin⟩ := List.mem_filter.1 hrow
    obtain ⟨as', hi₁⟩ := hi (3 * k + 1)
    obtain ⟨as'', hi₂⟩ := hi (3 * k + 2)
    refine shown_of_collected hi₂ (((hlogs k).mem row).1 hlog) ?_
    exact (hsound k _ (of_decide_eq_true hin)).imp_right (StoredUpTo.later hi₁ (he _))

omit [LinearOrder Time] in
theorem Shown.eq_of_id {row row' : BulkInsertEventLogData Time} (h : Shown s sagaId row) (h' : Shown s sagaId row')
    (heq : row.sagaEventId = row'.sagaEventId) : row = row' := by
  have hrow := h.1
  rw [heq, h'.1] at hrow
  exact (Option.some.inj hrow).symm

omit [LinearOrder Time] in
/-- One time is that of one publication, which has one row. -/
theorem Shown.eq_of_time (hi : MonitoredInv env topicPrefix date as s) (ht : DistinctTimes date s.world)
    {row row' : BulkInsertEventLogData Time} (h : Shown s sagaId row) (h' : Shown s sagaId row')
    (heq : row.sagaPublishedAt = row'.sagaPublishedAt) : row = row' := by
  obtain ⟨-, p, hp, hid, htime⟩ := publication_of_logged hi h.1
  obtain ⟨-, q, hq, hid', htime'⟩ := publication_of_logged hi h'.1
  have hpq : p = q := ht p hp q hq (htime.symm.trans (heq.trans htime'))
  exact h.eq_of_id h' (by rw [hid, hid', hpq])

omit [LinearOrder Time] in
theorem inv_moments (hstr : ∀ s, str (encode s) = s)
    (hrun : run (monitoredStep encode str publishedNow env topicPrefix date localeCompare) .empty as = some (moments 0))
    (hlater : ∀ i, Reachable (monitoredStep encode str publishedNow env topicPrefix date localeCompare) (moments i)
      (moments (i + 1))) (i : ℕ) :
    (∃ as : List (MonitoredAct Buffer Time), MonitoredInv env topicPrefix date as (moments i)) ∧
      Extends (moments i) (moments (i + 1)) := by
  have hinv : ∃ as : List (MonitoredAct Buffer Time), MonitoredInv env topicPrefix date as (moments i) := by
    induction i with
    | zero => exact ⟨as, monitoredInv_run hstr hrun⟩
    | succ i ih =>
      obtain ⟨as', hi⟩ := ih
      exact (extends_run hstr hi (hlater i)).1
  obtain ⟨as', hi⟩ := hinv
  exact ⟨⟨as', hi⟩, (extends_run hstr hi (hlater i)).2⟩

variable (moments) in
/-- While the sagas run and the projector writes, the loop of the client has in the end, in the order of their times
and so none twice, all events of the saga and of those below it that were shown when it began, and only events that
are shown; it ends when no more events are logged than some list has. -/
theorem pages_of_run (hstr : ∀ s, str (encode s) = s)
    (hrun : run (monitoredStep encode str publishedNow env topicPrefix date localeCompare) .empty as = some (moments 0))
    (ha : Answered (monitoredStep encode str publishedNow env topicPrefix date localeCompare) moments sagaId n fetch)
    (hn : 0 < n) (htimes : ∀ i, DistinctTimes date (moments i).world) (fuel : ℕ) :
    (∀ events, fetchAllEvents fetch fuel 0 none [] = some events →
      (events.Pairwise fun a b => a.sagaPublishedAt < b.sagaPublishedAt) ∧
      (∀ row, Shown (moments 0) sagaId row → row ∈ events) ∧
      ∀ row ∈ events, ∃ i < 3 * fuel, Shown (moments i) sagaId row) ∧
    ∀ total : List (BulkInsertEventLogData Time),
      (∀ i id row, (moments i).projector.db.log.lookup id = some row → row ∈ total) → total.length < fuel →
        ∃ events, fetchAllEvents fetch fuel 0 none [] = some events := by
  have hinv := inv_moments hstr hrun ha.later
  obtain ⟨logs, ids, hfetch, hlogs, hfirst, hshown⟩ := exists_rows (fun i => (hinv i).1) (fun i => (hinv i).2) ha
  have hg : Paging.Growing (·.sagaPublishedAt) fun k => selected (logs k) (ids k) := by
    refine ⟨fun k row hrow => ?_, fun k => (hlogs k).filter _, fun k r hr r' hr' heq => ?_⟩
    · obtain ⟨⟨as', hi⟩, hext⟩ := hinv (3 * k + 2)
      exact hfirst (k + 1) row ((hshown k row hrow).later hi hext)
    · obtain ⟨⟨as', hi⟩, -⟩ := hinv (3 * k + 2)
      exact (hshown k r hr).eq_of_time hi (htimes _) (hshown k r' hr') heq
  have hid : ∀ k, Identified (selected (logs k) (ids k)) := by
    intro k
    obtain ⟨⟨as', hi⟩, -⟩ := hinv (3 * k + 2)
    refine ⟨List.Nodup.map_on (fun r hr r' hr' heq => (hshown k r hr).eq_of_id (hshown k r' hr') heq) (hg.nodup k),
      fun r hr => ?_⟩
    obtain ⟨-, p, hp, hpid, -⟩ := publication_of_logged hi (hshown k r hr).1
    rw [hpid]
    exact hi.ids p hp
  have hread : Paging.Read (fun row : BulkInsertEventLogData Time => row.sagaPublishedAt)
      (fun k => selected (logs k) (ids k)) 0 none [] := Paging.Read.nil _
  rw [fetchAllEvents_eq hn hg hid hfetch (.inl ⟨rfl, rfl⟩)]
  constructor
  · intro events h
    obtain ⟨hsorted, hsub, hsound⟩ := hread.collect hg hn h
    refine ⟨hsorted, fun row hrow => hsub (hfirst 0 row hrow), fun row hrow => ?_⟩
    obtain ⟨j, hj, hmem⟩ := hsound row hrow
    exact ⟨3 * j + 2, by omega, hshown j row hmem⟩
  · intro total htotal hfuel
    exact hread.exists_collect hg hn (fun j row hrow => htotal _ _ row (hshown j row hrow).1) hfuel

end Runs

/-! ## The pages of a sample -/

omit [LinearOrder Time] in
theorem exists_logReads (db : Database Time) : ∃ log, LogReads log db ∧ log.length ≤ db.log.keys.card := by
  refine ⟨db.log.keys.toList.filterMap fun id => (db.log.lookup id).filter (·.sagaEventId = id), ⟨fun row => ?_, ?_⟩,
    (List.length_filterMap_le _ _).trans (Finset.length_toList _).le⟩
  · simp only [List.mem_filterMap, Finset.mem_toList, Option.filter_eq_some_iff, decide_eq_true_iff]
    constructor
    · rintro ⟨id, -, hrow, rfl⟩
      exact hrow
    · intro hrow
      exact ⟨row.sagaEventId, Finmap.mem_iff.2 ⟨row, hrow⟩, hrow, rfl⟩
  · refine (Finset.nodup_toList _).filterMap fun id id' row hid hid' => ?_
    obtain ⟨-, h⟩ := Option.filter_eq_some_iff.1 hid
    obtain ⟨-, h'⟩ := Option.filter_eq_some_iff.1 hid'
    exact (of_decide_eq_true h).symm.trans (of_decide_eq_true h')

/-- The projector has nothing more to write, and the pages have one event each. -/
theorem pages_of_run_sample :
    ∃ s fetch events, run monitoredStep.sample .empty MonitoredAct.sampleRun = some s ∧
      fetchAllEvents fetch 4 0 none [] = some events ∧ (events.Pairwise fun a b => a.sagaPublishedAt < b.sagaPublishedAt) ∧
        ∀ row, Shown s "saga-2" row → row ∈ events := by
  obtain ⟨s, hr, hp⟩ := exists_of_run monitoredStep.sample Monitored.empty MonitoredAct.sampleRun
    (fun s => decide (s.world.published.map fun p : Publication => p.event.publishedAt).Nodup &&
      decide (s.projector.db.log.keys.card < 4)) (by decide +kernel)
  rw [Bool.and_eq_true, decide_eq_true_iff, decide_eq_true_iff] at hp
  obtain ⟨repo, hrepo⟩ := exists_reads s.projector.db
  obtain ⟨log, hlog, hlen⟩ := exists_logReads s.projector.db
  have hstr : ∀ v : String, id (id v) = v := fun _ => rfl
  have hi := monitoredInv_run hstr hr
  obtain ⟨fuel, ids, hids, -⟩ := collects_of_placed hi.lineage hi.states hrepo "saga-2"
  let fetch (_ : ℕ) (cursor : Option String) := GetSagaEventsQuery.page log ids cursor (some 1)
  have ha : Answered monitoredStep.sample (fun _ => s) "saga-2" 1 fetch := by
    refine ⟨fun _ => .refl s, fun k => ⟨repo, repo, log, hrepo, hrepo, hlog, fun cursor fuel' page hpage => ?_⟩⟩
    obtain ⟨ids', hids', rfl⟩ := Option.map_eq_some_iff.1 hpage
    exact GetSagaEventsQuery.page_congr log (collected_unique hids hids') cursor (some 1)
  have htimes : DistinctTimes id s.world := fun p hp' q hq heq => List.inj_on_of_nodup_map hp.1 hp' hq heq
  obtain ⟨hspec, hends⟩ := pages_of_run (fun _ => s) hstr hr ha Nat.one_pos (fun _ => htimes) 4
  have hlogged : ∀ (_ : ℕ) id row, s.projector.db.log.lookup id = some row → row ∈ log := by
    intro _ id row hrow
    rw [hlog.mem, (publication_of_logged hi hrow).1]
    exact hrow
  obtain ⟨events, hevents⟩ := hends log hlogged (Nat.lt_of_le_of_lt hlen hp.2)
  obtain ⟨hsorted, hall, -⟩ := hspec events hevents
  exact ⟨s, fetch, events, hr, hevents, hsorted, hall⟩

end Saga.Monitor
