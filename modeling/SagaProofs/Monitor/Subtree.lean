/-
The tree of a saga as the client of the monitor shows it: `filterSubtree` keeps a saga with those below it by
passes over the sagas of its root. Unlike the search of the server it ends for all parent ids; where the
server's search ends too they agree.
-/
import SagaProofs.Lib.Saturate
import SagaProofs.Monitor.Projection

namespace Saga.Monitor

open Relation Lts

/-! ## The transformer -/

/-- The sagas that name a parent, each with it. -/
def parentLinks (sagas : List SagaStateRecord) : List (String × String) :=
  sagas.filterMap fun s => (truthy s.sagaParentId).map fun parent => (parent, s.sagaId)

/-- `filterSubtree`, with fuel for its `while` loop. -/
def filterSubtree (sagas : List SagaStateRecord) (sagaId : String) (fuel : ℕ) : Option (List SagaStateRecord) :=
  match sagas.find? (·.sagaId = sagaId) with
  | none => some sagas
  | some target =>
    if target.sagaId = target.sagaRootId then some sagas
    else (Saturate.saturate (parentLinks sagas) fuel [sagaId]).map fun included =>
      -- the comparator puts the target first and keeps the order of the others
      (sagas.filter (·.sagaId ∈ included)).mergeSort fun a b => a.sagaId = sagaId || b.sagaId ≠ sagaId

/-! ## What it keeps -/

section Rows

variable {sagas rows : List SagaStateRecord} {sagaId : String} {target : SagaStateRecord} {fuel : ℕ}

theorem linked_eq (sagas : List SagaStateRecord) : Saturate.Linked (parentLinks sagas) = IsParent sagas := by
  ext parent child
  unfold Saturate.Linked parentLinks IsParent
  simp only [List.mem_filterMap, Option.map_eq_some_iff, truthy_eq_some, Prod.mk.injEq]
  constructor
  · rintro ⟨s, hs, p, hp, rfl, rfl⟩
    exact ⟨s, hs, rfl, hp⟩
  · rintro ⟨s, hs, rfl, hp⟩
    exact ⟨s, hs, _, hp, rfl, rfl⟩

theorem length_parentLinks (sagas : List SagaStateRecord) : (parentLinks sagas).length ≤ sagas.length :=
  List.length_filterMap_le _ sagas

/-- The comparator puts the target before all others. -/
theorem head_mergeSort (hmem : target ∈ rows) (hn : (rows.map (·.sagaId)).Nodup) :
    (rows.mergeSort fun a b => a.sagaId = target.sagaId || b.sagaId ≠ target.sagaId).head? = some target := by
  have hsorted : (rows.mergeSort fun a b => a.sagaId = target.sagaId || b.sagaId ≠ target.sagaId).Pairwise
      fun a b => (a.sagaId = target.sagaId || b.sagaId ≠ target.sagaId) = true := by
    refine List.pairwise_mergeSort (fun a b c => ?_) (fun a b => ?_) rows
    · simp only [Bool.or_eq_true, decide_eq_true_iff]
      tauto
    · simp only [Bool.or_eq_true, decide_eq_true_iff]
      tauto
  have hperm := List.mergeSort_perm rows fun a b => a.sagaId = target.sagaId || b.sagaId ≠ target.sagaId
  cases hs : rows.mergeSort fun a b => a.sagaId = target.sagaId || b.sagaId ≠ target.sagaId with
  | nil =>
    rw [hs] at hperm
    exact absurd (hperm.mem_iff.2 hmem) List.not_mem_nil
  | cons first rest =>
    rw [hs] at hsorted hperm
    rcases List.mem_cons.1 (hperm.mem_iff.2 hmem) with rfl | hrest
    · rfl
    · have hle := (List.pairwise_cons.1 hsorted).1 target hrest
      have hid : first.sagaId = target.sagaId := by simpa using hle
      rw [List.inj_on_of_nodup_map hn (hperm.mem_iff.1 (List.mem_cons_self ..)) hmem hid]
      rfl

/-- For every list of sagas the transformer ends, with a saga that is not the root first and then those below
it, each once. -/
theorem filterSubtree_spec (hn : (sagas.map (·.sagaId)).Nodup) (hmem : target ∈ sagas)
    (hroot : target.sagaId ≠ target.sagaRootId) (hfuel : sagas.length < fuel) :
    ∃ rows, filterSubtree sagas target.sagaId fuel = some rows ∧ rows.head? = some target ∧ rows.Nodup ∧
      ∀ s, s ∈ rows ↔ s ∈ sagas ∧ Descends sagas target.sagaId s.sagaId := by
  have hfind : sagas.find? (·.sagaId = target.sagaId) = some target := by
    obtain ⟨found, hfound⟩ : ∃ found, sagas.find? (·.sagaId = target.sagaId) = some found :=
      Option.isSome_iff_exists.1 (List.find?_isSome.2 ⟨target, hmem, decide_eq_true rfl⟩)
    have hid : found.sagaId = target.sagaId := by simpa using List.find?_some hfound
    rw [hfound, List.inj_on_of_nodup_map hn (List.mem_of_find?_eq_some hfound) hmem hid]
  obtain ⟨included, hincluded, -, hreach⟩ := Saturate.saturate_singleton (parentLinks sagas) target.sagaId
    (Nat.lt_of_le_of_lt (length_parentLinks sagas) hfuel)
  have hdesc : ∀ id, id ∈ included ↔ Descends sagas target.sagaId id := by
    intro id
    rw [hreach, linked_eq]
    rfl
  have hperm := List.mergeSort_perm (sagas.filter (·.sagaId ∈ included)) fun a b =>
    a.sagaId = target.sagaId || b.sagaId ≠ target.sagaId
  refine ⟨(sagas.filter (·.sagaId ∈ included)).mergeSort fun a b => a.sagaId = target.sagaId || b.sagaId ≠ target.sagaId,
    ?_, head_mergeSort ?_ (hn.sublist (List.filter_sublist.map _)), ?_, fun s => ?_⟩
  · unfold filterSubtree
    rw [hfind]
    dsimp only
    rw [if_neg hroot, hincluded]
    rfl
  · exact List.mem_filter.2 ⟨hmem, decide_eq_true ((hdesc _).2 .refl)⟩
  · exact hperm.nodup_iff.2 ((List.Nodup.of_map _ hn).filter _)
  · rw [hperm.mem_iff, List.mem_filter, decide_eq_true_iff, hdesc]

end Rows

/-! ## The client and the server -/

section Agreement

variable {Time : Type} {db : Database Time} {repo : SagaStateRepository} {sagaId : String} {row : SagaStateRow Time}

/-- For the sagas of any stored root, whatever parents they name, the client's tree of a saga below the root is
found, with the saga first; and whenever the server's search for its events ends, it is over the same sagas. -/
theorem subtree_agrees (hrepo : repo.Reads db) (hrow : db.states.lookup sagaId = some row)
    (hroot : sagaId ≠ row.sagaRootId) {fuel : ℕ} (hfuel : (repo.findByRootId row.sagaRootId).length < fuel) :
    ∃ rows, filterSubtree (repo.findByRootId row.sagaRootId) sagaId fuel = some rows ∧
      rows.head? = some ⟨sagaId, row.sagaRootId, row.sagaParentId⟩ ∧ rows.Nodup ∧
      (∀ s, s ∈ rows ↔ s ∈ repo.findByRootId row.sagaRootId ∧
        Descends (repo.findByRootId row.sagaRootId) sagaId s.sagaId) ∧
      ∀ n ids, collectDescendantIds repo sagaId n = some ids → ∀ id, id ∈ ids ↔ ∃ s ∈ rows, s.sagaId = id := by
  have hstate : repo.findById sagaId = some ⟨sagaId, row.sagaRootId, row.sagaParentId⟩ := by
    rw [hrepo.findById, hrow]
    rfl
  have hmem : (⟨sagaId, row.sagaRootId, row.sagaParentId⟩ : SagaStateRecord) ∈ repo.findByRootId row.sagaRootId :=
    (hrepo.findByRootId _ _).2 ⟨hstate, rfl⟩
  obtain ⟨rows, hrows, hhead, hn, hiff⟩ := filterSubtree_spec (repo.distinct _) hmem hroot hfuel
  refine ⟨rows, hrows, hhead, hn, hiff, fun n ids hids id => ?_⟩
  unfold collectDescendantIds at hids
  rw [hstate] at hids
  rw [Search.mem_of_search hids, below_iff]
  constructor
  · intro hd
    -- a saga below another has a state
    obtain ⟨s, hs, rfl⟩ : ∃ s ∈ repo.findByRootId row.sagaRootId, s.sagaId = id := by
      rcases List.mem_cons.1 (mem_of_below (below_iff.2 hd)) with rfl | hin
      · exact ⟨_, hmem, rfl⟩
      · obtain ⟨s, hs, hid⟩ := List.mem_map.1 hin
        exact ⟨s, hs, hid⟩
    exact ⟨s, (hiff s).2 ⟨hs, hd⟩, rfl⟩
  · rintro ⟨s, hs, rfl⟩
    exact ((hiff s).1 hs).2

end Agreement

/-- No event of the root saga has arrived; the tree of the saga below it is shown. -/
theorem subtree_agrees_sample :
    ∃ s repo rows, run monitoredStep.sample .empty MonitoredAct.sampleRun = some s ∧ repo.Reads s.projector.db ∧
      filterSubtree (repo.findByRootId "saga-1") "saga-2" ((repo.findByRootId "saga-1").length + 1) = some rows ∧
      rows.Nodup ∧ ∀ n ids, collectDescendantIds repo "saga-2" n = some ids →
        ∀ id, id ∈ ids ↔ ∃ s ∈ rows, s.sagaId = id := by
  obtain ⟨s, hr, hp⟩ := exists_of_run monitoredStep.sample Monitored.empty MonitoredAct.sampleRun
    (fun s => (s.projector.db.states.lookup "saga-2").any (·.sagaRootId = "saga-1")) (by decide +kernel)
  obtain ⟨row, hrow, hroot⟩ := (Option.any_eq_true _ _).1 hp
  rw [decide_eq_true_iff] at hroot
  obtain ⟨repo, hrepo⟩ := exists_reads s.projector.db
  obtain ⟨rows, hrows, -, hn, -, hagree⟩ :=
    subtree_agrees hrepo hrow (by rw [hroot]; decide) (Nat.lt_succ_self (repo.findByRootId row.sagaRootId).length)
  rw [hroot] at hrows
  exact ⟨s, repo, rows, hr, hrepo, hrows, hn, hagree⟩

end Saga.Monitor
