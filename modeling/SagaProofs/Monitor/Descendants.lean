/-
`GetSagaEventsQuery.collectDescendantIds` of the monitor: the sagas below one, found breadth-first over the
parent ids of the stored states. Parent ids come from the headers of messages, so they may form a cycle; the
search skips a saga that is its own parent and no other cycle.
-/
import SagaProofs.Core.Event
import SagaProofs.Lib.Search

namespace Saga.Monitor

open Relation

/-! ## The query -/

/-- The columns of a state that the query reads. -/
structure SagaStateRecord where
  sagaId : String
  sagaRootId : String
  sagaParentId : Option String
  deriving DecidableEq

/-- The reads of the repository. The saga id is the primary key, so no list has one twice. -/
structure SagaStateRepository where
  findById : String → Option SagaStateRecord
  findByRootId : String → List SagaStateRecord
  distinct : ∀ rootId, ((findByRootId rootId).map (·.sagaId)).Nodup

/-- The body of the loop that builds `childrenMap`. -/
def addChild (childrenMap : AList fun _ : String => List SagaStateRecord) (s : SagaStateRecord) :
    AList fun _ : String => List SagaStateRecord :=
  match truthy s.sagaParentId with
  | some parent =>
    if parent ≠ s.sagaId then childrenMap.insert parent ((childrenMap.lookup parent).getD [] ++ [s]) else childrenMap
  | none => childrenMap

def childrenMap (allStates : List SagaStateRecord) : AList fun _ : String => List SagaStateRecord :=
  allStates.foldl addChild ∅

/-- What is pushed for a saga: the ids of `childrenMap.get(current) ?? []`. -/
def childIds (allStates : List SagaStateRecord) (current : String) : List String :=
  (((childrenMap allStates).lookup current).getD []).map (·.sagaId)

/-- `collectDescendantIds`, with fuel for its `while` loop. -/
def collectDescendantIds (repo : SagaStateRepository) (sagaId : String) (fuel : ℕ) : Option (List String) :=
  match repo.findById sagaId with
  | none => some [sagaId]
  | some state => Search.search (childIds (repo.findByRootId state.sagaRootId)) fuel [sagaId] [sagaId]

/-! ## What it is for -/

/-- The states of the root of a saga; a saga that is not stored has no root. -/
def SagaStateRepository.statesOfRoot (repo : SagaStateRepository) (sagaId : String) : List SagaStateRecord :=
  match repo.findById sagaId with
  | none => []
  | some state => repo.findByRootId state.sagaRootId

/-- A parent link of one of the states; an empty parent id is no link. -/
def IsParent (states : List SagaStateRecord) (parent child : String) : Prop :=
  ∃ s ∈ states, s.sagaId = child ∧ s.sagaParentId = some parent ∧ parent ≠ ""

/-- A saga and those reached from it through parent links. -/
def Descends (states : List SagaStateRecord) (ancestor descendant : String) : Prop :=
  ReflTransGen (IsParent states) ancestor descendant

/-- The query ends, with the saga and each of its descendants once. -/
def CollectsDescendants (repo : SagaStateRepository) (sagaId : String) : Prop :=
  ∃ fuel ids, collectDescendantIds repo sagaId fuel = some ids ∧ ids.Nodup ∧
    ∀ id, id ∈ ids ↔ Descends (repo.statesOfRoot sagaId) sagaId id

/-! ## The children -/

section Children

variable {states : List SagaStateRecord} {parent child : String}

theorem lookup_foldl_addChild (parent : String) : ∀ (states : List SagaStateRecord)
    (map : AList fun _ : String => List SagaStateRecord),
    ((states.foldl addChild map).lookup parent).getD [] =
      (map.lookup parent).getD [] ++ states.filter fun s => truthy s.sagaParentId = some parent ∧ parent ≠ s.sagaId
  | [], map => by simp
  | s :: states, map => by
    rw [List.foldl_cons, lookup_foldl_addChild parent states]
    unfold addChild
    cases hp : truthy s.sagaParentId with
    | none => simp [hp]
    | some p =>
      dsimp only
      by_cases hself : p = s.sagaId
      · rw [if_neg (not_not.2 hself)]
        have hnot : ¬ (truthy s.sagaParentId = some parent ∧ parent ≠ s.sagaId) := by
          rintro ⟨heq, hne⟩
          rw [hp] at heq
          cases heq
          exact hne hself
        rw [List.filter_cons_of_neg (by simpa using hnot)]
      · rw [if_pos hself]
        by_cases hk : parent = p
        · subst hk
          rw [AList.lookup_insert, List.filter_cons_of_pos (by simp [hp, hself])]
          simp
        · rw [AList.lookup_insert_ne hk, List.filter_cons_of_neg (by simp [hp, Ne.symm hk])]

theorem childIds_eq (states : List SagaStateRecord) (parent : String) :
    childIds states parent =
      (states.filter fun s => truthy s.sagaParentId = some parent ∧ parent ≠ s.sagaId).map (·.sagaId) := by
  unfold childIds childrenMap
  rw [lookup_foldl_addChild, AList.lookup_empty]
  rfl

/-- The children are found over the parent links, self-references apart. -/
theorem child_iff : Search.Child (childIds states) parent child ↔ IsParent states parent child ∧ parent ≠ child := by
  unfold Search.Child IsParent
  rw [childIds_eq, List.mem_map]
  simp only [List.mem_filter, decide_eq_true_iff, truthy_eq_some]
  constructor
  · rintro ⟨s, ⟨hs, hlink, hne⟩, rfl⟩
    exact ⟨⟨s, hs, rfl, hlink⟩, hne⟩
  · rintro ⟨⟨s, hs, rfl, hlink⟩, hne⟩
    exact ⟨s, ⟨hs, hlink, hne⟩, rfl⟩

/-- Self-references lead nowhere. -/
theorem below_iff : Search.Below (childIds states) parent child ↔ Descends states parent child := by
  constructor
  · intro h
    exact h.lift id fun _ _ hc => (child_iff.1 hc).1
  · intro h
    induction h with
    | refl => exact .refl
    | @tail b c _ hbc ih =>
      by_cases heq : b = c
      · rwa [← heq]
      · exact ih.tail (child_iff.2 ⟨hbc, heq⟩)

/-- A descendant other than the saga itself has a state. -/
theorem mem_of_below (h : Search.Below (childIds states) parent child) :
    child ∈ parent :: states.map (·.sagaId) := by
  induction h with
  | refl => exact List.mem_cons_self ..
  | tail _ hc _ =>
    obtain ⟨⟨s, hs, rfl, -⟩, -⟩ := child_iff.1 hc
    exact List.mem_cons_of_mem _ (List.mem_map_of_mem hs)

/-- Where the ids are distinct each saga has one parent and is one child of it. -/
theorem treeFrom_childIds_iff (hn : (states.map (·.sagaId)).Nodup) :
    Search.TreeFrom (childIds states) parent ↔ ¬ TransGen (Search.Child (childIds states)) parent parent := by
  refine Search.treeFrom_iff (fun x y c hx hy => ?_) fun x => ?_
  · obtain ⟨⟨s, hs, hid, hp, -⟩, -⟩ := child_iff.1 hx
    obtain ⟨⟨s', hs', hid', hp', -⟩, -⟩ := child_iff.1 hy
    obtain rfl := List.inj_on_of_nodup_map hn hs hs' (hid.trans hid'.symm)
    exact Option.some.inj (hp.symm.trans hp')
  · rw [childIds_eq]
    exact hn.sublist (List.filter_sublist.map _)

/-- A cycle leads through another saga. -/
theorem cycle_iff : TransGen (Search.Child (childIds states)) parent parent ↔
    ∃ other, other ≠ parent ∧ Descends states parent other ∧ Descends states other parent := by
  constructor
  · intro h
    obtain ⟨other, hfirst, hback⟩ := TransGen.head'_iff.1 h
    exact ⟨other, Ne.symm (child_iff.1 hfirst).2, .single (child_iff.1 hfirst).1, below_iff.1 hback⟩
  · rintro ⟨other, hne, hdown, hup⟩
    have hfirst := (reflTransGen_iff_eq_or_transGen.1 (below_iff.2 hdown)).resolve_left hne
    exact hfirst.trans_left (below_iff.2 hup)

end Children

/-! ## When it ends -/

variable {repo : SagaStateRepository} {sagaId : String}

/-- The query ends with the saga and each of its descendants once exactly when no other saga is both below
and above it. -/
theorem collectsDescendants_iff : CollectsDescendants repo sagaId ↔
    ¬ ∃ other, other ≠ sagaId ∧ Descends (repo.statesOfRoot sagaId) sagaId other ∧
      Descends (repo.statesOfRoot sagaId) other sagaId := by
  unfold CollectsDescendants collectDescendantIds SagaStateRepository.statesOfRoot
  cases repo.findById sagaId with
  | none =>
    -- no state is read, so nothing is below the saga
    have hnone : ∀ id, Descends [] sagaId id ↔ id = sagaId := by
      intro id
      rw [← below_iff]
      constructor
      · intro h
        exact List.mem_singleton.1 (mem_of_below h)
      · rintro rfl
        exact .refl
    refine iff_of_true ⟨0, [sagaId], rfl, List.nodup_singleton sagaId, fun id => ?_⟩ ?_
    · rw [hnone, List.mem_singleton]
    · rintro ⟨other, hne, hdown, -⟩
      exact hne ((hnone other).1 hdown)
  | some state =>
    dsimp only
    rw [← cycle_iff, ← treeFrom_childIds_iff (repo.distinct state.sagaRootId),
      ← Search.search_exact_iff fun _ => mem_of_below]
    simp only [below_iff]

/-- On a cycle through another saga the query never ends. -/
theorem collectDescendantIds_of_cycle {state : SagaStateRecord} (hs : repo.findById sagaId = some state)
    {other : String} (hne : other ≠ sagaId) (hdown : Descends (repo.findByRootId state.sagaRootId) sagaId other)
    (hup : Descends (repo.findByRootId state.sagaRootId) other sagaId) (fuel : ℕ) :
    collectDescendantIds repo sagaId fuel = none := by
  have hcycle := cycle_iff.2 ⟨other, hne, hdown, hup⟩
  unfold collectDescendantIds
  rw [hs]
  exact Search.search_of_cycle hcycle (List.mem_singleton_self sagaId) hcycle

/-! ## Two sagas that name each other -/

/-- A repository of a list of states. -/
def SagaStateRepository.of (states : List SagaStateRecord) (distinct : (states.map (·.sagaId)).Nodup) :
    SagaStateRepository where
  findById sagaId := states.find? (·.sagaId = sagaId)
  findByRootId rootId := states.filter (·.sagaRootId = rootId)
  distinct _ := distinct.sublist (List.filter_sublist.map _)

/-- Each of two sagas names the other as its parent. -/
def mutualParents : SagaStateRepository :=
  .of [⟨"saga-1", "saga-1", some "saga-2"⟩, ⟨"saga-2", "saga-1", some "saga-1"⟩] (by decide)

/-- The query for the events of one of them does not end. -/
theorem mutualParents_hang : (∀ fuel, collectDescendantIds mutualParents "saga-1" fuel = none) ∧
    ¬ ∀ repo sagaId, CollectsDescendants repo sagaId := by
  have hdown : IsParent (mutualParents.findByRootId "saga-1") "saga-1" "saga-2" :=
    ⟨⟨"saga-2", "saga-1", some "saga-1"⟩, by decide, rfl, rfl, by decide⟩
  have hup : IsParent (mutualParents.findByRootId "saga-1") "saga-2" "saga-1" :=
    ⟨⟨"saga-1", "saga-1", some "saga-2"⟩, by decide, rfl, rfl, by decide⟩
  have hhang : ∀ fuel, collectDescendantIds mutualParents "saga-1" fuel = none :=
    collectDescendantIds_of_cycle rfl (show "saga-2" ≠ "saga-1" by decide) (.single hdown) (.single hup)
  refine ⟨hhang, fun hall => ?_⟩
  obtain ⟨fuel, ids, hids, -⟩ := hall mutualParents "saga-1"
  rw [hhang fuel] at hids
  cases hids

example : collectDescendantIds (.of [⟨"saga-1", "saga-1", some "saga-1"⟩, ⟨"saga-2", "saga-1", some "saga-1"⟩,
    ⟨"saga-3", "saga-1", some "saga-2"⟩, ⟨"saga-4", "saga-1", some "saga-9"⟩] (by decide)) "saga-1" 3 =
      some ["saga-1", "saga-2", "saga-3"] := by decide

end Saga.Monitor
