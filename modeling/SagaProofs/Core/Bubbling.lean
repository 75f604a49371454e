/-
`emitToParent` and the root of a saga. A saga without a parent is to be its own root; the parent that
`emitToParent` speaks for is taken from the context and the parent above it from the ancestor chain, which
messages without that header and contexts made by hand leave out. This file says for which contexts a saga
below the root is taken for one, once and however often `emitToParent` is nested.
-/
import SagaProofs.Core.RoundTrip
import SagaProofs.Core.Unwind

namespace Saga

open SagaPublisher

/-! ## What is to be shown -/

/-- A saga without a parent is its own root. -/
def SagaContextData.RootKnown (c : SagaContextData) : Prop := truthy c.parentSagaId = none → c.rootSagaId = c.sagaId

def SagaEvent.RootKnown (event : SagaEvent) : Prop := truthy event.parentSagaId = none → event.rootSagaId = event.sagaId

/-- Both forms of `emitToParent`, called in the context, invent no root. -/
def KeepsRoot (c : SagaContextData) : Prop :=
  (∀ params eventId now event, emitToParent (some c) params eventId now = .ok event → event.RootKnown) ∧
    ∀ c', emitToParentContext (some c) = .ok c' → c'.RootKnown

/-- The saga on top of those that `emitToParent` reaches, from the parent and the chain above it. -/
def topOf (parent : String) (above : List String) : String :=
  (parent :: above.takeWhile (· ≠ "")).getLast (List.cons_ne_nil _ _)

/-! ## One level -/

variable {c : SagaContextData} {parent : String} {above : List String}

theorem keepsRoot_of_no_parent (h : parentOf c = .error .noParent) : KeepsRoot c := by
  constructor
  · intro params eventId now event he
    obtain ⟨parent, above, hp, -⟩ := emitToParent_ok he
    rw [h] at hp
    cases hp
  · intro c' hc
    obtain ⟨parent, above, hp, -⟩ := emitToParentContext_ok hc
    rw [h] at hp
    cases hp

/-- The parent is known to be the root, or to have a parent itself. -/
theorem keepsRoot_of_parent (h : parentOf c = .ok (parent, above)) :
    KeepsRoot c ↔ (truthy above.head?).isSome ∨ c.rootSagaId = parent := by
  have hiff : (truthy above.head? = none → c.rootSagaId = parent) ↔
      (truthy above.head?).isSome ∨ c.rootSagaId = parent := by
    cases truthy above.head? <;> simp
  rw [← hiff]
  constructor
  · intro hk
    exact hk.2 _ (emitToParentContext_of_parent h)
  · intro hroot
    constructor
    · intro params eventId now event he
      rw [emitToParent_of_parent h] at he
      cases he
      exact hroot
    · intro c' hc
      rw [emitToParentContext_of_parent h] at hc
      cases hc
      exact hroot

theorem parentOf_cases (c : SagaContextData) :
    (truthy c.parentSagaId = none ∧ parentOf c = .error .noParent) ∨
      ∃ parent, truthy c.parentSagaId = some parent ∧
        parentOf c = .ok (parent, (c.ancestorChain.getD []).drop 1) := by
  unfold parentOf
  cases truthy c.parentSagaId with
  | none => exact .inl ⟨rfl, rfl⟩
  | some parent => exact .inr ⟨parent, rfl, rfl⟩

/-! ## Every level -/

theorem topOf_of_stop (parent : String) (h : truthy above.head? = none) : topOf parent above = parent := by
  cases above with
  | nil => rfl
  | cons id rest =>
    have hid : id = "" := by simpa [truthy] using h
    subst hid
    rfl

theorem topOf_cons (parent : String) {id : String} (rest : List String) (h : id ≠ "") :
    topOf parent (id :: rest) = topOf id rest := by
  unfold topOf
  simp [h]

/-- What holds at every level holds in the context and at every level of the one above it. -/
theorem forall_ascend_iff {P : SagaContextData → Prop} (h : parentOf c = .ok (parent, above)) :
    (∀ n c', ascend n c = .ok c' → P c') ↔ P c ∧ ∀ n c', ascend n
      ⟨parent, c.rootSagaId, above.head?, some above, c.causationId, c.key, none, none⟩ = .ok c' → P c' := by
  have hsucc : ∀ n, ascend (n + 1) c = ascend n
      ⟨parent, c.rootSagaId, above.head?, some above, c.causationId, c.key, none, none⟩ := by
    intro n
    show (emitToParentContext (some c)).bind (ascend n) = _
    rw [emitToParentContext_of_parent h]
    rfl
  constructor
  · intro hall
    exact ⟨hall 0 c rfl, fun n c' hc => hall (n + 1) c' ((hsucc n).trans hc)⟩
  · rintro ⟨h0, habove⟩ n c' hc
    cases n with
    | zero =>
      cases hc
      exact h0
    | succ n => exact habove n c' ((hsucc n).symm.trans hc)

theorem ascend_of_no_parent (h : parentOf c = .error .noParent) {n : ℕ} {c' : SagaContextData}
    (hc : ascend n c = .ok c') : c' = c := by
  cases n with
  | zero =>
    cases hc
    rfl
  | succ n =>
    have hstep : ascend (n + 1) c = (emitToParentContext (some c)).bind (ascend n) := rfl
    simp only [emitToParentContext, SagaContext.require, bind, Except.bind, h] at hstep
    rw [hstep] at hc
    cases hc

/-- No nested `emitToParent` invents a root exactly when the saga on top is the root. -/
theorem keepsRoot_ascend_iff : ∀ (above : List String) {c : SagaContextData} {parent : String},
    parentOf c = .ok (parent, above) →
      ((∀ n c', ascend n c = .ok c' → KeepsRoot c') ↔ topOf parent above = c.rootSagaId)
  | above, c, parent, h => by
    rw [forall_ascend_iff h, keepsRoot_of_parent h]
    cases hid : truthy above.head? with
    | none =>
      -- the context above has no parent, and nothing is established from it
      have hno : parentOf ⟨parent, c.rootSagaId, above.head?, some above, c.causationId, c.key, none, none⟩ =
          .error .noParent := by
        unfold parentOf
        simp only [hid]
      rw [topOf_of_stop parent hid]
      simp only [Option.isSome_none, Bool.false_eq_true, false_or]
      constructor
      · intro hk
        exact hk.1.symm
      · intro hroot
        refine ⟨hroot.symm, fun n c' hc => ?_⟩
        rw [ascend_of_no_parent hno hc]
        exact keepsRoot_of_no_parent hno
    | some id =>
      obtain ⟨hhead, hne⟩ := truthy_eq_some.1 hid
      cases above with
      | nil => cases hhead
      | cons id' rest =>
        cases hhead
        have hnext : parentOf ⟨parent, c.rootSagaId, some id, some (id :: rest), c.causationId, c.key, none, none⟩ =
            .ok (id, rest) := parentOf_of_truthy (truthy_some hne)
        rw [topOf_cons parent rest hne]
        simp only [Option.isSome_some, true_or, true_and]
        exact keepsRoot_ascend_iff rest hnext

/-- `emitToParent` invents no root exactly when there is no parent, the chain has a saga above the parent, or the
parent is the root; and nested calls invent none exactly when there is no parent or the saga on top of the
chain is the root. -/
theorem keepsRoot_iff (c : SagaContextData) :
    (KeepsRoot c ↔ truthy c.parentSagaId = none ∨ (truthy ((c.ancestorChain.getD []).drop 1).head?).isSome ∨
      c.parentSagaId = some c.rootSagaId) ∧
    ((∀ n c', ascend n c = .ok c' → KeepsRoot c') ↔ ∀ parent, truthy c.parentSagaId = some parent →
      topOf parent ((c.ancestorChain.getD []).drop 1) = c.rootSagaId) := by
  rcases parentOf_cases c with ⟨hnone, hp⟩ | ⟨parent, hparent, hp⟩
  · constructor
    · exact iff_of_true (keepsRoot_of_no_parent hp) (.inl hnone)
    · refine iff_of_true (fun n c' hc => ?_) fun parent hparent => ?_
      · rw [ascend_of_no_parent hp hc]
        exact keepsRoot_of_no_parent hp
      · rw [hnone] at hparent
        cases hparent
  · have hsome : c.parentSagaId = some parent := (truthy_eq_some.1 hparent).1
    constructor
    · rw [keepsRoot_of_parent hp, hparent, hsome]
      simp only [reduceCtorEq, false_or, Option.some.injEq, eq_comm (a := c.rootSagaId)]
    · rw [keepsRoot_ascend_iff _ hp, hparent]
      simp

/-! ## A child made by hand -/

/-- An event of `saga-3`, made by hand with its parent and root and no chain. -/
def SagaEvent.manual : SagaEvent :=
  (forSaga "saga-3" (some ⟨some "saga-2", "saga-1", none⟩) (some "event-1") none).event none
    ⟨"child.started", "start-child", none, .obj [], none, none⟩ "event-2" "2024-01-01T00:00:00.000Z"

/-- The handler of the event emits to its parent, which then has no parent and is not its own root. -/
theorem root_invented :
    (¬ ∀ c : SagaContextData, c.RootKnown → KeepsRoot c) ∧
    ∃ event, parse .sample (SagaEvent.manual.delivered "") = some (.headers event) ∧
      (SagaRunner.handlerContext event).RootKnown ∧
      ∃ event', emitToParent (some (SagaRunner.handlerContext event))
          ⟨"child.done", "finish-child", none, .obj [], none, none⟩ "event-3" "t" = .ok event' ∧
        event'.sagaId = "saga-2" ∧ event'.parentSagaId = none ∧ event'.rootSagaId = "saga-1" := by
  have hp : parse .sample (SagaEvent.manual.delivered "") = some (.headers (wire "" .manual)) := rfl
  have hknown : (SagaRunner.handlerContext (wire "" .manual)).RootKnown := fun h => by cases h
  obtain ⟨event', he, hid, hparent, hroot⟩ : ∃ event', emitToParent (some (SagaRunner.handlerContext (wire "" .manual)))
      ⟨"child.done", "finish-child", none, .obj [], none, none⟩ "event-3" "t" = .ok event' ∧
        event'.sagaId = "saga-2" ∧ event'.parentSagaId = none ∧ event'.rootSagaId = "saga-1" :=
    ⟨_, rfl, rfl, rfl, rfl⟩
  refine ⟨fun h => ?_, _, hp, hknown, event', he, hid, hparent, hroot⟩
  have hinvented := (h _ hknown).1 _ _ _ event' he (by rw [hparent]; rfl)
  rw [hroot, hid] at hinvented
  exact absurd hinvented (by decide)

end Saga
