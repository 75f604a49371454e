/-
Unwinding nested sagas: `startChild` puts a context below another and `emitToParent` with a function
rebuilds the one above it from what the lower one holds. After any number of levels down and up again
the ids are those of the first context; the key is the one given last on the way down, and the names
are gone.
-/
import SagaProofs.Core.Publisher

namespace Saga

open SagaPublisher

/-! ## Down and up -/

/-- A nested start: its options and the id generated for it. -/
structure Level where
  opts : Option SagaStartOptions
  sagaId : String
  generated : sagaId ≠ ""

/-- The context after nested calls of `startChild`, the outermost first. -/
def descend (c : SagaContextData) (levels : List Level) : Except SagaError SagaContextData :=
  levels.foldlM (fun ctx level => startChild (some ctx) level.opts level.sagaId) c

/-- The context inside nested calls of `emitToParent` with a function. -/
def ascend : ℕ → SagaContextData → Except SagaError SagaContextData
  | 0, ctx => .ok ctx
  | n + 1, ctx => do
    let parent ← emitToParentContext (some ctx)
    ascend n parent

/-- The context after all levels are entered and left again. -/
def unwind (c : SagaContextData) (levels : List Level) : Except SagaError SagaContextData := do
  let inner ← descend c levels
  ascend levels.length inner

/-- The key option given innermost, if any level has one. -/
def innermostKey : List Level → Option String
  | [] => none
  | level :: levels => (innermostKey levels).or (level.opts.bind (·.key))

/-- The parent is the first of the ancestor chain. -/
def SagaContextData.WellFormed (c : SagaContextData) : Prop := c.parentSagaId = (c.ancestorChain.getD []).head?

/-- The context of a child. -/
def SagaContextData.child (c : SagaContextData) (level : Level) : SagaContextData :=
  { sagaId := level.sagaId
    rootSagaId := c.rootSagaId
    parentSagaId := some c.sagaId
    ancestorChain := some (c.sagaId :: c.ancestorChain.getD [])
    causationId := c.causationId
    key := (level.opts.bind (·.key)).or c.key
    sagaName := (level.opts.bind (·.sagaName)).or c.sagaName
    sagaDescription := (level.opts.bind (·.sagaDescription)).or c.sagaDescription }

/-- What is left of a context after it was entered again from below. -/
def SagaContextData.restored (c : SagaContextData) : List Level → SagaContextData
  | [] => c
  | level :: levels =>
    { c with
      parentSagaId := (c.ancestorChain.getD []).head?
      ancestorChain := some (c.ancestorChain.getD [])
      key := (innermostKey (level :: levels)).or c.key
      sagaName := none
      sagaDescription := none }

/-! ## One level -/

variable {c : SagaContextData}

/-- The last step up can be taken first. -/
theorem ascend_succ : ∀ (n : ℕ) (ctx : SagaContextData),
    ascend (n + 1) ctx = (ascend n ctx).bind fun parent => emitToParentContext (some parent)
  | 0, ctx => by
    show (emitToParentContext (some ctx)).bind Except.ok = emitToParentContext (some ctx)
    cases emitToParentContext (some ctx) <;> rfl
  | n + 1, ctx => by
    show (emitToParentContext (some ctx)).bind (ascend (n + 1)) =
      ((emitToParentContext (some ctx)).bind (ascend n)).bind fun parent => emitToParentContext (some parent)
    cases emitToParentContext (some ctx) with
    | error e => rfl
    | ok parent => exact ascend_succ n parent

/-- The levels below a child are unwound before the child is left. -/
theorem unwind_cons (c : SagaContextData) (level : Level) (levels : List Level) :
    unwind c (level :: levels) =
      (unwind (c.child level) levels).bind fun parent => emitToParentContext (some parent) := by
  show (descend (c.child level) levels).bind (ascend (levels.length + 1)) =
    ((descend (c.child level) levels).bind (ascend levels.length)).bind fun parent => emitToParentContext (some parent)
  cases descend (c.child level) levels with
  | error e => rfl
  | ok inner => exact ascend_succ levels.length inner

/-- A child, also after the levels below it, has its parent at the head of its chain. -/
theorem parentOf_restored_child (level : Level) (levels : List Level) (hc : c.sagaId ≠ "") :
    parentOf ((c.child level).restored levels) = .ok (c.sagaId, c.ancestorChain.getD []) := by
  cases levels with
  | nil => exact parentOf_of_truthy (truthy_some hc)
  | cons next levels => exact parentOf_of_truthy (truthy_some hc)

theorem parentOf_restored_child_empty (level : Level) (levels : List Level) (hc : c.sagaId = "") :
    parentOf ((c.child level).restored levels) = .error .noParent := by
  have htruthy : truthy (some c.sagaId) = none := by rw [hc]; rfl
  have hparent : ((c.child level).restored levels).parentSagaId = some c.sagaId := by
    cases levels with
    | nil => rfl
    | cons next levels => rfl
  unfold parentOf
  rw [hparent, htruthy]

theorem restored_child_key (level : Level) (levels : List Level) :
    ((c.child level).restored levels).key = (innermostKey (level :: levels)).or c.key := by
  cases levels with
  | nil => rfl
  | cons next levels =>
    show (innermostKey (next :: levels)).or ((level.opts.bind (·.key)).or c.key) = _
    rw [← Option.or_assoc]
    rfl

/-! ## All levels -/

/-- Where the saga has an id, unwinding establishes the restored context. -/
theorem unwind_eq : ∀ (levels : List Level) (c : SagaContextData), (levels ≠ [] → c.sagaId ≠ "") →
    unwind c levels = .ok (c.restored levels)
  | [], _, _ => rfl
  | level :: levels, c, hc => by
    have hc : c.sagaId ≠ "" := hc (List.cons_ne_nil _ _)
    have hroot : ((c.child level).restored levels).rootSagaId = c.rootSagaId := by cases levels <;> rfl
    have hcaus : ((c.child level).restored levels).causationId = c.causationId := by cases levels <;> rfl
    rw [unwind_cons, unwind_eq levels (c.child level) fun _ => level.generated]
    show emitToParentContext (some ((c.child level).restored levels)) = _
    rw [emitToParentContext_of_parent (parentOf_restored_child level levels hc), hroot, hcaus, restored_child_key]
    rfl

/-- A saga without an id cannot be reached from below. -/
theorem unwind_empty (level : Level) (levels : List Level) (hc : c.sagaId = "") :
    unwind c (level :: levels) = .error .noParent := by
  rw [unwind_cons, unwind_eq levels (c.child level) fun _ => level.generated]
  show emitToParentContext (some ((c.child level).restored levels)) = _
  simp only [emitToParentContext, SagaContext.require, bind, Except.bind, parentOf_restored_child_empty level levels hc]

/-- Leaving as many nested sagas as were entered establishes the context they were entered from exactly
when none was entered, or else the context has an id and an ancestor chain, has neither name nor
description, and has the key that was given innermost, if one was given. -/
theorem unwind_iff (hwf : c.WellFormed) (levels : List Level) :
    unwind c levels = .ok c ↔ levels = [] ∨ (c.sagaId ≠ "" ∧ c.ancestorChain.isSome ∧ c.sagaName = none ∧
      c.sagaDescription = none ∧ ∀ key, innermostKey levels = some key → c.key = some key) := by
  cases levels with
  | nil => exact iff_of_true rfl (.inl rfl)
  | cons level levels =>
    simp only [List.cons_ne_nil, false_or]
    by_cases hc : c.sagaId = ""
    · rw [unwind_empty level levels hc]
      refine iff_of_false (fun h => by cases h) ?_
      rintro ⟨hne, -⟩
      exact hne hc
    · rw [unwind_eq (level :: levels) c fun _ => hc, Except.ok.injEq]
      constructor
      · intro h
        have hchain : some (c.ancestorChain.getD []) = c.ancestorChain := congrArg SagaContextData.ancestorChain h
        have hkey : (innermostKey (level :: levels)).or c.key = c.key := congrArg SagaContextData.key h
        refine ⟨hc, by rw [← hchain]; rfl, (congrArg SagaContextData.sagaName h).symm,
          (congrArg SagaContextData.sagaDescription h).symm, fun key hk => ?_⟩
        rw [← hkey, hk]
        rfl
      · rintro ⟨-, hchain, hname, hdesc, hkey⟩
        have hkey' : (innermostKey (level :: levels)).or c.key = c.key := by
          cases hk : innermostKey (level :: levels) with
          | none => rfl
          | some key => rw [hkey key hk]; rfl
        have hchain' : some (c.ancestorChain.getD []) = c.ancestorChain := by
          obtain ⟨chain, h⟩ := Option.isSome_iff_exists.1 hchain
          rw [h]; rfl
        have hparent : c.parentSagaId = (c.ancestorChain.getD []).head? := hwf
        show SagaContextData.mk c.sagaId c.rootSagaId (c.ancestorChain.getD []).head? (some (c.ancestorChain.getD []))
            c.causationId ((innermostKey (level :: levels)).or c.key) none none =
          ⟨c.sagaId, c.rootSagaId, c.parentSagaId, c.ancestorChain, c.causationId, c.key, c.sagaName, c.sagaDescription⟩
        rw [hkey', hchain', hparent, hname, hdesc]

/-! ## A named saga -/

/-- The context of a root saga. -/
def SagaContextData.rootSample (sagaName : Option String) : SagaContextData :=
  rootContext (some ⟨sagaName, none, none, none⟩) "saga-1"

/-- A child with a key of its own. -/
def Level.sample : Level := ⟨some ⟨none, none, some "customer-7", none⟩, "saga-2", by decide⟩

/-- The parent comes back without its name, and on the partition of its child. -/
theorem unwind_loses_name_and_key :
    unwind (.rootSample (some "order-flow")) [.sample] ≠ .ok (.rootSample (some "order-flow")) ∧
      unwind (.rootSample none) [.sample] ≠ .ok (.rootSample none) := by
  constructor
  · intro h
    have hname := congrArg (·.toOption.bind (·.sagaName)) h
    exact absurd hname (by decide)
  · intro h
    have hkey := congrArg (·.toOption.bind (·.key)) h
    exact absurd hkey (by decide)

/-- Two levels without options are undone. -/
theorem unwind_sample :
    unwind (.rootSample none) [⟨none, "saga-2", by decide⟩, ⟨none, "saga-3", by decide⟩] = .ok (.rootSample none) := by
  have hwf : (SagaContextData.rootSample none).WellFormed := rfl
  exact (unwind_iff hwf _).2 (.inr ⟨by decide, rfl, rfl, rfl, fun key hk => by cases hk⟩)

end Saga
