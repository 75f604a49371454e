/-
The billing of one recurrence on its own: what the store says of it, where the billings of it that are under way
stand, and how its payments ended. At most one billing is under way, and one that was paid is the last.
-/
import SagaProofs.Billing.Flow

namespace Saga.RecurringFlow

/-- Before its payment, paid, or refused. -/
inductive Stage
  | opening | paid | refused
  deriving DecidableEq

/-- What the store says of a recurrence. -/
structure Standing where
  status : RecurringStatus
  totalAttempts : ℕ
  maxAttempts : Number

@[ext]
structure Account where
  standing : Option Standing
  stages : Multiset Stage
  -- the records of it that are to be created
  announced : ℕ
  outcomes : List PaymentStatus

namespace Account

def empty : Account := ⟨none, 0, 0, []⟩

def successes (a : Account) : ℕ := a.outcomes.count .success

/-! ## The steps of an account -/

/-- What becomes of an account while none of its events is lost. -/
inductive Step : Account → Account → Prop
  | bill (max : Number) : Step empty ⟨some ⟨.processing, 1, max⟩, {.opening}, 0, []⟩
  | announce : Step empty ⟨none, 0, 1, []⟩
  | create {standing : Option Standing} {stages : Multiset Stage} {n : ℕ} {outcomes : List PaymentStatus} :
    Step ⟨standing, stages, n + 1, outcomes⟩ ⟨some ⟨.scheduled, 0, .ofNat 3⟩, stages, n, outcomes⟩
  | pay {standing : Option Standing} {stages : Multiset Stage} {n : ℕ} {outcomes : List PaymentStatus} :
    Step ⟨standing, .opening ::ₘ stages, n, outcomes⟩ ⟨standing, .paid ::ₘ stages, n, outcomes ++ [.success]⟩
  | refuse {standing : Option Standing} {stages : Multiset Stage} {n : ℕ} {outcomes : List PaymentStatus} :
    Step ⟨standing, .opening ::ₘ stages, n, outcomes⟩ ⟨standing, .refused ::ₘ stages, n, outcomes ++ [.failed]⟩
  | complete {standing : Option Standing} {stages : Multiset Stage} {n : ℕ} {outcomes : List PaymentStatus} :
    Step ⟨standing, .paid ::ₘ stages, n, outcomes⟩
      ⟨standing.map fun x => { x with status := .completed }, stages, n, outcomes⟩
  | fail {x : Standing} {stages : Multiset Stage} {n : ℕ} {outcomes : List PaymentStatus}
    (h : x.maxAttempts.le (.ofNat x.totalAttempts) = true) :
    Step ⟨some x, .refused ::ₘ stages, n, outcomes⟩ ⟨some { x with status := .failed }, stages, n, outcomes⟩
  | captureFail {x : Standing} {stages : Multiset Stage} {n : ℕ} {outcomes : List PaymentStatus}
    (h : x.maxAttempts.le (.ofNat x.totalAttempts) = false) :
    Step ⟨some x, .refused ::ₘ stages, n, outcomes⟩ ⟨some { x with status := .captureFailed }, stages, n, outcomes⟩
  | unknown {stages : Multiset Stage} {n : ℕ} {outcomes : List PaymentStatus} :
    Step ⟨none, .refused ::ₘ stages, n, outcomes⟩ ⟨none, stages, n, outcomes⟩
  | retry {x : Standing} {stages : Multiset Stage} {n : ℕ} {outcomes : List PaymentStatus}
    (h : x.status = .captureFailed) :
    Step ⟨some x, stages, n, outcomes⟩
      ⟨some ⟨.processing, x.totalAttempts + 1, x.maxAttempts⟩, .opening ::ₘ stages, n, outcomes⟩

/-- What becomes of an account when an event is lost. -/
inductive Loss : Account → Account → Prop
  | event {standing : Option Standing} {s : Stage} {stages : Multiset Stage} {n : ℕ} {outcomes : List PaymentStatus} :
    Loss ⟨standing, s ::ₘ stages, n, outcomes⟩ ⟨standing, stages, n, outcomes⟩
  | record {standing : Option Standing} {stages : Multiset Stage} {n : ℕ} {outcomes : List PaymentStatus} :
    Loss ⟨standing, stages, n + 1, outcomes⟩ ⟨standing, stages, n, outcomes⟩

/-! ## The invariant -/

/-- What the status says of the billings and the payments; with `kept` nothing was lost. -/
def Agrees (kept : Prop) (a : Account) (x : Standing) : RecurringStatus → Prop
  | .scheduled => a.stages = 0 ∧ x.totalAttempts = 0
  | .processing => a.stages.card ≤ 1 ∧ (kept → a.stages.card = 1) ∧ a.successes ≤ 1 ∧
      ∀ s ∈ a.stages, a.successes = if s = .paid then 1 else 0
  | .completed => a.stages = 0 ∧ a.successes = 1
  | .captureFailed => a.stages = 0 ∧ a.successes = 0 ∧ x.maxAttempts.le (.ofNat x.totalAttempts) = false
  | .failed => a.stages = 0 ∧ a.successes = 0 ∧ x.maxAttempts.le (.ofNat x.totalAttempts) = true
  | .cancelled => False

/-- A recurrence has no record yet, or one that says how its billings stand; each attempt has at most one payment. -/
def Inv (kept : Prop) (a : Account) : Prop :=
  match a.standing with
  | none => a.stages = 0 ∧ a.outcomes = [] ∧ a.announced ≤ 1
  | some x => a.announced = 0 ∧ a.outcomes.length + a.stages.count .opening ≤ x.totalAttempts ∧
      (kept → a.outcomes.length + a.stages.count .opening = x.totalAttempts) ∧ a.Agrees kept x x.status

variable {kept : Prop} {a a' : Account}

theorem inv_empty (kept : Prop) : empty.Inv kept := ⟨rfl, rfl, Nat.zero_le 1⟩

/-- An event is under way only while the record says so, and then it is the only one. -/
theorem Inv.of_cons {standing : Option Standing} {s : Stage} {stages : Multiset Stage} {n : ℕ}
    {outcomes : List PaymentStatus} (h : Inv kept ⟨standing, s ::ₘ stages, n, outcomes⟩) :
    ∃ x, standing = some x ∧ x.status = .processing ∧ stages = 0 ∧ n = 0 ∧
      outcomes.count .success = (if s = .paid then 1 else 0) ∧
      outcomes.length + (if s = .opening then 1 else 0) ≤ x.totalAttempts ∧
      (kept → outcomes.length + (if s = .opening then 1 else 0) = x.totalAttempts) := by
  cases standing with
  | none => exact absurd h.1 (Multiset.cons_ne_zero)
  | some x =>
    obtain ⟨hn, hle, heq, hagrees⟩ := h
    have hcons : s ::ₘ stages ≠ 0 := Multiset.cons_ne_zero
    cases hx : x.status <;> rw [hx] at hagrees
    case processing =>
      obtain ⟨hcard, -, -, hsucc⟩ := hagrees
      have hzero : stages = 0 := by
        rw [← Multiset.card_eq_zero]
        simp only [Multiset.card_cons] at hcard
        omega
      subst hzero
      have hcount : (s ::ₘ (0 : Multiset Stage)).count .opening = if s = .opening then 1 else 0 := by
        cases s <;> rfl
      simp only [hcount] at hle heq
      exact ⟨x, rfl, hx, rfl, hn, hsucc s (Multiset.mem_cons_self s 0), hle, heq⟩
    case cancelled => exact hagrees.elim
    all_goals exact absurd hagrees.1 hcons

/-- Every step keeps the account in order. -/
theorem Inv.step (h : Inv kept a) (hs : Step a a') : Inv kept a' := by
  cases hs with
  | bill max =>
    refine ⟨rfl, le_rfl, fun _ => rfl, ?_⟩
    exact ⟨le_rfl, fun _ => rfl, Nat.zero_le 1, fun s hs => by rw [Multiset.mem_singleton.1 hs]; rfl⟩
  | announce => exact ⟨rfl, rfl, le_rfl⟩
  | @create standing stages n outcomes =>
    cases standing with
    | none =>
      obtain ⟨hstages, houtcomes, hn⟩ := h
      dsimp only at hstages houtcomes hn
      subst hstages houtcomes
      exact ⟨by simpa using hn, le_rfl, fun _ => rfl, rfl, rfl⟩
    | some x => exact absurd h.1 (Nat.succ_ne_zero n)
  | @pay standing stages n outcomes =>
    obtain ⟨x, rfl, hx, rfl, rfl, hsucc, hle, heq⟩ := h.of_cons
    refine ⟨rfl, ?_, fun hk => ?_, ?_⟩
    · simpa using hle
    · simpa using heq hk
    · rw [hx]
      have hone : (outcomes ++ [PaymentStatus.success]).count .success = 1 := by
        rw [List.count_append, hsucc]; rfl
      exact ⟨le_rfl, fun _ => rfl, hone.le, fun s hs => by rw [Multiset.mem_singleton.1 hs]; exact hone⟩
  | @refuse standing stages n outcomes =>
    obtain ⟨x, rfl, hx, rfl, rfl, hsucc, hle, heq⟩ := h.of_cons
    refine ⟨rfl, ?_, fun hk => ?_, ?_⟩
    · simpa using hle
    · simpa using heq hk
    · rw [hx]
      have hnone : (outcomes ++ [PaymentStatus.failed]).count .success = 0 := by
        rw [List.count_append, hsucc]; rfl
      exact ⟨le_rfl, fun _ => rfl, hnone.le.trans (Nat.zero_le 1),
        fun s hs => by rw [Multiset.mem_singleton.1 hs]; exact hnone⟩
  | complete =>
    obtain ⟨x, rfl, -, rfl, rfl, hsucc, hle, heq⟩ := h.of_cons
    exact ⟨rfl, by simpa using hle, fun hk => by simpa using heq hk, rfl, hsucc⟩
  | fail hmax =>
    obtain ⟨x, hx, -, rfl, rfl, hsucc, hle, heq⟩ := h.of_cons
    cases hx
    exact ⟨rfl, by simpa using hle, fun hk => by simpa using heq hk, rfl, hsucc, hmax⟩
  | captureFail hmax =>
    obtain ⟨x, hx, -, rfl, rfl, hsucc, hle, heq⟩ := h.of_cons
    cases hx
    exact ⟨rfl, by simpa using hle, fun hk => by simpa using heq hk, rfl, hsucc, hmax⟩
  | unknown =>
    obtain ⟨x, hx, -⟩ := h.of_cons
    cases hx
  | @retry x stages n outcomes hstatus =>
    obtain ⟨hn, hle, heq, hagrees⟩ := h
    rw [hstatus] at hagrees
    obtain ⟨hstages, hsucc, -⟩ := hagrees
    dsimp only at hn hle heq hstages
    subst hstages hn
    refine ⟨rfl, ?_, fun hk => ?_, ?_⟩
    · simpa using hle
    · simpa using heq hk
    · exact ⟨le_rfl, fun _ => rfl, hsucc.le.trans (Nat.zero_le 1),
        fun s hs => by rw [Multiset.mem_singleton.1 hs]; exact hsucc⟩

/-- A loss keeps it in order but for the count of what was kept. -/
theorem Inv.loss (h : Inv False a) (hs : Loss a a') : Inv False a' := by
  cases hs with
  | event =>
    obtain ⟨x, rfl, hx, rfl, rfl, hsucc, hle, -⟩ := h.of_cons
    refine ⟨rfl, ?_, False.elim, ?_⟩
    · simp only [Multiset.count_zero, Nat.add_zero]
      omega
    · rw [hx]
      refine ⟨Nat.zero_le 1, False.elim, ?_, fun s hs => absurd hs (Multiset.notMem_zero s)⟩
      unfold successes
      rw [hsucc]
      split <;> omega
  | @record standing stages n outcomes =>
    cases standing with
    | none => exact ⟨h.1, h.2.1, Nat.le_of_succ_le h.2.2⟩
    | some x => exact absurd h.1 (Nat.succ_ne_zero n)

/-- However it stands, there is at most one payment that succeeded, and no more payments than attempts. -/
theorem Inv.successes_le (h : Inv kept a) : a.successes ≤ 1 := by
  unfold Inv at h
  split at h
  · unfold successes
    rw [h.2.1]
    exact Nat.zero_le 1
  · rename_i x hx
    obtain ⟨-, hle, -, hagrees⟩ := h
    cases hstatus : x.status <;> rw [hstatus] at hagrees
    case scheduled =>
      have hlen : a.successes ≤ a.outcomes.length := List.count_le_length
      have := hagrees.2
      omega
    case processing => exact hagrees.2.2.1
    case completed => exact hagrees.2.le
    case captureFailed => exact hagrees.2.1.le.trans (Nat.zero_le 1)
    case failed => exact hagrees.2.1.le.trans (Nat.zero_le 1)
    case cancelled => exact hagrees.elim

end Account

end Saga.RecurringFlow
