/-
What the runs of the billing flow keep. Where no event is handled twice a recurrence is paid for at most once,
whatever interleaves and whatever is lost; where nothing is lost either every billing is settled after a bounded
number of steps. The attempts are bounded even where events are handled again, but then one may be paid for twice.
-/
import SagaProofs.Billing.Refine
import Mathlib.Data.Fintype.EquivFin

namespace Saga.RecurringFlow

open Keyed Lts Tasks

variable {c : Flow} {as : List (Tasks.Act Task Input Request)}

/-! ## One payment -/

/-- The accounts of a run in which nothing is handled again. -/
theorem accounts_of_run (h : run Flow.step .empty as = some c) (honce : ∀ a ∈ as, a.Once) :
    c.Sound ∧ ∀ r, (c.account r).Inv (∀ a ∈ as, a.Keeps) := by
  obtain ⟨kept, hkept⟩ : ∃ kept : Prop, kept = ∀ a ∈ as, a.Keeps := ⟨_, rfl⟩
  rw [← hkept]
  have heach : Each Flow.step (fun _ a => a.Once ∧ (kept → a.Keeps)) .empty as :=
    (each_forall_iff h).2 fun a ha => ⟨honce a ha, fun hk => (hkept ▸ hk) a ha⟩
  refine run_each_induction (I := fun c => c.Sound ∧ ∀ r, (c.account r).Inv kept) ?_
    ⟨flow_sound_empty, fun r => ?_⟩ heach h
  · rintro c a c' ⟨hs, hi⟩ ⟨ho, hk⟩ hstep
    refine ⟨flow_sound_step hs hstep, fun r => ?_⟩
    rcases account_step hs hstep ho r with heq | hmove | ⟨hlost, hloss⟩
    · rw [heq]; exact hi r
    · exact (hi r).step hmove
    · have hfalse : kept = False := eq_false fun hkept => hlost (hk hkept)
      subst hfalse
      exact (hi r).loss hloss
  · rw [account_fresh flow_sound_empty List.not_mem_nil]
    exact Account.inv_empty kept

/-- The payments of a recurrence that succeeded. -/
def Stores.successesOf (db : Stores) (recurringId : String) : List PaymentRecord :=
  (db.paymentsOf recurringId).filter (·.status = .success)

theorem successes_account (c : Flow) (r : String) : (c.account r).successes = (c.state.successesOf r).length := by
  show ((c.state.paymentsOf r).map (·.status)).count .success = _
  rw [Stores.successesOf, List.count, List.countP_map, List.countP_eq_length_filter]
  congr 1

/-- In a run in which no event is handled twice, whatever is lost and however the participants interleave, at most
one payment of a recurrence succeeds, one does when it is completed and none when it is scheduled, may be tried again
or has failed; and there are no more payments than attempts. -/
theorem charged_once (h : run Flow.step .empty as = some c) (honce : ∀ a ∈ as, a.Once) (recurringId : String) :
    (c.state.successesOf recurringId).length ≤ 1 ∧
    ∀ record, c.state.recurrings.lookup recurringId = some record →
      (c.state.paymentsOf recurringId).length ≤ record.totalAttempts ∧
      (record.status = .completed → (c.state.successesOf recurringId).length = 1) ∧
      (record.status ≠ .completed → record.status ≠ .processing → (c.state.successesOf recurringId).length = 0) := by
  obtain ⟨-, hinv⟩ := accounts_of_run h honce
  have hi := hinv recurringId
  refine ⟨successes_account c recurringId ▸ hi.successes_le, fun record hrecord => ?_⟩
  have hstanding : (c.account recurringId).standing = some record.standing := by
    show c.state.standing recurringId = _
    unfold Stores.standing
    rw [hrecord]
    rfl
  unfold Account.Inv at hi
  rw [hstanding] at hi
  obtain ⟨-, hle, -, hagrees⟩ := hi
  have hlen : (c.account recurringId).outcomes.length = (c.state.paymentsOf recurringId).length := List.length_map ..
  have hstatus : record.standing.status = record.status := rfl
  rw [hlen] at hle
  rw [← successes_account]
  refine ⟨?_, fun hcompleted => ?_, fun hne hne' => ?_⟩
  · have : (c.state.paymentsOf recurringId).length ≤ record.standing.totalAttempts := by omega
    exact this
  · rw [hstatus, hcompleted] at hagrees
    exact hagrees.2
  · rw [hstatus] at hagrees
    cases hs : record.status <;> rw [hs] at hagrees hne hne'
    case scheduled =>
      have hcount : (c.account recurringId).successes ≤ (c.account recurringId).outcomes.length := List.count_le_length
      have hzero : record.standing.totalAttempts = 0 := hagrees.2
      omega
    case processing => exact absurd rfl hne'
    case completed => exact absurd rfl hne
    case captureFailed => exact hagrees.2.1
    case failed => exact hagrees.2.1
    case cancelled => exact hagrees.elim

section Sample

/-- The recurrence that the sample runs bill. -/
def Charge.sample : Charge := ⟨"recurring-1", "PLAN-1", "CUST-1", RecurringFlowController.amount, 1⟩

def Refusal.sample : Refusal := ⟨"recurring-1", "PLAN-1", "CUST-1", "Insufficient funds"⟩

/-- A billing up to its payment, with ids that end in `n`. -/
def billingRun (sagaId : String) (simulate : Bool) (n : String) : List (Tasks.Act Task Input Request) :=
  [.handle (.event sagaId (.recurringProcessing .sample simulate)) false {},
    .handle (.event sagaId (.planOrderRequested .sample .recurring simulate)) false { id := "planOrder-" ++ n },
    .handle (.event sagaId (.planOrderCreated ("planOrder-" ++ n) .sample simulate)) false { id := "order-" ++ n },
    .handle (.event sagaId (.orderCreated ("order-" ++ n) ("planOrder-" ++ n) .sample simulate)) false
      { id := "payment-" ++ n }]

def paidRun (sagaId n : String) : List (Tasks.Act Task Input Request) :=
  [.handle (.event sagaId (.paymentSuccess ("payment-" ++ n) ("order-" ++ n) ("planOrder-" ++ n) .sample)) false {},
    .handle (.event sagaId (.orderCompleted ("order-" ++ n) ("planOrder-" ++ n) .sample)) false {},
    .handle (.event sagaId (.planOrderCompleted ("planOrder-" ++ n) .sample)) false {}]

def refusedRun (sagaId n : String) : List (Tasks.Act Task Input Request) :=
  [.handle (.event sagaId (.paymentFailed ("payment-" ++ n) ("order-" ++ n) ("planOrder-" ++ n) .sample)) false {},
    .handle (.event sagaId (.orderPaymentFailed ("order-" ++ n) ("planOrder-" ++ n) .sample)) false {}]

/-- A payment is refused and the billing is tried again; `again`: the event of the refusal stays. -/
def retriedRun (again : Bool) : List (Tasks.Act Task Input Request) :=
  [.enter (.triggerBilling "recurring-1" "PLAN-1" "CUST-1" "saga-1" (some "true") none)] ++
    billingRun "saga-1" true "1" ++ refusedRun "saga-1" "1" ++
    [.handle (.event "saga-1" (.planOrderPaymentFailed "planOrder-1" .sample)) again {},
      .enter (.retryRecurring "recurring-1" "saga-2" none)] ++
    billingRun "saga-2" false "2" ++ paidRun "saga-2" "2"

theorem charged_once_sample :
    ∃ c record, run Flow.step .empty (retriedRun false) = some c ∧
      c.state.recurrings.lookup "recurring-1" = some record ∧ record.status = .completed ∧ record.totalAttempts = 2 ∧
      (c.state.successesOf "recurring-1").length = 1 := by
  obtain ⟨c, hr, hp⟩ := exists_of_run Flow.step .empty (retriedRun false)
    (fun c => (c.state.recurrings.lookup "recurring-1").any fun record =>
      record.status = .completed && record.totalAttempts = 2) (by decide +kernel)
  obtain ⟨record, hrecord, hp⟩ := (Option.any_eq_true _ _).1 hp
  rw [Bool.and_eq_true, decide_eq_true_iff, decide_eq_true_iff] at hp
  obtain ⟨-, hspec⟩ := charged_once hr (by decide) "recurring-1"
  exact ⟨c, record, hr, hrecord, hp.1, hp.2, (hspec record hrecord).2.1 hp.1⟩

/-- The event of the refusal is handled again after the payment: the recurrence is paid for twice. -/
example : (run Flow.step .empty (retriedRun true ++
    [.handle (.event "saga-1" (.planOrderPaymentFailed "planOrder-1" .sample)) false {},
      .enter (.retryRecurring "recurring-1" "saga-3" none)] ++ billingRun "saga-3" false "3" ++ paidRun "saga-3" "3")).any
    (fun c => (c.state.successesOf "recurring-1").length = 2) = true := by decide +kernel

end Sample

/-! ## Every billing is settled -/

/-- More than what the task leaves has. -/
def Task.rank : Task → ℕ
  | .event _ (.recurringProcessing ..) => 15
  | .event _ (.planOrderRequested ..) => 14
  | .event _ (.planOrderCreated ..) => 13
  | .event _ (.orderCreated ..) => 12
  | .event _ (.paymentSuccess ..) => 11
  | .event _ (.orderCompleted ..) => 10
  | .event _ (.planOrderCompleted ..) => 9
  | .event _ (.paymentFailed ..) => 5
  | .event _ (.orderPaymentFailed ..) => 4
  | .event _ (.planOrderPaymentFailed ..) => 3
  | .event _ (.recurringFailed _) => 2
  | .event _ (.recurringCreated ..) => 5
  | .event _ (.productPending ..) => 4
  | .event _ (.provisionCompleted ..) => 2
  | .event _ (.recurringCompleted ..) => 1
  | .event _ (.recurringCaptureFailed _) => 1
  | .event _ (.planSuspended ..) => 1
  | .event _ (.productActivated ..) => 1
  | .startNextCycle _ => 7
  | .createNext .. => 1
  | .provisioned .. => 3
  | .linkSaga .. => 1

theorem ranked : Ranked segment enter Task.rank 16 where
  segment {input db t db' out} h := by
    cases t with
    | event sagaId e =>
      cases e with
      | planOrderRequested | planOrderCreated | recurringCreated | productPending =>
        obtain ⟨db₁, -, heq⟩ := Option.map_eq_some_iff.1 h
        cases heq
        simp [Task.rank]
      | orderCreated =>
        obtain ⟨db₁, -, heq⟩ := Option.map_eq_some_iff.1 h
        split at heq <;> cases heq <;> simp [Task.rank]
      | planOrderPaymentFailed planOrderId refusal =>
        simp only [segment, RFPlanRecurringPaymentFailedParticipant.handle, Option.some.injEq] at h
        split at h
        · cases h; simp [Task.rank]
        · split at h <;> cases h <;> simp [Task.rank]
      | _ => cases h; simp [Task.rank]
    | startNextCycle charge =>
      obtain ⟨db₁, -, heq⟩ := Option.map_eq_some_iff.1 h
      cases heq
      simp [Task.rank]
    | _ => cases h; simp [Task.rank]
  enter {request db db' out} h := by
    cases enter_entry h with
    | refused => exact Nat.zero_le 16
    | _ => exact le_rfl

theorem exists_new (issued : List String) : ∃ id, id ∉ issued := by
  obtain ⟨id, hid⟩ := Infinite.exists_notMem_finset issued.toFinset
  exact ⟨id, fun h => hid (List.mem_toFinset.2 h)⟩

/-- Every task can be handled. -/
theorem segment_isSome (db : Stores) (t : Task) : ∃ input, (segment input db t).isSome := by
  obtain ⟨id, hid⟩ := exists_new db.issued
  have hissue : (db.issue id).isSome := by
    unfold Stores.issue
    rw [if_neg hid]
    rfl
  refine ⟨⟨id, "", ""⟩, ?_⟩
  cases t with
  | event sagaId e =>
    cases e with
    | planOrderRequested | planOrderCreated | orderCreated | recurringCreated | productPending =>
      exact (Option.isSome_map ..).trans hissue
    | _ => rfl
  | startNextCycle charge => exact (Option.isSome_map ..).trans hissue
  | _ => rfl

/-- Where no event is handled twice, the requests of a run lead to at most sixteen times as many steps of the participants,
counted together, they can all be made, and then every billing of which nothing was lost is settled: a recurrence waits, is completed with one payment,
may be tried again, or has failed with all its attempts, and each attempt had a payment. -/
theorem billings_settle (h : run Flow.step .empty as = some c) (honce : ∀ a ∈ as, a.Once) :
    as.countP (·.isHandle) ≤ as.countP (·.isEnter) * 16 ∧
    (∃ bs c', run Flow.step c bs = some c' ∧ c'.tasks = 0 ∧ ∀ b ∈ bs, b.Once ∧ b.Keeps ∧ b.isEnter = false) ∧
    (c.tasks = 0 → (∀ a ∈ as, a.Keeps) → ∀ recurringId record,
      c.state.recurrings.lookup recurringId = some record →
        (c.state.paymentsOf recurringId).length = record.totalAttempts ∧
        ((record.status = .scheduled ∧ record.totalAttempts = 0) ∨
          (record.status = .completed ∧ (c.state.successesOf recurringId).length = 1) ∨
          (record.status = .captureFailed ∧ (c.state.successesOf recurringId).length = 0 ∧
            record.maxAttempts.le (.ofNat record.totalAttempts) = false) ∨
          (record.status = .failed ∧ (c.state.successesOf recurringId).length = 0 ∧
            record.maxAttempts.le (.ofNat record.totalAttempts) = true))) := by
  refine ⟨?_, ?_, fun hdone hkeeps recurringId record hrecord => ?_⟩
  · have hle := ranked.handled_le h honce
    have hempty : (Flow.empty.tasks.map Task.rank).sum = 0 := rfl
    omega
  · exact ranked.exists_drain (I := fun _ => True) (fun _ _ _ _ _ => trivial)
      (fun c t _ _ => segment_isSome c.state t) c trivial
  · obtain ⟨-, hinv⟩ := accounts_of_run h honce
    have hi := hinv recurringId
    have hstanding : (c.account recurringId).standing = some record.standing := by
      show c.state.standing recurringId = _
      unfold Stores.standing
      rw [hrecord]
      rfl
    have hstages : (c.account recurringId).stages = 0 := by
      show c.tasks.filterMap _ = 0
      rw [hdone]
      rfl
    unfold Account.Inv at hi
    rw [hstanding] at hi
    obtain ⟨-, -, heq, hagrees⟩ := hi
    have hlen : (c.account recurringId).outcomes.length = (c.state.paymentsOf recurringId).length := List.length_map ..
    have hattempts := heq hkeeps
    rw [hlen, hstages, Multiset.count_zero, Nat.add_zero] at hattempts
    refine ⟨hattempts, ?_⟩
    rw [← successes_account]
    have hstatus : record.standing.status = record.status := rfl
    rw [hstatus] at hagrees
    cases hs : record.status <;> rw [hs] at hagrees
    case scheduled => exact .inl ⟨rfl, hagrees.2⟩
    case processing =>
      have hone := hagrees.2.1 hkeeps
      rw [hstages] at hone
      cases hone
    case completed => exact .inr (.inl ⟨rfl, hagrees.2⟩)
    case captureFailed => exact .inr (.inr (.inl ⟨rfl, hagrees.2⟩))
    case failed => exact .inr (.inr (.inr ⟨rfl, hagrees.2⟩))
    case cancelled => exact hagrees.elim

section Sample

def Charge.sampleNext : Charge := { Charge.sample with recurringId := "recurring-2", cycle := 2 }

/-- What is left when the billing was paid at the second attempt: the record of the next cycle and its product. -/
def settledRun : List (Tasks.Act Task Input Request) :=
  retriedRun false ++
    [.handle (.linkSaga "recurring-1" "saga-1") false {}, .handle (.linkSaga "recurring-1" "saga-2") false {},
      .handle (.event "saga-1" (.recurringCaptureFailed .sample)) false {},
      .handle (.event "saga-2" (.recurringCompleted "recurring-1" "PLAN-1" "CUST-1" 1)) false {},
      .handle (.startNextCycle .sample) false { id := "recurring-2", sagaId := "saga-3", msisdn := "+554112345678" },
      .handle (.event "saga-3" (.recurringCreated .sampleNext "+554112345678")) false { id := "product-1" },
      .handle (.createNext "recurring-2" "saga-3" .sampleNext) false {},
      .handle (.event "saga-3" (.productPending "product-1" "CUST-1" "PLAN-1" "+554112345678")) false
        { id := "provision-1" },
      .handle (.provisioned "saga-3" "provision-1" "product-1" "+554112345678" "PKG-PLAN-1") false {},
      .handle (.event "saga-3" (.provisionCompleted "provision-1" "product-1" "+554112345678" "PKG-PLAN-1")) false {},
      .handle (.event "saga-3" (.productActivated "product-1" "provision-1")) false {}]

theorem billings_settle_sample :
    ∃ c record, run Flow.step .empty settledRun = some c ∧ c.tasks = 0 ∧
      c.state.recurrings.lookup "recurring-1" = some record ∧
      (c.state.paymentsOf "recurring-1").length = record.totalAttempts := by
  obtain ⟨c, hr, hp⟩ := exists_of_run Flow.step .empty settledRun
    (fun c => decide (c.tasks = 0) && (c.state.recurrings.lookup "recurring-1").isSome) (by decide +kernel)
  rw [Bool.and_eq_true, decide_eq_true_iff, Option.isSome_iff_exists] at hp
  obtain ⟨hdone, record, hrecord⟩ := hp
  obtain ⟨-, -, hsettled⟩ := billings_settle hr (by decide)
  exact ⟨c, record, hr, hdone, hrecord, (hsettled hdone (by decide) "recurring-1" record hrecord).1⟩

end Sample

/-! ## The attempts -/

/-- The attempts stay within their bound, one more is left where a billing may be tried again, and none where it
has failed. A bound that is NaN bounds nothing. -/
def Standing.Bounded (x : Standing) : Prop :=
  (x.status = .failed → x.maxAttempts.le (.ofNat x.totalAttempts) = true) ∧
    (x.maxAttempts = .nan ∨ (x.maxAttempts.IsWhole ∧ (Number.ofNat x.totalAttempts).le x.maxAttempts = true ∧
      (x.status = .captureFailed → (Number.ofNat x.totalAttempts).lt x.maxAttempts = true)))

namespace Standing.Bounded

variable {x : Standing}

theorem scheduled : Bounded ⟨.scheduled, 0, .ofNat 3⟩ :=
  ⟨nofun, .inr ⟨Number.isWhole_ofNat 3, by simp, nofun⟩⟩

theorem first (text : String) : Bounded ⟨.processing, 1, Number.max (.ofNat 1) (Number.parseInt text)⟩ := by
  refine ⟨nofun, (Number.max_one_spec (Number.parseInt_whole text)).imp_right fun h => ⟨h.1, h.2, nofun⟩⟩

theorem completed (h : x.Bounded) : Bounded { x with status := .completed } :=
  ⟨nofun, h.2.imp_right fun h => ⟨h.1, h.2.1, nofun⟩⟩

theorem failed (h : x.Bounded) (hmax : x.maxAttempts.le (.ofNat x.totalAttempts) = true) :
    Bounded { x with status := .failed } :=
  ⟨fun _ => hmax, h.2.imp_right fun h => ⟨h.1, h.2.1, nofun⟩⟩

theorem captureFailed (h : x.Bounded) (hmax : x.maxAttempts.le (.ofNat x.totalAttempts) = false) :
    Bounded { x with status := .captureFailed } := by
  refine ⟨nofun, ?_⟩
  by_cases hnan : x.maxAttempts = .nan
  · exact .inl hnan
  · obtain ⟨hw, hle, -⟩ := h.2.resolve_left hnan
    exact .inr ⟨hw, hle, fun _ => Number.lt_of_not_le hnan nofun hmax⟩

theorem again (h : x.Bounded) (hstatus : x.status = .captureFailed) :
    Bounded ⟨.processing, x.totalAttempts + 1, x.maxAttempts⟩ :=
  ⟨nofun, h.2.imp_right fun ⟨hw, hle, hlt⟩ => ⟨hw, Number.le_iff_lt_or_eq hw hle (hlt hstatus), nofun⟩⟩

end Standing.Bounded

/-- Every recurrence has its attempts within bounds. -/
def Stores.Bounded (db : Stores) : Prop := ∀ r x, db.standing r = some x → x.Bounded

theorem bounded_update {db : Stores} {recurringId : String} {status : RecurringStatus} (h : db.Bounded)
    (hx : ∀ x, db.standing recurringId = some x → Standing.Bounded { x with status := status }) :
    (db.updateRecurring recurringId status).Bounded := by
  intro r x hr
  rw [standing_updateRecurring] at hr
  split at hr
  · rename_i heq
    obtain ⟨y, hy, rfl⟩ := Option.map_eq_some_iff.1 hr
    exact hx y (heq ▸ hy)
  · exact h r x hr

theorem Effect.bounded {db db' : Stores} {t : Task} {out : List Task} (h : Effect db t db' out) (hb : db.Bounded) :
    db'.Bounded := by
  cases h with
  | pass hlike => exact fun r x hx => hb r x ((hlike.standing r).symm.trans hx)
  | complete => exact bounded_update hb fun x hx => (hb _ x hx).completed
  | fail hx hmax =>
    refine bounded_update hb fun y hy => ?_
    cases hx.symm.trans hy
    exact (hb _ _ hx).failed hmax
  | captureFail hx hmax =>
    refine bounded_update hb fun y hy => ?_
    cases hx.symm.trans hy
    exact (hb _ _ hx).captureFailed hmax
  | create hrecord =>
    intro r x hx
    rw [standing_insert] at hx
    split at hx
    · cases hx
      rw [hrecord]
      exact .scheduled
    · exact hb r x hx
  | _ => exact hb

theorem Entry.bounded {db db' : Stores} {out : List Task} (h : Entry db db' out) (hb : db.Bounded) : db'.Bounded := by
  cases h with
  | bill _ _ _ hstanding hm =>
    obtain ⟨text, rfl⟩ := hm
    intro r x hx
    rw [hstanding] at hx
    split at hx
    · cases hx
      exact .first text
    · exact hb r x hx
  | retry hx hstatus =>
    intro r y hy
    rw [standing_incrementAttempt] at hy
    split at hy
    · rename_i hr
      obtain ⟨z, hz, rfl⟩ := Option.map_eq_some_iff.1 hy
      rw [hr, hx] at hz
      cases hz
      exact (hb _ _ hx).again hstatus
    · exact hb r y hy
  | refused => exact hb

/-- Whatever is handled again or lost, a recurrence has no more attempts than it may have, unless that bound was read
from a text that is no number, and it has failed only with all of them; with such a text it never fails. -/
theorem attempts_bounded (h : run Flow.step .empty as = some c) (recurringId : String) (record : RecurringRecord)
    (hrecord : c.state.recurrings.lookup recurringId = some record) :
    (record.maxAttempts = .nan ∨ (Number.ofNat record.totalAttempts).le record.maxAttempts = true) ∧
      (record.status = .failed → record.maxAttempts.le (.ofNat record.totalAttempts) = true) := by
  have hb : c.state.Bounded := by
    refine run_induction (I := fun c => c.state.Bounded) (fun c a c' hb hstep => ?_) (fun r x hx => by cases hx) h
    cases step_move hstep with
    | enter he => exact (enter_entry he).bounded hb
    | again ht he => exact (segment_effect he).bounded hb
    | once ht he => exact (segment_effect he).bounded hb
    | lose ht => exact hb
  have hstanding : c.state.standing recurringId = some record.standing := by
    unfold Stores.standing
    rw [hrecord]
    rfl
  obtain ⟨hfailed, hmax⟩ := hb recurringId _ hstanding
  exact ⟨hmax.imp_right fun h => h.2.1, hfailed⟩

/-- Also where the event of a refusal is handled again. -/
theorem attempts_bounded_sample :
    ∃ c record, run Flow.step .empty (retriedRun true) = some c ∧
      c.state.recurrings.lookup "recurring-1" = some record ∧ record.totalAttempts = 2 ∧
      (record.maxAttempts = .nan ∨ (Number.ofNat record.totalAttempts).le record.maxAttempts = true) := by
  obtain ⟨c, hr, hp⟩ := exists_of_run Flow.step .empty (retriedRun true)
    (fun c => (c.state.recurrings.lookup "recurring-1").any (·.totalAttempts = 2)) (by decide +kernel)
  obtain ⟨record, hrecord, hattempts⟩ := (Option.any_eq_true _ _).1 hp
  exact ⟨c, record, hr, hrecord, by simpa using hattempts, (attempts_bounded hr "recurring-1" record hrecord).1⟩

end Saga.RecurringFlow
