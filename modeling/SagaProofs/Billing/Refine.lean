/-
The flow as the accounts of its recurrences: the events, the records to be created and the payments of each are
those of an account, and a step of the flow is one of its steps for one recurrence, or none.
-/
import SagaProofs.Billing.Account

namespace Saga.RecurringFlow

open Keyed Lts Tasks

/-! ## The view of an account -/

def RecurringRecord.standing (record : RecurringRecord) : Standing :=
  ⟨record.status, record.totalAttempts, record.maxAttempts⟩

namespace Stores

def standing (db : Stores) (recurringId : String) : Option Standing :=
  (db.recurrings.lookup recurringId).map (·.standing)

/-- The recurrence of a plan order. -/
def recurringOf (db : Stores) (planOrderId : String) : Option String :=
  (db.planOrders.lookup planOrderId).map (·.recurringId)

/-- The plan order of an order. -/
def planOrderOf (db : Stores) (orderId : String) : Option String :=
  (db.orders.lookup orderId).map (·.planOrderId)

/-- The recurrence that a payment is for. -/
def paidFor (db : Stores) (payment : PaymentRecord) : Option String :=
  (db.planOrderOf payment.orderId).bind db.recurringOf

def paymentsOf (db : Stores) (recurringId : String) : List PaymentRecord :=
  db.payments.filter (db.paidFor · = some recurringId)

end Stores

/-- The recurrence whose billing goes on with the task, and where it stands. -/
def Task.stage : Task → Option (String × Stage)
  | .event _ (.recurringProcessing charge _) => some (charge.recurringId, .opening)
  | .event _ (.planOrderRequested charge _ _) => some (charge.recurringId, .opening)
  | .event _ (.planOrderCreated _ charge _) => some (charge.recurringId, .opening)
  | .event _ (.orderCreated _ _ charge _) => some (charge.recurringId, .opening)
  | .event _ (.paymentSuccess _ _ _ charge) => some (charge.recurringId, .paid)
  | .event _ (.orderCompleted _ _ charge) => some (charge.recurringId, .paid)
  | .event _ (.planOrderCompleted _ charge) => some (charge.recurringId, .paid)
  | .event _ (.paymentFailed _ _ _ refusal) => some (refusal.recurringId, .refused)
  | .event _ (.orderPaymentFailed _ _ refusal) => some (refusal.recurringId, .refused)
  | .event _ (.planOrderPaymentFailed _ refusal) => some (refusal.recurringId, .refused)
  | _ => none

def Task.stageOf (recurringId : String) (t : Task) : Option Stage :=
  t.stage.bind fun x => if x.1 = recurringId then some x.2 else none

/-- The recurrence whose record the task creates. -/
def Task.creates : Task → Option String
  | .createNext recurringId _ _ => some recurringId
  | _ => none

def Flow.account (c : Flow) (recurringId : String) : Account where
  standing := c.state.standing recurringId
  stages := c.tasks.filterMap (Task.stageOf recurringId)
  announced := c.tasks.countP fun t => t.creates = some recurringId
  outcomes := (c.state.paymentsOf recurringId).map (·.status)

/-! ## The links between the stores -/

/-- Every id was issued, and every link leads to a record. -/
structure Stores.Sound (db : Stores) : Prop where
  recurrings : ∀ r x, db.standing r = some x → r ∈ db.issued
  planOrders : ∀ p r, db.recurringOf p = some r → p ∈ db.issued ∧ r ∈ db.issued
  orders : ∀ o p, db.planOrderOf o = some p → o ∈ db.issued ∧ ∃ r, db.recurringOf p = some r
  payments : ∀ payment ∈ db.payments, ∃ p, db.planOrderOf payment.orderId = some p

/-- The ids in a task were issued, and those of its orders lead to its recurrence. -/
def Task.Linked (db : Stores) (t : Task) : Prop :=
  (∀ r s, t.stage = some (r, s) → r ∈ db.issued) ∧ (∀ r, t.creates = some r → r ∈ db.issued) ∧
    match t with
    | .event _ (.planOrderCreated planOrderId charge _) => db.recurringOf planOrderId = some charge.recurringId
    | .event _ (.orderCreated orderId _ charge _) =>
      ∃ p, db.planOrderOf orderId = some p ∧ db.recurringOf p = some charge.recurringId
    | _ => True

/-- Links stay. -/
structure Stores.Grows (db db' : Stores) : Prop where
  issued : db.issued ⊆ db'.issued
  planOrders : ∀ p r, db.recurringOf p = some r → db'.recurringOf p = some r
  orders : ∀ o p, db.planOrderOf o = some p → db'.planOrderOf o = some p

/-- The links, the payments and what was issued are kept. -/
structure Stores.Keeps (db db' : Stores) : Prop where
  planOrders : ∀ p, db'.recurringOf p = db.recurringOf p
  orders : ∀ o, db'.planOrderOf o = db.planOrderOf o
  payments : db'.payments = db.payments
  issued : db.issued ⊆ db'.issued

/-- Nothing has changed but what no account depends on. -/
structure Stores.Like (db db' : Stores) : Prop extends db.Keeps db' where
  standing : ∀ r, db'.standing r = db.standing r

variable {db db' : Stores}

theorem Stores.Like.rfl : db.Like db :=
  ⟨⟨fun _ => Eq.refl _, fun _ => Eq.refl _, Eq.refl _, List.Subset.refl _⟩, fun _ => Eq.refl _⟩

theorem Stores.Keeps.grows (h : db.Keeps db') : db.Grows db' :=
  ⟨h.issued, fun p _ hp => (h.planOrders p).trans hp, fun o _ ho => (h.orders o).trans ho⟩

theorem Stores.Keeps.sound (h : db.Keeps db') (hs : db.Sound)
    (hr : ∀ r x, db'.standing r = some x → r ∈ db'.issued) : db'.Sound where
  recurrings := hr
  planOrders p r hp := by
    obtain ⟨hp, hr⟩ := hs.planOrders p r ((h.planOrders p).symm.trans hp)
    exact ⟨h.issued hp, h.issued hr⟩
  orders o p ho := by
    obtain ⟨ho, r, hr⟩ := hs.orders o p ((h.orders o).symm.trans ho)
    exact ⟨h.issued ho, r, (h.planOrders p).trans hr⟩
  payments payment hp := by
    rw [h.payments] at hp
    obtain ⟨p, hp⟩ := hs.payments payment hp
    exact ⟨p, (h.orders _).trans hp⟩

theorem Stores.Like.sound (h : db.Like db') (hs : db.Sound) : db'.Sound :=
  h.toKeeps.sound hs fun r x hr => h.issued (hs.recurrings r x ((h.standing r).symm.trans hr))

theorem Task.Linked.mono {t : Task} (h : t.Linked db) (hg : db.Grows db') : t.Linked db' := by
  obtain ⟨hstage, hcreates, hlink⟩ := h
  refine ⟨fun r s hs => hg.issued (hstage r s hs), fun r hr => hg.issued (hcreates r hr), ?_⟩
  split
  · exact hg.planOrders _ _ hlink
  · obtain ⟨p, hp, hr⟩ := hlink
    exact ⟨p, hg.orders _ _ hp, hg.planOrders _ _ hr⟩
  · trivial

/-- Payments are for the recurrences they were for. -/
theorem Stores.Grows.paidFor (h : db.Grows db') (hs : db.Sound) {payment : PaymentRecord} (hp : payment ∈ db.payments) :
    db'.paidFor payment = db.paidFor payment := by
  obtain ⟨p, hp⟩ := hs.payments payment hp
  obtain ⟨-, r, hr⟩ := hs.orders _ _ hp
  unfold Stores.paidFor
  rw [hp, h.orders _ _ hp, Option.bind_some, Option.bind_some, hr, h.planOrders _ _ hr]

theorem Stores.Grows.paymentsOf (h : db.Grows db') (hs : db.Sound) (hp : db'.payments = db.payments) (r : String) :
    db'.paymentsOf r = db.paymentsOf r := by
  unfold Stores.paymentsOf
  rw [hp]
  exact List.filter_congr fun payment hmem => by rw [h.paidFor hs hmem]

/-! ## What the operations of the stores leave alone -/

section Operations

theorem issue_eq {id : String} (h : db.issue id = some db') :
    id ∉ db.issued ∧ db' = { db with issued := id :: db.issued } := by
  unfold Stores.issue at h
  split at h
  · cases h
  · rename_i hid
    cases h
    exact ⟨hid, rfl⟩

theorem Stores.Like.trans {db'' : Stores} (h : db.Like db') (h' : db'.Like db'') : db.Like db'' where
  planOrders p := (h'.planOrders p).trans (h.planOrders p)
  orders o := (h'.orders o).trans (h.orders o)
  payments := h'.payments.trans h.payments
  issued := List.Subset.trans h.issued h'.issued
  standing r := (h'.standing r).trans (h.standing r)

/-- An id is issued, and the plans, products and provisions are whatever they are then. -/
theorem like_issued (db : Stores) (id : String) (plans : Table String PlanRecord) (products : Table String ProductRecord)
    (provisions : Table String ProvisionRecord) :
    db.Like { db with issued := id :: db.issued, plans := plans, products := products, provisions := provisions } :=
  ⟨⟨fun _ => rfl, fun _ => rfl, rfl, List.subset_cons_self ..⟩, fun _ => rfl⟩

theorem like_updatePlan (db : Stores) (planId : String) (status : PlanStatus) : db.Like (db.updatePlan planId status) :=
  ⟨⟨fun _ => rfl, fun _ => rfl, rfl, List.Subset.refl _⟩, fun _ => rfl⟩

theorem like_updateProduct (db : Stores) (productId : String) (status : ProductStatus) :
    db.Like (db.updateProduct productId status) :=
  ⟨⟨fun _ => rfl, fun _ => rfl, rfl, List.Subset.refl _⟩, fun _ => rfl⟩

theorem like_updateProvision (db : Stores) (provisionId : String) (status : ProvisionStatus) :
    db.Like (db.updateProvision provisionId status) :=
  ⟨⟨fun _ => rfl, fun _ => rfl, rfl, List.Subset.refl _⟩, fun _ => rfl⟩

/-- What a change of a record keeps is read as before. -/
theorem map_lookup_modify {ρ β : Type*} (t : Table String ρ) (k : String) {f : ρ → ρ} {g : ρ → β}
    (h : ∀ r, g (f r) = g r) (k' : String) : ((modify t k f).lookup k').map g = (t.lookup k').map g := by
  rw [lookup_modify]
  split
  · rw [Option.map_map]
    exact Option.map_congr fun r _ => h r
  · rfl

theorem like_updatePlanOrder (db : Stores) (planOrderId : String) (status : OrderStatus) :
    db.Like (db.updatePlanOrder planOrderId status) :=
  ⟨⟨map_lookup_modify db.planOrders planOrderId (g := (·.recurringId)) fun _ => rfl, fun _ => rfl, rfl,
    List.Subset.refl _⟩, fun _ => rfl⟩

theorem like_updateOrder (db : Stores) (orderId : String) (status : OrderStatus) :
    db.Like (db.updateOrder orderId status) :=
  ⟨⟨fun _ => rfl, map_lookup_modify db.orders orderId (g := (·.planOrderId)) fun _ => rfl, rfl,
    List.Subset.refl _⟩, fun _ => rfl⟩

theorem like_updateSagaId (db : Stores) (recurringId sagaId : String) : db.Like (db.updateSagaId recurringId sagaId) :=
  ⟨⟨fun _ => rfl, fun _ => rfl, rfl, List.Subset.refl _⟩,
    map_lookup_modify db.recurrings recurringId (g := (·.standing)) fun _ => rfl⟩

/-- What a change of the recurrences keeps. -/
theorem keeps_recurrings (db : Stores) (recurrings : Table String RecurringRecord) :
    db.Keeps { db with recurrings := recurrings } := ⟨fun _ => rfl, fun _ => rfl, rfl, List.Subset.refl _⟩

theorem standing_updateRecurring (db : Stores) (recurringId : String) (status : RecurringStatus) (r : String) :
    (db.updateRecurring recurringId status).standing r =
      if r = recurringId then (db.standing r).map fun x => { x with status := status } else db.standing r := by
  unfold Stores.updateRecurring Stores.standing
  rw [lookup_modify]
  split
  · rw [Option.map_map, Option.map_map]
    rfl
  · rfl

theorem standing_incrementAttempt (db : Stores) (recurringId r : String) :
    (db.incrementAttempt recurringId).standing r =
      if r = recurringId then (db.standing r).map fun x => ⟨.processing, x.totalAttempts + 1, x.maxAttempts⟩
      else db.standing r := by
  unfold Stores.incrementAttempt Stores.standing
  rw [lookup_modify]
  split
  · rw [Option.map_map, Option.map_map]
    rfl
  · rfl

theorem standing_insert (db : Stores) (recurringId : String) (record : RecurringRecord) (r : String) :
    ({ db with recurrings := db.recurrings.insert recurringId record } : Stores).standing r =
      if r = recurringId then some record.standing else db.standing r := by
  unfold Stores.standing
  split
  · rename_i hr
    rw [hr, Finmap.lookup_insert]
    rfl
  · rename_i hr
    rw [Finmap.lookup_insert_of_ne _ hr]

end Operations

/-! ## What a segment does -/

/-- A segment leaves all accounts alone, adds a plan order, an order or a payment, settles a billing, or announces or
creates the record of the next cycle. -/
inductive Effect (db : Stores) : Task → Stores → List Task → Prop
  | pass {t : Task} {db' : Stores} {out : List Task} (hlike : db.Like db')
    (hstage : ∀ r, out.filterMap (Task.stageOf r) = (t.stageOf r).toList)
    (hcreates : t.creates = none ∧ ∀ t' ∈ out, t'.creates = none)
    (hlinked : t.Linked db → ∀ t' ∈ out, t'.Linked db') : Effect db t db' out
  | planOrder {sagaId : String} {charge : Charge} {orderType : OrderType} {simulate : Bool} {p : String}
    (hp : p ∉ db.issued) :
    Effect db (.event sagaId (.planOrderRequested charge orderType simulate))
      { db with
        issued := p :: db.issued
        planOrders := db.planOrders.insert p
          ⟨sagaId, charge.recurringId, charge.planId, charge.customerId, charge.amount, orderType, .pending⟩ }
      [.event sagaId (.planOrderCreated p charge simulate)]
  | order {sagaId planOrderId : String} {charge : Charge} {simulate : Bool} {o : String} (ho : o ∉ db.issued) :
    Effect db (.event sagaId (.planOrderCreated planOrderId charge simulate))
      { db with
        issued := o :: db.issued
        orders := db.orders.insert o ⟨sagaId, planOrderId, charge.customerId, charge.amount, .pending⟩ }
      [.event sagaId (.orderCreated o planOrderId charge simulate)]
  | pay {sagaId orderId planOrderId : String} {charge : Charge} {simulate : Bool} {id : String} {payment : PaymentRecord}
    {next : Task} (hpayment : payment.orderId = orderId) (hcreates : next.creates = none)
    (hnext : (payment.status = .success ∧ next.stage = some (charge.recurringId, .paid)) ∨
      (payment.status = .failed ∧ next.stage = some (charge.recurringId, .refused)))
    (hlinked : ∀ db', charge.recurringId ∈ db'.issued → next.Linked db') :
    Effect db (.event sagaId (.orderCreated orderId planOrderId charge simulate))
      { db with issued := id :: db.issued, payments := db.payments ++ [payment] } [next]
  | complete {sagaId planOrderId : String} {charge : Charge} :
    Effect db (.event sagaId (.planOrderCompleted planOrderId charge)) (db.updateRecurring charge.recurringId .completed)
      [.event sagaId (.recurringCompleted charge.recurringId charge.planId charge.customerId charge.cycle),
        .startNextCycle charge]
  | unknown {sagaId planOrderId : String} {refusal : Refusal} (h : db.standing refusal.recurringId = none) :
    Effect db (.event sagaId (.planOrderPaymentFailed planOrderId refusal)) db []
  | fail {sagaId planOrderId : String} {refusal : Refusal} {x : Standing}
    (h : db.standing refusal.recurringId = some x) (hmax : x.maxAttempts.le (.ofNat x.totalAttempts) = true) :
    Effect db (.event sagaId (.planOrderPaymentFailed planOrderId refusal)) (db.updateRecurring refusal.recurringId .failed)
      [.event sagaId (.recurringFailed refusal)]
  | captureFail {sagaId planOrderId : String} {refusal : Refusal} {x : Standing}
    (h : db.standing refusal.recurringId = some x) (hmax : x.maxAttempts.le (.ofNat x.totalAttempts) = false) :
    Effect db (.event sagaId (.planOrderPaymentFailed planOrderId refusal))
      (db.updateRecurring refusal.recurringId .captureFailed) [.event sagaId (.recurringCaptureFailed refusal)]
  | announce {charge next : Charge} {sagaId msisdn : String} (hid : next.recurringId ∉ db.issued) :
    Effect db (.startNextCycle charge) { db with issued := next.recurringId :: db.issued }
      [.event sagaId (.recurringCreated next msisdn), .createNext next.recurringId sagaId next]
  | create {recurringId sagaId : String} {next : Charge} {record : RecurringRecord}
    (hrecord : record.standing = ⟨.scheduled, 0, .ofNat 3⟩) :
    Effect db (.createNext recurringId sagaId next)
      { db with recurrings := db.recurrings.insert recurringId record } []

/-- One event for another at the same stage. -/
theorem Effect.one {t t' : Task} (hlike : db.Like db') (hstage : t'.stage = t.stage)
    (hcreates : t.creates = none ∧ t'.creates = none) (hlinked : t.Linked db → t'.Linked db') :
    Effect db t db' [t'] := by
  refine .pass hlike (fun r => ?_) ⟨hcreates.1, fun x hx => ?_⟩ fun ht x hx => ?_
  · have hsame : t'.stageOf r = t.stageOf r := by unfold Task.stageOf; rw [hstage]
    rw [← hsame]
    cases h : t'.stageOf r <;> simp [h]
  · rw [List.mem_singleton.1 hx]; exact hcreates.2
  · rw [List.mem_singleton.1 hx]; exact hlinked ht

/-- The task is the last. -/
theorem Effect.last {t : Task} (hlike : db.Like db') (hstage : t.stage = none) (hcreates : t.creates = none) :
    Effect db t db' [] := by
  refine .pass hlike (fun r => ?_) ⟨hcreates, fun x hx => nomatch hx⟩ fun _ x hx => nomatch hx
  unfold Task.stageOf
  rw [hstage]
  rfl

theorem segment_effect {input : Input} {t : Task} {out : List Task} (h : segment input db t = some (db', out)) :
    Effect db t db' out := by
  cases t with
  | event sagaId e =>
    cases e with
    | recurringProcessing charge simulate =>
      cases h
      exact .one .rfl rfl ⟨rfl, rfl⟩ fun ht => ⟨fun r s hs => ht.1 r s hs, nofun, trivial⟩
    | planOrderRequested charge orderType simulate =>
      obtain ⟨db₁, hissue, heq⟩ := Option.map_eq_some_iff.1 h
      obtain ⟨hid, rfl⟩ := issue_eq hissue
      cases heq
      exact .planOrder hid
    | planOrderCreated planOrderId charge simulate =>
      obtain ⟨db₁, hissue, heq⟩ := Option.map_eq_some_iff.1 h
      obtain ⟨hid, rfl⟩ := issue_eq hissue
      cases heq
      exact .order hid
    | orderCreated orderId planOrderId charge simulate =>
      obtain ⟨db₁, hissue, heq⟩ := Option.map_eq_some_iff.1 h
      obtain ⟨hid, rfl⟩ := issue_eq hissue
      have hlinked : ∀ (next : Task), (∀ r s, next.stage = some (r, s) → r = charge.recurringId) → next.creates = none →
          (∀ db' : Stores, charge.recurringId ∈ db'.issued → ∀ r s, next.stage = some (r, s) → r ∈ db'.issued) :=
        fun next hstage _ db' hr r s hs => hstage r s hs ▸ hr
      split at heq
      · cases heq
        refine .pay rfl rfl (.inr ⟨rfl, rfl⟩) fun db' hr => ⟨hlinked _ (fun r s hs => ?_) rfl db' hr, nofun, trivial⟩
        cases hs; rfl
      · cases heq
        refine .pay rfl rfl (.inl ⟨rfl, rfl⟩) fun db' hr => ⟨hlinked _ (fun r s hs => ?_) rfl db' hr, nofun, trivial⟩
        cases hs; rfl
    | paymentSuccess paymentId orderId planOrderId charge =>
      cases h
      exact .one (like_updateOrder db orderId _) rfl ⟨rfl, rfl⟩ fun ht => ⟨fun r s hs => ht.1 r s hs, nofun, trivial⟩
    | paymentFailed paymentId orderId planOrderId refusal =>
      cases h
      exact .one (like_updateOrder db orderId _) rfl ⟨rfl, rfl⟩ fun ht => ⟨fun r s hs => ht.1 r s hs, nofun, trivial⟩
    | orderCompleted orderId planOrderId charge =>
      cases h
      exact .one (like_updatePlanOrder db planOrderId _) rfl ⟨rfl, rfl⟩
        fun ht => ⟨fun r s hs => ht.1 r s hs, nofun, trivial⟩
    | orderPaymentFailed orderId planOrderId refusal =>
      cases h
      exact .one (like_updatePlanOrder db planOrderId _) rfl ⟨rfl, rfl⟩
        fun ht => ⟨fun r s hs => ht.1 r s hs, nofun, trivial⟩
    | planOrderCompleted planOrderId charge =>
      cases h
      exact .complete
    | planOrderPaymentFailed planOrderId refusal =>
      simp only [segment, RFPlanRecurringPaymentFailedParticipant.handle, Option.some.injEq] at h
      cases hrecord : db.recurrings.lookup refusal.recurringId with
      | none =>
        rw [hrecord] at h
        cases h
        exact .unknown (by unfold Stores.standing; rw [hrecord]; rfl)
      | some record =>
        rw [hrecord] at h
        have hstanding : db.standing refusal.recurringId = some record.standing := by
          unfold Stores.standing; rw [hrecord]; rfl
        dsimp only at h
        split at h
        · rename_i hmax
          cases h
          exact .fail hstanding hmax
        · rename_i hmax
          cases h
          exact .captureFail hstanding (Bool.eq_false_iff.2 hmax)
    | recurringFailed refusal =>
      cases h
      exact .one (like_updatePlan db refusal.planId _) rfl ⟨rfl, rfl⟩ fun _ => ⟨nofun, nofun, trivial⟩
    | recurringCreated next msisdn =>
      obtain ⟨db₁, hissue, heq⟩ := Option.map_eq_some_iff.1 h
      obtain ⟨hid, rfl⟩ := issue_eq hissue
      cases heq
      exact .one ((like_issued db input.id db.plans _ db.provisions).trans (like_updateProduct _ input.id _)) rfl
        ⟨rfl, rfl⟩ fun _ => ⟨nofun, nofun, trivial⟩
    | productPending productId customerId planId msisdn =>
      obtain ⟨db₁, hissue, heq⟩ := Option.map_eq_some_iff.1 h
      obtain ⟨hid, rfl⟩ := issue_eq hissue
      cases heq
      exact .one (like_issued db input.id db.plans db.products _) rfl ⟨rfl, rfl⟩ fun _ => ⟨nofun, nofun, trivial⟩
    | provisionCompleted provisionId productId msisdn packageId =>
      cases h
      exact .one (like_updateProduct db productId _) rfl ⟨rfl, rfl⟩ fun _ => ⟨nofun, nofun, trivial⟩
    | recurringCompleted recurringId planId customerId cycle => cases h; exact .last .rfl rfl rfl
    | recurringCaptureFailed refusal => cases h; exact .last .rfl rfl rfl
    | planSuspended planId recurringId reason => cases h; exact .last .rfl rfl rfl
    | productActivated productId provisionId => cases h; exact .last .rfl rfl rfl
  | startNextCycle charge =>
    obtain ⟨db₁, hissue, heq⟩ := Option.map_eq_some_iff.1 h
    obtain ⟨hid, rfl⟩ := issue_eq hissue
    cases heq
    exact .announce hid
  | createNext recurringId sagaId next =>
    cases h
    exact .create rfl
  | provisioned sagaId provisionId productId msisdn packageId =>
    cases h
    exact .one (like_updateProvision db provisionId _) rfl ⟨rfl, rfl⟩ fun _ => ⟨nofun, nofun, trivial⟩
  | linkSaga recurringId sagaId =>
    cases h
    exact .last (like_updateSagaId db recurringId sagaId) rfl rfl

/-- Links stay, lead to records, and the tasks that are left have them. -/
theorem Effect.sound {t : Task} {out : List Task} (h : Effect db t db' out) (hs : db.Sound) (ht : t.Linked db) :
    db.Grows db' ∧ db'.Sound ∧ ∀ t' ∈ out, t'.Linked db' := by
  have hupdate : ∀ r status, db.Keeps (db.updateRecurring r status) ∧ (db.updateRecurring r status).Sound := by
    intro r status
    refine ⟨keeps_recurrings db _, (keeps_recurrings db _).sound hs fun r' x hx => ?_⟩
    rw [show ({ db with recurrings := _ } : Stores) = db.updateRecurring r status from rfl, standing_updateRecurring] at hx
    split at hx
    · obtain ⟨y, hy, -⟩ := Option.map_eq_some_iff.1 hx
      exact hs.recurrings _ y hy
    · exact hs.recurrings _ x hx
  cases h with
  | pass hlike _ _ hlinked => exact ⟨hlike.grows, hlike.sound hs, hlinked ht⟩
  | @planOrder sagaId charge orderType simulate p hp =>
    have hr : charge.recurringId ∈ db.issued := ht.1 _ _ rfl
    have hlookup : ∀ p' r, db.recurringOf p' = some r → p' ≠ p := fun p' r h heq =>
      hp (heq ▸ (hs.planOrders p' r h).1)
    refine ⟨⟨List.subset_cons_self .., fun p' r h => ?_, fun _ _ h => h⟩, ⟨fun r x h => ?_, fun p' r h => ?_,
      fun o p' h => ?_, fun payment h => hs.payments payment h⟩, fun t' h => ?_⟩
    · unfold Stores.recurringOf
      rw [Finmap.lookup_insert_of_ne _ (hlookup p' r h)]
      exact h
    · exact List.mem_cons_of_mem _ (hs.recurrings r x h)
    · unfold Stores.recurringOf at h
      by_cases hp' : p' = p
      · rw [hp', Finmap.lookup_insert] at h
        cases h
        exact ⟨hp' ▸ List.mem_cons_self .., List.mem_cons_of_mem _ hr⟩
      · rw [Finmap.lookup_insert_of_ne _ hp'] at h
        obtain ⟨h1, h2⟩ := hs.planOrders p' r h
        exact ⟨List.mem_cons_of_mem _ h1, List.mem_cons_of_mem _ h2⟩
    · obtain ⟨h1, r, h2⟩ := hs.orders o p' h
      refine ⟨List.mem_cons_of_mem _ h1, r, ?_⟩
      unfold Stores.recurringOf
      rw [Finmap.lookup_insert_of_ne _ (hlookup p' r h2)]
      exact h2
    · rw [List.mem_singleton.1 h]
      refine ⟨fun r s hrs => ?_, nofun, ?_⟩
      · cases hrs
        exact List.mem_cons_of_mem _ hr
      · show Stores.recurringOf _ p = some charge.recurringId
        unfold Stores.recurringOf
        rw [Finmap.lookup_insert]
        rfl
  | @order sagaId planOrderId charge simulate o ho =>
    have hr : charge.recurringId ∈ db.issued := ht.1 _ _ rfl
    have hp : db.recurringOf planOrderId = some charge.recurringId := ht.2.2
    have hlookup : ∀ o' p, db.planOrderOf o' = some p → o' ≠ o := fun o' p h heq => ho (heq ▸ (hs.orders o' p h).1)
    have hold : ∀ o' p, db.planOrderOf o' = some p →
        Stores.planOrderOf { db with
          issued := o :: db.issued
          orders := db.orders.insert o ⟨sagaId, planOrderId, charge.customerId, charge.amount, .pending⟩ } o' = some p := by
      intro o' p h
      unfold Stores.planOrderOf
      rw [Finmap.lookup_insert_of_ne _ (hlookup o' p h)]
      exact h
    refine ⟨⟨List.subset_cons_self .., fun _ _ h => h, hold⟩, ⟨fun r x h => ?_, fun p r h => ?_, fun o' p h => ?_,
      fun payment h => ?_⟩, fun t' h => ?_⟩
    · exact List.mem_cons_of_mem _ (hs.recurrings r x h)
    · obtain ⟨h1, h2⟩ := hs.planOrders p r h
      exact ⟨List.mem_cons_of_mem _ h1, List.mem_cons_of_mem _ h2⟩
    · unfold Stores.planOrderOf at h
      by_cases ho' : o' = o
      · rw [ho', Finmap.lookup_insert] at h
        cases h
        exact ⟨ho' ▸ List.mem_cons_self .., _, hp⟩
      · rw [Finmap.lookup_insert_of_ne _ ho'] at h
        obtain ⟨h1, h2⟩ := hs.orders o' p h
        exact ⟨List.mem_cons_of_mem _ h1, h2⟩
    · obtain ⟨p, h⟩ := hs.payments payment h
      exact ⟨p, hold _ p h⟩
    · rw [List.mem_singleton.1 h]
      refine ⟨fun r s hrs => ?_, nofun, planOrderId, ?_, hp⟩
      · cases hrs
        exact List.mem_cons_of_mem _ hr
      · unfold Stores.planOrderOf
        rw [Finmap.lookup_insert]
        rfl
  | @pay sagaId orderId planOrderId charge simulate id payment next hpayment hcreates hnext hlinked =>
    have hr : charge.recurringId ∈ db.issued := ht.1 _ _ rfl
    obtain ⟨p, hp, -⟩ : ∃ p, db.planOrderOf orderId = some p ∧ db.recurringOf p = some charge.recurringId := ht.2.2
    refine ⟨⟨List.subset_cons_self .., fun _ _ h => h, fun _ _ h => h⟩, ⟨fun r x h => ?_, fun p r h => ?_,
      fun o p h => ?_, fun payment' h => ?_⟩, fun t' h => ?_⟩
    · exact List.mem_cons_of_mem _ (hs.recurrings r x h)
    · obtain ⟨h1, h2⟩ := hs.planOrders p r h
      exact ⟨List.mem_cons_of_mem _ h1, List.mem_cons_of_mem _ h2⟩
    · obtain ⟨h1, h2⟩ := hs.orders o p h
      exact ⟨List.mem_cons_of_mem _ h1, h2⟩
    · rcases List.mem_append.1 h with h | h
      · exact hs.payments payment' h
      · rw [List.mem_singleton.1 h, hpayment]
        exact ⟨p, hp⟩
    · rw [List.mem_singleton.1 h]
      exact hlinked _ (List.mem_cons_of_mem _ hr)
  | complete =>
    refine ⟨(hupdate _ _).1.grows, (hupdate _ _).2, fun t' h => ?_⟩
    rcases List.mem_cons.1 h with rfl | h
    · exact ⟨nofun, nofun, trivial⟩
    · rw [List.mem_singleton.1 h]; exact ⟨nofun, nofun, trivial⟩
  | unknown h => exact ⟨Stores.Like.rfl.grows, hs, fun t' h => nomatch h⟩
  | fail =>
    refine ⟨(hupdate _ _).1.grows, (hupdate _ _).2, fun t' h => ?_⟩
    rw [List.mem_singleton.1 h]; exact ⟨nofun, nofun, trivial⟩
  | captureFail =>
    refine ⟨(hupdate _ _).1.grows, (hupdate _ _).2, fun t' h => ?_⟩
    rw [List.mem_singleton.1 h]; exact ⟨nofun, nofun, trivial⟩
  | @announce charge next sagaId msisdn hid =>
    have hlike := like_issued db next.recurringId db.plans db.products db.provisions
    refine ⟨hlike.grows, hlike.sound hs, fun t' h => ?_⟩
    rcases List.mem_cons.1 h with rfl | h
    · exact ⟨nofun, nofun, trivial⟩
    · rw [List.mem_singleton.1 h]
      refine ⟨nofun, fun r hr => ?_, trivial⟩
      cases hr
      exact List.mem_cons_self ..
  | @create recurringId sagaId next record hrecord =>
    refine ⟨(keeps_recurrings db _).grows, (keeps_recurrings db _).sound hs fun r x hx => ?_, fun t' h => nomatch h⟩
    rw [standing_insert] at hx
    split at hx
    · rename_i hr
      rw [hr]
      exact ht.2.1 recurringId rfl
    · exact hs.recurrings r x hx

/-! ## What a request does -/

/-- A request begins the billing of a new recurrence, begins one again that was refused, or changes nothing. -/
inductive Entry (db : Stores) : Stores → List Task → Prop
  | bill {charge : Charge} {simulate : Bool} {sagaId : String} {m : Number} {db' : Stores}
    (hid : charge.recurringId ∉ db.issued) (hissued : db'.issued = charge.recurringId :: db.issued)
    (hkeeps : db.Keeps db')
    (hstanding : ∀ r, db'.standing r = if r = charge.recurringId then some ⟨.processing, 1, m⟩ else db.standing r)
    (hm : ∃ text, m = Number.max (.ofNat 1) (Number.parseInt text)) :
    Entry db db' [.event sagaId (.recurringProcessing charge simulate), .linkSaga charge.recurringId sagaId]
  | retry {charge : Charge} {simulate : Bool} {sagaId : String} {x : Standing}
    (hx : db.standing charge.recurringId = some x) (hstatus : x.status = .captureFailed) :
    Entry db (db.incrementAttempt charge.recurringId)
      [.event sagaId (.recurringProcessing charge simulate), .linkSaga charge.recurringId sagaId]
  | refused : Entry db db []

theorem enter_entry {request : Request} {out : List Task} (h : enter request db = some (db', out)) : Entry db db' out := by
  cases request with
  | triggerBilling recurringId planId customerId sagaId paymentFail maxAttempts =>
    obtain ⟨db₁, hissue, heq⟩ := Option.map_eq_some_iff.1 h
    obtain ⟨hid, rfl⟩ := issue_eq hissue
    cases heq
    refine .bill (m := Number.max (.ofNat 1) (Number.parseInt (maxAttempts.getD "3"))) hid rfl
      ⟨fun _ => rfl, fun _ => rfl, rfl, List.subset_cons_self ..⟩ (fun r => ?_) ⟨_, rfl⟩
    rw [standing_incrementAttempt]
    unfold Stores.standing
    split
    · rename_i hr
      rw [hr, Finmap.lookup_insert]
      rfl
    · rename_i hr
      rw [Finmap.lookup_insert_of_ne _ hr]
  | retryRecurring recurringId sagaId paymentFail =>
    simp only [enter, RecurringFlowController.retryRecurring] at h
    cases hrecord : db.recurrings.lookup recurringId with
    | none =>
      rw [hrecord] at h
      cases h
      exact .refused
    | some record =>
      rw [hrecord] at h
      by_cases hstatus : record.status = .captureFailed
      · simp only [hstatus, reduceCtorEq, if_false, ne_eq, not_true_eq_false, Option.some.injEq] at h
        cases h
        have hx : db.standing recurringId = some record.standing := by
          unfold Stores.standing; rw [hrecord]; rfl
        exact @Entry.retry db ⟨recurringId, record.planId, record.customerId, record.amount, record.cycle⟩ _ sagaId _ hx
          hstatus
      · have hsame : db' = db ∧ out = [] := by
          dsimp only at h
          split_ifs at h <;> cases h <;> exact ⟨rfl, rfl⟩
        obtain ⟨rfl, rfl⟩ := hsame
        exact .refused

theorem Entry.sound {out : List Task} (h : Entry db db' out) (hs : db.Sound) :
    db.Grows db' ∧ db'.Sound ∧ ∀ t ∈ out, t.Linked db' := by
  have hout : ∀ {charge : Charge} {simulate : Bool} {sagaId : String}, charge.recurringId ∈ db'.issued →
      ∀ t ∈ [Task.event sagaId (.recurringProcessing charge simulate), .linkSaga charge.recurringId sagaId],
        t.Linked db' := by
    intro charge simulate sagaId hr t ht
    rcases List.mem_cons.1 ht with rfl | ht
    · refine ⟨fun r s hs => ?_, nofun, trivial⟩
      cases hs
      exact hr
    · rw [List.mem_singleton.1 ht]
      exact ⟨nofun, nofun, trivial⟩
  cases h with
  | @bill charge simulate sagaId m _ hid hissued hkeeps hstanding _ =>
    have hmem : charge.recurringId ∈ db'.issued := hissued ▸ List.mem_cons_self ..
    refine ⟨hkeeps.grows, hkeeps.sound hs fun r x hx => ?_, hout hmem⟩
    rw [hstanding] at hx
    split at hx
    · rename_i hr
      exact hr ▸ hmem
    · exact hkeeps.issued (hs.recurrings r x hx)
  | @retry charge simulate sagaId x hx hstatus =>
    have hkeeps : db.Keeps (db.incrementAttempt charge.recurringId) := keeps_recurrings db _
    refine ⟨hkeeps.grows, hkeeps.sound hs fun r y hy => ?_, hout (hs.recurrings _ x hx)⟩
    rw [standing_incrementAttempt] at hy
    split at hy
    · obtain ⟨z, hz, -⟩ := Option.map_eq_some_iff.1 hy
      exact hs.recurrings r z hz
    · exact hs.recurrings r y hy
  | refused => exact ⟨Stores.Like.rfl.grows, hs, fun t ht => nomatch ht⟩

/-! ## The links in a run -/

def Flow.Sound (c : Flow) : Prop := c.state.Sound ∧ ∀ t ∈ c.tasks, t.Linked c.state

theorem flow_sound_empty : Flow.empty.Sound := by
  refine ⟨⟨fun r x h => ?_, fun p r h => ?_, fun o p h => ?_, fun payment h => nomatch h⟩,
    fun t ht => absurd ht (Multiset.notMem_zero t)⟩
  all_goals cases h

/-- The links hold whatever is handled again or lost. -/
theorem flow_sound_step {c c' : Flow} {a : Tasks.Act Task Input Request} (hs : c.Sound) (h : c.step a = some c') :
    c'.Sound := by
  have hm := step_move h
  have hgrows : c.state.Grows c'.state ∧ c'.state.Sound := by
    cases hm with
    | enter he =>
      obtain ⟨hg, hs', -⟩ := (enter_entry he).sound hs.1
      exact ⟨hg, hs'⟩
    | again ht he =>
      obtain ⟨hg, hs', -⟩ := (segment_effect he).sound hs.1 (hs.2 _ ht)
      exact ⟨hg, hs'⟩
    | once ht he =>
      obtain ⟨hg, hs', -⟩ := (segment_effect he).sound hs.1 (hs.2 _ (by rw [ht]; exact Multiset.mem_cons_self _ _))
      exact ⟨hg, hs'⟩
    | lose ht => exact ⟨Stores.Like.rfl.grows, hs.1⟩
  refine ⟨hgrows.2, forall_tasks hm (fun t _ ht => ht.mono hgrows.1) hs.2 ?_ ?_⟩
  · rintro e s out he rfl
    exact ((enter_entry he).sound hs.1).2.2
  · rintro t input s out ht he rfl
    exact ((segment_effect he).sound hs.1 (hs.2 t ht)).2.2

/-! ## A step as one of an account -/

section Simulation

variable {c : Flow} {t : Task} {rest : Multiset Task} {out : List Task} {r : String}

theorem add_coe_cons (rest : Multiset Task) (t : Task) (out : List Task) :
    rest + ((t :: out : List Task) : Multiset Task) = t ::ₘ (rest + (out : Multiset Task)) := by
  rw [← Multiset.cons_coe, Multiset.add_cons]

theorem stageOf_of_stage {s : Stage} (h : t.stage = some (r, s)) : t.stageOf r = some s := by
  unfold Task.stageOf
  rw [h, Option.bind_some, if_pos rfl]

theorem stageOf_of_ne {r' : String} {s : Stage} (h : t.stage = some (r', s)) (hr : r ≠ r') : t.stageOf r = none := by
  unfold Task.stageOf
  rw [h, Option.bind_some, if_neg (Ne.symm hr)]

theorem stageOf_of_none (h : t.stage = none) : t.stageOf r = none := by
  unfold Task.stageOf
  rw [h]
  rfl

theorem stages_some {s : Stage} (h : t.stageOf r = some s) :
    (t ::ₘ rest).filterMap (Task.stageOf r) = s ::ₘ rest.filterMap (Task.stageOf r) :=
  Multiset.filterMap_cons_some _ _ _ h

theorem stages_none (h : t.stageOf r = none) :
    (t ::ₘ rest).filterMap (Task.stageOf r) = rest.filterMap (Task.stageOf r) :=
  Multiset.filterMap_cons_none _ _ h

theorem announced_none (h : t.creates = none) :
    (t ::ₘ rest).countP (fun t => t.creates = some r) = rest.countP fun t => t.creates = some r :=
  Multiset.countP_cons_of_neg _ (by rw [h]; nofun)

theorem announced_some (h : t.creates = some r) :
    (t ::ₘ rest).countP (fun t => t.creates = some r) = (rest.countP fun t => t.creates = some r) + 1 :=
  Multiset.countP_cons_of_pos _ h

theorem announced_ne {r' : String} (h : t.creates = some r') (hr : r ≠ r') :
    (t ::ₘ rest).countP (fun t => t.creates = some r) = rest.countP fun t => t.creates = some r :=
  Multiset.countP_cons_of_neg _ fun h' => hr (Option.some.inj (h'.symm.trans h))

/-- Of an id that was not issued nothing is known. -/
theorem account_fresh (hs : c.Sound) (hr : r ∉ c.state.issued) : c.account r = .empty := by
  unfold Flow.account Account.empty
  ext1
  · show c.state.standing r = none
    cases h : c.state.standing r with
    | none => rfl
    | some x => exact absurd (hs.1.recurrings r x h) hr
  · show c.tasks.filterMap (Task.stageOf r) = 0
    refine Multiset.eq_zero_of_forall_notMem fun s hmem => ?_
    obtain ⟨t, ht, hts⟩ := (Multiset.mem_filterMap _ _).1 hmem
    obtain ⟨⟨r', s'⟩, hstage, heq⟩ := Option.bind_eq_some_iff.1 hts
    split at heq
    · rename_i hr'
      exact hr (hr' ▸ (hs.2 t ht).1 r' s' hstage)
    · cases heq
  · show c.tasks.countP _ = 0
    rw [Multiset.countP_eq_zero]
    exact fun t ht hcreates => hr ((hs.2 t ht).2.1 r hcreates)
  · show (c.state.paymentsOf r).map _ = []
    rw [List.map_eq_nil_iff]
    refine List.filter_eq_nil_iff.2 fun payment _ hpaid => hr ?_
    obtain ⟨p, -, hp⟩ := Option.bind_eq_some_iff.1 (of_decide_eq_true hpaid)
    exact (hs.1.planOrders p r hp).2

/-- An account that no part of the step is of. -/
theorem account_eq {tasks : Multiset Task} (hstanding : db'.standing r = c.state.standing r)
    (hstages : tasks.filterMap (Task.stageOf r) = c.tasks.filterMap (Task.stageOf r))
    (hannounced : (tasks.countP fun t => t.creates = some r) = c.tasks.countP fun t => t.creates = some r)
    (hpayments : (db'.paymentsOf r).map (·.status) = (c.state.paymentsOf r).map (·.status)) :
    Flow.account ⟨db', tasks⟩ r = c.account r :=
  Account.ext hstanding hstages hannounced hpayments

/-- One task for another at the same stage. -/
theorem stages_swap {t' : Task} (h : t'.stage = t.stage) : (rest + ([t'] : List Task)).filterMap (Task.stageOf r) =
    (t ::ₘ rest).filterMap (Task.stageOf r) := by
  have hsame : t'.stageOf r = t.stageOf r := by unfold Task.stageOf; rw [h]
  rw [add_coe_cons, Multiset.coe_nil, Multiset.add_zero, Multiset.filterMap_cons, Multiset.filterMap_cons, hsame]

theorem announced_swap {t' : Task} (h : t.creates = none) (h' : t'.creates = none) :
    ((rest + ([t'] : List Task)).countP fun t => t.creates = some r) =
      (t ::ₘ rest).countP fun t => t.creates = some r := by
  rw [add_coe_cons, Multiset.coe_nil, Multiset.add_zero, announced_none h', announced_none h]

/-- What passes by leaves every account as it is. -/
theorem account_pass (hs : c.Sound) (ht : c.tasks = t ::ₘ rest) (hlike : c.state.Like db')
    (hstage : ∀ r, out.filterMap (Task.stageOf r) = (t.stageOf r).toList)
    (hcreates : t.creates = none ∧ ∀ t' ∈ out, t'.creates = none) (r : String) :
    Flow.account ⟨db', rest + out⟩ r = c.account r := by
  refine account_eq (hlike.standing r) ?_ ?_ (by rw [hlike.grows.paymentsOf hs.1 hlike.payments])
  · rw [ht, Multiset.filterMap_add, Multiset.filterMap_coe, hstage]
    cases h : t.stageOf r with
    | none => rw [stages_none h]; exact Multiset.add_zero _
    | some s =>
      rw [stages_some h, Option.toList_some, Multiset.coe_singleton, Multiset.add_comm, Multiset.singleton_add]
  · rw [ht, announced_none hcreates.1, Multiset.countP_add]
    refine Nat.add_eq_left.2 ((Multiset.countP_eq_zero).2 fun t' ht' => ?_)
    rw [hcreates.2 t' ht']
    nofun

variable (rest r) in
/-- Tasks that are at no stage and create nothing are of no account. -/
theorem stages_aside (h : ∀ t ∈ out, t.stage = none ∧ t.creates = none) :
    (rest + out).filterMap (Task.stageOf r) = rest.filterMap (Task.stageOf r) ∧
      ((rest + (out : Multiset Task)).countP fun t => t.creates = some r) = rest.countP fun t => t.creates = some r := by
  constructor
  · rw [Multiset.filterMap_add, Multiset.filterMap_coe,
      List.filterMap_eq_nil_iff.2 fun t ht => stageOf_of_none (h t ht).1]
    exact Multiset.add_zero _
  · rw [Multiset.countP_add]
    refine Nat.add_eq_left.2 ((Multiset.countP_eq_zero).2 fun t ht => ?_)
    rw [(h t ht).2]
    nofun

/-- A billing is settled: its recurrence has a new status, and the others are left alone. -/
theorem account_settled (hs : c.Sound) {rid : String} {s : Stage} {status : RecurringStatus} (ht : c.tasks = t ::ₘ rest)
    (out : List Task) (hstage : t.stage = some (rid, s)) (hcreates : t.creates = none)
    (hout : ∀ t ∈ out, t.stage = none ∧ t.creates = none) (r : String) :
    Flow.account ⟨c.state.updateRecurring rid status, rest + out⟩ r = c.account r ∧ r ≠ rid ∨
      r = rid ∧ Flow.account ⟨c.state.updateRecurring rid status, rest + out⟩ r =
        ⟨(c.state.standing r).map fun x => { x with status := status }, rest.filterMap (Task.stageOf r),
          c.tasks.countP fun t => t.creates = some r, (c.state.paymentsOf r).map (·.status)⟩ := by
  have hkeeps : c.state.Keeps (c.state.updateRecurring rid status) := keeps_recurrings c.state _
  obtain ⟨hstages, hannounced⟩ := stages_aside rest r hout
  have hpayments := hkeeps.grows.paymentsOf hs.1 hkeeps.payments r
  have hcount : ((rest + (out : Multiset Task)).countP fun t => t.creates = some r) =
      c.tasks.countP fun t => t.creates = some r := by
    rw [hannounced, ht, announced_none hcreates]
  by_cases hr : r = rid
  · refine .inr ⟨hr, Account.ext ?_ hstages hcount (by show (Stores.paymentsOf _ r).map _ = _; rw [hpayments])⟩
    show Stores.standing _ r = _
    rw [standing_updateRecurring, if_pos hr]
  · refine .inl ⟨account_eq ?_ ?_ hcount (by rw [hpayments]), hr⟩
    · rw [standing_updateRecurring, if_neg hr]
    · rw [hstages, ht, stages_none (stageOf_of_ne hstage hr)]

/-- What a segment does is, for each recurrence, a step of its account or nothing. -/
theorem Effect.account (h : Effect c.state t db' out) (hs : c.Sound) (ht : c.tasks = t ::ₘ rest) (r : String) :
    Flow.account ⟨db', rest + out⟩ r = c.account r ∨
      Account.Step (c.account r) (Flow.account ⟨db', rest + out⟩ r) := by
  have hlinked : t.Linked c.state := hs.2 t (by rw [ht]; exact Multiset.mem_cons_self _ _)
  obtain ⟨hgrows, -, -⟩ := h.sound hs.1 hlinked
  -- the account before the step when the task is at a stage of the recurrence
  have hbefore : ∀ {s : Stage}, t.stage = some (r, s) → c.account r = ⟨c.state.standing r,
      s ::ₘ rest.filterMap (Task.stageOf r), c.tasks.countP fun t => t.creates = some r,
      (c.state.paymentsOf r).map (·.status)⟩ := by
    intro s hstage
    refine Account.ext rfl ?_ rfl rfl
    show c.tasks.filterMap (Task.stageOf r) = _
    rw [ht]
    exact stages_some (stageOf_of_stage hstage)
  cases h with
  | pass hlike hstage hcreates _ => exact .inl (account_pass hs ht hlike hstage hcreates r)
  | planOrder hp =>
    refine .inl (account_eq rfl ?_ ?_ (by rw [hgrows.paymentsOf hs.1 rfl]))
    · rw [ht]; exact stages_swap rfl
    · rw [ht]; exact announced_swap rfl rfl
  | order ho =>
    refine .inl (account_eq rfl ?_ ?_ (by rw [hgrows.paymentsOf hs.1 rfl]))
    · rw [ht]; exact stages_swap rfl
    · rw [ht]; exact announced_swap rfl rfl
  | @pay sagaId orderId planOrderId charge simulate id payment next hpayment hcreates hnext _ =>
    obtain ⟨p, hp, hrec⟩ : ∃ p, c.state.planOrderOf orderId = some p ∧
      c.state.recurringOf p = some charge.recurringId := hlinked.2.2
    have hpaid : c.state.paidFor payment = some charge.recurringId := by
      unfold Stores.paidFor
      rw [hpayment, hp, Option.bind_some, hrec]
    have hpayments : Stores.paymentsOf
        { c.state with issued := id :: c.state.issued, payments := c.state.payments ++ [payment] } r =
        c.state.paymentsOf r ++ [payment].filter (c.state.paidFor · = some r) := List.filter_append ..
    have hannounced : ((rest + ([next] : List Task)).countP fun t => t.creates = some r) =
        c.tasks.countP fun t => t.creates = some r := by rw [ht]; exact announced_swap rfl hcreates
    by_cases hr : r = charge.recurringId
    · subst hr
      rw [hbefore rfl]
      have hafter : ∀ {s : Stage}, next.stage = some (charge.recurringId, s) → Flow.account
          ⟨{ c.state with issued := id :: c.state.issued, payments := c.state.payments ++ [payment] },
            rest + ([next] : List Task)⟩ charge.recurringId = ⟨c.state.standing charge.recurringId,
          s ::ₘ rest.filterMap (Task.stageOf charge.recurringId),
          c.tasks.countP fun t => t.creates = some charge.recurringId,
          (c.state.paymentsOf charge.recurringId).map (·.status) ++ [payment.status]⟩ := by
        intro s hstage
        refine Account.ext rfl ?_ hannounced ?_
        · show (rest + ([next] : List Task)).filterMap _ = _
          rw [add_coe_cons, Multiset.coe_nil, Multiset.add_zero, stages_some (stageOf_of_stage hstage)]
        · show (Stores.paymentsOf _ _).map _ = _
          rw [hpayments, List.filter_cons_of_pos (by simpa using hpaid), List.filter_nil, List.map_append]
          rfl
      rcases hnext with ⟨hstatus, hstage⟩ | ⟨hstatus, hstage⟩
      · rw [hafter hstage, hstatus]
        exact .inr .pay
      · rw [hafter hstage, hstatus]
        exact .inr .refuse
    · refine .inl (account_eq rfl ?_ hannounced ?_)
      · have hnone : next.stageOf r = none := by
          rcases hnext with ⟨-, hstage⟩ | ⟨-, hstage⟩
          · exact stageOf_of_ne hstage hr
          · exact stageOf_of_ne hstage hr
        rw [ht, add_coe_cons, Multiset.coe_nil, Multiset.add_zero, stages_none hnone,
          stages_none (stageOf_of_ne rfl hr)]
      · rw [hpayments, List.filter_cons_of_neg (by simpa [hpaid] using Ne.symm hr), List.filter_nil, List.append_nil]
  | @complete sagaId planOrderId charge =>
    have hout : ∀ t ∈ [Task.event sagaId
        (.recurringCompleted charge.recurringId charge.planId charge.customerId charge.cycle), .startNextCycle charge],
        t.stage = none ∧ t.creates = none :=
      List.forall_mem_cons.2 ⟨⟨rfl, rfl⟩, List.forall_mem_singleton.2 ⟨rfl, rfl⟩⟩
    rcases account_settled hs ht _ rfl rfl hout r with ⟨heq, -⟩ | ⟨rfl, heq⟩
    · exact .inl heq
    · rw [heq, hbefore rfl]
      exact .inr .complete
  | @unknown sagaId planOrderId refusal hnone =>
    by_cases hr : r = refusal.recurringId
    · subst hr
      rw [hbefore rfl, hnone]
      have hafter : Flow.account ⟨c.state, rest + ([] : List Task)⟩ refusal.recurringId = ⟨none,
          rest.filterMap (Task.stageOf refusal.recurringId),
          c.tasks.countP fun t => t.creates = some refusal.recurringId,
          (c.state.paymentsOf refusal.recurringId).map (·.status)⟩ := by
        refine Account.ext hnone ?_ ?_ rfl
        · show (rest + ([] : List Task)).filterMap _ = _
          rw [Multiset.coe_nil, Multiset.add_zero]
        · show (rest + ([] : List Task)).countP _ = _
          rw [ht, Multiset.coe_nil, Multiset.add_zero, announced_none rfl]
      rw [hafter]
      exact .inr .unknown
    · refine .inl (account_eq rfl ?_ ?_ rfl)
      · rw [ht, Multiset.coe_nil, Multiset.add_zero, stages_none (stageOf_of_ne rfl hr)]
      · rw [ht, Multiset.coe_nil, Multiset.add_zero, announced_none rfl]
  | @fail sagaId planOrderId refusal x hx hmax =>
    have hout : ∀ t ∈ [Task.event sagaId (.recurringFailed refusal)], t.stage = none ∧ t.creates = none :=
      List.forall_mem_singleton.2 ⟨rfl, rfl⟩
    rcases account_settled hs ht _ rfl rfl hout r with ⟨heq, -⟩ | ⟨rfl, heq⟩
    · exact .inl heq
    · rw [heq, hbefore rfl, hx]
      exact .inr (.fail hmax)
  | @captureFail sagaId planOrderId refusal x hx hmax =>
    have hout : ∀ t ∈ [Task.event sagaId (.recurringCaptureFailed refusal)], t.stage = none ∧ t.creates = none :=
      List.forall_mem_singleton.2 ⟨rfl, rfl⟩
    rcases account_settled hs ht _ rfl rfl hout r with ⟨heq, -⟩ | ⟨rfl, heq⟩
    · exact .inl heq
    · rw [heq, hbefore rfl, hx]
      exact .inr (.captureFail hmax)
  | @announce charge next sagaId msisdn hid =>
    have hlike := like_issued c.state next.recurringId c.state.plans c.state.products c.state.provisions
    have hpayments := hlike.grows.paymentsOf hs.1 hlike.payments
    have hstages : ∀ r, (rest + ([.event sagaId (.recurringCreated next msisdn), .createNext next.recurringId sagaId next]
        : List Task)).filterMap (Task.stageOf r) = c.tasks.filterMap (Task.stageOf r) := by
      intro r
      rw [ht, add_coe_cons, add_coe_cons, Multiset.coe_nil, Multiset.add_zero, stages_none rfl, stages_none rfl,
        stages_none rfl]
    have hrest : ∀ r, (c.tasks.countP fun t => t.creates = some r) = rest.countP fun t => t.creates = some r := by
      intro r
      rw [ht, announced_none rfl]
    by_cases hr : r = next.recurringId
    · subst hr
      have hfresh := account_fresh hs hid
      have hafter : Flow.account ⟨{ c.state with issued := next.recurringId :: c.state.issued },
          rest + ([.event sagaId (.recurringCreated next msisdn), .createNext next.recurringId sagaId next]
            : List Task)⟩ next.recurringId = ⟨none, 0, 1, []⟩ := by
        have hstanding : c.state.standing next.recurringId = none := congrArg Account.standing hfresh
        refine Account.ext hstanding ((hstages _).trans (congrArg Account.stages hfresh)) ?_ ?_
        · show (rest + _).countP _ = 1
          have hzero : (rest.countP fun t => t.creates = some next.recurringId) = 0 :=
            (hrest _).symm.trans (congrArg Account.announced hfresh)
          rw [add_coe_cons, add_coe_cons, Multiset.coe_nil, Multiset.add_zero, announced_none rfl,
            announced_some rfl, hzero]
        · show (Stores.paymentsOf _ _).map _ = []
          rw [hpayments]
          exact congrArg Account.outcomes hfresh
      rw [hfresh, hafter]
      exact .inr .announce
    · refine .inl (account_eq rfl (hstages r) ?_ (by rw [hpayments]))
      rw [hrest, add_coe_cons, add_coe_cons, Multiset.coe_nil, Multiset.add_zero, announced_none rfl,
        announced_ne rfl hr]
  | @create recurringId sagaId next record hrecord =>
    have hkeeps := keeps_recurrings c.state (c.state.recurrings.insert recurringId record)
    have hpayments := hkeeps.grows.paymentsOf hs.1 hkeeps.payments
    have hstages : ∀ r, (rest + ([] : List Task)).filterMap (Task.stageOf r) = c.tasks.filterMap (Task.stageOf r) := by
      intro r
      rw [ht, Multiset.coe_nil, Multiset.add_zero, stages_none rfl]
    by_cases hr : r = recurringId
    · subst hr
      have hbefore : c.account r = ⟨c.state.standing r, c.tasks.filterMap (Task.stageOf r),
          (rest.countP fun t => t.creates = some r) + 1, (c.state.paymentsOf r).map (·.status)⟩ := by
        refine Account.ext rfl rfl ?_ rfl
        show c.tasks.countP _ = _
        rw [ht, announced_some rfl]
      have hafter : Flow.account ⟨{ c.state with recurrings := c.state.recurrings.insert r record },
          rest + ([] : List Task)⟩ r = ⟨some ⟨.scheduled, 0, .ofNat 3⟩, c.tasks.filterMap (Task.stageOf r),
          rest.countP fun t => t.creates = some r, (c.state.paymentsOf r).map (·.status)⟩ := by
        refine Account.ext ?_ (hstages r) ?_ (by show (Stores.paymentsOf _ _).map _ = _; rw [hpayments])
        · show Stores.standing _ _ = _
          rw [standing_insert, if_pos rfl, hrecord]
        · show (rest + ([] : List Task)).countP _ = _
          rw [Multiset.coe_nil, Multiset.add_zero]
      rw [hbefore, hafter]
      exact .inr .create
    · refine .inl (account_eq ?_ (hstages r) ?_ (by rw [hpayments]))
      · rw [standing_insert, if_neg hr]
      · rw [ht, Multiset.coe_nil, Multiset.add_zero, announced_ne rfl hr]

/-- What a request does is, for each recurrence, a step of its account or nothing. -/
theorem Entry.account (h : Entry c.state db' out) (hs : c.Sound) (r : String) :
    Flow.account ⟨db', c.tasks + out⟩ r = c.account r ∨
      Account.Step (c.account r) (Flow.account ⟨db', c.tasks + out⟩ r) := by
  obtain ⟨hgrows, -, -⟩ := h.sound hs.1
  have htasks : ∀ (charge : Charge) (simulate : Bool) (sagaId : String),
      c.tasks + ([.event sagaId (.recurringProcessing charge simulate), .linkSaga charge.recurringId sagaId] : List Task) =
        .event sagaId (.recurringProcessing charge simulate) ::ₘ .linkSaga charge.recurringId sagaId ::ₘ c.tasks := by
    intro charge simulate sagaId
    rw [add_coe_cons, add_coe_cons, Multiset.coe_nil, Multiset.add_zero]
  have hannounced : ∀ (charge : Charge) (simulate : Bool) (sagaId : String),
      ((Task.event sagaId (.recurringProcessing charge simulate) ::ₘ .linkSaga charge.recurringId sagaId ::ₘ c.tasks).countP
        fun t => t.creates = some r) = c.tasks.countP fun t => t.creates = some r := by
    intro charge simulate sagaId
    rw [announced_none rfl, announced_none rfl]
  cases h with
  | @bill charge simulate sagaId m _ hid hissued hkeeps hstanding _ =>
    have hpayments := hgrows.paymentsOf hs.1 hkeeps.payments
    rw [htasks]
    by_cases hr : r = charge.recurringId
    · subst hr
      have hfresh := account_fresh hs hid
      have hzero : c.tasks.filterMap (Task.stageOf charge.recurringId) = 0 := congrArg Account.stages hfresh
      rw [hfresh]
      have hafter : Flow.account ⟨db', .event sagaId (.recurringProcessing charge simulate) ::ₘ
          .linkSaga charge.recurringId sagaId ::ₘ c.tasks⟩ charge.recurringId =
          ⟨some ⟨.processing, 1, m⟩, {.opening}, 0, []⟩ := by
        refine Account.ext ((hstanding _).trans (if_pos rfl)) ?_ ?_ ?_
        · show Multiset.filterMap _ _ = _
          rw [stages_some (stageOf_of_stage rfl), stages_none (stageOf_of_none rfl), hzero]
          rfl
        · exact (hannounced charge simulate sagaId).trans (congrArg Account.announced hfresh)
        · show (Stores.paymentsOf _ _).map _ = []
          rw [hpayments]
          exact congrArg Account.outcomes hfresh
      rw [hafter]
      exact .inr (.bill m)
    · refine .inl (account_eq ((hstanding r).trans (if_neg hr)) ?_ (hannounced charge simulate sagaId)
        (by rw [hpayments]))
      rw [stages_none (stageOf_of_ne rfl hr), stages_none (stageOf_of_none rfl)]
  | @retry charge simulate sagaId x hx hstatus =>
    have hkeeps : c.state.Keeps (c.state.incrementAttempt charge.recurringId) := keeps_recurrings c.state _
    have hpayments := hgrows.paymentsOf hs.1 hkeeps.payments
    rw [htasks]
    by_cases hr : r = charge.recurringId
    · subst hr
      have hbefore : c.account charge.recurringId = ⟨some x, c.tasks.filterMap (Task.stageOf charge.recurringId),
          c.tasks.countP fun t => t.creates = some charge.recurringId,
          (c.state.paymentsOf charge.recurringId).map (·.status)⟩ := Account.ext hx rfl rfl rfl
      have hafter : Flow.account ⟨c.state.incrementAttempt charge.recurringId,
          .event sagaId (.recurringProcessing charge simulate) ::ₘ .linkSaga charge.recurringId sagaId ::ₘ c.tasks⟩
          charge.recurringId = ⟨some ⟨.processing, x.totalAttempts + 1, x.maxAttempts⟩,
            .opening ::ₘ c.tasks.filterMap (Task.stageOf charge.recurringId),
            c.tasks.countP fun t => t.creates = some charge.recurringId,
            (c.state.paymentsOf charge.recurringId).map (·.status)⟩ := by
        refine Account.ext ?_ ?_ (hannounced charge simulate sagaId)
          (by show (Stores.paymentsOf _ _).map _ = _; rw [hpayments])
        · show Stores.standing _ _ = _
          rw [standing_incrementAttempt, if_pos rfl, hx]
          rfl
        · show Multiset.filterMap _ _ = _
          rw [stages_some (stageOf_of_stage rfl), stages_none (stageOf_of_none rfl)]
      rw [hbefore, hafter]
      exact .inr (.retry hstatus)
    · refine .inl (account_eq ?_ ?_ (hannounced charge simulate sagaId) (by rw [hpayments]))
      · rw [standing_incrementAttempt, if_neg hr]
      · rw [stages_none (stageOf_of_ne rfl hr), stages_none (stageOf_of_none rfl)]
  | refused =>
    refine .inl ?_
    rw [Multiset.coe_nil, Multiset.add_zero]

theorem creates_of_stage {x : String × Stage} (h : t.stage = some x) : t.creates = none := by
  cases t with
  | event sagaId e => rfl
  | createNext recurringId sagaId next => cases h
  | _ => rfl

/-- A task that is lost is lost to one account at most. -/
theorem account_lost (ht : c.tasks = t ::ₘ rest) (r : String) :
    Flow.account ⟨c.state, rest⟩ r = c.account r ∨ Account.Loss (c.account r) (Flow.account ⟨c.state, rest⟩ r) := by
  cases hstage : t.stageOf r with
  | some s =>
    obtain ⟨x, hx, -⟩ := Option.bind_eq_some_iff.1 hstage
    have hbefore : c.account r = ⟨c.state.standing r, s ::ₘ rest.filterMap (Task.stageOf r),
        rest.countP fun t => t.creates = some r, (c.state.paymentsOf r).map (·.status)⟩ := by
      refine Account.ext rfl ?_ ?_ rfl
      · show c.tasks.filterMap _ = _
        rw [ht, stages_some hstage]
      · show c.tasks.countP _ = _
        rw [ht, announced_none (creates_of_stage hx)]
    rw [hbefore]
    exact .inr .event
  | none =>
    by_cases hcreates : t.creates = some r
    · have hbefore : c.account r = ⟨c.state.standing r, rest.filterMap (Task.stageOf r),
          (rest.countP fun t => t.creates = some r) + 1, (c.state.paymentsOf r).map (·.status)⟩ := by
        refine Account.ext rfl ?_ ?_ rfl
        · show c.tasks.filterMap _ = _
          rw [ht, stages_none hstage]
        · show c.tasks.countP _ = _
          rw [ht, announced_some hcreates]
      rw [hbefore]
      exact .inr .record
    · refine .inl (account_eq rfl ?_ ?_ rfl)
      · rw [ht, stages_none hstage]
      · rw [ht, Multiset.countP_cons_of_neg (p := fun t : Task => t.creates = some r) _ hcreates]

/-- A step of the flow in which nothing is handled again is, for each recurrence, a step or a loss of its account. -/
theorem account_step {c' : Flow} {a : Tasks.Act Task Input Request} (hs : c.Sound) (h : c.step a = some c')
    (honce : a.Once) (r : String) : c'.account r = c.account r ∨ Account.Step (c.account r) (c'.account r) ∨
      (¬ a.Keeps ∧ Account.Loss (c.account r) (c'.account r)) := by
  cases step_move h with
  | enter he => exact ((enter_entry he).account hs r).imp_right .inl
  | again ht he => cases honce
  | once ht he => exact ((segment_effect he).account hs ht r).imp_right .inl
  | lose ht => exact (account_lost ht r).imp_right fun hl => .inr ⟨id, hl⟩

end Simulation

end Saga.RecurringFlow
