/-
The recurring billing of the example application: the two requests that start a saga, the participants that pass
the billing of a plan on from topic to topic, and the stores they share. A participant runs from one `await` to the
next; what it publishes and what it does after an `await` are tasks. What a request or a participant throws leaves
nothing.
-/
import SagaProofs.Lib.Keyed
import SagaProofs.Lib.Number
import SagaProofs.Lib.Tasks

namespace Saga.RecurringFlow

open Keyed

/-! ## The stores -/

inductive RecurringStatus
  | scheduled | processing | completed | captureFailed | failed | cancelled
  deriving DecidableEq

def RecurringStatus.text : RecurringStatus → String
  | .scheduled => "SCHEDULED"
  | .processing => "PROCESSING"
  | .completed => "COMPLETED"
  | .captureFailed => "CAPTURE_FAILED"
  | .failed => "FAILED"
  | .cancelled => "CANCELLED"

inductive PlanStatus
  | pendingActivation | active | suspended | cancelled
  deriving DecidableEq

/-- Also the `PlanOrderStatus`, which has the same values. -/
inductive OrderStatus
  | pending | completed | paymentFailed
  deriving DecidableEq

inductive OrderType
  | recurring | change
  deriving DecidableEq

inductive PaymentStatus
  | pending | success | failed
  deriving DecidableEq

inductive ProductStatus
  | acknowledged | pending | active | suspended | terminated
  deriving DecidableEq

inductive ProvisionStatus
  | pending | completed | failed
  deriving DecidableEq

structure RecurringRecord where
  sagaId : String
  planId : String
  customerId : String
  amount : Number
  cycle : ℕ
  status : RecurringStatus
  totalAttempts : ℕ
  maxAttempts : Number

structure PlanRecord where
  customerId : String
  planName : String
  status : PlanStatus
  hasPendingChanges : Bool

structure PlanOrderRecord where
  sagaId : String
  recurringId : String
  planId : String
  customerId : String
  amount : Number
  orderType : OrderType
  status : OrderStatus

structure OrderRecord where
  sagaId : String
  planOrderId : String
  customerId : String
  amount : Number
  status : OrderStatus

structure PaymentRecord where
  paymentId : String
  sagaId : String
  orderId : String
  customerId : String
  amount : Number
  status : PaymentStatus

structure ProductRecord where
  sagaId : String
  customerId : String
  planId : String
  msisdn : String
  status : ProductStatus

structure ProvisionRecord where
  sagaId : String
  productId : String
  msisdn : String
  packageId : String
  status : ProvisionStatus

/-- The stores, and the ids that `uuidv7` has returned. The payments are only ever added, each under a new id. -/
structure Stores where
  recurrings : Table String RecurringRecord
  plans : Table String PlanRecord
  planOrders : Table String PlanOrderRecord
  orders : Table String OrderRecord
  payments : List PaymentRecord
  products : Table String ProductRecord
  provisions : Table String ProvisionRecord
  issued : List String

def Stores.empty : Stores := ⟨∅, ∅, ∅, ∅, [], ∅, ∅, []⟩

namespace Stores

/-- `uuidv7()`: an id that was not returned before. -/
def issue (db : Stores) (id : String) : Option Stores :=
  if id ∈ db.issued then none else some { db with issued := id :: db.issued }

def updateRecurring (db : Stores) (recurringId : String) (status : RecurringStatus) : Stores :=
  { db with recurrings := modify db.recurrings recurringId fun record => { record with status := status } }

def incrementAttempt (db : Stores) (recurringId : String) : Stores :=
  { db with
    recurrings := modify db.recurrings recurringId fun record =>
      { record with totalAttempts := record.totalAttempts + 1, status := .processing } }

def updateSagaId (db : Stores) (recurringId sagaId : String) : Stores :=
  { db with recurrings := modify db.recurrings recurringId fun record => { record with sagaId := sagaId } }

def updatePlan (db : Stores) (planId : String) (status : PlanStatus) : Stores :=
  { db with plans := modify db.plans planId fun record => { record with status := status } }

def updatePlanOrder (db : Stores) (planOrderId : String) (status : OrderStatus) : Stores :=
  { db with planOrders := modify db.planOrders planOrderId fun record => { record with status := status } }

def updateOrder (db : Stores) (orderId : String) (status : OrderStatus) : Stores :=
  { db with orders := modify db.orders orderId fun record => { record with status := status } }

def updateProduct (db : Stores) (productId : String) (status : ProductStatus) : Stores :=
  { db with products := modify db.products productId fun record => { record with status := status } }

def updateProvision (db : Stores) (provisionId : String) (status : ProvisionStatus) : Stores :=
  { db with provisions := modify db.provisions provisionId fun record => { record with status := status } }

end Stores

/-! ## The events -/

/-- What the events of a billing have of it. -/
structure Charge where
  recurringId : String
  planId : String
  customerId : String
  amount : Number
  cycle : ℕ
  deriving DecidableEq

/-- What the events of a refused billing have of it. -/
structure Refusal where
  recurringId : String
  planId : String
  customerId : String
  reason : String
  deriving DecidableEq

inductive Event
  | recurringProcessing (charge : Charge) (simulatePaymentFailure : Bool)
  | planOrderRequested (charge : Charge) (orderType : OrderType) (simulatePaymentFailure : Bool)
  | planOrderCreated (planOrderId : String) (charge : Charge) (simulatePaymentFailure : Bool)
  | orderCreated (orderId planOrderId : String) (charge : Charge) (simulatePaymentFailure : Bool)
  | paymentSuccess (paymentId orderId planOrderId : String) (charge : Charge)
  | paymentFailed (paymentId orderId planOrderId : String) (refusal : Refusal)
  | orderCompleted (orderId planOrderId : String) (charge : Charge)
  | orderPaymentFailed (orderId planOrderId : String) (refusal : Refusal)
  | planOrderCompleted (planOrderId : String) (charge : Charge)
  | planOrderPaymentFailed (planOrderId : String) (refusal : Refusal)
  | recurringCompleted (recurringId planId customerId : String) (cycle : ℕ)
  | recurringCaptureFailed (refusal : Refusal)
  | recurringFailed (refusal : Refusal)
  | planSuspended (planId recurringId reason : String)
  | recurringCreated (charge : Charge) (msisdn : String)
  | productPending (productId customerId planId msisdn : String)
  | provisionCompleted (provisionId productId msisdn packageId : String)
  | productActivated (productId provisionId : String)
  deriving DecidableEq

def Event.topic : Event → String
  | .recurringProcessing .. => "rf.recurring.updated.processing"
  | .planOrderRequested .. => "rf.plan.order.requested"
  | .planOrderCreated .. => "rf.plan-ordering.order.created"
  | .orderCreated .. => "rf.ordering.order.created"
  | .paymentSuccess .. => "rf.payment.created.success"
  | .paymentFailed .. => "rf.payment.created.failed"
  | .orderCompleted .. => "rf.ordering.order.updated.completed"
  | .orderPaymentFailed .. => "rf.ordering.order.updated.payment-failed"
  | .planOrderCompleted .. => "rf.plan-ordering.order.updated.completed"
  | .planOrderPaymentFailed .. => "rf.plan-ordering.order.updated.payment-failed"
  | .recurringCompleted .. => "rf.recurring.completed"
  | .recurringCaptureFailed .. => "rf.recurring.updated.capture-failed"
  | .recurringFailed .. => "rf.recurring.updated.failed"
  | .planSuspended .. => "rf.plan.suspended"
  | .recurringCreated .. => "rf.recurring.created"
  | .productPending .. => "rf.product.updated.pending"
  | .provisionCompleted .. => "rf.provision.completed"
  | .productActivated .. => "rf.product.activated"

/-- An event that is to be delivered, or what a participant or a request does after an `await`. -/
inductive Task
  | event (sagaId : String) (event : Event)
  -- `RFPlanRecurringCompletedParticipant` after its event, and after `startChild`
  | startNextCycle (charge : Charge)
  | createNext (recurringId sagaId : String) (charge : Charge)
  -- `RFMobileProductProvisionParticipant` after its second delay
  | provisioned (sagaId provisionId productId msisdn packageId : String)
  -- a request after `start`
  | linkSaga (recurringId sagaId : String)
  deriving DecidableEq

/-- What `uuidv7`, the publisher and the clock return in a step. -/
structure Input where
  id : String := ""
  sagaId : String := ""
  msisdn : String := ""

/-! ## The participants -/

section Participants

variable (input : Input) (db : Stores) (sagaId : String)

def RFPlanManagementRecurringProcessingParticipant.handle (charge : Charge) (simulatePaymentFailure : Bool) :
    Stores × List Task :=
  let orderType := if (db.plans.lookup charge.planId).any (·.hasPendingChanges) then .change else .recurring
  (db, [.event sagaId (.planOrderRequested charge orderType simulatePaymentFailure)])

def RFPlanOrderingRequestedParticipant.handle (charge : Charge) (orderType : OrderType)
    (simulatePaymentFailure : Bool) : Option (Stores × List Task) :=
  let planOrderId := input.id
  (db.issue planOrderId).map fun db =>
    ({ db with
        planOrders := db.planOrders.insert planOrderId
          ⟨sagaId, charge.recurringId, charge.planId, charge.customerId, charge.amount, orderType, .pending⟩ },
      [.event sagaId (.planOrderCreated planOrderId charge simulatePaymentFailure)])

def RFOrderingPlanOrderCreatedParticipant.handle (planOrderId : String) (charge : Charge)
    (simulatePaymentFailure : Bool) : Option (Stores × List Task) :=
  let orderId := input.id
  (db.issue orderId).map fun db =>
    ({ db with
        orders := db.orders.insert orderId ⟨sagaId, planOrderId, charge.customerId, charge.amount, .pending⟩ },
      [.event sagaId (.orderCreated orderId planOrderId charge simulatePaymentFailure)])

def RFPaymentManagementParticipant.handle (orderId planOrderId : String) (charge : Charge)
    (simulatePaymentFailure : Bool) : Option (Stores × List Task) :=
  let paymentId := input.id
  (db.issue paymentId).map fun db =>
    if simulatePaymentFailure then
      ({ db with
          payments := db.payments ++ [⟨paymentId, sagaId, orderId, charge.customerId, charge.amount, .failed⟩] },
        [.event sagaId (.paymentFailed paymentId orderId planOrderId
          ⟨charge.recurringId, charge.planId, charge.customerId, "Insufficient funds"⟩)])
    else
      ({ db with
          payments := db.payments ++ [⟨paymentId, sagaId, orderId, charge.customerId, charge.amount, .success⟩] },
        [.event sagaId (.paymentSuccess paymentId orderId planOrderId charge)])

def RFOrderingPaymentSuccessParticipant.handle (orderId planOrderId : String) (charge : Charge) :
    Stores × List Task :=
  (db.updateOrder orderId .completed, [.event sagaId (.orderCompleted orderId planOrderId charge)])

def RFOrderingPaymentFailedParticipant.handle (orderId planOrderId : String) (refusal : Refusal) :
    Stores × List Task :=
  (db.updateOrder orderId .paymentFailed, [.event sagaId (.orderPaymentFailed orderId planOrderId refusal)])

def RFPlanOrderingCompletedParticipant.handle (planOrderId : String) (charge : Charge) : Stores × List Task :=
  (db.updatePlanOrder planOrderId .completed, [.event sagaId (.planOrderCompleted planOrderId charge)])

def RFPlanOrderingPaymentFailedParticipant.handle (planOrderId : String) (refusal : Refusal) : Stores × List Task :=
  (db.updatePlanOrder planOrderId .paymentFailed, [.event sagaId (.planOrderPaymentFailed planOrderId refusal)])

def RFPlanRecurringCompletedParticipant.handle (charge : Charge) : Stores × List Task :=
  (db.updateRecurring charge.recurringId .completed,
    [.event sagaId (.recurringCompleted charge.recurringId charge.planId charge.customerId charge.cycle),
      .startNextCycle charge])

/-- `handle` from its `startChild` on: the event of the child saga is published before the record is created. -/
def RFPlanRecurringCompletedParticipant.startNextCycle (charge : Charge) : Option (Stores × List Task) :=
  let next : Charge := { charge with recurringId := input.id, cycle := charge.cycle + 1 }
  (db.issue next.recurringId).map fun db =>
    (db, [.event input.sagaId (.recurringCreated next input.msisdn), .createNext next.recurringId input.sagaId next])

def RFPlanRecurringCompletedParticipant.createNext (recurringId : String) (next : Charge) : Stores × List Task :=
  ({ db with
      recurrings := db.recurrings.insert recurringId
        ⟨sagaId, next.planId, next.customerId, next.amount, next.cycle, .scheduled, 0, .ofNat 3⟩ }, [])

def RFPlanRecurringPaymentFailedParticipant.handle (refusal : Refusal) : Stores × List Task :=
  match db.recurrings.lookup refusal.recurringId with
  | none => (db, [])
  | some record =>
    if record.maxAttempts.le (.ofNat record.totalAttempts) then
      (db.updateRecurring refusal.recurringId .failed, [.event sagaId (.recurringFailed refusal)])
    else (db.updateRecurring refusal.recurringId .captureFailed, [.event sagaId (.recurringCaptureFailed refusal)])

def RFPlanManagementRecurringFailedParticipant.handle (refusal : Refusal) : Stores × List Task :=
  (db.updatePlan refusal.planId .suspended,
    [.event sagaId (.planSuspended refusal.planId refusal.recurringId "PAYMENT_FAILURE")])

def RFMobileProductRecurringCreatedParticipant.handle (next : Charge) (msisdn : String) :
    Option (Stores × List Task) :=
  let productId := input.id
  (db.issue productId).map fun db =>
    ({ db with products := db.products.insert productId ⟨sagaId, next.customerId, next.planId, msisdn, .acknowledged⟩
      }.updateProduct productId .pending,
      [.event sagaId (.productPending productId next.customerId next.planId msisdn)])

def RFMobileProductProvisionParticipant.handle (productId planId msisdn : String) : Option (Stores × List Task) :=
  let provisionId := input.id
  let packageId := "PKG-" ++ planId
  (db.issue provisionId).map fun db =>
    ({ db with provisions := db.provisions.insert provisionId ⟨sagaId, productId, msisdn, packageId, .pending⟩ },
      [.provisioned sagaId provisionId productId msisdn packageId])

/-- `handle` from its second delay on. -/
def RFMobileProductProvisionParticipant.provisioned (provisionId productId msisdn packageId : String) :
    Stores × List Task :=
  (db.updateProvision provisionId .completed,
    [.event sagaId (.provisionCompleted provisionId productId msisdn packageId)])

def RFMobileProductProvisionCompletedParticipant.handle (provisionId productId : String) : Stores × List Task :=
  (db.updateProduct productId .active, [.event sagaId (.productActivated productId provisionId)])

end Participants

/-- An event is handled by the participant of its topic, if there is one. -/
def segment (input : Input) (db : Stores) : Task → Option (Stores × List Task)
  | .event sagaId (.recurringProcessing charge simulate) =>
    some (RFPlanManagementRecurringProcessingParticipant.handle db sagaId charge simulate)
  | .event sagaId (.planOrderRequested charge orderType simulate) =>
    RFPlanOrderingRequestedParticipant.handle input db sagaId charge orderType simulate
  | .event sagaId (.planOrderCreated planOrderId charge simulate) =>
    RFOrderingPlanOrderCreatedParticipant.handle input db sagaId planOrderId charge simulate
  | .event sagaId (.orderCreated orderId planOrderId charge simulate) =>
    RFPaymentManagementParticipant.handle input db sagaId orderId planOrderId charge simulate
  | .event sagaId (.paymentSuccess _ orderId planOrderId charge) =>
    some (RFOrderingPaymentSuccessParticipant.handle db sagaId orderId planOrderId charge)
  | .event sagaId (.paymentFailed _ orderId planOrderId refusal) =>
    some (RFOrderingPaymentFailedParticipant.handle db sagaId orderId planOrderId refusal)
  | .event sagaId (.orderCompleted _ planOrderId charge) =>
    some (RFPlanOrderingCompletedParticipant.handle db sagaId planOrderId charge)
  | .event sagaId (.orderPaymentFailed _ planOrderId refusal) =>
    some (RFPlanOrderingPaymentFailedParticipant.handle db sagaId planOrderId refusal)
  | .event sagaId (.planOrderCompleted _ charge) =>
    some (RFPlanRecurringCompletedParticipant.handle db sagaId charge)
  | .event sagaId (.planOrderPaymentFailed _ refusal) =>
    some (RFPlanRecurringPaymentFailedParticipant.handle db sagaId refusal)
  | .event sagaId (.recurringFailed refusal) =>
    some (RFPlanManagementRecurringFailedParticipant.handle db sagaId refusal)
  | .event sagaId (.recurringCreated next msisdn) =>
    RFMobileProductRecurringCreatedParticipant.handle input db sagaId next msisdn
  | .event sagaId (.productPending productId _ planId msisdn) =>
    RFMobileProductProvisionParticipant.handle input db sagaId productId planId msisdn
  | .event sagaId (.provisionCompleted provisionId productId _ _) =>
    some (RFMobileProductProvisionCompletedParticipant.handle db sagaId provisionId productId)
  -- no participant has these topics
  | .event _ (.recurringCompleted ..) => some (db, [])
  | .event _ (.recurringCaptureFailed _) => some (db, [])
  | .event _ (.planSuspended ..) => some (db, [])
  | .event _ (.productActivated ..) => some (db, [])
  | .startNextCycle charge => RFPlanRecurringCompletedParticipant.startNextCycle input db charge
  | .createNext recurringId sagaId next =>
    some (RFPlanRecurringCompletedParticipant.createNext db sagaId recurringId next)
  | .provisioned sagaId provisionId productId msisdn packageId =>
    some (RFMobileProductProvisionParticipant.provisioned db sagaId provisionId productId msisdn packageId)
  | .linkSaga recurringId sagaId => some (db.updateSagaId recurringId sagaId, [])

/-! ## The requests -/

/-- A request of the controller, with what `uuidv7`, the publisher and the clock return for it. Parts of a plan's
id may be those of another: it has only the first eight digits of an id. -/
inductive Request
  | triggerBilling (recurringId planId customerId sagaId : String) (paymentFail maxAttempts : Option String)
  | retryRecurring (recurringId sagaId : String) (paymentFail : Option String)

namespace RecurringFlowController

/-- `89.9`, as it is read into a double. -/
def amount : Number := .finite (3163075050785997 / 2 ^ 45)

def triggerBilling (db : Stores) (recurringId planId customerId sagaId : String)
    (paymentFail maxAttemptsParam : Option String) : Option (Stores × List Task) :=
  let cycle := 1
  let maxAttempts := Number.max (.ofNat 1) (Number.parseInt (maxAttemptsParam.getD "3"))
  (db.issue recurringId).map fun db =>
    let db := { db with
      plans := db.plans.insert planId ⟨customerId, "Plano Móvel 50GB", .active, false⟩
      recurrings := db.recurrings.insert recurringId
        ⟨"", planId, customerId, amount, cycle, .scheduled, 0, maxAttempts⟩ }
    (db.incrementAttempt recurringId,
      [.event sagaId (.recurringProcessing ⟨recurringId, planId, customerId, amount, cycle⟩ (paymentFail = some "true")),
        .linkSaga recurringId sagaId])

/-- `retryRecurring`, with the message of the `BadRequestException` it throws. -/
def retryRecurring (db : Stores) (recurringId sagaId : String) (paymentFail : Option String) :
    Except String (Stores × List Task) :=
  match db.recurrings.lookup recurringId with
  | none => .error s!"Recurring {recurringId} not found"
  | some record =>
    let status := record.status.text
    if record.status = .failed then
      .error s!"Recurring {recurringId} already FAILED (max attempts exceeded)"
    else if record.status = .completed then .error s!"Recurring {recurringId} already COMPLETED"
    else if record.status ≠ .captureFailed then
      .error s!"Recurring {recurringId} status is {status}, expected CAPTURE_FAILED"
    else
      .ok (db.incrementAttempt recurringId,
        [.event sagaId (.recurringProcessing
            ⟨recurringId, record.planId, record.customerId, record.amount, record.cycle⟩ (paymentFail = some "true")),
          .linkSaga recurringId sagaId])

end RecurringFlowController

open RecurringFlowController in
/-- A request that is refused changes nothing. -/
def enter (request : Request) (db : Stores) : Option (Stores × List Task) :=
  match request with
  | .triggerBilling recurringId planId customerId sagaId paymentFail maxAttempts =>
    triggerBilling db recurringId planId customerId sagaId paymentFail maxAttempts
  | .retryRecurring recurringId sagaId paymentFail =>
    match retryRecurring db recurringId sagaId paymentFail with
    | .ok result => some result
    | .error _ => some (db, [])

abbrev Flow := Tasks.Config Stores Task

abbrev Flow.step : Flow → Tasks.Act Task Input Request → Option Flow := Tasks.step segment enter

def Flow.empty : Flow := ⟨.empty, 0⟩

end Saga.RecurringFlow
