/-
The bulk activation of the example application: a request starts one saga, a fork starts a saga below it for each
line, and the saga of the last line that is counted ends the first. A participant runs from one `await` to the next;
the transport takes whatever is published, and what it delivers, like the rest of a participant that waits, is a task.
The record in which the lines are counted is created after the first event was published.
-/
import SagaProofs.Core.Publisher
import SagaProofs.Lib.Keyed
import SagaProofs.Lib.Number
import SagaProofs.Lib.Tasks
import Mathlib.Data.Fintype.EquivFin

namespace Saga.BulkActivation

open Keyed Lts Tasks

/-! ## The store -/

inductive BulkActivationStatus
  | pending | inProgress | completed
  deriving DecidableEq

structure BulkActivationRecord where
  sagaId : String
  totalLines : Number
  completedLines : ℕ
  status : BulkActivationStatus

/-! ## The events -/

/-- The payloads, as they are read back: a number that is not finite is `null` in JSON. -/
inductive Payload
  | requested (bulkId : String) (lines : Option ℚ)
  | lineRequested (bulkId : String) (lineIndex : ℕ) (lineNumber : String)
  | lineCompleted (bulkId : String) (lineIndex : ℕ) (lineNumber : String)
  | completed (bulkId : String) (totalLines : Option ℚ)
  deriving DecidableEq

def Payload.topic : Payload → String
  | .requested .. => "bulk-activation.requested"
  | .lineRequested .. => "line-activation.requested"
  | .lineCompleted .. => "line-activation.completed"
  | .completed .. => "bulk-activation.completed"

def Payload.bulkId : Payload → String
  | .requested bulkId _ => bulkId
  | .lineRequested bulkId _ _ => bulkId
  | .lineCompleted bulkId _ _ => bulkId
  | .completed bulkId _ => bulkId

/-- `JSON.stringify` of a number, as it is read back. -/
def jsonNumber : Number → Option ℚ
  | .finite q => some q
  | _ => none

/-- What the participants and the publisher read of an event. -/
structure Event where
  sagaId : String
  rootSagaId : String
  parentSagaId : Option String
  ancestorChain : Option (List String)
  hint : Option EventHint
  payload : Payload
  deriving DecidableEq

namespace Event

/-- `emit` in the context of a new root saga. -/
def first (sagaId : String) (payload : Payload) : Event := ⟨sagaId, sagaId, none, some [], none, payload⟩

variable (event : Event)

/-- The `emit` of a handler with `fork`: the event is the first of a new saga below. -/
def fork (subSagaId : String) (payload : Payload) : Event :=
  ⟨subSagaId, event.rootSagaId, some event.sagaId, some (event.sagaId :: event.ancestorChain.getD []), some .fork,
    payload⟩

/-- The `emit` of a final handler. -/
def final (payload : Payload) : Event := { event with hint := some .final, payload }

/-- `emitToParent`; `none` where it throws. -/
def toParent (hint : Option EventHint) (payload : Payload) : Option Event :=
  (truthy event.parentSagaId).map fun parent =>
    let above := (event.ancestorChain.getD []).drop 1
    ⟨parent, event.rootSagaId, above.head?, some above, hint, payload⟩

section Publisher

/-- What is read of an event of the library. -/
def ofSagaEvent (e : SagaEvent) (payload : Payload) : Event :=
  ⟨e.sagaId, e.rootSagaId, e.parentSagaId, e.ancestorChain, e.hint, payload⟩

variable {e : SagaEvent} {params : EmitParams} {eventId now : String}

/-! The events are those that the publisher and the runner make. -/

theorem emit_first {opts : Option SagaStartOptions} {sagaId : String} {payload : Payload} (hhint : params.hint = none) :
    (SagaPublisher.emit (some (SagaPublisher.rootContext opts sagaId)) params eventId now).map (ofSagaEvent · payload) =
      .ok (first sagaId payload) := by
  simp [SagaPublisher.emit, SagaContext.require, SagaPublisher.rootContext, SagaPublisher.forSaga,
    SagaPublisher.BoundEmit.event, ofSagaEvent, first, hhint, Except.map, bind, Except.bind, pure, Except.pure]

theorem forkEmit_fork {config : ForkConfig} {subSagaId : String} {p payload : Payload} :
    ofSagaEvent (SagaRunner.forkEmit e config subSagaId params eventId now) payload =
      (ofSagaEvent e p).fork subSagaId payload := rfl

theorem wrappedEmit_final {config : HandlerConfig} {current : Option SagaContextData} {p payload : Payload}
    (hfinal : config.final = some true) :
    ofSagaEvent (SagaRunner.wrappedEmit e (some config) current params eventId now) payload =
      (ofSagaEvent e p).final payload := by
  simp [SagaRunner.wrappedEmit, SagaPublisher.forSaga, SagaPublisher.BoundEmit.event, ofSagaEvent, final, hfinal]

theorem emitToParent_toParent {p payload : Payload} :
    (SagaPublisher.emitToParent (some (SagaRunner.handlerContext e)) params eventId now).toOption.map
        (ofSagaEvent · payload) = (ofSagaEvent e p).toParent params.hint payload := by
  cases h : truthy e.parentSagaId with
  | none =>
    simp [SagaPublisher.emitToParent, SagaPublisher.parentOf, SagaContext.require, SagaRunner.handlerContext, toParent,
      ofSagaEvent, h, bind, Except.bind, Except.toOption]
  | some parent =>
    rw [SagaPublisher.emitToParent_of_parent (SagaPublisher.parentOf_of_truthy h)]
    simp [SagaPublisher.forSaga, SagaPublisher.BoundEmit.event, SagaRunner.handlerContext, Except.toOption, toParent,
      ofSagaEvent, h]

end Publisher

end Event

/-! ## The state -/

/-- The records, the ids that `uuidv7` has returned, and what was published, the oldest first. -/
structure Stores where
  records : Table String BulkActivationRecord
  issued : List String
  published : List Event

def Stores.empty : Stores := ⟨∅, [], []⟩

inductive Task
  | event (event : Event)
  -- the loop of `BulkActivationForkParticipant` from the line `index` on
  | fanOut (event : Event) (bulkId : String) (lines : Option ℚ) (index : ℕ)
  -- a request after `start`
  | create (bulkId sagaId : String) (lines : Number)
  deriving DecidableEq

def Task.IsEvent : Task → Prop
  | .event _ => True
  | _ => False

instance : DecidablePred Task.IsEvent
  | .event _ => .isTrue trivial
  | .fanOut .. => .isFalse id
  | .create .. => .isFalse id

namespace Stores

variable (db : Stores)

/-- `uuidv7()`: a text that was not returned before. -/
def issue (id : String) : Option Stores :=
  if id = "" ∨ id ∈ db.issued then none else some { db with issued := id :: db.issued }

def publish (event : Event) : Stores × List Task :=
  ({ db with published := db.published ++ [event] }, [.event event])

def create (bulkId sagaId : String) (totalLines : Number) : Stores :=
  { db with records := db.records.insert bulkId ⟨sagaId, totalLines, 0, .pending⟩ }

end Stores

def BulkActivationRecord.increment (record : BulkActivationRecord) : BulkActivationRecord :=
  let completedLines := record.completedLines + 1
  { record with
    completedLines
    status := if record.totalLines.le (.ofNat completedLines) then .completed else record.status }

def Stores.incrementCompleted (db : Stores) (bulkId : String) : Stores :=
  { db with records := modify db.records bulkId BulkActivationRecord.increment }

/-! ## The participants and the request -/

/-- What `uuidv7` and the clock return in a step. -/
structure Input where
  id : String := ""
  clock : String := ""

section Participants

variable (input : Input) (db : Stores) (event : Event)

def BulkActivationForkParticipant.handle (bulkId : String) (lines : Option ℚ) : Stores × List Task :=
  (db, [.fanOut event bulkId lines 0])

/-- One iteration; `null` is zero where it is compared. -/
def BulkActivationForkParticipant.fanOut (bulkId : String) (lines : Option ℚ) (index : ℕ) :
    Option (Stores × List Task) :=
  if index < lines.getD 0 then
    (db.issue input.id).map fun db =>
      let lineNumber := "+5511" ++ input.clock ++ toString index
      let (db, out) := db.publish (event.fork input.id (.lineRequested bulkId index lineNumber))
      (db, out ++ [.fanOut event bulkId lines (index + 1)])
  else some (db, [])

def LineActivationParticipant.handle (bulkId : String) (lineIndex : ℕ) (lineNumber : String) : Stores × List Task :=
  db.publish (event.final (.lineCompleted bulkId lineIndex lineNumber))

def LineActivationCompletedParticipant.handle (bulkId : String) : Stores × List Task :=
  let db := db.incrementCompleted bulkId
  match db.records.lookup bulkId with
  | none => (db, [])
  | some record =>
    if record.totalLines.le (.ofNat record.completedLines) then
      match event.toParent (some .final) (.completed bulkId (jsonNumber record.totalLines)) with
      | some completed => db.publish completed
      | none => (db, [])
    else (db, [])

end Participants

def segment (input : Input) (db : Stores) : Task → Option (Stores × List Task)
  | .event event =>
    match event.payload with
    | .requested bulkId lines => some (BulkActivationForkParticipant.handle db event bulkId lines)
    | .lineRequested bulkId lineIndex lineNumber =>
      some (LineActivationParticipant.handle db event bulkId lineIndex lineNumber)
    | .lineCompleted bulkId _ _ => some (LineActivationCompletedParticipant.handle db event bulkId)
    -- no participant has this topic
    | .completed .. => some (db, [])
  | .fanOut event bulkId lines index => BulkActivationForkParticipant.fanOut input db event bulkId lines index
  | .create bulkId sagaId lines => some (db.create bulkId sagaId lines, [])

/-- A request, with what `uuidv7` returns for it. -/
structure Request where
  bulkId : String
  sagaId : String
  lines : Option String

def linesOf (param : Option String) : Number :=
  Number.max (.ofNat 1) (Number.min (.ofNat 10) (Number.parseInt (param.getD "3")))

def TelecomController.triggerBulkActivation (db : Stores) (bulkId sagaId : String) (linesParam : Option String) :
    Option (Stores × List Task) := do
  let lines := linesOf linesParam
  let db ← db.issue bulkId
  let db ← db.issue sagaId
  let (db, out) := db.publish (.first sagaId (.requested bulkId (jsonNumber lines)))
  return (db, out ++ [.create bulkId sagaId lines])

def enter (request : Request) (db : Stores) : Option (Stores × List Task) :=
  TelecomController.triggerBulkActivation db request.bulkId request.sagaId request.lines

abbrev Activation := Tasks.Config Stores Task

abbrev Activation.step : Activation → Tasks.Act Task Input Request → Option Activation := Tasks.step segment enter

def Activation.empty : Activation := ⟨.empty, 0⟩

end Saga.BulkActivation
