/-
`KafkaTransport.processBatch` as a step relation: the key groups of a batch advance one await at a
time in any order, sharing the watermark tracker, while the environment decides how handlers and
heartbeats end and what `isRunning()` and `isStale()` answer.

What runs between two awaits of a group is one step. A promise that settles and the code that
awaits it are one step as well.
-/
import SagaProofs.Kafka.Watermark
import SagaProofs.Core.Event
import SagaProofs.Lib.Run

namespace Saga.Kafka

variable {Buffer : Type}

/-! ## Messages -/

/-- A header value of KafkaJS: `Buffer | string | (Buffer | string)[] | undefined`. -/
inductive HeaderValue (Buffer : Type)
  | buffer (b : Buffer)
  | string (s : String)
  | array (xs : List (Buffer ⊕ String))
  | undefined

structure KafkaMessage (Buffer : Type) where
  key : Option Buffer
  value : Option Buffer
  offset : String
  headers : Option (List (String × HeaderValue Buffer))

structure Batch (Buffer : Type) where
  topic : String
  messages : List (KafkaMessage Buffer)

/-- The options `processBatch` and `connectConsumerWithRetry` read. -/
structure KafkaTransportOptions where
  partitionsConsumedConcurrently : Option ℕ
  autoHeartbeatInterval : Option Number

/-- A message object of the batch: the message and its position. -/
abbrev Entry (Buffer : Type) := KafkaMessage Buffer × ℕ

section Messages

variable (str : Buffer → String)

def convertHeader : HeaderValue Buffer → Option String
  | .buffer b => some (str b)
  | .string s => some s
  | .array (.inl b :: _) => some (str b)
  | .array (.inr s :: _) => some s
  | .array [] => none
  | .undefined => none

def convertHeaders : Option (List (String × HeaderValue Buffer)) → Headers
  | none => ∅
  | some headers => headers.foldl (fun result h =>
      match convertHeader str h.2 with
      | some v => result.set h.1 v
      | none => result) ∅

/-- The message as the handler receives it. -/
def toInbound (batch : Batch Buffer) (m : KafkaMessage Buffer) : InboundMessage :=
  { topic := batch.topic
    key := (m.key.map str).getD ""
    value := (m.value.map str).getD ""
    headers := convertHeaders str m.headers }

/-- The key a message is grouped by. -/
def groupKey (m : KafkaMessage Buffer) : String := (m.key.map str).getD "__no_key__"

/-- `groups.get(key).push(message)`, after `groups.set(key, [])` where the key is new. -/
def addToGroup (key : String) (e : Entry Buffer) :
    List (String × List (Entry Buffer)) → List (String × List (Entry Buffer))
  | [] => [(key, [e])]
  | (k, es) :: rest => if k = key then (k, es ++ [e]) :: rest else (k, es) :: addToGroup key e rest

/-- The groups of the messages by key, in the order the keys first occur. -/
def groupMessages (es : List (Entry Buffer)) : List (String × List (Entry Buffer)) :=
  es.foldl (fun groups e => addToGroup (groupKey str e.1) e groups) []

end Messages

/-! ## States -/

/-- Where a group stands: not launched, awaiting the handler of a message, awaiting the heartbeat
after a message, or settled. -/
inductive Phase (Buffer : Type)
  | idle
  | handling (e : Entry Buffer)
  | beating (e : Entry Buffer)
  | returned
  | rejected

/-- A group: its phase and the messages its loop has not taken yet. -/
structure GroupState (Buffer : Type) where
  phase : Phase Buffer
  todo : List (Entry Buffer)

inductive Settlement
  | fulfilled
  | rejected
  deriving DecidableEq

/-- What `processBatch` does that its environment sees. -/
inductive Event
  | started (pos : ℕ) (message : InboundMessage)
  | fulfilled (pos : ℕ)
  | rejected (pos : ℕ)
  | resolved (offset : String)
  | beatRejected (pos : ℕ)
  | settled (result : Settlement)
  deriving DecidableEq

/-- The state of one `processBatch` call: its tracker and groups, the timer heartbeats in flight,
those that ended in an unhandled rejection, and the log of what happened, oldest first. -/
structure BatchState (Buffer : Type) where
  tracker : WatermarkTracker
  groups : List (GroupState Buffer)
  ticks : ℕ
  unhandled : ℕ
  log : List Event

def Phase.isIdle : Phase Buffer → Bool
  | .idle => true
  | _ => false

def Phase.isRejected : Phase Buffer → Bool
  | .rejected => true
  | _ => false

def Phase.isReturned : Phase Buffer → Bool
  | .returned => true
  | _ => false

/-- `Promise.all` over the groups: rejected with the first rejection, fulfilled with the last
fulfilment, pending (`none`) until then. -/
def promiseAll (groups : List (GroupState Buffer)) : Option Settlement :=
  if groups.any (·.phase.isRejected) then some .rejected
  else if groups.all (·.phase.isReturned) then some .fulfilled
  else none

/-- The entry a step of the groups adds to the log when it settles the promise. -/
def settling (before after : List (GroupState Buffer)) : List Event :=
  match promiseAll before, promiseAll after with
  | none, some r => [.settled r]
  | _, _ => []

/-- Group `g` becomes `gs`, with the given events. -/
def BatchState.put (s : BatchState Buffer) (g : ℕ) (gs : GroupState Buffer) (events : List Event) :
    BatchState Buffer :=
  { s with
    groups := s.groups.set g gs
    log := s.log ++ (events ++ settling s.groups (s.groups.set g gs)) }

/-! ## Steps -/

/-- One step: the next group is launched, the handler or the heartbeat a group awaits settles, a
timer ticks while a handler runs, or the heartbeat of a tick settles. A loop head reads
`isRunning()` and `isStale()`. -/
inductive Act
  | launch (running stale : Bool)
  | fulfil (g : ℕ)
  | reject (g : ℕ)
  | beat (g : ℕ) (running stale : Bool)
  | beatReject (g : ℕ)
  | tick (g : ℕ)
  | tickFulfil
  | tickReject
  deriving DecidableEq

section Steps

variable (str : Buffer → String) (opts : KafkaTransportOptions) (batch : Batch Buffer)

/-- The messages of the batch with their positions. -/
def Batch.entries (batch : Batch Buffer) : List (Entry Buffer) := batch.messages.zipIdx

def Batch.offsets (batch : Batch Buffer) : List String := batch.messages.map (·.offset)

/-- The groups of `processBatch`, each with its key. -/
def Batch.groups (batch : Batch Buffer) : List (String × List (Entry Buffer)) := groupMessages str batch.entries

/-- The head of the loop over a group's messages, up to the next await. -/
def loopHead (todo : List (Entry Buffer)) (running stale : Bool) : GroupState Buffer × List Event :=
  match todo with
  | [] => (⟨.returned, []⟩, [])
  | e :: rest =>
    -- a loop that is stopped keeps its messages: nobody handles them
    if !running || stale then (⟨.returned, e :: rest⟩, [])
    else (⟨.handling e, rest⟩, [.started e.2 (toInbound str batch e.1)])

/-- `resolveOffset` is called with the committable offset, when there is one. -/
def resolving (tracker : WatermarkTracker) : List Event :=
  match truthy tracker.getCommittableOffset with
  | some offset => [.resolved offset]
  | none => []

/-- The interval of the automatic heartbeats is positive. -/
def autoHeartbeat : Bool := (Number.ofNat 0).lt (opts.autoHeartbeatInterval.getD (.ofNat 5000))

/-- All groups have been launched: `Promise.all` has them. -/
def BatchState.launched (s : BatchState Buffer) : Bool := s.groups.all fun gs => !gs.phase.isIdle

def step (s : BatchState Buffer) : Act → Option (BatchState Buffer)
  | .launch running stale =>
    -- `map` launches the groups in order, each up to its first await
    match s.groups.findIdx? (·.phase.isIdle) with
    | some g =>
      match s.groups[g]? with
      | some gs => let (gs', events) := loopHead str batch gs.todo running stale; some (s.put g gs' events)
      | none => none
    | none => none
  | .fulfil g =>
    if s.launched then
      match s.groups[g]? with
      | some ⟨.handling e, todo⟩ =>
        -- up to the heartbeat the group runs on without an await
        let tracker := s.tracker.markCompleted e.1.offset
        some ({ s with tracker }.put g ⟨.beating e, todo⟩ (.fulfilled e.2 :: resolving tracker))
      | _ => none
    else none
  | .reject g =>
    if s.launched then
      match s.groups[g]? with
      | some ⟨.handling e, todo⟩ => some (s.put g ⟨.rejected, todo⟩ [.rejected e.2])
      | _ => none
    else none
  | .beat g running stale =>
    if s.launched then
      match s.groups[g]? with
      | some ⟨.beating _, todo⟩ => let (gs', events) := loopHead str batch todo running stale; some (s.put g gs' events)
      | _ => none
    else none
  | .beatReject g =>
    if s.launched then
      match s.groups[g]? with
      | some ⟨.beating e, todo⟩ => some (s.put g ⟨.rejected, todo⟩ [.beatRejected e.2])
      | _ => none
    else none
  | .tick g =>
    match s.groups[g]? with
    | some ⟨.handling _, _⟩ => if autoHeartbeat opts then some { s with ticks := s.ticks + 1 } else none
    | _ => none
  | .tickFulfil => if 0 < s.ticks then some { s with ticks := s.ticks - 1 } else none
  | .tickReject =>
    -- the promise of a timer heartbeat is discarded (`void heartbeat()`)
    if 0 < s.ticks then some { s with ticks := s.ticks - 1, unhandled := s.unhandled + 1 } else none

/-- `processBatch` at its first `await`: the tracker reset, the messages grouped, no group
launched. -/
def init : BatchState Buffer :=
  let groups := (batch.groups str).map fun p => ⟨.idle, p.2⟩
  { tracker := WatermarkTracker.new.reset batch.offsets
    groups := groups
    ticks := 0
    unhandled := 0
    log := match promiseAll groups with
      | some r => [.settled r]
      | none => [] }

end Steps

/-! ## A sample batch -/

/-- Three messages of two keys, the second key between the messages of the first. -/
def Batch.sample : Batch String :=
  { topic := "order.created"
    messages := [⟨some "saga-1", some "1", "10", none⟩, ⟨some "saga-2", some "2", "11", none⟩,
      ⟨some "saga-1", some "3", "12", none⟩] }

def KafkaTransportOptions.default : KafkaTransportOptions := ⟨none, none⟩

end Saga.Kafka
