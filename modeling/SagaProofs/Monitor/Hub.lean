/-
The way of an update to the pages of the monitor: it is published to channels of Redis, one subscriber of the backend
reads these for all of its streams of server-sent events, and a stream is sent what arrives on its channel. The
subscriber follows the channels its streams ask for, by commands that take their time, as the messages of Redis do.
Redis and its client are not part of the repository: what is under way may change at any time, and the connection of
the subscriber may be made anew, and the results name what they ask of both.
-/
import SagaProofs.Lib.Run
import SagaProofs.Monitor.Projector

namespace Saga.Monitor

open Keyed Lts

/-! ## Messages -/

/-- The payload of a message, with its dates as texts. -/
structure SagaSseMessage where
  sagaId : String
  sagaRootId : String
  sagaParentId : Option String
  sagaName : Option String
  sagaDescription : Option String
  status : SagaStatus
  currentStepName : String
  currentStepDescription : Option String
  lastEventHint : Option EventHint
  lastTopic : String
  startedAt : String
  endedAt : Option String
  updatedAt : String
  eventCount : ℕ
  eventId : String
  eventHint : Option EventHint
  stepName : String
  publishedAt : String
  deriving DecidableEq

namespace RedisPublisherService

def channelAll : String := "obs:saga:all"

def channelSaga (sagaId : String) : String := "obs:saga:id:" ++ sagaId

def channelRoot (rootId : String) : String := "obs:saga:root:" ++ rootId

/-- The payload of `publishSagaUpdate`; `iso` writes a date. -/
def payload {Time : Type} (iso : Time → String) (update : SagaUpdate Time) : SagaSseMessage where
  sagaId := update.state.sagaId
  sagaRootId := update.state.sagaRootId
  sagaParentId := update.state.sagaParentId
  sagaName := update.state.sagaName
  sagaDescription := update.state.sagaDescription
  status := update.state.status
  currentStepName := update.state.currentStepName
  currentStepDescription := update.state.currentStepDescription
  lastEventHint := update.state.lastEventHint
  lastTopic := update.state.lastTopic
  startedAt := iso update.state.startedAt
  endedAt := update.state.endedAt.map iso
  updatedAt := iso update.state.updatedAt
  eventCount := update.state.eventCount
  eventId := update.event.sagaEventId
  eventHint := update.event.sagaEventHint
  stepName := update.event.sagaStepName
  publishedAt := iso update.event.sagaPublishedAt

/-- The channels a payload is published to. -/
def channels (message : SagaSseMessage) : List String :=
  [channelAll, channelSaga message.sagaId, channelRoot message.sagaRootId]

-- the names differ in their tenth character
theorem channelSaga_ne_all (sagaId : String) : channelSaga sagaId ≠ channelAll := fun h => by
  have h' := congrArg (·.toList[9]?) h
  simp [channelSaga, channelAll] at h'

theorem channelRoot_ne_all (rootId : String) : channelRoot rootId ≠ channelAll := fun h => by
  have h' := congrArg (·.toList[9]?) h
  simp [channelRoot, channelAll] at h'

theorem channelSaga_ne_root (sagaId rootId : String) : channelSaga sagaId ≠ channelRoot rootId := fun h => by
  have h' := congrArg (·.toList[9]?) h
  simp [channelSaga, channelRoot] at h'

theorem channelSaga_mem {sagaId : String} {m : SagaSseMessage} :
    channelSaga sagaId ∈ channels m ↔ m.sagaId = sagaId := by
  simp only [channels, List.mem_cons, channelSaga_ne_all, channelSaga_ne_root, List.not_mem_nil, or_false, false_or]
  rw [channelSaga, channelSaga, String.append_right_inj, eq_comm]

theorem channelRoot_mem {rootId : String} {m : SagaSseMessage} :
    channelRoot rootId ∈ channels m ↔ m.sagaRootId = rootId := by
  simp only [channels, List.mem_cons, channelRoot_ne_all, (channelSaga_ne_root _ _).symm, List.not_mem_nil, or_false,
    false_or]
  rw [channelRoot, channelRoot, String.append_right_inj, eq_comm]

end RedisPublisherService

open RedisPublisherService

/-! ## The backend and Redis -/

/-- What the subscriber asks of Redis. -/
inductive Command
  | subscribe (channel : String)
  | unsubscribe (channel : String)
  deriving DecidableEq

/-- Redis does what it is asked. -/
def Command.apply (subscribed : List String) : Command → List String
  | .subscribe channel => if channel ∈ subscribed then subscribed else channel :: subscribed
  | .unsubscribe channel => subscribed.filter (· ≠ channel)

/-- What a stream sends: the data of a heartbeat is `{}`. -/
inductive StreamData
  | heartbeat
  | update (message : SagaSseMessage)

/-- A stream of `createSseStream`, with all it was sent. -/
structure SseStream where
  channel : String
  isOpen : Bool
  data : List StreamData

def StreamData.message? : StreamData → Option SagaSseMessage
  | .heartbeat => none
  | .update message => some message

def SseStream.updates (s : SseStream) : List SagaSseMessage := s.data.filterMap StreamData.message?

/-- `RedisService` with its streams, in the order they were created in; the callback of a stream is its number. -/
structure Hub where
  channelCallbacks : Table String (List ℕ)
  -- sent to Redis and not yet done
  commands : List Command
  subscribed : List String
  -- sent by Redis and not yet received
  arriving : List (String × SagaSseMessage)
  streams : List SseStream
  -- all that Redis was given, and all that the subscriber received
  published : List (String × SagaSseMessage)
  received : List (String × SagaSseMessage)

namespace Hub

def empty : Hub := ⟨∅, [], [], [], [], [], []⟩

variable (hub : Hub)

def subscribe (channel : String) (callback : ℕ) : Hub :=
  let hub := if channel ∈ hub.channelCallbacks then hub else
    { hub with
      channelCallbacks := hub.channelCallbacks.insert channel []
      commands := hub.commands ++ [.subscribe channel] }
  { hub with
    channelCallbacks := modify hub.channelCallbacks channel fun callbacks =>
      if callback ∈ callbacks then callbacks else callbacks ++ [callback] }

def unsubscribe (channel : String) (callback : ℕ) : Hub :=
  match hub.channelCallbacks.lookup channel with
  | none => hub
  | some callbacks =>
    let callbacks := callbacks.erase callback
    if callbacks = [] then
      { hub with
        channelCallbacks := hub.channelCallbacks.erase channel
        commands := hub.commands ++ [.unsubscribe channel] }
    else { hub with channelCallbacks := hub.channelCallbacks.insert channel callbacks }

/-- `subscriber.next` of a stream. -/
def send (i : ℕ) (data : StreamData) : Hub :=
  { hub with streams := hub.streams.modify i fun s => { s with data := s.data ++ [data] } }

/-- The listener for `message`. -/
def onMessage (channel : String) (message : SagaSseMessage) : Hub :=
  ((hub.channelCallbacks.lookup channel).getD []).foldl (fun hub callback => hub.send callback (.update message)) hub

def createSseStream (channel : String) : Hub :=
  Hub.subscribe { hub with streams := hub.streams ++ [⟨channel, true, []⟩] } channel hub.streams.length

/-- The end of a stream. -/
def closeStream (i : ℕ) (s : SseStream) : Hub :=
  Hub.unsubscribe { hub with streams := hub.streams.set i { s with isOpen := false } } s.channel i

end Hub

/-- The routes of `SagaStreamController`. -/
inductive StreamRoute
  | streamAll
  | streamBySagaId (sagaId : String)
  | streamByRootId (rootId : String)

def StreamRoute.channel : StreamRoute → String
  | .streamAll => channelAll
  | .streamBySagaId sagaId => channelSaga sagaId
  | .streamByRootId rootId => channelRoot rootId

inductive HubAct (Time : Type)
  | publish (channel : String) (update : SagaUpdate Time)
  -- Redis does the next command
  | process
  -- the subscriber receives the next message
  | arrive
  -- what is under way becomes something else: messages are lost, repeated, or overtake each other
  | transit (arriving : List (String × SagaSseMessage))
  -- the subscriber is connected anew, follows nothing, and its client sends these commands
  | reconnect (commands : List Command)
  | openStream (route : StreamRoute)
  | closeStream (i : ℕ)
  | heartbeat (i : ℕ)

variable {Time : Type} (iso : Time → String)

def Hub.step (hub : Hub) : HubAct Time → Option Hub
  | .publish channel update =>
    let message := payload iso update
    if channel ∈ channels message then
      some { hub with
        arriving := if channel ∈ hub.subscribed then hub.arriving ++ [(channel, message)] else hub.arriving
        published := hub.published ++ [(channel, message)] }
    else none
  | .process =>
    match hub.commands with
    | [] => none
    | command :: commands => some { hub with commands, subscribed := command.apply hub.subscribed }
  | .arrive =>
    match hub.arriving with
    | [] => none
    | (channel, message) :: arriving =>
      some ({ hub with arriving, received := hub.received ++ [(channel, message)] }.onMessage channel message)
  | .transit arriving => some { hub with arriving }
  | .reconnect commands => some { hub with commands, subscribed := [], arriving := [] }
  | .openStream route => some (hub.createSseStream route.channel)
  | .closeStream i =>
    match hub.streams[i]? with
    | none => none
    | some s => if s.isOpen then some (hub.closeStream i s) else none
  | .heartbeat i =>
    if hub.streams[i]?.any (·.isOpen) then some (hub.send i .heartbeat) else none

/-- What a step does and when. -/
inductive HubMove (hub : Hub) : HubAct Time → Hub → Prop
  | publish {channel : String} {update : SagaUpdate Time} (hm : channel ∈ channels (payload iso update)) :
    HubMove hub (.publish channel update)
      { hub with
        arriving :=
          if channel ∈ hub.subscribed then hub.arriving ++ [(channel, payload iso update)] else hub.arriving
        published := hub.published ++ [(channel, payload iso update)] }
  | process {command : Command} {commands : List Command} (hc : hub.commands = command :: commands) :
    HubMove hub .process { hub with commands, subscribed := command.apply hub.subscribed }
  | arrive {channel : String} {m : SagaSseMessage} {arriving : List (String × SagaSseMessage)}
    (ha : hub.arriving = (channel, m) :: arriving) :
    HubMove hub .arrive
      (Hub.onMessage { hub with arriving, received := hub.received ++ [(channel, m)] } channel m)
  | transit (arriving : List (String × SagaSseMessage)) : HubMove hub (.transit arriving) { hub with arriving }
  | reconnect (commands : List Command) :
    HubMove hub (.reconnect commands) { hub with commands, subscribed := [], arriving := [] }
  | openStream (route : StreamRoute) : HubMove hub (.openStream route) (hub.createSseStream route.channel)
  | closeStream {i : ℕ} {s : SseStream} (hi : hub.streams[i]? = some s) (ho : s.isOpen = true) :
    HubMove hub (.closeStream i) (hub.closeStream i s)
  | heartbeat (i : ℕ) : HubMove hub (.heartbeat i) (hub.send i .heartbeat)

variable {iso}

theorem hubStep_move {hub hub' : Hub} {a : HubAct Time} (h : hub.step iso a = some hub') : HubMove iso hub a hub' := by
  cases a with
  | publish channel update =>
    simp only [Hub.step, Option.ite_none_right_eq_some, Option.some.injEq] at h
    obtain ⟨hm, rfl⟩ := h
    exact .publish hm
  | process =>
    simp only [Hub.step] at h
    split at h
    · cases h
    · rename_i hc
      cases h; exact .process hc
  | arrive =>
    simp only [Hub.step] at h
    split at h
    · cases h
    · rename_i ha
      cases h; exact .arrive ha
  | transit arriving => cases h; exact .transit arriving
  | reconnect commands => cases h; exact .reconnect commands
  | openStream route => cases h; exact .openStream route
  | closeStream i =>
    simp only [Hub.step] at h
    split at h
    · cases h
    · rename_i hi
      simp only [Option.ite_none_right_eq_some, Option.some.injEq] at h
      obtain ⟨ho, rfl⟩ := h
      exact .closeStream hi ho
  | heartbeat i =>
    simp only [Hub.step, Option.ite_none_right_eq_some, Option.some.injEq] at h
    obtain ⟨-, rfl⟩ := h
    exact .heartbeat i

/-! ## What is under way -/

/-- The messages of a channel. -/
def onChannel (channel : String) (log : List (String × SagaSseMessage)) : List SagaSseMessage :=
  log.filterMap fun p => if p.1 = channel then some p.2 else none

theorem onChannel_append (channel : String) (log log' : List (String × SagaSseMessage)) :
    onChannel channel (log ++ log') = onChannel channel log ++ onChannel channel log' := List.filterMap_append

theorem onChannel_cons (channel : String) (p : String × SagaSseMessage) (log : List (String × SagaSseMessage)) :
    onChannel channel (p :: log) = (if p.1 = channel then [p.2] else []) ++ onChannel channel log := by
  unfold onChannel
  by_cases h : p.1 = channel <;> simp [h]

theorem mem_onChannel {channel : String} {log : List (String × SagaSseMessage)} {m : SagaSseMessage} :
    m ∈ onChannel channel log ↔ (channel, m) ∈ log := by
  simp only [onChannel, List.mem_filterMap, Option.ite_none_right_eq_some, Option.some.injEq]
  constructor
  · rintro ⟨⟨ch, m'⟩, hmem, rfl, rfl⟩
    exact hmem
  · intro hmem
    exact ⟨_, hmem, rfl, rfl⟩

theorem mem_apply {channel : String} {subscribed : List String} {command : Command} :
    channel ∈ command.apply subscribed ↔
      match command with
      | .subscribe ch => channel = ch ∨ channel ∈ subscribed
      | .unsubscribe ch => channel ∈ subscribed ∧ channel ≠ ch := by
  cases command with
  | subscribe ch =>
    simp only [Command.apply]
    split
    · rename_i hmem
      constructor
      · exact .inr
      · rintro (rfl | h)
        · exact hmem
        · exact h
    · exact List.mem_cons
  | unsubscribe ch => simp [Command.apply]

namespace Hub

variable {hub : Hub}

/-- What Redis follows once it has done all commands. -/
def settled (hub : Hub) : List String := hub.commands.foldl Command.apply hub.subscribed

/-- It is told to follow just the channels with callbacks. -/
def Settled (hub : Hub) : Prop := ∀ ch, ch ∈ hub.settled ↔ ch ∈ hub.channelCallbacks

end Hub

/-! ### What is asked of Redis and its client -/

namespace HubAct

/-- Redis delivers a message at most once, and those of a channel in order. -/
def AtMostOnce (hub : Hub) : HubAct Time → Prop
  | .transit arriving => ∀ ch, (onChannel ch arriving).Sublist (onChannel ch hub.arriving)
  | _ => True

/-- The client subscribes again on a new connection, and sends again what was not done on the old one. -/
def Resubscribes (hub : Hub) : HubAct Time → Prop
  | .reconnect commands => ∀ ch, ch ∈ commands.foldl Command.apply [] ↔ ch ∈ hub.settled
  | _ => True

/-- The connection of the subscriber holds, and no message is lost, repeated or overtaken. -/
def Lossless (hub : Hub) : HubAct Time → Prop
  | .transit arriving => ∀ ch, onChannel ch arriving = onChannel ch hub.arriving
  | .reconnect _ => False
  | _ => True

theorem mem_foldl_subscribe (subscribed : List String) (ch : String) : ∀ channels : List String,
    ch ∈ (channels.map Command.subscribe).foldl Command.apply subscribed ↔ ch ∈ channels ∨ ch ∈ subscribed
  | [] => by simp
  | channel :: channels => by
    rw [List.map_cons, List.foldl_cons, mem_foldl_subscribe, mem_apply, List.mem_cons]
    dsimp only
    tauto

theorem mem_foldl_apply {subscribed subscribed' : List String} (h : ∀ ch, ch ∈ subscribed ↔ ch ∈ subscribed')
    (commands : List Command) (ch : String) :
    ch ∈ commands.foldl Command.apply subscribed ↔ ch ∈ commands.foldl Command.apply subscribed' := by
  induction commands generalizing subscribed subscribed' with
  | nil => exact h ch
  | cons command commands ih =>
    apply ih
    intro ch'
    rw [mem_apply, mem_apply]
    cases command with
    | subscribe channel => exact or_congr_right (h ch')
    | unsubscribe channel => exact and_congr_left' (h ch')

/-- A client that asks for all that Redis followed and then sends the commands again. -/
def again (hub : Hub) : HubAct Time → Bool
  | .reconnect commands => decide (commands = hub.subscribed.map .subscribe ++ hub.commands)
  | _ => true

theorem resubscribes_of_again {hub : Hub} {a : HubAct Time} (h : again hub a = true) : a.Resubscribes hub := by
  cases a with
  | reconnect commands =>
    rw [of_decide_eq_true h]
    intro ch
    rw [List.foldl_append]
    apply mem_foldl_apply
    intro ch'
    rw [mem_foldl_subscribe]
    simp
  | _ => trivial

end HubAct

namespace Hub

variable {hub : Hub}

/-- The open streams of a channel. -/
def openOn (hub : Hub) (channel : String) : List ℕ :=
  (List.range hub.streams.length).filter fun i =>
    hub.streams[i]?.any fun s => s.isOpen && decide (s.channel = channel)

theorem mem_openOn {channel : String} {i : ℕ} :
    i ∈ hub.openOn channel ↔ ∃ s, hub.streams[i]? = some s ∧ s.isOpen = true ∧ s.channel = channel := by
  simp only [openOn, List.mem_filter, List.mem_range, Option.any_eq_true, Bool.and_eq_true, decide_eq_true_eq]
  constructor
  · rintro ⟨-, h⟩
    exact h
  · rintro ⟨s, hs, h⟩
    exact ⟨(List.getElem?_eq_some_iff.1 hs).1, s, hs, h⟩

theorem nodup_openOn (hub : Hub) (channel : String) : (hub.openOn channel).Nodup :=
  (List.nodup_range).filter _

/-! ### The operations -/

theorem lookup_subscribe (hub : Hub) (channel channel' : String) (callback : ℕ) :
    (hub.subscribe channel callback).channelCallbacks.lookup channel' =
      if channel' = channel then
        let callbacks := (hub.channelCallbacks.lookup channel).getD []
        some (if callback ∈ callbacks then callbacks else callbacks ++ [callback])
      else hub.channelCallbacks.lookup channel' := by
  unfold subscribe
  dsimp only
  rw [lookup_modify]
  by_cases hmem : channel ∈ hub.channelCallbacks
  · rw [if_pos hmem]
    obtain ⟨callbacks, hcallbacks⟩ := Finmap.mem_iff.1 hmem
    split
    · rename_i heq
      rw [heq, hcallbacks]
      rfl
    · rfl
  · rw [if_neg hmem]
    dsimp only
    split
    · rename_i heq
      rw [heq, Finmap.lookup_insert, Finmap.lookup_eq_none.2 hmem]
      rfl
    · rename_i hne
      exact Finmap.lookup_insert_of_ne _ hne

theorem Settled.subscribe (h : hub.Settled) (channel : String) (callback : ℕ) :
    (hub.subscribe channel callback).Settled := by
  intro ch
  rw [← Finmap.lookup_isSome, lookup_subscribe]
  unfold Hub.subscribe
  by_cases hmem : channel ∈ hub.channelCallbacks
  · rw [if_pos hmem]
    refine (h ch).trans ?_
    split
    · rename_i heq
      rw [heq]
      exact ⟨fun _ => rfl, fun _ => hmem⟩
    · rw [Finmap.lookup_isSome]
  · rw [if_neg hmem]
    unfold Hub.settled
    rw [List.foldl_append, List.foldl_cons, List.foldl_nil, mem_apply]
    dsimp only
    rw [show (ch ∈ hub.commands.foldl Command.apply hub.subscribed ↔ _) from h ch, ← Finmap.lookup_isSome]
    split <;> simp_all

theorem lookup_unsubscribe {channel : String} {callbacks : List ℕ} (callback : ℕ)
    (h : hub.channelCallbacks.lookup channel = some callbacks) (channel' : String) :
    (hub.unsubscribe channel callback).channelCallbacks.lookup channel' =
      if channel' = channel then (if callbacks.erase callback = [] then none else some (callbacks.erase callback))
      else hub.channelCallbacks.lookup channel' := by
  unfold unsubscribe
  rw [h]
  dsimp only
  by_cases hempty : callbacks.erase callback = []
  · rw [if_pos hempty, if_pos hempty]
    split
    · rename_i heq
      rw [heq]
      exact Finmap.lookup_erase _ _
    · rename_i hne
      exact Finmap.lookup_erase_ne hne
  · rw [if_neg hempty, if_neg hempty]
    split
    · rename_i heq
      rw [heq]
      exact Finmap.lookup_insert _
    · rename_i hne
      exact Finmap.lookup_insert_of_ne _ hne

theorem Settled.unsubscribe (h : hub.Settled) (channel : String) (callback : ℕ) :
    (hub.unsubscribe channel callback).Settled := by
  cases hcallbacks : hub.channelCallbacks.lookup channel with
  | none =>
    unfold Hub.unsubscribe
    rw [hcallbacks]
    exact h
  | some callbacks =>
    intro ch
    rw [← Finmap.lookup_isSome, lookup_unsubscribe callback hcallbacks]
    unfold Hub.unsubscribe
    rw [hcallbacks]
    dsimp only
    by_cases hempty : callbacks.erase callback = []
    · rw [if_pos hempty, if_pos hempty]
      unfold Hub.settled
      rw [List.foldl_append, List.foldl_cons, List.foldl_nil, mem_apply]
      dsimp only
      rw [show (ch ∈ hub.commands.foldl Command.apply hub.subscribed ↔ _) from h ch, ← Finmap.lookup_isSome]
      split <;> simp_all
    · rw [if_neg hempty, if_neg hempty]
      refine (h ch).trans ?_
      rw [← Finmap.lookup_isSome]
      split
      · rename_i heq
        rw [heq, hcallbacks]
        rfl
      · rfl

theorem onMessage_frame (hub : Hub) (channel : String) (m : SagaSseMessage) :
    hub.onMessage channel m = { hub with streams := (hub.onMessage channel m).streams } := by
  unfold onMessage
  generalize (hub.channelCallbacks.lookup channel).getD [] = callbacks
  induction callbacks generalizing hub with
  | nil => rfl
  | cons callback callbacks ih => exact (ih (hub.send callback (.update m))).trans rfl

/-- The listener writes to the streams of the callbacks, each once. -/
theorem streams_onMessage (hub : Hub) (channel : String) (m : SagaSseMessage)
    (hn : ((hub.channelCallbacks.lookup channel).getD []).Nodup) (i : ℕ) :
    (hub.onMessage channel m).streams[i]? =
      hub.streams[i]?.map fun s =>
        if i ∈ (hub.channelCallbacks.lookup channel).getD [] then { s with data := s.data ++ [.update m] } else s := by
  unfold onMessage
  generalize (hub.channelCallbacks.lookup channel).getD [] = callbacks at hn
  induction callbacks generalizing hub with
  | nil => simp
  | cons callback callbacks ih =>
    obtain ⟨hnot, hn⟩ := List.nodup_cons.1 hn
    rw [List.foldl_cons, ih (hub.send callback (.update m)) hn]
    simp only [send, List.getElem?_modify, Option.map_eq_map, Option.map_map]
    congr 1
    funext s
    by_cases hi : callback = i
    · subst hi
      simp [hnot]
    · simp [hi, Ne.symm hi]

/-! ### The invariant -/

theorem subscribe_frame (hub : Hub) (channel : String) (callback : ℕ) :
    (hub.subscribe channel callback).streams = hub.streams ∧ (hub.subscribe channel callback).arriving = hub.arriving ∧
      (hub.subscribe channel callback).published = hub.published ∧
      (hub.subscribe channel callback).received = hub.received := by
  unfold subscribe
  split <;> exact ⟨rfl, rfl, rfl, rfl⟩

theorem unsubscribe_frame (hub : Hub) (channel : String) (callback : ℕ) :
    (hub.unsubscribe channel callback).streams = hub.streams ∧
      (hub.unsubscribe channel callback).arriving = hub.arriving ∧
      (hub.unsubscribe channel callback).published = hub.published ∧
      (hub.unsubscribe channel callback).received = hub.received := by
  unfold unsubscribe
  split
  · exact ⟨rfl, rfl, rfl, rfl⟩
  · dsimp only
    split <;> exact ⟨rfl, rfl, rfl, rfl⟩

/-- The callbacks of a channel are its open streams, and a stream was sent a part of what was received on its channel,
in this order. -/
structure Sound (hub : Hub) : Prop where
  callbacks : ∀ ch, hub.channelCallbacks.lookup ch = if hub.openOn ch = [] then none else some (hub.openOn ch)
  named : ∀ p ∈ hub.published, p.1 ∈ channels p.2
  sent : ∀ s ∈ hub.streams, s.updates.Sublist (onChannel s.channel hub.received)

theorem Sound.callbacks_getD (hs : hub.Sound) (ch : String) :
    (hub.channelCallbacks.lookup ch).getD [] = hub.openOn ch := by
  rw [hs.callbacks]
  split
  · rename_i h
    rw [h]
    rfl
  · rfl

theorem sound_empty : Sound .empty where
  callbacks _ := rfl
  named _ h := absurd h List.not_mem_nil
  sent _ h := absurd h List.not_mem_nil

theorem settled_empty : Settled .empty := fun ch => by
  simp [Hub.settled, empty, Finmap.notMem_empty]

/-- Streams that keep their channels and whether they are open. -/
theorem openOn_congr {hub' : Hub}
    (h : ∀ i : ℕ, (hub'.streams[i]?.map fun s : SseStream => (s.channel, s.isOpen)) =
      hub.streams[i]?.map fun s => (s.channel, s.isOpen)) (ch : String) : hub'.openOn ch = hub.openOn ch := by
  have hmap : hub'.streams.map (fun s : SseStream => (s.channel, s.isOpen)) =
      hub.streams.map fun s => (s.channel, s.isOpen) :=
    List.ext_getElem? fun i => by rw [List.getElem?_map, List.getElem?_map]; exact h i
  have hlen := congrArg List.length hmap
  rw [List.length_map, List.length_map] at hlen
  unfold openOn
  rw [hlen]
  refine List.filter_congr fun i _ => ?_
  have hi := h i
  cases h₁ : hub'.streams[i]? <;> cases h₂ : hub.streams[i]? <;> simp_all

theorem openOn_createSseStream (hub : Hub) (channel ch : String) :
    (hub.createSseStream channel).openOn ch =
      hub.openOn ch ++ if ch = channel then [hub.streams.length] else [] := by
  have hstreams : (hub.createSseStream channel).streams = hub.streams ++ [⟨channel, true, []⟩] :=
    (subscribe_frame _ _ _).1
  unfold openOn
  rw [hstreams, List.length_append, List.length_singleton, List.range_succ, List.filter_append]
  congr 1
  · refine List.filter_congr fun i hi => ?_
    rw [List.getElem?_append_left (List.mem_range.1 hi)]
  · rw [List.filter_singleton, List.getElem?_concat_length]
    by_cases h : ch = channel
    · simp [h]
    · simp [h, Ne.symm h]

theorem openOn_close {i : ℕ} {s : SseStream} (hi : hub.streams[i]? = some s) (hopen : s.isOpen = true) (ch : String) :
    openOn { hub with streams := hub.streams.set i { s with isOpen := false } } ch =
      if ch = s.channel then (hub.openOn ch).erase i else hub.openOn ch := by
  have hlt := (List.getElem?_eq_some_iff.1 hi).1
  have hset : ∀ j, (hub.streams.set i { s with isOpen := false })[j]? =
      if j = i then some { s with isOpen := false } else hub.streams[j]? := by
    intro j
    rw [List.getElem?_set]
    by_cases hj : i = j
    · subst hj
      simp [hlt]
    · simp [hj, Ne.symm hj]
  unfold openOn
  dsimp only
  rw [List.length_set, List.Nodup.erase_eq_filter ((List.nodup_range).filter _), List.filter_filter]
  split
  · refine List.filter_congr fun j _ => ?_
    rw [hset j]
    by_cases hj : j = i <;> simp [hj]
  · rename_i hne
    refine List.filter_congr fun j _ => ?_
    rw [hset j]
    by_cases hj : j = i
    · simp [hj, hi, hopen, Ne.symm hne]
    · simp [hj]

/-- The listener sends a message to the open streams of its channel. -/
theorem Sound.streams_onMessage (hs : hub.Sound) (channel : String) (m : SagaSseMessage) (i : ℕ) :
    (hub.onMessage channel m).streams[i]? =
      hub.streams[i]?.map fun s : SseStream =>
        if s.isOpen = true ∧ s.channel = channel then { s with data := s.data ++ [.update m] } else s := by
  have hn : ((hub.channelCallbacks.lookup channel).getD []).Nodup := by
    rw [hs.callbacks_getD]
    exact nodup_openOn hub channel
  rw [Hub.streams_onMessage hub channel m hn i, hs.callbacks_getD]
  cases hi : hub.streams[i]? with
  | none => rfl
  | some s =>
    have hiff : i ∈ hub.openOn channel ↔ s.isOpen = true ∧ s.channel = channel := by
      rw [mem_openOn]
      constructor
      · rintro ⟨s', hs', h⟩
        rw [hi] at hs'
        cases hs'; exact h
      · exact fun h => ⟨s, hi, h⟩
    simp only [Option.map_some, hiff]

theorem updates_append (s : SseStream) (data : List StreamData) :
    SseStream.updates { s with data := s.data ++ data } = s.updates ++ data.filterMap StreamData.message? :=
  List.filterMap_append

theorem Sound.received (hs : hub.Sound) (p : String × SagaSseMessage) (arriving : List (String × SagaSseMessage)) :
    Sound { hub with arriving, received := hub.received ++ [p] } := by
  refine ⟨hs.callbacks, hs.named, fun s hmem => ?_⟩
  rw [onChannel_append]
  exact (hs.sent s hmem).trans (List.sublist_append_left _ _)

theorem sound_arrive (hs : hub.Sound) (channel : String) (m : SagaSseMessage)
    (arriving : List (String × SagaSseMessage)) :
    Sound (Hub.onMessage { hub with arriving, received := hub.received ++ [(channel, m)] } channel m) := by
  have hs' := hs.received (channel, m) arriving
  have heq := onMessage_frame { hub with arriving, received := hub.received ++ [(channel, m)] } channel m
  have hstreams := hs'.streams_onMessage channel m
  refine ⟨fun ch => ?_, ?_, fun s hmem => ?_⟩
  · rw [heq]
    refine (hs.callbacks ch).trans ?_
    rw [← openOn_congr (fun i => ?_) ch]
    dsimp only
    rw [hstreams i, Option.map_map]
    congr 1
    funext s
    dsimp only [Function.comp]
    split <;> rfl
  · rw [heq]
    exact hs.named
  · obtain ⟨i, hi⟩ := List.mem_iff_getElem?.1 hmem
    rw [hstreams i, Option.map_eq_some_iff] at hi
    obtain ⟨s₀, hs₀, rfl⟩ := hi
    rw [heq]
    split
    · -- the message is the last that was received on its channel
      rename_i hto
      rw [updates_append, onChannel_append, onChannel_cons, if_pos hto.2.symm]
      exact (hs.sent s₀ (List.mem_of_getElem? hs₀)).append (List.Sublist.refl _)
    · exact hs'.sent s₀ (List.mem_of_getElem? hs₀)

theorem sound_createSseStream (hs : hub.Sound) (channel : String) : (hub.createSseStream channel).Sound := by
  have hopen := openOn_createSseStream hub channel
  obtain ⟨hub₁, hdef⟩ : ∃ hub₁ : Hub, hub₁ = { hub with streams := hub.streams ++ [⟨channel, true, []⟩] } := ⟨_, rfl⟩
  have hcreate : hub.createSseStream channel = hub₁.subscribe channel hub.streams.length := by rw [hdef]; rfl
  obtain ⟨hstreams, -, hpublished, hreceived⟩ := subscribe_frame hub₁ channel hub.streams.length
  have hnew : hub.streams.length ∉ hub.openOn channel := fun h => by
    obtain ⟨s, hs, -⟩ := mem_openOn.1 h
    rw [List.getElem?_eq_none le_rfl] at hs
    cases hs
  rw [hcreate] at hopen ⊢
  refine ⟨fun ch => ?_, ?_, fun s hmem => ?_⟩
  · rw [lookup_subscribe, hopen ch, hdef]
    dsimp only
    rw [hs.callbacks_getD, if_neg hnew]
    split
    · rename_i heq
      rw [heq, if_neg (by simp)]
    · rw [List.append_nil]
      exact hs.callbacks ch
  · rw [hpublished, hdef]
    exact hs.named
  · rw [hstreams, hdef] at hmem
    rw [hreceived, hdef]
    rcases List.mem_append.1 hmem with hmem | hmem
    · exact hs.sent s hmem
    · rw [List.mem_singleton.1 hmem]
      exact List.nil_sublist _

/-- The callbacks of the channel of an open stream. -/
theorem Sound.lookup_open (hs : hub.Sound) {i : ℕ} {s : SseStream} (hi : hub.streams[i]? = some s)
    (hopen : s.isOpen = true) : hub.channelCallbacks.lookup s.channel = some (hub.openOn s.channel) := by
  rw [hs.callbacks, if_neg (List.ne_nil_of_mem (mem_openOn.2 ⟨s, hi, hopen, rfl⟩))]

theorem sound_closeStream (hs : hub.Sound) {i : ℕ} {s : SseStream} (hi : hub.streams[i]? = some s)
    (hopen : s.isOpen = true) : (hub.closeStream i s).Sound := by
  have hopenOn := openOn_close hi hopen
  obtain ⟨hub₁, hdef⟩ : ∃ hub₁ : Hub, hub₁ = { hub with streams := hub.streams.set i { s with isOpen := false } } :=
    ⟨_, rfl⟩
  rw [← hdef] at hopenOn
  have hclose : hub.closeStream i s = hub₁.unsubscribe s.channel i := by rw [hdef]; rfl
  have hkeep : hub₁.channelCallbacks = hub.channelCallbacks := by rw [hdef]
  have hcallbacks : hub₁.channelCallbacks.lookup s.channel = some (hub.openOn s.channel) := by
    rw [hkeep]
    exact hs.lookup_open hi hopen
  obtain ⟨hstreams, -, hpublished, hreceived⟩ := unsubscribe_frame hub₁ s.channel i
  have hopenOn' : ∀ ch, (hub₁.unsubscribe s.channel i).openOn ch = hub₁.openOn ch := fun ch =>
    openOn_congr (fun j => by rw [hstreams]) ch
  rw [hclose]
  refine ⟨fun ch => ?_, ?_, fun s' hmem' => ?_⟩
  · rw [hopenOn' ch, hopenOn ch, lookup_unsubscribe i hcallbacks ch, hkeep]
    split
    · rename_i heq
      rw [heq]
    · exact hs.callbacks ch
  · rw [hpublished, hdef]
    exact hs.named
  · rw [hstreams, hdef] at hmem'
    rw [hreceived, hdef]
    rcases List.mem_or_eq_of_mem_set hmem' with hmem' | rfl
    · exact hs.sent s' hmem'
    · exact hs.sent s (List.mem_of_getElem? hi)

theorem sound_heartbeat (hs : hub.Sound) (i : ℕ) : (hub.send i .heartbeat).Sound := by
  have hstreams : ∀ j, (hub.send i .heartbeat).streams[j]? =
      hub.streams[j]?.map fun s : SseStream => if i = j then { s with data := s.data ++ [.heartbeat] } else s := by
    intro j
    unfold send
    rw [List.getElem?_modify]
    rfl
  have hopen : ∀ ch, (hub.send i .heartbeat).openOn ch = hub.openOn ch := by
    refine openOn_congr fun j => ?_
    rw [hstreams j, Option.map_map]
    congr 1
    funext s
    dsimp only [Function.comp]
    split <;> rfl
  refine ⟨fun ch => ?_, hs.named, fun s hmem => ?_⟩
  · rw [hopen ch]
    exact hs.callbacks ch
  · obtain ⟨j, hj⟩ := List.mem_iff_getElem?.1 hmem
    rw [hstreams j, Option.map_eq_some_iff] at hj
    obtain ⟨s₀, hs₀, rfl⟩ := hj
    have hsent := hs.sent s₀ (List.mem_of_getElem? hs₀)
    split
    · rw [updates_append]
      exact (List.append_nil s₀.updates).symm ▸ hsent
    · exact hsent

theorem sound_step {hub' : Hub} {a : HubAct Time} (hs : hub.Sound) (h : hub.step iso a = some hub') : hub'.Sound := by
  cases hubStep_move h with
  | publish hm =>
    refine ⟨hs.callbacks, fun p hp => ?_, hs.sent⟩
    rcases List.mem_append.1 hp with hp | hp
    · exact hs.named p hp
    · rw [List.mem_singleton.1 hp]
      exact hm
  | process | transit | reconnect => exact ⟨hs.callbacks, hs.named, hs.sent⟩
  | arrive => exact sound_arrive hs _ _ _
  | openStream route => exact sound_createSseStream hs route.channel
  | closeStream hi ho => exact sound_closeStream hs hi ho
  | heartbeat i => exact sound_heartbeat hs i

theorem sound_run {as : List (HubAct Time)} (h : run (step iso) .empty as = some hub) : hub.Sound :=
  run_induction (fun _ _ _ hs hstep => sound_step hs hstep) sound_empty h

/-- The commands go with the callbacks. -/
theorem settled_step {hub' : Hub} {a : HubAct Time} (hsettled : hub.Settled) (ha : a.Resubscribes hub)
    (h : hub.step iso a = some hub') : hub'.Settled := by
  cases hubStep_move h with
  | process hc =>
    intro ch
    have hch := hsettled ch
    rw [Hub.settled, hc] at hch
    exact hch
  | arrive =>
    rw [onMessage_frame]
    exact hsettled
  | reconnect commands => exact fun ch => (ha ch).trans (hsettled ch)
  | openStream route =>
    apply Settled.subscribe
    exact hsettled
  | closeStream =>
    apply Settled.unsubscribe
    exact hsettled
  | publish | transit | heartbeat => exact hsettled

theorem settled_run {as : List (HubAct Time)} (hc : Each (step iso) (fun hub a => a.Resubscribes hub) .empty as)
    (h : run (step iso) .empty as = some hub) : hub.Settled :=
  run_each_induction (fun _ _ _ hs ha hstep => settled_step hs ha hstep) settled_empty hc h

/-! ### What a step does to the messages -/

variable (iso) in
/-- What is received, published and under way after a step. -/
def Traffic (hub hub' : Hub) : HubAct Time → Prop
  | .publish channel update =>
    hub'.received = hub.received ∧ hub'.published = hub.published ++ [(channel, payload iso update)] ∧
      hub'.arriving = if channel ∈ hub.subscribed then hub.arriving ++ [(channel, payload iso update)] else hub.arriving
  | .arrive =>
    ∃ p, hub.arriving = p :: hub'.arriving ∧ hub'.received = hub.received ++ [p] ∧ hub'.published = hub.published
  | .transit arriving => hub'.received = hub.received ∧ hub'.published = hub.published ∧ hub'.arriving = arriving
  | .reconnect _ => hub'.received = hub.received ∧ hub'.published = hub.published ∧ hub'.arriving = []
  | _ => hub'.received = hub.received ∧ hub'.published = hub.published ∧ hub'.arriving = hub.arriving

theorem traffic_step {hub' : Hub} {a : HubAct Time} (h : hub.step iso a = some hub') : Traffic iso hub hub' a := by
  cases hubStep_move h with
  | arrive ha =>
    rw [onMessage_frame]
    exact ⟨_, ha, rfl, rfl⟩
  | openStream route =>
    obtain ⟨-, harriving, hpublished, hreceived⟩ := subscribe_frame
      { hub with streams := hub.streams ++ [⟨route.channel, true, []⟩] } route.channel hub.streams.length
    exact ⟨hreceived, hpublished, harriving⟩
  | @closeStream i s =>
    obtain ⟨-, harriving, hpublished, hreceived⟩ := unsubscribe_frame
      { hub with streams := hub.streams.set i { s with isOpen := false } } s.channel i
    exact ⟨hreceived, hpublished, harriving⟩
  | publish | process | transit | reconnect | heartbeat => exact ⟨rfl, rfl, rfl⟩

theorem received_step {hub' : Hub} {a : HubAct Time} (h : hub.step iso a = some hub') (ch : String) :
    ∃ more, onChannel ch hub'.received = onChannel ch hub.received ++ more := by
  have htraffic := traffic_step h
  cases a with
  | arrive =>
    obtain ⟨p, -, hreceived, -⟩ := htraffic
    exact ⟨_, by rw [hreceived, onChannel_append]⟩
  | _ => exact ⟨[], by rw [htraffic.1, List.append_nil]⟩

/-! ### What a stream is sent -/

/-- A stream between two moments: it is sent more, some of what was received on its channel in between, and all of it
while it is open. -/
structure Flow (hub hub' : Hub) (s s' : SseStream) : Prop where
  channel : s'.channel = s.channel
  isOpen : s'.isOpen = true → s.isOpen = true
  sent : ∃ out more, s'.data = s.data ++ out ∧
    onChannel s.channel hub'.received = onChannel s.channel hub.received ++ more ∧
    (out.filterMap StreamData.message?).Sublist more ∧ (s'.isOpen = true → out.filterMap StreamData.message? = more)

/-- A step that sends nothing to the stream, and receives nothing. -/
theorem Flow.of_received {hub hub' : Hub} {s : SseStream} (h : hub'.received = hub.received) : Flow hub hub' s s :=
  ⟨rfl, id, [], [], (List.append_nil _).symm, by rw [h, List.append_nil], .slnil, fun _ => rfl⟩

theorem Flow.trans {hub₁ hub₂ : Hub} {s s₁ s₂ : SseStream} (h : Flow hub hub₁ s s₁) (h' : Flow hub₁ hub₂ s₁ s₂) :
    Flow hub hub₂ s s₂ := by
  obtain ⟨out, more, hdata, hreceived, hsub, hall⟩ := h.sent
  obtain ⟨out', more', hdata', hreceived', hsub', hall'⟩ := h'.sent
  rw [h.channel] at hreceived'
  refine ⟨h'.channel.trans h.channel, fun hopen => h.isOpen (h'.isOpen hopen), out ++ out', more ++ more', ?_, ?_, ?_,
    fun hopen => ?_⟩
  · rw [hdata', hdata, List.append_assoc]
  · rw [hreceived', hreceived, List.append_assoc]
  · rw [List.filterMap_append]
    exact hsub.append hsub'
  · rw [List.filterMap_append, hall (h'.isOpen hopen), hall' hopen]

theorem flow_step {hub' : Hub} {a : HubAct Time} (hs : hub.Sound) (h : hub.step iso a = some hub') {i : ℕ}
    {s : SseStream} (hi : hub.streams[i]? = some s) : ∃ s', hub'.streams[i]? = some s' ∧ Flow hub hub' s s' := by
  cases hubStep_move h with
  | publish | process | transit | reconnect => exact ⟨s, hi, .of_received rfl⟩
  | @arrive channel m arriving =>
    have hi' := (hs.received (channel, m) arriving).streams_onMessage channel m i
    dsimp only at hi'
    rw [hi] at hi'
    refine ⟨_, hi', ?_⟩
    rw [onMessage_frame]
    dsimp only
    have hmore := onChannel_append s.channel hub.received [(channel, m)]
    rw [onChannel_cons] at hmore
    by_cases hto : s.isOpen = true ∧ s.channel = channel
    · rw [if_pos hto]
      rw [if_pos hto.2.symm] at hmore
      exact ⟨rfl, id, [.update m], _, rfl, hmore, List.Sublist.refl _, fun _ => rfl⟩
    · rw [if_neg hto]
      refine ⟨rfl, id, [], _, (List.append_nil _).symm, hmore, List.nil_sublist _, fun hopen => ?_⟩
      rw [if_neg fun hch => hto ⟨hopen, Eq.symm hch⟩]
      rfl
  | openStream route =>
    obtain ⟨hstreams, -, -, hreceived⟩ := subscribe_frame
      { hub with streams := hub.streams ++ [⟨route.channel, true, []⟩] } route.channel hub.streams.length
    refine ⟨s, ?_, .of_received hreceived⟩
    unfold createSseStream
    rw [hstreams]
    exact (List.getElem?_append_left (List.getElem?_eq_some_iff.1 hi).1).trans hi
  | @closeStream j s₀ hj =>
    unfold closeStream
    obtain ⟨hstreams, -, -, hreceived⟩ := unsubscribe_frame
      { hub with streams := hub.streams.set j { s₀ with isOpen := false } } s₀.channel j
    by_cases hij : j = i
    · subst hij
      rw [hi] at hj
      cases hj
      refine ⟨{ s with isOpen := false }, ?_, rfl, nofun, [], [], (List.append_nil _).symm, ?_, .slnil, nofun⟩
      · rw [hstreams]
        exact List.getElem?_set_self (List.getElem?_eq_some_iff.1 hi).1
      · rw [hreceived]; exact (List.append_nil _).symm
    · refine ⟨s, ?_, .of_received hreceived⟩
      rw [hstreams]
      exact (List.getElem?_set_ne hij).trans hi
  | heartbeat j =>
    have hi' : (hub.send j .heartbeat).streams[i]? = _ := List.getElem?_modify _ _ _ _
    rw [hi] at hi'
    refine ⟨_, hi', ?_⟩
    split
    · exact ⟨rfl, id, [.heartbeat], [], rfl, (List.append_nil _).symm, .slnil, fun _ => rfl⟩
    · exact .of_received rfl

theorem flow_run {hub' : Hub} {as : List (HubAct Time)} (hs : hub.Sound) (h : run (step iso) hub as = some hub')
    {i : ℕ} {s : SseStream} (hi : hub.streams[i]? = some s) :
    ∃ s', hub'.streams[i]? = some s' ∧ Flow hub hub' s s' := by
  refine (run_induction (I := fun hub' => hub'.Sound ∧ ∃ s', hub'.streams[i]? = some s' ∧ Flow hub hub' s s') ?_
    ⟨hs, s, hi, .of_received rfl⟩ h).2
  rintro hub₁ a hub₂ ⟨hs₁, s₁, hi₁, hflow⟩ hstep
  obtain ⟨s₂, hi₂, hflow'⟩ := flow_step hs₁ hstep hi₁
  exact ⟨sound_step hs₁ hstep, s₂, hi₂, hflow.trans hflow'⟩

/-! ### What is received -/

/-- A channel between two moments: what was received in between and is under way stands in `R` to what was under way
and what was published in between. -/
def Relays (R : List SagaSseMessage → List SagaSseMessage → Prop) (ch : String) (hub hub' : Hub) : Prop :=
  ∃ more new, onChannel ch hub'.received = onChannel ch hub.received ++ more ∧
    onChannel ch hub'.published = onChannel ch hub.published ++ new ∧
    R (more ++ onChannel ch hub'.arriving) (onChannel ch hub.arriving ++ new)

/-- Nothing is received or published, and what is under way becomes something it stands in `R` to. -/
theorem Relays.of_arriving {R : List SagaSseMessage → List SagaSseMessage → Prop} {ch : String} {hub hub' : Hub}
    (hreceived : hub'.received = hub.received) (hpublished : hub'.published = hub.published)
    (h : R (onChannel ch hub'.arriving) (onChannel ch hub.arriving)) : Relays R ch hub hub' := by
  refine ⟨[], [], ?_, ?_, ?_⟩
  · rw [hreceived, List.append_nil]
  · rw [hpublished, List.append_nil]
  · rw [List.append_nil]
    exact h

theorem Relays.trans {R : List SagaSseMessage → List SagaSseMessage → Prop}
    (htrans : ∀ l₁ l₂ l₃, R l₁ l₂ → R l₂ l₃ → R l₁ l₃)
    (hleft : ∀ l l₁ l₂, R l₁ l₂ → R (l ++ l₁) (l ++ l₂)) (hright : ∀ l l₁ l₂, R l₁ l₂ → R (l₁ ++ l) (l₂ ++ l))
    {ch : String} {hub₁ hub₂ : Hub} (h : Relays R ch hub hub₁) (h' : Relays R ch hub₁ hub₂) :
    Relays R ch hub hub₂ := by
  obtain ⟨more, new, hreceived, hpublished, hr⟩ := h
  obtain ⟨more', new', hreceived', hpublished', hr'⟩ := h'
  refine ⟨more ++ more', new ++ new', ?_, ?_, ?_⟩
  · rw [hreceived', hreceived, List.append_assoc]
  · rw [hpublished', hpublished, List.append_assoc]
  · rw [List.append_assoc, ← List.append_assoc _ new]
    refine htrans _ _ _ (hleft more _ _ hr') ?_
    rw [← List.append_assoc]
    exact hright new' _ _ hr

/-- What a step relays: at most all of it, and all of it on a channel that Redis follows if nothing is lost. -/
theorem relays_step {hub' : Hub} {a : HubAct Time} (h : hub.step iso a = some hub') (ch : String) :
    (a.AtMostOnce hub → Relays List.Sublist ch hub hub') ∧
      (a.Lossless hub → ch ∈ hub.subscribed → Relays Eq ch hub hub') := by
  have htraffic := traffic_step h
  cases a with
  | publish channel update =>
    obtain ⟨hreceived, hpublished, harriving⟩ := htraffic
    have hnew : onChannel ch hub'.published =
        onChannel ch hub.published ++ onChannel ch [(channel, payload iso update)] := by
      rw [hpublished, onChannel_append]
    have hmore : onChannel ch hub'.received = onChannel ch hub.received ++ [] := by rw [hreceived, List.append_nil]
    refine ⟨fun _ => ⟨[], _, hmore, hnew, ?_⟩, fun _ hmem => ⟨[], _, hmore, hnew, ?_⟩⟩
    · rw [harriving, List.nil_append]
      split
      · rw [onChannel_append]
      · exact List.sublist_append_left _ _
    · rw [harriving, List.nil_append]
      split
      · exact onChannel_append _ _ _
      · -- it was published to another channel
        rename_i hnot
        rw [onChannel_cons, if_neg fun heq : channel = ch => hnot (heq ▸ hmem)]
        exact (List.append_nil _).symm
  | arrive =>
    obtain ⟨p, hleft, hreceived, hpublished⟩ := htraffic
    have hmore : onChannel ch hub'.received = onChannel ch hub.received ++ onChannel ch [p] := by
      rw [hreceived, onChannel_append]
    have hnew : onChannel ch hub'.published = onChannel ch hub.published ++ [] := by rw [hpublished, List.append_nil]
    have heq : onChannel ch [p] ++ onChannel ch hub'.arriving = onChannel ch hub.arriving ++ [] := by
      rw [hleft, List.append_nil, ← onChannel_append]
      rfl
    exact ⟨fun _ => ⟨_, [], hmore, hnew, heq ▸ List.Sublist.refl _⟩, fun _ _ => ⟨_, [], hmore, hnew, heq⟩⟩
  | transit arriving =>
    obtain ⟨hreceived, hpublished, harriving⟩ := htraffic
    exact ⟨fun ha => .of_arriving hreceived hpublished (harriving ▸ ha ch),
      fun ha _ => .of_arriving hreceived hpublished (harriving ▸ ha ch)⟩
  | reconnect commands =>
    obtain ⟨hreceived, hpublished, harriving⟩ := htraffic
    exact ⟨fun _ => .of_arriving hreceived hpublished (harriving ▸ List.nil_sublist _), nofun⟩
  | _ =>
    obtain ⟨hreceived, hpublished, harriving⟩ := htraffic
    exact ⟨fun _ => .of_arriving hreceived hpublished (by rw [harriving]),
      fun _ _ => .of_arriving hreceived hpublished (by rw [harriving])⟩

/-- What was received and is under way is a part of what was published, in its order. -/
theorem relayed_run {as : List (HubAct Time)} (hc : Each (step iso) (fun hub a => a.AtMostOnce hub) .empty as)
    (h : run (step iso) .empty as = some hub) (ch : String) :
    (onChannel ch hub.received ++ onChannel ch hub.arriving).Sublist (onChannel ch hub.published) := by
  obtain ⟨more, new, hreceived, hpublished, hsub⟩ :=
    run_each_induction (I := fun hub => Relays List.Sublist ch .empty hub)
      (fun hub₁ a hub₂ hrelays ha hstep => Relays.trans (R := List.Sublist) (fun _ _ _ => List.Sublist.trans)
        (fun l _ _ h => h.append_left l) (fun l _ _ h => h.append_right l) hrelays ((relays_step hstep ch).1 ha))
      (.of_arriving rfl rfl (List.Sublist.refl _)) hc h
  rw [hreceived, hpublished]
  exact hsub

/-- Redis follows the channel, and is not told to stop. -/
def Follows (hub : Hub) (channel : String) : Prop :=
  channel ∈ hub.subscribed ∧ Command.unsubscribe channel ∉ hub.commands

/-- Redis goes on following the channel of a stream when another stream ends. -/
theorem follows_unsubscribe (hs : hub.Sound) {i j : ℕ} {s s₀ : SseStream} (hi : hub.streams[i]? = some s)
    (hopen : s.isOpen = true) (hij : j ≠ i) (hf : hub.Follows s.channel) :
    (unsubscribe { hub with streams := hub.streams.set j { s₀ with isOpen := false } } s₀.channel j).Follows
      s.channel := by
  unfold unsubscribe
  dsimp only
  rw [hs.callbacks]
  split
  · exact hf
  · rename_i callbacks hcallbacks
    split at hcallbacks
    · cases hcallbacks
    · cases hcallbacks
      split
      · rename_i hlast
        refine ⟨hf.1, fun hmem => ?_⟩
        rcases List.mem_append.1 hmem with hmem | hmem
        · exact hf.2 hmem
        · -- the stream itself is still a callback of its channel
          have hchannel : s.channel = s₀.channel := Command.unsubscribe.inj (List.mem_singleton.1 hmem)
          have hin : i ∈ (hub.openOn s₀.channel).erase j :=
            (List.mem_erase_of_ne hij.symm).2 (mem_openOn.2 ⟨s, hi, hopen, hchannel⟩)
          rw [hlast] at hin
          cases hin
      · exact hf

/-- It follows the channel of a stream until the stream ends or the connection does. -/
theorem follows_step {hub' : Hub} {a : HubAct Time} (hs : hub.Sound) (ha : a.Lossless hub)
    (h : hub.step iso a = some hub') {i : ℕ} {s s' : SseStream} (hi : hub.streams[i]? = some s)
    (hopen : s.isOpen = true) (hi' : hub'.streams[i]? = some s') (hopen' : s'.isOpen = true)
    (hf : hub.Follows s.channel) : hub'.Follows s.channel := by
  cases hubStep_move h with
  | @process command commands hc =>
    obtain ⟨hmem, hnot⟩ := hf
    rw [hc, List.mem_cons, not_or] at hnot
    refine ⟨?_, hnot.2⟩
    dsimp only
    rw [mem_apply]
    cases command with
    | subscribe ch => exact .inr hmem
    | unsubscribe ch => exact ⟨hmem, fun heq => hnot.1 (by rw [heq])⟩
  | arrive =>
    rw [onMessage_frame]
    exact hf
  | reconnect => cases ha
  | openStream route =>
    unfold createSseStream subscribe
    split
    · exact hf
    · exact ⟨hf.1, by simpa using hf.2⟩
  | @closeStream j s₀ hj =>
    by_cases hij : j = i
    · -- it is the stream itself that ends
      subst hij
      unfold closeStream at hi'
      rw [(unsubscribe_frame _ _ _).1, List.getElem?_set_self (List.getElem?_eq_some_iff.1 hi).1] at hi'
      cases hi'
      cases hopen'
    · exact follows_unsubscribe hs hi hopen hij hf
  | publish | transit | heartbeat => exact hf

/-- While a stream is open and nothing is lost, all that is published on its channel is received or under way. -/
theorem kept_run {hub' : Hub} {as : List (HubAct Time)} (hs : hub.Sound)
    (hc : Each (step iso) (fun hub a => a.Lossless hub) hub as) (h : run (step iso) hub as = some hub') {i : ℕ}
    {s s' : SseStream} (hi : hub.streams[i]? = some s) (hi' : hub'.streams[i]? = some s') (hopen' : s'.isOpen = true)
    (hf : hub.Follows s.channel) : Relays Eq s.channel hub hub' := by
  obtain ⟨-, s₁, hi₁, -, hkept⟩ := run_each_induction
    (I := fun hub' => hub'.Sound ∧ ∃ s', hub'.streams[i]? = some s' ∧ s'.channel = s.channel ∧
      (s'.isOpen = true → hub'.Follows s.channel ∧ Relays Eq s.channel hub hub'))
    (fun hub₁ a hub₂ ⟨hs₁, s₁, hi₁, hchannel, hkept⟩ ha hstep => by
      obtain ⟨s₂, hi₂, hflow⟩ := flow_step hs₁ hstep hi₁
      refine ⟨sound_step hs₁ hstep, s₂, hi₂, hflow.channel.trans hchannel, fun hopen => ?_⟩
      have hopen₁ := hflow.isOpen hopen
      obtain ⟨hf₁, hrelays⟩ := hkept hopen₁
      rw [← hchannel] at hf₁ hrelays ⊢
      refine ⟨follows_step hs₁ ha hstep hi₁ hopen₁ hi₂ hopen hf₁, ?_⟩
      exact Relays.trans (R := Eq) (fun _ _ _ => Eq.trans) (fun l _ _ => congrArg (l ++ ·))
        (fun l _ _ => congrArg (· ++ l)) hrelays ((relays_step hstep _).2 ha hf₁.1))
    ⟨hs, s, hi, rfl, fun _ => ⟨hf, .of_arriving rfl rfl rfl⟩⟩ hc h
  rw [hi'] at hi₁
  cases hi₁
  exact (hkept hopen').2

/-- Where no command is under way Redis follows the channels of the open streams. -/
theorem Sound.follows (hs : hub.Sound) (hsettled : hub.Settled) (hcommands : hub.commands = []) {i : ℕ} {s : SseStream}
    (hi : hub.streams[i]? = some s) (hopen : s.isOpen = true) : hub.Follows s.channel := by
  have hmem : s.channel ∈ hub.settled := by
    rw [hsettled, ← Finmap.lookup_isSome, hs.lookup_open hi hopen]
    rfl
  unfold Hub.settled at hmem
  rw [hcommands] at hmem
  exact ⟨hmem, by rw [hcommands]; exact List.not_mem_nil⟩

end Hub

/-! ## The streams deliver -/

open Hub in
theorem mem_settled_iff {hub : Hub} (hs : hub.Sound) (hsettled : hub.Settled) (ch : String) :
    ch ∈ hub.settled ↔ ∃ s ∈ hub.streams, s.isOpen = true ∧ s.channel = ch := by
  rw [hsettled, ← Finmap.lookup_isSome, hs.callbacks]
  constructor
  · intro h
    cases hopen : hub.openOn ch with
    | nil => rw [hopen] at h; cases h
    | cons i rest =>
      obtain ⟨s, hi, h⟩ := mem_openOn.1 (hopen ▸ List.mem_cons_self (a := i) (l := rest))
      exact ⟨s, List.mem_of_getElem? hi, h⟩
  · rintro ⟨s, hmem, h⟩
    obtain ⟨i, hi⟩ := List.mem_iff_getElem?.1 hmem
    rw [if_neg (List.ne_nil_of_mem (mem_openOn.2 ⟨s, hi, h⟩))]
    rfl

/-- In every run, connections lost and made again included, a stream is sent a part of what the subscriber receives on
its channel, in this order and each time once, and all of it while it is open. If Redis delivers at most once and in
order, this was published there, and is of the saga or the tree of the stream. If the client subscribes again on a new
connection, Redis is told to follow just the channels of the open streams; and a stream that is open when all commands
are done is sent, or will receive, all that is published on its channel from then on, while it is open and nothing is
lost. -/
theorem streams_deliver (iso : Time → String) {as : List (HubAct Time)} {hub : Hub}
    (h : run (Hub.step iso) .empty as = some hub) :
    (∀ (i : ℕ) (s : SseStream), hub.streams[i]? = some s →
      s.updates.Sublist (onChannel s.channel hub.received) ∧
      ∀ bs hub' s', run (Hub.step iso) hub bs = some hub' → hub'.streams[i]? = some s' → s'.isOpen = true →
        ∃ more, onChannel s.channel hub'.received = onChannel s.channel hub.received ++ more ∧
          s'.updates = s.updates ++ more) ∧
    (Each (Hub.step iso) (fun hub a => a.AtMostOnce hub) .empty as →
      ∀ (i : ℕ) (s : SseStream), hub.streams[i]? = some s →
        (s.updates ++ onChannel s.channel hub.arriving).Sublist (onChannel s.channel hub.published) ∧
        ∀ m ∈ s.updates, (∀ sagaId, s.channel = channelSaga sagaId → m.sagaId = sagaId) ∧
          ∀ rootId, s.channel = channelRoot rootId → m.sagaRootId = rootId) ∧
    (Each (Hub.step iso) (fun hub a => a.Resubscribes hub) .empty as →
      (∀ ch, ch ∈ hub.settled ↔ ∃ s ∈ hub.streams, s.isOpen = true ∧ s.channel = ch) ∧
      (hub.commands = [] → ∀ (i : ℕ) (s : SseStream), hub.streams[i]? = some s →
        ∀ bs hub' s', run (Hub.step iso) hub bs = some hub' →
          Each (Hub.step iso) (fun hub a => a.Lossless hub) hub bs →
          hub'.streams[i]? = some s' → s'.isOpen = true →
            ∃ new, onChannel s.channel hub'.published = onChannel s.channel hub.published ++ new ∧
              s'.updates ++ onChannel s.channel hub'.arriving =
                s.updates ++ onChannel s.channel hub.arriving ++ new)) := by
  have hs := Hub.sound_run h
  refine ⟨fun i s hi => ⟨hs.sent s (List.mem_of_getElem? hi), ?_⟩, fun hc i s hi => ?_,
    fun hc => ⟨mem_settled_iff hs (Hub.settled_run hc h), ?_⟩⟩
  · intro bs hub' s' hrun hi' hopen'
    obtain ⟨s₁, hi₁, hflow⟩ := Hub.flow_run hs hrun hi
    rw [hi'] at hi₁
    cases hi₁
    obtain ⟨out, more, hdata, hreceived, -, hall⟩ := hflow.sent
    refine ⟨more, hreceived, ?_⟩
    unfold SseStream.updates
    rw [hdata, List.filterMap_append, hall hopen']
  · have hsent : (s.updates ++ onChannel s.channel hub.arriving).Sublist (onChannel s.channel hub.published) :=
      ((hs.sent s (List.mem_of_getElem? hi)).append_right _).trans (Hub.relayed_run hc h s.channel)
    refine ⟨hsent, fun m hm => ?_⟩
    have hmem := hsent.subset (List.mem_append_left _ hm)
    have hnamed : s.channel ∈ channels m := hs.named _ (mem_onChannel.1 hmem)
    constructor
    · intro sagaId hchannel
      exact channelSaga_mem.1 (hchannel ▸ hnamed)
    · intro rootId hchannel
      exact channelRoot_mem.1 (hchannel ▸ hnamed)
  · intro hcommands i s hi bs hub' s' hrun hlossless hi' hopen'
    obtain ⟨s₁, hi₁, hflow⟩ := Hub.flow_run hs hrun hi
    rw [hi'] at hi₁
    cases hi₁
    obtain ⟨out, more, hdata, hreceived, -, hall⟩ := hflow.sent
    have hfollows := hs.follows (Hub.settled_run hc h) hcommands hi (hflow.isOpen hopen')
    obtain ⟨more', new, hreceived', hpublished, hkept⟩ := Hub.kept_run hs hlossless hrun hi hi' hopen' hfollows
    -- what was received since was sent to the stream
    have hmore : more' = more := List.append_cancel_left (hreceived'.symm.trans hreceived)
    refine ⟨new, hpublished, ?_⟩
    unfold SseStream.updates
    rw [hdata, List.filterMap_append, hall hopen', List.append_assoc, ← hmore, hkept, List.append_assoc]

namespace HubAct

def sampleUpdate : SagaUpdate String :=
  buildUpdate id "2024-01-01T00:00:01.000Z" (fun _ => none)
    (.sample "e1" "order.created" none "2024-01-01T00:00:00.000Z") .running 0

/-- Two pages follow the sagas, one leaves, and the update is published twice: it is lost with the connection, and then
it arrives. -/
def sampleRun : List (HubAct String) :=
  [.openStream .streamAll, .openStream (.streamBySagaId "saga-1"), .process, .openStream .streamAll,
    .publish channelAll sampleUpdate, .closeStream 0,
    .reconnect ([channelAll].map .subscribe ++ [.subscribe (channelSaga "saga-1")]), .process, .process,
    .publish channelAll sampleUpdate, .arrive, .heartbeat 2]

end HubAct

theorem streams_deliver_sample :
    ∃ hub s, run (Hub.step id) .empty HubAct.sampleRun = some hub ∧ hub.streams[2]? = some s ∧
      s.updates = [payload id HubAct.sampleUpdate] ∧ hub.commands = [] ∧
      (s.updates ++ onChannel s.channel hub.arriving).Sublist (onChannel s.channel hub.published) ∧
      (∀ ch, ch ∈ hub.settled ↔ ∃ s ∈ hub.streams, s.isOpen = true ∧ s.channel = ch) := by
  obtain ⟨hub, hr, hp⟩ := exists_of_run (Hub.step id) .empty HubAct.sampleRun
    (fun hub => hub.streams[2]?.any (fun s : SseStream => decide (s.updates = [payload id HubAct.sampleUpdate])) &&
      decide (hub.commands = [])) (by decide +kernel)
  rw [Bool.and_eq_true, decide_eq_true_eq] at hp
  obtain ⟨s, hi, hupdates⟩ := (Option.any_eq_true _ _).1 hp.1
  obtain ⟨-, honce, hclient⟩ := streams_deliver id hr
  have honce' : Each (Hub.step id) (fun hub a => a.AtMostOnce hub) .empty HubAct.sampleRun := by
    simp [Each, HubAct.sampleRun, HubAct.AtMostOnce]
  have hclient' : Each (Hub.step id) (fun hub a => a.Resubscribes hub) .empty HubAct.sampleRun :=
    each_of_eachB (Hub.step id) HubAct.again (fun _ _ => HubAct.resubscribes_of_again) _ _ (by decide +kernel)
  exact ⟨hub, s, hr, hi, of_decide_eq_true hupdates, hp.2, (honce honce' 2 s hi).1, (hclient hclient').1⟩

end Saga.Monitor
