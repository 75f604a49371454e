/-
`SagaRegistry.buildRouteMap` and the route map that `SagaRunner.start` makes of it: the handlers of
all participants by topic, each topic with the prefix of the runner in front.
-/
import SagaProofs.Core.Routing

namespace Saga

variable {Handler PlainHandler : Type}

/-! ## Participants -/

/-- `Record<string, T>`: an object, each name once. -/
abbrev Record (α : Type) := AList fun _ : String => α

namespace SagaRegistry

/-- What the registry reads of a participant. -/
structure Participant (Handler PlainHandler : Type) where
  serviceId : String
  on : Record Handler
  handlerOptions : Option (Record HandlerConfig)
  onPlain : Option (Record PlainHandler)

/-- A handler together with its participant. -/
structure Registered (Handler PlainHandler α : Type) where
  participant : Participant Handler PlainHandler
  handler : α

inductive RegistryError
  | duplicateHandler (topic existingServiceId newServiceId : String)
  | invalidHandlerConfig (topic serviceId reason : String)
  deriving DecidableEq

def RegistryError.message : RegistryError → String
  | .duplicateHandler topic existingServiceId newServiceId =>
    "Duplicate handler for event type \"" ++ topic ++ "\": registered by \"" ++ existingServiceId ++ "\" and \"" ++
      newServiceId ++ "\""
  | .invalidHandlerConfig topic serviceId reason =>
    "Invalid handler config for \"" ++ topic ++ "\" in \"" ++ serviceId ++ "\": " ++ reason

/-- `Map<string, RouteEntry>`, without the order of its keys. -/
abbrev RouteMap (Handler PlainHandler : Type) :=
  Record (RouteEntry (Registered Handler PlainHandler Handler) (Registered Handler PlainHandler PlainHandler))

/-- `options?.final && options?.fork`. -/
def finalAndFork (options : Option HandlerConfig) : Bool :=
  (options.bind (·.final)).getD false &&
    match options.bind (·.fork) with
    | some (.flag b) => b
    | some (.config _) => true
    | none => false

/-- `map.get(topic) ?? {}`. -/
def existing (map : RouteMap Handler PlainHandler) (topic : String) :
    RouteEntry (Registered Handler PlainHandler Handler) (Registered Handler PlainHandler PlainHandler) :=
  (map.lookup topic).getD ⟨none, none, none⟩

/-- One entry of `participant.on`. -/
def registerSaga (participant : Participant Handler PlainHandler) (map : RouteMap Handler PlainHandler)
    (topic : String) (handler : Handler) : Except RegistryError (RouteMap Handler PlainHandler) :=
  match (existing map topic).sagaHandler with
  | some first => .error (.duplicateHandler topic first.participant.serviceId participant.serviceId)
  | none =>
    let options := participant.handlerOptions.bind (·.lookup topic)
    if finalAndFork options then
      .error (.invalidHandlerConfig topic participant.serviceId "cannot have both final and fork options")
    else
      .ok (map.insert topic
        { existing map topic with sagaHandler := some ⟨participant, handler⟩, sagaOptions := options })

/-- One entry of `participant.onPlain`. -/
def registerPlain (participant : Participant Handler PlainHandler) (map : RouteMap Handler PlainHandler)
    (topic : String) (handler : PlainHandler) : Except RegistryError (RouteMap Handler PlainHandler) :=
  match (existing map topic).plainHandler with
  | some first => .error (.duplicateHandler topic first.participant.serviceId participant.serviceId)
  | none => .ok (map.insert topic { existing map topic with plainHandler := some ⟨participant, handler⟩ })

def registerParticipant (map : RouteMap Handler PlainHandler) (participant : Participant Handler PlainHandler) :
    Except RegistryError (RouteMap Handler PlainHandler) := do
  let map ← participant.on.entries.foldlM (fun map e => registerSaga participant map e.1 e.2) map
  match participant.onPlain with
  | some onPlain => onPlain.entries.foldlM (fun map e => registerPlain participant map e.1 e.2) map
  | none => return map

def buildRouteMap (participants : List (Participant Handler PlainHandler)) :
    Except RegistryError (RouteMap Handler PlainHandler) :=
  participants.foldlM registerParticipant ∅

end SagaRegistry

/-! ## The route map of the runner -/

namespace SagaRunner

open SagaRegistry

/-- The map of `start`: every topic with the prefix, `options.topicPrefix ?? ""`, in front. -/
def prefixed (topicPrefix : String) (base : RouteMap Handler PlainHandler) : RouteMap Handler PlainHandler :=
  base.entries.foldl (fun map e => map.insert (topicPrefix ++ e.1) e.2) ∅

/-- `this.routeMap` as `start` builds it. -/
def startRouteMap (participants : List (Participant Handler PlainHandler)) (topicPrefix : String) :
    Except RegistryError (RouteMap Handler PlainHandler) := do
  let base ← buildRouteMap participants
  return prefixed topicPrefix base

/-- The options with those that only `start` reads. -/
structure StartOptions extends RunnerOptions where
  groupId : String
  fromBeginning : Option Bool

/-- What `start` calls on the transport, besides the handler it subscribes. -/
inductive TransportCall
  | connect
  | subscribe (topics : List String) (fromBeginning : Option Bool) (groupId : String)

inductive StartResult
  | started
  | thrown (error : RegistryError)
  | refused

/-- How `start` ends, its calls, and the map its handler reads, `none` where it was not built. -/
structure Start (Handler PlainHandler : Type) where
  result : StartResult
  calls : List TransportCall
  routeMap : Option (RouteMap Handler PlainHandler)

/-- `start` by whether `connect` and `subscribe` fulfil. -/
protected def start (participants : List (Participant Handler PlainHandler)) (options : StartOptions)
    (connects subscribes : Bool) : Start Handler PlainHandler :=
  match startRouteMap participants (options.topicPrefix.getD "") with
  | .error error => ⟨.thrown error, [], none⟩
  | .ok routeMap =>
    let topics := routeMap.keys
    if !connects then ⟨.refused, [.connect], some routeMap⟩
    else if 0 < topics.length then
      ⟨if subscribes then .started else .refused,
        [.connect, .subscribe topics options.fromBeginning options.groupId], some routeMap⟩
    else ⟨.started, [.connect], some routeMap⟩

theorem lookup_foldl_insert {α : Type} (topicPrefix topic : String) : ∀ (entries : List (Sigma fun _ : String => α))
    (map : Record α), entries.NodupKeys →
      (entries.foldl (fun map e => map.insert (topicPrefix ++ e.1) e.2) map).lookup (topicPrefix ++ topic) =
        (entries.dlookup topic).or (map.lookup (topicPrefix ++ topic))
  | [], map, _ => rfl
  | ⟨t, v⟩ :: rest, map, hn => by
    rw [List.foldl_cons, lookup_foldl_insert topicPrefix topic rest _ (List.nodupKeys_of_nodupKeys_cons hn)]
    by_cases ht : topic = t
    · subst ht
      -- no other entry has this topic, so the value stays
      rw [List.dlookup_eq_none.2 (List.notMem_keys_of_nodupKeys_cons hn), List.dlookup_cons_eq, AList.lookup_insert]
      rfl
    · have hne : topicPrefix ++ topic ≠ topicPrefix ++ t := fun h => ht ((String.append_right_inj topicPrefix).1 h)
      rw [List.dlookup_cons_ne rest ⟨t, v⟩ ht, AList.lookup_insert_ne hne]

/-- With the prefix in front a topic has the entry it has without. -/
theorem lookup_prefixed (topicPrefix topic : String) (base : RouteMap Handler PlainHandler) :
    (prefixed topicPrefix base).lookup (topicPrefix ++ topic) = base.lookup topic := by
  unfold prefixed
  rw [lookup_foldl_insert topicPrefix topic base.entries ∅ base.nodupKeys, AList.lookup_empty, Option.or_none]
  rfl

/-- The topics of the map are those of the registry with the prefix in front. -/
theorem mem_prefixed {topicPrefix x : String} {base : RouteMap Handler PlainHandler} :
    x ∈ prefixed topicPrefix base ↔ ∃ topic ∈ base, x = topicPrefix ++ topic := by
  have h : ∀ (entries : List (Sigma fun _ : String =>
        RouteEntry (Registered Handler PlainHandler Handler) (Registered Handler PlainHandler PlainHandler)))
      (map : RouteMap Handler PlainHandler), x ∈ entries.foldl (fun map e => map.insert (topicPrefix ++ e.1) e.2) map ↔
        (∃ topic ∈ entries.keys, x = topicPrefix ++ topic) ∨ x ∈ map := by
    intro entries
    induction entries with
    | nil => simp
    | cons e entries ih =>
      intro map
      rw [List.foldl_cons, ih, AList.mem_insert, List.keys_cons, List.exists_mem_cons_iff]
      exact or_left_comm.trans or_assoc.symm
  rw [prefixed, h]
  simp [AList.mem_keys, AList.keys]

end SagaRunner

end Saga
