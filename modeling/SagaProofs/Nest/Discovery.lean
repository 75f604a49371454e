/-
`SagaRunnerProvider.onModuleInit`: the providers whose class has the metadata of `@SagaParticipant`, its own or
that of a base, are resolved and registered, and the runner is started. The topics of a class are those of the
nearest decorated class of its prototype chain and its options those of the nearest class that was given any, so
a class that is decorated again without options keeps the options of its base. Its plain handlers are what
`@MessageHandler` has left.
-/
import SagaProofs.Core.RouteMap
import SagaProofs.Nest.MessageHandlers

namespace Saga.Nest

open SagaRegistry

variable {Class Method Handler PlainHandler Store : Type} [DecidableEq Class]

/-! ## The decorator -/

/-- `SAGA_PARTICIPANT_METADATA`, `SAGA_PARTICIPANT_TOPICS_METADATA` and `SAGA_PARTICIPANT_OPTIONS_METADATA`. -/
inductive ParticipantKey
  | participant
  | topics
  | options
  deriving DecidableEq

/-- What is stored under them. -/
inductive ParticipantMetadata
  | participant
  | topics (topics : List String)
  | options (options : HandlerConfig)

/-- The three calls of reflect-metadata. -/
structure Reflect (Class Store : Type) where
  getMetadata : Store → ParticipantKey → Class → Option ParticipantMetadata
  getOwnMetadata : Store → ParticipantKey → Class → Option ParticipantMetadata
  defineMetadata : Store → ParticipantKey → ParticipantMetadata → Class → Store

/-- `@SagaParticipant(topics, options)` on a class. -/
structure ParticipantDecoration (Class : Type) where
  target : Class
  topics : String ⊕ List String
  options : Option HandlerConfig

def ParticipantDecoration.topicArray (d : ParticipantDecoration Class) : List String := d.topics.elim (fun t => [t]) id

/-- What the decorator does when it runs. -/
def sagaParticipant (R : Reflect Class Store) (s : Store) (d : ParticipantDecoration Class) : Store :=
  let s := R.defineMetadata s .participant .participant d.target
  let s := R.defineMetadata s .topics (.topics d.topicArray) d.target
  match d.options with
  | some options => R.defineMetadata s .options (.options options) d.target
  | none => s

/-! ## The provider -/

/-- What `onModuleInit` reads of an instance: `handle` and the methods, bound to it, where they are functions. -/
structure Instance (Method Handler PlainHandler : Type) where
  handle : Option Handler
  method : Method → Option PlainHandler

/-- A class by its name and the instance that `ModuleRef.resolve` fulfils with, `none` where it rejects. -/
structure Container (Class Method Handler PlainHandler : Type) where
  name : Class → String
  resolve : Class → Option (Instance Method Handler PlainHandler)

/-- A wrapper of the discovery service; `none` where `metatype` is no function with a prototype. -/
structure InstanceWrapper (Class : Type) where
  metatype : Option Class

/-- `participantOptions?.final || participantOptions?.fork`. -/
def finalOrFork (options : Option HandlerConfig) : Bool :=
  (options.bind (·.final)).getD false ||
    match options.bind (·.fork) with
    | some (.flag b) => b
    | some (.config _) => true
    | none => false

/-- `record[topic] = value` for each topic; `__proto__` sets the prototype of the object and no key. -/
def assignAll {α : Type} (topics : List String) (value : α) : Record α :=
  topics.foldl (fun record topic => if topic = "__proto__" then record else record.insert topic value) ∅

section Provider

variable (R : Reflect Class Store) (s : Store) (messageHandlers : Class → Option (Record Method))
variable (container : Container Class Method Handler PlainHandler)

def sagaTopics (metatype : Class) : List String :=
  match R.getMetadata s .topics metatype with
  | some (.topics topics) => topics
  | _ => []

def participantOptions (metatype : Class) : Option HandlerConfig :=
  match R.getMetadata s .options metatype with
  | some (.options options) => some options
  | _ => none

/-- The participant that is registered for an instance. -/
def participantOf (metatype : Class) (inst : Instance Method Handler PlainHandler) : Participant Handler PlainHandler :=
  let topics := sagaTopics R s metatype
  let options := participantOptions R s metatype
  let handlerOptions : Record HandlerConfig :=
    match inst.handle, options with
    | some _, some options => if finalOrFork (some options) then assignAll topics options else ∅
    | _, _ => ∅
  let plain := onPlain inst.method (messageHandlers metatype)
  { serviceId := container.name metatype
    on := inst.handle.elim ∅ fun handle => assignAll topics handle
    handlerOptions := if 0 < handlerOptions.keys.length then some handlerOptions else none
    onPlain := if 0 < plain.keys.length then some plain else none }

/-- The body of the loop over the providers. -/
def discover (wrapper : InstanceWrapper Class) : Option (Participant Handler PlainHandler) :=
  match wrapper.metatype with
  | none => none
  | some metatype =>
    match R.getMetadata s .participant metatype with
    | none => none
    | some _ =>
      match container.resolve metatype with
      | none => none
      | some inst =>
        let participant := participantOf R s messageHandlers container metatype inst
        if participant.on.keys.length = 0 ∧ participant.plain.keys.length = 0 then none else some participant

/-- `onModuleInit`, by whether `connect` and `subscribe` of the transport fulfil. -/
def SagaRunnerProvider.onModuleInit (providers : List (InstanceWrapper Class)) (options : SagaRunner.StartOptions)
    (connects subscribes : Bool) : SagaRunner.Start Handler PlainHandler :=
  SagaRunner.start (providers.filterMap (discover R s messageHandlers container)) options connects subscribes

end Provider

/-! ## What it is for -/

/-- What is assumed of reflect-metadata: `getMetadata` finds the first class of the prototype chain with metadata of
its own under the key, `defineMetadata` writes under the key on the given class, and there is none to begin with. -/
structure Reflect.Lawful (R : Reflect Class Store) (hierarchy : Forest Class) (metadata : Store) : Prop where
  init : ∀ key c, R.getOwnMetadata metadata key c = none
  get : ∀ s key, ∀ c ∈ hierarchy.nodes,
    R.getMetadata s key c = (prototypeChain hierarchy c).findSome? (R.getOwnMetadata s key)
  define : ∀ s key value c key' c', R.getOwnMetadata (R.defineMetadata s key value c) key' c' =
    if key' = key ∧ c' = c then some value else R.getOwnMetadata s key' c'

section Statement

variable (hierarchy : Forest Class) (decorations : List (ParticipantDecoration Class))

/-- The topics a class was decorated with, last. -/
def declaredTopics (c : Class) : Option (List String) :=
  (decorations.reverse.find? (·.target = c)).map (·.topicArray)

/-- The options a class was given, last. -/
def declaredOptions (c : Class) : Option HandlerConfig :=
  (decorations.reverse.find? fun d => d.target = c ∧ d.options.isSome).bind (·.options)

def effectiveTopics (c : Class) : Option (List String) :=
  (prototypeChain hierarchy c).findSome? (declaredTopics decorations)

def effectiveOptions (c : Class) : Option HandlerConfig :=
  (prototypeChain hierarchy c).findSome? (declaredOptions decorations)

variable (container : Container Class Method Handler PlainHandler)

/-- The provider is a participant whose instance handles the topic. -/
def Serves (wrapper : InstanceWrapper Class) (topic : String) (handle : Handler) : Prop :=
  ∃ c topics inst, wrapper.metatype = some c ∧ effectiveTopics hierarchy decorations c = some topics ∧
    container.resolve c = some inst ∧ inst.handle = some handle ∧ topic ∈ topics ∧ topic ≠ "__proto__"

/-- The provider is a participant that declares or inherits a method for the plain topic. -/
def ServesPlain (p : Program Class Method) (wrapper : InstanceWrapper Class) (topic : String) (method : PlainHandler) :
    Prop :=
  ∃ c topics inst name, wrapper.metatype = some c ∧ effectiveTopics p.hierarchy decorations c = some topics ∧
    container.resolve c = some inst ∧ expected p c topic = some name ∧ inst.method name = some method ∧
    topic ≠ "__proto__"

/-- The options that are registered with the topics of a provider. -/
def optionsFor (wrapper : InstanceWrapper Class) : Option HandlerConfig :=
  (wrapper.metatype.bind (effectiveOptions hierarchy decorations)).filter fun options => finalOrFork (some options)

end Statement

/-! ## The metadata of a class -/

section Metadata

variable {R : Reflect Class Store} {hierarchy : Forest Class} {metadata : Store}
variable {decorations : List (ParticipantDecoration Class)} {c : Class}

/-- The metadata after the decorators have run. -/
def decorate (R : Reflect Class Store) (metadata : Store) (decorations : List (ParticipantDecoration Class)) : Store :=
  decorations.foldl (sagaParticipant R) metadata

theorem declaredTopics_concat (d : ParticipantDecoration Class) : declaredTopics (decorations ++ [d]) c =
    if c = d.target then some d.topicArray else declaredTopics decorations c := by
  unfold declaredTopics
  rw [List.reverse_append, List.reverse_singleton, List.singleton_append, List.find?_cons]
  by_cases h : d.target = c
  · simp [h]
  · simp [h, Ne.symm h]

theorem declaredOptions_concat (d : ParticipantDecoration Class) : declaredOptions (decorations ++ [d]) c =
    if c = d.target then d.options.or (declaredOptions decorations c) else declaredOptions decorations c := by
  unfold declaredOptions
  rw [List.reverse_append, List.reverse_singleton, List.singleton_append, List.find?_cons]
  by_cases h : d.target = c
  · subst h
    cases ho : d.options <;> simp [ho]
  · simp [h, Ne.symm h]

variable (decorations) in
/-- What a class has of its own once the decorators have run. -/
theorem getOwnMetadata_decorate (hR : R.Lawful hierarchy metadata) (c : Class) :
    R.getOwnMetadata (decorate R metadata decorations) .participant c =
        (declaredTopics decorations c).map (fun _ => .participant) ∧
      R.getOwnMetadata (decorate R metadata decorations) .topics c = (declaredTopics decorations c).map .topics ∧
      R.getOwnMetadata (decorate R metadata decorations) .options c = (declaredOptions decorations c).map .options := by
  induction decorations using List.reverseRecOn with
  | nil => exact ⟨hR.init _ c, hR.init _ c, hR.init _ c⟩
  | append_singleton ds d ih =>
    obtain ⟨hp, ht, ho⟩ := ih
    have hfold : decorate R metadata (ds ++ [d]) = sagaParticipant R (decorate R metadata ds) d := by
      unfold decorate
      rw [List.foldl_append]
      rfl
    rw [hfold, declaredTopics_concat, declaredOptions_concat]
    unfold sagaParticipant
    -- the last two writes are under other keys than the first
    cases hd : d.options with
    | none =>
      simp only [hR.define, reduceCtorEq, false_and, if_false, true_and, hp, ht, ho, Option.none_or, ite_self]
      refine ⟨?_, ?_, trivial⟩ <;> split <;> rfl
    | some options =>
      simp only [hR.define, reduceCtorEq, false_and, if_false, true_and, hp, ht, ho, Option.some_or]
      refine ⟨?_, ?_, ?_⟩ <;> split <;> rfl

variable (decorations) in
/-- What `getMetadata` finds: the nearest class decides, for the topics and for the options each by itself. -/
theorem getMetadata_decorate (hR : R.Lawful hierarchy metadata) (hc : c ∈ hierarchy.nodes) :
    R.getMetadata (decorate R metadata decorations) .participant c =
        (effectiveTopics hierarchy decorations c).map (fun _ => .participant) ∧
      sagaTopics R (decorate R metadata decorations) c = (effectiveTopics hierarchy decorations c).getD [] ∧
      participantOptions R (decorate R metadata decorations) c = effectiveOptions hierarchy decorations c := by
  have hown := fun a => getOwnMetadata_decorate decorations hR a
  have hp : R.getOwnMetadata (decorate R metadata decorations) .participant =
      Option.map (fun _ => .participant) ∘ declaredTopics decorations := funext fun a => (hown a).1
  have ht : R.getOwnMetadata (decorate R metadata decorations) .topics =
      Option.map .topics ∘ declaredTopics decorations := funext fun a => (hown a).2.1
  have ho : R.getOwnMetadata (decorate R metadata decorations) .options =
      Option.map .options ∘ declaredOptions decorations := funext fun a => (hown a).2.2
  unfold sagaTopics participantOptions effectiveTopics effectiveOptions
  rw [hR.get _ _ c hc, hR.get _ _ c hc, hR.get _ _ c hc, hp, ht, ho, ← List.map_findSome?, ← List.map_findSome?,
    ← List.map_findSome?]
  refine ⟨rfl, ?_, ?_⟩
  · cases (prototypeChain hierarchy c).findSome? (declaredTopics decorations) <;> rfl
  · cases (prototypeChain hierarchy c).findSome? (declaredOptions decorations) <;> rfl

end Metadata

/-! ## The participants that are found -/

section Discover

variable {R : Reflect Class Store} {hierarchy : Forest Class} {metadata : Store}
variable {decorations : List (ParticipantDecoration Class)} {messageHandlers : Class → Option (Record Method)}
variable {container : Container Class Method Handler PlainHandler} {wrapper : InstanceWrapper Class}

theorem lookup_assignAll {α : Type} (topics : List String) (value : α) (topic : String) :
    (assignAll topics value).lookup topic = if topic ∈ topics ∧ topic ≠ "__proto__" then some value else none := by
  have h : ∀ record : Record α,
      (topics.foldl (fun record t => if t = "__proto__" then record else record.insert t value) record).lookup topic =
        if topic ∈ topics ∧ topic ≠ "__proto__" then some value else record.lookup topic := by
    induction topics with
    | nil => simp
    | cons t topics ih =>
      intro record
      rw [List.foldl_cons, ih]
      by_cases ht : topic = t
      · subst ht
        by_cases hp : topic = "__proto__"
        · simp [hp]
        · simp [hp]
      · by_cases hp : t = "__proto__"
        · rw [if_pos hp]
          simp [ht]
        · rw [if_neg hp]
          simp [ht, AList.lookup_insert_ne ht]
  exact h ∅

/-- A record without keys has nothing. -/
theorem getD_ite_keys {α : Type} (record : Record α) :
    (if 0 < record.keys.length then some record else none).getD ∅ = record := by
  split
  · rfl
  · rename_i h
    have hnil : record.entries = [] := by simpa [AList.keys, List.keys] using h
    exact AList.ext hnil.symm

/-- The participant that is found for a provider. -/
theorem discover_eq_some (hR : R.Lawful hierarchy metadata) (hw : ∀ c, wrapper.metatype = some c → c ∈ hierarchy.nodes)
    {p : Participant Handler PlainHandler} :
    discover R (decorate R metadata decorations) messageHandlers container wrapper = some p ↔
      ∃ c topics inst, wrapper.metatype = some c ∧ effectiveTopics hierarchy decorations c = some topics ∧
        container.resolve c = some inst ∧
        p = participantOf R (decorate R metadata decorations) messageHandlers container c inst ∧
        ¬ (p.on.keys.length = 0 ∧ p.plain.keys.length = 0) := by
  unfold discover
  cases hm : wrapper.metatype with
  | none => simp
  | some c =>
    obtain ⟨hp, -, -⟩ := getMetadata_decorate decorations hR (hw c hm)
    dsimp only
    rw [hp]
    constructor
    · intro h
      cases ht : effectiveTopics hierarchy decorations c with
      | none => rw [ht] at h; cases h
      | some topics =>
        rw [ht] at h
        cases hr : container.resolve c with
        | none => simp [hr] at h
        | some inst =>
          simp only [Option.map_some, hr] at h
          split at h
          · cases h
          · rename_i hne
            cases h
            exact ⟨c, topics, inst, rfl, ht, hr, rfl, hne⟩
    · rintro ⟨c', topics, inst, heq, ht, hr, rfl, hne⟩
      cases heq
      simp only [ht, hr, Option.map_some, if_neg hne]

section ParticipantOf

variable {c : Class} {topics : List String} {inst : Instance Method Handler PlainHandler} {topic : String}

variable (messageHandlers container) in
/-- `handle` is registered for the topics of the class. -/
theorem lookup_on (hR : R.Lawful hierarchy metadata) (hc : c ∈ hierarchy.nodes)
    (ht : effectiveTopics hierarchy decorations c = some topics) (handle : Handler) :
    (participantOf R (decorate R metadata decorations) messageHandlers container c inst).on.lookup topic = some handle ↔
      inst.handle = some handle ∧ topic ∈ topics ∧ topic ≠ "__proto__" := by
  obtain ⟨-, htopics, -⟩ := getMetadata_decorate decorations hR hc
  rw [ht] at htopics
  unfold participantOf
  cases hi : inst.handle with
  | none => simp
  | some h =>
    simp only [Option.elim_some, htopics, Option.getD_some, lookup_assignAll, Option.some_inj]
    by_cases hmem : topic ∈ topics ∧ topic ≠ "__proto__"
    · simp [hmem]
    · simp [hmem]

/-- With them the options of the class, if one of the two is set. -/
theorem optionsOf_participantOf (hR : R.Lawful hierarchy metadata) (hc : c ∈ hierarchy.nodes)
    (ht : effectiveTopics hierarchy decorations c = some topics) {handle : Handler} (hi : inst.handle = some handle)
    (hmem : topic ∈ topics ∧ topic ≠ "__proto__") :
    (participantOf R (decorate R metadata decorations) messageHandlers container c inst).optionsOf topic =
      (effectiveOptions hierarchy decorations c).filter fun options => finalOrFork (some options) := by
  obtain ⟨-, htopics, hoptions⟩ := getMetadata_decorate decorations hR hc
  rw [ht] at htopics
  have hget : ∀ record : Record HandlerConfig,
      (if 0 < record.keys.length then some record else none).bind (·.lookup topic) = record.lookup topic := by
    intro record
    conv_rhs => rw [← getD_ite_keys record]
    split <;> rfl
  unfold Participant.optionsOf participantOf
  rw [hget]
  simp only [hi, hoptions, htopics, Option.getD_some]
  cases effectiveOptions hierarchy decorations c with
  | none => rfl
  | some options =>
    simp only [Option.filter]
    split
    · rw [lookup_assignAll, if_pos hmem]
    · rfl

omit [DecidableEq Class] in
theorem plain_participantOf :
    (participantOf R (decorate R metadata decorations) messageHandlers container c inst).plain =
      onPlain inst.method (messageHandlers c) := getD_ite_keys _

end ParticipantOf

theorem keys_ne_nil {α : Type} {record : Record α} {topic : String} {value : α} (h : record.lookup topic = some value) :
    record.keys.length ≠ 0 := by
  intro h0
  have hmem : topic ∈ record := AList.lookup_isSome.1 (h ▸ rfl)
  rw [AList.mem_keys, List.length_eq_zero_iff.1 h0] at hmem
  cases hmem

/-- The providers that serve a topic are those that are registered with a handler for it. -/
theorem serves_iff (hR : R.Lawful hierarchy metadata) (hw : ∀ c, wrapper.metatype = some c → c ∈ hierarchy.nodes)
    {topic : String} {handle : Handler} :
    Serves hierarchy decorations container wrapper topic handle ↔
      ∃ p, discover R (decorate R metadata decorations) messageHandlers container wrapper = some p ∧
        p.on.lookup topic = some handle := by
  constructor
  · rintro ⟨c, topics, inst, hm, ht, hr, hi, hmem⟩
    have hl := (lookup_on messageHandlers container hR (hw c hm) ht handle).2 ⟨hi, hmem⟩
    exact ⟨_, (discover_eq_some hR hw).2 ⟨c, topics, inst, hm, ht, hr, rfl, fun h => keys_ne_nil hl h.1⟩, hl⟩
  · rintro ⟨p, hp, hl⟩
    obtain ⟨c, topics, inst, hm, ht, hr, rfl, -⟩ := (discover_eq_some hR hw).1 hp
    obtain ⟨hi, hmem⟩ := (lookup_on messageHandlers container hR (hw c hm) ht handle).1 hl
    exact ⟨c, topics, inst, hm, ht, hr, hi, hmem⟩

section Plain

variable {MapStore : Type} {RM : ReflectMetadata Class MapStore} {maps : MapStore} {program : Program Class Method}

/-- Where no class writes into the map of its base what that does not have, the providers that serve a plain topic are
those that are registered with a method for it. -/
theorem servesPlain_iff (hR : R.Lawful program.hierarchy metadata) (hRM : RM.Lawful program.hierarchy maps)
    (hrep : Repeats program) (hw : ∀ c, wrapper.metatype = some c → c ∈ program.hierarchy.nodes) {topic : String}
    {method : PlainHandler} :
    ServesPlain decorations container program wrapper topic method ↔
      ∃ p, discover R (decorate R metadata decorations) (messageHandlerMap RM (evaluate RM maps program.decorations))
          container wrapper = some p ∧ p.plain.lookup topic = some method := by
  have hplain : ∀ c, wrapper.metatype = some c → ∀ inst : Instance Method Handler PlainHandler,
      (onPlain inst.method (messageHandlerMap RM (evaluate RM maps program.decorations) c)).lookup topic = some method ↔
        ∃ name, expected program c topic = some name ∧ inst.method name = some method ∧ topic ≠ "__proto__" := by
    intro c hm inst
    rw [lookup_onPlain, ← methodFor_eq_expected hRM hrep (hw c hm) topic]
    rfl
  constructor
  · rintro ⟨c, topics, inst, name, hm, ht, hr, he, hb, hp⟩
    have hl := (hplain c hm inst).2 ⟨name, he, hb, hp⟩
    rw [← plain_participantOf] at hl
    exact ⟨_, (discover_eq_some hR hw).2 ⟨c, topics, inst, hm, ht, hr, rfl, fun h => keys_ne_nil hl h.2⟩, hl⟩
  · rintro ⟨p, hp, hl⟩
    obtain ⟨c, topics, inst, hm, ht, hr, rfl, -⟩ := (discover_eq_some hR hw).1 hp
    rw [plain_participantOf] at hl
    obtain ⟨name, he, hb, hp⟩ := (hplain c hm inst).1 hl
    exact ⟨c, topics, inst, name, hm, ht, hr, he, hb, hp⟩

end Plain

/-- A topic is registered with the options of its provider. -/
theorem optionsOf_discover (hR : R.Lawful hierarchy metadata) (hw : ∀ c, wrapper.metatype = some c → c ∈ hierarchy.nodes)
    {p : Participant Handler PlainHandler} {topic : String} {handle : Handler}
    (hp : discover R (decorate R metadata decorations) messageHandlers container wrapper = some p)
    (hl : p.on.lookup topic = some handle) : p.optionsOf topic = optionsFor hierarchy decorations wrapper := by
  obtain ⟨c, topics, inst, hm, ht, hr, rfl, -⟩ := (discover_eq_some hR hw).1 hp
  obtain ⟨hi, hmem⟩ := (lookup_on messageHandlers container hR (hw c hm) ht handle).1 hl
  rw [optionsOf_participantOf hR (hw c hm) ht hi hmem]
  unfold optionsFor
  rw [hm]
  rfl

end Discover

/-! ## The start -/

theorem thrown_iff (participants : List (Participant Handler PlainHandler)) (options : SagaRunner.StartOptions)
    (connects subscribes : Bool) :
    (∃ e, (SagaRunner.start participants options connects subscribes).result = .thrown e) ↔
      ∃ topic, Conflict participants topic := by
  rw [← buildRouteMap_error_iff]
  unfold SagaRunner.start SagaRunner.startRouteMap
  cases buildRouteMap participants with
  | error e => exact iff_of_true ⟨e, rfl⟩ ⟨e, rfl⟩
  | ok map =>
    refine iff_of_false ?_ fun ⟨e, he⟩ => nomatch he
    rintro ⟨e, he⟩
    cases connects with
    | false => cases he
    | true =>
      simp only [bind, Except.bind, pure, Except.pure, Bool.not_true, Bool.false_eq_true, if_false] at he
      split at he
      · cases subscribes <;> cases he
      · cases he

/-- The map that is read is that of the registry with the prefix in front. -/
theorem routeMap_start {participants : List (Participant Handler PlainHandler)} {options : SagaRunner.StartOptions}
    {connects subscribes : Bool} {map : RouteMap Handler PlainHandler}
    (h : (SagaRunner.start participants options connects subscribes).routeMap = some map) :
    ∃ base, buildRouteMap participants = .ok base ∧ map = SagaRunner.prefixed (options.topicPrefix.getD "") base := by
  unfold SagaRunner.start SagaRunner.startRouteMap at h
  cases hb : buildRouteMap participants with
  | error e =>
    rw [hb] at h
    cases h
  | ok base =>
    refine ⟨base, rfl, ?_⟩
    simp only [hb, bind, Except.bind, pure, Except.pure] at h
    split at h
    · exact (Option.some.inj h).symm
    · split at h <;> exact (Option.some.inj h).symm

/-- Without a conflict no two participants share a topic of one kind, and no saga handler is both final and fork. -/
theorem no_conflict_iff (participants : List (Participant Handler PlainHandler)) :
    (¬ ∃ topic, Conflict participants topic) ↔
      (participants.Pairwise fun p q =>
        (∀ topic, ¬ (topic ∈ p.on ∧ topic ∈ q.on)) ∧ ∀ topic, ¬ (topic ∈ p.plain ∧ topic ∈ q.plain)) ∧
      ∀ p ∈ participants, ∀ topic ∈ p.on, finalAndFork (p.optionsOf topic) = false := by
  rw [List.pairwise_iff_forall_sublist]
  constructor
  · intro h
    refine ⟨fun {p q} hsub => ⟨fun topic ht => ?_, fun topic ht => ?_⟩, fun p hp topic ht => ?_⟩
    · exact h ⟨topic, .inl ⟨p, q, hsub, ht.1, ht.2⟩⟩
    · exact h ⟨topic, .inr (.inl ⟨p, q, hsub, ht.1, ht.2⟩)⟩
    · exact Bool.of_not_eq_true fun hbad => h ⟨topic, .inr (.inr ⟨p, hp, ht, hbad⟩)⟩
  · rintro ⟨hpair, hvalid⟩ ⟨topic, ⟨p, q, hsub, hp, hq⟩ | ⟨p, q, hsub, hp, hq⟩ | ⟨p, hp, hon, hbad⟩⟩
    · exact (hpair hsub).1 topic ⟨hp, hq⟩
    · exact (hpair hsub).2 topic ⟨hp, hq⟩
    · rw [hvalid p hp topic hon] at hbad
      cases hbad

theorem mem_iff_lookup {α : Type} {record : Record α} {topic : String} :
    topic ∈ record ↔ ∃ value, record.lookup topic = some value := by
  rw [← AList.lookup_isSome, Option.isSome_iff_exists]

section Start

variable {MapStore : Type} {R : Reflect Class Store} {RM : ReflectMetadata Class MapStore} {metadata : Store}
variable {maps : MapStore} {program : Program Class Method} {decorations : List (ParticipantDecoration Class)}
variable {container : Container Class Method Handler PlainHandler} {providers : List (InstanceWrapper Class)}

/-- Where `@MessageHandler` does not leak, the registry throws no error exactly when no two providers, not even the same
class in two modules, have a handler of one kind for a topic and no provider is both final and fork; and then every
topic is routed to the provider that serves it, with the options of its class. -/
theorem discovery_correct (hR : R.Lawful program.hierarchy metadata) (hRM : RM.Lawful program.hierarchy maps)
    (hrep : Repeats program) (hw : ∀ w ∈ providers, ∀ c, w.metatype = some c → c ∈ program.hierarchy.nodes)
    (options : SagaRunner.StartOptions) (connects subscribes : Bool) :
    let started := SagaRunnerProvider.onModuleInit R (decorate R metadata decorations)
      (messageHandlerMap RM (evaluate RM maps program.decorations)) container providers options connects subscribes
    let serves := Serves program.hierarchy decorations container
    let servesPlain := ServesPlain decorations container program
    ((∀ e, started.result ≠ .thrown e) ↔
      (providers.Pairwise fun w w' => (∀ topic handle handle', serves w topic handle → ¬ serves w' topic handle') ∧
        ∀ topic method method', servesPlain w topic method → ¬ servesPlain w' topic method') ∧
      ∀ w ∈ providers, ∀ topic handle, serves w topic handle →
        finalAndFork (optionsFor program.hierarchy decorations w) = false) ∧
    ∀ map, started.routeMap = some map → ∀ topic,
      let entry := SagaRegistry.existing map (options.topicPrefix.getD "" ++ topic)
      (∀ handle, (∃ p, entry.sagaHandler = some ⟨p, handle⟩) ↔ ∃ w ∈ providers, serves w topic handle) ∧
      (∀ method, (∃ p, entry.plainHandler = some ⟨p, method⟩) ↔ ∃ w ∈ providers, servesPlain w topic method) ∧
      ∀ w ∈ providers, ∀ handle, serves w topic handle →
        entry.sagaOptions = optionsFor program.hierarchy decorations w := by
  intro started serves servesPlain
  let found := discover R (decorate R metadata decorations)
    (messageHandlerMap RM (evaluate RM maps program.decorations)) container
  have hserves : ∀ w ∈ providers, ∀ {topic handle}, serves w topic handle ↔
      ∃ p, found w = some p ∧ p.on.lookup topic = some handle := fun w hmem => serves_iff hR (hw w hmem)
  have hplain : ∀ w ∈ providers, ∀ {topic method}, servesPlain w topic method ↔
      ∃ p, found w = some p ∧ p.plain.lookup topic = some method := fun w hmem => servesPlain_iff hR hRM hrep (hw w hmem)
  constructor
  · have hthrown : (∀ e, started.result ≠ .thrown e) ↔ ¬ ∃ topic, Conflict (providers.filterMap found) topic := by
      rw [← thrown_iff _ options connects subscribes, not_exists]
      rfl
    rw [hthrown, no_conflict_iff, List.pairwise_filterMap]
    refine and_congr (List.Pairwise.iff_of_mem fun {w w'} hmem hmem' => ?_) ?_
    · constructor
      · intro h
        refine ⟨fun topic handle handle' h1 h2 => ?_, fun topic method method' h1 h2 => ?_⟩
        · obtain ⟨p, hp, hl⟩ := (hserves w hmem).1 h1
          obtain ⟨p', hp', hl'⟩ := (hserves w' hmem').1 h2
          exact (h p hp p' hp').1 topic ⟨mem_iff_lookup.2 ⟨_, hl⟩, mem_iff_lookup.2 ⟨_, hl'⟩⟩
        · obtain ⟨p, hp, hl⟩ := (hplain w hmem).1 h1
          obtain ⟨p', hp', hl'⟩ := (hplain w' hmem').1 h2
          exact (h p hp p' hp').2 topic ⟨mem_iff_lookup.2 ⟨_, hl⟩, mem_iff_lookup.2 ⟨_, hl'⟩⟩
      · intro h p hp p' hp'
        refine ⟨fun topic ht => ?_, fun topic ht => ?_⟩
        · obtain ⟨handle, hl⟩ := mem_iff_lookup.1 ht.1
          obtain ⟨handle', hl'⟩ := mem_iff_lookup.1 ht.2
          exact h.1 topic handle handle' ((hserves w hmem).2 ⟨p, hp, hl⟩) ((hserves w' hmem').2 ⟨p', hp', hl'⟩)
        · obtain ⟨method, hl⟩ := mem_iff_lookup.1 ht.1
          obtain ⟨method', hl'⟩ := mem_iff_lookup.1 ht.2
          exact h.2 topic method method' ((hplain w hmem).2 ⟨p, hp, hl⟩) ((hplain w' hmem').2 ⟨p', hp', hl'⟩)
    · constructor
      · intro h w hmem topic handle hs
        obtain ⟨p, hp, hl⟩ := (hserves w hmem).1 hs
        rw [← optionsOf_discover hR (hw w hmem) hp hl]
        exact h p (List.mem_filterMap.2 ⟨w, hmem, hp⟩) topic (mem_iff_lookup.2 ⟨handle, hl⟩)
      · intro h p hp topic ht
        obtain ⟨w, hmem, hp⟩ := List.mem_filterMap.1 hp
        obtain ⟨handle, hl⟩ := mem_iff_lookup.1 ht
        rw [optionsOf_discover hR (hw w hmem) hp hl]
        exact h w hmem topic handle ((hserves w hmem).2 ⟨p, hp, hl⟩)
  · intro map hmap topic entry
    obtain ⟨base, hbase, rfl⟩ := routeMap_start hmap
    have hentry : entry = SagaRegistry.existing base topic := by
      show SagaRegistry.existing _ _ = _
      unfold SagaRegistry.existing
      rw [SagaRunner.lookup_prefixed]
    have hrep := represents_buildRouteMap hbase
    have hsaga : ∀ handle, (∃ p, entry.sagaHandler = some ⟨p, handle⟩) ↔ ∃ w ∈ providers, serves w topic handle := by
      intro handle
      simp only [hentry, hrep.saga, saga_mem_iff, List.mem_filterMap]
      constructor
      · rintro ⟨p, ⟨w, hmem, hp⟩, hl⟩
        exact ⟨w, hmem, (hserves w hmem).2 ⟨p, hp, hl⟩⟩
      · rintro ⟨w, hmem, hs⟩
        obtain ⟨p, hp, hl⟩ := (hserves w hmem).1 hs
        exact ⟨p, ⟨w, hmem, hp⟩, hl⟩
    refine ⟨hsaga, fun method => ?_, fun w hmem handle hs => ?_⟩
    · simp only [hentry, hrep.plain, plain_mem_iff, List.mem_filterMap]
      constructor
      · rintro ⟨p, ⟨w, hmem, hp⟩, hl⟩
        exact ⟨w, hmem, (hplain w hmem).2 ⟨p, hp, hl⟩⟩
      · rintro ⟨w, hmem, hs⟩
        obtain ⟨p, hp, hl⟩ := (hplain w hmem).1 hs
        exact ⟨p, ⟨w, hmem, hp⟩, hl⟩
    · obtain ⟨p, hp, hl⟩ := (hserves w hmem).1 hs
      have hreg := (hrep.saga topic p handle).2 (saga_mem_iff.2 ⟨List.mem_filterMap.2 ⟨w, hmem, hp⟩, hl⟩)
      rw [hentry, hrep.options, hreg]
      exact optionsOf_discover hR (hw w hmem) hp hl

end Start

/-! ## A participant with a base that forks -/

/-- reflect-metadata over the metadata of each class by key. -/
def reflectParticipants (hierarchy : Forest Class) : Reflect Class (ParticipantKey → Class → Option ParticipantMetadata) where
  getMetadata s key c := (prototypeChain hierarchy c).findSome? (s key)
  getOwnMetadata s key c := s key c
  defineMetadata s key value c := fun key' c' => if key' = key ∧ c' = c then some value else s key' c'

theorem reflectParticipants_lawful (hierarchy : Forest Class) :
    (reflectParticipants hierarchy).Lawful hierarchy fun _ _ => none :=
  ⟨fun _ _ => rfl, fun _ _ _ _ => rfl, fun _ _ _ _ _ _ => rfl⟩

/-- A participant derived from one that forks, decorated with other topics and no options. Both name a method for one
plain topic. -/
def derivedProgram : Program String String where
  hierarchy := [("RefundsParticipant", some "OrdersParticipant"), ("OrdersParticipant", none)]
  grown := ⟨by decide, by decide, by decide, by simp, trivial⟩
  decorations := [⟨"OrdersParticipant", ["audit.legacy"], "audit"⟩, ⟨"RefundsParticipant", ["audit.legacy"], "audit"⟩]
  targets := by decide
  baseFirst := by decide

theorem derivedProgram_repeats : Repeats derivedProgram := by
  have hrep : ∀ e ∈ derivedProgram.decorations, ∀ t ∈ top derivedProgram.hierarchy derivedProgram.decorations e.target,
      t ≠ e.target → ∀ topic ∈ e.topics, declared derivedProgram.decorations t topic = some e.propertyKey := by decide
  exact hrep

def derivedDecorations : List (ParticipantDecoration String) :=
  [⟨"OrdersParticipant", .inl "order.placed", some ⟨none, some (.flag true)⟩⟩,
    ⟨"RefundsParticipant", .inr ["refund.requested"], none⟩]

/-- Only the derived participant has the method. -/
def derivedContainer : Container String String String String :=
  ⟨id, fun c => some ⟨some c, fun name => if c = "RefundsParticipant" ∧ name = "audit" then some name else none⟩⟩

/-- It forks too, and the plain topic is routed to it. -/
theorem discovery_correct_sample :
    let R := reflectParticipants derivedProgram.hierarchy
    let RM := reflect derivedProgram.hierarchy
    let started := SagaRunnerProvider.onModuleInit R (decorate R (fun _ _ => none) derivedDecorations)
      (messageHandlerMap RM (evaluate RM (fun _ => none) derivedProgram.decorations)) derivedContainer
      [⟨some "OrdersParticipant"⟩, ⟨none⟩, ⟨some "RefundsParticipant"⟩] ⟨⟨none, none⟩, "group", none⟩ true true
    ∃ map, started.routeMap = some map ∧
      (SagaRegistry.existing map "refund.requested").sagaOptions = some ⟨none, some (.flag true)⟩ ∧
      ∃ p, (SagaRegistry.existing map "audit.legacy").plainHandler = some ⟨p, "audit"⟩ := by
  intro R RM started
  obtain ⟨map, hmap⟩ : ∃ map, started.routeMap = some map := Option.isSome_iff_exists.1 (by decide)
  have hw : ∀ w ∈ [⟨some "OrdersParticipant"⟩, ⟨none⟩, (⟨some "RefundsParticipant"⟩ : InstanceWrapper String)],
      ∀ c, w.metatype = some c → c ∈ derivedProgram.hierarchy.nodes := by
    decide
  obtain ⟨-, hroutes⟩ := discovery_correct (reflectParticipants_lawful derivedProgram.hierarchy)
    (reflect_lawful derivedProgram.hierarchy) derivedProgram_repeats hw ⟨⟨none, none⟩, "group", none⟩ true true
  obtain ⟨-, -, hoptions⟩ := hroutes map hmap "refund.requested"
  obtain ⟨-, hplain, -⟩ := hroutes map hmap "audit.legacy"
  have hforks := hoptions ⟨some "RefundsParticipant"⟩ (by simp) "RefundsParticipant"
    ⟨"RefundsParticipant", ["refund.requested"], _, rfl, rfl, rfl, rfl, by simp, by decide⟩
  exact ⟨map, hmap, hforks, (hplain "audit").2 ⟨⟨some "RefundsParticipant"⟩, by simp, "RefundsParticipant",
    ["refund.requested"], _, "audit", rfl, rfl, rfl, rfl, rfl, by decide⟩⟩

end Saga.Nest
