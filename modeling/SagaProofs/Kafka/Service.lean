/-
`processBatch`, the runner that handles each message and `KafkaTransport.disconnect` as one system:
each key group awaits the handling of its message, the hooks of a handling emit through the producer,
and `stop()` disconnects the producer first and then the consumer.
-/
import SagaProofs.Core.Runner
import SagaProofs.Kafka.Settle

namespace Saga.Kafka

open Lts

variable {Buffer ρ ε : Type}

/-! ## A batch, its handlers and the disconnect -/

/-- What a hook throws besides retryable errors: the error of a `producer.send` that was refused
because the producer is disconnected, or another. -/
inductive HookError (ε : Type)
  | disconnected
  | other (error : ε)

/-- The handling of the message a group awaits: its position, the hooks of the participant, where the
runner stands, and whether a send of the call in progress was refused. -/
structure Handling (ρ ε : Type) where
  pos : ℕ
  hooks : Hooks
  phase : RunnerPhase ρ (HookError ε)
  refused : Bool

/-- How far `disconnect` has come: not called, at `producer.disconnect()`, at
`consumer.disconnect()`, or fulfilled. -/
inductive DisconnectPhase
  | notCalled
  | producer
  | consumer
  | fulfilled
  deriving DecidableEq

/-- What happens in the batch, the call of `stop()`, the sends that fulfil and those that are refused,
a hook that throws the error of a refused send, and the end of `stop()`. -/
inductive ServiceEvent
  | batch (e : Event)
  | stop
  | sent (pos : ℕ)
  | refused (pos : ℕ)
  | failed (pos : ℕ)
  | stopped
  deriving DecidableEq

/-- A `processBatch` call, the handling of each group that awaits one, and `disconnect`. -/
structure ServiceState (Buffer ρ ε : Type) where
  batch : BatchState Buffer
  handlings : List (Option (Handling ρ ε))
  disconnect : DisconnectPhase
  log : List ServiceEvent

/-- A step of the batch but the end of a handler; a send by the hook in progress of a group, which the
broker acknowledges or not; the outcome of this hook; the end of a sleep; the end of a handler; and
the steps of `stop()`. -/
inductive ServiceAct (ρ ε : Type)
  | batch (a : Act)
  | emit (g : ℕ) (acknowledged : Bool)
  | settle (g : ℕ) (outcome : Outcome ρ (HookError ε))
  | wake (g : ℕ)
  | done (g : ℕ)
  | stop
  | producerDisconnected
  | consumerDisconnected

/-- The action is the end of a handler. -/
def Act.endsHandler : Act → Bool
  | .fulfil _ => true
  | .reject _ => true
  | _ => false

/-- The outcome is a rejection with the error of a refused send. -/
def throwsRefusal : Outcome ρ (HookError ε) → Bool
  | .error (.other .disconnected) => true
  | _ => false

/-- The producer has not been disconnected. -/
def ServiceState.connected (s : ServiceState Buffer ρ ε) : Bool :=
  match s.disconnect with
  | .notCalled => true
  | .producer => true
  | _ => false

/-- Group `g` has the handling `h`, with the given events. -/
def ServiceState.put (s : ServiceState Buffer ρ ε) (g : ℕ) (h : Option (Handling ρ ε)) (events : List ServiceEvent) :
    ServiceState Buffer ρ ε :=
  { s with
    handlings := s.handlings.set g h
    log := s.log ++ events }

/-- The batch becomes `b`. -/
def ServiceState.advance (s : ServiceState Buffer ρ ε) (b : BatchState Buffer) : ServiceState Buffer ρ ε :=
  { s with
    batch := b
    log := s.log ++ (b.log.drop s.batch.log.length).map .batch }

section Service

variable (str : Buffer → String) (opts : KafkaTransportOptions) (batch : Batch Buffer)
variable (env : ParseEnv) (routeMap : String → Option (RouteEntry Hooks Unit)) (options : RunnerOptions)

/-- The handling of a message begins: the runner goes up to its first await. -/
def Handling.begin (e : Entry Buffer) : Handling ρ ε :=
  let (hooks, phase) := Saga.begin options env routeMap (toInbound str batch e.1)
  ⟨e.2, hooks, phase, false⟩

/-- One step. The groups are launched in one synchronous stretch, in which nothing else happens: a run begins with the
batch, and `stop()` is called and the producer is disconnected when it has begun. -/
def serviceStep (s : ServiceState Buffer ρ ε) : ServiceAct ρ ε → Option (ServiceState Buffer ρ ε)
  | .batch a =>
    if a.endsHandler then none
    else
      match step str opts batch s.batch a with
      | some b =>
        match s.batch.target a with
        | some g =>
          match b.groups[g]? with
          | some ⟨.handling e, _⟩ => some ((s.advance b).put g (some (.begin str batch env routeMap options e)) [])
          | _ => some (s.advance b)
        | none => some (s.advance b)
      | none => none
  | .emit g acknowledged =>
    match s.handlings[g]? with
    | some (some ⟨pos, hooks, .calling hook attempt, refused⟩) =>
      -- a failure at the broker is not one of the stop, and the hook may throw it on as its own error
      if s.connected then
        some (s.put g (some ⟨pos, hooks, .calling hook attempt, refused⟩) (if acknowledged then [.sent pos] else []))
      else some (s.put g (some ⟨pos, hooks, .calling hook attempt, true⟩) [.refused pos])
    | _ => none
  | .settle g outcome =>
    if s.batch.launched then
      match s.handlings[g]? with
      | some (some ⟨pos, hooks, .calling hook attempt, refused⟩) =>
        let next := some ⟨pos, hooks, settle options hooks hook attempt outcome, false⟩
        if throwsRefusal outcome then
          -- the error comes from a send of this call
          if refused then some (s.put g next [.failed pos]) else none
        else some (s.put g next [])
      | _ => none
    else none
  | .wake g =>
    if s.batch.launched then
      match s.handlings[g]? with
      | some (some ⟨pos, hooks, .sleeping hook attempt, _⟩) =>
        some (s.put g (some ⟨pos, hooks, enter options hook attempt, false⟩) [])
      | _ => none
    else none
  | .done g =>
    -- what the promise of `handleMessage` comes to is what `processBatch` awaits
    match s.handlings[g]? with
    | some (some ⟨_, _, .settled (.ok ()), _⟩) =>
      (step str opts batch s.batch (.fulfil g)).map fun b => (s.advance b).put g none []
    | some (some ⟨_, _, .settled (.error _), _⟩) =>
      (step str opts batch s.batch (.reject g)).map fun b => (s.advance b).put g none []
    | _ => none
  | .stop =>
    if s.batch.launched ∧ s.disconnect = .notCalled then
      some { s with disconnect := .producer, log := s.log ++ [.stop] }
    else none
  | .producerDisconnected =>
    if s.batch.launched ∧ s.disconnect = .producer then some { s with disconnect := .consumer } else none
  | .consumerDisconnected =>
    -- waits for the promise of `eachBatch`
    if s.disconnect = .consumer ∧ promiseAll s.batch.groups ≠ none then
      some { s with disconnect := .fulfilled, log := s.log ++ [.stopped] }
    else none

def serviceInit : ServiceState Buffer ρ ε :=
  { batch := init str batch
    handlings := (batch.groups str).map fun _ => none
    disconnect := .notCalled
    log := (init str batch).log.map .batch }

/-! ## What a step can do -/

/-- The moves of the service. -/
inductive ServiceMove (s : ServiceState Buffer ρ ε) : ServiceAct ρ ε → ServiceState Buffer ρ ε → Prop
  | batch {a b} : a.endsHandler = false → step str opts batch s.batch a = some b →
      (∀ g e todo, s.batch.target a = some g → b.groups[g]? ≠ some ⟨.handling e, todo⟩) →
      ServiceMove s (.batch a) (s.advance b)
  | start {a b g e todo} : a.endsHandler = false → step str opts batch s.batch a = some b →
      s.batch.target a = some g → b.groups[g]? = some ⟨.handling e, todo⟩ →
      ServiceMove s (.batch a) ((s.advance b).put g (some (.begin str batch env routeMap options e)) [])
  | emit {g acknowledged h hook attempt} : s.handlings[g]? = some (some h) → h.phase = .calling hook attempt →
      s.connected = true →
      ServiceMove s (.emit g acknowledged) (s.put g (some h) (if acknowledged then [.sent h.pos] else []))
  | refuse {g acknowledged h hook attempt} : s.handlings[g]? = some (some h) → h.phase = .calling hook attempt →
      s.connected = false →
      ServiceMove s (.emit g acknowledged) (s.put g (some { h with refused := true }) [.refused h.pos])
  | settle {g outcome h hook attempt} : s.handlings[g]? = some (some h) → h.phase = .calling hook attempt →
      (throwsRefusal outcome = true → h.refused = true) →
      ServiceMove s (.settle g outcome)
        (s.put g (some { h with phase := settle options h.hooks hook attempt outcome, refused := false })
          (if throwsRefusal outcome then [.failed h.pos] else []))
  | wake {g h hook attempt} : s.handlings[g]? = some (some h) → h.phase = .sleeping hook attempt →
      ServiceMove s (.wake g) (s.put g (some { h with phase := enter options hook attempt, refused := false }) [])
  | done {g h outcome a b} : s.handlings[g]? = some (some h) → h.phase = .settled outcome →
      a = .fulfil g ∨ a = .reject g → step str opts batch s.batch a = some b →
      ServiceMove s (.done g) ((s.advance b).put g none [])
  | stop : s.disconnect = .notCalled →
      ServiceMove s .stop { s with disconnect := .producer, log := s.log ++ [.stop] }
  | producer : s.batch.launched = true → s.disconnect = .producer →
      ServiceMove s .producerDisconnected { s with disconnect := .consumer }
  | consumer : s.disconnect = .consumer → promiseAll s.batch.groups ≠ none →
      ServiceMove s .consumerDisconnected { s with disconnect := .fulfilled, log := s.log ++ [.stopped] }

variable {str opts batch env routeMap options}
variable {s s' : ServiceState Buffer ρ ε}

theorem serviceStep_move {a : ServiceAct ρ ε} (h : serviceStep str opts batch env routeMap options s a = some s') :
    ServiceMove str opts batch env routeMap options s a s' := by
  cases a with
  | batch a =>
    simp only [serviceStep] at h
    split at h
    · cases h
    · rename_i hend
      rw [Bool.not_eq_true] at hend
      split at h
      · rename_i b hb
        split at h
        · rename_i g hg
          split at h
          · rename_i e todo hgs
            cases h
            exact .start hend hb hg hgs
          · rename_i hno
            cases h
            refine .batch hend hb fun g' e todo hg' heq => ?_
            rw [hg] at hg'
            cases hg'
            exact hno e todo heq
        · rename_i hg
          cases h
          exact .batch hend hb fun g' e todo hg' => by rw [hg] at hg'; cases hg'
      · cases h
  | emit g acknowledged =>
    simp only [serviceStep] at h
    split at h
    · rename_i pos hooks hook attempt refused hg
      split at h
      · rename_i hc
        cases h
        exact .emit hg rfl hc
      · rename_i hc
        cases h
        exact .refuse hg rfl (by simpa using hc)
    · cases h
  | settle g outcome =>
    simp only [serviceStep] at h
    split at h
    · split at h
      · rename_i pos hooks hook attempt refused hg
        have hmove : (throwsRefusal outcome = true → refused = true) →
            ServiceMove str opts batch env routeMap options s (.settle g outcome) _ := .settle hg rfl
        split at h
        · rename_i ht
          split at h
          · rename_i hr
            cases h
            have := hmove fun _ => hr
            rwa [if_pos ht] at this
          · cases h
        · rename_i ht
          cases h
          have := hmove fun h => absurd h ht
          rwa [if_neg ht] at this
      · cases h
    · cases h
  | wake g =>
    simp only [serviceStep] at h
    split at h
    · split at h
      · rename_i pos hooks hook attempt refused hg
        cases h
        exact .wake hg rfl
      · cases h
    · cases h
  | done g =>
    simp only [serviceStep] at h
    split at h
    · rename_i hg
      obtain ⟨b, hb, rfl⟩ := Option.map_eq_some_iff.1 h
      exact .done hg rfl (.inl rfl) hb
    · rename_i hg
      obtain ⟨b, hb, rfl⟩ := Option.map_eq_some_iff.1 h
      exact .done hg rfl (.inr rfl) hb
    · cases h
  | stop =>
    simp only [serviceStep] at h
    split at h
    · rename_i hc
      cases h
      exact .stop hc.2
    · cases h
  | producerDisconnected =>
    simp only [serviceStep] at h
    split at h
    · rename_i hc
      cases h
      exact .producer hc.1 hc.2
    · cases h
  | consumerDisconnected =>
    simp only [serviceStep] at h
    split at h
    · rename_i hc
      cases h
      exact .consumer hc.1 hc.2
    · cases h

/-- A step of the service is one of `processBatch` or leaves the batch as it is. -/
theorem serviceStep_batch {a : ServiceAct ρ ε} (h : serviceStep str opts batch env routeMap options s a = some s') :
    s'.batch = s.batch ∨ ∃ b, step str opts batch s.batch b = some s'.batch := by
  cases serviceStep_move h with
  | batch _ hb => exact .inr ⟨_, hb⟩
  | start _ hb => exact .inr ⟨_, hb⟩
  | done _ _ _ hb => exact .inr ⟨_, hb⟩
  | _ => exact .inl rfl

/-- The batch of a service state is a state of `processBatch`. -/
theorem service_batch_reachable
    (h : Reachable (serviceStep str opts batch env routeMap options) (serviceInit str batch : ServiceState Buffer ρ ε) s) :
    Reachable (step str opts batch) (init str batch) s.batch := by
  refine h.induction (I := fun s => Reachable (step str opts batch) (init str batch) s.batch) ?_ (.refl _)
  intro s a s' hr hs
  rcases serviceStep_batch hs with heq | ⟨b, hb⟩
  · rw [heq]; exact hr
  · exact hr.trans (.head hb (.refl _))

/-! ## Handlings and groups -/

/-- The position of the message a group awaits the handler of. -/
def GroupState.awaits (gs : GroupState Buffer) : Option ℕ :=
  match gs.phase with
  | .handling e => some e.2
  | _ => none

/-- Each group that awaits a handler has the handling of its message, and no other has one. -/
structure Consistent (s : ServiceState Buffer ρ ε) : Prop where
  length : s.handlings.length = s.batch.groups.length
  awaits : ∀ g : ℕ, s.handlings[g]?.join.map (·.pos) = s.batch.groups[g]?.bind (·.awaits)

/-- A handling takes the place of another of the same message. -/
theorem Consistent.put (hc : Consistent s) {g : ℕ} {h h' : Handling ρ ε} (hg : s.handlings[g]? = some (some h))
    (hpos : h'.pos = h.pos) (events : List ServiceEvent) : Consistent (s.put g (some h') events) := by
  refine ⟨by simpa [ServiceState.put] using hc.length, fun g' => ?_⟩
  have hold := hc.awaits g'
  unfold ServiceState.put
  rw [List.getElem?_set]
  split
  · rename_i heq
    subst heq
    rw [hg] at hold
    have hlt := (List.getElem?_eq_some_iff.1 hg).1
    simpa [hlt, hpos] using hold
  · exact hold

/-- A batch step moves its target alone. -/
theorem step_groups {t b : BatchState Buffer} {a : Act} (h : step str opts batch t a = some b) :
    b.groups.length = t.groups.length ∧ ∀ g : ℕ, t.target a ≠ some g → b.groups[g]? = t.groups[g]? := by
  rcases step_cases h with ⟨g', gs, tr, gs', events, ht', hgs, hm, -, rfl⟩ | ⟨ticks, unhandled, htick, rfl⟩
  · refine ⟨List.length_set .., fun g hne => ?_⟩
    exact List.getElem?_set_ne fun heq => hne (by rw [ht', heq])
  · exact ⟨rfl, fun _ _ => rfl⟩

/-- A group moved by anything but the end of a handler awaited none. -/
theorem not_awaits_of_step {t b : BatchState Buffer} {a : Act} {g : ℕ} (h : step str opts batch t a = some b)
    (ht : t.target a = some g) (hend : a.endsHandler = false) : t.groups[g]?.bind (·.awaits) = none := by
  rcases step_cases h with ⟨g', gs, tr, gs', events, ht', hgs, hm, -, -⟩ | ⟨ticks, unhandled, htick, -⟩
  · rw [ht] at ht'
    cases ht'
    rw [hgs]
    cases hm with
    | finish he => cases he <;> rfl
    | stop he => cases he <;> rfl
    | start he => cases he <;> rfl
    | fulfil => cases hend
    | reject => cases hend
    | beatReject => rfl
  · cases htick <;> cases ht

/-- A group whose handler has ended awaits none. -/
theorem not_awaits_of_end {t b : BatchState Buffer} {a : Act} {g : ℕ} (h : step str opts batch t a = some b)
    (ha : a = .fulfil g ∨ a = .reject g) : b.groups[g]?.bind (·.awaits) = none := by
  rcases step_cases h with ⟨g', gs, tr, gs', events, ht, hgs, hm, -, rfl⟩ | ⟨ticks, unhandled, htick, -⟩
  · have hg : g = g' := by rcases ha with rfl | rfl <;> exact Option.some.inj ht
    subst hg
    have hget : ({ t with tracker := tr }.put g gs' events).groups[g]? = some gs' :=
      List.getElem?_set_self (List.getElem?_eq_some_iff.1 hgs).1
    rw [hget]
    rcases ha with rfl | rfl
    · cases hm with
      | fulfil => rfl
      | finish he => cases he
      | stop he => cases he
      | start he => cases he
    · cases hm with
      | reject => rfl
      | finish he => cases he
      | stop he => cases he
      | start he => cases he
  · rcases ha with rfl | rfl <;> cases htick

/-- The batch moves at group `g`, whose handling becomes that of what it awaits now. -/
theorem Consistent.advance (hc : Consistent s) {a : Act} {b : BatchState Buffer} {g : ℕ}
    (hb : step str opts batch s.batch a = some b) (ht : s.batch.target a = some g) {h : Option (Handling ρ ε)}
    (hh : h.map (·.pos) = b.groups[g]?.bind (·.awaits)) (events : List ServiceEvent) :
    Consistent ((s.advance b).put g h events) := by
  obtain ⟨hlen, hsame⟩ := step_groups hb
  refine ⟨by simpa [ServiceState.put, ServiceState.advance, hlen] using hc.length, fun g' => ?_⟩
  unfold ServiceState.put ServiceState.advance
  rw [List.getElem?_set]
  split
  · rename_i heq
    subst heq
    split
    · exact hh
    · rename_i hge
      have hnone : b.groups[g]? = none := by
        rw [List.getElem?_eq_none_iff, hlen, ← hc.length]
        exact Nat.le_of_not_lt hge
      simp [hnone]
  · rename_i hne
    rw [hc.awaits g', hsame g' fun heq => hne (by rw [ht] at heq; exact Option.some.inj heq)]

theorem consistent_step {a : ServiceAct ρ ε} (hc : Consistent s)
    (hstep : serviceStep str opts batch env routeMap options s a = some s') : Consistent s' := by
  cases serviceStep_move hstep with
  | @batch a b hend hb hno =>
    obtain ⟨hlen, hsame⟩ := step_groups hb
    refine ⟨hc.length.trans hlen.symm, fun g => (hc.awaits g).trans ?_⟩
    by_cases ht : s.batch.target a = some g
    · -- the group awaited no handler, and it awaits none now
      rw [not_awaits_of_step hb ht hend]
      symm
      rw [Option.bind_eq_none_iff]
      rintro ⟨ph, todo⟩ hg
      cases ph with
      | handling e => exact absurd hg (hno g e todo ht)
      | _ => rfl
    · rw [← hsame g ht]
      rfl
  | @start a b g e todo hend hb ht hg =>
    refine hc.advance hb ht ?_ []
    rw [hg]
    rfl
  | emit hg => exact hc.put hg rfl _
  | refuse hg => exact hc.put hg (by rfl) _
  | settle hg => exact hc.put hg (by rfl) _
  | wake hg => exact hc.put hg (by rfl) _
  | @done g h outcome a b hg hp ha hb =>
    have ht : s.batch.target a = some g := by rcases ha with rfl | rfl <;> rfl
    refine hc.advance hb ht ?_ []
    rw [not_awaits_of_end hb ha]
    rfl
  | stop => exact ⟨hc.length, hc.awaits⟩
  | producer => exact ⟨hc.length, hc.awaits⟩
  | consumer => exact ⟨hc.length, hc.awaits⟩

theorem consistent_reachable
    (h : Reachable (serviceStep str opts batch env routeMap options) (serviceInit str batch : ServiceState Buffer ρ ε) s) :
    Consistent s := by
  refine h.induction (fun _ _ _ hi hs => consistent_step hi hs) ⟨by simp [serviceInit, init], fun g => ?_⟩
  simp only [serviceInit, init, List.getElem?_map]
  cases (batch.groups str)[g]? <;> rfl

end Service

end Saga.Kafka
