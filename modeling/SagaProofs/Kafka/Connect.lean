/-
`KafkaTransport.subscribe` with the retries of `connectConsumerWithRetry`, and
`KafkaTransport.disconnect`, as one system. Both work on the field `consumer`: an attempt overwrites
it, the clean-up of a failed attempt sets it to null, and `disconnect` reads it once, after the
producer is disconnected. The two operations share nothing else, so a `subscribe` that sleeps between
two attempts does not learn that the transport was disconnected.

What runs between two awaits is one step. A call on a consumer that fulfils changes what the consumer
does, a call that rejects leaves it as it was. `ensureTopicsExist` works on an admin client and
touches no consumer, so it is one await here.
-/
import SagaProofs.Lib.Run

namespace Saga.Kafka

open Lts

/-! ## The transport -/

/-- What a consumer of the transport does. -/
inductive ConsumerStatus
  | created
  | connected
  | running
  | disconnected
  deriving DecidableEq

/-- The consumer is connected or running. -/
def ConsumerStatus.live : ConsumerStatus → Bool
  | .connected => true
  | .running => true
  | _ => false

/-- Where `subscribe` stands: not called, at an await of `ensureTopicsExist`, of an attempt, of the
clean-up of a failed attempt or of the back-off, or settled. At `subscribing` the topics are those
left, the first of them awaited. -/
inductive SubscribePhase
  | idle
  | ensuring
  | connecting (attempt : ℕ)
  | subscribing (attempt : ℕ) (topics : List String)
  | starting (attempt : ℕ)
  | cleaning (attempt : ℕ)
  | sleeping (attempt delay : ℕ)
  | returned
  | threw
  deriving DecidableEq

/-- Where `disconnect` stands: not called, at `producer.disconnect()`, at `disconnect()` of the
consumer it found in the field, rejected, or fulfilled when so many consumers had been created. -/
inductive DisconnectCall
  | notCalled
  | producer
  | consumer (k : ℕ)
  | rejected
  | fulfilled (created : ℕ)
  deriving DecidableEq

/-- The consumers created so far, the field `consumer`, and the two operations. -/
structure TransportState where
  consumers : List ConsumerStatus
  consumer : Option ℕ
  phase : SubscribePhase
  disconnect : DisconnectCall
  deriving DecidableEq

/-- The call of `subscribe`, the end of `ensureTopicsExist`, of a call on the consumer, of the clean-up
and of the back-off, and the call of `disconnect` and the ends of its awaits. Where an attempt begins,
`created` says whether `kafka.consumer` returned. -/
inductive TransportAct
  | subscribe (created : Bool)
  | ensured (ok created : Bool)
  | settled (ok : Bool)
  | cleaned (ok : Bool)
  | wake (created : Bool)
  | disconnect
  | producerSettled (ok : Bool)
  | consumerSettled (ok : Bool)

def transportInit : TransportState := ⟨[], none, .idle, .notCalled⟩

def DisconnectCall.isFulfilled : DisconnectCall → Bool
  | .fulfilled _ => true
  | _ => false

/-- The consumer in the field does `status`. -/
def TransportState.held (s : TransportState) (status : ConsumerStatus) : List ConsumerStatus :=
  match s.consumer with
  | some k => s.consumers.set k status
  | none => s.consumers

/-- The next await of an attempt: the subscription of a topic, or the run. -/
def SubscribePhase.next (attempt : ℕ) : List String → SubscribePhase
  | [] => .starting attempt
  | topics => .subscribing attempt topics

/-- The default of the last parameter of `connectConsumerWithRetry`, which its caller leaves out. -/
def maxAttempts : ℕ := 10

/-- The body of the loop up to its first await. -/
def TransportState.attempt (s : TransportState) (attempt : ℕ) (created : Bool) : TransportState :=
  if attempt ≤ maxAttempts then
    if created then
      { s with
        consumers := s.consumers ++ [.created]
        consumer := some s.consumers.length
        phase := .connecting attempt }
    else { s with phase := .cleaning attempt }
  else { s with phase := .returned }

/-- The delay before the next attempt. -/
def backOff (attempt : ℕ) : ℕ := min (1000 * Nat.pow 2 (attempt - 1)) 10000

/-- The `catch` after the consumer in the field was disconnected, or not. -/
def TransportState.cleanUp (s : TransportState) (attempt : ℕ) (ok : Bool) : TransportState :=
  { s with
    consumers := if ok then s.held .disconnected else s.consumers
    consumer := none
    phase := if attempt = maxAttempts then .threw else .sleeping attempt (backOff attempt) }

section Connect

variable (autoCreateTopics : Bool) (topics : List String)

/-- `subscribe` may also be called when `disconnect` was, for the runner calls it after an await of its own. -/
def transportStep (s : TransportState) (a : TransportAct) : Option TransportState :=
  match a, s.phase with
  | .subscribe created, .idle =>
    if autoCreateTopics then some { s with phase := .ensuring } else some (s.attempt 1 created)
  | .ensured true created, .ensuring => some (s.attempt 1 created)
  | .ensured false _, .ensuring => some { s with phase := .threw }
  | .settled true, .connecting n => some { s with consumers := s.held .connected, phase := .next n topics }
  | .settled true, .subscribing n ts => some { s with phase := .next n ts.tail }
  | .settled true, .starting _ => some { s with consumers := s.held .running, phase := .returned }
  | .settled false, .connecting n => some { s with phase := .cleaning n }
  | .settled false, .subscribing n _ => some { s with phase := .cleaning n }
  | .settled false, .starting n => some { s with phase := .cleaning n }
  | .cleaned ok, .cleaning n => some (s.cleanUp n ok)
  | .wake created, .sleeping n _ => some (s.attempt (n + 1) created)
  | .disconnect, _ => if s.disconnect = .notCalled then some { s with disconnect := .producer } else none
  | .producerSettled ok, _ =>
    if s.disconnect = .producer then
      some { s with
        disconnect :=
          if ok then
            match s.consumer with
            | some k => .consumer k
            | none => .fulfilled s.consumers.length
          else .rejected }
    else none
  | .consumerSettled ok, _ =>
    match s.disconnect with
    | .consumer k =>
      if ok then
        some { s with
          consumers := s.consumers.set k .disconnected
          disconnect := .fulfilled s.consumers.length }
      else some { s with disconnect := .rejected }
    | _ => none
  | _, _ => none

/-! ## What a step does -/

/-- The number of the attempt that the phase awaits a call on the consumer of. -/
def SubscribePhase.trying : SubscribePhase → Option ℕ
  | .connecting n => some n
  | .subscribing n _ => some n
  | .starting n => some n
  | _ => none

/-- The number of the attempt that follows the phase. -/
def SubscribePhase.begins : SubscribePhase → Option ℕ
  | .idle => some 1
  | .ensuring => some 1
  | .sleeping n _ => some (n + 1)
  | _ => none

/-- What a step does and when. -/
inductive TransportMove (s : TransportState) : TransportAct → TransportState → Prop
  | ensure {created : Bool} (hp : s.phase = .idle) :
    TransportMove s (.subscribe created) { s with phase := .ensuring }
  | attempt {a : TransportAct} {n : ℕ} {created : Bool}
    (ha : a = .subscribe created ∧ s.phase = .idle ∨ (a = .ensured true created ∨ a = .wake created) ∧ s.phase ≠ .idle)
    (hp : s.phase.begins = some n) : TransportMove s a (s.attempt n created)
  | refuse {created : Bool} (hp : s.phase = .ensuring) :
    TransportMove s (.ensured false created) { s with phase := .threw }
  | connected {n : ℕ} (hp : s.phase = .connecting n) :
    TransportMove s (.settled true) { s with consumers := s.held .connected, phase := .next n topics }
  | subscribed {n : ℕ} {ts : List String} (hp : s.phase = .subscribing n ts) :
    TransportMove s (.settled true) { s with phase := .next n ts.tail }
  | started {n : ℕ} (hp : s.phase = .starting n) :
    TransportMove s (.settled true) { s with consumers := s.held .running, phase := .returned }
  | failed {n : ℕ} (hp : s.phase.trying = some n) : TransportMove s (.settled false) { s with phase := .cleaning n }
  | cleaned {n : ℕ} {ok : Bool} (hp : s.phase = .cleaning n) : TransportMove s (.cleaned ok) (s.cleanUp n ok)
  | disconnect (hd : s.disconnect = .notCalled) : TransportMove s .disconnect { s with disconnect := .producer }
  | found {k : ℕ} (hd : s.disconnect = .producer) (hc : s.consumer = some k) :
    TransportMove s (.producerSettled true) { s with disconnect := .consumer k }
  | empty (hd : s.disconnect = .producer) (hc : s.consumer = none) :
    TransportMove s (.producerSettled true) { s with disconnect := .fulfilled s.consumers.length }
  | rejected {a : TransportAct} (ha : a = .producerSettled false ∨ a = .consumerSettled false)
    (hd : s.disconnect.isFulfilled = false) : TransportMove s a { s with disconnect := .rejected }
  | fulfilled {k : ℕ} (hd : s.disconnect = .consumer k) :
    TransportMove s (.consumerSettled true)
      { s with
        consumers := s.consumers.set k .disconnected
        disconnect := .fulfilled s.consumers.length }

variable {autoCreateTopics : Bool} {topics : List String}
variable {s s' : TransportState}

theorem transportStep_move {a : TransportAct} (h : transportStep autoCreateTopics topics s a = some s') :
    TransportMove topics s a s' := by
  obtain ⟨consumers, consumer, phase, disconnect⟩ := s
  cases a with
  | subscribe created =>
    cases phase with
    | idle =>
      cases autoCreateTopics with
      | true => simp [transportStep] at h; subst h; exact .ensure rfl
      | false => simp [transportStep] at h; subst h; exact .attempt (.inl ⟨rfl, rfl⟩) rfl
    | _ => cases h
  | ensured ok created =>
    cases phase with
    | ensuring =>
      cases ok with
      | true => cases h; exact .attempt (.inr ⟨.inl rfl, by simp⟩) rfl
      | false => cases h; exact .refuse rfl
    | _ => cases ok <;> cases h
  | settled ok =>
    cases ok with
    | true =>
      cases phase with
      | connecting n => cases h; exact .connected rfl
      | subscribing n ts => cases h; exact .subscribed rfl
      | starting n => cases h; exact .started rfl
      | _ => cases h
    | false =>
      cases phase with
      | connecting n => cases h; exact .failed rfl
      | subscribing n ts => cases h; exact .failed rfl
      | starting n => cases h; exact .failed rfl
      | _ => cases h
  | cleaned ok =>
    cases phase with
    | cleaning n => cases h; exact .cleaned rfl
    | _ => cases h
  | wake created =>
    cases phase with
    | sleeping n delay => cases h; exact .attempt (.inr ⟨.inr rfl, by simp⟩) rfl
    | _ => cases h
  | disconnect =>
    by_cases hd : disconnect = .notCalled
    · simp [transportStep, hd] at h; subst h; exact .disconnect hd
    · simp [transportStep, hd] at h
  | producerSettled ok =>
    by_cases hd : disconnect = .producer
    · cases ok with
      | true =>
        cases consumer with
        | some k => simp [transportStep, hd] at h; subst h; exact .found hd rfl
        | none => simp [transportStep, hd] at h; subst h; exact .empty hd rfl
      | false => simp [transportStep, hd] at h; subst h; exact .rejected (.inl rfl) (by subst hd; rfl)
    · simp [transportStep, hd] at h
  | consumerSettled ok =>
    cases disconnect with
    | consumer k =>
      cases ok with
      | true => simp [transportStep] at h; subst h; exact .fulfilled rfl
      | false => simp [transportStep] at h; subst h; exact .rejected (.inr rfl) rfl
    | _ => simp [transportStep] at h

/-! ## What is to be shown -/

/-- Once `disconnect` has fulfilled no consumer is live and none was created since. -/
def TransportState.Stopped (s : TransportState) : Prop :=
  ∀ n, s.disconnect = .fulfilled n → s.consumers.length = n ∧ ∀ c ∈ s.consumers, c.live = false

/-- `subscribe` begins no further attempt and awaits no call of one. -/
def SubscribePhase.over : SubscribePhase → Bool
  | .idle => true
  | .cleaning n => n == maxAttempts
  | .returned => true
  | .threw => true
  | _ => false

/-- The consumer in the field is live. -/
def TransportState.holdsLive (s : TransportState) : Bool := s.consumer.any fun k => s.consumers[k]?.any (·.live)

/-- `disconnect` awaits the consumer in the field. -/
def TransportState.awaitsHeld (s : TransportState) : Bool := s.consumer.any fun k => s.disconnect = .consumer k

/-- `subscribe` is not called once `disconnect` has fulfilled, a live consumer that cannot be disconnected in a
clean-up is the one that `disconnect` awaits, and `disconnect` fulfils only when `subscribe` is over and has left no
other consumer in the field. -/
def TransportState.Orderly (s : TransportState) : TransportAct → Prop
  | .subscribe _ => s.disconnect.isFulfilled = false
  | .cleaned false => s.holdsLive = true → s.awaitsHeld = true ∨ s.disconnect = .rejected
  | .producerSettled true => s.consumer = none → s.phase.over = true
  | .consumerSettled true => s.phase.over = true ∧ (s.holdsLive = true → s.awaitsHeld = true)
  | _ => True

instance (s : TransportState) : DecidablePred s.Orderly
  | .cleaned false => inferInstanceAs (Decidable (_ → _))
  | .producerSettled true => inferInstanceAs (Decidable (_ → _))
  | .consumerSettled true => inferInstanceAs (Decidable (_ ∧ _))
  | .subscribe _ => inferInstanceAs (Decidable (_ = _))
  | .ensured _ _ => .isTrue trivial
  | .settled _ => .isTrue trivial
  | .cleaned true => .isTrue trivial
  | .wake _ => .isTrue trivial
  | .disconnect => .isTrue trivial
  | .producerSettled false => .isTrue trivial
  | .consumerSettled false => .isTrue trivial

/-! ## Orderly runs -/

/-- What the phase says about the field and about the number of the attempt. -/
structure Shape (s : TransportState) : Prop where
  free : ∀ n, s.phase.begins = some n → s.consumer = none ∧ n ≤ maxAttempts
  held : ∀ n, s.phase.trying = some n → (∃ k < s.consumers.length, s.consumer = some k) ∧ n ≤ maxAttempts
  cleaning : ∀ n, s.phase = .cleaning n → n ≤ maxAttempts

/-- A live consumer is in the field or awaited by `disconnect`, unless this was rejected; and once
`disconnect` has fulfilled there is none, nor will there be by a `subscribe` that was called. -/
structure Tidy (s : TransportState) : Prop where
  live : ∀ k c, s.consumers[k]? = some c → c.live = true →
    s.consumer = some k ∨ s.disconnect = .consumer k ∨ s.disconnect = .rejected
  stopped : ∀ n, s.disconnect = .fulfilled n →
    s.phase.over = true ∧ s.consumers.length = n ∧ ∀ c ∈ s.consumers, c.live = false

theorem length_held (status : ConsumerStatus) : (s.held status).length = s.consumers.length := by
  unfold TransportState.held
  cases s.consumer with
  | none => rfl
  | some k => exact List.length_set

theorem trying_next (n : ℕ) (ts : List String) : (SubscribePhase.next n ts).trying = some n := by cases ts <;> rfl

theorem begins_next (n : ℕ) (ts : List String) : (SubscribePhase.next n ts).begins = none := by cases ts <;> rfl

theorem next_ne_cleaning (n m : ℕ) (ts : List String) : SubscribePhase.next n ts ≠ .cleaning m := by
  cases ts <;> simp [SubscribePhase.next]

theorem attempt_created {n : ℕ} (hn : n ≤ maxAttempts) :
    s.attempt n true =
      { s with
        consumers := s.consumers ++ [.created]
        consumer := some s.consumers.length
        phase := .connecting n } := if_pos hn

theorem attempt_failed {n : ℕ} (hn : n ≤ maxAttempts) : s.attempt n false = { s with phase := .cleaning n } := if_pos hn

/-- In a phase of which no attempt follows and none awaits a call there is nothing to show. -/
theorem Shape.of_settled (hb : s.phase.begins = none) (ht : s.phase.trying = none) (hc : ∀ n, s.phase ≠ .cleaning n) :
    Shape s := ⟨by simp [hb], by simp [ht], fun n hn => absurd hn (hc n)⟩

theorem Shape.of_cleaning {n : ℕ} (hp : s.phase = .cleaning n) (hn : n ≤ maxAttempts) : Shape s := by
  refine ⟨by simp [hp, SubscribePhase.begins], by simp [hp, SubscribePhase.trying], fun m hm => ?_⟩
  rw [hp] at hm
  cases hm; exact hn

theorem shape_step {a : TransportAct} (hs : Shape s) (h : transportStep autoCreateTopics topics s a = some s') :
    Shape s' := by
  cases transportStep_move h with
  | ensure hp =>
    obtain ⟨hf, hn⟩ := hs.free 1 (by rw [hp]; rfl)
    exact ⟨fun n hb => by cases hb; exact ⟨hf, hn⟩, by simp [SubscribePhase.trying], by simp⟩
  | @attempt _ n created _ hp =>
    obtain ⟨hf, hn⟩ := hs.free n hp
    cases created with
    | true =>
      rw [attempt_created hn]
      refine ⟨by simp [SubscribePhase.begins], fun m hm => ?_, by simp⟩
      cases hm
      exact ⟨⟨_, by simp, rfl⟩, hn⟩
    | false =>
      rw [attempt_failed hn]
      exact .of_cleaning rfl hn
  | refuse => exact .of_settled rfl rfl (by simp)
  | @connected n hp =>
    obtain ⟨⟨k, hk, hc⟩, hn⟩ := hs.held n (by rw [hp]; rfl)
    refine ⟨by simp [begins_next], fun m hm => ?_, fun m hm => absurd hm (next_ne_cleaning n m topics)⟩
    rw [trying_next] at hm
    cases hm
    exact ⟨⟨k, by rw [length_held]; exact hk, hc⟩, hn⟩
  | @subscribed n ts hp =>
    refine ⟨by simp [begins_next], fun m hm => ?_, fun m hm => absurd hm (next_ne_cleaning n m ts.tail)⟩
    rw [trying_next] at hm
    cases hm
    exact hs.held n (by rw [hp]; rfl)
  | started => exact .of_settled rfl rfl (by simp)
  | @failed n hp => exact .of_cleaning rfl (hs.held n hp).2
  | @cleaned n ok hp =>
    have hn := hs.cleaning n hp
    unfold TransportState.cleanUp
    by_cases hmax : n = maxAttempts
    · rw [if_pos hmax]
      exact .of_settled rfl rfl (by simp)
    · rw [if_neg hmax]
      refine ⟨fun m hm => ?_, by simp [SubscribePhase.trying], by simp⟩
      cases hm
      exact ⟨rfl, by omega⟩
  | disconnect => exact ⟨hs.free, hs.held, hs.cleaning⟩
  | found => exact ⟨hs.free, hs.held, hs.cleaning⟩
  | empty => exact ⟨hs.free, hs.held, hs.cleaning⟩
  | rejected => exact ⟨hs.free, hs.held, hs.cleaning⟩
  | fulfilled => exact ⟨hs.free, fun n hn => by simpa using hs.held n hn, hs.cleaning⟩

/-- What is found after an entry of the list was set is what was set or what was there. -/
theorem getElem?_set_cases {α : Type} {l : List α} {j k : ℕ} {x c : α} (h : (l.set j x)[k]? = some c) :
    (k = j ∧ c = x) ∨ (k ≠ j ∧ l[k]? = some c) := by
  by_cases hk : j = k
  · subst hk
    have hlt : j < (l.set j x).length := (List.getElem?_eq_some_iff.1 h).1
    rw [List.length_set] at hlt
    rw [List.getElem?_set_self hlt] at h
    cases h; exact .inl ⟨rfl, rfl⟩
  · rw [List.getElem?_set_ne hk] at h
    exact .inr ⟨Ne.symm hk, h⟩

theorem held_cases {status c : ConsumerStatus} {k : ℕ} (h : (s.held status)[k]? = some c) :
    (s.consumer = some k ∧ c = status) ∨ (s.consumer ≠ some k ∧ s.consumers[k]? = some c) := by
  unfold TransportState.held at h
  cases hc : s.consumer with
  | none => rw [hc] at h; exact .inr ⟨by simp, h⟩
  | some j =>
    rw [hc] at h
    rcases getElem?_set_cases h with ⟨rfl, rfl⟩ | ⟨hne, h⟩
    · exact .inl ⟨rfl, rfl⟩
    · exact .inr ⟨fun hk => by cases hk; exact hne rfl, h⟩

/-- While `subscribe` is not over `disconnect` has not fulfilled. -/
theorem Tidy.not_fulfilled (ht : Tidy s) (hp : s.phase.over = false) (n : ℕ) : s.disconnect ≠ .fulfilled n := by
  intro hd
  rw [(ht.stopped n hd).1] at hp
  cases hp

theorem not_over_of_trying {n : ℕ} {phase : SubscribePhase} (h : phase.trying = some n) : phase.over = false := by
  cases phase <;> first | rfl | cases h

theorem not_over_of_begins {n : ℕ} {phase : SubscribePhase} (h : phase.begins = some n) (hi : phase ≠ .idle) :
    phase.over = false := by
  cases phase <;> first | rfl | exact absurd rfl hi | cases h

/-- A step of `subscribe` from a phase that is not over. -/
theorem Tidy.of_pending (ht : Tidy s) (hp : s.phase.over = false) (hd : s'.disconnect = s.disconnect)
    (hl : ∀ k c, s'.consumers[k]? = some c → c.live = true →
      s'.consumer = some k ∨ s'.disconnect = .consumer k ∨ s'.disconnect = .rejected) : Tidy s' :=
  ⟨hl, fun m hm => absurd (hd.symm.trans hm) (ht.not_fulfilled hp m)⟩

/-- A live consumer in the field or awaited, after a step that keeps the two. -/
theorem Tidy.live_held (ht : Tidy s) {status : ConsumerStatus} {k : ℕ} {c : ConsumerStatus}
    (h : (s.held status)[k]? = some c) (hl : c.live = true) :
    s.consumer = some k ∨ s.disconnect = .consumer k ∨ s.disconnect = .rejected := by
  rcases held_cases h with ⟨hk, -⟩ | ⟨-, hc⟩
  · exact .inl hk
  · exact ht.live k c hc hl

/-- A live consumer is in the field when `disconnect` awaits none and was not rejected. -/
theorem Tidy.live_field (ht : Tidy s) (hd : ∀ j, s.disconnect ≠ .consumer j) (hr : s.disconnect ≠ .rejected) {k : ℕ}
    {c : ConsumerStatus} (hc : s.consumers[k]? = some c) (hl : c.live = true) : s.consumer = some k := by
  rcases ht.live k c hc hl with hk | hk | hk
  · exact hk
  · exact absurd hk (hd k)
  · exact absurd hk hr

theorem snoc_cases {α : Type} {l : List α} {k : ℕ} {x c : α} (h : (l ++ [x])[k]? = some c) :
    c = x ∨ l[k]? = some c := by
  rcases Nat.lt_or_ge k l.length with hk | hk
  · rw [List.getElem?_append_left hk] at h
    exact .inr h
  · rw [List.getElem?_append_right hk, List.getElem?_singleton] at h
    split at h
    · cases h; exact .inl rfl
    · cases h

theorem holdsLive_of {k : ℕ} {c : ConsumerStatus} (hk : s.consumer = some k) (hc : s.consumers[k]? = some c)
    (hl : c.live = true) : s.holdsLive = true := by
  simp [TransportState.holdsLive, hk, hc, hl]

theorem awaitsHeld_iff {k : ℕ} (hk : s.consumer = some k) : s.awaitsHeld = true ↔ s.disconnect = .consumer k := by
  simp [TransportState.awaitsHeld, hk]

/-- The consumers of which none is live, by their positions. -/
theorem forall_not_live {l : List ConsumerStatus} (h : ∀ (k : ℕ) c, l[k]? = some c → c.live = true → False) :
    ∀ c ∈ l, c.live = false := by
  intro c hc
  obtain ⟨k, hk⟩ := List.mem_iff_getElem?.1 hc
  by_contra hl
  exact h k c hk (by simpa using hl)

/-- An orderly clean-up leaves no live consumer behind but one that `disconnect` awaits. -/
theorem Tidy.cleanUp (ht : Tidy s) {n : ℕ} {ok : Bool} (hp : s.phase = .cleaning n) (ho : s.Orderly (.cleaned ok)) :
    Tidy (s.cleanUp n ok) := by
  refine ⟨fun k c hc hl => ?_, fun m hm => ?_⟩
  · cases ok with
    | true =>
      rcases held_cases hc with ⟨-, rfl⟩ | ⟨hne, hc⟩
      · cases hl
      · exact .inr ((ht.live k c hc hl).resolve_left hne)
    | false =>
      rcases ht.live k c hc hl with hk | hk
      · -- the clean-up failed, so `disconnect` awaits this consumer or was rejected
        rcases ho (holdsLive_of hk hc hl) with hw | hw
        · exact .inr (.inl ((awaitsHeld_iff hk).1 hw))
        · exact .inr (.inr hw)
      · exact .inr hk
  · obtain ⟨hover, hlen, hdead⟩ := ht.stopped m hm
    have hmax : n = maxAttempts := by
      rw [hp] at hover
      exact beq_iff_eq.1 hover
    refine ⟨by simp [TransportState.cleanUp, hmax, SubscribePhase.over], ?_, ?_⟩
    · cases ok with
      | true => exact (length_held .disconnected).trans hlen
      | false => exact hlen
    · refine forall_not_live fun k c hc hl => ?_
      cases ok with
      | true =>
        rcases held_cases hc with ⟨-, rfl⟩ | ⟨-, hc⟩
        · cases hl
        · rw [hdead c (List.mem_of_getElem? hc)] at hl
          cases hl
      | false =>
        rw [hdead c (List.mem_of_getElem? hc)] at hl
        cases hl

/-- When `disconnect` fulfils in order, the consumer it awaited was the last live one. -/
theorem Tidy.disconnected (ht : Tidy s) {j : ℕ} (hd : s.disconnect = .consumer j) (hover : s.phase.over = true)
    (hw : s.holdsLive = true → s.awaitsHeld = true) :
    Tidy { s with
      consumers := s.consumers.set j .disconnected
      disconnect := .fulfilled s.consumers.length } := by
  have hdead : ∀ (k : ℕ) (c : ConsumerStatus),
      (s.consumers.set j .disconnected)[k]? = some c → c.live = true → False := by
    intro k c hc hl
    rcases getElem?_set_cases hc with ⟨-, rfl⟩ | ⟨hne, hc⟩
    · cases hl
    · rcases ht.live k c hc hl with hk | hk | hk
      · -- a live consumer in the field is the one that was awaited
        have := (awaitsHeld_iff hk).1 (hw (holdsLive_of hk hc hl))
        rw [hd] at this
        cases this; exact hne rfl
      · rw [hd] at hk; cases hk; exact hne rfl
      · rw [hd] at hk; cases hk
  exact ⟨fun k c hc hl => (hdead k c hc hl).elim,
    fun m hm => by cases hm; exact ⟨hover, List.length_set, forall_not_live hdead⟩⟩

theorem tidy_step {a : TransportAct} (hs : Shape s) (ht : Tidy s) (ho : s.Orderly a)
    (h : transportStep autoCreateTopics topics s a = some s') : Tidy s' := by
  cases transportStep_move h with
  | ensure hp =>
    refine ⟨ht.live, fun n hn => ?_⟩
    have hd : s.disconnect.isFulfilled = false := ho
    rw [hn] at hd
    cases hd
  | @attempt _ n created ha hp =>
    obtain ⟨hf, hn⟩ := hs.free n hp
    have hnot : ∀ m, s.disconnect ≠ .fulfilled m := by
      intro m hm
      rcases ha with ⟨rfl, -⟩ | ⟨-, hi⟩
      · have hd : s.disconnect.isFulfilled = false := ho
        rw [hm] at hd
        cases hd
      · exact ht.not_fulfilled (not_over_of_begins hp hi) m hm
    cases created with
    | true =>
      rw [attempt_created hn]
      refine ⟨fun k c hc hl => ?_, fun m hm => absurd hm (hnot m)⟩
      -- the field held no consumer, and the new one is not connected yet
      rcases snoc_cases hc with rfl | hc
      · cases hl
      · refine .inr ((ht.live k c hc hl).resolve_left ?_)
        simp [hf]
    | false =>
      rw [attempt_failed hn]
      exact ⟨ht.live, fun m hm => absurd hm (hnot m)⟩
  | refuse hp => exact ht.of_pending (by rw [hp]; rfl) rfl ht.live
  | connected hp => exact ht.of_pending (by rw [hp]; rfl) rfl fun k c hc hl => ht.live_held hc hl
  | subscribed hp => exact ht.of_pending (by rw [hp]; rfl) rfl ht.live
  | started hp => exact ht.of_pending (by rw [hp]; rfl) rfl fun k c hc hl => ht.live_held hc hl
  | failed hp => exact ht.of_pending (not_over_of_trying hp) rfl ht.live
  | cleaned hp => exact ht.cleanUp hp ho
  | disconnect hd =>
    refine ⟨fun k c hc hl => .inl ?_, by simp⟩
    exact ht.live_field (by simp [hd]) (by simp [hd]) hc hl
  | @found j hd hj =>
    refine ⟨fun k c hc hl => .inl ?_, by simp⟩
    exact ht.live_field (by simp [hd]) (by simp [hd]) hc hl
  | empty hd hn =>
    have hdead : ∀ (k : ℕ) (c : ConsumerStatus), s.consumers[k]? = some c → c.live = true → False := by
      intro k c hc hl
      have hk := ht.live_field (by simp [hd]) (by simp [hd]) hc hl
      rw [hn] at hk
      cases hk
    exact ⟨fun k c hc hl => (hdead k c hc hl).elim, fun m hm => by cases hm; exact ⟨ho hn, rfl, forall_not_live hdead⟩⟩
  | rejected => exact ⟨fun k c hc hl => .inr (.inr rfl), by simp⟩
  | fulfilled hd => exact ht.disconnected hd ho.1 ho.2

/-! ## Runs that are not orderly -/

/-- The subscriptions of an attempt fulfil, up to the call of `run`. -/
theorem run_next (n : ℕ) : ∀ (ts : List String) (s : TransportState),
    ∃ bs, run (transportStep autoCreateTopics topics) { s with phase := .next n ts } bs =
      some { s with phase := .starting n }
  | [], _ => ⟨[], rfl⟩
  | _ :: ts, s => by
    obtain ⟨bs, hbs⟩ := run_next n ts s
    exact ⟨.settled true :: bs, run_cons_some.2 ⟨{ s with phase := .next n ts }, rfl, hbs⟩⟩

theorem not_stopped_of_live {m : ℕ} {c : ConsumerStatus} (hd : s.disconnect = .fulfilled m) (hc : c ∈ s.consumers)
    (hl : c.live = true) : ¬ s.Stopped := by
  intro h
  rw [(h m hd).2 c hc] at hl
  cases hl

theorem mem_held {k : ℕ} (status : ConsumerStatus) (hc : s.consumer = some k) (hk : k < s.consumers.length) :
    status ∈ s.held status := by
  unfold TransportState.held
  rw [hc]
  exact List.mem_set hk status

/-- An attempt that begins creates a consumer. -/
theorem not_stopped_attempt {n m : ℕ} (hd : s.disconnect = .fulfilled m) (hst : s.Stopped) (hn : n ≤ maxAttempts) :
    ¬ (s.attempt n true).Stopped := by
  intro h
  have hlen := (hst m hd).1
  rw [attempt_created hn] at h
  have hlen' : (s.consumers ++ [ConsumerStatus.created]).length = m := (h m hd).1
  rw [List.length_append, hlen, List.length_singleton] at hlen'
  omega

/-- A `subscribe` that is not over when `disconnect` has fulfilled can create or start a consumer. -/
theorem restart (hs : Shape s) {m : ℕ} (hd : s.disconnect = .fulfilled m) (hp : s.phase.over = false) :
    ∃ bs t, run (transportStep autoCreateTopics topics) s bs = some t ∧ ¬ t.Stopped := by
  by_cases hst : s.Stopped
  swap
  · exact ⟨[], s, rfl, hst⟩
  obtain ⟨consumers, consumer, phase, disconnect⟩ := s
  cases phase with
  | ensuring =>
    obtain ⟨-, hn⟩ := hs.free 1 rfl
    exact ⟨[.ensured true true], _, rfl, not_stopped_attempt hd hst hn⟩
  | sleeping n delay =>
    obtain ⟨-, hn⟩ := hs.free (n + 1) rfl
    exact ⟨[.wake true], _, rfl, not_stopped_attempt hd hst hn⟩
  | cleaning n =>
    have hmax : n ≠ maxAttempts := by
      rintro rfl
      simp [SubscribePhase.over] at hp
    have hle := hs.cleaning n rfl
    let u : TransportState := ⟨consumers, consumer, .cleaning n, disconnect⟩
    let v : TransportState := ⟨u.held .disconnected, none, .sleeping n (backOff n), disconnect⟩
    have hclean : u.cleanUp n true = v := by
      unfold TransportState.cleanUp
      rw [if_neg hmax]; rfl
    have hrun : run (transportStep autoCreateTopics topics) u [.cleaned true] = some v := congrArg some hclean
    -- the clean-up is over and the next attempt begins
    by_cases hst' : v.Stopped
    · exact ⟨[.cleaned true] ++ [.wake true], _, run_append_some.2 ⟨v, hrun, rfl⟩,
        not_stopped_attempt (s := v) hd hst' (by omega)⟩
    · exact ⟨[.cleaned true], v, hrun, hst'⟩
  | connecting n =>
    obtain ⟨⟨k, hk, hc⟩, -⟩ := hs.held n rfl
    exact ⟨[.settled true], _, rfl, not_stopped_of_live hd (mem_held .connected hc hk) rfl⟩
  | subscribing n ts =>
    obtain ⟨⟨k, hk, hc⟩, -⟩ := hs.held n rfl
    let u : TransportState := ⟨consumers, consumer, .subscribing n ts, disconnect⟩
    have hnext : ∃ bs, run (transportStep autoCreateTopics topics) { u with phase := .next n ts.tail } bs =
        some { u with phase := .starting n } := run_next n ts.tail u
    obtain ⟨bs, hbs⟩ := hnext
    refine ⟨.settled true :: (bs ++ [.settled true]), _, run_cons_some.2 ⟨_, rfl, run_append_some.2 ⟨_, hbs, rfl⟩⟩, ?_⟩
    exact not_stopped_of_live hd (mem_held .running hc hk) rfl
  | starting n =>
    obtain ⟨⟨k, hk, hc⟩, -⟩ := hs.held n rfl
    exact ⟨[.settled true], _, rfl, not_stopped_of_live hd (mem_held .running hc hk) rfl⟩
  | _ => cases hp

/-- A live consumer in the field, by its position. -/
theorem exists_of_holdsLive (h : s.holdsLive = true) :
    ∃ k c, s.consumer = some k ∧ s.consumers[k]? = some c ∧ c.live = true := by
  unfold TransportState.holdsLive at h
  obtain ⟨k, hk, h⟩ := (Option.any_eq_true _ _).1 h
  obtain ⟨c, hc, hl⟩ := (Option.any_eq_true _ _).1 h
  exact ⟨k, c, hk, hc, hl⟩

/-- A live consumer that is not in the field is not disconnected by `disconnect`, unless it is awaited. -/
theorem not_stopped_of_lost (hn : s.consumer = none) {k : ℕ} {c : ConsumerStatus} (hc : s.consumers[k]? = some c)
    (hl : c.live = true)
    (hd : s.disconnect = .notCalled ∨ s.disconnect = .producer ∨ ∃ j, j ≠ k ∧ s.disconnect = .consumer j) :
    ∃ bs t, run (transportStep autoCreateTopics topics) s bs = some t ∧ ¬ t.Stopped := by
  have hmem := List.mem_of_getElem? hc
  obtain ⟨consumers, consumer, phase, disconnect⟩ := s
  cases hn
  rcases hd with hd | hd | ⟨j, hj, hd⟩
  · cases hd
    exact ⟨[.disconnect, .producerSettled true], _, rfl, not_stopped_of_live rfl hmem hl⟩
  · cases hd
    exact ⟨[.producerSettled true], _, rfl, not_stopped_of_live rfl hmem hl⟩
  · cases hd
    refine ⟨[.consumerSettled true], _, rfl, not_stopped_of_live rfl (c := c) ?_ hl⟩
    exact List.mem_of_getElem? ((List.getElem?_set_ne hj).trans hc)

theorem exists_of_isFulfilled {call : DisconnectCall} (h : ¬ call.isFulfilled = false) : ∃ m, call = .fulfilled m := by
  cases call with
  | fulfilled m => exact ⟨m, rfl⟩
  | _ => exact absurd rfl h

/-- After a step that is not orderly the transport can go on consuming after the disconnect. -/
theorem not_stopped_of_not_orderly {a : TransportAct} (hs : Shape s) (ht : Tidy s) (ho : ¬ s.Orderly a)
    (h : transportStep autoCreateTopics topics s a = some s') :
    ∃ bs t, run (transportStep autoCreateTopics topics) s' bs = some t ∧ ¬ t.Stopped := by
  have hs' := shape_step hs h
  cases transportStep_move h with
  | @cleaned n ok hp =>
    cases ok with
    | true => exact absurd trivial ho
    | false =>
      have hlive : s.holdsLive = true := by
        by_contra hno
        exact ho fun hl => absurd hl hno
      obtain ⟨k, c, hk, hc, hl⟩ := exists_of_holdsLive hlive
      refine not_stopped_of_lost (s := s.cleanUp n false) rfl hc hl ?_
      show s.disconnect = _ ∨ s.disconnect = _ ∨ ∃ j, j ≠ k ∧ s.disconnect = _
      cases hd : s.disconnect with
      | notCalled => exact .inl rfl
      | producer => exact .inr (.inl rfl)
      | consumer j =>
        refine .inr (.inr ⟨j, ?_, rfl⟩)
        rintro rfl
        exact ho fun _ => .inl ((awaitsHeld_iff hk).2 hd)
      | rejected => exact absurd (fun _ => .inr hd) ho
      | fulfilled m =>
        rw [(ht.stopped m hd).2.2 c (List.mem_of_getElem? hc)] at hl
        cases hl
  | empty hd hn =>
    have hp : s.phase.over = false := by
      by_contra hno
      exact ho fun _ => by simpa using hno
    exact restart hs' rfl hp
  | @fulfilled j hd =>
    by_cases hp : s.phase.over = true
    · have hlive : s.holdsLive = true := by
        by_contra hno
        exact ho ⟨hp, fun hl => absurd hl hno⟩
      obtain ⟨k, c, hk, hc, hl⟩ := exists_of_holdsLive hlive
      have hj : j ≠ k := by
        rintro rfl
        exact ho ⟨hp, fun _ => (awaitsHeld_iff hk).2 hd⟩
      refine ⟨[], _, rfl, not_stopped_of_live rfl (c := c) ?_ hl⟩
      exact List.mem_of_getElem? ((List.getElem?_set_ne hj).trans hc)
    · exact restart hs' rfl (by simpa using hp)
  | ensure hp =>
    -- `subscribe` was called after `disconnect` had fulfilled
    obtain ⟨m, hd⟩ := exists_of_isFulfilled ho
    exact restart hs' hd rfl
  | @attempt _ n created ha hp =>
    rcases ha with ⟨rfl, hi⟩ | ⟨rfl | rfl, -⟩
    · obtain ⟨m, hd⟩ := exists_of_isFulfilled ho
      have hn : 1 = n := by
        rw [hi] at hp
        exact Option.some.inj hp
      subst hn
      cases created with
      | true => exact restart hs' hd rfl
      | false => exact restart hs' hd rfl
    · exact absurd trivial ho
    · exact absurd trivial ho
  | rejected ha => rcases ha with rfl | rfl <;> exact absurd trivial ho
  | found hd hc => exact absurd (fun hn => by rw [hc] at hn; cases hn) ho
  | _ => exact absurd trivial ho

theorem shape_init : Shape transportInit :=
  ⟨fun n hn => by cases hn; exact ⟨rfl, by decide⟩, by simp [transportInit, SubscribePhase.trying],
    by simp [transportInit]⟩

theorem tidy_init : Tidy transportInit := ⟨by simp [transportInit], by simp [transportInit]⟩

/-- In every state that an orderly run reaches, once `disconnect` has fulfilled no consumer is live and
none was created since. After a step that is not orderly the run can go on to a state in which one is. -/
theorem stopped_of_orderly {as : List TransportAct}
    (h : run (transportStep autoCreateTopics topics) transportInit as = some s)
    (ho : Each (transportStep autoCreateTopics topics) (·.Orderly) transportInit as) :
    s.Stopped ∧ ∀ a s', transportStep autoCreateTopics topics s a = some s' → ¬ s.Orderly a →
      ∃ bs t, run (transportStep autoCreateTopics topics) s' bs = some t ∧ ¬ t.Stopped := by
  have hi : Shape s ∧ Tidy s :=
    run_each_induction (I := fun s => Shape s ∧ Tidy s)
      (fun _ _ _ hi ho hs => ⟨shape_step hi.1 hs, tidy_step hi.1 hi.2 ho hs⟩) ⟨shape_init, tidy_init⟩ ho h
  exact ⟨fun n hn => (hi.2.stopped n hn).2, fun a s' hs hno => not_stopped_of_not_orderly hi.1 hi.2 hno hs⟩

end Connect

/-- The first connect fails, `disconnect` is called and fulfils during the back-off, and the second
attempt connects and runs a consumer. -/
theorem consumes_after_disconnect :
    ¬ ∀ s, Reachable (transportStep false ["order.created"]) transportInit s → s.Stopped := by
  intro hall
  have hrun : run (transportStep false ["order.created"]) transportInit
      [.subscribe true, .settled false, .cleaned true, .disconnect, .producerSettled true, .wake true,
        .settled true, .settled true, .settled true] =
      some ⟨[.disconnected, .running], some 1, .returned, .fulfilled 1⟩ := by decide
  have hlen := (hall _ ⟨_, hrun⟩ 1 rfl).1
  cases hlen

/-- A schedule in which the second attempt succeeds and `disconnect` is called after it. -/
def orderlyRun : List TransportAct :=
  [.subscribe true, .settled false, .cleaned true, .wake true, .settled true, .settled true, .settled true,
    .disconnect, .producerSettled true, .consumerSettled true]

theorem stopped_when_started :
    ∃ s, run (transportStep false ["order.created"]) transportInit orderlyRun = some s ∧
      s.disconnect = .fulfilled 2 ∧ s.Stopped := by
  obtain ⟨s, hr, hp⟩ := exists_of_run (transportStep false ["order.created"]) transportInit orderlyRun
    (fun s => s.disconnect == .fulfilled 2) (by decide)
  have ho : Each (transportStep false ["order.created"]) (·.Orderly) transportInit orderlyRun :=
    each_of_eachB _ (fun s a => decide (s.Orderly a)) (fun s a => of_decide_eq_true) _ _ (by decide)
  exact ⟨s, hr, beq_iff_eq.1 hp, (stopped_of_orderly hr ho).1⟩

end Saga.Kafka
