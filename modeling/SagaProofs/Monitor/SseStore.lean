/-
The store of the pages: it holds one connection to the stream of all updates, opens it again with a growing delay when
it fails, and takes every update once, by the ids of the last thousand it took.
-/
import SagaProofs.Lib.Window
import SagaProofs.Monitor.Hub

namespace Saga.Monitor

open Lts

/-! ## The store -/

inductive ReadyState
  | connecting
  | opened
  | closed
  deriving DecidableEq

inductive SseStatus
  | connected
  | reconnecting
  | disconnected
  deriving DecidableEq

def MAX_SEEN : ℕ := 1000

/-- The variables of `createSseStore`. A connection is the number of its `EventSource`, a timer its handle. -/
structure SseStore where
  status : SseStatus
  lastPublishedAt : Option String
  messageSnap : Option SagaSseMessage
  paused : Bool
  eventSource : Option ℕ
  backoff : ℕ
  reconnectTimer : Option ℕ
  destroyed : Bool
  seenIds : Finset String
  seenQueue : List String
  -- what the browser holds: all connections made, the timers that wait with their delays, and the handles given
  sources : List ReadyState
  timeouts : List (ℕ × ℕ)
  handles : ℕ

namespace SseStore

def createSseStore : SseStore where
  status := .disconnected
  lastPublishedAt := none
  messageSnap := none
  paused := false
  eventSource := none
  backoff := 1000
  reconnectTimer := none
  destroyed := false
  seenIds := ∅
  seenQueue := []
  sources := []
  timeouts := []
  handles := 0

variable (store : SseStore)

def setStatus (status : SseStatus) : SseStore := { store with status }

def connect : SseStore :=
  if store.destroyed || store.eventSource.isSome then store
  else { store with eventSource := some store.sources.length, sources := store.sources ++ [.connecting] }

/-- `eventSource?.close(); eventSource = null` -/
def close : SseStore :=
  { store with
    eventSource := none
    sources := match store.eventSource with
      | none => store.sources
      | some k => store.sources.set k .closed }

def setTimeout (delay : ℕ) : SseStore :=
  { store with
    reconnectTimer := some store.handles
    timeouts := store.timeouts ++ [(store.handles, delay)]
    handles := store.handles + 1 }

def clearTimeout (handle : Option ℕ) : SseStore :=
  { store with timeouts := store.timeouts.filter fun t => some t.1 ≠ handle }

def onopen : SseStore := setStatus { store with backoff := 1000 } .connected

/-- The store, and whether the subscribers are notified. -/
def onmessage : StreamData → SseStore × Bool
  | .heartbeat => (store, false)
  | .update data =>
    if data.eventId = "" then (store, false)
    else if data.eventId ∈ store.seenIds then (store, false)
    else
      let store := { store with
        seenIds := insert data.eventId store.seenIds
        seenQueue := store.seenQueue ++ [data.eventId] }
      let store := if MAX_SEEN < store.seenQueue.length then
          { store with
            seenQueue := store.seenQueue.tail
            seenIds := match store.seenQueue.head? with
              | none => store.seenIds
              | some old => if old = "" then store.seenIds else store.seenIds.erase old }
        else store
      let store := { store with lastPublishedAt := some data.publishedAt }
      if store.paused then (store, false)
      else ({ store with messageSnap := some data }, true)

def onerror : SseStore :=
  let store := store.close.setStatus .reconnecting
  store.setTimeout store.backoff

/-- The callback of the timer. -/
def onTimeout : SseStore := connect { store with backoff := min (store.backoff * 2) 30000 }

def start : SseStore := connect { store with destroyed := false }

def destroy : SseStore := (close { store with destroyed := true }).clearTimeout store.reconnectTimer

def reconnect : SseStore := start { store.destroy with backoff := 1000 }

def setPaused (paused : Bool) : SseStore := { store with paused }

/-- Whether a message is one the store has not seen. -/
def takes : StreamData → Option SagaSseMessage
  | .heartbeat => none
  | .update data => if data.eventId ≠ "" ∧ data.eventId ∉ store.seenIds then some data else none

end SseStore

/-! ## The provider -/

inductive StoreAct
  | mount
  | unmount
  | reconnect
  | setPaused (paused : Bool)
  -- of the browser, for a connection or a timer
  | opened (k : ℕ)
  | message (k : ℕ) (data : StreamData)
  | error (k : ℕ)
  | timeout (handle : ℕ)

/-- `SseProvider` with its store, which runs from a start or a reconnect on until it is destroyed, and all updates the
store has taken. -/
structure SseProvider where
  store : SseStore
  mounted : Bool
  running : Bool
  accepted : List SagaSseMessage

namespace SseProvider

def initial : SseProvider := ⟨.createSseStore, false, false, []⟩

def step (p : SseProvider) : StoreAct → Option SseProvider
  | .mount => if p.mounted then none else some { p with store := p.store.start, mounted := true, running := true }
  | .unmount => if p.mounted then some { p with store := p.store.destroy, mounted := false, running := false } else none
  -- whoever has the store may ask for it, also when the provider has left
  | .reconnect => some { p with store := p.store.reconnect, running := true }
  | .setPaused paused => some { p with store := p.store.setPaused paused }
  | .opened k =>
    if p.store.sources[k]? = some .connecting then
      some { p with store := { p.store with sources := p.store.sources.set k .opened }.onopen }
    else none
  | .message k data =>
    if p.store.sources[k]? = some .opened then
      some { p with store := (p.store.onmessage data).1, accepted := p.accepted ++ (p.store.takes data).toList }
    else none
  | .error k =>
    if p.store.sources[k]?.any (· ≠ .closed) then some { p with store := p.store.onerror } else none
  | .timeout handle =>
    if p.store.timeouts.any (·.1 = handle) then
      some { p with
        store := { p.store with timeouts := p.store.timeouts.filter (·.1 ≠ handle) }.onTimeout }
    else none

/-- What a step does and when. -/
inductive Move (p : SseProvider) : StoreAct → SseProvider → Prop
  | mount (hm : p.mounted = false) :
    Move p .mount { p with store := p.store.start, mounted := true, running := true }
  | unmount (hm : p.mounted = true) :
    Move p .unmount { p with store := p.store.destroy, mounted := false, running := false }
  | reconnect : Move p .reconnect { p with store := p.store.reconnect, running := true }
  | setPaused (paused : Bool) : Move p (.setPaused paused) { p with store := p.store.setPaused paused }
  | opened {k : ℕ} (hk : p.store.sources[k]? = some .connecting) :
    Move p (.opened k) { p with store := { p.store with sources := p.store.sources.set k .opened }.onopen }
  | message {k : ℕ} (data : StreamData) (hk : p.store.sources[k]? = some .opened) :
    Move p (.message k data)
      { p with store := (p.store.onmessage data).1, accepted := p.accepted ++ (p.store.takes data).toList }
  | error {k : ℕ} {state : ReadyState} (hk : p.store.sources[k]? = some state) (hs : state ≠ .closed) :
    Move p (.error k) { p with store := p.store.onerror }
  | timeout {t : ℕ × ℕ} (ht : t ∈ p.store.timeouts) :
    Move p (.timeout t.1)
      { p with store := { p.store with timeouts := p.store.timeouts.filter (·.1 ≠ t.1) }.onTimeout }

theorem step_move {p p' : SseProvider} {a : StoreAct} (h : p.step a = some p') : Move p a p' := by
  cases a with
  | mount =>
    simp only [step, Option.ite_none_left_eq_some, Option.some.injEq] at h
    obtain ⟨hm, rfl⟩ := h
    exact .mount (Bool.eq_false_iff.2 hm)
  | unmount =>
    simp only [step, Option.ite_none_right_eq_some, Option.some.injEq] at h
    obtain ⟨hm, rfl⟩ := h
    exact .unmount hm
  | reconnect => cases h; exact .reconnect
  | setPaused paused => cases h; exact .setPaused paused
  | opened k =>
    simp only [step, Option.ite_none_right_eq_some, Option.some.injEq] at h
    obtain ⟨hk, rfl⟩ := h
    exact .opened hk
  | message k data =>
    simp only [step, Option.ite_none_right_eq_some, Option.some.injEq] at h
    obtain ⟨hk, rfl⟩ := h
    exact .message data hk
  | error k =>
    simp only [step, Option.ite_none_right_eq_some, Option.some.injEq, Option.any_eq_true, decide_eq_true_eq] at h
    obtain ⟨⟨state, hk, hs⟩, rfl⟩ := h
    exact .error hk hs
  | timeout handle =>
    simp only [step, Option.ite_none_right_eq_some, Option.some.injEq, List.any_eq_true, decide_eq_true_eq] at h
    obtain ⟨⟨t, ht, rfl⟩, rfl⟩ := h
    exact .timeout ht

end SseProvider

/-- The provider mounts a store that does not run: nobody asked for a reconnect before, or since it left. -/
def StoreAct.StartsIdle (p : SseProvider) : StoreAct → Prop
  | .mount => p.running = false
  | _ => True

/-! ## One connection -/

namespace SseStore

variable {store : SseStore}

/-- Only the connection of the store is not closed. -/
def Single (store : SseStore) : Prop :=
  ∀ k, store.eventSource = some k ↔ ∃ s, store.sources[k]? = some s ∧ s ≠ .closed

theorem Single.connect (hs : store.Single) : store.connect.Single := by
  unfold SseStore.connect
  split
  · exact hs
  · rename_i h
    rw [Bool.or_eq_true, not_or, Bool.not_eq_true, Bool.not_eq_true, Option.isSome_eq_false_iff,
      Option.isNone_iff_eq_none] at h
    intro k
    dsimp only
    rw [List.getElem?_append]
    constructor
    · rintro ⟨⟩
      exact ⟨.connecting, by simp, nofun⟩
    · rintro ⟨s, hk, hs'⟩
      split at hk
      · -- all others are closed
        have hnone := (hs k).2 ⟨s, hk, hs'⟩
        rw [h.2] at hnone
        cases hnone
      · rename_i hlt
        rw [List.getElem?_singleton] at hk
        split at hk
        · rw [Option.some.injEq]
          omega
        · cases hk

theorem Single.close (hs : store.Single) : store.close.Single := by
  intro k
  unfold SseStore.close
  dsimp only
  constructor
  · nofun
  · rintro ⟨s, hk, hs'⟩
    cases hsource : store.eventSource with
    | none =>
      rw [hsource] at hk
      rw [(hs k).2 ⟨s, hk, hs'⟩] at hsource
      cases hsource
    | some j =>
      rw [hsource] at hk
      dsimp only at hk
      rw [List.getElem?_set] at hk
      split at hk
      · rw [Option.ite_none_right_eq_some, Option.some.injEq] at hk
        exact absurd hk.2.symm hs'
      · rename_i hne
        have hj := (hs k).2 ⟨s, hk, hs'⟩
        rw [hsource] at hj
        exact absurd (Option.some.inj hj) hne

theorem connect_of_none (hdestroyed : store.destroyed = false) (hsource : store.eventSource = none) :
    store.connect = { store with
      eventSource := some store.sources.length
      sources := store.sources ++ [.connecting] } := by
  unfold SseStore.connect
  rw [hdestroyed, hsource]
  rfl

/-- A message the store does not take changes nothing; else its id is queued, and the subscribers are notified of it. -/
theorem onmessage_cases (store : SseStore) (data : StreamData) :
    (store.takes data = none ∧ store.onmessage data = (store, false)) ∨
    ∃ m, data = .update m ∧ store.takes data = some m ∧ m.eventId ≠ "" ∧ m.eventId ∉ store.seenIds ∧
      ∃ ids,
        store.onmessage data =
          ({ store with
              seenIds := ids
              seenQueue := Window.push MAX_SEEN store.seenQueue m.eventId
              lastPublishedAt := some m.publishedAt
              messageSnap := if store.paused then store.messageSnap else some m }, !store.paused) ∧
        ids =
          if MAX_SEEN < (store.seenQueue ++ [m.eventId]).length then
            match (store.seenQueue ++ [m.eventId]).head? with
            | none => insert m.eventId store.seenIds
            | some old =>
              if old = "" then insert m.eventId store.seenIds else (insert m.eventId store.seenIds).erase old
          else insert m.eventId store.seenIds := by
  cases data with
  | heartbeat => exact .inl ⟨rfl, rfl⟩
  | update m =>
    by_cases hid : m.eventId = ""
    · exact .inl ⟨if_neg fun h => h.1 hid, if_pos hid⟩
    · by_cases hseen : m.eventId ∈ store.seenIds
      · exact .inl ⟨if_neg fun h => h.2 hseen, (if_neg hid).trans (if_pos hseen)⟩
      · refine .inr ⟨m, rfl, if_pos ⟨hid, hseen⟩, hid, hseen, _, (if_neg hid).trans ((if_neg hseen).trans ?_), rfl⟩
        unfold Window.push
        by_cases hfull : MAX_SEEN < (store.seenQueue ++ [m.eventId]).length
        · cases hpaused : store.paused <;> simp only [hfull, if_true] <;> rfl
        · cases hpaused : store.paused <;> simp only [hfull, if_false] <;> rfl

theorem of_takes_none {m : SagaSseMessage} (h : store.takes (.update m) = none) :
    m.eventId = "" ∨ m.eventId ∈ store.seenIds := by
  by_contra hnew
  have htakes : store.takes (.update m) = some m := if_pos (not_or.1 hnew)
  rw [htakes] at h
  cases h

end SseStore

namespace SseProvider

variable {p p' : SseProvider} {a : StoreAct}

/-- Only the connection of the store is not closed; while the store runs it has one or a timer waits, and else it has
none and no timer will make one. -/
structure Connected (p : SseProvider) : Prop where
  single : p.store.Single
  mounted : p.mounted = true → p.running = true
  running : p.running = true →
    p.store.destroyed = false ∧ (p.store.eventSource.isSome = true ∨ p.store.timeouts ≠ [])
  idle : p.running = false → p.store.eventSource = none ∧ (p.store.timeouts ≠ [] → p.store.destroyed = true)

theorem Connected.running_of_source (hp : p.Connected) {k : ℕ} (hk : p.store.eventSource = some k) :
    p.running = true := by
  by_contra hr
  rw [(hp.idle (Bool.eq_false_iff.2 hr)).1] at hk
  cases hk

theorem connected_initial : initial.Connected where
  single _ := ⟨nofun, by rintro ⟨s, hs, -⟩; cases hs⟩
  mounted := id
  running := nofun
  idle _ := ⟨rfl, fun h => absurd rfl h⟩

theorem isSome_connect {store : SseStore} (h : store.destroyed = false) :
    store.connect.destroyed = false ∧ store.connect.eventSource.isSome = true := by
  unfold SseStore.connect
  split
  · rename_i hkeep
    rw [h, Bool.false_or] at hkeep
    exact ⟨h, hkeep⟩
  · exact ⟨h, rfl⟩

/-- A store that is not destroyed connects. -/
theorem connected_connect {store : SseStore} (hs : store.Single) (h : store.destroyed = false) (mounted : Bool)
    (accepted : List SagaSseMessage) : Connected ⟨store.connect, mounted, true, accepted⟩ where
  single := hs.connect
  mounted _ := rfl
  running _ := ⟨(isSome_connect h).1, .inl (isSome_connect h).2⟩
  idle := nofun

/-- One that is destroyed does not. -/
theorem connected_destroyed {store : SseStore} (hs : store.Single) (h : store.destroyed = true)
    (hsource : store.eventSource = none) (accepted : List SagaSseMessage) :
    Connected ⟨store.connect, false, false, accepted⟩ := by
  have hkeep : store.connect = store := if_pos (by rw [h, Bool.true_or])
  rw [hkeep]
  exact ⟨hs, id, nofun, fun _ => ⟨hsource, fun _ => h⟩⟩

theorem connected_step (hp : p.Connected) (h : p.step a = some p') : p'.Connected := by
  cases step_move h with
  | mount =>
    apply connected_connect
    · exact hp.single
    · rfl
  | unmount => exact ⟨hp.single.close, id, nofun, fun _ => ⟨rfl, fun _ => rfl⟩⟩
  | reconnect =>
    unfold SseStore.reconnect SseStore.start
    apply connected_connect
    · exact hp.single.close
    · rfl
  | setPaused => exact ⟨hp.single, hp.mounted, hp.running, hp.idle⟩
  | @opened k hk =>
    refine ⟨fun j => ?_, hp.mounted, hp.running, hp.idle⟩
    refine (hp.single j).trans ?_
    simp only [SseStore.onopen, SseStore.setStatus, List.getElem?_set]
    by_cases hj : k = j
    · subst hj
      simp [(List.getElem?_eq_some_iff.1 hk).1, (List.getElem?_eq_some_iff.1 hk).2]
    · simp [hj]
  | message data =>
    rcases p.store.onmessage_cases data with ⟨-, heq⟩ | ⟨m, -, -, -, -, ids, heq, -⟩
    · rw [heq]
      exact ⟨hp.single, hp.mounted, hp.running, hp.idle⟩
    · rw [heq]
      exact ⟨hp.single, hp.mounted, hp.running, hp.idle⟩
  | error hk hs =>
    have hr := hp.running_of_source ((hp.single _).2 ⟨_, hk, hs⟩)
    refine ⟨hp.single.close, hp.mounted, fun _ => ⟨(hp.running hr).1, .inr ?_⟩, fun hr' => ?_⟩
    · simp [SseStore.onerror, SseStore.setTimeout]
    · rw [hr] at hr'
      cases hr'
  | timeout ht =>
    unfold SseStore.onTimeout
    cases hr : p.running with
    | true =>
      apply connected_connect
      · exact hp.single
      · exact (hp.running hr).1
    | false =>
      -- a timer of a store that was destroyed
      obtain ⟨hsource, hdestroyed⟩ := hp.idle hr
      have hm : p.mounted = false := by
        by_contra hm
        rw [hp.mounted (Bool.eq_true_of_not_eq_false hm)] at hr
        cases hr
      rw [hm]
      apply connected_destroyed
      · exact hp.single
      · exact hdestroyed (List.ne_nil_of_mem ht)
      · exact hsource

/-- The store has one connection or one timer, of which it knows, while it runs. -/
structure Alone (p : SseProvider) : Prop where
  count : p.store.eventSource.toList.length + p.store.timeouts.length = if p.running then 1 else 0
  timer : ∀ t ∈ p.store.timeouts, p.store.reconnectTimer = some t.1 ∧ t.2 = p.store.backoff

theorem Alone.none_of_idle (hp : p.Alone) (hr : p.running = false) :
    p.store.eventSource = none ∧ p.store.timeouts = [] := by
  have hcount := hp.count
  rwa [hr, if_neg Bool.false_ne_true, Nat.add_eq_zero_iff, List.length_eq_zero_iff, List.length_eq_zero_iff,
    Option.toList_eq_nil_iff] at hcount

/-- Beside a connection no timer waits. -/
theorem Alone.timeouts (hp : p.Alone) {k : ℕ} (hk : p.store.eventSource = some k) : p.store.timeouts = [] := by
  have hcount := hp.count
  rw [hk, Option.toList_some, List.length_singleton] at hcount
  apply List.length_eq_zero_iff.1
  split at hcount <;> omega

/-- A timer that waits is the only one, and there is no connection. -/
theorem Alone.waits (hp : p.Alone) {t : ℕ × ℕ} (ht : t ∈ p.store.timeouts) :
    p.running = true ∧ p.store.eventSource = none ∧ p.store.timeouts = [t] := by
  have hcount := hp.count
  have hpos := List.length_pos_of_mem ht
  split at hcount
  · rename_i hr
    refine ⟨hr, Option.toList_eq_nil_iff.1 (List.length_eq_zero_iff.1 (by omega)), ?_⟩
    obtain ⟨u, hu⟩ := List.length_eq_one_iff.1 (show p.store.timeouts.length = 1 by omega)
    rw [hu] at ht ⊢
    rw [List.mem_singleton.1 ht]
  · omega

/-- `destroy` clears the timer. -/
theorem Alone.destroy (hp : p.Alone) : p.store.destroy.timeouts = [] := by
  rw [List.eq_nil_iff_forall_not_mem]
  intro t ht
  have hmem : t ∈ p.store.timeouts ∧ some t.1 ≠ p.store.reconnectTimer := by
    simpa [SseStore.destroy, SseStore.clearTimeout, SseStore.close] using ht
  exact hmem.2 (hp.timer t hmem.1).1.symm

theorem alone_initial : initial.Alone where
  count := rfl
  timer _ ht := absurd ht List.not_mem_nil

/-- A new connection where there is none and no timer waits. -/
theorem alone_connect {store : SseStore} (hdestroyed : store.destroyed = false) (hsource : store.eventSource = none)
    (htimeouts : store.timeouts = []) (mounted : Bool) (accepted : List SagaSseMessage) :
    Alone ⟨store.connect, mounted, true, accepted⟩ := by
  rw [SseStore.connect_of_none hdestroyed hsource]
  refine ⟨?_, ?_⟩
  · dsimp only
    rw [htimeouts]
    rfl
  · dsimp only
    rw [htimeouts]
    exact List.forall_mem_nil _

theorem alone_step (hc : p.Connected) (hp : p.Alone) (ha : a.StartsIdle p) (h : p.step a = some p') : p'.Alone := by
  cases step_move h with
  | mount =>
    obtain ⟨hsource, htimeouts⟩ := hp.none_of_idle ha
    apply alone_connect
    · rfl
    · exact hsource
    · exact htimeouts
  | unmount =>
    have htimeouts := hp.destroy
    refine ⟨?_, ?_⟩
    · rw [htimeouts]
      rfl
    · rw [htimeouts]
      exact List.forall_mem_nil _
  | reconnect =>
    unfold SseStore.reconnect SseStore.start
    apply alone_connect
    · rfl
    · rfl
    · exact hp.destroy
  | setPaused => exact ⟨hp.count, hp.timer⟩
  | opened hk =>
    have htimeouts := hp.timeouts ((hc.single _).2 ⟨_, hk, nofun⟩)
    refine ⟨hp.count, ?_⟩
    simp only [SseStore.onopen, SseStore.setStatus, htimeouts]
    exact List.forall_mem_nil _
  | message data =>
    rcases p.store.onmessage_cases data with ⟨-, heq⟩ | ⟨m, -, -, -, -, ids, heq, -⟩
    · rw [heq]
      exact ⟨hp.count, hp.timer⟩
    · rw [heq]
      exact ⟨hp.count, hp.timer⟩
  | error hk hs =>
    have hsource := (hc.single _).2 ⟨_, hk, hs⟩
    have hr := hc.running_of_source hsource
    have htimeouts := hp.timeouts hsource
    refine ⟨?_, ?_⟩
    · simp [SseStore.onerror, SseStore.setTimeout, SseStore.setStatus, SseStore.close, htimeouts, hr]
    · simp [SseStore.onerror, SseStore.setTimeout, SseStore.setStatus, SseStore.close, htimeouts]
  | @timeout t ht =>
    obtain ⟨hr, hsource, htimeouts⟩ := hp.waits ht
    have hgone : p.store.timeouts.filter (·.1 ≠ t.1) = [] := by simp [htimeouts]
    rw [hgone, hr]
    unfold SseStore.onTimeout
    apply alone_connect
    · exact (hc.running hr).1
    · exact hsource
    · rfl

/-- A step keeps the connection, leaves none, or makes a new one. -/
theorem source_step (h : p.step a = some p') :
    p.store.sources.length ≤ p'.store.sources.length ∧
      (p'.store.eventSource = p.store.eventSource ∨
        ∀ k, p'.store.eventSource = some k → p.store.sources.length ≤ k) := by
  have hconnect : ∀ store : SseStore, store.sources.length ≤ store.connect.sources.length ∧
      (store.connect.eventSource = store.eventSource ∨ store.connect.eventSource = some store.sources.length) := by
    intro store
    unfold SseStore.connect
    split
    · exact ⟨le_rfl, .inl rfl⟩
    · dsimp only
      rw [List.length_append]
      exact ⟨Nat.le_add_right _ _, .inr rfl⟩
  have hclose : p.store.close.sources.length = p.store.sources.length := by
    unfold SseStore.close
    dsimp only
    split
    · rfl
    · exact List.length_set
  cases step_move h with
  | mount =>
    obtain ⟨hle, hsource⟩ := hconnect { p.store with destroyed := false }
    refine ⟨hle, hsource.imp_right fun hsource k hk => ?_⟩
    exact (Option.some.inj (hsource.symm.trans hk)).le
  | unmount => exact ⟨hclose.ge, .inr nofun⟩
  | reconnect =>
    obtain ⟨hle, hsource⟩ := hconnect { p.store.destroy with backoff := 1000, destroyed := false }
    refine ⟨hclose.ge.trans hle, .inr fun k hk => ?_⟩
    rcases hsource with hsource | hsource
    · cases hsource.symm.trans hk
    · exact hclose.ge.trans (Option.some.inj (hsource.symm.trans hk)).le
  | setPaused => exact ⟨le_rfl, .inl rfl⟩
  | opened => exact ⟨List.length_set.ge, .inl rfl⟩
  | message data =>
    rcases p.store.onmessage_cases data with ⟨-, heq⟩ | ⟨m, -, -, -, -, ids, heq, -⟩
    · rw [heq]
      exact ⟨le_rfl, .inl rfl⟩
    · rw [heq]
      exact ⟨le_rfl, .inl rfl⟩
  | error => exact ⟨hclose.ge, .inr nofun⟩
  | @timeout t =>
    obtain ⟨hle, hsource⟩ := hconnect { p.store with
      timeouts := p.store.timeouts.filter (·.1 ≠ t.1)
      backoff := min (p.store.backoff * 2) 30000 }
    refine ⟨hle, hsource.imp_right fun hsource k hk => ?_⟩
    exact (Option.some.inj (hsource.symm.trans hk)).le

/-! ### The delay -/

/-- The retries since the last time a connection was opened or asked for. -/
def retriesAfter (n : ℕ) : StoreAct → ℕ
  | .timeout _ => n + 1
  | .opened _ | .reconnect => 0
  | _ => n

def retries (as : List StoreAct) : ℕ := as.foldl retriesAfter 0

def backoffAfter (n : ℕ) : ℕ := min (1000 * 2 ^ n) 30000

theorem backoffAfter_succ (n : ℕ) : backoffAfter (n + 1) = min (backoffAfter n * 2) 30000 := by
  unfold backoffAfter
  rw [Nat.pow_succ]
  omega

theorem connect_backoff (store : SseStore) : store.connect.backoff = store.backoff := by
  unfold SseStore.connect
  split <;> rfl

theorem backoff_step {n : ℕ} (hn : p.store.backoff = backoffAfter n) (h : p.step a = some p') :
    p'.store.backoff = backoffAfter (retriesAfter n a) := by
  cases step_move h with
  | mount => exact (connect_backoff _).trans hn
  | reconnect => exact connect_backoff _
  | opened => rfl
  | message data =>
    rcases p.store.onmessage_cases data with ⟨-, heq⟩ | ⟨m, -, -, -, -, ids, heq, -⟩
    · rw [heq]
      exact hn
    · rw [heq]
      exact hn
  | timeout =>
    refine (connect_backoff _).trans ?_
    dsimp only
    rw [hn]
    exact (backoffAfter_succ n).symm
  | unmount | setPaused | error => exact hn

/-- In every run only the connection of the store is not closed; while the store runs, as it does while the provider is
mounted, it has one or a timer waits to open the next, and while it does not run it has none. Where the provider never mounts a store
that runs, there is one connection or one timer and not both, a timer waits twice as long after each retry up to half a
minute, and a store that does not run leaves no timer. -/
theorem one_connection {as : List StoreAct} (h : run step .initial as = some p) :
    (∀ k, p.store.eventSource = some k ↔ ∃ s, p.store.sources[k]? = some s ∧ s ≠ .closed) ∧
    (p.mounted = true → p.running = true) ∧
    (p.running = true → (∃ k, p.store.eventSource = some k) ∨ p.store.timeouts ≠ []) ∧
    (p.running = false → p.store.eventSource = none) ∧
    (Each step (fun p a => a.StartsIdle p) .initial as →
      (p.running = true →
        (∃ k, p.store.eventSource = some k) ∧ p.store.timeouts = [] ∨
        p.store.eventSource = none ∧ ∃ handle, p.store.timeouts = [(handle, min (1000 * 2 ^ retries as) 30000)]) ∧
      (p.running = false → p.store.timeouts = [])) := by
  obtain ⟨hp, hbackoff⟩ := run_history (I := fun as p => p.Connected ∧ p.store.backoff = backoffAfter (retries as))
    (fun as p a p' ⟨hp, hbackoff⟩ hstep => ⟨connected_step hp hstep, by
      rw [backoff_step hbackoff hstep, retries, retries, List.foldl_append]
      rfl⟩) ⟨connected_initial, rfl⟩ h
  refine ⟨hp.single, hp.mounted, fun hr => (hp.running hr).2.imp_left Option.isSome_iff_exists.1, fun hr => (hp.idle hr).1,
    fun hc => ?_⟩
  obtain ⟨-, ha⟩ := run_each_induction (I := fun p => p.Connected ∧ p.Alone)
    (fun p a p' ⟨hp, ha⟩ hidle hstep => ⟨connected_step hp hstep, alone_step hp ha hidle hstep⟩)
    ⟨connected_initial, alone_initial⟩ hc h
  refine ⟨fun hr => ?_, fun hr => (ha.none_of_idle hr).2⟩
  cases hsource : p.store.eventSource with
  | some k => exact .inl ⟨⟨k, rfl⟩, ha.timeouts hsource⟩
  | none =>
    have hcount := ha.count
    rw [if_pos hr, hsource, Option.toList_none, List.length_nil, Nat.zero_add] at hcount
    obtain ⟨⟨handle, delay⟩, ht⟩ := List.length_eq_one_iff.1 hcount
    have hdelay : delay = p.store.backoff := (ha.timer (handle, delay) (by rw [ht]; exact List.mem_singleton_self _)).2
    rw [hbackoff] at hdelay
    exact .inr ⟨rfl, handle, by rw [ht, hdelay]; rfl⟩

namespace StoreAct

/-- Two connections fail; the provider leaves, and a page that still has the store asks for a connection, which fails
twice. -/
def sampleRun : List StoreAct :=
  [.mount, .opened 0, .error 0, .timeout 0, .error 1, .unmount, .reconnect, .error 2, .timeout 2, .error 3]

end StoreAct

theorem one_connection_sample :
    ∃ p, run step .initial StoreAct.sampleRun = some p ∧ p.mounted = false ∧ p.running = true ∧
      p.store.eventSource = none ∧ ∃ handle, p.store.timeouts = [(handle, 2000)] := by
  obtain ⟨p, hr, hp⟩ := exists_of_run step .initial StoreAct.sampleRun
    (fun p => !p.mounted && p.running && p.store.eventSource.isNone) (by decide +kernel)
  simp only [Bool.and_eq_true, Bool.not_eq_true', Option.isNone_iff_eq_none] at hp
  obtain ⟨⟨hm, hrunning⟩, hsource⟩ := hp
  have hidle : Each step (fun p a => a.StartsIdle p) .initial StoreAct.sampleRun := by
    simp [Each, StoreAct.sampleRun, StoreAct.StartsIdle, initial]
  rcases ((one_connection hr).2.2.2.2 hidle).1 hrunning with ⟨⟨k, hk⟩, -⟩ | ⟨-, htimeouts⟩
  · rw [hsource] at hk
    cases hk
  · exact ⟨p, hr, hm, hrunning, hsource, htimeouts⟩

/-! ## Every update once -/

/-- The ids of the updates taken. -/
def ids (p : SseProvider) : List String := p.accepted.map (·.eventId)

/-- The store knows the ids of the last updates it took, none of which was one of the last when it was taken. -/
structure Seen (p : SseProvider) : Prop where
  queue : p.store.seenQueue = p.ids.rtake MAX_SEEN
  seen : ∀ id, id ∈ p.store.seenIds ↔ id ∈ p.store.seenQueue
  spaced : Window.Spaced MAX_SEEN p.ids
  named : ∀ m ∈ p.accepted, m.eventId ≠ ""
  last : p.store.lastPublishedAt = p.accepted.getLast?.map (·.publishedAt)

theorem Seen.mem_ids (hp : p.Seen) {id : String} (h : id ∈ p.store.seenIds) : id ∈ p.ids := by
  rw [hp.seen, hp.queue] at h
  exact (Window.rtake_sublist MAX_SEEN p.ids).subset h

theorem seen_initial : initial.Seen where
  queue := rfl
  seen _ := ⟨fun h => absurd h (Finset.notMem_empty _), fun h => absurd h List.not_mem_nil⟩
  spaced := justified_nil _
  named _ h := absurd h List.not_mem_nil
  last := rfl

/-- An id is added to the set, and the one that leaves the queue is deleted from it. -/
theorem Seen.push (hp : p.Seen) {id : String} (hnew : id ∉ p.store.seenIds) (x : String) :
    x ∈ (if MAX_SEEN < (p.store.seenQueue ++ [id]).length then
        match (p.store.seenQueue ++ [id]).head? with
        | none => insert id p.store.seenIds
        | some old => if old = "" then insert id p.store.seenIds else (insert id p.store.seenIds).erase old
      else insert id p.store.seenIds) ↔ x ∈ Window.push MAX_SEEN p.store.seenQueue id := by
  have hmem : x ∈ insert id p.store.seenIds ↔ x ∈ p.store.seenQueue ++ [id] := by
    rw [Finset.mem_insert, hp.seen, List.mem_append, List.mem_singleton, or_comm]
  unfold Window.push
  dsimp only
  split
  · rename_i hfull
    cases hqueue : p.store.seenQueue with
    | nil =>
      rw [hqueue] at hfull
      simp [MAX_SEEN] at hfull
    | cons old rest =>
      -- the ids of the queue are all different, and none is empty
      have hnodup : (p.store.seenQueue ++ [id]).Nodup := by
        rw [← List.concat_eq_append]
        refine List.Nodup.concat (fun h => hnew ((hp.seen id).2 h)) ?_
        rw [hp.queue]
        exact hp.spaced.nodup_rtake (Nat.le_succ _)
      rw [hqueue, List.cons_append, List.nodup_cons] at hnodup
      have hold : old ≠ "" := by
        have hin : old ∈ p.ids := hp.mem_ids ((hp.seen old).2 (by rw [hqueue]; exact List.mem_cons_self))
        obtain ⟨m, hm, rfl⟩ := List.mem_map.1 hin
        exact hp.named m hm
      rw [hqueue] at hmem
      rw [List.cons_append, List.head?_cons, List.tail_cons]
      dsimp only
      rw [if_neg hold, Finset.mem_erase, hmem, List.cons_append, List.mem_cons]
      constructor
      · rintro ⟨hne, h | h⟩
        · exact absurd h hne
        · exact h
      · intro h
        exact ⟨fun heq => hnodup.1 (heq ▸ h), .inr h⟩
  · exact hmem

theorem seen_message (hp : p.Seen) (data : StreamData) :
    Seen { p with store := (p.store.onmessage data).1, accepted := p.accepted ++ (p.store.takes data).toList } := by
  rcases p.store.onmessage_cases data with ⟨htakes, heq⟩ | ⟨m, -, htakes, hid, hnew, ids, heq, hids⟩
  · rw [heq, htakes, Option.toList_none, List.append_nil]
    exact ⟨hp.queue, hp.seen, hp.spaced, hp.named, hp.last⟩
  · rw [heq, htakes, Option.toList_some]
    have hmap : (p.accepted ++ [m]).map (·.eventId) = p.ids ++ [m.eventId] := List.map_append
    refine ⟨?_, fun x => ?_, ?_, fun m' hm' => ?_, ?_⟩
    · dsimp only [SseProvider.ids]
      rw [hmap, hp.queue]
      exact Window.push_rtake (by decide) _ _
    · dsimp only
      rw [hids]
      exact hp.push hnew x
    · dsimp only [SseProvider.ids]
      rw [hmap]
      exact hp.spaced.snoc fun h => hnew ((hp.seen _).2 (hp.queue ▸ h))
    · rcases List.mem_append.1 hm' with hm' | hm'
      · exact hp.named m' hm'
      · rw [List.mem_singleton.1 hm']
        exact hid
    · dsimp only
      rw [List.getLast?_append]
      rfl

/-- After a message its id is empty or one of those taken. -/
theorem Seen.received (hp : p.Seen) {data : StreamData} {m : SagaSseMessage} (hm : data.message? = some m) :
    m.eventId = "" ∨ m.eventId ∈ (p.accepted ++ (p.store.takes data).toList).map (·.eventId) := by
  cases data with
  | heartbeat => cases hm
  | update data =>
    cases hm
    rw [List.map_append]
    cases htakes : p.store.takes (.update m) with
    | none =>
      exact (SseStore.of_takes_none htakes).imp_right fun hseen => List.mem_append_left _ (hp.mem_ids hseen)
    | some m' =>
      have heq : m' = m := by
        unfold SseStore.takes at htakes
        simp only [Option.ite_none_right_eq_some, Option.some.injEq] at htakes
        exact htakes.2.symm
      exact .inr (List.mem_append_right _ (by rw [heq]; exact List.mem_singleton_self _))

/-- Only messages change what the store has seen. -/
theorem seen_frame (h : p.step a = some p') (ha : ∀ k data, a ≠ .message k data) :
    p'.accepted = p.accepted ∧ p'.store.seenIds = p.store.seenIds ∧ p'.store.seenQueue = p.store.seenQueue ∧
      p'.store.lastPublishedAt = p.store.lastPublishedAt := by
  have hconnect : ∀ store : SseStore, store.connect.seenIds = store.seenIds ∧
      store.connect.seenQueue = store.seenQueue ∧ store.connect.lastPublishedAt = store.lastPublishedAt := by
    intro store
    unfold SseStore.connect
    split <;> exact ⟨rfl, rfl, rfl⟩
  cases step_move h with
  | mount => exact ⟨rfl, hconnect _⟩
  | reconnect => exact ⟨rfl, hconnect _⟩
  | timeout => exact ⟨rfl, hconnect _⟩
  | message data => exact absurd rfl (ha _ data)
  | unmount | setPaused | opened | error => exact ⟨rfl, rfl, rfl, rfl⟩

theorem seen_step (hp : p.Seen) (h : p.step a = some p') : p'.Seen := by
  by_cases ha : ∃ k data, a = .message k data
  · obtain ⟨k, data, rfl⟩ := ha
    simp only [step, Option.ite_none_right_eq_some, Option.some.injEq] at h
    obtain ⟨-, rfl⟩ := h
    exact seen_message hp data
  · obtain ⟨haccepted, hids, hqueue, hlast⟩ := seen_frame h fun k data heq => ha ⟨k, data, heq⟩
    have heq : p'.ids = p.ids := by
      unfold ids
      rw [haccepted]
    exact ⟨by rw [hqueue, heq]; exact hp.queue, by rw [hids, hqueue]; exact hp.seen, by rw [heq]; exact hp.spaced,
      by rw [haccepted]; exact hp.named, by rw [hlast, haccepted]; exact hp.last⟩

end SseProvider

end Saga.Monitor
