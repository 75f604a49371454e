/-
A partition and the consumer of the transport over many batches: KafkaJS fetches a batch from its position,
awaits the call of `processBatch`, goes on from the offset that was resolved last, commits that position, and
takes the committed one up again after a restart. Where none is committed yet it begins at the first message with
`fromBeginning` and behind the last one without it. A call whose promise rejected still has groups that run on;
they resolve offsets and call handlers while a later call has the same messages.

What KafkaJS does around `processBatch` is assumed as its documentation has it; the offsets of a partition are
distinct, and a position is the place of a message in it.
-/
import SagaProofs.Kafka.Position

namespace Saga.Kafka

open Lts

variable {Buffer : Type}

/-! ## States -/

/-- A call of `processBatch`: where its batch begins in the partition, the batch, and how far the call is. -/
structure BatchCall (Buffer : Type) where
  base : ℕ
  batch : Batch Buffer
  state : ConsumerState Buffer

/-- A partition, the calls begun on it, whether KafkaJS awaits the last of them, the position it fetches from
next, the committed position, all that the calls did, with positions in the partition, and how many messages a
start behind the last one has passed over. -/
structure PartitionState (Buffer : Type) where
  messages : List (KafkaMessage Buffer)
  calls : List (BatchCall Buffer)
  awaiting : Bool
  position : ℕ
  committed : Option ℕ
  history : List Event
  passed : ℕ

def PartitionState.empty : PartitionState Buffer := ⟨[], [], false, 0, none, [], 0⟩

/-- A producer writes a message; KafkaJS fetches at most `n` messages; a call, the awaited one or an earlier
one, takes a step; KafkaJS goes on after the awaited call; it commits its position; it starts, or starts again. -/
inductive PartitionAct (Buffer : Type)
  | produce (m : KafkaMessage Buffer)
  | fetch (n : ℕ)
  | call (c : ℕ) (a : ConsumerAct)
  | proceed
  | commit
  | restart

/-- An event of a call whose batch begins at `base`. -/
def Event.shift (base : ℕ) : Event → Event
  | .started i m => .started (base + i) m
  | .fulfilled i => .fulfilled (base + i)
  | .rejected i => .rejected (base + i)
  | .beatRejected i => .beatRejected (base + i)
  | .resolved o => .resolved o
  | .settled r => .settled r

/-- The offset a step of a call passes to KafkaJS last, with the events of the step. -/
def ConsumerAct.resolves (after : ConsumerState Buffer) (events : List Event) : ConsumerAct → Option String
  | .batch _ => (resolvedOffsets events).getLast?
  | .autoResolve => after.autoResolved

/-- The position behind the message of the batch with an offset. -/
def BatchCall.behind (c : BatchCall Buffer) (offset : String) : ℕ := c.base + c.batch.offsets.idxOf offset + 1

/-- KafkaJS goes on after a call that rejected, or that fulfilled and had its last offset resolved. -/
def ConsumerState.ended (s : ConsumerState Buffer) : Bool :=
  promiseAll s.batch.groups == some .rejected || s.autoResolved.isSome

section Steps

variable (str : Buffer → String) (opts : KafkaTransportOptions) (topic : String) (fromBeginning : Option Bool)

/-- The call of `processBatch` on at most `n` messages from a position. -/
def PartitionState.begins (s : PartitionState Buffer) (n : ℕ) : BatchCall Buffer :=
  let batch : Batch Buffer := ⟨topic, (s.messages.drop s.position).take n⟩
  ⟨s.position, batch, consumerInit str batch⟩

/-- KafkaJS starts. -/
def PartitionState.start (s : PartitionState Buffer) : PartitionState Buffer :=
  match s.committed with
  | some position => { s with position, awaiting := false }
  | none =>
    if fromBeginning.getD false then { s with position := 0, awaiting := false }
    else { s with position := s.messages.length, awaiting := false, passed := s.messages.length }

def partitionStep (s : PartitionState Buffer) : PartitionAct Buffer → Option (PartitionState Buffer)
  | .produce m =>
    if m.offset ∈ s.messages.map (·.offset) then none else some { s with messages := s.messages ++ [m] }
  | .fetch n =>
    -- an empty batch is not handed over
    if s.awaiting = false ∧ 0 < n ∧ s.position < s.messages.length then
      some { s with calls := s.calls ++ [s.begins str topic n], awaiting := true }
    else none
  | .call c a =>
    match s.calls[c]? with
    | some call =>
      (consumerStep str opts (connectConsumerWithRetry.runConfig opts) call.batch call.state a).map fun after =>
        let events := after.batch.log.drop call.state.batch.log.length
        { s with
          calls := s.calls.set c { call with state := after }
          position := ((a.resolves after events).map call.behind).getD s.position
          history := s.history ++ events.map (.shift call.base) }
    | none => none
  | .proceed =>
    if s.awaiting = true ∧ (s.calls.getLast?.any fun c => c.state.ended) = true then some { s with awaiting := false }
    else none
  | .commit => some { s with committed := some s.position }
  | .restart => some (s.start fromBeginning)

end Steps

/-! ## What a step can do -/

variable {str : Buffer → String} {opts : KafkaTransportOptions} {topic : String} {fromBeginning : Option Bool}
variable {batch : Batch Buffer}

theorem step_log {s s' : BatchState Buffer} {a : Act} (h : step str opts batch s a = some s') : s.log <+: s'.log := by
  rcases step_cases h with ⟨g, gs, tr, gs', events, -, -, -, -, rfl⟩ | ⟨ticks, unhandled, -, rfl⟩
  · exact List.prefix_append _ _
  · exact List.prefix_refl _

theorem consumerStep_log {config : RunConfig} {s s' : ConsumerState Buffer} {a : ConsumerAct}
    (h : consumerStep str opts config batch s a = some s') : s.batch.log <+: s'.batch.log := by
  rcases consumerStep_cases h with ⟨b, t, rfl, ht, rfl⟩ | ⟨rfl, -, -, -, o, -, rfl⟩
  · exact step_log ht
  · exact List.prefix_refl _

section Cases

variable {s s' : PartitionState Buffer} {a : PartitionAct Buffer}

/-- What a step can do; the step of a call with the events it adds to the log of the call. -/
theorem partitionStep_cases (h : partitionStep str opts topic fromBeginning s a = some s') :
    (∃ m, a = .produce m ∧ m.offset ∉ s.messages.map (·.offset) ∧ s' = { s with messages := s.messages ++ [m] }) ∨
    (∃ n, a = .fetch n ∧ s.awaiting = false ∧ 0 < n ∧ s.position < s.messages.length ∧
      s' = { s with calls := s.calls ++ [s.begins str topic n], awaiting := true }) ∨
    (∃ c b call after events, a = .call c b ∧ s.calls[c]? = some call ∧
      consumerStep str opts (connectConsumerWithRetry.runConfig opts) call.batch call.state b = some after ∧
      after.batch.log = call.state.batch.log ++ events ∧
      s' = { s with
        calls := s.calls.set c { call with state := after }
        position := ((b.resolves after events).map call.behind).getD s.position
        history := s.history ++ events.map (.shift call.base) }) ∨
    (a = .proceed ∧ s.awaiting = true ∧ (s.calls.getLast?.any fun c => c.state.ended) = true ∧
      s' = { s with awaiting := false }) ∨
    (a = .commit ∧ s' = { s with committed := some s.position }) ∨
    (a = .restart ∧ s' = s.start fromBeginning) := by
  cases a with
  | produce m =>
    simp only [partitionStep] at h
    split at h
    · cases h
    · rename_i hm
      cases h
      exact .inl ⟨m, rfl, hm, rfl⟩
  | fetch n =>
    simp only [partitionStep] at h
    split at h
    · rename_i hc
      cases h
      exact .inr (.inl ⟨n, rfl, hc.1, hc.2.1, hc.2.2, rfl⟩)
    · cases h
  | call c b =>
    simp only [partitionStep] at h
    split at h
    · rename_i call hcall
      obtain ⟨after, hafter, rfl⟩ := Option.map_eq_some_iff.1 h
      obtain ⟨events, hev⟩ := consumerStep_log hafter
      have hdrop : after.batch.log.drop call.state.batch.log.length = events := by
        rw [← hev, List.drop_left]
      refine .inr (.inr (.inl ⟨c, b, call, after, events, rfl, hcall, hafter, hev.symm, ?_⟩))
      simp only [hdrop]
    · cases h
  | proceed =>
    simp only [partitionStep] at h
    split at h
    · rename_i hc
      cases h
      exact .inr (.inr (.inr (.inl ⟨rfl, hc.1, hc.2, rfl⟩)))
    · cases h
  | commit =>
    cases h
    exact .inr (.inr (.inr (.inr (.inl ⟨rfl, rfl⟩))))
  | restart =>
    cases h
    exact .inr (.inr (.inr (.inr (.inr ⟨rfl, rfl⟩))))

end Cases

/-- A start keeps the messages, the calls and what they did, and begins at the committed position, at the first
message or, where it passes over all there are, behind the last. -/
theorem start_cases (fromBeginning : Option Bool) (s : PartitionState Buffer) :
    (∃ p, s.committed = some p ∧ s.start fromBeginning = { s with position := p, awaiting := false }) ∨
    (s.committed = none ∧ fromBeginning = some true ∧
      s.start fromBeginning = { s with position := 0, awaiting := false }) ∨
    (s.committed = none ∧ fromBeginning ≠ some true ∧ s.start fromBeginning =
      { s with position := s.messages.length, awaiting := false, passed := s.messages.length }) := by
  unfold PartitionState.start
  cases hc : s.committed with
  | some p => exact .inl ⟨p, rfl, rfl⟩
  | none =>
    rcases fromBeginning with _ | _ | _
    · exact .inr (.inr ⟨rfl, by simp, rfl⟩)
    · exact .inr (.inr ⟨rfl, by simp, rfl⟩)
    · exact .inr (.inl ⟨rfl, rfl, rfl⟩)

/-! ## No message is passed over unseen -/

/-- The handler of the message at a position has fulfilled in some call. -/
def PartitionState.Handled (s : PartitionState Buffer) (i : ℕ) : Prop :=
  ∃ c ∈ s.calls, ∃ k, c.base + k = i ∧ Event.fulfilled k ∈ c.state.batch.log

/-- A call was resolved by KafkaJS though one of its loops was stopped before the message. -/
def PartitionState.LeftBehind (s : PartitionState Buffer) (i : ℕ) : Prop :=
  ∃ c ∈ s.calls, c.state.autoResolved ≠ none ∧ ∃ gs ∈ c.state.batch.groups, gs.phase.isReturned = true ∧
    ∃ e ∈ gs.todo, c.base + e.2 = i

/-- A start without a committed position began behind the message. -/
def PartitionState.PassedOver (s : PartitionState Buffer) (i : ℕ) : Prop := i < s.passed

/-- Every position before `n` was handled, left behind or passed over. -/
def PartitionState.Covers (s : PartitionState Buffer) (n : ℕ) : Prop :=
  ∀ i < n, s.Handled i ∨ s.LeftBehind i ∨ s.PassedOver i

/-- A call is a run of `processBatch` on a stretch of the partition. -/
structure BatchCall.Sound (str : Buffer → String) (opts : KafkaTransportOptions) (topic : String)
    (messages : List (KafkaMessage Buffer)) (c : BatchCall Buffer) : Prop where
  topic : c.batch.topic = topic
  reachable : Reachable (consumerStep str opts (connectConsumerWithRetry.runConfig opts) c.batch)
    (consumerInit str c.batch) c.state
  stretch : ∃ before after, messages = before ++ c.batch.messages ++ after ∧ before.length = c.base

structure PartitionInv (str : Buffer → String) (opts : KafkaTransportOptions) (topic : String)
    (s : PartitionState Buffer) : Prop where
  distinct : (s.messages.map (·.offset)).Nodup
  calls : ∀ c ∈ s.calls, c.Sound str opts topic s.messages
  bases : ∀ c ∈ s.calls, s.Covers c.base
  position : s.Covers s.position
  committed : ∀ p, s.committed = some p → s.Covers p
  passed : s.passed ≤ s.messages.length

section AtLeastOnce

variable {s s' : PartitionState Buffer} {a : PartitionAct Buffer}

theorem BatchCall.Sound.offsets_nodup {messages : List (KafkaMessage Buffer)} {c : BatchCall Buffer}
    (h : c.Sound str opts topic messages) (hd : (messages.map (·.offset)).Nodup) : c.batch.offsets.Nodup := by
  obtain ⟨before, after, rfl, -⟩ := h.stretch
  rw [List.map_append, List.map_append] at hd
  exact (List.nodup_append.1 (List.nodup_append.1 hd).1).2.1

theorem BatchCall.Sound.inv {messages : List (KafkaMessage Buffer)} {c : BatchCall Buffer}
    (h : c.Sound str opts topic messages) : Inv str c.batch c.state.batch :=
  inv_reachable (consumer_batch_reachable h.reachable)

theorem BatchCall.Sound.produce {messages : List (KafkaMessage Buffer)} {c : BatchCall Buffer}
    (h : c.Sound str opts topic messages) (m : KafkaMessage Buffer) : c.Sound str opts topic (messages ++ [m]) := by
  obtain ⟨before, after, rfl, hlen⟩ := h.stretch
  exact ⟨h.topic, h.reachable, before, after ++ [m], by simp, hlen⟩

theorem BatchCall.Sound.step {messages : List (KafkaMessage Buffer)} {c : BatchCall Buffer} {b : ConsumerAct}
    {after : ConsumerState Buffer} (h : c.Sound str opts topic messages)
    (hs : consumerStep str opts (connectConsumerWithRetry.runConfig opts) c.batch c.state b = some after) :
    BatchCall.Sound str opts topic messages { c with state := after } :=
  ⟨h.topic, h.reachable.trans (.head hs (.refl _)), h.stretch⟩

/-- The new call is on the stretch from the position. -/
theorem sound_begins (h : s.position < s.messages.length) (n : ℕ) :
    (s.begins str topic n).Sound str opts topic s.messages := by
  refine ⟨rfl, .refl _, s.messages.take s.position, (s.messages.drop s.position).drop n, ?_, ?_⟩
  · show s.messages = s.messages.take s.position ++ (s.messages.drop s.position).take n ++ _
    rw [List.append_assoc, List.take_append_drop, List.take_append_drop]
  · exact List.length_take_of_le h.le

/-- When all groups have returned each message is fulfilled or is left in a group. -/
theorem Inv.fulfilled_or_left {s : BatchState Buffer} (hi : Inv str batch s)
    (hret : ∀ gs ∈ s.groups, gs.phase.isReturned = true) {f : Entry Buffer} (hf : f ∈ batch.entries) :
    Event.fulfilled f.2 ∈ s.log ∨ ∃ gs ∈ s.groups, gs.phase.isReturned = true ∧ f ∈ gs.todo := by
  obtain ⟨g, p, gs, -, hfp, hg, began, hes, -, hph⟩ := hi.exists_group hf
  have hmem := List.mem_of_getElem? hg
  have hphase := hret gs hmem
  rw [hes] at hfp
  rcases List.mem_append.1 hfp with hb | ht
  · cases hc : gs.phase with
    | returned =>
      rw [hc] at hph
      exact .inl (hph f hb)
    | _ => rw [hc] at hphase; cases hphase
  · exact .inr ⟨gs, hmem, hphase, ht⟩

/-- A step of a call keeps the groups of a call that KafkaJS has resolved. -/
theorem groups_of_autoResolved {config : RunConfig} {t t' : ConsumerState Buffer} {b : ConsumerAct} (hi : AutoInv batch t)
    (hauto : t.autoResolved ≠ none) (h : consumerStep str opts config batch t b = some t') :
    t'.autoResolved = t.autoResolved ∧ t'.batch.groups = t.batch.groups ∧ t'.batch.log = t.batch.log := by
  rcases consumerStep_cases h with ⟨b, u, rfl, hu, rfl⟩ | ⟨rfl, -, -, hnone, o, -, rfl⟩
  · rcases step_cases hu with ⟨g, gs, tr, gs', events, -, hgs, hm, -, rfl⟩ | ⟨ticks, unhandled, -, rfl⟩
    · have hret := hi.returned hauto gs (List.mem_of_getElem? hgs)
      rw [hm.not_returned] at hret
      cases hret
    · exact ⟨rfl, rfl, rfl⟩
  · exact absurd hnone hauto

theorem passed_step (hp : s.passed ≤ s.messages.length) (h : partitionStep str opts topic fromBeginning s a = some s') :
    s.passed ≤ s'.passed ∧ s'.passed ≤ s'.messages.length := by
  rcases partitionStep_cases h with ⟨m, rfl, -, rfl⟩ | ⟨n, rfl, -, -, -, rfl⟩ |
    ⟨k, b, call, after, events, rfl, -, -, -, rfl⟩ | ⟨rfl, -, -, rfl⟩ | ⟨rfl, rfl⟩ | ⟨rfl, rfl⟩
  · refine ⟨le_rfl, ?_⟩
    rw [List.length_append]
    exact hp.trans (Nat.le_add_right ..)
  · exact ⟨le_rfl, hp⟩
  · exact ⟨le_rfl, hp⟩
  · exact ⟨le_rfl, hp⟩
  · exact ⟨le_rfl, hp⟩
  · rcases start_cases fromBeginning s with ⟨p, -, hs⟩ | ⟨-, -, hs⟩ | ⟨-, -, hs⟩
    · rw [hs]
      exact ⟨le_rfl, hp⟩
    · rw [hs]
      exact ⟨le_rfl, hp⟩
    · rw [hs]
      exact ⟨hp, le_rfl⟩

theorem start_calls (fromBeginning : Option Bool) (s : PartitionState Buffer) :
    (s.start fromBeginning).calls = s.calls ∧ (s.start fromBeginning).messages = s.messages ∧
      (s.start fromBeginning).committed = s.committed ∧ (s.start fromBeginning).history = s.history := by
  rcases start_cases fromBeginning s with ⟨p, hc, hs⟩ | ⟨-, -, hs⟩ | ⟨-, -, hs⟩
  · rw [hs]
    exact ⟨rfl, rfl, rfl, rfl⟩
  · rw [hs]
    exact ⟨rfl, rfl, rfl, rfl⟩
  · rw [hs]
    exact ⟨rfl, rfl, rfl, rfl⟩

/-- What was handled, left behind or passed over stays so. -/
theorem Covers.step {n : ℕ} (hi : ∀ c ∈ s.calls, c.Sound str opts topic s.messages) (hp : s.passed ≤ s.messages.length)
    (h : partitionStep str opts topic fromBeginning s a = some s') (hc : s.Covers n) : s'.Covers n := by
  -- every call goes on as one with a longer log, and with its groups once KafkaJS has resolved it
  suffices hgrow : ∀ c ∈ s.calls, ∃ c' ∈ s'.calls, c'.base = c.base ∧ c.state.batch.log ⊆ c'.state.batch.log ∧
      (c.state.autoResolved ≠ none → c'.state.autoResolved ≠ none ∧ c'.state.batch.groups = c.state.batch.groups) by
    intro i hlt
    rcases hc i hlt with ⟨c, hmem, k, rfl, hk⟩ | ⟨c, hmem, hauto, gs, hgs, hret, e, he, rfl⟩ | hpassed
    · obtain ⟨c', hc', hbase, hlog, -⟩ := hgrow c hmem
      exact .inl ⟨c', hc', k, by rw [hbase], hlog hk⟩
    · obtain ⟨c', hc', hbase, -, hkeep⟩ := hgrow c hmem
      obtain ⟨hauto', hgroups⟩ := hkeep hauto
      exact .inr (.inl ⟨c', hc', hauto', gs, by rw [hgroups]; exact hgs, hret, e, he, by rw [hbase]⟩)
    · exact .inr (.inr (Nat.lt_of_lt_of_le hpassed (passed_step hp h).1))
  have hsame : ∀ c, c ∈ s'.calls → ∃ c' ∈ s'.calls, c'.base = c.base ∧ c.state.batch.log ⊆ c'.state.batch.log ∧
      (c.state.autoResolved ≠ none → c'.state.autoResolved ≠ none ∧ c'.state.batch.groups = c.state.batch.groups) :=
    fun c hmem => ⟨c, hmem, rfl, fun _ h => h, fun hne => ⟨hne, rfl⟩⟩
  intro c hmem
  rcases partitionStep_cases h with ⟨m, rfl, -, rfl⟩ | ⟨n, rfl, -, -, -, rfl⟩ |
    ⟨k, b, call, after, events, rfl, hcall, hafter, hlog, rfl⟩ | ⟨rfl, -, -, rfl⟩ | ⟨rfl, rfl⟩ | ⟨rfl, rfl⟩
  · exact hsame c hmem
  · exact hsame c (List.mem_append_left _ hmem)
  · obtain ⟨j, hj⟩ := List.mem_iff_getElem?.1 hmem
    by_cases hkj : k = j
    · subst hkj
      obtain rfl := Option.some.inj (hcall.symm.trans hj)
      refine ⟨{ call with state := after }, List.mem_set (List.getElem?_eq_some_iff.1 hcall).1 _, rfl, ?_, fun hne => ?_⟩
      · show call.state.batch.log ⊆ after.batch.log
        rw [hlog]
        exact List.subset_append_left _ _
      · obtain ⟨hauto, hgroups, -⟩ := groups_of_autoResolved (autoInv_reachable (hi call hmem).reachable) hne hafter
        exact ⟨fun hnone => hne (hauto.symm.trans hnone), hgroups⟩
    · exact hsame c (List.mem_of_getElem? (i := j) (by rw [List.getElem?_set_ne hkj]; exact hj))
  · exact hsame c hmem
  · exact hsame c hmem
  · exact hsame c (by rw [(start_calls fromBeginning s).1]; exact hmem)

/-- The messages of a call up to an offset it resolves were handled, left behind or passed over. -/
theorem covers_behind {messages : List (KafkaMessage Buffer)} {c : BatchCall Buffer} (hc : c ∈ s.calls)
    (hs : c.Sound str opts topic messages) (hd : (messages.map (·.offset)).Nodup) (hbase : s.Covers c.base) {o : String}
    (ho : c.state.Resolves o) : s.Covers (c.behind o) := by
  have hdc := hs.offsets_nodup hd
  have hin : ∃ e ∈ c.batch.entries, e.1.offset = o ∧ ∀ f ∈ c.batch.entries, f.2 ≤ e.2 →
      s.Handled (c.base + f.2) ∨ s.LeftBehind (c.base + f.2) ∨ s.PassedOver (c.base + f.2) := by
    rcases ho with hlog | hauto
    · obtain ⟨pre, post, heq⟩ := List.append_of_mem hlog
      obtain ⟨e, he, heo, hall⟩ := hs.inv.resolved hdc heq
      refine ⟨e, he, heo, fun f hf hle => .inl ⟨c, hc, f.2, rfl, ?_⟩⟩
      rw [heq]
      exact List.mem_append_left _ (hall f hf hle)
    · have ha := autoInv_reachable hs.reachable
      have hne : c.state.autoResolved ≠ none := by
        rw [hauto]
        exact Option.some_ne_none o
      have hlast := ha.offset o hauto
      unfold Batch.lastOffset at hlast
      rw [List.getLast?_eq_getElem?] at hlast
      obtain ⟨e, he, -, heo⟩ := offsets_getElem?.1 hlast
      refine ⟨e, he, heo, fun f hf _ => ?_⟩
      rcases hs.inv.fulfilled_or_left (ha.returned hne) hf with hful | ⟨gs, hgs, hret, htodo⟩
      · exact .inl ⟨c, hc, f.2, rfl, hful⟩
      · exact .inr (.inl ⟨c, hc, hne, gs, hgs, hret, f, htodo, rfl⟩)
  obtain ⟨e, he, rfl, hall⟩ := hin
  intro i hi
  have hidx : c.batch.offsets.idxOf e.1.offset = e.2 := idxOf_offset hdc (offsets_getElem?.2 ⟨e, he, rfl, rfl⟩)
  unfold BatchCall.behind at hi
  rw [hidx] at hi
  rcases Nat.lt_or_ge i c.base with hlt | hge
  · exact hbase i hlt
  · obtain ⟨k, rfl⟩ := Nat.exists_eq_add_of_le hge
    have hlen : k < c.batch.offsets.length := by
      have := (List.getElem?_eq_some_iff.1 (offsets_getElem?.2 ⟨e, he, rfl, rfl⟩)).1
      omega
    obtain ⟨f, hf, rfl, -⟩ := offsets_getElem?.1 (List.getElem?_eq_getElem hlen)
    exact hall f hf (by omega)

/-- What a step resolves is resolved after it. -/
theorem resolves_of_step {config : RunConfig} {t t' : ConsumerState Buffer} {b : ConsumerAct} {events : List Event}
    {o : String} (hlog : t'.batch.log = t.batch.log ++ events)
    (h : consumerStep str opts config batch t b = some t') (ho : b.resolves t' events = some o) : t'.Resolves o := by
  cases b with
  | batch b =>
    left
    rw [hlog]
    exact List.mem_append_right _ (mem_resolvedOffsets.1 (List.mem_of_getLast? ho))
  | autoResolve => exact .inr ho

theorem partitionInv_empty : PartitionInv str opts topic (.empty : PartitionState Buffer) where
  distinct := List.nodup_nil
  calls _ h := absurd h List.not_mem_nil
  bases _ h := absurd h List.not_mem_nil
  position _ h := absurd h (Nat.not_lt_zero _)
  committed _ h := by cases h
  passed := le_rfl

theorem partitionInv_step (hi : PartitionInv str opts topic s) (h : partitionStep str opts topic fromBeginning s a = some s') :
    PartitionInv str opts topic s' := by
  have hkeep : ∀ {n}, s.Covers n → s'.Covers n := fun hc => Covers.step hi.calls hi.passed h hc
  have hbases : ∀ c ∈ s.calls, s'.Covers c.base := fun c hc => hkeep (hi.bases c hc)
  have hpos := hkeep hi.position
  have hcom : ∀ p, s.committed = some p → s'.Covers p := fun p hp => hkeep (hi.committed p hp)
  have hpassed := (passed_step hi.passed h).2
  rcases partitionStep_cases h with ⟨m, rfl, hm, rfl⟩ | ⟨n, rfl, -, -, hlt, rfl⟩ |
    ⟨k, b, call, after, events, rfl, hcall, hafter, hlog, rfl⟩ | ⟨rfl, -, -, rfl⟩ | ⟨rfl, rfl⟩ | ⟨rfl, rfl⟩
  · refine ⟨?_, fun c hc => (hi.calls c hc).produce m, hbases, hpos, hcom, hpassed⟩
    rw [List.map_append, List.map_singleton]
    exact List.nodup_append.2 ⟨hi.distinct, List.nodup_singleton _, fun o ho o' ho' heq => by
      rw [List.mem_singleton] at ho'
      exact hm (ho' ▸ heq ▸ ho)⟩
  · refine ⟨hi.distinct, fun c hc => ?_, fun c hc => ?_, hpos, hcom, hpassed⟩
    · rcases List.mem_append.1 hc with hc | hc
      · exact hi.calls c hc
      · rw [List.mem_singleton.1 hc]
        exact sound_begins hlt n
    · rcases List.mem_append.1 hc with hc | hc
      · exact hbases c hc
      · rw [List.mem_singleton.1 hc]
        exact hpos
  · have hmem := List.mem_of_getElem? hcall
    have hset : ({ call with state := after } : BatchCall Buffer) ∈ s.calls.set k { call with state := after } :=
      List.mem_set (List.getElem?_eq_some_iff.1 hcall).1 _
    have hsound := (hi.calls call hmem).step hafter
    refine ⟨hi.distinct, fun c hc => ?_, fun c hc => ?_, ?_, hcom, hpassed⟩
    · rcases List.mem_or_eq_of_mem_set hc with hc | rfl
      · exact hi.calls c hc
      · exact hsound
    · rcases List.mem_or_eq_of_mem_set hc with hc | rfl
      · exact hbases c hc
      · exact hbases call hmem
    · show PartitionState.Covers _ (((b.resolves after events).map call.behind).getD s.position)
      cases ho : b.resolves after events with
      | none => exact hpos
      | some o =>
        exact covers_behind (c := { call with state := after }) hset hsound hi.distinct (hbases call hmem)
          (resolves_of_step hlog hafter ho)
  · exact ⟨hi.distinct, hi.calls, hbases, hpos, hcom, hpassed⟩
  · refine ⟨hi.distinct, hi.calls, hbases, hpos, ?_, hpassed⟩
    rintro p ⟨⟩
    exact hpos
  · obtain ⟨hcalls, hmessages, hcommitted, -⟩ := start_calls fromBeginning s
    refine ⟨by rw [hmessages]; exact hi.distinct, fun c hc => ?_, fun c hc => ?_, ?_, ?_, hpassed⟩
    · rw [hmessages]
      exact hi.calls c (hcalls ▸ hc)
    · exact hbases c (hcalls ▸ hc)
    · rcases start_cases fromBeginning s with ⟨p, hp, hs⟩ | ⟨-, -, hs⟩ | ⟨-, -, hs⟩
      · have hposition : (s.start fromBeginning).position = p := by rw [hs]
        rw [hposition]
        exact hcom p hp
      · have hposition : (s.start fromBeginning).position = 0 := by rw [hs]
        rw [hposition]
        exact fun i hi => absurd hi (Nat.not_lt_zero i)
      · -- all messages there are have been passed over
        have hposition : (s.start fromBeginning).position = (s.start fromBeginning).passed := by rw [hs]
        rw [hposition]
        exact fun i hi => .inr (.inr hi)
    · rw [hcommitted]
      exact hcom

theorem partitionInv_run {as : List (PartitionAct Buffer)} (h : run (partitionStep str opts topic fromBeginning) .empty as = some s) :
    PartitionInv str opts topic s := run_induction (fun _ _ _ hi hs => partitionInv_step hi hs) partitionInv_empty h

/-- The action does not stop a loop that has a message left. -/
def PartitionState.Continues (s : PartitionState Buffer) : PartitionAct Buffer → Prop
  | .call c b => ∀ call, s.calls[c]? = some call → call.state.Continues b
  | _ => True

theorem all_continue_iff {o : Option (BatchCall Buffer)} {b : ConsumerAct} :
    (o.all fun call => decide (call.state.Continues b)) = true ↔ ∀ call, o = some call → call.state.Continues b := by
  cases o <;> simp

instance (s : PartitionState Buffer) : DecidablePred s.Continues
  | .call _ _ => decidable_of_iff _ all_continue_iff
  | .produce _ | .fetch _ | .proceed | .commit | .restart => .isTrue trivial

theorem not_stopped_init : ¬ (init str batch).Stopped := by
  rintro ⟨gs, hgs, hret, -⟩
  obtain ⟨p, -, rfl⟩ := List.mem_map.1 hgs
  cases hret

theorem consumer_stopped_step {config : RunConfig} {t t' : ConsumerState Buffer} {b : ConsumerAct}
    (h : consumerStep str opts config batch t b = some t') :
    ¬ t'.batch.Stopped ↔ ¬ t.batch.Stopped ∧ t.Continues b := by
  rcases consumerStep_cases h with ⟨b, u, rfl, hu, rfl⟩ | ⟨rfl, -, -, -, o, -, rfl⟩
  · rw [stopped_step hu, not_or, Bool.not_eq_true]
    rfl
  · simp [ConsumerState.Continues]

theorem not_stopped_step (hn : ∀ c ∈ s.calls, ¬ c.state.batch.Stopped) (hc : s.Continues a)
    (h : partitionStep str opts topic fromBeginning s a = some s') : ∀ c ∈ s'.calls, ¬ c.state.batch.Stopped := by
  intro c hmem
  rcases partitionStep_cases h with ⟨m, rfl, -, rfl⟩ | ⟨n, rfl, -, -, -, rfl⟩ |
    ⟨k, b, call, after, events, rfl, hcall, hafter, -, rfl⟩ | ⟨rfl, -, -, rfl⟩ | ⟨rfl, rfl⟩ | ⟨rfl, rfl⟩
  · exact hn c hmem
  · rcases List.mem_append.1 hmem with hmem | hmem
    · exact hn c hmem
    · rw [List.mem_singleton.1 hmem]
      exact not_stopped_init
  · rcases List.mem_or_eq_of_mem_set hmem with hmem | rfl
    · exact hn c hmem
    · exact (consumer_stopped_step hafter).2 ⟨hn call (List.mem_of_getElem? hcall), hc call hcall⟩
  · exact hn c hmem
  · exact hn c hmem
  · exact hn c ((start_calls fromBeginning s).1 ▸ hmem)

/-- KafkaJS starts only where a position is committed, or from the beginning. -/
def PartitionState.Resumes (fromBeginning : Option Bool) (s : PartitionState Buffer) : PartitionAct Buffer → Prop
  | .restart => s.committed ≠ none ∨ fromBeginning = some true
  | _ => True

instance (fromBeginning : Option Bool) (s : PartitionState Buffer) : DecidablePred (s.Resumes fromBeginning)
  | .restart => inferInstanceAs (Decidable (_ ∨ _))
  | .produce _ | .fetch _ | .call _ _ | .proceed | .commit => .isTrue trivial

theorem passed_of_resumes (hr : s.Resumes fromBeginning a) (h : partitionStep str opts topic fromBeginning s a = some s') :
    s'.passed = s.passed := by
  rcases partitionStep_cases h with ⟨m, rfl, -, rfl⟩ | ⟨n, rfl, -, -, -, rfl⟩ |
    ⟨k, b, call, after, events, rfl, -, -, -, rfl⟩ | ⟨rfl, -, -, rfl⟩ | ⟨rfl, rfl⟩ | ⟨rfl, rfl⟩
  · rfl
  · rfl
  · rfl
  · rfl
  · rfl
  · rcases start_cases fromBeginning s with ⟨p, -, hs⟩ | ⟨-, -, hs⟩ | ⟨hc, hb, hs⟩
    · rw [hs]
    · rw [hs]
    · exact (hr.elim (fun h => h hc) hb).elim

/-- Whatever rejects, is redelivered or starts again, every message before the committed position, and before
the one KafkaJS fetches from, was handled, was left in a stopped loop of a call that KafkaJS resolved, or was
passed over by a start without a committed position. Where no loop is stopped with a message left, none is left
behind, and where each start finds a position or is from the beginning, none is passed over. -/
theorem handled_of_committed {as : List (PartitionAct Buffer)}
    (h : run (partitionStep str opts topic fromBeginning) .empty as = some s) {i : ℕ}
    (hi : (∃ p, s.committed = some p ∧ i < p) ∨ i < s.position) :
    (s.Handled i ∨ s.LeftBehind i ∨ s.PassedOver i) ∧
    (Each (partitionStep str opts topic fromBeginning) PartitionState.Continues .empty as → ¬ s.LeftBehind i) ∧
    (Each (partitionStep str opts topic fromBeginning) (PartitionState.Resumes fromBeginning) .empty as →
      ¬ s.PassedOver i) := by
  have hinv := partitionInv_run h
  refine ⟨?_, fun hc => ?_, fun hr => ?_⟩
  · rcases hi with ⟨p, hp, hlt⟩ | hlt
    · exact hinv.committed p hp i hlt
    · exact hinv.position i hlt
  · have hn : ∀ c ∈ s.calls, ¬ c.state.batch.Stopped :=
      run_each_induction (I := fun s : PartitionState Buffer => ∀ c ∈ s.calls, ¬ c.state.batch.Stopped)
        (fun _ _ _ hn hc hs => not_stopped_step hn hc hs) (fun c hmem => absurd hmem List.not_mem_nil) hc h
    rintro ⟨c, hmem, -, gs, hgs, hret, e, he, -⟩
    exact hn c hmem ⟨gs, hgs, hret, List.ne_nil_of_mem he⟩
  · have hzero : s.passed = 0 :=
      run_each_induction (I := fun s : PartitionState Buffer => s.passed = 0)
        (fun _ _ _ hz hr hs => (passed_of_resumes hr hs).trans hz) rfl hr h
    unfold PartitionState.PassedOver
    omega

end AtLeastOnce

/-! ## Many batches as one -/

/-- A call of which no group was rejected and no loop stopped with a message left. -/
def BatchCall.Clean (c : BatchCall Buffer) : Prop := ¬ c.state.batch.SomeRejected ∧ ¬ c.state.batch.Stopped

/-- The action rejects no group and stops no loop that has a message left, and KafkaJS does not start again. -/
def PartitionState.Undisturbed (s : PartitionState Buffer) : PartitionAct Buffer → Prop
  | .call c b => b.rejects = false ∧ ∀ call, s.calls[c]? = some call → call.state.Continues b
  | .restart => False
  | _ => True

instance (s : PartitionState Buffer) : DecidablePred s.Undisturbed
  | .call _ b => decidable_of_iff (b.rejects = false ∧ _) (and_congr_right' all_continue_iff)
  | .restart => .isFalse id
  | .produce _ | .fetch _ | .proceed | .commit => .isTrue trivial

/-- The messages before position `n` were handed over and fulfilled, and the log is about no other. -/
structure Before (log : List Event) (n : ℕ) : Prop where
  started : ∀ i < n, i ∈ startedAt log
  fulfilled : ∀ i < n, Event.fulfilled i ∈ log
  below : ∀ ev ∈ log, ∀ i, ev.pos = some i → i < n

/-- The partition as one batch. -/
def PartitionState.whole (topic : String) (s : PartitionState Buffer) : Batch Buffer := ⟨topic, s.messages⟩

/-- An undisturbed run: the calls before the last one are over, and what they did is before where the last one
begins; when it is over too, KafkaJS stands behind it. -/
structure Orderly (s : PartitionState Buffer) : Prop where
  empty : s.calls = [] → s.history = []
  clean : ∀ c ∈ s.calls, c.Clean
  earlier : ∀ cs call, s.calls = cs ++ [call] → ∀ c ∈ cs, c.state.autoResolved ≠ none
  last : ∀ cs call, s.calls = cs ++ [call] →
    ∃ prior, s.history = prior ++ call.state.batch.log.map (.shift call.base) ∧ Before prior call.base
  position : ∀ cs call, s.calls = cs ++ [call] → call.state.autoResolved ≠ none →
    s.position = call.base + call.batch.messages.length
  ended : s.awaiting = false → ∀ c ∈ s.calls, c.state.autoResolved ≠ none
  free : s.awaiting = false → Before s.history s.position

section Undisturbed

variable {s s' : PartitionState Buffer} {a : PartitionAct Buffer}

@[simp] theorem shift_pos (base : ℕ) (ev : Event) : (ev.shift base).pos = ev.pos.map (base + ·) := by
  cases ev <;> rfl

theorem mem_map_shift {base i : ℕ} {log : List Event} :
    Event.fulfilled i ∈ log.map (.shift base) ↔ ∃ k, base + k = i ∧ Event.fulfilled k ∈ log := by
  rw [List.mem_map]
  constructor
  · rintro ⟨ev, hev, h⟩
    cases ev with
    | fulfilled k =>
      cases h
      exact ⟨k, rfl, hev⟩
    | _ => cases h
  · rintro ⟨k, rfl, hk⟩
    exact ⟨_, hk, rfl⟩

theorem mem_startedAt_shift {base i : ℕ} {log : List Event} :
    i ∈ startedAt (log.map (.shift base)) ↔ ∃ k ∈ startedAt log, base + k = i := by
  rw [mem_startedAt]
  constructor
  · rintro ⟨m, hm⟩
    obtain ⟨ev, hev, h⟩ := List.mem_map.1 hm
    cases ev with
    | started k m' =>
      cases h
      exact ⟨k, mem_startedAt.2 ⟨_, hev⟩, rfl⟩
    | _ => cases h
  · rintro ⟨k, hk, rfl⟩
    obtain ⟨m, hm⟩ := mem_startedAt.1 hk
    exact ⟨m, List.mem_map.2 ⟨_, hm, rfl⟩⟩

/-- The log of a batch is about its messages. -/
theorem Inv.pos_lt {s : BatchState Buffer} (hi : Inv str batch s) {ev : Event} (hev : ev ∈ s.log) {i : ℕ}
    (hp : ev.pos = some i) : i < batch.messages.length := by
  have hstarted : i ∈ startedAt s.log := by
    cases ev with
    | started j m =>
      cases hp
      exact mem_startedAt.2 ⟨m, hev⟩
    | fulfilled j =>
      cases hp
      exact hi.ended _ (.inl hev)
    | rejected j =>
      cases hp
      exact hi.ended _ (.inr hev)
    | _ => cases hp
  obtain ⟨e, he, rfl⟩ := hi.started i hstarted
  exact (List.getElem?_eq_some_iff.1 (mem_entries.1 he)).1

/-- A call that is over has fulfilled all of its messages. -/
theorem before_of_over {c : BatchCall Buffer} {messages : List (KafkaMessage Buffer)}
    (hs : c.Sound str opts topic messages) (hc : c.Clean) (hauto : c.state.autoResolved ≠ none) {prior : List Event} (hb : Before prior c.base) :
    Before (prior ++ c.state.batch.log.map (.shift c.base)) (c.base + c.batch.messages.length) := by
  have hall := hs.inv.all_fulfilled ((autoInv_reachable hs.reachable).returned hauto) hc.2
  have hful : ∀ k < c.batch.messages.length, Event.fulfilled k ∈ c.state.batch.log := fun k hk =>
    hall (c.batch.messages[k], k) (mem_entries.2 (List.getElem?_eq_getElem hk))
  constructor
  · intro i hi
    rw [startedAt_append]
    rcases Nat.lt_or_ge i c.base with hlt | hge
    · exact List.mem_append_left _ (hb.started i hlt)
    · obtain ⟨k, rfl⟩ := Nat.exists_eq_add_of_le hge
      exact List.mem_append_right _ (mem_startedAt_shift.2 ⟨k, hs.inv.ended k (.inl (hful k (by omega))), rfl⟩)
  · intro i hi
    rcases Nat.lt_or_ge i c.base with hlt | hge
    · exact List.mem_append_left _ (hb.fulfilled i hlt)
    · obtain ⟨k, rfl⟩ := Nat.exists_eq_add_of_le hge
      exact List.mem_append_right _ (mem_map_shift.2 ⟨k, rfl, hful k (by omega)⟩)
  · intro ev hev i hp
    rcases List.mem_append.1 hev with hev | hev
    · have := hb.below ev hev i hp
      omega
    · obtain ⟨ev, hmem, rfl⟩ := List.mem_map.1 hev
      rw [shift_pos, Option.map_eq_some_iff] at hp
      obtain ⟨k, hk, rfl⟩ := hp
      have := hs.inv.pos_lt hmem hk
      omega

theorem init_log_nil (hne : batch.messages ≠ []) : (init str batch).log = [] := by
  obtain ⟨m, ms, hm⟩ := List.exists_cons_of_ne_nil hne
  have he : (m, 0) ∈ batch.entries := mem_entries.2 (by rw [hm]; rfl)
  obtain ⟨g, p, hp, -⟩ := exists_group str he
  have hpending : promiseAll ((batch.groups str).map fun p => (⟨.idle, p.2⟩ : GroupState Buffer)) = none := by
    refine promiseAll_eq_none.2 ⟨?_, _, List.mem_map_of_mem (List.mem_of_getElem? hp), rfl⟩
    rintro ⟨gs, hgs, hrej⟩
    obtain ⟨q, -, rfl⟩ := List.mem_map.1 hgs
    cases hrej
  unfold init
  simp only [hpending]

theorem clean_init {base : ℕ} : BatchCall.Clean (⟨base, batch, consumerInit str batch⟩ : BatchCall Buffer) := by
  refine ⟨?_, not_stopped_init⟩
  rintro ⟨gs, hgs, hrej⟩
  obtain ⟨p, -, rfl⟩ := List.mem_map.1 hgs
  cases hrej

theorem clean_step {c : BatchCall Buffer} {config : RunConfig} {b : ConsumerAct} {after : ConsumerState Buffer}
    (hc : c.Clean) (hb : b.rejects = false) (hcont : c.state.Continues b)
    (h : consumerStep str opts config c.batch c.state b = some after) :
    BatchCall.Clean { c with state := after } := by
  refine ⟨?_, (consumer_stopped_step h).2 ⟨hc.2, hcont⟩⟩
  show ¬ after.batch.SomeRejected
  rcases consumerStep_cases h with ⟨b, u, rfl, hu, rfl⟩ | ⟨rfl, -, -, -, o, -, rfl⟩
  · rw [someRejected_step hu, not_or]
    exact ⟨hc.1, fun hrej => Bool.false_ne_true (hb.symm.trans hrej)⟩
  · exact hc.1

/-- A step of a call that KafkaJS has resolved does nothing that is seen. -/
theorem silent_of_autoResolved {config : RunConfig} {c : BatchCall Buffer} {b : ConsumerAct} {after : ConsumerState Buffer}
    {events : List Event} (ha : AutoInv c.batch c.state) (hauto : c.state.autoResolved ≠ none)
    (h : consumerStep str opts config c.batch c.state b = some after)
    (hlog : after.batch.log = c.state.batch.log ++ events) :
    events = [] ∧ b.resolves after events = none ∧ after.autoResolved = c.state.autoResolved := by
  obtain ⟨hres, -, hsame⟩ := groups_of_autoResolved ha hauto h
  have hnil : events = [] := by
    rw [hsame] at hlog
    exact List.self_eq_append_right.1 hlog
  refine ⟨hnil, ?_, hres⟩
  cases b with
  | batch b => rw [hnil]; rfl
  | autoResolve =>
    rcases consumerStep_cases h with ⟨_, _, hb, -⟩ | ⟨-, -, -, hnone, -⟩
    · cases hb
    · exact absurd hnone hauto

/-- What KafkaJS resolves after a call is behind its last message. -/
theorem behind_last {c : BatchCall Buffer} (hd : c.batch.offsets.Nodup) {o : String} (ho : c.batch.lastOffset = some o) :
    c.behind o = c.base + c.batch.messages.length := by
  unfold Batch.lastOffset at ho
  rw [List.getLast?_eq_getElem?] at ho
  have hlen : c.batch.offsets.length = c.batch.messages.length := List.length_map _
  have hlt := (List.getElem?_eq_some_iff.1 ho).1
  unfold BatchCall.behind
  rw [idxOf_offset hd ho]
  omega

theorem before_nil : Before [] 0 where
  started _ h := absurd h (Nat.not_lt_zero _)
  fulfilled _ h := absurd h (Nat.not_lt_zero _)
  below _ h := absurd h List.not_mem_nil

theorem orderly_empty : Orderly (.empty : PartitionState Buffer) where
  empty _ := rfl
  clean _ h := absurd h List.not_mem_nil
  earlier _ _ h := absurd h.symm (List.append_ne_nil_of_right_ne_nil _ (List.cons_ne_nil _ _))
  last _ _ h := absurd h.symm (List.append_ne_nil_of_right_ne_nil _ (List.cons_ne_nil _ _))
  position _ _ h := absurd h.symm (List.append_ne_nil_of_right_ne_nil _ (List.cons_ne_nil _ _))
  ended _ _ h := absurd h List.not_mem_nil
  free _ := before_nil

theorem Orderly.fetch (ho : Orderly s) {n : ℕ} (hn : 0 < n) (hlt : s.position < s.messages.length)
    (ha : s.awaiting = false) : Orderly { s with calls := s.calls ++ [s.begins str topic n], awaiting := true } := by
  have hlog : (s.begins str topic n).state.batch.log = [] := by
    refine init_log_nil fun hnil => ?_
    have hlen := congrArg List.length (show (s.messages.drop s.position).take n = [] from hnil)
    simp only [List.length_take, List.length_drop, List.length_nil] at hlen
    omega
  have hsplit : ∀ {cs call}, s.calls ++ [s.begins str topic n] = cs ++ [call] →
      s.calls = cs ∧ s.begins str topic n = call := fun h => by
    obtain ⟨hcs, hcall⟩ := List.append_inj' h rfl
    exact ⟨hcs, List.head_eq_of_cons_eq hcall⟩
  refine ⟨fun h => ?_, fun c hc => ?_, fun cs call h => ?_, fun cs call h => ?_, fun cs call h hauto => ?_,
    fun h => ?_, fun h => ?_⟩
  · exact absurd h (List.append_ne_nil_of_right_ne_nil _ (List.cons_ne_nil _ _))
  · rcases List.mem_append.1 hc with hc | hc
    · exact ho.clean c hc
    · rw [List.mem_singleton.1 hc]
      exact clean_init
  · obtain ⟨rfl, rfl⟩ := hsplit h
    exact ho.ended ha
  · obtain ⟨rfl, rfl⟩ := hsplit h
    refine ⟨s.history, ?_, ho.free ha⟩
    rw [hlog, List.map_nil, List.append_nil]
  · obtain ⟨rfl, rfl⟩ := hsplit h
    exact absurd rfl hauto
  · cases h
  · cases h

theorem Orderly.proceed (ho : Orderly s) (hi : PartitionInv str opts topic s)
    (hended : (s.calls.getLast?.any fun c => c.state.ended) = true) : Orderly { s with awaiting := false } := by
  rcases List.eq_nil_or_concat s.calls with hnil | ⟨cs, call, hcalls⟩
  · rw [hnil] at hended
    cases hended
  · rw [List.concat_eq_append] at hcalls
    have hmem : call ∈ s.calls := by
      rw [hcalls]
      exact List.mem_append_right _ (List.mem_singleton_self call)
    have hauto : call.state.autoResolved ≠ none := by
      rw [hcalls, List.getLast?_append, List.getLast?_singleton, Option.some_or, Option.any_some] at hended
      unfold ConsumerState.ended at hended
      rw [Bool.or_eq_true, beq_iff_eq] at hended
      rcases hended with hrej | hsome
      · refine absurd ?_ (ho.clean call hmem).1
        unfold promiseAll at hrej
        split at hrej
        · rename_i hany
          exact List.any_eq_true.1 hany
        · split at hrej <;> cases hrej
      · exact Option.isSome_iff_ne_none.1 hsome
    have hover : ∀ c ∈ s.calls, c.state.autoResolved ≠ none := by
      intro c hc
      rw [hcalls] at hc
      rcases List.mem_append.1 hc with hc | hc
      · exact ho.earlier cs call hcalls c hc
      · rw [List.mem_singleton.1 hc]
        exact hauto
    refine ⟨ho.empty, ho.clean, ho.earlier, ho.last, ho.position, fun _ => hover, fun _ => ?_⟩
    obtain ⟨prior, hhist, hb⟩ := ho.last cs call hcalls
    show Before s.history s.position
    rw [hhist, ho.position cs call hcalls hauto]
    exact before_of_over (hi.calls call hmem) (ho.clean call hmem) hauto hb

/-- A call takes a step: it is the last one, or it is over and nothing is seen of it. -/
theorem Orderly.call (ho : Orderly s) (hi : PartitionInv str opts topic s) {k : ℕ} {b : ConsumerAct}
    {call : BatchCall Buffer} {after : ConsumerState Buffer} {events : List Event} (hcall : s.calls[k]? = some call)
    (hafter : consumerStep str opts (connectConsumerWithRetry.runConfig opts) call.batch call.state b = some after)
    (hlog : after.batch.log = call.state.batch.log ++ events) (hb : b.rejects = false) (hcont : call.state.Continues b) :
    Orderly { s with
      calls := s.calls.set k { call with state := after }
      position := ((b.resolves after events).map call.behind).getD s.position
      history := s.history ++ events.map (.shift call.base) } := by
  have hmem := List.mem_of_getElem? hcall
  have hsound := hi.calls call hmem
  have hclean : ∀ c ∈ s.calls.set k { call with state := after }, c.Clean := by
    intro c hc
    rcases List.mem_or_eq_of_mem_set hc with hc | rfl
    · exact ho.clean c hc
    · exact clean_step (ho.clean call hmem) hb hcont hafter
  have hsilent := fun hauto => silent_of_autoResolved (autoInv_reachable hsound.reachable) hauto hafter hlog
  have hover : s.awaiting = false → ∀ c ∈ s.calls.set k { call with state := after }, c.state.autoResolved ≠ none := by
    intro ha c hc
    rcases List.mem_or_eq_of_mem_set hc with hc | rfl
    · exact ho.ended ha c hc
    · show after.autoResolved ≠ none
      rw [(hsilent (ho.ended ha call hmem)).2.2]
      exact ho.ended ha call hmem
  have hfree : s.awaiting = false → Before (s.history ++ events.map (.shift call.base))
      (((b.resolves after events).map call.behind).getD s.position) := by
    intro ha
    obtain ⟨rfl, hres, -⟩ := hsilent (ho.ended ha call hmem)
    rw [hres, List.map_nil, List.append_nil]
    exact ho.free ha
  have hne : s.calls.set k { call with state := after } ≠ [] := by
    rw [ne_eq, List.set_eq_nil_iff]
    exact List.ne_nil_of_mem hmem
  -- the calls before the last one and the last one, after the step
  suffices hlast : ∀ cs c, s.calls.set k { call with state := after } = cs ++ [c] →
      (∀ d ∈ cs, d.state.autoResolved ≠ none) ∧
      (∃ prior, s.history ++ events.map (.shift call.base) = prior ++ c.state.batch.log.map (.shift c.base) ∧
        Before prior c.base) ∧
      (c.state.autoResolved ≠ none → ((b.resolves after events).map call.behind).getD s.position =
        c.base + c.batch.messages.length) by
    exact ⟨fun h => absurd h hne, hclean, fun cs c h => (hlast cs c h).1, fun cs c h => (hlast cs c h).2.1,
      fun cs c h => (hlast cs c h).2.2, hover, hfree⟩
  intro cs c hcs
  rcases List.eq_nil_or_concat s.calls with hnil | ⟨cs₀, c₀, hcalls⟩
  · exact absurd hnil (List.ne_nil_of_mem hmem)
  rw [List.concat_eq_append] at hcalls
  have hearlier := ho.earlier cs₀ c₀ hcalls
  obtain ⟨prior, hhist, hbefore⟩ := ho.last cs₀ c₀ hcalls
  have hpos := ho.position cs₀ c₀ hcalls
  rw [hcalls] at hcall hcs
  rcases Nat.lt_or_ge k cs₀.length with hlt | hge
  · -- an earlier call
    rw [List.getElem?_append_left hlt] at hcall
    rw [List.set_append_left _ _ hlt] at hcs
    obtain ⟨rfl, hc⟩ := List.append_inj' hcs rfl
    obtain rfl := List.head_eq_of_cons_eq hc
    have hauto := hearlier call (List.mem_of_getElem? hcall)
    obtain ⟨rfl, hres, hsame⟩ := hsilent hauto
    rw [hres, List.map_nil, List.append_nil]
    refine ⟨fun d hd => ?_, ⟨prior, hhist, hbefore⟩, hpos⟩
    rcases List.mem_or_eq_of_mem_set hd with hd | rfl
    · exact hearlier d hd
    · show after.autoResolved ≠ none
      rw [hsame]
      exact hauto
  · -- the last one
    rw [List.getElem?_append_right hge] at hcall
    have hk : k - cs₀.length = 0 := by
      have := (List.getElem?_eq_some_iff.1 hcall).1
      rw [List.length_singleton] at this
      omega
    rw [hk] at hcall
    obtain rfl := Option.some.inj hcall
    rw [List.set_append_right _ _ hge, hk, List.set_cons_zero] at hcs
    obtain ⟨rfl, hc⟩ := List.append_inj' hcs rfl
    obtain rfl := List.head_eq_of_cons_eq hc
    refine ⟨hearlier, ⟨prior, ?_, hbefore⟩, fun hauto => ?_⟩
    · show _ = prior ++ after.batch.log.map (.shift c₀.base)
      rw [hhist, hlog, List.map_append, List.append_assoc]
    · by_cases hold : c₀.state.autoResolved = none
      · -- KafkaJS resolves the last offset in this step
        rcases consumerStep_cases hafter with ⟨b, u, rfl, -, rfl⟩ | ⟨rfl, -, -, -, o, hlastOffset, rfl⟩
        · exact absurd hold hauto
        · exact behind_last (hsound.offsets_nodup hi.distinct) hlastOffset
      · rw [(hsilent hold).2.1]
        exact hpos hold

theorem orderly_step (ho : Orderly s) (hi : PartitionInv str opts topic s) (hu : s.Undisturbed a)
    (h : partitionStep str opts topic fromBeginning s a = some s') : Orderly s' := by
  rcases partitionStep_cases h with ⟨m, rfl, -, rfl⟩ | ⟨n, rfl, ha, hn, hlt, rfl⟩ |
    ⟨k, b, call, after, events, rfl, hcall, hafter, hlog, rfl⟩ | ⟨rfl, -, hended, rfl⟩ | ⟨rfl, rfl⟩ | ⟨rfl, rfl⟩
  · exact ⟨ho.empty, ho.clean, ho.earlier, ho.last, ho.position, ho.ended, ho.free⟩
  · exact ho.fetch hn hlt ha
  · exact ho.call hi hcall hafter hlog hu.1 (hu.2 call hcall)
  · exact ho.proceed hi hended
  · exact ⟨ho.empty, ho.clean, ho.earlier, ho.last, ho.position, ho.ended, ho.free⟩
  · exact hu.elim

/-! ## The history of the whole partition -/

/-- What justifies an event in a batch justifies it in a longer one, when the messages before were fulfilled. -/
theorem Justifies.lift {prior pre : List Event} {ev : Event} (h : Justifies str batch pre ev)
    (before after : List (KafkaMessage Buffer)) (hb : Before prior before.length)
    (hpre : ∀ e ∈ pre, ∀ i, e.pos = some i → i < batch.messages.length) :
    Justifies str ⟨batch.topic, before ++ batch.messages ++ after⟩ (prior ++ pre.map (.shift before.length))
      (ev.shift before.length) := by
  -- the messages of the batch are in the longer one, behind those before
  have hmem : ∀ e ∈ batch.entries, (e.1, before.length + e.2) ∈
      (⟨batch.topic, before ++ batch.messages ++ after⟩ : Batch Buffer).entries := by
    intro e he
    have hlt := (List.getElem?_eq_some_iff.1 (mem_entries.1 he)).1
    refine mem_entries.2 ?_
    show (before ++ batch.messages ++ after)[before.length + e.2]? = some e.1
    rw [List.append_assoc, List.getElem?_append_right (by omega), Nat.add_sub_cancel_left, List.getElem?_append_left hlt]
    exact mem_entries.1 he
  have hback : ∀ f ∈ (⟨batch.topic, before ++ batch.messages ++ after⟩ : Batch Buffer).entries, ∀ k,
      f.2 = before.length + k → k < batch.messages.length → (f.1, k) ∈ batch.entries := by
    intro f hf k hk hlt
    have hget : (before ++ batch.messages ++ after)[f.2]? = some f.1 := mem_entries.1 hf
    rw [hk, List.append_assoc, List.getElem?_append_right (by omega), Nat.add_sub_cancel_left,
      List.getElem?_append_left hlt] at hget
    exact mem_entries.2 hget
  have hful : ∀ {i}, Event.fulfilled i ∈ pre → Event.fulfilled (before.length + i) ∈
      prior ++ pre.map (.shift before.length) := fun hi => List.mem_append_right _ (mem_map_shift.2 ⟨_, rfl, hi⟩)
  cases ev with
  | started i m =>
    obtain ⟨hnot, e, he, rfl, rfl, hall⟩ := h
    refine ⟨fun hmem => ?_, (e.1, before.length + e.2), hmem e he, rfl, rfl, fun f hf hkey hlt => ?_⟩
    · rw [startedAt_append] at hmem
      rcases List.mem_append.1 hmem with hprior | hshift
      · obtain ⟨m, hm⟩ := mem_startedAt.1 hprior
        have := hb.below _ hm _ rfl
        omega
      · obtain ⟨k, hk, heq⟩ := mem_startedAt_shift.1 hshift
        obtain rfl : k = e.2 := by omega
        exact hnot hk
    · rcases Nat.lt_or_ge f.2 before.length with hlt' | hge
      · exact List.mem_append_left _ (hb.fulfilled _ hlt')
      · obtain ⟨k, hk⟩ := Nat.exists_eq_add_of_le hge
        have hlen := (List.getElem?_eq_some_iff.1 (mem_entries.1 he)).1
        rw [hk]
        exact hful (hall (f.1, k) (hback f hf k hk (by omega)) hkey (by show k < e.2; omega))
  | resolved o =>
    obtain ⟨i, hat, hupto, hnext⟩ := h
    have hlen : i < batch.messages.length := by
      have := (List.getElem?_eq_some_iff.1 hat).1
      rwa [Batch.offsets, List.length_map] at this
    refine ⟨before.length + i, ?_, fun f hf hle => ?_, fun e he hpos hmem' => ?_⟩
    · obtain ⟨e, he, rfl, ho⟩ := offsets_getElem?.1 hat
      exact offsets_getElem?.2 ⟨_, hmem e he, rfl, ho⟩
    · rcases Nat.lt_or_ge f.2 before.length with hlt | hge
      · exact ⟨f, hf, rfl, List.mem_append_left _ (hb.fulfilled _ hlt)⟩
      · obtain ⟨k, hk⟩ := Nat.exists_eq_add_of_le hge
        obtain ⟨e, he, ho, hfe⟩ := hupto (f.1, k) (hback f hf k hk (by omega)) (by show k ≤ i; omega)
        exact ⟨_, hmem e he, ho, hful hfe⟩
    · -- the message behind the prefix was not fulfilled before, nor in this batch
      rcases List.mem_append.1 hmem' with hprior | hshift
      · have := hb.below _ hprior _ rfl
        omega
      · obtain ⟨k, hk, hfk⟩ := mem_map_shift.1 hshift
        obtain rfl : k = i + 1 := by omega
        exact hnext _ (hback e he (i + 1) (by omega) (hpre _ hfk _ rfl)) rfl hfk
  | _ => trivial

/-- The history is about messages of the partition. -/
theorem Orderly.pos_lt (ho : Orderly s) (hi : PartitionInv str opts topic s) {ev : Event} (hev : ev ∈ s.history) {i : ℕ}
    (hp : ev.pos = some i) : i < s.messages.length := by
  rcases List.eq_nil_or_concat s.calls with hnil | ⟨cs, call, hcalls⟩
  · rw [ho.empty hnil] at hev
    exact absurd hev List.not_mem_nil
  · rw [List.concat_eq_append] at hcalls
    obtain ⟨prior, hhist, hb⟩ := ho.last cs call hcalls
    have hsound := hi.calls call (by rw [hcalls]; exact List.mem_append_right _ (List.mem_singleton_self call))
    obtain ⟨before, after, hmsgs, hlen⟩ := hsound.stretch
    have htotal : call.base + call.batch.messages.length ≤ s.messages.length := by
      rw [hmsgs, List.length_append, List.length_append, hlen]
      omega
    rw [hhist] at hev
    rcases List.mem_append.1 hev with hev | hev
    · have := hb.below ev hev i hp
      omega
    · obtain ⟨ev, hmem, rfl⟩ := List.mem_map.1 hev
      rw [shift_pos, Option.map_eq_some_iff] at hp
      obtain ⟨k, hk, rfl⟩ := hp
      have := hsound.inv.pos_lt hmem hk
      omega

theorem shift_zero (ev : Event) : ev.shift 0 = ev := by
  cases ev <;> simp [Event.shift]

theorem Justifies.produce {messages : List (KafkaMessage Buffer)} {pre : List Event} {ev : Event}
    (h : Justifies str ⟨topic, messages⟩ pre ev) (hpre : ∀ e ∈ pre, ∀ i, e.pos = some i → i < messages.length)
    (m : KafkaMessage Buffer) : Justifies str ⟨topic, messages ++ [m]⟩ pre ev := by
  have hid : pre.map (.shift 0) = pre := by
    rw [List.map_congr_left fun e _ => shift_zero e, List.map_id']
  have hlift := h.lift [] [m] before_nil hpre
  rw [List.length_nil, shift_zero, hid] at hlift
  exact hlift

/-- A call of which something is seen is the last one. -/
theorem Orderly.seen_last (ho : Orderly s) (hi : PartitionInv str opts topic s) {k : ℕ} {b : ConsumerAct}
    {call : BatchCall Buffer} {after : ConsumerState Buffer} {events : List Event} (hcall : s.calls[k]? = some call)
    (hafter : consumerStep str opts (connectConsumerWithRetry.runConfig opts) call.batch call.state b = some after)
    (hlog : after.batch.log = call.state.batch.log ++ events) (hne : events ≠ []) : ∃ cs, s.calls = cs ++ [call] := by
  have hmem := List.mem_of_getElem? hcall
  rcases List.eq_nil_or_concat s.calls with hnil | ⟨cs, c, hcalls⟩
  · exact absurd hnil (List.ne_nil_of_mem hmem)
  · rw [List.concat_eq_append] at hcalls
    rw [hcalls] at hmem
    rcases List.mem_append.1 hmem with hcs | hc
    · have ha := autoInv_reachable (hi.calls call (List.mem_of_getElem? hcall)).reachable
      exact absurd (silent_of_autoResolved ha (ho.earlier cs c hcalls call hcs) hafter hlog).1 hne
    · exact ⟨cs, by rw [hcalls, List.mem_singleton.1 hc]⟩

/-- In an undisturbed run every event is justified by what the calls before it did, as in one call on the whole
partition. -/
theorem justified_step (ho : Orderly s) (hi : PartitionInv str opts topic s)
    (hj : Justified (Justifies str (s.whole topic)) s.history) (h : partitionStep str opts topic fromBeginning s a = some s') :
    Justified (Justifies str (s'.whole topic)) s'.history := by
  rcases partitionStep_cases h with ⟨m, rfl, -, rfl⟩ | ⟨n, rfl, -, -, -, rfl⟩ |
    ⟨k, b, call, after, events, rfl, hcall, hafter, hlog, rfl⟩ | ⟨rfl, -, -, rfl⟩ | ⟨rfl, rfl⟩ | ⟨rfl, rfl⟩
  · intro pre ev post heq
    refine (hj pre ev post heq).produce (fun e he i hp => ho.pos_lt hi ?_ hp) m
    show e ∈ s.history
    rw [show s.history = _ from heq]
    exact List.mem_append_left _ he
  · exact hj
  · have hsound := hi.calls call (List.mem_of_getElem? hcall)
    refine Justified.append hj fun pre' ev' post' heq => ?_
    obtain ⟨pre, rest, rfl, rfl, hrest⟩ := List.map_eq_append_iff.1 heq
    obtain ⟨ev, post, rfl, rfl, -⟩ := List.map_eq_cons_iff.1 hrest
    obtain ⟨cs, hcs⟩ := ho.seen_last hi hcall hafter hlog (by simp)
    obtain ⟨prior, hhist, hb⟩ := ho.last cs call hcs
    obtain ⟨before, rear, hmsgs, hlen⟩ := hsound.stretch
    have hinv := (hsound.step hafter).inv
    have hjust : Justifies str call.batch (call.state.batch.log ++ pre) ev := by
      refine hinv.justified _ ev post ?_
      show after.batch.log = _
      rw [hlog, List.append_assoc]
    have hpos : ∀ e ∈ call.state.batch.log ++ pre, ∀ i, e.pos = some i → i < call.batch.messages.length := by
      intro e he i hp
      have hmem : e ∈ after.batch.log := by
        rw [hlog, ← List.append_assoc]
        exact List.mem_append_left _ he
      exact hinv.pos_lt hmem hp
    rw [← hlen] at hb hhist ⊢
    have hlift := hjust.lift before rear hb hpos
    rw [List.map_append, ← List.append_assoc, ← hhist, ← hmsgs, hsound.topic] at hlift
    exact hlift
  · exact hj
  · exact hj
  · obtain ⟨-, hmessages, -, hhistory⟩ := start_calls fromBeginning s
    unfold PartitionState.whole
    rw [hmessages, hhistory]
    exact hj

/-- An undisturbed run over any number of batches is like one call on the whole partition: no message is
handed over twice, each only when all earlier ones of its key have fulfilled, an offset is resolved only when
every message up to it has fulfilled, and whenever KafkaJS awaits no call all messages before its position have. -/
theorem undisturbed_as_one {as : List (PartitionAct Buffer)} (h : run (partitionStep str opts topic fromBeginning) .empty as = some s)
    (hu : Each (partitionStep str opts topic fromBeginning) PartitionState.Undisturbed .empty as) :
    (startedAt s.history).Nodup ∧
    (∀ pre i m post, s.history = pre ++ .started i m :: post →
      ∃ e ∈ (s.whole topic).entries, e.2 = i ∧ m = toInbound str (s.whole topic) e.1 ∧
        ∀ f ∈ (s.whole topic).entries, f.1.key = e.1.key → f.2 < i → Event.fulfilled f.2 ∈ pre) ∧
    (∀ pre o post, s.history = pre ++ .resolved o :: post →
      ∃ e ∈ (s.whole topic).entries, e.1.offset = o ∧
        ∀ f ∈ (s.whole topic).entries, f.2 ≤ e.2 → Event.fulfilled f.2 ∈ pre) ∧
    (s.awaiting = false → ∀ i < s.position, (startedAt s.history).count i = 1 ∧ Event.fulfilled i ∈ s.history) := by
  obtain ⟨hi, ho, hj⟩ : PartitionInv str opts topic s ∧ Orderly s ∧
      Justified (Justifies str (s.whole topic)) s.history := by
    refine run_each_induction (I := fun s : PartitionState Buffer => PartitionInv str opts topic s ∧ Orderly s ∧
      Justified (Justifies str (s.whole topic)) s.history) ?_ ⟨partitionInv_empty, orderly_empty, justified_nil _⟩ hu h
    rintro s a s' ⟨hi, ho, hj⟩ hc hs
    exact ⟨partitionInv_step hi hs, orderly_step ho hi hc hs, justified_step ho hi hj hs⟩
  have hnodup := startedAt_nodup hj
  refine ⟨hnodup, fun pre i m post heq => ?_, fun pre o post heq => ?_, fun ha i hlt => ?_⟩
  · obtain ⟨-, e, he, hei, hm, hall⟩ := hj pre (.started i m) post heq
    exact ⟨e, he, hei, hm, fun f hf hk hlt => hall f hf (by unfold groupKey; rw [hk]) hlt⟩
  · obtain ⟨i, hp⟩ := hj pre (.resolved o) post heq
    obtain ⟨e, he, -, heo, hall⟩ := hp.fulfilled hi.distinct
    exact ⟨e, he, heo, hall⟩
  · exact ⟨List.count_eq_one_of_mem hnodup ((ho.free ha).started i hlt), (ho.free ha).fulfilled i hlt⟩

end Undisturbed

/-! ## A partition of three messages -/

/-- The messages of the sample batch, fetched two and one; the second batch begins when the first is over. -/
def PartitionState.sampleRun : List (PartitionAct String) :=
  Batch.sample.messages.map .produce ++
    [.fetch 2, .call 0 (.batch (.launch true false)), .call 0 (.batch (.launch true false)), .call 0 (.batch (.fulfil 1)),
      .call 0 (.batch (.beat 1 true false)), .call 0 (.batch (.fulfil 0)), .call 0 (.batch (.beat 0 true false)),
      .call 0 .autoResolve, .proceed, .fetch 2, .call 1 (.batch (.launch true false)), .call 1 (.batch (.fulfil 0)),
      .call 1 (.batch (.beat 0 true false)), .call 1 .autoResolve, .proceed, .commit]

/-- The handler of the first message rejects while that of the second runs: the next batch has both again, and the
second message, which the first call goes on to fulfil, is handled a second time meanwhile. -/
def PartitionState.rejectedRun : List (PartitionAct String) :=
  Batch.sample.messages.map .produce ++
    [.fetch 2, .call 0 (.batch (.launch true false)), .call 0 (.batch (.launch true false)), .call 0 (.batch (.reject 0)),
      .proceed, .fetch 3, .call 1 (.batch (.launch true false)), .call 1 (.batch (.launch true false)),
      .call 0 (.batch (.fulfil 1)), .call 1 (.batch (.fulfil 0)), .restart]

theorem handled_of_committed_sample :
    ∃ s, run (partitionStep id .default "order.created" none) .empty (PartitionState.sampleRun ++ [.restart]) = some s ∧
      s.committed = some 3 ∧ ∀ i < 3, s.Handled i := by
  obtain ⟨s, hr, hp⟩ := exists_of_run (partitionStep id .default "order.created" none) .empty
    (PartitionState.sampleRun ++ [.restart]) (fun s => s.committed == some 3) (by decide)
  rw [beq_iff_eq] at hp
  have hcont : Each (partitionStep id .default "order.created" none) PartitionState.Continues .empty
      (PartitionState.sampleRun ++ [.restart]) :=
    each_of_eachB _ (fun s a => decide (s.Continues a)) (fun s a => of_decide_eq_true) _ _ (by decide)
  have hres : Each (partitionStep id .default "order.created" none) (PartitionState.Resumes none) .empty
      (PartitionState.sampleRun ++ [.restart]) :=
    each_of_eachB _ (fun s a => decide (s.Resumes none a)) (fun s a => of_decide_eq_true) _ _ (by decide)
  refine ⟨s, hr, hp, fun i hi => ?_⟩
  obtain ⟨hcov, hleft, hpassed⟩ := handled_of_committed hr (i := i) (.inl ⟨3, hp, hi⟩)
  exact hcov.resolve_right (not_or.2 ⟨hleft hcont, hpassed hres⟩)

theorem undisturbed_as_one_sample :
    ∃ s, run (partitionStep id .default "order.created" none) .empty PartitionState.sampleRun = some s ∧
      (startedAt s.history).Nodup ∧ ∀ i < 3, (startedAt s.history).count i = 1 := by
  obtain ⟨s, hr, hp⟩ := exists_of_run (partitionStep id .default "order.created" none) .empty PartitionState.sampleRun
    (fun s => !s.awaiting && s.position == 3) (by decide)
  rw [Bool.and_eq_true, Bool.not_eq_true', beq_iff_eq] at hp
  have hu : Each (partitionStep id .default "order.created" none) PartitionState.Undisturbed .empty
      PartitionState.sampleRun :=
    each_of_eachB _ (fun s a => decide (s.Undisturbed a)) (fun s a => of_decide_eq_true) _ _ (by decide)
  obtain ⟨hnodup, -, -, hall⟩ := undisturbed_as_one hr hu
  exact ⟨s, hr, hnodup, fun i hi => (hall hp.1 i (by omega)).1⟩

example : (run (partitionStep id .default "order.created" none) .empty PartitionState.rejectedRun).map
    (fun s => startedAt s.history) = some [0, 1, 0, 1] := by decide

/-- Nothing was committed: without `fromBeginning` the last start passes over all three messages. -/
example : (run (partitionStep id .default "order.created" none) .empty PartitionState.rejectedRun).map
    (fun s => (s.position, s.passed)) = some (3, 3) := by decide

end Saga.Kafka
