/-
The heartbeats of `processBatch` that reject. The one after a message is awaited, so its rejection
rejects the promise of the batch; the ones the interval timer sends are discarded, so theirs are
handled by nobody.
-/
import SagaProofs.Kafka.Settle

namespace Saga.Kafka

open Lts

variable {Buffer : Type}

/-! ## Rejections that somebody handles -/

/-- No rejection of a heartbeat is left unhandled: none the timer sent has rejected, and where one
after a message has, the promise of the batch is rejected. -/
structure NoEscape (s : BatchState Buffer) : Prop where
  timer : s.unhandled = 0
  awaited : ∀ pos, Event.beatRejected pos ∈ s.log → Event.settled .rejected ∈ s.log

section Heartbeats

variable {str : Buffer → String} {opts : KafkaTransportOptions} {batch : Batch Buffer}
variable {s s' : BatchState Buffer} {a : Act} {g : ℕ} {gs gs' : GroupState Buffer} {tr tr' : WatermarkTracker}
variable {events : List Event}

/-- What becomes of a heartbeat that rejects after a message: its group is rejected, and with the first
rejected group the promise of the batch is. -/
structure AwaitedInv (s : BatchState Buffer) : Prop where
  group : ∀ pos, Event.beatRejected pos ∈ s.log → s.SomeRejected
  settled : s.SomeRejected → Event.settled .rejected ∈ s.log

theorem AwaitedInv.awaited (hi : AwaitedInv s) (pos : ℕ) (h : Event.beatRejected pos ∈ s.log) :
    Event.settled .rejected ∈ s.log := hi.settled (hi.group pos h)

/-- A move logs a heartbeat that rejects only by rejecting its group. -/
theorem Move.rejects_of_beatRejected (hm : Move str batch a tr gs tr' gs' events) {pos : ℕ}
    (h : Event.beatRejected pos ∈ events) : a.rejectsGroup = true := by
  cases hm with
  | beatReject => rfl
  | reject => rfl
  | finish => cases h
  | stop => cases h
  | start => cases List.mem_singleton.1 h
  | @fulfil _ _ e =>
    rcases List.mem_cons.1 h with h | h
    · cases h
    · rcases resolving_eq (tr.markCompleted e.1.offset) with heq | ⟨o, -, heq⟩
      · rw [heq] at h; cases h
      · rw [heq] at h; cases List.mem_singleton.1 h

theorem beatRejected_notMem_settling (before after : List (GroupState Buffer)) (pos : ℕ) :
    Event.beatRejected pos ∉ settling before after := by
  rcases settling_eq before after with h | ⟨r, -, -, h⟩
  · rw [h]; simp
  · rw [h]; simp

/-- A rejecting move leaves the rejection of the promise in the log. -/
theorem AwaitedInv.settled_move (hi : AwaitedInv s) (hm : Move str batch a tr gs tr' gs' events)
    (hgs : s.groups[g]? = some gs) (h : s.SomeRejected ∨ a.rejectsGroup = true) :
    Event.settled .rejected ∈ s.log ++ (events ++ settling s.groups (s.groups.set g gs')) := by
  by_cases hs : s.SomeRejected
  · exact List.mem_append_left _ (hi.settled hs)
  · have hrej : a.rejectsGroup = true := h.resolve_left hs
    have hsettling := Move.settling_rejected hgs (hm.rejected_iff.2.2 hrej) ((hm.pending_iff hgs).2 hs)
    rw [hsettling]
    simp

theorem awaitedInv_step (hi : AwaitedInv s) (h : step str opts batch s a = some s') : AwaitedInv s' := by
  have hsome := someRejected_step h
  rcases step_cases h with ⟨g, gs, tr, gs', events, -, hgs, hm, -, rfl⟩ | ⟨ticks, unhandled, -, rfl⟩
  · refine ⟨fun pos hpos => hsome.2 ?_, fun hs => hi.settled_move hm hgs (hsome.1 hs)⟩
    simp only [BatchState.put, List.mem_append, beatRejected_notMem_settling, or_false] at hpos
    rcases hpos with hpos | hpos
    · exact .inl (hi.group pos hpos)
    · exact .inr (hm.rejects_of_beatRejected hpos)
  · exact ⟨hi.group, hi.settled⟩

theorem awaitedInv_init : AwaitedInv (init str batch) := by
  refine ⟨fun pos h => ?_, fun h => ?_⟩
  · unfold init at h
    simp only at h
    split at h
    · cases List.mem_singleton.1 h
    · cases h
  · obtain ⟨gs, hgs, hrej⟩ := h
    obtain ⟨p, -, rfl⟩ := List.mem_map.1 hgs
    cases hrej

/-- A step leaves a rejection unhandled exactly when a heartbeat of the timer rejects. -/
theorem unhandled_step (h : step str opts batch s a = some s') :
    s'.unhandled = 0 ↔ s.unhandled = 0 ∧ a ≠ .tickReject := by
  rcases step_cases h with ⟨g, gs, tr, gs', events, ht, -, -, -, rfl⟩ | ⟨ticks, unhandled, htick, rfl⟩
  · refine (and_iff_left ?_).symm
    rintro rfl
    cases ht
  · cases htick <;> simp

/-- In a run no rejection of a heartbeat escapes exactly when no heartbeat of the interval timer rejects. -/
theorem noEscape_iff {as : List Act} (h : run (step str opts batch) (init str batch) as = some s) :
    NoEscape s ↔ ∀ a ∈ as, a ≠ .tickReject := by
  have hi : AwaitedInv s := run_induction (fun _ _ _ hi hs => awaitedInv_step hi hs) awaitedInv_init h
  have hunhandled : s.unhandled = 0 ↔ ∀ a ∈ as, a ≠ .tickReject := by
    rw [run_kept (P := fun s => s.unhandled = 0) (fun _ _ _ hs => unhandled_step hs) h, each_forall_iff h]
    exact and_iff_right rfl
  rw [← hunhandled]
  exact ⟨fun h => h.timer, fun h => ⟨h, hi.awaited⟩⟩

/-! ## Batches without a timer -/

/-- Without a timer, or without a message, no timer heartbeat is ever in flight. -/
structure Untimed (opts : KafkaTransportOptions) (s : BatchState Buffer) : Prop where
  none : autoHeartbeat opts = false ∨ s.groups = []
  ticks : s.ticks = 0
  unhandled : s.unhandled = 0

theorem untimed_step (hi : Untimed opts s) (h : step str opts batch s a = some s') : Untimed opts s' := by
  rcases step_cases h with ⟨g, gs, tr, gs', events, -, hgs, -, -, rfl⟩ | ⟨ticks, unhandled, htick, rfl⟩
  · refine ⟨hi.none.imp_right fun hnil => ?_, hi.ticks, hi.unhandled⟩
    simp [BatchState.put, hnil]
  · cases htick with
    | tick hgs hauto =>
      rcases hi.none with h | h
      · rw [h] at hauto; cases hauto
      · rw [h] at hgs; cases hgs
    | fulfil hpos => exact absurd hi.ticks (Nat.ne_of_gt hpos)
    | reject hpos => exact absurd hi.ticks (Nat.ne_of_gt hpos)

theorem addToGroup_ne_nil (key : String) (e : Entry Buffer) : ∀ groups : List (String × List (Entry Buffer)),
    (∀ p ∈ groups, p.2 ≠ []) → addToGroup key e groups ≠ [] ∧ ∀ p ∈ addToGroup key e groups, p.2 ≠ []
  | [], _ => by simp [addToGroup]
  | (k, es) :: rest, h => by
    obtain ⟨hhead, hrest⟩ := List.forall_mem_cons.1 h
    unfold addToGroup
    split
    · exact ⟨by simp, List.forall_mem_cons.2 ⟨by simp, hrest⟩⟩
    · exact ⟨by simp, List.forall_mem_cons.2 ⟨hhead, (addToGroup_ne_nil key e rest hrest).2⟩⟩

/-- No group is without a message. -/
theorem group_ne_nil {p : String × List (Entry Buffer)} (h : p ∈ batch.groups str) : p.2 ≠ [] := by
  have hall : ∀ (es : List (Entry Buffer)) groups, (∀ p ∈ groups, p.2 ≠ []) →
      ∀ p ∈ es.foldl (fun groups e => addToGroup (groupKey str e.1) e groups) groups, p.2 ≠ [] := by
    intro es
    induction es with
    | nil => exact fun groups h => h
    | cons e es ih => exact fun groups h => ih _ (addToGroup_ne_nil _ e groups h).2
  exact hall batch.entries [] (by simp) p h

/-- The first message of the first group is handled, the timer ticks and its heartbeat rejects. -/
theorem exists_escape (hauto : autoHeartbeat opts = true) (hne : batch.messages ≠ []) :
    ∃ s, Reachable (step str opts batch) (init str batch) s ∧ ¬ NoEscape s := by
  obtain ⟨m, hm⟩ := List.exists_mem_of_ne_nil _ hne
  obtain ⟨i, hi⟩ := List.mem_iff_getElem?.1 hm
  have he : (m, i) ∈ batch.entries := mem_entries.2 hi
  obtain ⟨g, q, hg, -⟩ := exists_group str he
  obtain ⟨p, rest, hgroups⟩ := List.exists_cons_of_ne_nil (List.ne_nil_of_mem (List.mem_of_getElem? hg))
  obtain ⟨e, todo, hp⟩ := List.exists_cons_of_ne_nil (group_ne_nil (p := p) (by rw [hgroups]; simp))
  let s := (init str batch).put 0 ⟨.handling e, todo⟩ [.started e.2 (toInbound str batch e.1)]
  have hlaunch : step str opts batch (init str batch) (.launch true false) = some s := by
    simp [s, step, init, hgroups, hp, loopHead, List.findIdx?_cons, Phase.isIdle]
  have hhead : s.groups[0]? = some ⟨.handling e, todo⟩ := by simp [s, BatchState.put, init, hgroups]
  have htick : step str opts batch s (.tick 0) = some { s with ticks := s.ticks + 1 } := by simp [step, hhead, hauto]
  have hreject : step str opts batch { s with ticks := s.ticks + 1 } .tickReject =
      some { s with unhandled := s.unhandled + 1 } := by simp [step]
  exact ⟨_, .head hlaunch (.head htick (.head hreject (.refl _))), fun h => absurd h.timer (Nat.succ_ne_zero _)⟩

/-- No heartbeat ever escapes exactly when the interval is not positive or the batch is empty. -/
theorem forall_noEscape_iff :
    (∀ s, Reachable (step str opts batch) (init str batch) s → NoEscape s) ↔
      autoHeartbeat opts = false ∨ batch.messages = [] := by
  constructor
  · intro h
    by_contra hcon
    rw [not_or, Bool.not_eq_false] at hcon
    obtain ⟨s, hr, hs⟩ := exists_escape hcon.1 hcon.2
    exact hs (h s hr)
  · rintro hnone s hr
    have hgroups : batch.messages = [] → (init str batch).groups = [] := fun hm => by
      simp [init, Batch.groups, groupMessages, Batch.entries, hm]
    have htimer : Untimed opts s :=
      hr.induction (fun _ _ _ hi hs => untimed_step hi hs) ⟨hnone.imp_right hgroups, rfl, rfl⟩
    have hi : AwaitedInv s := hr.induction (fun _ _ _ hi hs => awaitedInv_step hi hs) awaitedInv_init
    exact ⟨htimer.unhandled, hi.awaited⟩

end Heartbeats

/-! ## A heartbeat that escapes -/

/-- While the first handler runs the timer sends a heartbeat that rejects, as during a rebalance. -/
theorem timer_rejection_escapes :
    ¬ ∀ s, Reachable (step id .default .sample) (init id .sample) s → NoEscape s := by
  intro hall
  obtain ⟨s, hr, hs⟩ := exists_of_run (step id .default .sample) (init id .sample)
    [.launch true false, .launch true false, .tick 0, .tickReject] (fun s => decide (s.unhandled = 1)) (by decide)
  have h0 := (hall s ⟨_, hr⟩).timer
  rw [of_decide_eq_true hs] at h0
  cases h0

/-- The heartbeat after the first message rejects while a heartbeat of the timer fulfils: the batch
rejects and nothing escapes. -/
theorem awaited_rejection_handled :
    ∃ s, run (step id .default .sample) (init id .sample)
        [.launch true false, .launch true false, .tick 0, .tickFulfil, .fulfil 0, .beatReject 0] = some s ∧
      NoEscape s := by
  obtain ⟨s, hr, -⟩ := exists_of_run (step id .default .sample) (init id .sample)
    [.launch true false, .launch true false, .tick 0, .tickFulfil, .fulfil 0, .beatReject 0] (fun _ => true)
    (by decide)
  exact ⟨s, hr, (noEscape_iff hr).2 (by decide)⟩

end Saga.Kafka
