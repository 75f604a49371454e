/-
What KafkaJS adds to `processBatch`: `connectConsumerWithRetry` leaves `eachBatchAutoResolve` at
its default, so when the callback fulfils KafkaJS resolves the last offset of the batch by itself.
A group whose loop was stopped fulfils as well, with messages nobody handled; the run loses them
exactly when KafkaJS has acted and some loop with a message left was stopped.
-/
import SagaProofs.Kafka.Delivery
import SagaProofs.Kafka.Offsets
import SagaProofs.Kafka.Settle

namespace Saga.Kafka

open Lts

variable {Buffer : Type}

/-! ## The consumer around a batch -/

/-- The argument of `consumer.run`, less the callback. -/
structure RunConfig where
  partitionsConsumedConcurrently : ℕ
  eachBatchAutoResolve : Option Bool

/-- The configuration `connectConsumerWithRetry` passes to `consumer.run`. -/
def connectConsumerWithRetry.runConfig (opts : KafkaTransportOptions) : RunConfig :=
  { partitionsConsumedConcurrently := opts.partitionsConsumedConcurrently.getD 3
    eachBatchAutoResolve := none }

/-- KafkaJS resolves the last offset unless it was told not to. -/
def RunConfig.autoResolves (config : RunConfig) : Bool := config.eachBatchAutoResolve.getD true

/-- A batch in the consumer: the `processBatch` call and the offset KafkaJS resolved after it. -/
structure ConsumerState (Buffer : Type) where
  batch : BatchState Buffer
  autoResolved : Option String

inductive ConsumerAct
  | batch (a : Act)
  | autoResolve
  deriving DecidableEq

def Batch.lastOffset (batch : Batch Buffer) : Option String := batch.offsets.getLast?

section Consumer

variable (str : Buffer → String) (opts : KafkaTransportOptions) (config : RunConfig) (batch : Batch Buffer)

def consumerStep (s : ConsumerState Buffer) : ConsumerAct → Option (ConsumerState Buffer)
  | .batch a => (step str opts batch s.batch a).map fun b => { s with batch := b }
  | .autoResolve =>
    if config.autoResolves ∧ promiseAll s.batch.groups = some .fulfilled ∧ s.autoResolved = none then
      batch.lastOffset.map fun o => { s with autoResolved := some o }
    else none

def consumerInit : ConsumerState Buffer := ⟨init str batch, none⟩

/-- `processBatch` or KafkaJS has resolved the offset. -/
def ConsumerState.Resolves (s : ConsumerState Buffer) (o : String) : Prop :=
  Event.resolved o ∈ s.batch.log ∨ s.autoResolved = some o

/-- No offset at or beyond a message whose handler has not completed is resolved. -/
def NoLoss (batch : Batch Buffer) (s : ConsumerState Buffer) : Prop :=
  ∀ f ∈ batch.entries, Event.fulfilled f.2 ∉ s.batch.log →
    ∀ e ∈ batch.entries, f.2 ≤ e.2 → ¬ s.Resolves e.1.offset

/-- The action does not stop a loop that has a message left. -/
def ConsumerState.Continues (s : ConsumerState Buffer) : ConsumerAct → Prop
  | .batch a => s.batch.trips a = false
  | .autoResolve => True

instance (s : ConsumerState Buffer) : DecidablePred s.Continues
  | .batch a => inferInstanceAs (Decidable (s.batch.trips a = false))
  | .autoResolve => .isTrue trivial

/-- The action rejects a handler or the heartbeat after a message. -/
def ConsumerAct.rejects : ConsumerAct → Bool
  | .batch a => a.rejectsGroup
  | .autoResolve => false

variable {str opts config batch}

theorem consumerStep_cases {s s' : ConsumerState Buffer} {a : ConsumerAct}
    (h : consumerStep str opts config batch s a = some s') :
    (∃ b t, a = .batch b ∧ step str opts batch s.batch b = some t ∧ s' = { s with batch := t }) ∨
    (a = .autoResolve ∧ config.autoResolves = true ∧ promiseAll s.batch.groups = some .fulfilled ∧
      s.autoResolved = none ∧ ∃ o, batch.lastOffset = some o ∧ s' = { s with autoResolved := some o }) := by
  cases a with
  | batch b =>
    obtain ⟨t, ht, rfl⟩ := Option.map_eq_some_iff.1 h
    exact .inl ⟨b, t, rfl, ht, rfl⟩
  | autoResolve =>
    simp only [consumerStep] at h
    split at h
    · rename_i hc
      obtain ⟨o, ho, rfl⟩ := Option.map_eq_some_iff.1 h
      exact .inr ⟨rfl, hc.1, hc.2.1, hc.2.2, o, ho, rfl⟩
    · cases h

/-- The batch of a consumer state is a state of `processBatch`. -/
theorem consumer_batch_reachable {s : ConsumerState Buffer}
    (h : Reachable (consumerStep str opts config batch) (consumerInit str batch) s) :
    Reachable (step str opts batch) (init str batch) s.batch := by
  refine h.induction (I := fun s => Reachable (step str opts batch) (init str batch) s.batch) ?_ (.refl _)
  intro s a s' hr hs
  rcases consumerStep_cases hs with ⟨b, t, rfl, ht, rfl⟩ | ⟨rfl, -, -, -, o, -, rfl⟩
  · exact hr.trans (.head ht (.refl _))
  · exact hr

/-! ## Stopped loops -/

/-- Some group has returned with a message left. -/
def BatchState.Stopped (s : BatchState Buffer) : Prop :=
  ∃ gs ∈ s.groups, gs.phase.isReturned = true ∧ gs.todo ≠ []

/-- A move leaves a group returned with a message left exactly when it stops its loop. -/
theorem Move.stopped_iff {s : BatchState Buffer} {a : Act} {g : ℕ} {tr tr' : WatermarkTracker}
    {gs gs' : GroupState Buffer} {events : List Event} (hm : Move str batch a tr gs tr' gs' events)
    (ht : s.target a = some g) (hgs : s.groups[g]? = some gs) :
    (gs'.phase.isReturned = true ∧ gs'.todo ≠ []) ↔ s.trips a = true := by
  have htrips : s.trips a = (a.stops && !gs.todo.isEmpty) := by
    simp [BatchState.trips, ht, hgs]
  rw [htrips]
  cases hm with
  | finish => simp
  | stop he hc => cases he <;> simpa [Act.stops, Phase.isReturned] using hc
  | start he hc => cases he <;> simpa [Act.stops, Phase.isReturned] using hc
  | _ => simp [Act.stops, Phase.isReturned]

theorem trips_of_target_none {s : BatchState Buffer} {a : Act} (h : s.target a = none) : s.trips a = false := by
  simp [BatchState.trips, h]

theorem TickMove.target {s : BatchState Buffer} {a : Act} {ticks unhandled : ℕ}
    (h : TickMove opts s a ticks unhandled) : s.target a = none := by
  cases h <;> rfl

/-- A loop is found stopped after a step when it was before, or the step stops it. -/
theorem stopped_step {s s' : BatchState Buffer} {a : Act} (h : step str opts batch s a = some s') :
    s'.Stopped ↔ s.Stopped ∨ s.trips a = true := by
  rcases step_cases h with ⟨g, gs, tr, gs', events, ht, hgs, hm, -, rfl⟩ | ⟨ticks, unhandled, htick, rfl⟩
  · rw [← hm.stopped_iff ht hgs]
    exact exists_mem_set hgs fun hstop => by
      rw [hm.not_returned] at hstop
      cases hstop.1
  · rw [trips_of_target_none htick.target]
    show s.Stopped ↔ _
    simp

/-! ## What KafkaJS resolves -/

/-- Where KafkaJS has acted the promise of the batch has fulfilled. -/
structure AutoInv (batch : Batch Buffer) (s : ConsumerState Buffer) : Prop where
  offset : ∀ o, s.autoResolved = some o → batch.lastOffset = some o
  returned : s.autoResolved ≠ none → ∀ gs ∈ s.batch.groups, gs.phase.isReturned = true

theorem autoInv_step {s s' : ConsumerState Buffer} {a : ConsumerAct} (hi : AutoInv batch s)
    (h : consumerStep str opts config batch s a = some s') : AutoInv batch s' := by
  rcases consumerStep_cases h with ⟨b, t, rfl, ht, rfl⟩ | ⟨rfl, -, hp, -, o, ho, rfl⟩
  · refine ⟨hi.offset, fun hsome => ?_⟩
    have hret := hi.returned hsome
    -- no group is left that could move
    rcases step_cases ht with ⟨g, gs, tr, gs', events, -, hgs, hm, -, rfl⟩ | ⟨ticks, unhandled, -, rfl⟩
    · have := hret gs (List.mem_of_getElem? hgs)
      rw [hm.not_returned] at this; cases this
    · exact hret
  · exact ⟨fun o' ho' => by cases ho'; exact ho, fun _ => promiseAll_fulfilled.1 hp⟩

theorem autoInv_reachable {s : ConsumerState Buffer}
    (h : Reachable (consumerStep str opts config batch) (consumerInit str batch) s) : AutoInv batch s :=
  h.induction (fun _ _ _ hi hs => autoInv_step hi hs)
    { offset := fun o ho => by cases ho
      returned := fun hne => absurd rfl hne }

/-- A message a group has not begun is not fulfilled. -/
theorem Inv.not_fulfilled {s : BatchState Buffer} (hi : Inv str batch s) {g : ℕ} {gs : GroupState Buffer}
    (hg : s.groups[g]? = some gs) {e : Entry Buffer} {rest : List (Entry Buffer)} (htodo : gs.todo = e :: rest) :
    e ∈ batch.entries ∧ Event.fulfilled e.2 ∉ s.log := by
  obtain ⟨p, hp, hgi⟩ := hi.group hg
  obtain ⟨ph, todo⟩ := gs
  cases htodo
  refine ⟨((mem_group hp).1 (hgi.mem (.inr (.inr (by simp))))).1, fun hf => ?_⟩
  exact hgi.not_started (group_positions_nodup hp) (hi.ended _ (.inl hf))

/-- When all groups have returned and none was stopped, every message is fulfilled. -/
theorem Inv.all_fulfilled {s : BatchState Buffer} (hi : Inv str batch s)
    (hret : ∀ gs ∈ s.groups, gs.phase.isReturned = true) (hs : ¬ s.Stopped) :
    ∀ f ∈ batch.entries, Event.fulfilled f.2 ∈ s.log := by
  intro f hf
  obtain ⟨g, p, gs, hp, hfp, hg, began, hes, -, hph⟩ := hi.exists_group hf
  have hmem := List.mem_of_getElem? hg
  have htodo : gs.todo = [] := by
    by_contra hne
    exact hs ⟨_, hmem, hret _ hmem, hne⟩
  rw [htodo, List.append_nil] at hes
  subst hes
  have hphase := hret _ hmem
  cases hc : gs.phase with
  | returned => rw [hc] at hph; exact hph f hfp
  | _ => rw [hc] at hphase; cases hphase

/-- A state loses a message exactly when KafkaJS has acted on a batch with a stopped loop. -/
theorem noLoss_iff_not_stopped (hd : batch.offsets.Nodup) {s : ConsumerState Buffer}
    (h : Reachable (consumerStep str opts config batch) (consumerInit str batch) s) :
    NoLoss batch s ↔ s.autoResolved = none ∨ ¬ s.batch.Stopped := by
  have hi := inv_reachable (consumer_batch_reachable h)
  have ha := autoInv_reachable h
  constructor
  · intro hn
    by_contra hcon
    rw [not_or, not_not] at hcon
    obtain ⟨hauto, gs, hgs, -, htodo⟩ := hcon
    obtain ⟨o, ho⟩ := Option.ne_none_iff_exists'.1 hauto
    obtain ⟨g, hg⟩ := List.mem_iff_getElem?.1 hgs
    obtain ⟨e, rest, hrest⟩ := List.exists_cons_of_ne_nil htodo
    obtain ⟨he, hful⟩ := hi.not_fulfilled hg hrest
    -- the last message of the batch is at or after the one left over
    have hlast := ha.offset o ho
    unfold Batch.lastOffset at hlast
    rw [List.getLast?_eq_getElem?] at hlast
    obtain ⟨l, hl, hpos, hoff⟩ := offsets_getElem?.1 hlast
    have hlt : e.2 < batch.offsets.length :=
      (List.getElem?_eq_some_iff.1 (offsets_getElem?.2 ⟨e, he, rfl, rfl⟩)).1
    exact hn e he hful l hl (by omega) (.inr (by rw [hoff]; exact ho))
  · rintro hok f hf hful e he hle (hres | hauto)
    · exact hful (hi.fulfilled_of_resolved hd he hf hle hres)
    · rcases hok with hnone | hns
      · rw [hnone] at hauto; cases hauto
      · exact hful (hi.all_fulfilled (ha.returned (by rw [hauto]; exact nofun)) hns f hf)

/-! ## Runs -/

/-- KafkaJS resolves nothing in a run in which a handler or the heartbeat after a message rejects. -/
theorem autoResolved_of_rejects {s : ConsumerState Buffer} {as : List ConsumerAct}
    (h : run (consumerStep str opts config batch) (consumerInit str batch) as = some s)
    (hr : ∃ a ∈ as, a.rejects = true) : s.autoResolved = none := by
  have hrej : s.batch.SomeRejected := by
    by_contra hno
    have hkept := run_kept (P := fun s : ConsumerState Buffer => ¬ s.batch.SomeRejected)
      (C := fun _ a => ¬ a.rejects = true) (fun s a s' hs => by
        rcases consumerStep_cases hs with ⟨b, t, rfl, ht, rfl⟩ | ⟨rfl, -, -, -, o, -, rfl⟩
        · rw [someRejected_step ht, not_or]
          rfl
        · simp [ConsumerAct.rejects]) h
    obtain ⟨a, ha, hra⟩ := hr
    exact (each_forall_iff h).1 (hkept.1 hno).2 a ha hra
  by_contra hne
  obtain ⟨gs, hgs, hphase⟩ := hrej
  have hret := (autoInv_reachable ⟨as, h⟩).returned hne gs hgs
  obtain ⟨ph, todo⟩ := gs
  cases ph with
  | returned => cases hphase
  | _ => cases hret

/-- KafkaJS has acted after a run exactly when a step of the run is its. -/
theorem autoResolved_run {s : ConsumerState Buffer} {as : List ConsumerAct}
    (h : run (consumerStep str opts config batch) (consumerInit str batch) as = some s) :
    s.autoResolved = none ↔ ConsumerAct.autoResolve ∉ as := by
  have hkept := run_kept (P := fun s : ConsumerState Buffer => s.autoResolved = none)
    (C := fun _ a => a ≠ .autoResolve) (fun s a s' hs => by
      rcases consumerStep_cases hs with ⟨b, t, rfl, -, rfl⟩ | ⟨rfl, -, -, -, o, -, rfl⟩
      · simp
      · simp) h
  rw [hkept, each_forall_iff h]
  constructor
  · rintro ⟨-, hall⟩ hmem
    exact hall _ hmem rfl
  · intro hmem
    exact ⟨rfl, fun a ha heq => hmem (heq ▸ ha)⟩

/-- A loop is stopped with a message left exactly when a step of the run stopped it. -/
theorem stopped_run {s : ConsumerState Buffer} {as : List ConsumerAct}
    (h : run (consumerStep str opts config batch) (consumerInit str batch) as = some s) :
    ¬ s.batch.Stopped ↔ Each (consumerStep str opts config batch) ConsumerState.Continues (consumerInit str batch) as := by
  have hinit : ¬ (consumerInit str batch).batch.Stopped := by
    rintro ⟨gs, hgs, hret, -⟩
    obtain ⟨p, -, rfl⟩ := List.mem_map.1 hgs
    cases hret
  rw [run_kept (P := fun s : ConsumerState Buffer => ¬ s.batch.Stopped) (C := ConsumerState.Continues)
    (fun s a s' hs => by
      rcases consumerStep_cases hs with ⟨b, t, rfl, ht, rfl⟩ | ⟨rfl, -, -, -, o, -, rfl⟩
      · rw [stopped_step ht, not_or, Bool.not_eq_true]
        rfl
      · simp [ConsumerState.Continues]) h]
  exact and_iff_right hinit

/-- A run loses no message exactly when no step of it stops a loop that has a message left, or
KafkaJS has not resolved the last offset; it never does where a handler or heartbeat rejects. -/
theorem noLoss_iff (hd : batch.offsets.Nodup) {s : ConsumerState Buffer} {as : List ConsumerAct}
    (h : run (consumerStep str opts (connectConsumerWithRetry.runConfig opts) batch) (consumerInit str batch) as = some s) :
    (NoLoss batch s ↔ ConsumerAct.autoResolve ∉ as ∨
      Each (consumerStep str opts (connectConsumerWithRetry.runConfig opts) batch) ConsumerState.Continues
        (consumerInit str batch) as) ∧
    ((∃ a ∈ as, a.rejects = true) → ConsumerAct.autoResolve ∉ as) := by
  constructor
  · rw [noLoss_iff_not_stopped hd ⟨as, h⟩, autoResolved_run h, stopped_run h]
  · intro hr
    exact (autoResolved_run h).1 (autoResolved_of_rejects h hr)

end Consumer

/-! ## A lost message -/

/-- `isRunning()` turns false after the first message has started: KafkaJS resolves the offset of
the last message, and the handlers of the second and the third were never called. -/
theorem noLoss_fails_when_stopped :
    ¬ ∀ s, Reachable (consumerStep id .default (connectConsumerWithRetry.runConfig .default) .sample)
      (consumerInit id .sample) s → NoLoss .sample s := by
  intro hall
  obtain ⟨s, hr, hp⟩ := exists_of_run
    (consumerStep id .default (connectConsumerWithRetry.runConfig .default) .sample) (consumerInit id .sample)
    [.batch (.launch true false), .batch (.launch false false), .batch (.fulfil 0), .batch (.beat 0 false false),
      .autoResolve]
    (fun s => s.autoResolved == some "12" && !s.batch.log.contains (.fulfilled 1)) (by decide)
  simp only [Bool.and_eq_true, beq_iff_eq, Bool.not_eq_true', List.contains_eq_mem, decide_eq_false_iff_not] at hp
  have h1 : ((⟨some "saga-2", some "2", "11", none⟩, 1) : Entry String) ∈ Batch.sample.entries := by
    simp [Batch.entries, Batch.sample]
  have h2 : ((⟨some "saga-1", some "3", "12", none⟩, 2) : Entry String) ∈ Batch.sample.entries := by
    simp [Batch.entries, Batch.sample]
  exact hall s ⟨_, hr⟩ _ h1 hp.2 _ h2 (by decide) (.inr hp.1)

/-- A schedule of the sample in which every loop runs to its end before KafkaJS acts. -/
def Batch.sampleRun : List ConsumerAct :=
  [.batch (.launch true false), .batch (.launch true false), .batch (.fulfil 1), .batch (.beat 1 false false),
    .batch (.fulfil 0), .batch (.beat 0 true false), .batch (.fulfil 0), .batch (.beat 0 false false), .autoResolve]

theorem noLoss_when_finished :
    ∃ s, run (consumerStep id .default (connectConsumerWithRetry.runConfig .default) .sample) (consumerInit id .sample)
      Batch.sampleRun = some s ∧ NoLoss .sample s := by
  obtain ⟨s, hr, -⟩ := exists_of_run
    (consumerStep id .default (connectConsumerWithRetry.runConfig .default) .sample) (consumerInit id .sample)
    Batch.sampleRun (fun _ => true) (by decide)
  have hcont : Each (consumerStep id .default (connectConsumerWithRetry.runConfig .default) .sample)
      ConsumerState.Continues (consumerInit id .sample) Batch.sampleRun :=
    each_of_eachB _ (fun s a => decide (s.Continues a)) (fun s a => of_decide_eq_true) _ _ (by decide)
  exact ⟨s, hr, (noLoss_iff (by decide) hr).1.2 (.inr hcont)⟩

end Saga.Kafka
