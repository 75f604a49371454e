/-
Per-key delivery of `processBatch`: the messages with one key are handed to the handler in batch
order, each after the one before it has fulfilled, none twice; and a run that nothing stops, once
no further step is possible, has handed over every message exactly once.
-/
import SagaProofs.Kafka.Settle

namespace Saga.Kafka

open Lts

variable {Buffer : Type}

/-! ## Runs that nothing stops -/

/-- The action rejects a handler or a heartbeat. -/
def Act.rejects : Act → Bool
  | .reject _ => true
  | .beatReject _ => true
  | .tickReject => true
  | _ => false

/-- A loop with a message left is told to stop. -/
def BatchState.trips (s : BatchState Buffer) (a : Act) : Bool :=
  a.stops && ((s.target a).bind (s.groups[·]?)).any fun gs => !gs.todo.isEmpty

/-- The action neither rejects nor stops a loop that has a message left. -/
def BatchState.Clean (s : BatchState Buffer) (a : Act) : Prop := a.rejects = false ∧ s.trips a = false

variable {str : Buffer → String} {opts : KafkaTransportOptions} {batch : Batch Buffer}

/-- No group was rejected or stopped before its last message. -/
def Unstopped (s : BatchState Buffer) : Prop :=
  ∀ gs ∈ s.groups, gs.phase.isRejected = false ∧ (gs.phase.isReturned = true → gs.todo = [])

theorem unstopped_step {s s' : BatchState Buffer} {a : Act} (hu : Unstopped s) (hc : s.Clean a)
    (h : step str opts batch s a = some s') : Unstopped s' := by
  rcases step_cases h with ⟨g, gs, tr, gs', events, ht, hgs, hm, -, rfl⟩ | ⟨ticks, unhandled, -, rfl⟩
  · intro x hx
    rcases List.mem_or_eq_of_mem_set hx with hx | rfl
    · exact hu x hx
    · obtain ⟨hrej, htrip⟩ := hc
      cases hm with
      | finish => exact ⟨rfl, fun _ => rfl⟩
      | @stop _ _ _ running stale e rest he hstop =>
        have hs : a.stops = true := by cases he <;> exact hstop
        simp [BatchState.trips, hs, ht, hgs] at htrip
      | start => exact ⟨rfl, nofun⟩
      | fulfil => exact ⟨rfl, nofun⟩
      | reject => cases hrej
      | beatReject => cases hrej
  · exact hu

theorem unstopped_init : Unstopped (init str batch) := by
  intro gs hgs
  simp only [init, List.mem_map] at hgs
  obtain ⟨p, -, rfl⟩ := hgs
  exact ⟨rfl, fun h => by cases h⟩

variable (str opts batch) in
/-- A group that has not settled can take a step that does not stop it, unless another group has
to be launched first. -/
theorem clean_step_exists {s : BatchState Buffer} {gs : GroupState Buffer} (hgs : gs ∈ s.groups)
    (hr : gs.phase.isReturned = false) (hj : gs.phase.isRejected = false) :
    ∃ a, s.Clean a ∧ (step str opts batch s a).isSome = true := by
  cases hl : s.launched with
  | false =>
    -- the first group that is not launched
    obtain ⟨x, hx, hidle⟩ : ∃ x ∈ s.groups, x.phase.isIdle = true := by
      simpa [BatchState.launched] using hl
    obtain ⟨g, hg⟩ : ∃ g, s.groups.findIdx? (·.phase.isIdle) = some g :=
      Option.isSome_iff_exists.1 (by rw [List.findIdx?_isSome]; exact List.any_eq_true.2 ⟨x, hx, hidle⟩)
    obtain ⟨hlt, -⟩ := List.findIdx?_eq_some_iff_getElem.1 hg
    exact ⟨.launch true false, ⟨rfl, rfl⟩, by simp [step, hg, List.getElem?_eq_getElem hlt]⟩
  | true =>
    obtain ⟨g, hg⟩ := List.mem_iff_getElem?.1 hgs
    obtain ⟨ph, todo⟩ := gs
    cases ph with
    | idle =>
      have : (Phase.idle : Phase Buffer).isIdle = false := by
        simpa using List.all_eq_true.1 hl _ hgs
      cases this
    | handling e => exact ⟨.fulfil g, ⟨rfl, rfl⟩, by simp [step, hl, hg]⟩
    | beating e => exact ⟨.beat g true false, ⟨rfl, rfl⟩, by simp [step, hl, hg]⟩
    | returned => cases hr
    | rejected => cases hj

/-! ## Calls of the handler -/

theorem startedAt_nodup : ∀ {log : List Event}, Justified (Justifies str batch) log → (startedAt log).Nodup := by
  intro log
  induction log using List.reverseRecOn with
  | nil => intro _; exact List.nodup_nil
  | append_singleton log ev ih =>
    intro h
    rw [startedAt_append, List.nodup_append]
    refine ⟨ih (h.initial (List.prefix_append _ _)), ?_, fun i hi j hj hij => ?_⟩
    · cases ev <;> simp
    · obtain ⟨m, hm⟩ := mem_startedAt.1 hj
      obtain rfl := List.mem_singleton.1 hm
      subst hij
      exact (h log (.started i m) [] rfl).1 hi

/-- In a run that nothing stops, a state without a further such step has handed every message to
the handler. -/
theorem all_started {s : BatchState Buffer} (hi : Inv str batch s) (hu : Unstopped s)
    (hmax : ∀ a, s.Clean a → step str opts batch s a = none) : ∀ e ∈ batch.entries, e.2 ∈ startedAt s.log := by
  intro e he
  obtain ⟨g, p, gs, hp, hep, hg, began, hes, hst, -⟩ := hi.exists_group he
  have hmem := List.mem_of_getElem? hg
  have hret : gs.phase.isReturned = true := by
    by_contra hr
    obtain ⟨a, hc, hsome⟩ := clean_step_exists str opts batch hmem
      (by simpa using hr) (hu _ hmem).1
    rw [hmax a hc] at hsome
    cases hsome
  rw [(hu _ hmem).2 hret, List.append_nil] at hes
  have hin : e.2 ∈ (startedAt s.log).filter (· ∈ p.2.map Prod.snd) := by
    rw [hst, ← hes]; exact List.mem_map_of_mem hep
  exact (List.mem_filter.1 hin).1

/-! ## Keys -/

section Keys

variable [DecidableEq Buffer]

/-- The positions of the messages with a key, in batch order. -/
def Batch.ofKey (batch : Batch Buffer) (k : Option Buffer) : List ℕ :=
  (batch.entries.filter (·.1.key = k)).map Prod.snd

theorem mem_ofKey {k : Option Buffer} {e : Entry Buffer} (he : e ∈ batch.entries) :
    e.2 ∈ batch.ofKey k ↔ e.1.key = k := by
  unfold Batch.ofKey
  rw [List.mem_map]
  constructor
  · rintro ⟨f, hf, heq⟩
    obtain ⟨hf, hk⟩ := List.mem_filter.1 hf
    rw [entry_ext he hf heq.symm]; simpa using hk
  · intro hk; exact ⟨e, List.mem_filter.2 ⟨he, by simpa using hk⟩, rfl⟩

/-- The messages with one key are in one group. -/
theorem ofKey_eq_group {k : Option Buffer} {g : ℕ} {p : String × List (Entry Buffer)}
    (hp : (batch.groups str)[g]? = some p) (hk : (k.map str).getD "__no_key__" = p.1) :
    batch.ofKey k = (p.2.filter (·.1.key = k)).map Prod.snd := by
  rw [group_eq_filter hp, List.filter_filter]
  unfold Batch.ofKey
  congr 1
  refine List.filter_congr fun e _ => ?_
  by_cases hek : e.1.key = k
  · simp [hek, groupKey, hk]
  · simp [hek]

/-- The invocations for one key are a prefix of the messages with it, in batch order. -/
theorem startedAt_ofKey {s : BatchState Buffer} (hi : Inv str batch s) (k : Option Buffer) :
    (startedAt s.log).filter (· ∈ batch.ofKey k) <+: batch.ofKey k := by
  by_cases hex : ∃ e ∈ batch.entries, e.1.key = k
  · obtain ⟨e, he, rfl⟩ := hex
    obtain ⟨g, p, gs, hp, hep, -, began, hes, hst, -⟩ := hi.exists_group he
    have hkey := ofKey_eq_group hp ((mem_group hp).1 hep).2
    have hsub : ∀ i ∈ batch.ofKey e.1.key, i ∈ p.2.map Prod.snd := by
      rw [hkey]; intro i hi; exact List.map_subset _ (List.filter_subset_self _) hi
    have h1 : (startedAt s.log).filter (· ∈ batch.ofKey e.1.key) =
        (began.filter (·.1.key = e.1.key)).map Prod.snd := by
      calc (startedAt s.log).filter (· ∈ batch.ofKey e.1.key)
          = ((startedAt s.log).filter (· ∈ p.2.map Prod.snd)).filter (· ∈ batch.ofKey e.1.key) := by
            rw [List.filter_filter]
            refine List.filter_congr fun i _ => ?_
            by_cases hi : i ∈ batch.ofKey e.1.key
            · simp only [hi, hsub i hi, decide_true, Bool.and_self]
            · simp only [hi, decide_false, Bool.false_and]
        _ = (began.map Prod.snd).filter (· ∈ batch.ofKey e.1.key) := by rw [hst]
        _ = _ := by
            rw [List.filter_map]
            congr 1
            refine List.filter_congr fun f hf => ?_
            have hfe : f ∈ batch.entries := ((mem_group hp).1 (by rw [hes]; exact List.mem_append_left _ hf)).1
            simp [Function.comp, mem_ofKey hfe]
    rw [h1, hkey, hes, List.filter_append, List.map_append]
    exact List.prefix_append _ _
  · have : batch.ofKey k = [] := by
      unfold Batch.ofKey
      rw [List.filter_eq_nil_iff.2 fun e he => by simpa using fun hk => hex ⟨e, he, hk⟩, List.map_nil]
    simp [this]

/-! ## Whole runs -/

/-- Per-key sequential delivery without loss or duplication, in every run of `processBatch`:
restricted to a key, the handler is called on a prefix of the messages with the key, in batch
order, each after every earlier one has fulfilled; every call is for a message of the batch and
none is made twice; and when no handler or heartbeat of the run rejects and no loop with a message
left is stopped, then once no such step is left every message has been handed over exactly once. -/
theorem sequential_delivery {s : BatchState Buffer} {as : List Act}
    (h : run (step str opts batch) (init str batch) as = some s) :
    (∀ k, (startedAt s.log).filter (· ∈ batch.ofKey k) <+: batch.ofKey k) ∧
    (∀ pre i m post, s.log = pre ++ .started i m :: post →
      ∃ e ∈ batch.entries, e.2 = i ∧ m = toInbound str batch e.1 ∧
        ∀ f ∈ batch.entries, f.1.key = e.1.key → f.2 < i → Event.fulfilled f.2 ∈ pre) ∧
    (startedAt s.log).Nodup ∧
    (Each (step str opts batch) BatchState.Clean (init str batch) as →
      (∀ a, s.Clean a → step str opts batch s a = none) →
      ∀ e ∈ batch.entries, (startedAt s.log).count e.2 = 1) := by
  have hi := inv_reachable ⟨as, h⟩
  have hnodup := startedAt_nodup hi.justified
  refine ⟨startedAt_ofKey hi, fun pre i m post heq => ?_, hnodup, fun hclean hmax e he => ?_⟩
  · obtain ⟨-, e, he, hei, hm, hall⟩ := hi.justified pre (.started i m) post heq
    exact ⟨e, he, hei, hm, fun f hf hk hlt => hall f hf (by unfold groupKey; rw [hk]) hlt⟩
  · have hu : Unstopped s := run_each_induction (fun _ _ _ hu hc hs => unstopped_step hu hc hs) unstopped_init hclean h
    exact List.count_eq_one_of_mem hnodup (all_started hi hu hmax e he)

end Keys

/-- Nothing is left to do once every group has returned and no timer heartbeat is in flight. -/
theorem step_eq_none {s : BatchState Buffer} (hall : ∀ gs ∈ s.groups, gs.phase.isReturned = true) (ht : s.ticks = 0)
    (a : Act) : step str opts batch s a = none := by
  refine Option.eq_none_iff_forall_ne_some.2 fun s' hs => ?_
  rcases step_cases hs with ⟨g, gs, tr, gs', events, -, hgs, hm, -, -⟩ | ⟨ticks, unhandled, hm, -⟩
  · have hret := hall gs (List.mem_of_getElem? hgs)
    cases hm with
    | finish he => cases he <;> cases hret
    | stop he => cases he <;> cases hret
    | start he => cases he <;> cases hret
    | _ => cases hret
  · cases hm with
    | tick hgs => cases hall _ (List.mem_of_getElem? hgs)
    | fulfil hpos => omega
    | reject hpos => omega

/-- The three messages of the sample, each handed over once. -/
theorem sequential_delivery_all :
    ∃ s, run (step id .default .sample) (init id .sample)
        [.launch true false, .launch true false, .fulfil 0, .fulfil 1, .beat 1 true false, .beat 0 true false,
          .fulfil 0, .beat 0 true false] = some s ∧
      ∀ e ∈ Batch.sample.entries, (startedAt s.log).count e.2 = 1 := by
  obtain ⟨s, hr, hp⟩ := exists_of_run (step id .default .sample) (init id .sample)
    [.launch true false, .launch true false, .fulfil 0, .fulfil 1, .beat 1 true false, .beat 0 true false,
      .fulfil 0, .beat 0 true false] (fun s => s.groups.all (·.phase.isReturned) && s.ticks == 0) (by decide)
  simp only [Bool.and_eq_true, List.all_eq_true, beq_iff_eq] at hp
  refine ⟨s, hr, (sequential_delivery hr).2.2.2 ?_ fun a _ => step_eq_none hp.1 hp.2 a⟩
  exact each_of_eachB _ (fun s a => !a.rejects && !s.trips a) (fun s a hc => by simpa [BatchState.Clean] using hc) _ _
    (by decide)

end Saga.Kafka
