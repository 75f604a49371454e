/-
When the promise of `processBatch` settles. `Promise.all` rejects with the first group that
rejects and leaves the others running: a settled batch is finished exactly when every rejection
found no other handler in flight and no group started a message after one.
-/
import SagaProofs.Kafka.Invariant

namespace Saga.Kafka

open Lts

variable {Buffer : Type}

/-! ## Finished batches -/

/-- Every handler that was called has fulfilled or rejected. -/
def AllEnded (log : List Event) : Prop := ∀ i ∈ startedAt log, Event.fulfilled i ∈ log ∨ Event.rejected i ∈ log

/-- Once the promise has settled no handler is in flight, none is started and no offset resolved. -/
structure Finished (log : List Event) : Prop where
  ended : ∀ pre r post, log = pre ++ .settled r :: post → AllEnded pre
  not_started : ∀ pre r post, log = pre ++ .settled r :: post → ∀ i m, Event.started i m ∉ post
  not_resolved : ∀ pre r post, log = pre ++ .settled r :: post → ∀ o, Event.resolved o ∉ post

/-- The action rejects a group: its handler or the heartbeat after a message rejects. -/
def Act.rejectsGroup : Act → Bool
  | .reject _ => true
  | .beatReject _ => true
  | _ => false

def Phase.isHandling : Phase Buffer → Bool
  | .handling _ => true
  | _ => false

theorem Phase.not_handling_of_rejected {ph : Phase Buffer} (h : ph.isRejected = true) : ph.isHandling = false := by
  cases ph with
  | rejected => rfl
  | _ => cases h

theorem Phase.not_handling_of_returned {ph : Phase Buffer} (h : ph.isReturned = true) : ph.isHandling = false := by
  cases ph with
  | returned => rfl
  | _ => cases h

/-- Some group has rejected. -/
def BatchState.SomeRejected (s : BatchState Buffer) : Prop := ∃ gs ∈ s.groups, gs.phase.isRejected = true

/-- The action takes a group to a loop head. -/
def Act.enters : Act → Bool
  | .launch _ _ => true
  | .beat _ _ _ => true
  | _ => false

/-- The answers the action gives stop a loop: `isRunning()` is false or `isStale()` is true. -/
def Act.stops : Act → Bool
  | .launch running stale => !running || stale
  | .beat _ running stale => !running || stale
  | _ => false

/-- The action starts a message: a loop with a message left is not stopped at its head. -/
def BatchState.starts (s : BatchState Buffer) (a : Act) : Bool :=
  a.enters && !a.stops && ((s.target a).bind (s.groups[·]?)).any fun gs => !gs.todo.isEmpty

/-- Every handler in flight is that of the group a rejection is about, and where a group has rejected
no message is started. -/
def BatchState.Orderly (s : BatchState Buffer) (a : Act) : Prop :=
  (a.rejectsGroup = true → ∀ p ∈ s.groups.zipIdx, p.1.phase.isHandling = true → s.target a = some p.2) ∧
  (s.starts a = true → ¬ s.SomeRejected)

instance (s : BatchState Buffer) : Decidable s.SomeRejected :=
  inferInstanceAs (Decidable (∃ gs ∈ s.groups, gs.phase.isRejected = true))

instance (s : BatchState Buffer) : DecidablePred s.Orderly := fun _ =>
  inferInstanceAs (Decidable (_ ∧ _))

/-- What may stand in a log before an event, for a settled batch to be finished. -/
def Finishes (pre : List Event) : Event → Prop
  | .settled _ => AllEnded pre
  | .started _ _ => ∀ r, Event.settled r ∉ pre
  | .resolved _ => ∀ r, Event.settled r ∉ pre
  | _ => True

theorem finished_iff_justified {log : List Event} : Finished log ↔ Justified Finishes log := by
  constructor
  · intro h pre ev post heq
    have hsplit : ∀ r, Event.settled r ∈ pre → ∃ pre' post', log = pre' ++ .settled r :: (post' ++ ev :: post) := by
      intro r hr
      obtain ⟨pre', post', rfl⟩ := List.append_of_mem hr
      exact ⟨pre', post', by rw [heq]; simp⟩
    cases ev with
    | settled r => exact h.ended pre r post heq
    | started i m =>
      intro r hr
      obtain ⟨pre', post', heq'⟩ := hsplit r hr
      exact h.not_started pre' r _ heq' i m (by simp)
    | resolved o =>
      intro r hr
      obtain ⟨pre', post', heq'⟩ := hsplit r hr
      exact h.not_resolved pre' r _ heq' o (by simp)
    | _ => trivial
  · intro h
    refine ⟨fun pre r post heq => h pre _ post heq, fun pre r post heq i m hm => ?_, fun pre r post heq o ho => ?_⟩
    · obtain ⟨p1, p2, rfl⟩ := List.append_of_mem hm
      exact h (pre ++ .settled r :: p1) (.started i m) p2 (by rw [heq]; simp) r (by simp)
    · obtain ⟨p1, p2, rfl⟩ := List.append_of_mem ho
      exact h (pre ++ .settled r :: p1) (.resolved o) p2 (by rw [heq]; simp) r (by simp)

/-! ## The promise -/

section Promise

theorem promiseAll_eq_none {groups : List (GroupState Buffer)} :
    promiseAll groups = none ↔ (¬ ∃ gs ∈ groups, gs.phase.isRejected = true) ∧
      ∃ gs ∈ groups, gs.phase.isReturned = false := by
  unfold promiseAll
  rw [← List.any_eq_true]
  cases groups.any (·.phase.isRejected) with
  | true => simp
  | false => simp

theorem promiseAll_fulfilled {groups : List (GroupState Buffer)} :
    promiseAll groups = some .fulfilled ↔ ∀ gs ∈ groups, gs.phase.isReturned = true := by
  unfold promiseAll
  constructor
  · intro h
    split at h
    · cases h
    · split at h
      · rename_i hall; exact List.all_eq_true.1 hall
      · cases h
  · intro h
    have hno : groups.any (·.phase.isRejected) = false := by
      refine List.any_eq_false.2 fun gs hgs hrej => ?_
      have := h gs hgs
      obtain ⟨ph, todo⟩ := gs
      cases ph with
      | returned => cases hrej
      | _ => cases this
    rw [hno, if_neg (by simp), if_pos (List.all_eq_true.2 h)]

/-- What holds of some group after group `g` was replaced, for a property the old group `g` lacks. -/
theorem exists_mem_set {groups : List (GroupState Buffer)} {g : ℕ} {gs gs' : GroupState Buffer}
    {P : GroupState Buffer → Prop} (hgs : groups[g]? = some gs) (hn : ¬ P gs) :
    (∃ x ∈ groups.set g gs', P x) ↔ (∃ x ∈ groups, P x) ∨ P gs' := by
  constructor
  · rintro ⟨x, hx, hP⟩
    rcases List.mem_or_eq_of_mem_set hx with hx | rfl
    · exact .inl ⟨x, hx, hP⟩
    · exact .inr hP
  · rintro (⟨x, hx, hP⟩ | hP)
    · obtain ⟨g', hg'⟩ := List.mem_iff_getElem?.1 hx
      have hne : g ≠ g' := by
        rintro rfl
        rw [hgs] at hg'
        cases hg'; exact hn hP
      refine ⟨x, List.mem_of_getElem? (i := g') ?_, hP⟩
      rw [List.getElem?_set_ne hne]; exact hg'
    · exact ⟨gs', List.mem_set (List.getElem?_eq_some_iff.1 hgs).1 gs', hP⟩

variable {str : Buffer → String} {opts : KafkaTransportOptions} {batch : Batch Buffer}
variable {s s' : BatchState Buffer} {a : Act} {g : ℕ} {gs gs' : GroupState Buffer} {tr tr' : WatermarkTracker}
variable {events : List Event}

/-- A group that has returned is not moved again. -/
theorem Move.not_returned (hm : Move str batch a tr gs tr' gs' events) : gs.phase.isReturned = false := by
  cases hm with
  | finish he => cases he <;> rfl
  | stop he => cases he <;> rfl
  | start he => cases he <;> rfl
  | _ => rfl

theorem Move.rejected_iff (hm : Move str batch a tr gs tr' gs' events) :
    gs.phase.isRejected = false ∧ (gs'.phase.isRejected = true ↔ a.rejectsGroup = true) := by
  cases hm with
  | finish he => cases he <;> simp [Phase.isRejected, Act.rejectsGroup]
  | stop he => cases he <;> simp [Phase.isRejected, Act.rejectsGroup]
  | start he => cases he <;> simp [Phase.isRejected, Act.rejectsGroup]
  | _ => simp [Phase.isRejected, Act.rejectsGroup]

/-- Some group has rejected after a step when it had before, or the step rejects it. -/
theorem someRejected_step (h : step str opts batch s a = some s') :
    s'.SomeRejected ↔ s.SomeRejected ∨ a.rejectsGroup = true := by
  rcases step_cases h with ⟨g, gs, tr, gs', events, -, hgs, hm, -, rfl⟩ | ⟨ticks, unhandled, htick, rfl⟩
  · rw [← hm.rejected_iff.2]
    exact exists_mem_set hgs (by simp [hm.rejected_iff.1])
  · show s.SomeRejected ↔ _
    cases htick <;> simp [Act.rejectsGroup]

/-- While a group can move, the promise is pending unless another group has rejected. -/
theorem Move.pending_iff (hm : Move str batch a tr gs tr' gs' events) (hgs : s.groups[g]? = some gs) :
    promiseAll s.groups = none ↔ ¬ s.SomeRejected := by
  rw [promiseAll_eq_none]
  exact and_iff_left ⟨gs, List.mem_of_getElem? hgs, hm.not_returned⟩

/-- A group that rejects settles the promise when it is pending. -/
theorem Move.settling_rejected (hgs : s.groups[g]? = some gs) (hrej : gs'.phase.isRejected = true)
    (hp : promiseAll s.groups = none) : settling s.groups (s.groups.set g gs') = [.settled .rejected] := by
  have hmem : gs' ∈ s.groups.set g gs' := List.mem_set (List.getElem?_eq_some_iff.1 hgs).1 gs'
  have hany : (s.groups.set g gs').any (·.phase.isRejected) = true := List.any_eq_true.2 ⟨gs', hmem, hrej⟩
  unfold settling
  rw [hp]
  unfold promiseAll
  rw [hany]
  rfl

theorem settling_of_settled {before after : List (GroupState Buffer)} (h : promiseAll before ≠ none) :
    settling before after = [] := by
  rcases settling_eq before after with h' | ⟨r, h1, -, -⟩
  · exact h'
  · exact absurd h1 h

/-- A settled promise stays settled. -/
theorem promiseAll_step (h : step str opts batch s a = some s') (hp : promiseAll s.groups ≠ none) :
    promiseAll s'.groups ≠ none := by
  rcases step_cases h with ⟨g, gs, tr, gs', events, -, hgs, hm, -, rfl⟩ | ⟨ticks, unhandled, -, rfl⟩
  · rw [ne_eq, hm.pending_iff hgs, not_not] at hp
    intro hnone
    refine (promiseAll_eq_none.1 hnone).1 ?_
    exact (exists_mem_set hgs (by simp [hm.rejected_iff.1])).2 (.inl hp)
  · exact hp

/-- The log says that the promise has settled exactly when it has. -/
def SettledInv (s : BatchState Buffer) : Prop := (∃ r, Event.settled r ∈ s.log) ↔ promiseAll s.groups ≠ none

theorem Move.no_settled (hm : Move str batch a tr gs tr' gs' events) (r : Settlement) : Event.settled r ∉ events := by
  cases hm with
  | @fulfil _ _ e =>
    rcases resolving_eq (tr.markCompleted e.1.offset) with h | ⟨o, -, h⟩
    · rw [h]; simp
    · rw [h]; simp
  | _ => simp

theorem settledInv_step (hi : SettledInv s) (h : step str opts batch s a = some s') : SettledInv s' := by
  have hstays := promiseAll_step h
  rcases step_cases h with ⟨g, gs, tr, gs', events, -, hgs, hm, -, rfl⟩ | ⟨ticks, unhandled, -, rfl⟩
  · unfold SettledInv at hi ⊢
    simp only [BatchState.put, List.mem_append, hm.no_settled, false_or, exists_or, hi] at hstays ⊢
    constructor
    · rintro (hp | ⟨r, hr⟩)
      · exact hstays hp
      · rcases settling_eq s.groups (s.groups.set g gs') with hs | ⟨r', -, h2, -⟩
        · rw [hs] at hr; cases hr
        · rw [h2]; exact Option.some_ne_none r'
    · intro hp
      by_cases hb : promiseAll s.groups = none
      · obtain ⟨r, hr⟩ := Option.ne_none_iff_exists'.1 hp
        exact .inr ⟨r, by unfold settling; rw [hb, hr]; simp⟩
      · exact .inl hb
  · exact hi

theorem settledInv_init : SettledInv (init str batch) := by
  unfold SettledInv init
  simp only
  split
  · rename_i r h
    rw [h]; simp
  · rename_i h
    rw [h]; simp

/-! ## One step -/

/-- All handlers that were called have ended exactly when no group has one in flight. -/
theorem Inv.allEnded_iff (hi : Inv str batch s) : AllEnded s.log ↔ ∀ gs ∈ s.groups, gs.phase.isHandling = false := by
  constructor
  · intro h gs hgs
    obtain ⟨g, hg⟩ := List.mem_iff_getElem?.1 hgs
    obtain ⟨p, -, hgi⟩ := hi.group hg
    obtain ⟨ph, todo⟩ := gs
    cases ph with
    | handling e =>
      obtain ⟨began, -, -, done, -, -, hful, hrej⟩ := id hgi
      rcases h e.2 hgi.started with hend | hend
      · exact absurd hend hful
      · exact absurd hend hrej
    | _ => rfl
  · intro h i hst
    obtain ⟨e, he, rfl⟩ := hi.started i hst
    obtain ⟨g, p, gs, hp, hep, hg, began, hes, hstarted, hph⟩ := hi.exists_group he
    have hnh := h gs (List.mem_of_getElem? hg)
    -- the message is one of those its group has begun
    have hin : e.2 ∈ (startedAt s.log).filter (· ∈ p.2.map Prod.snd) :=
      List.mem_filter.2 ⟨hst, by simpa using ⟨e.1, hep⟩⟩
    rw [hstarted] at hin
    obtain ⟨f, hf, hfe⟩ := List.mem_map.1 hin
    have hend : Event.fulfilled f.2 ∈ s.log ∨ Event.rejected f.2 ∈ s.log := by
      cases hc : gs.phase with
      | idle => rw [hc] at hph; cases hph; cases hf
      | handling e' => rw [hc] at hnh; cases hnh
      | beating e' => rw [hc] at hph; obtain ⟨-, -, hall⟩ := hph; exact .inl (hall f hf)
      | returned => rw [hc] at hph; exact .inl (hph f hf)
      | rejected =>
        rw [hc] at hph
        obtain ⟨done, e', rfl, hall, hlast⟩ := hph
        rcases List.mem_append.1 hf with hf | hf
        · exact .inl (hall f hf)
        · rw [List.mem_singleton.1 hf]; exact hlast
    rwa [hfe] at hend

theorem allEnded_settling {log : List Event} {before after : List (GroupState Buffer)} :
    AllEnded (log ++ settling before after) ↔ AllEnded log := by
  have hsil := silent_settling before after
  unfold AllEnded
  simp only [startedAt_append, hsil.startedAt_eq, List.append_nil, List.mem_append]
  have h1 : ∀ i, Event.fulfilled i ∉ settling before after := fun i => hsil.not_mem rfl
  have h2 : ∀ i, Event.rejected i ∉ settling before after := fun i => hsil.not_mem rfl
  simp only [h1, h2, or_false]

/-- In a finished log of a settled batch no group has a handler in flight. -/
theorem Inv.not_settled_of_handling (hi : Inv str batch s) (hf : Finished s.log) (hg : gs ∈ s.groups)
    (hh : gs.phase.isHandling = true) (r : Settlement) : Event.settled r ∉ s.log := by
  intro hr
  obtain ⟨pre, post, heq⟩ := List.append_of_mem hr
  have hall : AllEnded s.log := by
    intro i hi
    rw [heq, startedAt_append, List.mem_append] at hi
    rcases hi with hi | hi
    · rw [heq]
      exact (hf.ended pre r post heq i hi).imp (List.mem_append_left _) (List.mem_append_left _)
    · obtain ⟨m, hm⟩ := mem_startedAt.1 hi
      rcases List.mem_cons.1 hm with hm | hm
      · cases hm
      · exact absurd hm (hf.not_started pre r post heq i m)
  rw [hi.allEnded_iff.1 hall gs hg] at hh
  cases hh

/-- A move starts a message exactly when it leaves the group with a handler in flight. -/
theorem Move.starts_eq (hm : Move str batch a tr gs tr' gs' events) (ht : s.target a = some g)
    (hgs : s.groups[g]? = some gs) : s.starts a = gs'.phase.isHandling := by
  have hs : s.starts a = (a.enters && !a.stops && !gs.todo.isEmpty) := by
    simp [BatchState.starts, ht, hgs]
  rw [hs]
  cases hm with
  | finish => simp [Phase.isHandling]
  | stop he hc => cases he <;> simp only [Act.enters, Act.stops, hc] <;> rfl
  | start he hc => cases he <;> simp only [Act.enters, Act.stops, hc] <;> rfl
  | _ => rfl

theorem finished_settling {log : List Event} {before after : List (GroupState Buffer)} :
    Finished (log ++ settling before after) ↔ Finished log ∧ (settling before after ≠ [] → AllEnded log) := by
  rcases settling_eq before after with h | ⟨r, -, -, h⟩
  · simp [h]
  · rw [h, finished_iff_justified, justified_snoc_iff, ← finished_iff_justified]
    simp [Finishes]

/-- Where the log says nothing of it, the promise is pending. -/
theorem SettledInv.none_iff (hi : SettledInv s) : promiseAll s.groups = none ↔ ∀ r, Event.settled r ∉ s.log := by
  constructor
  · intro hn r hr
    exact hi.1 ⟨r, hr⟩ hn
  · intro h
    by_contra hn
    obtain ⟨r, hr⟩ := hi.2 hn
    exact h r hr

/-- The handlers in flight are at most that of group `g` exactly when none is after the group has
moved to a phase without one. -/
theorem others_iff (ht : s.target a = some g) (hh : gs'.phase.isHandling = false) :
    (∀ p ∈ s.groups.zipIdx, p.1.phase.isHandling = true → s.target a = some p.2) ↔
      ∀ x ∈ s.groups.set g gs', x.phase.isHandling = false := by
  constructor
  · intro h x hx
    obtain ⟨i, hi⟩ := List.mem_iff_getElem?.1 hx
    rw [List.getElem?_set] at hi
    split at hi
    · split at hi
      · cases hi; exact hh
      · cases hi
    · rename_i hne
      by_contra hx'
      have := h (x, i) (List.mem_zipIdx_iff_getElem?.2 hi) (by simpa using hx')
      rw [ht] at this
      exact hne (Option.some.inj this)
  · rintro h ⟨x, i⟩ hp hx
    have hi : s.groups[i]? = some x := List.mem_zipIdx_iff_getElem?.1 hp
    by_contra hne
    have hset : (s.groups.set g gs')[i]? = some x := by
      rw [List.getElem?_set_ne fun heq => hne (by rw [ht, heq])]
      exact hi
    rw [h x (List.mem_of_getElem? hset)] at hx
    cases hx

/-- The handlers called have ended after the events of a move exactly when no group has one in flight. -/
theorem allEnded_put (hi : Inv str batch s)
    (h : step str opts batch s a = some ({ s with tracker := tr }.put g gs' events)) :
    AllEnded (s.log ++ events) ↔ ∀ x ∈ s.groups.set g gs', x.phase.isHandling = false := by
  have := (inv_step hi h).allEnded_iff
  simp only [BatchState.put] at this
  rw [← List.append_assoc, allEnded_settling] at this
  exact this

/-- A promise that settles without a rejection fulfils, with nothing in flight. -/
theorem Move.settles_fulfilled (hm : Move str batch a s.tracker gs tr gs' events) (hgs : s.groups[g]? = some gs)
    (hrej : a.rejectsGroup = false) (hne : settling s.groups (s.groups.set g gs') ≠ []) :
    ∀ x ∈ s.groups.set g gs', x.phase.isHandling = false := by
  rcases settling_eq s.groups (s.groups.set g gs') with heq | ⟨r, h1, h2, -⟩
  · exact absurd heq hne
  · have hno : ¬ ∃ x ∈ s.groups.set g gs', x.phase.isRejected = true := by
      rw [exists_mem_set hgs (by simp [hm.rejected_iff.1]), hm.rejected_iff.2, hrej]
      simpa using (promiseAll_eq_none.1 h1).1
    intro x hx
    have hret : x.phase.isReturned = true := by
      by_contra hcon
      rw [promiseAll_eq_none.2 ⟨hno, x, hx, by simpa using hcon⟩] at h2
      cases h2
    exact Phase.not_handling_of_returned hret

/-- The events of a move leave the log finished, unless one starts a message after the promise has
settled. -/
theorem Move.finished_events (hm : Move str batch a s.tracker gs tr gs' events) (hi : Inv str batch s) (hs : SettledInv s)
    (hgs : s.groups[g]? = some gs) :
    Finished (s.log ++ events) ↔ Finished s.log ∧ (gs'.phase.isHandling = true → ¬ s.SomeRejected) := by
  have hpend := hm.pending_iff hgs
  have hsnoc : ∀ (log : List Event) (ev : Event), Finished (log ++ [ev]) ↔ Finished log ∧ Finishes log ev := by
    intro log ev
    rw [finished_iff_justified, justified_snoc_iff, ← finished_iff_justified]
  cases hm with
  | finish => simp [Phase.isHandling]
  | stop => simp [Phase.isHandling]
  | @start _ _ _ _ _ e rest =>
    rw [hsnoc, ← hpend, hs.none_iff]
    simp [Finishes, Phase.isHandling]
  | @fulfil _ _ e todo =>
    rw [and_iff_left (by simp [Phase.isHandling])]
    have h1 : Finished (s.log ++ [.fulfilled e.2]) ↔ Finished s.log := by
      rw [hsnoc]
      exact and_iff_left trivial
    rcases resolving_eq (s.tracker.markCompleted e.1.offset) with heq | ⟨o, -, heq⟩
    · rw [heq]; exact h1
    · rw [heq, List.append_cons, hsnoc, h1]
      refine and_iff_left_of_imp fun hf r hr => ?_
      rcases List.mem_append.1 hr with hr | hr
      · exact hi.not_settled_of_handling hf (List.mem_of_getElem? hgs) rfl r hr
      · cases List.mem_singleton.1 hr
  | reject => rw [hsnoc]; simp [Finishes, Phase.isHandling]
  | beatReject => rw [hsnoc]; simp [Finishes, Phase.isHandling]

/-- A rejection leaves the log finished exactly when it was and no other handler is in flight. -/
theorem Move.finished_rejecting (hm : Move str batch a s.tracker gs tr gs' events) (hi : Inv str batch s)
    (hs : SettledInv s) (hgs : s.groups[g]? = some gs) (hrej : a.rejectsGroup = true)
    (hended : AllEnded (s.log ++ events) ↔ ∀ x ∈ s.groups.set g gs', x.phase.isHandling = false) :
    Finished (s.log ++ events ++ settling s.groups (s.groups.set g gs')) ↔
      Finished s.log ∧ ∀ x ∈ s.groups.set g gs', x.phase.isHandling = false := by
  have hphase : gs'.phase.isRejected = true := hm.rejected_iff.2.2 hrej
  have hh : gs'.phase.isHandling = false := Phase.not_handling_of_rejected hphase
  have hev : Finished (s.log ++ events) ↔ Finished s.log := by
    rw [hm.finished_events hi hs hgs, hh]
    simp
  rw [finished_settling, hev]
  refine and_congr_right fun hf => ?_
  by_cases hp : promiseAll s.groups = none
  · rw [Move.settling_rejected hgs hphase hp, hended]
    simp
  · -- a batch that has settled is finished, so nothing is in flight
    rw [settling_of_settled hp]
    refine ⟨fun _ x hx => ?_, fun _ h => absurd rfl h⟩
    rcases List.mem_or_eq_of_mem_set hx with hx | rfl
    · by_contra hx'
      obtain ⟨r, hr⟩ := hs.2 hp
      exact hi.not_settled_of_handling hf hx (by simpa using hx') r hr
    · exact hh

/-- A step leaves the log finished exactly when it was and the step is orderly. -/
theorem finished_step (hi : Inv str batch s) (hs : SettledInv s) (h : step str opts batch s a = some s') :
    Finished s'.log ↔ Finished s.log ∧ s.Orderly a := by
  rcases step_cases h with ⟨g, gs, tr, gs', events, ht, hgs, hm, -, rfl⟩ | ⟨ticks, unhandled, htick, rfl⟩
  · have hended := allEnded_put hi h
    unfold BatchState.Orderly
    rw [hm.starts_eq ht hgs]
    simp only [BatchState.put]
    rw [← List.append_assoc]
    cases hrej : a.rejectsGroup with
    | true =>
      have hh : gs'.phase.isHandling = false := Phase.not_handling_of_rejected (hm.rejected_iff.2.2 hrej)
      rw [hm.finished_rejecting hi hs hgs hrej hended, others_iff ht hh, hh]
      simp
    | false =>
      rw [finished_settling, hm.finished_events hi hs hgs,
        and_iff_left fun hne => hended.2 (hm.settles_fulfilled hgs hrej hne)]
      simp
  · refine (and_iff_left ⟨fun hrej => ?_, fun hst => ?_⟩).symm
    · cases htick <;> cases hrej
    · cases htick <;> cases hst

/-! ## Runs -/

theorem finished_init : Finished (init str batch).log := by
  rw [finished_iff_justified]
  unfold init
  simp only
  split
  · exact (justified_nil _).snoc fun i hi => by cases hi
  · exact justified_nil _

/-- In a run the settled batch is finished exactly when every step is orderly: a group rejects while
no other has a handler in flight, and no message is started where one has rejected. -/
theorem finished_iff_orderly {as : List Act} (h : run (step str opts batch) (init str batch) as = some s) :
    Finished s.log ↔ Each (step str opts batch) BatchState.Orderly (init str batch) as := by
  rw [run_kept_of (I := fun s => Inv str batch s ∧ SettledInv s) (P := fun s => Finished s.log)
    (fun _ _ _ hi hs => ⟨inv_step hi.1 hs, settledInv_step hi.2 hs⟩)
    (fun _ _ _ hi hs => finished_step hi.1 hi.2 hs) ⟨inv_init, settledInv_init⟩ h]
  exact and_iff_right finished_init

end Promise

/-! ## A settled batch that goes on -/

/-- The handler of the second message rejects while the first is in flight: the promise is settled,
and after that an offset is resolved and a further message started. -/
theorem finished_fails_on_rejection :
    ¬ ∀ s, Reachable (step id .default .sample) (init id .sample) s → Finished s.log := by
  intro hall
  have hrun : (run (step id .default .sample) (init id .sample)
      [.launch true false, .launch true false, .reject 1, .fulfil 0, .beat 0 true false]).map (·.log.drop 3) =
      some [.settled .rejected, .fulfilled 0, .resolved "10",
        .started 2 (toInbound id .sample ⟨some "saga-1", some "3", "12", none⟩)] := by rfl
  obtain ⟨s, hr, hlog⟩ := Option.map_eq_some_iff.1 hrun
  have hsplit := (List.take_append_drop 3 s.log).symm
  rw [hlog] at hsplit
  exact (hall s ⟨_, hr⟩).not_resolved _ _ _ hsplit "10" (by simp)

/-- The second group is rejected when the first one is done: the batch is finished. -/
theorem finished_after_orderly_rejection :
    ∃ s, run (step id .default .sample) (init id .sample)
        [.launch true false, .launch true false, .fulfil 0, .beat 0 true false, .fulfil 0, .reject 1] = some s ∧
      Finished s.log := by
  obtain ⟨s, hr, -⟩ := exists_of_run (step id .default .sample) (init id .sample)
    [.launch true false, .launch true false, .fulfil 0, .beat 0 true false, .fulfil 0, .reject 1] (fun _ => true)
    (by decide)
  exact ⟨s, hr, (finished_iff_orderly hr).2
    (each_of_eachB _ (fun s a => decide (s.Orderly a)) (fun s a => of_decide_eq_true) _ _ (by decide))⟩

end Saga.Kafka
