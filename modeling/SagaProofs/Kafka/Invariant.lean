/-
The invariant of `processBatch` over every interleaving of its groups: the completed set is the
set of fulfilled messages, each group has handed a prefix of its messages to the handler one at a
time, and every call of the handler and of `resolveOffset` was justified by what had happened
before it.
-/
import SagaProofs.Kafka.Groups

namespace Saga.Kafka

open Lts

variable {Buffer : Type}

/-! ## What a step can do -/

/-- The group an action moves. -/
def BatchState.target (s : BatchState Buffer) : Act → Option ℕ
  | .launch _ _ => s.groups.findIdx? (·.phase.isIdle)
  | .fulfil g => some g
  | .reject g => some g
  | .beat g _ _ => some g
  | .beatReject g => some g
  | .tick _ => none
  | .tickFulfil => none
  | .tickReject => none

/-- A loop head is reached when a group is launched and when the heartbeat after a message
fulfils, with the answers of `isRunning()` and `isStale()`. -/
inductive Enters : Act → Phase Buffer → Bool → Bool → Prop
  | launch (running stale : Bool) : Enters (.launch running stale) .idle running stale
  | beat (g : ℕ) (e : Entry Buffer) (running stale : Bool) :
      Enters (.beat g running stale) (.beating e) running stale

section Moves

variable (str : Buffer → String) (batch : Batch Buffer)

/-- The moves of one group: the tracker and the group before and after, and the events. -/
inductive Move : Act → WatermarkTracker → GroupState Buffer → WatermarkTracker → GroupState Buffer → List Event → Prop
  | finish {a tr ph running stale} : Enters a ph running stale → Move a tr ⟨ph, []⟩ tr ⟨.returned, []⟩ []
  | stop {a tr ph running stale e rest} : Enters a ph running stale → (!running || stale) = true →
      Move a tr ⟨ph, e :: rest⟩ tr ⟨.returned, e :: rest⟩ []
  | start {a tr ph running stale e rest} : Enters a ph running stale → (!running || stale) = false →
      Move a tr ⟨ph, e :: rest⟩ tr ⟨.handling e, rest⟩ [.started e.2 (toInbound str batch e.1)]
  | fulfil {g tr e todo} : Move (.fulfil g) tr ⟨.handling e, todo⟩ (tr.markCompleted e.1.offset) ⟨.beating e, todo⟩
      (.fulfilled e.2 :: resolving (tr.markCompleted e.1.offset))
  | reject {g tr e todo} : Move (.reject g) tr ⟨.handling e, todo⟩ tr ⟨.rejected, todo⟩ [.rejected e.2]
  | beatReject {g tr e todo} : Move (.beatReject g) tr ⟨.beating e, todo⟩ tr ⟨.rejected, todo⟩ [.beatRejected e.2]

/-- The moves of the timer heartbeats: those in flight and those left unhandled after it. -/
inductive TickMove (opts : KafkaTransportOptions) (s : BatchState Buffer) : Act → ℕ → ℕ → Prop
  | tick {g e todo} : s.groups[g]? = some ⟨.handling e, todo⟩ → autoHeartbeat opts = true →
      TickMove opts s (.tick g) (s.ticks + 1) s.unhandled
  | fulfil : 0 < s.ticks → TickMove opts s .tickFulfil (s.ticks - 1) s.unhandled
  | reject : 0 < s.ticks → TickMove opts s .tickReject (s.ticks - 1) (s.unhandled + 1)

variable {str batch} {opts : KafkaTransportOptions}

theorem loopHead_move {a : Act} {tr : WatermarkTracker} {ph : Phase Buffer} {todo : List (Entry Buffer)}
    {running stale : Bool} (h : Enters a ph running stale) :
    Move str batch a tr ⟨ph, todo⟩ tr (loopHead str batch todo running stale).1
      (loopHead str batch todo running stale).2 := by
  cases todo with
  | nil => exact .finish h
  | cons e rest =>
    unfold loopHead
    cases hc : (!running || stale)
    · exact .start h hc
    · exact .stop h hc

/-- A step moves one group, or it is a tick of a heartbeat timer or the end of one. -/
theorem step_cases {s s' : BatchState Buffer} {a : Act} (h : step str opts batch s a = some s') :
    (∃ g gs tr gs' events, s.target a = some g ∧ s.groups[g]? = some gs ∧
      Move str batch a s.tracker gs tr gs' events ∧ (s.launched = true ∨ gs.phase.isIdle = true) ∧
      s' = { s with tracker := tr }.put g gs' events) ∨
    (∃ ticks unhandled, TickMove opts s a ticks unhandled ∧ s' = { s with ticks, unhandled }) := by
  cases a with
  | launch running stale =>
    simp only [step] at h
    split at h
    · rename_i g hg
      split at h
      · rename_i gs hgs
        cases h
        obtain ⟨hlt, hidle, -⟩ := List.findIdx?_eq_some_iff_getElem.1 hg
        have hget : s.groups[g] = gs := by
          rw [List.getElem?_eq_getElem hlt] at hgs; exact Option.some.inj hgs
        rw [hget] at hidle
        obtain ⟨ph, todo⟩ := gs
        cases ph with
        | idle => exact .inl ⟨g, _, _, _, _, hg, hgs, loopHead_move (.launch running stale), .inr rfl, rfl⟩
        | _ => cases hidle
      · cases h
    · cases h
  | fulfil g =>
    simp only [step] at h
    split at h
    · rename_i hl
      split at h
      · rename_i e todo hgs
        cases h
        exact .inl ⟨g, _, _, _, _, rfl, hgs, .fulfil, .inl hl, rfl⟩
      · cases h
    · cases h
  | reject g =>
    simp only [step] at h
    split at h
    · rename_i hl
      split at h
      · rename_i e todo hgs
        cases h
        exact .inl ⟨g, _, _, _, _, rfl, hgs, .reject, .inl hl, rfl⟩
      · cases h
    · cases h
  | beat g running stale =>
    simp only [step] at h
    split at h
    · rename_i hl
      split at h
      · rename_i e todo hgs
        cases h
        exact .inl ⟨g, _, _, _, _, rfl, hgs, loopHead_move (.beat g e running stale), .inl hl, rfl⟩
      · cases h
    · cases h
  | beatReject g =>
    simp only [step] at h
    split at h
    · rename_i hl
      split at h
      · rename_i e todo hgs
        cases h
        exact .inl ⟨g, _, _, _, _, rfl, hgs, .beatReject, .inl hl, rfl⟩
      · cases h
    · cases h
  | tick g =>
    simp only [step] at h
    split at h
    · rename_i e todo hgs
      split at h
      · rename_i hauto
        cases h; exact .inr ⟨_, _, .tick hgs hauto, rfl⟩
      · cases h
    · cases h
  | tickFulfil =>
    simp only [step] at h
    split at h
    · rename_i ht
      cases h; exact .inr ⟨_, _, .fulfil ht, rfl⟩
    · cases h
  | tickReject =>
    simp only [step] at h
    split at h
    · rename_i ht
      cases h; exact .inr ⟨_, _, .reject ht, rfl⟩
    · cases h

end Moves

/-! ## Reading the log -/

/-- The message an event is about, when it starts or ends its handler. -/
def Event.pos : Event → Option ℕ
  | .started i _ => some i
  | .fulfilled i => some i
  | .rejected i => some i
  | _ => none

@[simp] def Event.startedPos : Event → Option ℕ
  | .started i _ => some i
  | _ => none

/-- The positions handed to the handler, in the order of the calls. -/
def startedAt (log : List Event) : List ℕ := log.filterMap Event.startedPos

@[simp] theorem startedAt_nil : startedAt [] = [] := rfl

@[simp] theorem startedAt_cons (ev : Event) (log : List Event) :
    startedAt (ev :: log) = ev.startedPos.toList ++ startedAt log := by
  unfold startedAt
  rw [List.filterMap_cons]
  cases ev.startedPos <;> rfl

@[simp] theorem startedAt_append (log log' : List Event) :
    startedAt (log ++ log') = startedAt log ++ startedAt log' := List.filterMap_append

theorem mem_startedAt {log : List Event} {i : ℕ} : i ∈ startedAt log ↔ ∃ m, Event.started i m ∈ log := by
  unfold startedAt
  rw [List.mem_filterMap]
  constructor
  · rintro ⟨ev, hev, h⟩
    cases ev with
    | started j m => cases h; exact ⟨m, hev⟩
    | _ => cases h
  · rintro ⟨m, h⟩; exact ⟨_, h, rfl⟩

theorem settling_eq (before after : List (GroupState Buffer)) :
    settling before after = [] ∨ ∃ r, promiseAll before = none ∧ promiseAll after = some r ∧
      settling before after = [.settled r] := by
  unfold settling
  split
  · rename_i r h1 h2; exact .inr ⟨r, h1, h2, rfl⟩
  · exact .inl rfl

/-- A list of events none of which is about a message. -/
def Silent (events : List Event) : Prop := ∀ ev ∈ events, ev.pos = none

theorem silent_settling (before after : List (GroupState Buffer)) : Silent (settling before after) := by
  rcases settling_eq before after with h | ⟨r, -, -, h⟩
  · rw [h]; intro ev hev; cases hev
  · rw [h]; intro ev hev; rw [List.mem_singleton.1 hev]; rfl

theorem resolving_eq (tr : WatermarkTracker) :
    resolving tr = [] ∨ ∃ o, tr.getCommittableOffset = some o ∧ resolving tr = [.resolved o] := by
  unfold resolving
  split
  · rename_i o h; exact .inr ⟨o, (truthy_eq_some.1 h).1, rfl⟩
  · exact .inl rfl

theorem silent_resolving (tr : WatermarkTracker) : Silent (resolving tr) := by
  rcases resolving_eq tr with h | ⟨o, -, h⟩
  · rw [h]; intro ev hev; cases hev
  · rw [h]; intro ev hev; rw [List.mem_singleton.1 hev]; rfl

theorem Silent.startedAt_eq {es : List Event} (h : Silent es) : startedAt es = [] := by
  unfold startedAt
  refine List.filterMap_eq_nil_iff.2 fun ev hev => ?_
  have := h ev hev
  cases ev <;> first | rfl | cases this

theorem Silent.not_mem {es : List Event} (h : Silent es) {ev : Event} {i : ℕ} (hp : ev.pos = some i) : ev ∉ es := by
  intro hev
  have := h ev hev
  rw [hp] at this; cases this

/-! ## The invariant of one group -/

def AllFulfilled (log : List Event) (es : List (Entry Buffer)) : Prop := ∀ e ∈ es, Event.fulfilled e.2 ∈ log

/-- What the log says about the messages a group has begun, by its phase. -/
def PhaseOK (log : List Event) (began : List (Entry Buffer)) : Phase Buffer → Prop
  | .idle => began = []
  | .handling e => ∃ done, began = done ++ [e] ∧ AllFulfilled log done ∧
      Event.fulfilled e.2 ∉ log ∧ Event.rejected e.2 ∉ log
  | .beating e => ∃ done, began = done ++ [e] ∧ AllFulfilled log began
  | .returned => AllFulfilled log began
  | .rejected => ∃ done e, began = done ++ [e] ∧ AllFulfilled log done ∧
      (Event.fulfilled e.2 ∈ log ∨ Event.rejected e.2 ∈ log)

/-- A group with the messages `es`: what it has begun and what it has not make up `es`, and the
begun ones are exactly the ones handed to the handler, in order. -/
def GroupInv (log : List Event) (es : List (Entry Buffer)) (gs : GroupState Buffer) : Prop :=
  ∃ began, es = began ++ gs.todo ∧ (startedAt log).filter (· ∈ es.map Prod.snd) = began.map Prod.snd ∧
    PhaseOK log began gs.phase

theorem AllFulfilled.mono {log : List Event} {es : List (Entry Buffer)} (h : AllFulfilled log es) (l : List Event) :
    AllFulfilled (log ++ l) es := fun e he => List.mem_append_left _ (h e he)

theorem not_mem_append {log events : List Event} {ev : Event} (h : ev ∉ log) (h' : ev ∉ events) :
    ev ∉ log ++ events := by
  rw [List.mem_append, not_or]; exact ⟨h, h'⟩

/-- Events about other messages do not concern a group. -/
theorem GroupInv.frame {log events : List Event} {es : List (Entry Buffer)} {gs : GroupState Buffer}
    (h : GroupInv log es gs) (hev : ∀ ev ∈ events, ∀ i, ev.pos = some i → i ∉ es.map Prod.snd) :
    GroupInv (log ++ events) es gs := by
  obtain ⟨began, hes, hst, hph⟩ := h
  have hno : ∀ {ev : Event} {i : ℕ}, ev.pos = some i → i ∈ es.map Prod.snd → ev ∉ events :=
    fun hp hi hmem => hev _ hmem _ hp hi
  refine ⟨began, hes, ?_, ?_⟩
  · rw [startedAt_append, List.filter_append, hst]
    have : (startedAt events).filter (· ∈ es.map Prod.snd) = [] := by
      refine List.filter_eq_nil_iff.2 fun i hi hmem => ?_
      obtain ⟨m, hm⟩ := mem_startedAt.1 hi
      exact hno (i := i) rfl (by simpa using hmem) hm
    rw [this, List.append_nil]
  · obtain ⟨ph, todo⟩ := gs
    cases ph with
    | idle => exact hph
    | handling e =>
      obtain ⟨done, rfl, h1, h2, h3⟩ := hph
      have he : e.2 ∈ es.map Prod.snd := List.mem_map_of_mem (by rw [hes]; simp)
      exact ⟨done, rfl, h1.mono _, not_mem_append h2 (hno rfl he), not_mem_append h3 (hno rfl he)⟩
    | beating e =>
      obtain ⟨done, hb, h1⟩ := hph
      exact ⟨done, hb, h1.mono _⟩
    | returned => exact AllFulfilled.mono hph _
    | rejected =>
      obtain ⟨done, e, rfl, h1, h2⟩ := hph
      exact ⟨done, e, rfl, h1.mono _, h2.imp (List.mem_append_left _) (List.mem_append_left _)⟩

theorem GroupInv.silent {log events : List Event} {es : List (Entry Buffer)} {gs : GroupState Buffer}
    (h : GroupInv log es gs) (hev : Silent events) : GroupInv (log ++ events) es gs :=
  h.frame fun ev hmem i hp => by rw [hev ev hmem] at hp; cases hp

/-- A group at its loop head has fulfilled all it has begun. -/
theorem PhaseOK.entered {log : List Event} {began : List (Entry Buffer)} {a : Act} {ph : Phase Buffer}
    {running stale : Bool} (h : PhaseOK log began ph) (he : Enters a ph running stale) : AllFulfilled log began := by
  cases he with
  | launch => cases h; intro e he; cases he
  | beat =>
    obtain ⟨-, -, h⟩ := h
    exact h

/-- The next message of a group has not been handed to the handler. -/
theorem GroupInv.not_started {log : List Event} {es rest : List (Entry Buffer)} {ph : Phase Buffer}
    {e : Entry Buffer} (h : GroupInv log es ⟨ph, e :: rest⟩) (hn : (es.map Prod.snd).Nodup) : e.2 ∉ startedAt log := by
  obtain ⟨began, rfl, hst, -⟩ := h
  intro hmem
  have hin : e.2 ∈ (startedAt log).filter (· ∈ (began ++ e :: rest).map Prod.snd) :=
    List.mem_filter.2 ⟨hmem, by simp⟩
  rw [hst] at hin
  rw [List.map_append, List.nodup_append] at hn
  exact hn.2.2 e.2 hin e.2 (by simp) rfl

/-- A move of a group keeps its invariant. -/
theorem GroupInv.move {str : Buffer → String} {batch : Batch Buffer} {a : Act} {tr tr' : WatermarkTracker}
    {gs gs' : GroupState Buffer} {log events : List Event} {es : List (Entry Buffer)}
    (hm : Move str batch a tr gs tr' gs' events) (h : GroupInv log es gs) (hn : (es.map Prod.snd).Nodup)
    (hended : ∀ i, Event.fulfilled i ∈ log ∨ Event.rejected i ∈ log → i ∈ startedAt log) :
    GroupInv (log ++ events) es gs' := by
  cases hm with
  | finish he =>
    obtain ⟨began, hes, hst, hph⟩ := h
    exact ⟨began, hes, by simpa using hst, (hph.entered he).mono _⟩
  | stop he =>
    obtain ⟨began, hes, hst, hph⟩ := h
    exact ⟨began, hes, by simpa using hst, (hph.entered he).mono _⟩
  | @start _ _ _ _ _ e rest he =>
    have hne := h.not_started hn
    obtain ⟨began, rfl, hst, hph⟩ := h
    refine ⟨began ++ [e], by simp, ?_, began, rfl, (hph.entered he).mono _, ?_, ?_⟩
    · rw [startedAt_append, List.filter_append, hst]
      simp
    · refine not_mem_append (fun hf => hne (hended _ (.inl hf))) (by simp)
    · refine not_mem_append (fun hf => hne (hended _ (.inr hf))) (by simp)
  | @fulfil g _ e todo =>
    obtain ⟨began, rfl, hst, done, rfl, h1, -, -⟩ := h
    have hsil : startedAt (.fulfilled e.2 :: resolving (tr.markCompleted e.1.offset)) = [] :=
      (silent_resolving _).startedAt_eq
    refine ⟨done ++ [e], rfl, by rw [startedAt_append, hsil, List.append_nil]; exact hst, done, rfl, fun f hf => ?_⟩
    rcases List.mem_append.1 hf with hf | hf
    · exact List.mem_append_left _ (h1 f hf)
    · rw [List.mem_singleton.1 hf]; simp
  | @reject g _ e todo =>
    obtain ⟨began, rfl, hst, done, rfl, h1, -, -⟩ := h
    exact ⟨done ++ [e], rfl, by simpa using hst, done, e, rfl, h1.mono _, .inr (by simp)⟩
  | @beatReject g _ e todo =>
    obtain ⟨began, rfl, hst, done, rfl, h1⟩ := h
    refine ⟨done ++ [e], rfl, by simpa using hst, done, e, rfl, ?_, .inl ?_⟩
    · exact AllFulfilled.mono (fun f hf => h1 f (List.mem_append_left _ hf)) _
    · exact List.mem_append_left _ (h1 e (by simp))

/-! ## The tracker -/

/-- The tracker knows the offsets of the batch and those of its fulfilled messages. -/
structure TrackerInv (batch : Batch Buffer) (log : List Event) (tr : WatermarkTracker) : Prop where
  arrived : tr.arrivedOffsets = batch.offsets
  completed : ∀ o, o ∈ tr.completed ↔ ∃ e ∈ batch.entries, e.1.offset = o ∧ Event.fulfilled e.2 ∈ log

/-- The longest completed prefix of the batch ends at position `i`, with the offset `o`. -/
structure PrefixDone (batch : Batch Buffer) (log : List Event) (i : ℕ) (o : String) : Prop where
  at_pos : batch.offsets[i]? = some o
  upto : ∀ f ∈ batch.entries, f.2 ≤ i →
    ∃ e ∈ batch.entries, e.1.offset = f.1.offset ∧ Event.fulfilled e.2 ∈ log
  next : ∀ e ∈ batch.entries, e.2 = i + 1 → Event.fulfilled e.2 ∉ log

theorem TrackerInv.other {batch : Batch Buffer} {log events : List Event} {tr : WatermarkTracker}
    (h : TrackerInv batch log tr) (hev : ∀ i, Event.fulfilled i ∉ events) : TrackerInv batch (log ++ events) tr := by
  refine ⟨h.arrived, fun o => ?_⟩
  rw [h.completed]
  constructor
  · rintro ⟨e, he, ho, hf⟩; exact ⟨e, he, ho, List.mem_append_left _ hf⟩
  · rintro ⟨e, he, ho, hf⟩; exact ⟨e, he, ho, (List.mem_append.1 hf).resolve_right (hev _)⟩

/-- Marking the offset of a message as its handler fulfils. -/
theorem TrackerInv.fulfil {batch : Batch Buffer} {log : List Event} {tr : WatermarkTracker}
    (h : TrackerInv batch log tr) {e : Entry Buffer} (he : e ∈ batch.entries) :
    TrackerInv batch (log ++ [.fulfilled e.2]) (tr.markCompleted e.1.offset) := by
  refine ⟨h.arrived, fun o => ?_⟩
  rw [WatermarkTracker.mem_markCompleted, h.completed]
  constructor
  · rintro (rfl | ⟨f, hf, ho, hl⟩)
    · exact ⟨e, he, rfl, by simp⟩
    · exact ⟨f, hf, ho, List.mem_append_left _ hl⟩
  · rintro ⟨f, hf, rfl, hl⟩
    rcases List.mem_append.1 hl with hl | hl
    · exact .inr ⟨f, hf, rfl, hl⟩
    · simp only [List.mem_singleton, Event.fulfilled.injEq] at hl
      exact .inl (by rw [entry_ext hf he hl])

/-- The committable offset ends the longest completed prefix. -/
theorem TrackerInv.prefixDone {batch : Batch Buffer} {log : List Event} {tr : WatermarkTracker}
    (h : TrackerInv batch log tr) {o : String} (ho : tr.getCommittableOffset = some o) :
    ∃ i, PrefixDone batch log i o := by
  obtain ⟨i, hw⟩ := WatermarkTracker.isWatermark_of_committable ho
  have harr := h.arrived
  refine ⟨i, by rw [← harr]; exact hw.at_pos, fun f hf hle => ?_, fun e he hnext hl => ?_⟩
  · refine (h.completed _).1 (hw.upto f.2 hle _ ?_)
    rw [harr]; exact offsets_getElem?.2 ⟨f, hf, rfl, rfl⟩
  · refine hw.next e.1.offset ?_ ((h.completed _).2 ⟨e, he, rfl, hl⟩)
    rw [harr]; exact offsets_getElem?.2 ⟨e, he, hnext, rfl⟩

/-! ## The invariant of a batch -/

section Batch

variable (str : Buffer → String) (batch : Batch Buffer)

/-- What has to have happened before an event. A message is handed to the handler once, as the
message it is, after every earlier message of its group has been fulfilled; a resolved offset ends
the longest completed prefix. -/
def Justifies (pre : List Event) : Event → Prop
  | .started i m => i ∉ startedAt pre ∧ ∃ e ∈ batch.entries, e.2 = i ∧ m = toInbound str batch e.1 ∧
      ∀ f ∈ batch.entries, groupKey str f.1 = groupKey str e.1 → f.2 < i → Event.fulfilled f.2 ∈ pre
  | .resolved o => ∃ i, PrefixDone batch pre i o
  | _ => True

structure Inv (s : BatchState Buffer) : Prop where
  length : s.groups.length = (batch.groups str).length
  tracker : TrackerInv batch s.log s.tracker
  groups : ∀ (g : ℕ) (p : String × List (Entry Buffer)) (gs : GroupState Buffer),
    (batch.groups str)[g]? = some p → s.groups[g]? = some gs → GroupInv s.log p.2 gs
  started : ∀ i ∈ startedAt s.log, ∃ e ∈ batch.entries, e.2 = i
  ended : ∀ i, Event.fulfilled i ∈ s.log ∨ Event.rejected i ∈ s.log → i ∈ startedAt s.log
  once : ∀ i, Event.rejected i ∈ s.log → Event.fulfilled i ∉ s.log
  justified : Justified (Justifies str batch) s.log

variable {str batch}

theorem justified_of_trivial {events log : List Event} (h : Justified (Justifies str batch) log)
    (hev : ∀ ev ∈ events, ∀ pre, Justifies str batch pre ev) : Justified (Justifies str batch) (log ++ events) :=
  h.append fun _ ev post heq => hev ev (by rw [heq]; simp) _

theorem justifies_settling (before after : List (GroupState Buffer)) :
    ∀ ev ∈ settling before after, ∀ pre, Justifies str batch pre ev := by
  rcases settling_eq before after with h | ⟨r, -, -, h⟩
  · rw [h]; intro ev hev; cases hev
  · rw [h]; intro ev hev pre; rw [List.mem_singleton.1 hev]; trivial

/-- The group of an index has a list of messages and every message it is at belongs to it. -/
theorem Inv.group {s : BatchState Buffer} (hi : Inv str batch s) {g : ℕ} {gs : GroupState Buffer}
    (hg : s.groups[g]? = some gs) : ∃ p, (batch.groups str)[g]? = some p ∧ GroupInv s.log p.2 gs := by
  have hlt : g < (batch.groups str).length := by
    rw [← hi.length]; exact (List.getElem?_eq_some_iff.1 hg).1
  exact ⟨_, List.getElem?_eq_getElem hlt, hi.groups g _ gs (List.getElem?_eq_getElem hlt) hg⟩

/-- Every message is one of a group, which is in order. -/
theorem Inv.exists_group {s : BatchState Buffer} (hi : Inv str batch s) {e : Entry Buffer} (he : e ∈ batch.entries) :
    ∃ (g : ℕ) (p : String × List (Entry Buffer)) (gs : GroupState Buffer), (batch.groups str)[g]? = some p ∧ e ∈ p.2 ∧
      s.groups[g]? = some gs ∧ GroupInv s.log p.2 gs := by
  obtain ⟨g, p, hp, hep⟩ := Kafka.exists_group str he
  have hlt : g < s.groups.length := by
    rw [hi.length]; exact (List.getElem?_eq_some_iff.1 hp).1
  have hg := List.getElem?_eq_getElem hlt
  exact ⟨g, p, _, hp, hep, hg, hi.groups g p _ hp hg⟩

/-- The message a group handles or has just handled, and the ones it has not begun, are its own. -/
theorem GroupInv.mem {log : List Event} {es : List (Entry Buffer)} {gs : GroupState Buffer} {e : Entry Buffer}
    (h : GroupInv log es gs) (he : gs.phase = .handling e ∨ gs.phase = .beating e ∨ e ∈ gs.todo) : e ∈ es := by
  obtain ⟨began, rfl, -, hph⟩ := h
  rcases he with he | he | he
  · rw [he] at hph
    obtain ⟨done, rfl, -⟩ := hph
    simp
  · rw [he] at hph
    obtain ⟨done, rfl, -⟩ := hph
    simp
  · exact List.mem_append_right _ he

/-- The message a group handles has been handed to the handler. -/
theorem GroupInv.started {log : List Event} {es todo : List (Entry Buffer)} {e : Entry Buffer}
    (h : GroupInv log es ⟨.handling e, todo⟩) : e.2 ∈ startedAt log := by
  obtain ⟨began, rfl, hst, done, rfl, -⟩ := h
  have : e.2 ∈ (done ++ [e]).map Prod.snd := by simp
  rw [← hst] at this
  exact (List.mem_filter.1 this).1

theorem mem_singleton_cons_silent {events : List Event} (hs : Silent events) {ev ev' : Event} {i : ℕ}
    (hp : ev.pos = some i) (h : ev ∈ ev' :: events) : ev = ev' :=
  (List.mem_cons.1 h).resolve_right (hs.not_mem hp)

/-- The events of a move are about the messages of its group. -/
theorem Move.pos_mem {a : Act} {tr tr' : WatermarkTracker} {gs gs' : GroupState Buffer} {events log : List Event}
    {es : List (Entry Buffer)} (hm : Move str batch a tr gs tr' gs' events) (h : GroupInv log es gs) :
    ∀ ev ∈ events, ∀ i, ev.pos = some i → ∃ e ∈ es, e.2 = i := by
  intro ev hev i hp
  cases hm with
  | finish => cases hev
  | stop => cases hev
  | @start _ _ _ _ _ e =>
    rw [List.mem_singleton.1 hev] at hp
    cases hp; exact ⟨e, h.mem (.inr (.inr (by simp))), rfl⟩
  | @fulfil _ _ e =>
    rw [mem_singleton_cons_silent (silent_resolving _) hp hev] at hp
    cases hp; exact ⟨e, h.mem (.inl rfl), rfl⟩
  | @reject _ _ e =>
    rw [List.mem_singleton.1 hev] at hp
    cases hp; exact ⟨e, h.mem (.inl rfl), rfl⟩
  | beatReject =>
    rw [List.mem_singleton.1 hev] at hp
    cases hp

/-- A handler ends only after it was called. -/
theorem Move.ended {a : Act} {tr tr' : WatermarkTracker} {gs gs' : GroupState Buffer} {events log : List Event}
    {es : List (Entry Buffer)} (hm : Move str batch a tr gs tr' gs' events) (h : GroupInv log es gs) {i : ℕ}
    (hi : Event.fulfilled i ∈ events ∨ Event.rejected i ∈ events) : i ∈ startedAt log := by
  cases hm with
  | finish => simp at hi
  | stop => simp at hi
  | start => simp at hi
  | @fulfil _ _ e =>
    rcases hi with hi | hi
    · cases mem_singleton_cons_silent (silent_resolving _) rfl hi; exact h.started
    · cases mem_singleton_cons_silent (silent_resolving _) rfl hi
  | @reject _ _ e =>
    rcases hi with hi | hi
    · cases List.mem_singleton.1 hi
    · cases List.mem_singleton.1 hi; exact h.started
  | beatReject => simp at hi

/-- A handler ends once: it does not both fulfil and reject. -/
theorem Move.once {a : Act} {tr tr' : WatermarkTracker} {gs gs' : GroupState Buffer} {events log : List Event}
    {es : List (Entry Buffer)} (hm : Move str batch a tr gs tr' gs' events) (h : GroupInv log es gs)
    (ho : ∀ i, Event.rejected i ∈ log → Event.fulfilled i ∉ log) (i : ℕ) (hr : Event.rejected i ∈ log ++ events) :
    Event.fulfilled i ∉ log ++ events := by
  cases hm with
  | finish => simpa using ho i (by simpa using hr)
  | stop => simpa using ho i (by simpa using hr)
  | start => simpa using ho i (by simpa using hr)
  | @fulfil _ _ e =>
    obtain ⟨began, -, -, done, -, -, -, hrej⟩ := h
    have hr' : Event.rejected i ∈ log := (List.mem_append.1 hr).resolve_right fun hr' =>
      nomatch mem_singleton_cons_silent (silent_resolving _) rfl hr'
    refine not_mem_append (ho i hr') fun hf => ?_
    cases mem_singleton_cons_silent (silent_resolving _) rfl hf
    exact hrej hr'
  | @reject _ _ e =>
    obtain ⟨began, -, -, done, -, -, hful, -⟩ := h
    refine not_mem_append (fun hf => ?_) (by simp)
    rcases List.mem_append.1 hr with hr | hr
    · exact ho i hr hf
    · cases List.mem_singleton.1 hr; exact hful hf
  | beatReject => simpa using ho i (by simpa using hr)

/-- A move keeps the tracker in step with the log. -/
theorem Move.tracker {a : Act} {tr tr' : WatermarkTracker} {gs gs' : GroupState Buffer} {events log : List Event}
    (hm : Move str batch a tr gs tr' gs' events) (h : TrackerInv batch log tr)
    (hmem : ∀ e, gs.phase = .handling e → e ∈ batch.entries) : TrackerInv batch (log ++ events) tr' := by
  cases hm with
  | finish => exact h.other (by simp)
  | stop => exact h.other (by simp)
  | start => exact h.other (by simp)
  | @fulfil _ _ e =>
    have hsil : Silent (resolving (tr.markCompleted e.1.offset)) := silent_resolving _
    simpa using (h.fulfil (hmem e rfl)).other fun i => hsil.not_mem (i := i) rfl
  | reject => exact h.other (by simp)
  | beatReject => exact h.other (by simp)

/-- The events of a move are justified by the log before it. -/
theorem Move.justified {a : Act} {tr tr' : WatermarkTracker} {gs gs' : GroupState Buffer} {events log : List Event}
    {g : ℕ} {p : String × List (Entry Buffer)} (hm : Move str batch a tr gs tr' gs' events)
    (hp : (batch.groups str)[g]? = some p) (hg : GroupInv log p.2 gs) (ht : TrackerInv batch log tr)
    (hj : Justified (Justifies str batch) log) : Justified (Justifies str batch) (log ++ events) := by
  cases hm with
  | finish => simpa using hj
  | stop => simpa using hj
  | @start _ _ _ _ _ e rest he =>
    have hmem := hg.mem (e := e) (.inr (.inr (by simp)))
    obtain ⟨hent, hkey⟩ := (mem_group hp).1 hmem
    -- the messages of the group that come before are among those it has begun
    refine hj.snoc ⟨hg.not_started (group_positions_nodup hp), e, hent, rfl, rfl, fun f hf hk hlt => ?_⟩
    have hfp : f ∈ p.2 := (mem_group hp).2 ⟨hf, hk.trans hkey⟩
    obtain ⟨began, hes, -, hph⟩ := hg
    have hsort := group_sorted hp
    rw [hes, List.pairwise_append] at hsort
    rw [hes, List.mem_append] at hfp
    rcases hfp with hfp | hfp
    · exact hph.entered he f hfp
    · -- the messages not begun come after the next one
      rcases List.mem_cons.1 hfp with rfl | hfp
      · omega
      · have := (List.pairwise_cons.1 hsort.2.1).1 f hfp; omega
  | @fulfil _ _ e =>
    have he : e ∈ batch.entries := ((mem_group hp).1 (hg.mem (.inl rfl))).1
    have h1 : Justified (Justifies str batch) (log ++ [.fulfilled e.2]) := hj.snoc trivial
    rcases resolving_eq (tr.markCompleted e.1.offset) with h | ⟨o, ho, h⟩
    · rw [h]; exact h1
    · rw [h]
      have := h1.snoc (e := .resolved o) ((ht.fulfil he).prefixDone ho)
      simpa using this
  | reject => exact hj.snoc trivial
  | beatReject => exact hj.snoc trivial

/-- After a move of one group the invariants of all groups hold of the longer log. -/
theorem Inv.move_groups {s : BatchState Buffer} (hi : Inv str batch s) {a : Act} {g : ℕ}
    {p : String × List (Entry Buffer)} {tr : WatermarkTracker} {gs gs' : GroupState Buffer} {events : List Event}
    (hp : (batch.groups str)[g]? = some p)
    (hgi : GroupInv s.log p.2 gs) (hm : Move str batch a s.tracker gs tr gs' events) {g' : ℕ}
    {p' : String × List (Entry Buffer)} {gs'' : GroupState Buffer} (hp' : (batch.groups str)[g']? = some p')
    (hg' : (s.groups.set g gs')[g']? = some gs'') : GroupInv (s.log ++ events) p'.2 gs'' := by
  rw [List.getElem?_set] at hg'
  split at hg'
  · rename_i heq
    subst heq
    rw [hp] at hp'
    cases hp'
    split at hg'
    · cases hg'
      exact hgi.move hm (group_positions_nodup hp) hi.ended
    · cases hg'
  · rename_i hne
    -- the events are about messages of group `g`, which another group does not have
    refine (hi.groups g' p' gs'' hp' hg').frame fun ev hev i hpi hmem => ?_
    obtain ⟨e, he, rfl⟩ := hm.pos_mem hgi ev hev i hpi
    obtain ⟨f, hf, hfe⟩ := List.mem_map.1 hmem
    exact hne (group_disjoint hp hp' he hf hfe.symm)

/-- A move of a group keeps the invariant, before the promise is looked at. -/
theorem Inv.move {s : BatchState Buffer} (hi : Inv str batch s) {a : Act} {g : ℕ} {tr : WatermarkTracker}
    {gs gs' : GroupState Buffer} {events : List Event} (hgs : s.groups[g]? = some gs)
    (hm : Move str batch a s.tracker gs tr gs' events) :
    Inv str batch { s with tracker := tr, groups := s.groups.set g gs', log := s.log ++ events } := by
  obtain ⟨p, hp, hgi⟩ := hi.group hgs
  refine ⟨by simpa using hi.length, ?_, fun g' p' gs'' hp' hg' => hi.move_groups hp hgi hm hp' hg', fun i hst => ?_,
    fun i hen => ?_, hm.once hgi hi.once, hm.justified hp hgi hi.tracker hi.justified⟩
  · exact hm.tracker hi.tracker fun e he => ((mem_group hp).1 (hgi.mem (.inl he))).1
  · rw [startedAt_append, List.mem_append] at hst
    rcases hst with hst | hst
    · exact hi.started i hst
    · obtain ⟨m, hmem⟩ := mem_startedAt.1 hst
      obtain ⟨e, he, hei⟩ := hm.pos_mem hgi _ hmem i rfl
      exact ⟨e, ((mem_group hp).1 he).1, hei⟩
  · rw [startedAt_append, List.mem_append]
    rw [List.mem_append, List.mem_append] at hen
    rcases hen with (hen | hen) | (hen | hen)
    · exact .inl (hi.ended i (.inl hen))
    · exact .inl (hm.ended hgi (.inl hen))
    · exact .inl (hi.ended i (.inr hen))
    · exact .inl (hm.ended hgi (.inr hen))

/-- Events about no message that nothing has to justify keep the invariant. -/
theorem Inv.append {s : BatchState Buffer} (hi : Inv str batch s) {events : List Event} (hs : Silent events)
    (hj : ∀ ev ∈ events, ∀ pre, Justifies str batch pre ev) : Inv str batch { s with log := s.log ++ events } := by
  have hmem : ∀ {ev : Event} {i : ℕ}, ev.pos = some i → ev ∈ s.log ++ events → ev ∈ s.log :=
    fun hp h => (List.mem_append.1 h).resolve_right (hs.not_mem hp)
  refine ⟨hi.length, hi.tracker.other fun i => hs.not_mem (i := i) rfl,
    fun g p gs hp hg => (hi.groups g p gs hp hg).silent hs, fun i hst => ?_, fun i hen => ?_, fun i hr hf => ?_,
    justified_of_trivial hi.justified hj⟩
  · rw [startedAt_append, hs.startedAt_eq, List.append_nil] at hst
    exact hi.started i hst
  · rw [startedAt_append, hs.startedAt_eq, List.append_nil]
    exact hi.ended i (hen.imp (hmem rfl) (hmem rfl))
  · exact hi.once i (hmem rfl hr) (hmem rfl hf)

/-- Every step keeps the invariant. -/
theorem inv_step {opts : KafkaTransportOptions} {s s' : BatchState Buffer} {a : Act} (hi : Inv str batch s)
    (h : step str opts batch s a = some s') : Inv str batch s' := by
  rcases step_cases h with ⟨g, gs, tr, gs', events, -, hgs, hm, -, rfl⟩ | ⟨ticks, unhandled, -, rfl⟩
  · have hput := (hi.move hgs hm).append (silent_settling s.groups (s.groups.set g gs'))
      (justifies_settling s.groups (s.groups.set g gs'))
    unfold BatchState.put
    rw [← List.append_assoc]
    exact hput
  · exact ⟨hi.length, hi.tracker, hi.groups, hi.started, hi.ended, hi.once, hi.justified⟩

theorem inv_init : Inv str batch (init str batch) := by
  have hlog : ∀ ev ∈ (init str batch).log, ∃ r, ev = .settled r := by
    intro ev hev
    unfold init at hev
    simp only at hev
    split at hev
    · exact ⟨_, List.mem_singleton.1 hev⟩
    · cases hev
  have hsil : Silent (init str batch).log := fun ev hev => by
    obtain ⟨r, rfl⟩ := hlog ev hev; rfl
  refine ⟨by simp [init], ⟨rfl, fun o => ?_⟩, fun g p gs hp hg => ?_, fun i hi => ?_, fun i hi => ?_,
    fun i hi => absurd hi (hsil.not_mem rfl), ?_⟩
  · constructor
    · intro h; simp [init, WatermarkTracker.reset] at h
    · rintro ⟨e, -, -, hf⟩; exact absurd hf (hsil.not_mem rfl)
  · simp only [init, List.getElem?_map, hp, Option.map_some, Option.some.injEq] at hg
    subst hg
    exact ⟨[], rfl, by rw [hsil.startedAt_eq]; rfl, rfl⟩
  · rw [hsil.startedAt_eq] at hi; cases hi
  · rcases hi with hi | hi <;> exact absurd hi (hsil.not_mem rfl)
  · intro pre ev post heq
    obtain ⟨r, rfl⟩ := hlog ev (by rw [heq]; simp)
    trivial

/-- Every state of every run satisfies the invariant. -/
theorem inv_reachable {opts : KafkaTransportOptions} {s : BatchState Buffer}
    (h : Reachable (step str opts batch) (init str batch) s) : Inv str batch s :=
  h.induction (fun _ _ _ hi hs => inv_step hi hs) inv_init

end Batch

end Saga.Kafka
