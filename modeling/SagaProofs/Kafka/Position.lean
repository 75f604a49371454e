/-
The committed position of a batch: the offsets that are resolved go forward through the batch, each ends the
longest prefix that is completed at that moment, and a run that nothing rejects or stops resolves the last
offset of the batch last.
-/
import SagaProofs.Kafka.AutoResolve

namespace Saga.Kafka

open Lts

variable {Buffer : Type}

/-! ## Resolved offsets -/

def Event.resolvedOffset : Event → Option String
  | .resolved o => some o
  | _ => none

/-- The offsets passed to `resolveOffset`, in the order of the calls. -/
def resolvedOffsets (log : List Event) : List String := log.filterMap Event.resolvedOffset

/-- The longest prefix of the batch whose handlers have fulfilled. -/
def completedPrefix (batch : Batch Buffer) (log : List Event) : List (Entry Buffer) :=
  batch.entries.takeWhile fun e => .fulfilled e.2 ∈ log

theorem resolvedOffsets_append (log log' : List Event) :
    resolvedOffsets (log ++ log') = resolvedOffsets log ++ resolvedOffsets log' := List.filterMap_append

theorem mem_resolvedOffsets {log : List Event} {o : String} : o ∈ resolvedOffsets log ↔ Event.resolved o ∈ log := by
  unfold resolvedOffsets
  rw [List.mem_filterMap]
  constructor
  · rintro ⟨ev, hev, h⟩
    cases ev with
    | resolved o' =>
      cases h
      exact hev
    | _ => cases h
  · intro h
    exact ⟨_, h, rfl⟩

theorem resolvedOffsets_resolving (tracker : WatermarkTracker) :
    resolvedOffsets (resolving tracker) = (truthy tracker.getCommittableOffset).toList := by
  unfold resolving
  cases truthy tracker.getCommittableOffset <;> rfl

theorem resolvedOffsets_settling (before after : List (GroupState Buffer)) :
    resolvedOffsets (settling before after) = [] := by
  rcases settling_eq before after with h | ⟨r, -, -, h⟩ <;> rw [h] <;> rfl

/-! ## Positions -/

section Positions

variable {str : Buffer → String} {opts : KafkaTransportOptions} {batch : Batch Buffer}

theorem idxOf_offset (hd : batch.offsets.Nodup) {i : ℕ} {o : String} (h : batch.offsets[i]? = some o) :
    batch.offsets.idxOf o = i := by
  obtain ⟨hlt, rfl⟩ := List.getElem?_eq_some_iff.1 h
  exact hd.idxOf_getElem i hlt

/-- An entry stands at its position. -/
theorem entries_pos {k : ℕ} {e : Entry Buffer} (h : batch.entries[k]? = some e) : e.2 = k := by
  unfold Batch.entries at h
  rw [List.getElem?_zipIdx, Option.map_eq_some_iff] at h
  obtain ⟨m, -, rfl⟩ := h
  simp

/-- The longest completed prefix is what ends at its last position. -/
theorem PrefixDone.completedPrefix_eq {log : List Event} {i : ℕ} {o : String} (h : PrefixDone batch log i o)
    (hd : batch.offsets.Nodup) : completedPrefix batch log = batch.entries.take (i + 1) := by
  obtain ⟨e, he, rfl, -, hall⟩ := h.fulfilled hd
  unfold completedPrefix
  conv_lhs => rw [← List.take_append_drop (e.2 + 1) batch.entries]
  rw [List.takeWhile_append_of_pos]
  · cases hn : batch.entries.drop (e.2 + 1) with
    | nil => simp
    | cons f rest =>
      have hf : batch.entries[e.2 + 1]? = some f := by
        rw [← List.head?_drop, hn]
        rfl
      have hnot : Event.fulfilled f.2 ∉ log := h.next f (List.mem_of_getElem? hf) (entries_pos hf)
      rw [List.takeWhile_cons_of_neg (by simpa using hnot), List.append_nil]
  · intro f hf
    obtain ⟨k, hk, hget⟩ := List.mem_take_iff_getElem.1 hf
    have hf' : batch.entries[k]? = some f := by
      rw [← hget]
      exact List.getElem?_eq_getElem _
    have hpos : f.2 = k := entries_pos hf'
    exact decide_eq_true (hall f (List.mem_of_getElem? hf') (by omega))

/-- A resolved offset is that of the last message of the longest completed prefix. -/
theorem PrefixDone.last {log : List Event} {i : ℕ} {o : String} (h : PrefixDone batch log i o)
    (hd : batch.offsets.Nodup) : (completedPrefix batch log).getLast?.map (·.1.offset) = some o := by
  obtain ⟨e, he, rfl, ho⟩ := offsets_getElem?.1 h.at_pos
  have hget : batch.entries[e.2]? = some e := by
    unfold Batch.entries
    rw [List.getElem?_zipIdx, mem_entries.1 he]
    simp
  rw [h.completedPrefix_eq hd, List.getLast?_take, if_neg (Nat.succ_ne_zero _), Nat.add_sub_cancel, hget, Option.some_or,
    Option.map_some, ho]

/-- The longest completed prefix does not get shorter. -/
theorem PrefixDone.le {log log' : List Event} {i i' : ℕ} {o o' : String} (h : PrefixDone batch log i o)
    (h' : PrefixDone batch log' i' o') (hd : batch.offsets.Nodup) (hlog : ∀ ev ∈ log, ev ∈ log') : i ≤ i' := by
  by_contra hlt
  obtain ⟨e, he, rfl, -, hall⟩ := h.fulfilled hd
  -- the message after the later prefix is in the earlier one
  have hlen : i' + 1 < batch.offsets.length := by
    have := (List.getElem?_eq_some_iff.1 h.at_pos).1
    omega
  obtain ⟨f, hf, hpos, -⟩ := offsets_getElem?.1 (List.getElem?_eq_getElem hlen)
  exact h'.next f hf hpos (hlog _ (hall f hf (by omega)))

theorem resolvedOffsets_sorted (hd : batch.offsets.Nodup) {log : List Event} (h : Justified (Justifies str batch) log) :
    (resolvedOffsets log).Pairwise fun o o' => batch.offsets.idxOf o ≤ batch.offsets.idxOf o' := by
  induction log using List.reverseRecOn with
  | nil => exact List.Pairwise.nil
  | append_singleton log ev ih =>
    obtain ⟨hlog, hev⟩ := justified_snoc_iff.1 h
    rw [resolvedOffsets_append, List.pairwise_append]
    refine ⟨ih hlog, ?_, ?_⟩
    · cases ev with
      | resolved o => exact List.pairwise_singleton _ o
      | _ => exact List.Pairwise.nil
    · intro o ho o' ho'
      obtain rfl := List.mem_singleton.1 (mem_resolvedOffsets.1 ho')
      obtain ⟨pre, post, rfl⟩ := List.append_of_mem (mem_resolvedOffsets.1 ho)
      obtain ⟨i, hi⟩ := hlog pre (.resolved o) post rfl
      obtain ⟨i', hi'⟩ := hev
      rw [idxOf_offset hd hi.at_pos, idxOf_offset hd hi'.at_pos]
      exact hi.le hi' hd fun ev => List.mem_append_left _

end Positions

/-! ## The last call -/

section Last

variable {str : Buffer → String} {opts : KafkaTransportOptions} {batch : Batch Buffer}

/-- The offset resolved last is the committable one, when there is one. -/
def LastResolved (s : BatchState Buffer) : Prop :=
  ∀ o, truthy s.tracker.getCommittableOffset = some o → (resolvedOffsets s.log).getLast? = some o

theorem lastResolved_init : LastResolved (init str batch) := by
  intro o ho
  have hnone : (init str batch).tracker.getCommittableOffset = none := by
    rw [WatermarkTracker.getCommittableOffset_eq]
    simp [init, WatermarkTracker.reset]
  rw [hnone] at ho
  cases ho

/-- A move leaves the tracker and resolves nothing, or resolves what is committable then. -/
theorem Move.resolvedOffsets_cases {a : Act} {tr tr' : WatermarkTracker} {gs gs' : GroupState Buffer} {events : List Event}
    (hm : Move str batch a tr gs tr' gs' events) :
    (tr' = tr ∧ resolvedOffsets events = []) ∨ resolvedOffsets events = (truthy tr'.getCommittableOffset).toList := by
  cases hm with
  | fulfil => exact .inr (resolvedOffsets_resolving _)
  | _ => exact .inl ⟨rfl, rfl⟩

theorem lastResolved_step {s s' : BatchState Buffer} {a : Act} (hi : LastResolved s)
    (h : step str opts batch s a = some s') : LastResolved s' := by
  rcases step_cases h with ⟨g, gs, tr, gs', events, -, -, hm, -, rfl⟩ | ⟨ticks, unhandled, -, rfl⟩
  · intro o ho
    have hlog : resolvedOffsets ({ s with tracker := tr }.put g gs' events).log =
        resolvedOffsets s.log ++ resolvedOffsets events := by
      show resolvedOffsets (s.log ++ (events ++ settling s.groups (s.groups.set g gs'))) = _
      rw [resolvedOffsets_append, resolvedOffsets_append, resolvedOffsets_settling, List.append_nil]
    have hsome : truthy tr.getCommittableOffset = some o := ho
    rw [hlog]
    rcases hm.resolvedOffsets_cases with ⟨htr, hev⟩ | hev
    · rw [hev, List.append_nil]
      exact hi o (htr ▸ hsome)
    · rw [hev, hsome]
      simp
  · exact hi

/-- When every message is fulfilled the last offset is committable. -/
theorem TrackerInv.committable {log : List Event} {tr : WatermarkTracker} (h : TrackerInv batch log tr)
    (hall : ∀ e ∈ batch.entries, Event.fulfilled e.2 ∈ log) : tr.getCommittableOffset = batch.lastOffset := by
  rw [WatermarkTracker.getCommittableOffset_eq, List.takeWhile_eq_self_iff.2, h.arrived]
  · rfl
  · intro o ho
    rw [h.arrived] at ho
    obtain ⟨i, hi⟩ := List.mem_iff_getElem?.1 ho
    obtain ⟨e, he, -, rfl⟩ := offsets_getElem?.1 hi
    exact decide_eq_true ((h.completed _).2 ⟨e, he, rfl, hall e he⟩)

/-- A run that nothing rejects or stops, once no such step is left, has fulfilled every message. -/
theorem fulfilled_of_clean {s : BatchState Buffer} (hi : Inv str batch s) (hu : Unstopped s)
    (hmax : ∀ a, s.Clean a → step str opts batch s a = none) : ∀ e ∈ batch.entries, Event.fulfilled e.2 ∈ s.log := by
  have hret : ∀ gs ∈ s.groups, gs.phase.isReturned = true := by
    intro gs hgs
    by_contra hr
    obtain ⟨a, hc, hsome⟩ := clean_step_exists str opts batch hgs (by simpa using hr) (hu gs hgs).1
    rw [hmax a hc] at hsome
    cases hsome
  exact hi.all_fulfilled hret fun ⟨gs, hgs, hr, htodo⟩ => htodo ((hu gs hgs).2 hr)

/-- The committed position goes forward, each offset that is resolved ends the longest completed prefix of the
moment, and when nothing rejects or stops a loop the last offset of the batch, which KafkaJS does not leave
empty, is resolved last. -/
theorem position_monotone (hd : batch.offsets.Nodup) {s : BatchState Buffer} {as : List Act}
    (h : run (step str opts batch) (init str batch) as = some s) :
    (resolvedOffsets s.log).Pairwise (fun o o' => batch.offsets.idxOf o ≤ batch.offsets.idxOf o') ∧
    (∀ pre o post, s.log = pre ++ .resolved o :: post →
      (completedPrefix batch pre).getLast?.map (·.1.offset) = some o) ∧
    (batch.lastOffset ≠ some "" → Each (step str opts batch) BatchState.Clean (init str batch) as →
      (∀ a, s.Clean a → step str opts batch s a = none) → (resolvedOffsets s.log).getLast? = batch.lastOffset) := by
  have hi := inv_reachable ⟨as, h⟩
  refine ⟨resolvedOffsets_sorted hd hi.justified, fun pre o post heq => ?_, fun hlast hclean hmax => ?_⟩
  · obtain ⟨i, hp⟩ := hi.justified pre (.resolved o) post heq
    exact hp.last hd
  · have hu : Unstopped s := run_each_induction (fun _ _ _ hu hc hs => unstopped_step hu hc hs) unstopped_init hclean h
    have hcommit := hi.tracker.committable (fulfilled_of_clean hi hu hmax)
    have hr : LastResolved s := run_induction (fun _ _ _ hi hs => lastResolved_step hi hs) lastResolved_init h
    cases hl : batch.lastOffset with
    | none =>
      -- a batch without messages resolves nothing
      have hnil : batch.offsets = [] := List.getLast?_eq_none_iff.1 hl
      rw [List.getLast?_eq_none_iff, List.eq_nil_iff_forall_not_mem]
      intro o ho
      obtain ⟨pre, post, heq⟩ := List.append_of_mem (mem_resolvedOffsets.1 ho)
      obtain ⟨i, hp⟩ := hi.justified pre (.resolved o) post heq
      have hpos := hp.at_pos
      rw [hnil] at hpos
      cases hpos
    | some o =>
      rw [hl] at hcommit hlast
      refine hr o ?_
      rw [hcommit]
      exact truthy_some fun ho => hlast (by rw [ho])

end Last

/-- The second message fulfils first; then two offsets are resolved, the last one last. -/
theorem position_monotone_sample :
    ∃ s, run (step id .default .sample) (init id .sample)
        [.launch true false, .launch true false, .fulfil 1, .fulfil 0, .beat 1 true false, .beat 0 true false,
          .fulfil 0, .beat 0 true false] = some s ∧
      resolvedOffsets s.log = ["11", "12"] ∧
      (resolvedOffsets s.log).Pairwise (fun o o' => Batch.sample.offsets.idxOf o ≤ Batch.sample.offsets.idxOf o') ∧
      (resolvedOffsets s.log).getLast? = Batch.sample.lastOffset := by
  obtain ⟨s, hr, hp⟩ := exists_of_run (step id .default .sample) (init id .sample)
    [.launch true false, .launch true false, .fulfil 1, .fulfil 0, .beat 1 true false, .beat 0 true false,
      .fulfil 0, .beat 0 true false]
    (fun s => s.groups.all (·.phase.isReturned) && s.ticks == 0 && resolvedOffsets s.log == ["11", "12"]) (by decide)
  simp only [Bool.and_eq_true, List.all_eq_true, beq_iff_eq] at hp
  obtain ⟨hsorted, -, hlast⟩ := position_monotone (by decide) hr
  refine ⟨s, hr, hp.2, hsorted, hlast (by decide) ?_ fun a _ => step_eq_none hp.1.1 hp.1.2 a⟩
  exact each_of_eachB _ (fun s a => !a.rejects && !s.trips a) (fun s a hc => by simpa [BatchState.Clean] using hc) _ _
    (by decide)

end Saga.Kafka
