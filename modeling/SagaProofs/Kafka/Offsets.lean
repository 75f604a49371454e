/-
Watermark safety: on a batch with distinct offsets an offset is resolved only when the handlers of
all messages up to it have fulfilled, so none is resolved at or beyond a message whose handler
rejected, is in flight or was never called.
-/
import SagaProofs.Kafka.Invariant

namespace Saga.Kafka

open Lts

variable {Buffer : Type} {str : Buffer → String} {opts : KafkaTransportOptions} {batch : Batch Buffer}

theorem offset_inj (hd : batch.offsets.Nodup) {e f : Entry Buffer} (he : e ∈ batch.entries) (hf : f ∈ batch.entries)
    (h : e.1.offset = f.1.offset) : e = f := by
  have h1 : batch.offsets[e.2]? = some e.1.offset := offsets_getElem?.2 ⟨e, he, rfl, rfl⟩
  have h2 : batch.offsets[f.2]? = some f.1.offset := offsets_getElem?.2 ⟨f, hf, rfl, rfl⟩
  rw [← h] at h2
  have hlt := (List.getElem?_eq_some_iff.1 h1).1
  exact entry_ext he hf ((List.getElem?_inj hlt hd).1 (h1.trans h2.symm))

/-- With distinct offsets, the longest completed prefix consists of fulfilled messages. -/
theorem PrefixDone.fulfilled {log : List Event} {i : ℕ} {o : String} (h : PrefixDone batch log i o)
    (hd : batch.offsets.Nodup) : ∃ e ∈ batch.entries, e.2 = i ∧ e.1.offset = o ∧
      ∀ f ∈ batch.entries, f.2 ≤ e.2 → Event.fulfilled f.2 ∈ log := by
  obtain ⟨e, he, hi, ho⟩ := offsets_getElem?.1 h.at_pos
  refine ⟨e, he, hi, ho, fun f hf hle => ?_⟩
  obtain ⟨e', he', hoff, hl⟩ := h.upto f hf (by omega)
  rwa [offset_inj hd he' hf hoff] at hl

/-- An entry of the log that resolves an offset has the fulfilments it needs before it. -/
theorem Inv.resolved {s : BatchState Buffer} (hi : Inv str batch s) (hd : batch.offsets.Nodup) {pre post : List Event}
    {o : String} (heq : s.log = pre ++ .resolved o :: post) : ∃ e ∈ batch.entries, e.1.offset = o ∧
      ∀ f ∈ batch.entries, f.2 ≤ e.2 → Event.fulfilled f.2 ∈ pre := by
  obtain ⟨i, hp⟩ := hi.justified pre (.resolved o) post heq
  obtain ⟨e, he, -, ho, hall⟩ := hp.fulfilled hd
  exact ⟨e, he, ho, hall⟩

/-- Up to a resolved offset every message is fulfilled. -/
theorem Inv.fulfilled_of_resolved {s : BatchState Buffer} (hi : Inv str batch s) (hd : batch.offsets.Nodup)
    {e f : Entry Buffer} (he : e ∈ batch.entries) (hf : f ∈ batch.entries) (hle : f.2 ≤ e.2)
    (hres : Event.resolved e.1.offset ∈ s.log) : Event.fulfilled f.2 ∈ s.log := by
  obtain ⟨pre, post, heq⟩ := List.append_of_mem hres
  obtain ⟨e', he', ho, hall⟩ := hi.resolved hd heq
  obtain rfl := offset_inj hd he' he ho
  rw [heq]; exact List.mem_append_left _ (hall f hf hle)

/-- Watermark safety of `processBatch`: whenever `resolveOffset(o)` is called, the handler of every
message at or before `o` has already fulfilled; no offset at or beyond a message whose handler
rejected or has not fulfilled is ever resolved. -/
theorem resolveOffset_safe (hd : batch.offsets.Nodup) {s : BatchState Buffer}
    (h : Reachable (step str opts batch) (init str batch) s) :
    (∀ pre o post, s.log = pre ++ .resolved o :: post → ∃ e ∈ batch.entries, e.1.offset = o ∧
      ∀ f ∈ batch.entries, f.2 ≤ e.2 → Event.fulfilled f.2 ∈ pre) ∧
    (∀ f ∈ batch.entries, Event.rejected f.2 ∈ s.log ∨ Event.fulfilled f.2 ∉ s.log →
      ∀ e ∈ batch.entries, f.2 ≤ e.2 → Event.resolved e.1.offset ∉ s.log) := by
  have hi := inv_reachable h
  refine ⟨fun pre o post heq => hi.resolved hd heq, fun f hf hbad e he hle hres => ?_⟩
  have hful : Event.fulfilled f.2 ∈ s.log := hi.fulfilled_of_resolved hd he hf hle hres
  rcases hbad with hrej | hnot
  · exact hi.once f.2 hrej hful
  · exact hnot hful

/-- A run in which the message between the two of one key fulfils first. -/
theorem resolveOffset_safe_out_of_order :
    ∃ s, run (step id .default .sample) (init id .sample)
        [.launch true false, .launch true false, .fulfil 1, .fulfil 0, .beat 0 true false] = some s ∧
      s.log.contains (.resolved "11") = true ∧
      (∀ f ∈ Batch.sample.entries, Event.rejected f.2 ∈ s.log ∨ Event.fulfilled f.2 ∉ s.log →
        ∀ e ∈ Batch.sample.entries, f.2 ≤ e.2 → Event.resolved e.1.offset ∉ s.log) := by
  obtain ⟨s, hr, hp⟩ := exists_of_run (step id .default .sample) (init id .sample)
    [.launch true false, .launch true false, .fulfil 1, .fulfil 0, .beat 0 true false]
    (fun s => s.log.contains (.resolved "11")) (by decide)
  exact ⟨s, hr, hp, (resolveOffset_safe (by decide) ⟨_, hr⟩).2⟩

end Saga.Kafka
