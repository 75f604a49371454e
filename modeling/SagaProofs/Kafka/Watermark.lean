/-
The watermark tracker of one batch: the committable offset is the last of the longest prefix of
the arrived offsets all of which are completed.
-/
import Mathlib.Data.Finset.Basic
import Mathlib.Data.List.TakeWhile

namespace Saga.Kafka

/-- `WatermarkTracker`. -/
structure WatermarkTracker where
  arrivedOffsets : List String
  completed : Finset String

namespace WatermarkTracker

def new : WatermarkTracker := ⟨[], ∅⟩

def reset (_ : WatermarkTracker) (offsets : List String) : WatermarkTracker := ⟨offsets, ∅⟩

def markCompleted (t : WatermarkTracker) (offset : String) : WatermarkTracker :=
  { t with completed := insert offset t.completed }

/-- The loop of `getCommittableOffset` over the arrived offsets, from a `lastSafe` so far. -/
def lastSafe (completed : Finset String) : Option String → List String → Option String
  | last, [] => last
  | last, offset :: rest => if offset ∈ completed then lastSafe completed (some offset) rest else last

def getCommittableOffset (t : WatermarkTracker) : Option String := lastSafe t.completed none t.arrivedOffsets

@[simp] theorem markCompleted_arrivedOffsets (t : WatermarkTracker) (o : String) :
    (t.markCompleted o).arrivedOffsets = t.arrivedOffsets := rfl

@[simp] theorem mem_markCompleted {t : WatermarkTracker} {o p : String} :
    p ∈ (t.markCompleted o).completed ↔ p = o ∨ p ∈ t.completed := by
  simp [markCompleted]

/-! ## The committable offset -/

theorem lastSafe_eq (completed : Finset String) : ∀ (last : Option String) (os : List String),
    lastSafe completed last os = ((os.takeWhile (· ∈ completed)).getLast?).or last
  | last, [] => by simp [lastSafe]
  | last, o :: os => by
    rw [lastSafe]
    split
    · rename_i h
      rw [lastSafe_eq completed (some o) os, List.takeWhile_cons_of_pos (by simpa using h), List.getLast?_cons]
      cases (os.takeWhile (· ∈ completed)).getLast? <;> simp
    · rename_i h
      rw [List.takeWhile_cons_of_neg (by simpa using h)]
      simp

/-- The committable offset is the last of the longest completed prefix. -/
theorem getCommittableOffset_eq (t : WatermarkTracker) :
    t.getCommittableOffset = (t.arrivedOffsets.takeWhile (· ∈ t.completed)).getLast? := by
  unfold getCommittableOffset
  rw [lastSafe_eq, Option.or_none]

/-- `o` stands at position `i` of the offsets, everything up to it is completed and the offset
after it, if there is one, is not. -/
structure IsWatermark (t : WatermarkTracker) (i : ℕ) (o : String) : Prop where
  at_pos : t.arrivedOffsets[i]? = some o
  upto : ∀ j ≤ i, ∀ p, t.arrivedOffsets[j]? = some p → p ∈ t.completed
  next : ∀ p, t.arrivedOffsets[i + 1]? = some p → p ∉ t.completed

theorem isWatermark_of_committable {t : WatermarkTracker} {o : String} (h : t.getCommittableOffset = some o) :
    ∃ i, t.IsWatermark i o := by
  rw [getCommittableOffset_eq] at h
  generalize hw : t.arrivedOffsets.takeWhile (· ∈ t.completed) = w at h
  have hsplit : t.arrivedOffsets = w ++ t.arrivedOffsets.dropWhile (· ∈ t.completed) := by
    rw [← hw]; exact (List.takeWhile_append_dropWhile ..).symm
  obtain ⟨ys, rfl⟩ := List.getLast?_eq_some_iff.1 h
  refine ⟨ys.length, ?_, fun j hj p hp => ?_, fun p hp hc => ?_⟩
  · rw [hsplit]; simp
  · have hlt : j < (ys ++ [o]).length := by simp; omega
    rw [hsplit, List.getElem?_append_left hlt] at hp
    have hmem : p ∈ t.arrivedOffsets.takeWhile (· ∈ t.completed) := by
      rw [hw]; exact List.mem_of_getElem? hp
    simpa using List.mem_takeWhile_imp hmem
  · rw [hsplit, List.getElem?_append_right (by simp)] at hp
    simp only [List.length_append, List.length_singleton, Nat.sub_self] at hp
    have hhead : (t.arrivedOffsets.dropWhile (· ∈ t.completed)).head? = some p := by
      rw [List.head?_eq_getElem?]; exact hp
    have := List.head?_dropWhile_not (· ∈ t.completed) t.arrivedOffsets
    rw [hhead] at this
    simp [hc] at this

end WatermarkTracker

end Saga.Kafka
