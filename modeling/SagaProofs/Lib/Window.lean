/-
Sliding windows over a log: a queue that keeps the last entries, and logs that have no entry which is one of the
last before it.
-/
import SagaProofs.Lib.Run
import Mathlib.Data.List.DropRight
import Mathlib.Data.List.Nodup

namespace Window

variable {κ : Type*} {n : ℕ} {log : List κ}

/-! ## The queue -/

/-- An entry is added, and the oldest leaves a queue that is too long. -/
def push (n : ℕ) (queue : List κ) (k : κ) : List κ :=
  let queue := queue ++ [k]
  if n < queue.length then queue.tail else queue

/-- The queue has the last entries. -/
theorem push_rtake (hn : 0 < n) (log : List κ) (k : κ) : push n (log.rtake n) k = (log ++ [k]).rtake n := by
  obtain ⟨n, rfl⟩ := Nat.exists_eq_succ_of_ne_zero hn.ne'
  rw [List.rtake_concat_succ]
  have hlen : (log.rtake (n + 1)).length = min (n + 1) log.length := by
    simp only [List.rtake, List.length_drop]
    omega
  unfold push
  simp only [List.length_append, List.length_singleton, hlen]
  split
  · rename_i hfull
    have hle : n + 1 ≤ log.length := by omega
    have hne : log.rtake (n + 1) ≠ [] := fun h => by rw [h] at hlen; simp at hlen; omega
    rw [List.tail_append_of_ne_nil hne]
    simp only [List.rtake, List.tail_drop]
    congr 2
    omega
  · have hlt : log.length ≤ n := by omega
    simp only [List.rtake, Nat.sub_eq_zero_of_le hlt, Nat.sub_eq_zero_of_le (Nat.le_succ_of_le hlt)]

theorem rtake_sublist (n : ℕ) (log : List κ) : (log.rtake n).Sublist log := List.drop_sublist _ _

theorem mem_rtake_mono {m : ℕ} (h : m ≤ n) {k : κ} (hk : k ∈ log.rtake m) : k ∈ log.rtake n := by
  unfold List.rtake at *
  exact (List.drop_sublist_drop_left log (by omega)).subset hk

/-- The last entries of a part of a log, by how much it leaves out. -/
theorem rtake_sublist_rtake {part : List κ} {left : ℕ} (h : part.Sublist log) (hlen : log.length ≤ part.length + left)
    (n : ℕ) : (part.rtake n).Sublist (log.rtake (n + left)) := by
  unfold List.rtake
  exact (h.drop _).trans (List.drop_sublist_drop_left log (by omega))

theorem rtake_append_sublist (earlier log : List κ) (n : ℕ) : (log.rtake n).Sublist ((earlier ++ log).rtake n) := by
  unfold List.rtake
  rw [List.drop_append, List.length_append, show earlier.length + log.length - n - earlier.length = log.length - n by omega]
  exact List.sublist_append_right _ _

/-! ## Logs without an entry twice in a window -/

/-- No entry is one of the `n` before it. -/
def Spaced (n : ℕ) (log : List κ) : Prop := Lts.Justified (fun pre k => k ∉ pre.rtake n) log

/-- The last entries, one more than the window, are all different. -/
theorem Spaced.nodup_rtake (h : Spaced n log) {m : ℕ} (hm : m ≤ n + 1) : (log.rtake m).Nodup := by
  induction log using List.reverseRecOn generalizing m with
  | nil => simp
  | append_singleton log k ih =>
    obtain ⟨hlog, hk⟩ := Lts.justified_snoc_iff.1 h
    cases m with
    | zero => simp
    | succ m =>
      rw [List.rtake_concat_succ]
      have hle : m ≤ n := Nat.le_of_succ_le_succ hm
      rw [← List.concat_eq_append]
      exact (ih hlog (Nat.le_succ_of_le hle)).concat fun hmem => hk (mem_rtake_mono hle hmem)

/-- Neither has a part of such a log, where few entries are left out. -/
theorem Spaced.nodup_part {part earlier : List κ} {left m : ℕ} (h : Spaced n (earlier ++ log)) (hpart : part.Sublist log)
    (hlen : log.length ≤ part.length + left) (hm : m + left ≤ n + 1) : (part.rtake m).Nodup :=
  (h.nodup_rtake hm).sublist ((rtake_sublist_rtake hpart hlen m).trans (rtake_append_sublist earlier log _))

end Window
