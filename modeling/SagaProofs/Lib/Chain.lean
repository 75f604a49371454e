/-
Following a partial successor function: a chain that comes to an end does so after one number of
steps, and no element of it comes back.
-/
import Mathlib.Data.List.Basic

namespace Chain

variable {α : Type*}

/-- The element `n` steps on, if there are as many. -/
def follow (next : α → Option α) : ℕ → α → Option α
  | 0, x => some x
  | n + 1, x => (next x).bind (follow next n)

variable {next : α → Option α} {x r : α}

theorem follow_one (x : α) : follow next 1 x = next x := by
  show (next x).bind some = next x
  exact Option.bind_fun_some _

theorem follow_add (n : ℕ) : ∀ (m : ℕ) (x : α), follow next (m + n) x = (follow next m x).bind (follow next n)
  | 0, x => by rw [Nat.zero_add]; rfl
  | m + 1, x => by
    rw [Nat.succ_add]
    show (next x).bind (follow next (m + n)) = ((next x).bind (follow next m)).bind (follow next n)
    cases next x with
    | none => rfl
    | some y => exact follow_add n m y

/-- There is nothing past an end. -/
theorem follow_end (hr : next r = none) (n : ℕ) : follow next (n + 1) r = none := by
  show (next r).bind (follow next n) = none
  rw [hr]; rfl

/-- Two numbers of steps to an end are one. -/
theorem follow_le (hr : next r = none) {m n : ℕ} (hm : follow next m x = some r) (hn : follow next n x = some r) :
    n ≤ m := by
  by_contra hlt
  obtain ⟨k, rfl⟩ : ∃ k, n = m + (k + 1) := ⟨n - m - 1, by omega⟩
  rw [follow_add, hm, Option.bind_some, follow_end hr] at hn
  cases hn

/-- A chain comes to its end after one number of steps. -/
theorem follow_end_iff (hr : next r = none) {n : ℕ} (hn : follow next n x = some r) (m : ℕ) :
    follow next m x = some r ↔ m = n := by
  constructor
  · intro hm
    exact Nat.le_antisymm (follow_le hr hn hm) (follow_le hr hm hn)
  · rintro rfl
    exact hn

/-- An element from which an end is reached does not come back. -/
theorem follow_ne_self (hr : next r = none) {n : ℕ} (hn : follow next n x = some r) (m : ℕ) :
    follow next (m + 1) x ≠ some x := by
  intro hx
  have hlong : follow next (m + 1 + n) x = some r := by
    rw [follow_add, hx]
    exact hn
  have := (follow_end_iff hr hn _).1 hlong
  omega

end Chain
