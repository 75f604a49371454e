/-
The IEEE 754 numbers a dynamically typed program computes with: NaN, the infinities and the
finite values, with the comparisons and the product that its arithmetic prescribes, and the reading
of a decimal integer.
-/
import SagaProofs.Lib.Text
import Mathlib.Algebra.Order.Floor.Ring
import Mathlib.Data.Rat.Floor
import Mathlib.Tactic.Positivity

/-- A number: NaN, an infinity or a finite value. -/
inductive Number
  | nan
  | infinity (negative : Bool)
  | finite (q : ℚ)
  deriving DecidableEq

namespace Number

/-- The number of a natural. -/
def ofNat (n : ℕ) : Number := .finite n

/-- `x < y`; every comparison with NaN is false. -/
def lt : Number → Number → Bool
  | .nan, _ => false
  | _, .nan => false
  | .infinity true, y => y != .infinity true
  | .infinity false, _ => false
  | .finite _, .infinity negative => !negative
  | .finite p, .finite q => decide (p < q)

/-- `x <= y`; every comparison with NaN is false. -/
def le : Number → Number → Bool
  | .nan, _ => false
  | _, .nan => false
  | .infinity true, _ => true
  | .infinity false, y => y == .infinity false
  | .finite _, .infinity negative => !negative
  | .finite p, .finite q => decide (p ≤ q)

/-- A finite result, or the infinity it overflows to. -/
def overflow (q : ℚ) : Number :=
  if q < 2 ^ 1024 then if -2 ^ 1024 < q then .finite q else .infinity true else .infinity false

/-- `Math.pow(2, k)` for a natural `k`. -/
def pow2 (k : ℕ) : Number := overflow (2 ^ k)

/-- `x * y` where a finite result needs no rounding, as when one factor is a power of two. -/
def mul : Number → Number → Number
  | .finite p, .finite q => overflow (p * q)
  | .nan, _ => .nan
  | _, .nan => .nan
  | .infinity m, .infinity n => .infinity (m != n)
  | .infinity m, .finite q => if q = 0 then .nan else .infinity (m != decide (q < 0))
  | .finite q, .infinity m => if q = 0 then .nan else .infinity (m != decide (q < 0))

/-- `Math.max(x, y)`, less the sign of zero. -/
def max (x y : Number) : Number :=
  if x = .nan ∨ y = .nan then .nan else if x.lt y then y else x

/-- `Math.min(x, y)`, less the sign of zero. -/
def min (x y : Number) : Number :=
  if x = .nan ∨ y = .nan then .nan else if y.lt x then y else x

/-- The nearest number of 53 significant bits, of two the even one. -/
def roundNat (n : ℕ) : ℕ :=
  let unit := 2 ^ (n.log2 - 52)
  let (q, r) := (n / unit, n % unit)
  if 2 * r < unit ∨ (2 * r = unit ∧ q % 2 = 0) then q * unit else (q + 1) * unit

/-- `parseInt(s, 10)`: the digits that `s` begins with, after white space and a sign. -/
def parseInt (s : String) : Number :=
  let cs := s.toList.dropWhile Text.isSpace
  let (negative, cs) := match cs with
    | '-' :: cs => (true, cs)
    | '+' :: cs => (false, cs)
    | cs => (false, cs)
  let digits := cs.takeWhile Char.isDigit
  if digits = [] then .nan
  else
    let n := roundNat (digits.foldl (fun n c => 10 * n + (c.toNat - 48)) 0)
    overflow (if negative then -n else n)

example : parseInt " 12px" = .ofNat 12 := by decide +kernel
example : parseInt "v1" = .nan := by decide +kernel

/-- A whole number or an infinity. -/
def IsWhole : Number → Prop
  | .nan => False
  | .infinity _ => True
  | .finite q => (⌊q⌋ : ℚ) = q

instance : DecidablePred IsWhole
  | .nan => .isFalse id
  | .infinity _ => .isTrue trivial
  | .finite q => inferInstanceAs (Decidable ((⌊q⌋ : ℚ) = q))

/-- The number of whole steps from zero that stay at or below the number (zero for an infinity). -/
def floorNat : Number → ℕ
  | .finite q => ⌊q⌋.toNat
  | _ => 0

@[simp] theorem ofNat_le_ofNat (m n : ℕ) : (ofNat m).le (ofNat n) = decide (m ≤ n) := by
  simp [ofNat, le]

@[simp] theorem ofNat_lt_ofNat (m n : ℕ) : (ofNat m).lt (ofNat n) = decide (m < n) := by
  simp [ofNat, lt]

theorem le_of_lt {x y : Number} (h : x.lt y = true) : x.le y = true := by
  cases x with
  | nan => cases h
  | infinity m => cases m <;> cases y <;> simp_all [lt, le]
  | finite p =>
    cases y with
    | finite q =>
      simp only [lt, le, decide_eq_true_eq] at *
      exact h.le
    | _ => exact h

theorem ofNat_le_mono {m n : ℕ} {x : Number} (hmn : m ≤ n) (h : (ofNat n).le x = true) : (ofNat m).le x = true := by
  cases x with
  | finite q =>
    simp only [ofNat, le, decide_eq_true_eq] at *
    exact le_trans (by exact_mod_cast hmn) h
  | _ => exact h

theorem le_ofNat_mono {m n : ℕ} {x : Number} (hmn : m ≤ n) (h : x.le (ofNat m) = true) : x.le (ofNat n) = true := by
  cases x with
  | finite q =>
    simp only [ofNat, le, decide_eq_true_eq] at *
    exact h.trans (by exact_mod_cast hmn)
  | infinity negative => cases negative <;> simp_all [ofNat, le]
  | nan => exact h

/-- The whole part of a number from zero on is at or below it. -/
theorem ofNat_le_of_le_floorNat {x : Number} {k : ℕ} (h0 : (ofNat 0).le x = true) (hk : k ≤ x.floorNat) :
    (ofNat k).le x = true := by
  cases x with
  | finite q =>
    apply ofNat_le_mono hk
    simp only [ofNat, le, floorNat, decide_eq_true_eq] at *
    have hf : (0 : ℤ) ≤ ⌊q⌋ := Int.floor_nonneg.2 (by exact_mod_cast h0)
    calc ((⌊q⌋.toNat : ℕ) : ℚ) = ((⌊q⌋.toNat : ℤ) : ℚ) := by norm_cast
      _ = (⌊q⌋ : ℚ) := by rw [Int.toNat_of_nonneg hf]
      _ ≤ q := Int.floor_le q
  | _ => rw [Nat.le_zero.1 hk]; exact h0

/-- Between a number that is not whole and its whole part there is no natural. -/
theorem fraction {x : Number} (h0 : (ofNat 0).le x = true) (hw : ¬ x.IsWhole) :
    (∀ k ≤ x.floorNat, (ofNat k).lt x = true) ∧ (ofNat (x.floorNat + 1)).le x = false := by
  cases x with
  | nan => cases h0
  | infinity m => exact absurd trivial hw
  | finite q =>
    have hf : (0 : ℤ) ≤ ⌊q⌋ := Int.floor_nonneg.2 (by simpa [ofNat, le] using h0)
    have hcast : ((⌊q⌋.toNat : ℕ) : ℚ) = (⌊q⌋ : ℚ) := by
      have : ((⌊q⌋.toNat : ℤ) : ℚ) = (⌊q⌋ : ℚ) := by rw [Int.toNat_of_nonneg hf]
      exact_mod_cast this
    constructor
    · intro k hk
      have hle := ofNat_le_of_le_floorNat h0 hk
      simp only [ofNat, le, lt, floorNat, IsWhole, decide_eq_true_eq] at *
      refine lt_of_le_of_ne hle fun heq => hw ?_
      rw [← heq]
      simp
    · simp only [ofNat, le, floorNat, decide_eq_false_iff_not, not_le]
      push_cast
      rw [hcast]
      exact Int.lt_floor_add_one q

/-- Counting from zero, the numbers at or below a whole number end exactly at it. -/
theorem le_iff_lt_or_eq {x : Number} (hw : x.IsWhole) {n : ℕ} (hn : (ofNat n).le x = true)
    (hlt : (ofNat n).lt x = true) : (ofNat (n + 1)).le x = true := by
  cases x with
  | nan => cases hw
  | infinity neg => cases neg <;> simp_all [ofNat, le]
  | finite q =>
    simp only [IsWhole] at hw
    simp only [ofNat, lt, le, decide_eq_true_eq] at *
    rw [← hw] at hlt ⊢
    have : (n : ℤ) < ⌊q⌋ := by exact_mod_cast hlt
    exact_mod_cast (show (n : ℤ) + 1 ≤ ⌊q⌋ by omega)

/-- Numbers other than NaN are ordered. -/
theorem lt_of_not_le {x y : Number} (hx : x ≠ .nan) (hy : y ≠ .nan) (h : x.le y = false) : y.lt x = true := by
  cases x with
  | nan => exact absurd rfl hx
  | infinity m => cases m <;> cases y <;> simp_all [lt, le]
  | finite p =>
    cases y with
    | nan => exact absurd rfl hy
    | infinity n => cases n <;> simp_all [lt, le]
    | finite q =>
      simp only [lt, le, decide_eq_true_eq, decide_eq_false_iff_not, not_le] at *
      exact h

theorem isWhole_overflow (z : ℤ) : (overflow z).IsWhole := by
  unfold overflow
  generalize (2 : ℚ) ^ 1024 = big
  split
  · split
    · show ((⌊(z : ℚ)⌋ : ℤ) : ℚ) = z
      rw [Int.floor_intCast]
    · trivial
  · trivial

theorem isWhole_ofNat (n : ℕ) : (ofNat n).IsWhole := by
  show ((⌊(n : ℚ)⌋ : ℤ) : ℚ) = n
  rw [Int.floor_natCast]
  rfl

theorem parseInt_whole (s : String) : parseInt s = .nan ∨ (parseInt s).IsWhole := by
  have hsigned : ∀ (negative : Bool) (n : ℕ), (overflow (if negative then -(n : ℚ) else n)).IsWhole := by
    intro negative n
    cases negative
    · exact_mod_cast isWhole_overflow n
    · exact_mod_cast isWhole_overflow (-n)
  unfold parseInt
  dsimp only
  split
  all_goals
    split
    · exact .inl rfl
    · exact .inr (hsigned _ _)

/-- The larger of one and a whole number is whole, and not below one. -/
theorem max_one_spec {x : Number} (h : x = .nan ∨ x.IsWhole) :
    max (.ofNat 1) x = .nan ∨ ((max (.ofNat 1) x).IsWhole ∧ (ofNat 1).le (max (.ofNat 1) x) = true) := by
  unfold max
  split
  · exact .inl rfl
  · rename_i hnan
    have hx : x ≠ .nan := fun heq => hnan (.inr heq)
    split
    · rename_i hlt
      exact .inr ⟨h.resolve_left hx, le_of_lt hlt⟩
    · exact .inr ⟨isWhole_ofNat 1, by simp⟩

/-- What lies outside two bounds is moved to the nearer one. -/
theorem clamp_spec {x : Number} (h : x = .nan ∨ x.IsWhole) {low high : ℕ} (hle : low ≤ high) :
    max (.ofNat low) (min (.ofNat high) x) = .nan ∨
      ∃ n, low ≤ n ∧ n ≤ high ∧ max (.ofNat low) (min (.ofNat high) x) = .ofNat n := by
  cases x with
  | nan => left; simp [max, min]
  | infinity negative =>
    right
    cases negative with
    | true => exact ⟨low, le_rfl, hle, by simp [max, min, lt, ofNat]⟩
    | false =>
      refine ⟨high, hle, le_rfl, ?_⟩
      rcases hle.lt_or_eq with hlt | rfl
      · simp [max, min, lt, ofNat, hlt]
      · simp [max, min, lt, ofNat]
  | finite q =>
    obtain ⟨z, rfl⟩ : ∃ z : ℤ, q = z := ⟨⌊q⌋, (h.resolve_left nofun).symm⟩
    have hlt : ∀ n : ℕ, ((n : ℚ) < z ↔ (n : ℤ) < z) ∧ ((z : ℚ) < n ↔ z < n) := fun n => by
      constructor <;> exact_mod_cast Iff.rfl
    right
    by_cases hhigh : z < high
    · by_cases hlow : (low : ℤ) < z
      · obtain ⟨n, rfl⟩ := Int.eq_ofNat_of_zero_le (by omega : 0 ≤ z)
        have hlow' : low < n := by omega
        have hhigh' : n < high := by omega
        exact ⟨n, hlow'.le, hhigh'.le, by simp [max, min, lt, ofNat, hlow', hhigh']⟩
      · refine ⟨low, le_rfl, hle, ?_⟩
        have hnot : ¬ (low : ℚ) < z := fun h => hlow ((hlt low).1.1 h)
        simp [max, min, lt, ofNat, (hlt high).2.2 hhigh, hnot]
    · refine ⟨high, hle, le_rfl, ?_⟩
      have hnot : ¬ (z : ℚ) < high := fun h => hhigh ((hlt high).2.1 h)
      rcases hle.lt_or_eq with hless | rfl
      · simp [max, min, lt, ofNat, hnot, hless]
      · simp [max, min, lt, ofNat, hnot]

end Number
