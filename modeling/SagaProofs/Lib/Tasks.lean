/-
Programs that wait between their steps: what waits is a multiset of tasks, and a task is handled in one step that
changes the state and leaves others, in any order. A task may stay when it is handled, to be handled again, or be
lost. Where each task leaves less than it was, only so many are handled as have entered, and all can be.
-/
import SagaProofs.Lib.Run
import Mathlib.Algebra.BigOperators.Group.Multiset.Basic
import Mathlib.Algebra.GroupWithZero.Nat
import Mathlib.Data.Multiset.Filter

namespace Tasks

open Lts

/-! ## The system -/

structure Config (σ τ : Type*) where
  state : σ
  tasks : Multiset τ

inductive Act (τ ι ε : Type*)
  | enter (e : ε)
  -- `again`: the task stays, to be handled again
  | handle (t : τ) (again : Bool) (input : ι)
  | lose (t : τ)

variable {σ τ ι ε : Type*} [DecidableEq τ]

section Step

variable (segment : ι → σ → τ → Option (σ × List τ)) (enter : ε → σ → Option (σ × List τ))

def step (c : Config σ τ) : Act τ ι ε → Option (Config σ τ)
  | .enter e => (enter e c.state).map fun r => ⟨r.1, c.tasks + r.2⟩
  | .handle t again input =>
    if t ∈ c.tasks then
      (segment input c.state t).map fun r => ⟨r.1, (if again then c.tasks else c.tasks.erase t) + r.2⟩
    else none
  | .lose t => if t ∈ c.tasks then some ⟨c.state, c.tasks.erase t⟩ else none

end Step

/-- No task is handled again. -/
def Act.Once : Act τ ι ε → Prop
  | .handle _ again _ => again = false
  | _ => True

/-- No task is lost. -/
def Act.Keeps : Act τ ι ε → Prop
  | .lose _ => False
  | _ => True

instance : DecidablePred (Act.Once : Act τ ι ε → Prop)
  | .enter _ => .isTrue trivial
  | .handle _ again _ => inferInstanceAs (Decidable (again = false))
  | .lose _ => .isTrue trivial

instance : DecidablePred (Act.Keeps : Act τ ι ε → Prop)
  | .enter _ => .isTrue trivial
  | .handle _ _ _ => .isTrue trivial
  | .lose _ => .isFalse id

/-- Only a task of which `p` holds is handled again. -/
def Act.AgainOnly (p : τ → Prop) : Act τ ι ε → Prop
  | .handle t again _ => again = true → p t
  | _ => True

instance (p : τ → Prop) [DecidablePred p] : DecidablePred (Act.AgainOnly p : Act τ ι ε → Prop)
  | .enter _ => .isTrue trivial
  | .handle t again _ => inferInstanceAs (Decidable (again = true → p t))
  | .lose _ => .isTrue trivial

def Act.isHandle : Act τ ι ε → Bool
  | .handle _ _ _ => true
  | _ => false

def Act.isEnter : Act τ ι ε → Bool
  | .enter _ => true
  | _ => false

variable {segment : ι → σ → τ → Option (σ × List τ)} {enter : ε → σ → Option (σ × List τ)}
variable {c c' : Config σ τ}

/-! ## Steps -/

/-- A step: something enters, a task is handled, or a task is lost. -/
inductive Move (segment : ι → σ → τ → Option (σ × List τ)) (enter : ε → σ → Option (σ × List τ)) (c : Config σ τ) :
    Act τ ι ε → Config σ τ → Prop
  | enter {e : ε} {s : σ} {out : List τ} (h : enter e c.state = some (s, out)) :
    Move segment enter c (.enter e) ⟨s, c.tasks + out⟩
  | again {t : τ} {input : ι} {s : σ} {out : List τ} (ht : t ∈ c.tasks) (h : segment input c.state t = some (s, out)) :
    Move segment enter c (.handle t true input) ⟨s, c.tasks + out⟩
  | once {t : τ} {rest : Multiset τ} {input : ι} {s : σ} {out : List τ} (ht : c.tasks = t ::ₘ rest)
    (h : segment input c.state t = some (s, out)) : Move segment enter c (.handle t false input) ⟨s, rest + out⟩
  | lose {t : τ} {rest : Multiset τ} (ht : c.tasks = t ::ₘ rest) : Move segment enter c (.lose t) ⟨c.state, rest⟩

theorem step_move {a : Act τ ι ε} (h : step segment enter c a = some c') : Move segment enter c a c' := by
  cases a with
  | enter e =>
    obtain ⟨⟨s, out⟩, hr, rfl⟩ := Option.map_eq_some_iff.1 h
    exact .enter hr
  | handle t again input =>
    simp only [step] at h
    split at h
    · rename_i ht
      obtain ⟨⟨s, out⟩, hr, rfl⟩ := Option.map_eq_some_iff.1 h
      cases again with
      | true => exact .again ht hr
      | false => exact .once (Multiset.cons_erase ht).symm hr
    · cases h
  | lose t =>
    simp only [step] at h
    split at h
    · rename_i ht
      cases h
      exact .lose (Multiset.cons_erase ht).symm
    · cases h

omit [DecidableEq τ] in
/-- What holds of all tasks and of those that a step leaves holds of all after it. -/
theorem forall_tasks {P P' : τ → Prop} {a : Act τ ι ε} (hm : Move segment enter c a c')
    (hmono : ∀ t ∈ c.tasks, P t → P' t) (hall : ∀ t ∈ c.tasks, P t)
    (henter : ∀ e s out, enter e c.state = some (s, out) → c'.state = s → ∀ t ∈ out, P' t)
    (hsegment : ∀ t input s out, t ∈ c.tasks → segment input c.state t = some (s, out) → c'.state = s →
      ∀ t' ∈ out, P' t') : ∀ t ∈ c'.tasks, P' t := by
  have hold : ∀ t ∈ c.tasks, P' t := fun t ht => hmono t ht (hall t ht)
  intro t hmem
  cases hm with
  | enter h =>
    rcases Multiset.mem_add.1 hmem with hmem | hmem
    · exact hold t hmem
    · exact henter _ _ _ h rfl t (Multiset.mem_coe.1 hmem)
  | again ht h =>
    rcases Multiset.mem_add.1 hmem with hmem | hmem
    · exact hold t hmem
    · exact hsegment _ _ _ _ ht h rfl t (Multiset.mem_coe.1 hmem)
  | once ht h =>
    rcases Multiset.mem_add.1 hmem with hmem | hmem
    · exact hold t (by rw [ht]; exact Multiset.mem_cons_of_mem hmem)
    · exact hsegment _ _ _ _ (by rw [ht]; exact Multiset.mem_cons_self _ _) h rfl t (Multiset.mem_coe.1 hmem)
  | lose ht => exact hold t (by rw [ht]; exact Multiset.mem_cons_of_mem hmem)

/-! ## How many are handled -/

section Rank

variable (rank : τ → ℕ) {cost : ℕ}

/-- Each task that is handled leaves less than it was, and what enters is no more than `cost`. -/
structure Ranked (segment : ι → σ → τ → Option (σ × List τ)) (enter : ε → σ → Option (σ × List τ)) (rank : τ → ℕ)
    (cost : ℕ) : Prop where
  segment : ∀ {input s t s' out}, segment input s t = some (s', out) → (out.map rank).sum < rank t
  enter : ∀ {e s s' out}, enter e s = some (s', out) → (out.map rank).sum ≤ cost

variable {rank} {as : List (Act τ ι ε)}

/-- In a run in which none is handled again, only so many are handled as have entered. -/
theorem Ranked.handled_le (hr : Ranked segment enter rank cost) (h : run (step segment enter) c as = some c')
    (honce : ∀ a ∈ as, a.Once) :
    as.countP (·.isHandle) + (c'.tasks.map rank).sum ≤ (c.tasks.map rank).sum + as.countP (·.isEnter) * cost := by
  induction as generalizing c with
  | nil =>
    rw [run_nil] at h
    cases h
    simp
  | cons a as ih =>
    obtain ⟨d, hd, hrest⟩ := run_cons_some.1 h
    have hle := ih hrest fun b hb => honce b (List.mem_cons_of_mem a hb)
    have hout : ∀ out : List τ, ((out : Multiset τ).map rank).sum = (out.map rank).sum := fun out => by
      rw [Multiset.map_coe, Multiset.sum_coe]
    cases step_move hd with
    | enter he =>
      have hcost := hr.enter he
      rw [Multiset.map_add, Multiset.sum_add, hout] at hle
      rw [List.countP_cons_of_neg Bool.false_ne_true, List.countP_cons_of_pos rfl, Nat.add_mul, Nat.one_mul]
      omega
    | again ht hs => exact absurd (honce _ (List.mem_cons_self ..)) (by simp [Act.Once])
    | once ht hs =>
      have hlt := hr.segment hs
      rw [Multiset.map_add, Multiset.sum_add, hout] at hle
      rw [ht, Multiset.map_cons, Multiset.sum_cons, List.countP_cons_of_pos rfl,
        List.countP_cons_of_neg Bool.false_ne_true]
      omega
    | lose ht =>
      dsimp only at hle
      rw [ht, Multiset.map_cons, Multiset.sum_cons, List.countP_cons_of_neg Bool.false_ne_true,
        List.countP_cons_of_neg Bool.false_ne_true]
      omega

/-- Where each task that waits can be handled all can, one after the other. -/
theorem Ranked.exists_drain (hr : Ranked segment enter rank cost) {I : Config σ τ → Prop}
    (hI : ∀ c a c', I c → step segment enter c a = some c' → I c')
    (hcan : ∀ c t, I c → t ∈ c.tasks → ∃ input, (segment input c.state t).isSome) (c : Config σ τ) (hc : I c) :
    ∃ as c', run (step segment enter) c as = some c' ∧ c'.tasks = 0 ∧
      ∀ a ∈ as, a.Once ∧ a.Keeps ∧ a.isEnter = false := by
  obtain ⟨n, hn⟩ : ∃ n, (c.tasks.map rank).sum ≤ n := ⟨_, le_rfl⟩
  induction n generalizing c with
  | zero =>
    refine ⟨[], c, rfl, ?_, fun a ha => nomatch ha⟩
    refine Multiset.eq_zero_of_forall_notMem fun t ht => ?_
    obtain ⟨rest, hrest⟩ := Multiset.exists_cons_of_mem ht
    obtain ⟨input, hsome⟩ := hcan c t hc ht
    obtain ⟨⟨s, out⟩, hs⟩ := Option.isSome_iff_exists.1 hsome
    have hlt := hr.segment hs
    rw [hrest, Multiset.map_cons, Multiset.sum_cons] at hn
    omega
  | succ n ih =>
    rcases Multiset.empty_or_exists_mem c.tasks with hempty | ⟨t, ht⟩
    · exact ⟨[], c, rfl, hempty, fun a ha => nomatch ha⟩
    · obtain ⟨input, hsome⟩ := hcan c t hc ht
      obtain ⟨⟨s, out⟩, hs⟩ := Option.isSome_iff_exists.1 hsome
      let d : Config σ τ := ⟨s, c.tasks.erase t + out⟩
      have hd : step segment enter c (.handle t false input) = some d := by
        simp only [step, if_pos ht, hs, Option.map_some]
        rfl
      have hsum : (d.tasks.map rank).sum ≤ n := by
        have hlt := hr.segment hs
        rw [← Multiset.cons_erase ht, Multiset.map_cons, Multiset.sum_cons] at hn
        show ((c.tasks.erase t + out).map rank).sum ≤ n
        rw [Multiset.map_add, Multiset.sum_add, Multiset.map_coe, Multiset.sum_coe]
        omega
      obtain ⟨as, e, hrun, hempty, has⟩ := ih d (hI _ _ _ hc hd) hsum
      refine ⟨.handle t false input :: as, e, run_cons_some.2 ⟨d, hd, hrun⟩, hempty, fun a ha => ?_⟩
      rcases List.mem_cons.1 ha with rfl | ha
      · exact ⟨rfl, trivial, rfl⟩
      · exact has a ha

end Rank

end Tasks
