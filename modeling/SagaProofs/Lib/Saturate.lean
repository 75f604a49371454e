/-
Closing a set of nodes under links by passes over the list of links, each pass going on with what it has just
included, until a pass includes nothing. It ends for every list of links, cycles or not, with the nodes that
can be reached.
-/
import Mathlib.Data.List.Induction
import Mathlib.Data.List.Nodup
import Mathlib.Data.List.Perm.Subperm
import Mathlib.Logic.Relation

namespace Saturate

open Relation

variable {α : Type*}

def Linked (links : List (α × α)) (x y : α) : Prop := (x, y) ∈ links

variable [DecidableEq α]

/-- A link includes its target when its source is included; the flag says whether one did. -/
def visit (acc : List α × Bool) (link : α × α) : List α × Bool :=
  if link.1 ∈ acc.1 ∧ link.2 ∉ acc.1 then (acc.1 ++ [link.2], true) else acc

def pass (links : List (α × α)) (included : List α) : List α × Bool := links.foldl visit (included, false)

/-- Passes until one includes nothing; `none` when the fuel runs out. -/
def saturate (links : List (α × α)) : ℕ → List α → Option (List α)
  | 0, _ => none
  | fuel + 1, included =>
    match pass links included with
    | (more, true) => saturate links fuel more
    | (same, false) => some same

/-! ## One pass -/

/-- What a pass has done after some of the links: what it has added is reached over links, and where it has
added nothing the links it has seen lead nowhere new. -/
structure Passed (included : List α) (links : List (α × α)) (acc : List α × Bool) : Prop where
  kept : included ⊆ acc.1
  nodup : acc.1.Nodup
  reached : ∀ (P : α → Prop), (∀ x ∈ included, P x) → (∀ x y, P x → Linked links x y → P y) → ∀ x ∈ acc.1, P x
  grown : acc.2 = true → included.length < acc.1.length
  closed : acc.2 = false → acc.1 = included ∧ ∀ x y, Linked links x y → x ∈ included → y ∈ included

variable {links : List (α × α)} {included r : List α}

omit [DecidableEq α] in
theorem Passed.nil (hn : included.Nodup) : Passed included [] (included, false) where
  kept _ h := h
  nodup := hn
  reached _ h _ := h
  grown h := nomatch h
  closed _ := ⟨rfl, fun _ _ h => absurd h List.not_mem_nil⟩

theorem Passed.snoc {acc : List α × Bool} (h : Passed included links acc) (link : α × α) :
    Passed included (links ++ [link]) (visit acc link) := by
  have hlen : included.length ≤ acc.1.length := by
    cases hf : acc.2 with
    | true => exact Nat.le_of_lt (h.grown hf)
    | false => exact Nat.le_of_eq (congrArg List.length (h.closed hf).1.symm)
  have hmono : ∀ {x y}, Linked links x y → Linked (links ++ [link]) x y := fun h => List.mem_append_left _ h
  unfold visit
  split
  · rename_i hc
    refine ⟨fun x hx => List.mem_append_left _ (h.kept hx), ?_, fun P h0 hstep x hx => ?_, fun _ => ?_,
      fun hf => nomatch hf⟩
    · exact List.nodup_append.2 ⟨h.nodup, List.nodup_singleton _, fun x hx y hy heq => by
        rw [List.mem_singleton] at hy
        exact hc.2 (hy ▸ heq ▸ hx)⟩
    · have hacc := h.reached P h0 fun x y hx hl => hstep x y hx (hmono hl)
      rcases List.mem_append.1 hx with hx | hx
      · exact hacc x hx
      · rw [List.mem_singleton] at hx
        subst hx
        exact hstep link.1 link.2 (hacc _ hc.1) (List.mem_append_right _ (.head _))
    · show included.length < (acc.1 ++ [link.2]).length
      rw [List.length_append, List.length_singleton]
      omega
  · rename_i hc
    refine ⟨h.kept, h.nodup, fun P h0 hstep => h.reached P h0 fun x y hx hl => hstep x y hx (hmono hl), h.grown,
      fun hf => ?_⟩
    obtain ⟨heq, hclosed⟩ := h.closed hf
    refine ⟨heq, fun x y hl hx => ?_⟩
    rcases List.mem_append.1 hl with hl | hl
    · exact hclosed x y hl hx
    · rw [List.mem_singleton] at hl
      by_contra hy
      refine hc ?_
      rw [← hl, heq]
      exact ⟨hx, hy⟩

theorem passed_pass (links : List (α × α)) (hn : included.Nodup) : Passed included links (pass links included) := by
  unfold pass
  induction links using List.reverseRecOn with
  | nil => exact .nil hn
  | append_singleton links link ih =>
    rw [List.foldl_append]
    exact ih.snoc link

/-! ## All passes -/

/-- What the passes leave is what can be reached. -/
theorem mem_saturate {fuel : ℕ} (hn : included.Nodup) (h : saturate links fuel included = some r) :
    r.Nodup ∧ ∀ x, x ∈ r ↔ ∃ s ∈ included, ReflTransGen (Linked links) s x := by
  induction fuel generalizing included with
  | zero => cases h
  | succ fuel ih =>
    have hp := passed_pass links hn
    unfold saturate at h
    split at h
    · rename_i more heq
      rw [heq] at hp
      obtain ⟨hr, hmem⟩ := ih hp.nodup h
      refine ⟨hr, fun x => ?_⟩
      rw [hmem]
      constructor
      · rintro ⟨s, hs, hsx⟩
        obtain ⟨s₀, hs₀, hreach⟩ := hp.reached (fun y => ∃ s ∈ included, ReflTransGen (Linked links) s y)
          (fun y hy => ⟨y, hy, .refl⟩) (fun y z ⟨s, hs, hsy⟩ hl => ⟨s, hs, hsy.tail hl⟩) s hs
        exact ⟨s₀, hs₀, hreach.trans hsx⟩
      · rintro ⟨s, hs, hsx⟩
        exact ⟨s, hp.kept hs, hsx⟩
    · rename_i same heq
      cases h
      rw [heq] at hp
      obtain ⟨rfl, hclosed⟩ := hp.closed rfl
      refine ⟨hn, fun x => ⟨fun hx => ⟨x, hx, .refl⟩, ?_⟩⟩
      rintro ⟨s, hs, hsx⟩
      induction hsx with
      | refl => exact hs
      | tail _ hl ih => exact hclosed _ _ hl ih

/-- The passes end: each but the last includes another target. -/
theorem exists_saturate {fuel : ℕ} (nodes : List α) (hn : included.Nodup) (hsub : included ⊆ nodes)
    (hlinks : ∀ x y, Linked links x y → y ∈ nodes) (hfuel : nodes.length < fuel + included.length) :
    ∃ r, saturate links fuel included = some r := by
  induction fuel generalizing included with
  | zero =>
    have := (hn.subperm hsub).length_le
    omega
  | succ fuel ih =>
    have hp := passed_pass links hn
    unfold saturate
    split
    · rename_i more heq
      rw [heq] at hp
      have hlt := hp.grown rfl
      refine ih hp.nodup ?_ ?_
      · exact hp.reached (· ∈ nodes) (fun x hx => hsub hx) fun x y _ hl => hlinks x y hl
      · have : included.length < more.length := hlt
        omega
    · exact ⟨_, rfl⟩

/-- From one node as many passes as there are links, and one, are enough. -/
theorem saturate_singleton (links : List (α × α)) (start : α) {fuel : ℕ} (hfuel : links.length < fuel) :
    ∃ r, saturate links fuel [start] = some r ∧ r.Nodup ∧ ∀ x, x ∈ r ↔ ReflTransGen (Linked links) start x := by
  obtain ⟨r, hr⟩ : ∃ r, saturate links fuel [start] = some r := by
    refine exists_saturate (start :: links.map Prod.snd) (List.nodup_singleton start) ?_ ?_ ?_
    · exact fun x hx => by rw [List.mem_singleton.1 hx]; exact .head _
    · exact fun x y hl => List.mem_cons_of_mem _ (List.mem_map.2 ⟨_, hl, rfl⟩)
    · simp only [List.length_cons, List.length_map, List.length_nil]
      omega
  obtain ⟨hn, hmem⟩ := mem_saturate (List.nodup_singleton start) hr
  refine ⟨r, hr, hn, fun x => ?_⟩
  rw [hmem]
  simp

end Saturate
