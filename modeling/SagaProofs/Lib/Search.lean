/-
Breadth-first search without a set of visited nodes: a node is listed when it is found and its children are
searched when its turn comes. Such a search lists each node below its start once exactly when these form a
tree; on a cycle it never ends.
-/
import Mathlib.Data.List.Nodup
import Mathlib.Data.List.Pairwise
import Mathlib.Data.List.Perm.Subperm
import Mathlib.Logic.Relation

namespace Search

open Relation

variable {α : Type*} (children : α → List α)

/-- The search with the nodes listed so far and those whose children are still to be listed; `none` when
the fuel runs out. -/
def search : ℕ → List α → List α → Option (List α)
  | _, result, [] => some result
  | 0, _, _ :: _ => none
  | fuel + 1, result, current :: queue => search fuel (result ++ children current) (queue ++ children current)

def Child (x y : α) : Prop := y ∈ children x

/-- A node and its descendants. -/
def Below (start x : α) : Prop := ReflTransGen (Child children) start x

/-- The nodes below the start form a tree: it is no child of them, and each other one is one child of one
node. -/
structure TreeFrom (start : α) : Prop where
  root : ∀ x, Below children start x → start ∉ children x
  parent : ∀ x y c, Below children start x → Below children start y → c ∈ children x → c ∈ children y → x = y
  nodup : ∀ x, Below children start x → (children x).Nodup

/-! ## The search as it goes -/

/-- The nodes whose children have been listed, and the others: what is listed is the start and those children. -/
structure Inv (start : α) (done queue : List α) : Prop where
  listed : done ++ queue = start :: done.flatMap children
  below : ∀ x ∈ done ++ queue, Below children start x

variable {children} {start : α} {done queue r : List α} {fuel : ℕ}

theorem Inv.init (start : α) : Inv children start [] [start] :=
  ⟨rfl, fun x hx => by rw [List.mem_singleton.1 hx]; exact .refl⟩

/-- A node whose turn has come leaves the queue, and its children are listed and join it. -/
theorem append_turn (done queue : List α) (current : α) :
    done ++ [current] ++ (queue ++ children current) = done ++ current :: queue ++ children current := by
  simp

theorem Inv.step {current : α} (h : Inv children start done (current :: queue)) :
    Inv children start (done ++ [current]) (queue ++ children current) := by
  constructor
  · rw [append_turn, h.listed, List.flatMap_append, List.flatMap_singleton, List.cons_append]
  · intro x hx
    rw [append_turn] at hx
    rcases List.mem_append.1 hx with hx | hx
    · exact h.below x hx
    · exact (h.below current (by simp)).tail hx

/-- A search that ends has listed the start and the children of all it has listed. -/
theorem Inv.of_search (hi : Inv children start done queue) (h : search children fuel (done ++ queue) queue = some r) :
    Inv children start r [] := by
  induction fuel generalizing done queue with
  | zero =>
    cases queue with
    | nil =>
      cases h
      rwa [List.append_nil]
    | cons current queue => cases h
  | succ fuel ih =>
    cases queue with
    | nil =>
      cases h
      rwa [List.append_nil]
    | cons current queue =>
      refine ih hi.step ?_
      rw [append_turn]
      exact h

/-- What a search that ends has listed: the start with its descendants. -/
theorem mem_of_search (h : search children fuel [start] [start] = some r) (x : α) :
    x ∈ r ↔ Below children start x := by
  have hi := (Inv.init start).of_search h
  have hlisted := hi.listed
  rw [List.append_nil] at hlisted
  constructor
  · intro hx
    exact hi.below x (by rwa [List.append_nil])
  · intro hx
    induction hx with
    | refl =>
      rw [hlisted]
      exact List.mem_cons_self ..
    | tail _ hc ih =>
      rw [hlisted]
      exact List.mem_cons_of_mem _ (List.mem_flatMap.2 ⟨_, ih, hc⟩)

/-! ## Each node once -/

/-- A search that ends and lists no node twice has found a tree. -/
theorem treeFrom_of_search (h : search children fuel [start] [start] = some r) (hn : r.Nodup) :
    TreeFrom children start := by
  have hi := (Inv.init start).of_search h
  have hlisted := hi.listed
  have hmem := mem_of_search h
  rw [List.append_nil] at hlisted
  rw [hlisted, List.nodup_cons, List.nodup_flatMap] at hn
  obtain ⟨hroot, hnodup, hdisjoint⟩ := hn
  refine ⟨fun x hx hc => hroot (List.mem_flatMap.2 ⟨x, (hmem x).2 hx, hc⟩), fun x y c hx hy hcx hcy => ?_,
    fun x hx => hnodup x ((hmem x).2 hx)⟩
  by_contra hne
  have hsymm : Std.Symm (Function.onFun List.Disjoint children) := ⟨fun _ _ hd _ hx hy => hd hy hx⟩
  exact hdisjoint.forall ((hmem x).2 hx) ((hmem y).2 hy) hne hcx hcy

/-- In a tree nothing is listed twice. -/
theorem Inv.nodup (hi : Inv children start done queue) (ht : TreeFrom children start) (hd : done.Nodup) :
    (done ++ queue).Nodup := by
  have hbelow : ∀ x ∈ done, Below children start x := fun x hx => hi.below x (List.mem_append_left _ hx)
  rw [hi.listed, List.nodup_cons, List.nodup_flatMap]
  refine ⟨fun hmem => ?_, fun x hx => ht.nodup x (hbelow x hx), ?_⟩
  · obtain ⟨x, hx, hc⟩ := List.mem_flatMap.1 hmem
    exact ht.root x (hbelow x hx) hc
  · refine hd.imp_of_mem fun {x y} hx hy hne c hcx hcy => ?_
    exact hne (ht.parent x y c (hbelow x hx) (hbelow y hy) hcx hcy)

/-- In a tree the search ends, for each turn is that of another node. -/
theorem exists_search (ht : TreeFrom children start) {nodes : List α}
    (hnodes : ∀ x, Below children start x → x ∈ nodes) (hi : Inv children start done queue) (hd : done.Nodup)
    (hfuel : nodes.length ≤ fuel + done.length) :
    ∃ r, search children fuel (done ++ queue) queue = some r ∧ r.Nodup := by
  induction fuel generalizing done queue with
  | zero =>
    cases queue with
    | nil => exact ⟨done, by rw [List.append_nil]; rfl, hd⟩
    | cons current queue =>
      have hle := ((hi.nodup ht hd).subperm fun x hx => hnodes x (hi.below x hx)).length_le
      rw [List.length_append, List.length_cons] at hle
      omega
  | succ fuel ih =>
    cases queue with
    | nil => exact ⟨done, by rw [List.append_nil]; rfl, hd⟩
    | cons current queue =>
      have hdone : (done ++ [current]).Nodup :=
        (hi.nodup ht hd).sublist (List.Sublist.append_left (List.singleton_sublist.2 (List.mem_cons_self ..)) done)
      obtain ⟨r, hr, hn⟩ := ih hi.step hdone (by rw [List.length_append, List.length_singleton]; omega)
      rw [append_turn] at hr
      exact ⟨r, hr, hn⟩

/-- The search ends and lists the start and each of its descendants once exactly when these form a tree. -/
theorem search_exact_iff {nodes : List α} (hnodes : ∀ x, Below children start x → x ∈ nodes) :
    (∃ fuel r, search children fuel [start] [start] = some r ∧ r.Nodup ∧ ∀ x, x ∈ r ↔ Below children start x) ↔
      TreeFrom children start := by
  constructor
  · rintro ⟨fuel, r, h, hn, -⟩
    exact treeFrom_of_search h hn
  · intro ht
    obtain ⟨r, hr, hn⟩ := exists_search ht hnodes (Inv.init start) List.nodup_nil (Nat.le_refl nodes.length)
    exact ⟨nodes.length, r, hr, hn, mem_of_search hr⟩

/-! ## Cycles -/

/-- Where each node has one parent, the nodes below the start form a tree unless it is on a cycle. -/
theorem treeFrom_iff (hparent : ∀ x y c, c ∈ children x → c ∈ children y → x = y)
    (hnodup : ∀ x, (children x).Nodup) : TreeFrom children start ↔ ¬ TransGen (Child children) start start := by
  rw [TransGen.tail'_iff, not_exists]
  constructor
  · rintro ht x ⟨hx, hc⟩
    exact ht.root x hx hc
  · intro h
    exact ⟨fun x hx hc => h x ⟨hx, hc⟩, fun x y c _ _ => hparent x y c, fun x _ => hnodup x⟩

/-- Once a node that leads back to the start waits for its turn, one always does. -/
theorem search_of_cycle (hc : TransGen (Child children) start start) {result : List α} {x : α} (hx : x ∈ queue)
    (hlead : TransGen (Child children) x start) : search children fuel result queue = none := by
  induction fuel generalizing result queue x with
  | zero =>
    cases queue with
    | nil => cases hx
    | cons current queue => rfl
  | succ fuel ih =>
    cases queue with
    | nil => cases hx
    | cons current queue =>
      rcases List.mem_cons.1 hx with rfl | hx
      · -- its turn has come: the next node on the way is listed
        obtain ⟨y, hy, hrest⟩ := TransGen.head'_iff.1 hlead
        have hnext : TransGen (Child children) y start := by
          rcases reflTransGen_iff_eq_or_transGen.1 hrest with heq | hrest
          · rwa [← heq]
          · exact hrest
        exact ih (List.mem_append_right queue hy) hnext
      · exact ih (List.mem_append_left _ hx) hlead

end Search
