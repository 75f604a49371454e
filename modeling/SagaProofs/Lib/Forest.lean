/-
A forest that grows by one node at a time: each new node is a root or the child of a node that is
already there. The ancestors of a node, from its parent up to its root, do not change as the forest
grows, do not repeat and do not contain the node.
-/
import Mathlib.Data.List.Nodup

variable {α : Type*} [DecidableEq α]

/-- The nodes with their parents, the newest first. -/
abbrev Forest (α : Type*) := List (α × Option α)

namespace Forest

def nodes (f : Forest α) : List α := f.map Prod.fst

/-- The ancestors of a node, its parent first and its root last; none for a root. -/
def ancestors : Forest α → α → List α
  | [], _ => []
  | (x, parent) :: rest, node =>
    if node = x then
      match parent with
      | none => []
      | some p => p :: ancestors rest p
    else ancestors rest node

/-- The root of the tree a node is in. -/
def root (f : Forest α) (node : α) : α := (f.ancestors node).getLast?.getD node

/-- Every node is new when it comes, and its parent is there. -/
def Grown : Forest α → Prop
  | [] => True
  | (x, parent) :: rest => x ∉ nodes rest ∧ (∀ p, parent = some p → p ∈ nodes rest) ∧ Grown rest

omit [DecidableEq α] in
@[simp] theorem nodes_cons (x : α) (parent : Option α) (f : Forest α) : nodes ((x, parent) :: f) = x :: nodes f := rfl

@[simp] theorem ancestors_root (x : α) (f : Forest α) : ancestors ((x, none) :: f) x = [] := by
  simp [ancestors]

@[simp] theorem ancestors_child (x p : α) (f : Forest α) :
    ancestors ((x, some p) :: f) x = p :: ancestors f p := by
  simp [ancestors]

/-- A new node does not change the ancestors of the others. -/
theorem ancestors_of_ne {x node : α} (parent : Option α) (f : Forest α) (h : node ≠ x) :
    ancestors ((x, parent) :: f) node = ancestors f node := by
  simp [ancestors, h]

theorem ancestors_grow {f : Forest α} {x node : α} {parent : Option α} (hg : Grown ((x, parent) :: f))
    (hn : node ∈ nodes f) : ancestors ((x, parent) :: f) node = ancestors f node := by
  apply ancestors_of_ne parent f
  rintro rfl
  exact hg.1 hn

/-- The ancestors are nodes of the forest. -/
theorem ancestors_subset : ∀ {f : Forest α}, Grown f → ∀ node, ∀ a ∈ ancestors f node, a ∈ nodes f
  | [], _, _, _, h => by cases h
  | (x, parent) :: rest, hg, node, a, h => by
    rw [nodes_cons, List.mem_cons]
    by_cases hx : node = x
    · subst hx
      cases parent with
      | none => rw [ancestors_root] at h; cases h
      | some p =>
        rw [ancestors_child] at h
        rcases List.mem_cons.1 h with rfl | h
        · exact .inr (hg.2.1 _ rfl)
        · exact .inr (ancestors_subset hg.2.2 p a h)
    · rw [ancestors_of_ne parent rest hx] at h
      exact .inr (ancestors_subset hg.2.2 node a h)

/-- No node is its own ancestor. -/
theorem not_mem_ancestors : ∀ {f : Forest α}, Grown f → ∀ node, node ∉ ancestors f node
  | [], _, _, h => by cases h
  | (x, parent) :: rest, hg, node, h => by
    by_cases hx : node = x
    · subst hx
      cases parent with
      | none => rw [ancestors_root] at h; cases h
      | some p =>
        rw [ancestors_child] at h
        rcases List.mem_cons.1 h with rfl | h
        · exact hg.1 (hg.2.1 _ rfl)
        · exact hg.1 (ancestors_subset hg.2.2 p _ h)
    · rw [ancestors_of_ne parent rest hx] at h
      exact not_mem_ancestors hg.2.2 node h

theorem ancestors_nodup : ∀ {f : Forest α}, Grown f → ∀ node, (ancestors f node).Nodup
  | [], _, _ => List.nodup_nil
  | (x, parent) :: rest, hg, node => by
    by_cases hx : node = x
    · subst hx
      cases parent with
      | none => rw [ancestors_root]; exact List.nodup_nil
      | some p =>
        rw [ancestors_child, List.nodup_cons]
        exact ⟨not_mem_ancestors hg.2.2 p, ancestors_nodup hg.2.2 p⟩
    · rw [ancestors_of_ne parent rest hx]
      exact ancestors_nodup hg.2.2 node

/-- Above the parent come the ancestors of the parent. -/
theorem ancestors_parent : ∀ {f : Forest α}, Grown f → ∀ {node p : α} {above : List α},
    ancestors f node = p :: above → p ∈ nodes f ∧ ancestors f p = above
  | [], _, _, _, _, h => by cases h
  | (x, parent) :: rest, hg, node, p, above, h => by
    have hin : p ∈ nodes rest ∧ ancestors rest p = above := by
      by_cases hx : node = x
      · subst hx
        cases parent with
        | none => rw [ancestors_root] at h; cases h
        | some q =>
          rw [ancestors_child] at h
          cases h
          exact ⟨hg.2.1 _ rfl, rfl⟩
      · rw [ancestors_of_ne parent rest hx] at h
        exact ancestors_parent hg.2.2 h
    refine ⟨List.mem_cons_of_mem x hin.1, ?_⟩
    rw [ancestors_grow hg hin.1]
    exact hin.2

/-- Above an ancestor come its own ancestors. -/
theorem exists_ancestors_eq_append {f : Forest α} (hg : Grown f) {node a : α} (h : a ∈ ancestors f node) :
    ∃ below, ancestors f node = below ++ a :: ancestors f a := by
  generalize hl : ancestors f node = l at h
  induction l generalizing node with
  | nil => cases h
  | cons p above ih =>
    obtain ⟨-, hp⟩ := ancestors_parent hg hl
    rcases List.mem_cons.1 h with rfl | h
    · exact ⟨[], by rw [hp]; rfl⟩
    · obtain ⟨below, hb⟩ := ih hp h
      exact ⟨p :: below, by rw [hb]; rfl⟩

/-- A node is no ancestor of its ancestors. -/
theorem not_mem_ancestors_of_mem {f : Forest α} (hg : Grown f) {node a : α} (h : a ∈ ancestors f node) :
    node ∉ ancestors f a := by
  intro hin
  obtain ⟨below, hb⟩ := exists_ancestors_eq_append hg h
  apply not_mem_ancestors hg node
  rw [hb]
  exact List.mem_append_right below (List.mem_cons_of_mem a hin)

theorem root_of_ancestors_nil {f : Forest α} {node : α} (h : ancestors f node = []) : root f node = node := by
  simp [root, h]

/-- A node and its parent are in one tree. -/
theorem root_parent {f : Forest α} (hg : Grown f) {node p : α} {above : List α} (h : ancestors f node = p :: above) :
    root f p = root f node := by
  unfold root
  rw [(ancestors_parent hg h).2, h]
  cases above with
  | nil => rfl
  | cons q above =>
    rw [List.getLast?_cons_cons, List.getLast?_eq_some_getLast (List.cons_ne_nil q above)]
    rfl

/-- All nodes on a way up are in one tree. -/
theorem root_of_append {f : Forest α} {node a : α} {below : List α}
    (h : node :: ancestors f node = below ++ a :: ancestors f a) : root f node = root f a := by
  have hlast : ∀ x : α, root f x = ((x :: ancestors f x).getLast?).getD x := by
    intro x
    unfold root
    cases ancestors f x with
    | nil => rfl
    | cons p above => rw [List.getLast?_cons_cons, List.getLast?_eq_some_getLast (List.cons_ne_nil p above)]
  rw [hlast node, hlast a, h, List.getLast?_append,
    List.getLast?_eq_some_getLast (List.cons_ne_nil a (ancestors f a))]
  rfl

/-- Off the node itself a way up starts at its parent. -/
theorem parent_of_append {f : Forest α} (hg : Grown f) {node a x : α} {below : List α}
    (h : node :: ancestors f node = x :: below ++ a :: ancestors f a) :
    ∃ p, (ancestors f node).head? = some p ∧ p :: ancestors f p = below ++ a :: ancestors f a := by
  rw [List.cons_append, List.cons.injEq] at h
  cases hb : below ++ a :: ancestors f a with
  | nil => simp at hb
  | cons p above =>
    have hanc : ancestors f node = p :: above := h.2.trans hb
    exact ⟨p, by rw [hanc]; rfl, by rw [(ancestors_parent hg hanc).2]⟩

end Forest
