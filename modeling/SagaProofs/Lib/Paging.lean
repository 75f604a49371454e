/-
Reading rows page by page in the order of a key, each page from behind the last key of the one before, while
rows are added: what is read is in order, has every row that was there from the start and no row twice.
-/
import Mathlib.Data.List.Sort
import Mathlib.Data.List.Perm.Subperm

namespace Paging

variable {α κ : Type*} [LinearOrder κ] (key : α → κ)

/-- The rows behind a key, in order. -/
def behind (after : Option κ) (rows : List α) : List α :=
  (rows.filter fun r => after.all (· < key r)).insertionSort fun a b => key a ≤ key b

/-- The pages of size `n` from page `k` on, which is read behind a key of the rows there are then; `none` when
the fuel runs out. -/
def collect (n : ℕ) (rows : ℕ → List α) : ℕ → ℕ → Option κ → List α → Option (List α)
  | 0, _, _, _ => none
  | fuel + 1, k, after, all =>
    let found := behind key after (rows k)
    if n < found.length then collect n rows fuel (k + 1) ((found.take n).getLast?.map key) (all ++ found.take n)
    else some (all ++ found)

/-- Rows are only added, and no two have one key. -/
structure Growing (rows : ℕ → List α) : Prop where
  kept : ∀ k, rows k ⊆ rows (k + 1)
  nodup : ∀ k, (rows k).Nodup
  inj : ∀ k, ∀ r ∈ rows k, ∀ r' ∈ rows k, key r = key r' → r = r'

/-! ## One page -/

section Page

variable {key} {after : Option κ} {rows : List α} {r : α}

theorem mem_behind : r ∈ behind key after rows ↔ r ∈ rows ∧ ∀ a, after = some a → a < key r := by
  unfold behind
  rw [(List.perm_insertionSort _ _).mem_iff, List.mem_filter]
  cases after <;> simp

theorem behind_sorted (hn : rows.Nodup) (hinj : ∀ r ∈ rows, ∀ r' ∈ rows, key r = key r' → r = r') :
    (behind key after rows).Pairwise fun a b => key a < key b := by
  have hle := List.pairwise_insertionSort (fun a b => key a ≤ key b) (rows.filter fun r => after.all (· < key r))
  have hnodup : (behind key after rows).Nodup := (List.perm_insertionSort _ _).nodup_iff.2 (hn.filter _)
  refine (hle.and hnodup).imp_of_mem fun {a b} ha hb hab => lt_of_le_of_ne hab.1 fun heq => hab.2 ?_
  exact hinj a (mem_behind.1 ha).1 b (mem_behind.1 hb).1 heq

/-- What comes before one of the rows that were taken was taken too. -/
theorem mem_take_of_le {l : List α} (hs : l.Pairwise fun a b => key a < key b) {n : ℕ} {last : α}
    (hlast : (l.take n).getLast? = some last) (hr : r ∈ l) (hle : key r ≤ key last) : r ∈ l.take n := by
  have hsplit := List.take_append_drop n l
  rw [← hsplit] at hr hs
  rcases List.mem_append.1 hr with hr | hr
  · exact hr
  · have hlt := (List.pairwise_append.1 hs).2.2 last (List.mem_of_getLast? hlast) r hr
    exact absurd hle (not_le_of_gt hlt)

theorem le_getLast {l : List α} (hs : l.Pairwise fun a b => key a < key b) {last : α} (hlast : l.getLast? = some last)
    (hr : r ∈ l) : key r ≤ key last := by
  obtain ⟨init, rfl⟩ := List.getLast?_eq_some_iff.1 hlast
  rcases List.mem_append.1 hr with hr | hr
  · exact le_of_lt ((List.pairwise_append.1 hs).2.2 r hr last (.head _))
  · rw [List.mem_singleton.1 hr]

end Page

/-! ## All pages -/

/-- What has been read before page `k`: in order, up to the key, and of the first rows all up to it. -/
structure Read (rows : ℕ → List α) (k : ℕ) (after : Option κ) (all : List α) : Prop where
  sorted : all.Pairwise fun a b => key a < key b
  sound : ∀ r ∈ all, ∃ j ≤ k, r ∈ rows j
  upto : ∀ r ∈ all, ∃ a, after = some a ∧ key r ≤ a
  complete : ∀ r ∈ rows 0, ∀ a, after = some a → key r ≤ a → r ∈ all

variable {key} {n fuel k : ℕ} {rows : ℕ → List α} {after : Option κ} {all found r : List α}

omit [LinearOrder κ] in
theorem Growing.mem_of_le (hg : Growing key rows) {j : ℕ} (h : j ≤ k) : rows j ⊆ rows k := by
  induction h with
  | refl => exact fun _ h => h
  | step _ ih => exact fun x hx => hg.kept _ (ih hx)

theorem Read.nil (rows : ℕ → List α) : Read key rows 0 none [] where
  sorted := .nil
  sound _ h := absurd h List.not_mem_nil
  upto _ h := absurd h List.not_mem_nil
  complete _ _ _ h := nomatch h

/-- What has been read and what is behind it are in order. -/
theorem Read.sorted_append (hr : Read key rows k after all) (hg : Growing key rows) :
    (all ++ behind key after (rows k)).Pairwise fun a b => key a < key b := by
  refine List.pairwise_append.2 ⟨hr.sorted, behind_sorted (hg.nodup k) (hg.inj k), fun a ha b hb => ?_⟩
  obtain ⟨x, hx, hle⟩ := hr.upto a ha
  exact lt_of_le_of_lt hle ((mem_behind.1 hb).2 x hx)

/-- A first row that is not read yet is behind the key. -/
theorem Read.mem_or_behind (hr : Read key rows k after all) (hg : Growing key rows) {x : α} (hx : x ∈ rows 0) :
    x ∈ all ∨ x ∈ behind key after (rows k) := by
  by_cases hb : ∀ a, after = some a → a < key x
  · exact .inr (mem_behind.2 ⟨hg.mem_of_le (Nat.zero_le k) hx, hb⟩)
  · push Not at hb
    obtain ⟨a, ha, hle⟩ := hb
    exact .inl (hr.complete x hx a ha hle)

/-- A page that is not the last. -/
theorem Read.page (hr : Read key rows k after all) (hg : Growing key rows) (hn : 0 < n)
    (hmore : n < (behind key after (rows k)).length) :
    Read key rows (k + 1) (((behind key after (rows k)).take n).getLast?.map key)
      (all ++ (behind key after (rows k)).take n) := by
  have hsorted := hr.sorted_append hg
  have hbehind : (behind key after (rows k)).Pairwise fun a b => key a < key b :=
    behind_sorted (hg.nodup k) (hg.inj k)
  obtain ⟨last, hlast⟩ : ∃ last, ((behind key after (rows k)).take n).getLast? = some last := by
    cases h : ((behind key after (rows k)).take n).getLast? with
    | some last => exact ⟨last, rfl⟩
    | none =>
      have hlen := congrArg List.length (List.getLast?_eq_none_iff.1 h)
      rw [List.length_take, List.length_nil] at hlen
      omega
  have hmem := List.mem_of_getLast? hlast
  rw [hlast, Option.map_some]
  refine ⟨hsorted.sublist (List.Sublist.append_left (List.take_sublist _ _) _), fun x hx => ?_, fun x hx => ?_,
    fun x hx a ha hle => ?_⟩
  · rcases List.mem_append.1 hx with hx | hx
    · obtain ⟨j, hj, hxj⟩ := hr.sound x hx
      exact ⟨j, by omega, hxj⟩
    · exact ⟨k, by omega, (mem_behind.1 (List.mem_of_mem_take hx)).1⟩
  · refine ⟨key last, rfl, ?_⟩
    rcases List.mem_append.1 hx with hx | hx
    · exact le_of_lt ((List.pairwise_append.1 hsorted).2.2 x hx last (List.mem_of_mem_take hmem))
    · exact le_getLast (hbehind.sublist (List.take_sublist _ _)) hlast hx
  · cases ha
    rcases hr.mem_or_behind hg hx with hx | hx
    · exact List.mem_append_left _ hx
    · exact List.mem_append_right _ (mem_take_of_le hbehind hlast hx hle)

/-- What is read in the end: in order, so nothing twice, with every row that was there from the start. -/
theorem Read.collect (hr : Read key rows k after all) (hg : Growing key rows) (hn : 0 < n)
    (h : collect key n rows fuel k after all = some found) :
    (found.Pairwise fun a b => key a < key b) ∧ rows 0 ⊆ found ∧ ∀ x ∈ found, ∃ j < k + fuel, x ∈ rows j := by
  induction fuel generalizing k after all with
  | zero => cases h
  | succ fuel ih =>
    simp only [Paging.collect] at h
    split at h
    · rename_i hmore
      obtain ⟨hs, hsub, hsound⟩ := ih (hr.page hg hn hmore) h
      refine ⟨hs, hsub, fun x hx => ?_⟩
      obtain ⟨j, hj, hxj⟩ := hsound x hx
      exact ⟨j, by omega, hxj⟩
    · cases h
      refine ⟨hr.sorted_append hg, fun x hx => List.mem_append.2 (hr.mem_or_behind hg hx), fun x hx => ?_⟩
      rcases List.mem_append.1 hx with hx | hx
      · obtain ⟨j, hj, hxj⟩ := hr.sound x hx
        exact ⟨j, by omega, hxj⟩
      · exact ⟨k, by omega, (mem_behind.1 hx).1⟩

/-- The loop ends when no more rows are added than `total` has, for each page but the last reads one. -/
theorem Read.exists_collect (hr : Read key rows k after all) (hg : Growing key rows) (hn : 0 < n) {total : List α}
    (htotal : ∀ j, rows j ⊆ total) (hfuel : total.length < fuel + all.length) :
    ∃ found, Paging.collect key n rows fuel k after all = some found := by
  induction fuel generalizing k after all with
  | zero =>
    have hnodup : all.Nodup := hr.sorted.imp fun hlt heq => absurd hlt (by rw [heq]; exact lt_irrefl _)
    have hle := (hnodup.subperm fun x hx => by
      obtain ⟨j, -, hxj⟩ := hr.sound x hx
      exact htotal j hxj).length_le
    omega
  | succ fuel ih =>
    simp only [Paging.collect]
    split
    · rename_i hmore
      refine ih (hr.page hg hn hmore) ?_
      rw [List.length_append, List.length_take]
      omega
    · exact ⟨_, rfl⟩

end Paging
