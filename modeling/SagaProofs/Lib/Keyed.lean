/-
Folds over records with a key, seen at one key, and tables by primary key that are written row by row
(`INSERT … ON CONFLICT DO UPDATE` or `DO NOTHING`): what a key holds depends on the records of that key
alone. Of records with one key the first is kept by the one and by the list of first occurrences.
-/
import Mathlib.Algebra.GroupWithZero.Nat
import Mathlib.Data.Finmap
import Mathlib.Data.List.Sort

namespace Keyed

variable {α δ κ ρ σ τ : Type*} [DecidableEq κ]

/-! ## Folds -/

/-- A fold whose steps change what is seen at `k` only with the elements of key `k`. -/
theorem foldl_at {key : α → κ} {k : κ} (see : σ → τ) {f : σ → α → σ} {g : τ → α → τ}
    (h : ∀ s a, see (f s a) = if key a = k then g (see s) a else see s) (l : List α) (s : σ) :
    see (l.foldl f s) = (l.filter (key · = k)).foldl g (see s) := by
  rw [List.foldl_filter]
  symm
  apply List.foldl_hom
  intro s a
  rw [h]
  simp

/-! ## Sums over records -/

section Sum

variable (f : ρ → ℕ)

theorem sum_kerase (k : κ) : ∀ {l : List (Sigma fun _ : κ => ρ)}, l.NodupKeys →
    ((l.kerase k).map fun e => f e.2).sum + ((l.dlookup k).map f).getD 0 = (l.map fun e => f e.2).sum
  | [], _ => rfl
  | e :: l, h => by
    rw [List.nodupKeys_cons] at h
    by_cases hk : k = e.1
    · subst hk
      rw [List.kerase_cons_eq rfl, List.dlookup_cons_eq, List.map_cons, List.sum_cons, Nat.add_comm]
      rfl
    · have ih := sum_kerase k h.2
      rw [List.kerase_cons_ne hk, List.dlookup_cons_ne l e hk, List.map_cons, List.map_cons, List.sum_cons,
        List.sum_cons, ← ih, Nat.add_assoc]

/-- A record that is set adds what it has and takes away what the record of its key had. -/
theorem sum_insert (s : AList fun _ : κ => ρ) (k : κ) (r : ρ) :
    ((s.insert k r).entries.map fun e => f e.2).sum + ((s.lookup k).map f).getD 0 =
      (s.entries.map fun e => f e.2).sum + f r := by
  have h := sum_kerase f k s.nodupKeys
  rw [AList.entries_insert, List.map_cons, List.sum_cons]
  show f r + ((s.entries.kerase k).map fun e => f e.2).sum + ((s.entries.dlookup k).map f).getD 0 = _
  omega

end Sum

/-! ## Tables -/

/-- A table by primary key. -/
abbrev Table (κ ρ : Type*) := Finmap fun _ : κ => ρ

/-- The record of a key is changed, if there is one. -/
def modify (t : Table κ ρ) (k : κ) (f : ρ → ρ) : Table κ ρ :=
  match t.lookup k with
  | some r => t.insert k (f r)
  | none => t

theorem lookup_modify (t : Table κ ρ) (k : κ) (f : ρ → ρ) (k' : κ) :
    (modify t k f).lookup k' = if k' = k then (t.lookup k').map f else t.lookup k' := by
  unfold modify
  by_cases hk : k' = k
  · subst hk
    rw [if_pos rfl]
    cases h : t.lookup k' with
    | none => exact h
    | some r => exact Finmap.lookup_insert t
  · rw [if_neg hk]
    cases t.lookup k with
    | none => rfl
    | some r => exact Finmap.lookup_insert_of_ne t hk

section Upsert

variable (key : δ → κ) (merge : Option ρ → δ → ρ)

/-- One row is written: `merge` says what becomes of the row that is there, if there is one. -/
def upsert (t : Table κ ρ) (d : δ) : Table κ ρ := t.insert (key d) (merge (t.lookup (key d)) d)

def upsertAll (t : Table κ ρ) (ds : List δ) : Table κ ρ := ds.foldl (upsert key merge) t

variable {key merge}

theorem lookup_upsert (t : Table κ ρ) (d : δ) (k : κ) :
    (upsert key merge t d).lookup k = if key d = k then some (merge (t.lookup k) d) else t.lookup k := by
  unfold upsert
  split
  · rename_i h
    subst h
    exact Finmap.lookup_insert t
  · rename_i h
    exact Finmap.lookup_insert_of_ne t (Ne.symm h)

theorem lookup_upsertAll (t : Table κ ρ) (ds : List δ) (k : κ) :
    (upsertAll key merge t ds).lookup k =
      (ds.filter (key · = k)).foldl (fun stored d => some (merge stored d)) (t.lookup k) :=
  foldl_at (fun t : Table κ ρ => t.lookup k) (fun t d => lookup_upsert t d k) ds t

theorem filter_key_of_notMem {ds : List δ} {k : κ} (h : k ∉ ds.map key) : ds.filter (key · = k) = [] := by
  rw [List.filter_eq_nil_iff]
  intro d hd hk
  exact h (List.mem_map.2 ⟨d, hd, by simpa using hk⟩)

theorem filter_key_of_mem : ∀ {ds : List δ}, (ds.map key).Nodup → ∀ {d : δ}, d ∈ ds → ds.filter (key · = key d) = [d]
  | x :: ds, hn, d, hd => by
    rw [List.map_cons, List.nodup_cons] at hn
    rcases List.mem_cons.1 hd with rfl | hd
    · rw [List.filter_cons_of_pos (by simp), filter_key_of_notMem hn.1]
    · have hne : key x ≠ key d := fun h => hn.1 (h ▸ List.mem_map_of_mem hd)
      rw [List.filter_cons_of_neg (by simpa using hne), filter_key_of_mem hn.2 hd]

theorem lookup_upsertAll_of_notMem {t : Table κ ρ} {ds : List δ} {k : κ} (h : k ∉ ds.map key) :
    (upsertAll key merge t ds).lookup k = t.lookup k := by
  rw [lookup_upsertAll, filter_key_of_notMem h, List.foldl_nil]

/-- Rows of distinct keys are written each by itself. -/
theorem lookup_upsertAll_of_mem {t : Table κ ρ} {ds : List δ} (hn : (ds.map key).Nodup) {d : δ} (hd : d ∈ ds) :
    (upsertAll key merge t ds).lookup (key d) = some (merge (t.lookup (key d)) d) := by
  rw [lookup_upsertAll, filter_key_of_mem hn hd, List.foldl_cons, List.foldl_nil]

/-- The order in which rows of distinct keys are written does not matter. -/
theorem upsertAll_perm {t : Table κ ρ} {ds ds' : List δ} (hp : ds.Perm ds') (hn : (ds.map key).Nodup) :
    upsertAll key merge t ds = upsertAll key merge t ds' := by
  apply Finmap.ext_lookup
  intro k
  by_cases hk : k ∈ ds.map key
  · obtain ⟨d, hd, rfl⟩ := List.mem_map.1 hk
    rw [lookup_upsertAll_of_mem hn hd, lookup_upsertAll_of_mem ((hp.map key).nodup_iff.1 hn) (hp.mem_iff.1 hd)]
  · rw [lookup_upsertAll_of_notMem hk, lookup_upsertAll_of_notMem fun h => hk ((hp.map key).mem_iff.2 h)]

theorem upsertAll_append (t : Table κ ρ) (ds ds' : List δ) :
    upsertAll key merge t (ds ++ ds') = upsertAll key merge (upsertAll key merge t ds) ds' := List.foldl_append

end Upsert

/-! ## Rows that are inserted once -/

section Insert

variable {key : ρ → κ}

/-- `INSERT … ON CONFLICT DO NOTHING`, row by row. -/
abbrev insertAll (key : ρ → κ) : Table κ ρ → List ρ → Table κ ρ := upsertAll key fun stored d => stored.getD d

/-- A key holds the row it held, or else the first that is inserted under it. -/
theorem lookup_insertAll (t : Table κ ρ) (ds : List ρ) (k : κ) :
    (insertAll key t ds).lookup k = (t.lookup k).or (ds.filter (key · = k)).head? := by
  rw [lookup_upsertAll]
  generalize ds.filter (key · = k) = l
  induction l generalizing t with
  | nil => simp
  | cons d l ih =>
    rw [List.foldl_cons]
    cases h : t.lookup k with
    | none =>
      have := ih (t.insert k d)
      rw [Finmap.lookup_insert] at this
      exact this
    | some row =>
      have := ih t
      rw [h] at this
      exact this

theorem mem_insertAll {t : Table κ ρ} {ds : List ρ} {k : κ} :
    k ∈ insertAll key t ds ↔ k ∈ t ∨ k ∈ ds.map key := by
  rw [← Finmap.lookup_isSome, lookup_insertAll, Option.isSome_or, Bool.or_eq_true, Finmap.lookup_isSome]
  refine or_congr Iff.rfl ?_
  rw [List.isSome_head?, Ne, List.filter_eq_nil_iff]
  simp

/-- The number of rows with `p`. -/
def count (p : ρ → Prop) [DecidablePred p] (t : Table κ ρ) : ℕ := t.entries.countP fun e => p e.2

variable {p : ρ → Prop} [DecidablePred p]

theorem count_insert {t : Table κ ρ} (d : ρ) :
    count p (upsert key (fun stored d => stored.getD d) t d) = count p t + if key d ∉ t ∧ p d then 1 else 0 := by
  unfold upsert
  by_cases hk : key d ∈ t
  · obtain ⟨row, hrow⟩ := Finmap.mem_iff.1 hk
    have hsame : t.insert (key d) ((t.lookup (key d)).getD d) = t := by
      rw [hrow]
      apply Finmap.ext_lookup
      intro k
      by_cases h : k = key d
      · rw [h, Option.getD_some, Finmap.lookup_insert, hrow]
      · rw [Finmap.lookup_insert_of_ne t h]
    rw [hsame, if_neg fun h => h.1 hk, Nat.add_zero]
  · unfold count
    rw [Finmap.lookup_eq_none.2 hk, Finmap.entries_insert_of_notMem hk, Multiset.countP_cons]
    simp [hk]

/-- The rows with `p` grow by those that are inserted, and no more than by those that are to be inserted; by
all of them exactly when each has a key that neither the table nor a row before it has. -/
theorem count_insertAll (key : ρ → κ) (p : ρ → Prop) [DecidablePred p] : ∀ (ds : List ρ) (t : Table κ ρ),
    count p (insertAll key t ds) ≤ count p t + ds.countP p ∧
      (count p (insertAll key t ds) = count p t + ds.countP p ↔
        (∀ d ∈ ds, p d → key d ∉ t) ∧ ds.Pairwise fun d d' => p d' → key d ≠ key d')
  | [], t => by simp [insertAll, upsertAll]
  | d :: ds, t => by
    have hcons : insertAll key t (d :: ds) = insertAll key (upsert key (fun stored d => stored.getD d) t d) ds := rfl
    obtain ⟨hle, heq⟩ := count_insertAll key p ds (upsert key (fun stored d => stored.getD d) t d)
    rw [← hcons, count_insert] at hle heq
    have hmem : ∀ k, k ∉ upsert key (fun stored d => stored.getD d) t d ↔ key d ≠ k ∧ k ∉ t := by
      intro k
      unfold upsert
      rw [Finmap.mem_insert, not_or, ne_comm]
    -- the row counts when it is inserted, and then the others have to
    have hone : (if key d ∉ t ∧ p d then 1 else 0) ≤ (if p d then 1 else 0) ∧
        ((if key d ∉ t ∧ p d then 1 else 0) = (if p d then 1 else 0) ↔ (p d → key d ∉ t)) := by
      by_cases hp : p d
      · by_cases hk : key d ∈ t <;> simp [hp, hk]
      · simp [hp]
    have hrest : ((∀ d' ∈ ds, p d' → key d' ∉ upsert key (fun stored d => stored.getD d) t d) ∧
        ds.Pairwise fun d d' => p d' → key d ≠ key d') ↔
        (∀ d' ∈ ds, p d' → key d' ∉ t) ∧ (∀ d' ∈ ds, p d' → key d ≠ key d') ∧
          ds.Pairwise fun d d' => p d' → key d ≠ key d' := by
      simp only [hmem]
      constructor
      · rintro ⟨h, hp⟩
        exact ⟨fun d' hd hpd => (h d' hd hpd).2, fun d' hd hpd => (h d' hd hpd).1, hp⟩
      · rintro ⟨h, h', hp⟩
        exact ⟨fun d' hd hpd => ⟨h' d' hd hpd, h d' hd hpd⟩, hp⟩
    rw [hrest] at heq
    rw [List.countP_cons, List.forall_mem_cons, List.pairwise_cons, and_assoc, ← hone.2, ← heq]
    simp only [decide_eq_true_eq] at *
    omega

end Insert

/-! ## First occurrences -/

section Firsts

variable {key : α → κ}

/-- The elements whose key does not occur before them. -/
def firsts (key : α → κ) : List α → List α
  | [] => []
  | a :: l => a :: (firsts key l).filter (key · ≠ key a)

theorem firsts_sublist : ∀ l : List α, (firsts key l).Sublist l
  | [] => .slnil
  | a :: l => .cons_cons a (List.filter_sublist.trans (firsts_sublist l))

theorem mem_of_mem_firsts {l : List α} {a : α} (h : a ∈ firsts key l) : a ∈ l := (firsts_sublist l).subset h

/-- Every key occurs. -/
theorem exists_firsts : ∀ {l : List α} {a : α}, a ∈ l → ∃ b ∈ firsts key l, key b = key a
  | b :: l, a, h => by
    by_cases hk : key b = key a
    · exact ⟨b, .head _, hk⟩
    · rcases List.mem_cons.1 h with rfl | h
      · exact absurd rfl hk
      · obtain ⟨c, hc, hca⟩ := exists_firsts h
        exact ⟨c, .tail _ (List.mem_filter.2 ⟨hc, by simpa [hca] using Ne.symm hk⟩), hca⟩

theorem mem_map_firsts {l : List α} {k : κ} : k ∈ (firsts key l).map key ↔ k ∈ l.map key := by
  constructor
  · intro h
    obtain ⟨a, ha, rfl⟩ := List.mem_map.1 h
    exact List.mem_map_of_mem (mem_of_mem_firsts ha)
  · intro h
    obtain ⟨a, ha, rfl⟩ := List.mem_map.1 h
    have hfirst : ∃ b ∈ firsts key l, key b = key a := exists_firsts ha
    obtain ⟨b, hb, hk⟩ := hfirst
    exact hk ▸ List.mem_map_of_mem hb

theorem nodup_firsts (l : List α) : ((firsts key l).map key).Nodup := by
  induction l with
  | nil => exact List.nodup_nil
  | cons a l ih =>
    rw [firsts, List.map_cons, List.nodup_cons]
    refine ⟨fun h => ?_, ih.sublist (List.filter_sublist.map key)⟩
    obtain ⟨b, hb, hk⟩ := List.mem_map.1 h
    simpa [hk] using (List.mem_filter.1 hb).2

/-- An element is added behind the others when its key is new. -/
theorem firsts_snoc (a : α) : ∀ l : List α,
    firsts key (l ++ [a]) = if key a ∈ l.map key then firsts key l else firsts key l ++ [a]
  | [] => rfl
  | b :: l => by
    rw [List.cons_append, firsts, firsts_snoc a l, firsts]
    by_cases hk : key a = key b
    · simp only [List.map_cons, List.mem_cons, hk, true_or, if_true]
      split
      · rfl
      · rw [List.filter_append]
        simp [hk]
    · simp only [List.map_cons, List.mem_cons, hk, false_or]
      split
      · rfl
      · rw [List.filter_append]
        simp [hk]

/-- A condition on the keys can be applied before or after. -/
theorem firsts_filter {q : α → Bool} : ∀ {l : List α},
    (∀ a ∈ l, ∀ b ∈ l, key a = key b → q a = q b) → firsts key (l.filter q) = (firsts key l).filter q
  | [], _ => rfl
  | a :: l, h => by
    have hrest : firsts key (l.filter q) = (firsts key l).filter q :=
      firsts_filter fun b hb c hc => h b (.tail _ hb) c (.tail _ hc)
    by_cases hq : q a = true
    · rw [List.filter_cons_of_pos hq, firsts, firsts, List.filter_cons_of_pos hq, hrest, List.filter_filter,
        List.filter_filter]
      simp only [Bool.and_comm]
    · rw [List.filter_cons_of_neg hq, firsts, List.filter_cons_of_neg hq, hrest, List.filter_filter]
      -- an element with the key of `a` is not kept either
      refine (List.filter_congr fun b hb => ?_)
      by_cases hk : key b = key a
      · have : q b = q a := h b (.tail _ (mem_of_mem_firsts hb)) a (.head _) hk
        simp [this, hq]
      · simp [hk]

end Firsts

end Keyed
