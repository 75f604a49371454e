/-
Grouping partitions the batch: the groups have pairwise distinct keys, each group is the
subsequence of the messages with its key, and every message is in the group of its key.
-/
import SagaProofs.Kafka.Batch
import Mathlib.Data.List.Sigma

namespace Saga.Kafka

variable {Buffer : Type}

/-! ## Positions -/

theorem mem_entries {batch : Batch Buffer} {e : Entry Buffer} :
    e ∈ batch.entries ↔ batch.messages[e.2]? = some e.1 := List.mem_zipIdx_iff_getElem?

theorem entries_positions (batch : Batch Buffer) : batch.entries.map Prod.snd = List.range batch.messages.length := by
  unfold Batch.entries; rw [List.zipIdx_map_snd, ← List.range_eq_range']

theorem entry_ext {batch : Batch Buffer} {e f : Entry Buffer} (he : e ∈ batch.entries) (hf : f ∈ batch.entries)
    (h : e.2 = f.2) : e = f := by
  have h1 := mem_entries.1 he
  rw [h, mem_entries.1 hf] at h1
  exact Prod.ext (Option.some.inj h1).symm h

/-- The entries are in the order of their positions. -/
theorem entries_sorted (batch : Batch Buffer) : batch.entries.Pairwise fun e f => e.2 < f.2 := by
  have h : (batch.entries.map Prod.snd).Pairwise (· < ·) := by
    rw [entries_positions]; exact List.pairwise_lt_range
  exact List.pairwise_map.1 h

theorem offsets_getElem? {batch : Batch Buffer} {i : ℕ} {o : String} :
    batch.offsets[i]? = some o ↔ ∃ e ∈ batch.entries, e.2 = i ∧ e.1.offset = o := by
  unfold Batch.offsets
  rw [List.getElem?_map, Option.map_eq_some_iff]
  constructor
  · rintro ⟨m, hm, ho⟩; exact ⟨(m, i), mem_entries.2 hm, rfl, ho⟩
  · rintro ⟨e, he, rfl, ho⟩; exact ⟨e.1, mem_entries.1 he, ho⟩

/-! ## One message joins its group -/

section Grouping

variable (str : Buffer → String)

theorem lookup_addToGroup (key k : String) (e : Entry Buffer) :
    ∀ groups, (addToGroup key e groups).lookup k =
      if k = key then some ((groups.lookup key).getD [] ++ [e]) else groups.lookup k
  | [] => by
    by_cases hk : k = key
    · simp [addToGroup, hk]
    · simp [addToGroup, List.lookup_cons, beq_eq_false_iff_ne.2 hk, hk]
  | (k', es) :: rest => by
    have ih := lookup_addToGroup key k e rest
    unfold addToGroup
    by_cases hk' : k' = key
    · subst hk'
      rw [if_pos rfl]
      by_cases hk : k = k'
      · simp [hk]
      · simp [List.lookup_cons, beq_eq_false_iff_ne.2 hk, hk]
    · rw [if_neg hk', List.lookup_cons, ih]
      by_cases hk : k = key
      · subst hk
        simp [List.lookup_cons, beq_eq_false_iff_ne.2 (Ne.symm hk')]
      · simp [List.lookup_cons, hk]

theorem keys_addToGroup (key : String) (e : Entry Buffer) :
    ∀ groups, (addToGroup key e groups).map Prod.fst =
      if key ∈ groups.map Prod.fst then groups.map Prod.fst else groups.map Prod.fst ++ [key]
  | [] => by simp [addToGroup]
  | (k', es) :: rest => by
    have ih := keys_addToGroup key e rest
    unfold addToGroup
    by_cases hk' : k' = key
    · subst hk'; simp
    · rw [if_neg hk', List.map_cons, ih]
      by_cases hm : key ∈ rest.map Prod.fst
      · simp [hm]
      · simp [hm, Ne.symm hk']

/-- What the groups of a list of entries are. -/
structure GroupsOf (es : List (Entry Buffer)) (groups : List (String × List (Entry Buffer))) : Prop where
  keys : (groups.map Prod.fst).Nodup
  lists : ∀ k, (groups.lookup k).getD [] = es.filter (groupKey str ·.1 = k)
  mem : ∀ e ∈ es, groupKey str e.1 ∈ groups.map Prod.fst

theorem GroupsOf.add {es : List (Entry Buffer)} {groups : List (String × List (Entry Buffer))}
    (h : GroupsOf str es groups) (e : Entry Buffer) :
    GroupsOf str (es ++ [e]) (addToGroup (groupKey str e.1) e groups) := by
  refine ⟨?_, fun k => ?_, fun f hf => ?_⟩
  · rw [keys_addToGroup]
    split
    · exact h.keys
    · rename_i hk
      rw [List.nodup_append]
      refine ⟨h.keys, List.nodup_singleton _, fun a ha b hb hab => ?_⟩
      rw [List.mem_singleton] at hb
      subst hb hab
      exact hk ha
  · rw [lookup_addToGroup, List.filter_append]
    by_cases hk : k = groupKey str e.1
    · subst hk; simp [h.lists]
    · simp [hk, Ne.symm hk, h.lists]
  · rw [keys_addToGroup]
    rcases List.mem_append.1 hf with hf | hf
    · have := h.mem f hf
      split
      · exact this
      · exact List.mem_append_left _ this
    · rw [List.mem_singleton] at hf
      subst hf
      split
      · assumption
      · simp

theorem groupsOf_foldl : ∀ (es done : List (Entry Buffer)) (groups : List (String × List (Entry Buffer))),
    GroupsOf str done groups →
      GroupsOf str (done ++ es) (es.foldl (fun gs e => addToGroup (groupKey str e.1) e gs) groups)
  | [], done, groups, h => by simpa using h
  | e :: es, done, groups, h => by
    have := groupsOf_foldl es (done ++ [e]) _ (h.add str e)
    simpa using this

theorem batch_groupsOf (batch : Batch Buffer) : GroupsOf str batch.entries (batch.groups str) := by
  have h0 : GroupsOf str ([] : List (Entry Buffer)) [] := ⟨List.nodup_nil, by simp, by simp⟩
  simpa [Batch.groups, groupMessages] using groupsOf_foldl str batch.entries [] [] h0

/-! ## The groups of a batch -/

theorem lookup_of_getElem? {groups : List (String × List (Entry Buffer))} (hn : (groups.map Prod.fst).Nodup)
    {g : ℕ} {p : String × List (Entry Buffer)} (h : groups[g]? = some p) : groups.lookup p.1 = some p.2 := by
  obtain ⟨l, r, rfl⟩ := List.append_of_mem (List.mem_of_getElem? h)
  refine List.lookup_eq_some_iff.2 ⟨l, r, rfl, fun q hq => ?_⟩
  simp only [List.map_append, List.map_cons] at hn
  have := (List.nodup_append.1 hn).2.2 q.1 (List.mem_map_of_mem hq) p.1 (by simp)
  simpa using Ne.symm this

variable {str} {batch : Batch Buffer} {g : ℕ} {p : String × List (Entry Buffer)}

/-- A group is the subsequence of the batch with its key. -/
theorem group_eq_filter (h : (batch.groups str)[g]? = some p) :
    p.2 = batch.entries.filter (groupKey str ·.1 = p.1) := by
  have hG := batch_groupsOf str batch
  have := hG.lists p.1
  rwa [lookup_of_getElem? hG.keys h, Option.getD_some] at this

theorem mem_group (h : (batch.groups str)[g]? = some p) {e : Entry Buffer} :
    e ∈ p.2 ↔ e ∈ batch.entries ∧ groupKey str e.1 = p.1 := by
  rw [group_eq_filter h, List.mem_filter, decide_eq_true_iff]

theorem group_sorted (h : (batch.groups str)[g]? = some p) : p.2.Pairwise fun e f => e.2 < f.2 := by
  rw [group_eq_filter h]; exact (entries_sorted batch).filter _

theorem group_positions_nodup (h : (batch.groups str)[g]? = some p) : (p.2.map Prod.snd).Nodup :=
  List.pairwise_map.2 ((group_sorted h).imp fun hlt => Nat.ne_of_lt hlt)

variable (str) in
/-- Every message is in the group of its key. -/
theorem exists_group {e : Entry Buffer} (he : e ∈ batch.entries) :
    ∃ (g : ℕ) (p : String × List (Entry Buffer)), (batch.groups str)[g]? = some p ∧ e ∈ p.2 := by
  obtain ⟨p, hp, hk⟩ := List.mem_map.1 ((batch_groupsOf str batch).mem e he)
  obtain ⟨g, hg⟩ := List.mem_iff_getElem?.1 hp
  exact ⟨g, p, hg, (mem_group hg).2 ⟨he, hk.symm⟩⟩

/-- No group of a batch is empty of messages that another one has. -/
theorem group_disjoint {g' : ℕ} {p' : String × List (Entry Buffer)} (h : (batch.groups str)[g]? = some p)
    (h' : (batch.groups str)[g']? = some p') {e f : Entry Buffer} (he : e ∈ p.2) (hf : f ∈ p'.2)
    (hef : e.2 = f.2) : g = g' := by
  obtain ⟨he1, he2⟩ := (mem_group h).1 he
  obtain ⟨hf1, hf2⟩ := (mem_group h').1 hf
  obtain rfl := entry_ext he1 hf1 hef
  have hk : p.1 = p'.1 := he2.symm.trans hf2
  have hn := (batch_groupsOf str batch).keys
  have hlt : g < ((batch.groups str).map Prod.fst).length := by
    rw [List.length_map]; exact (List.getElem?_eq_some_iff.1 h).1
  refine (List.getElem?_inj hlt hn).1 ?_
  rw [List.getElem?_map, List.getElem?_map, h, h', Option.map_some, Option.map_some, hk]

end Grouping

end Saga.Kafka
