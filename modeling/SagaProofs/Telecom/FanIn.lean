/-
What the runs of the bulk activation keep: how often the end of a bulk is published follows from the lines that were
counted, whatever is handled again or lost, and all lines of a bulk are counted exactly when none of them ends before
the record is created.
-/
import SagaProofs.Telecom.Lines

namespace Saga.BulkActivation

open Keyed Lts Tasks

/-! ## What a run keeps of a bulk -/

section Kept

variable {bulkId : String} {b : Bulk} {c : Activation} {n : ℕ} {kept : Prop}

/-- Nothing is of the bulk. -/
structure Untouched (bulkId : String) (c : Activation) : Prop where
  tasks : ∀ t ∈ c.tasks, t.bulk ≠ bulkId
  record : c.state.records.lookup bulkId = none
  completions : c.state.completions bulkId = []

/-- What is of the bulk is as its request has it, the record is created once, and the end of the bulk was published
with each line that was counted from the last one on. -/
structure Tracked (bulkId : String) (b : Bulk) (c : Activation) : Prop where
  valid : b.Valid
  tasks : ∀ t ∈ c.tasks, t.Of bulkId b
  created : c.tasks.countP (·.isCreate bulkId) + (c.state.records.lookup bulkId).toList.length ≤ 1
  counted : (c.state.records.lookup bulkId = none ∧ c.state.completions bulkId = []) ∨
    ∃ k, c.state.records.lookup bulkId = some (b.record k) ∧
      c.state.completions bulkId = List.replicate (b.surplus k) (b.completion bulkId)

/-- The record is there or about to be created, and each line is yet to end, counted, or ended early. -/
structure Balanced (bulkId : String) (b : Bulk) (early : ℕ) (c : Activation) : Prop where
  created : c.tasks.countP (·.isCreate bulkId) + (c.state.records.lookup bulkId).toList.length = 1
  lines : (c.tasks.map (·.lines bulkId)).sum +
    ((c.state.records.lookup bulkId).map (·.completedLines)).getD 0 + early = lineCount (jsonNumber b.lines)

theorem Tracked.records (hk : Tracked bulkId b c) (record : BulkActivationRecord)
    (h : c.state.records.lookup bulkId = some record) : ∃ k, record = b.record k := by
  rcases hk.counted with ⟨hnone, -⟩ | ⟨k, hsome, -⟩
  · rw [hnone] at h; cases h
  · rw [hsome] at h; cases h; exact ⟨k, rfl⟩

section Task

variable {t : Task} {db' : Stores} {out : List Task} {left : Multiset Task}

variable (left) in
theorem countP_isCreate (hout : ∀ t ∈ out, t.isCreate bulkId = false) :
    (left + (out : Multiset Task)).countP (·.isCreate bulkId) = left.countP (·.isCreate bulkId) := by
  rw [Multiset.countP_add, Multiset.coe_countP]
  refine Nat.add_eq_left.2 (List.countP_eq_zero.2 fun t ht => ?_)
  simp [hout t ht]

theorem Effect.out_isCreate {db : Stores} (he : Effect bulkId b db t db' out) : ∀ t' ∈ out, t'.isCreate bulkId = false := by
  cases he with
  | pass _ _ _ hcreate _ _ => exact fun t' ht' => hcreate t' (List.mem_cons_of_mem _ ht')
  | early | create => exact List.forall_mem_nil _
  | count _ _ _ _ hout =>
    intro t' ht'
    rw [hout t' ht']
    rfl

/-- A line ends at an event. -/
theorem isCreate_of_isLine (h : t.isLine bulkId = true) : t.isCreate bulkId = false := by
  cases t with
  | event => rfl
  | _ => cases h

theorem lines_of_isLine (h : t.isLine bulkId = true) : t.lines bulkId = 1 := by
  cases t with
  | event e =>
    obtain ⟨sagaId, root, parent, chain, hint, payload⟩ := e
    cases payload with
    | lineCompleted id index number => exact if_pos (of_decide_eq_true h)
    | _ => cases h
  | _ => cases h

theorem lines_completion (b : Bulk) (bulkId : String) : (Task.event (b.completion bulkId)).lines bulkId = 0 :=
  if_pos rfl

/-- A task of another bulk is handled. -/
theorem Untouched.handle {input : Input} (hu : Untouched bulkId c) (h : segment input c.state t = some (db', out))
    (ht : t ∈ c.tasks) (hleft : ∀ x ∈ left, x ∈ c.tasks) :
    Untouched bulkId ⟨db', left + out⟩ ∧
      0 + (if t.isLine bulkId && (c.state.records.lookup bulkId).isNone then 1 else 0) = 0 := by
  have hne := hu.tasks t ht
  obtain ⟨hrecord, hcompletions, hout⟩ := segment_other h hne
  refine ⟨⟨fun x hx => ?_, hrecord.trans hu.record, hcompletions.trans hu.completions⟩, by simp [isLine_of_ne hne]⟩
  rcases Multiset.mem_add.1 hx with hx | hx
  · exact hu.tasks x (hleft x hx)
  · exact hout x (Multiset.mem_coe.1 hx)

/-- A task is handled, and what it was handled for may stay to be handled again. -/
theorem Tracked.effect (hk : Tracked bulkId b c) (he : Effect bulkId b c.state t db' out) (ht : t ∈ c.tasks)
    (hleft : ∀ x ∈ left, x ∈ c.tasks)
    (hcreates : left.countP (·.isCreate bulkId) + (if t.isCreate bulkId then 1 else 0) ≤
      c.tasks.countP (·.isCreate bulkId)) : Tracked bulkId b ⟨db', left + out⟩ := by
  have hcount := countP_isCreate left he.out_isCreate
  have hcreated := hk.created
  have htasks : (∀ t' ∈ out, t'.Of bulkId b) → ∀ x ∈ left + (out : Multiset Task), x.Of bulkId b := by
    intro hout x hx
    rcases Multiset.mem_add.1 hx with hx | hx
    · exact hk.tasks x (hleft x hx)
    · exact hout x (Multiset.mem_coe.1 hx)
  cases he with
  | pass hrecord hcompletions hof hcreate _ _ =>
    refine ⟨hk.valid, htasks hof, ?_, ?_⟩
    · dsimp only
      rw [hcount, hrecord]
      omega
    · dsimp only
      rw [hrecord, hcompletions]
      exact hk.counted
  | early hline hnone =>
    have hnone' : (c.state.incrementCompleted bulkId).records.lookup bulkId = none := by
      rw [lookup_incrementCompleted, if_pos rfl, hnone]
      rfl
    refine ⟨hk.valid, htasks (List.forall_mem_nil _), ?_, .inl ⟨hnone', ?_⟩⟩
    · dsimp only
      rw [hcount, hnone']
      rw [hnone] at hcreated
      omega
    · rcases hk.counted with ⟨-, h⟩ | ⟨k, hsome, -⟩
      · exact h
      · rw [hnone] at hsome; cases hsome
  | @count _ _ _ k hline hrecord hrecord' hcompletions hout =>
    refine ⟨hk.valid, htasks fun t' ht' => ?_, ?_, .inr ⟨k + 1, hrecord', ?_⟩⟩
    · rw [hout t' ht']
      exact fun _ => rfl
    · dsimp only
      rw [hcount, hrecord']
      rw [hrecord] at hcreated
      exact le_trans (Nat.add_le_add_right (le_trans (Nat.le_add_right _ _) hcreates) _) hcreated
    · rcases hk.counted with ⟨hnone, -⟩ | ⟨k', hsome, hreplicate⟩
      · rw [hrecord] at hnone; cases hnone
      · have hkk : k' = k := by
          rw [hrecord] at hsome
          exact congrArg BulkActivationRecord.completedLines (Option.some.inj hsome).symm
        subst hkk
        rw [hcompletions, hreplicate, b.surplus_succ, List.replicate_add]
        congr 1
        split <;> rfl
  | create sagaId lines =>
    rw [Task.isCreate, if_pos (by simp)] at hcreates
    obtain ⟨hsaga, hlines⟩ := hk.tasks _ ht rfl
    have hnone : c.state.records.lookup bulkId = none := by
      cases h : c.state.records.lookup bulkId with
      | none => rfl
      | some r =>
        rw [h] at hcreated
        simp only [Option.toList_some, List.length_singleton] at hcreated
        omega
    refine ⟨hk.valid, htasks (List.forall_mem_nil _), ?_, .inr ⟨0, ?_, ?_⟩⟩
    · dsimp only
      rw [hcount, Stores.create, Finmap.lookup_insert]
      simp only [Option.toList_some, List.length_singleton]
      omega
    · rw [Stores.create, Finmap.lookup_insert, hsaga, hlines]
      have hzero : b.lines.le (.ofNat 0) = false := by
        rcases hk.valid.lines with h | ⟨n, hn, -, h⟩
        · rw [h]; rfl
        · rw [h, Number.ofNat_le_ofNat, decide_eq_false_iff_not]; omega
      simp [Bulk.record, hzero]
    · rcases hk.counted with ⟨-, h⟩ | ⟨k, hsome, -⟩
      · exact h
      · rw [hnone] at hsome; cases hsome

/-- A task is handled once. -/
theorem Balanced.effect (hb : Balanced bulkId b n c) (he : Effect bulkId b c.state t db' out) (ht : c.tasks = t ::ₘ left) :
    Balanced bulkId b (n + if t.isLine bulkId && (c.state.records.lookup bulkId).isNone then 1 else 0)
      ⟨db', left + out⟩ := by
  have hcount := countP_isCreate left he.out_isCreate
  have hsum : ((left + (out : Multiset Task)).map (·.lines bulkId)).sum =
      (left.map (·.lines bulkId)).sum + (out.map (·.lines bulkId)).sum := by
    rw [Multiset.map_add, Multiset.sum_add, Multiset.map_coe, Multiset.sum_coe]
  obtain ⟨hcreated, hlines⟩ := hb
  rw [ht, Multiset.countP_cons] at hcreated
  rw [ht, Multiset.map_cons, Multiset.sum_cons] at hlines
  cases he with
  | pass hrecord hcompletions hof hcreate hline hsame =>
    rw [hline, Bool.false_and, if_neg (by simp)]
    rw [if_neg (by simp [hcreate t (List.mem_cons_self ..)])] at hcreated
    refine ⟨?_, ?_⟩
    · dsimp only
      rw [hcount, hrecord]
      omega
    · dsimp only
      rw [hsum, hrecord, hsame]
      omega
  | early hline hnone =>
    have hnone' : (c.state.incrementCompleted bulkId).records.lookup bulkId = none := by
      rw [lookup_incrementCompleted, if_pos rfl, hnone]
      rfl
    rw [isCreate_of_isLine hline, if_neg Bool.false_ne_true] at hcreated
    rw [lines_of_isLine hline] at hlines
    rw [hline, hnone, Option.isNone_none, Bool.true_and, if_pos rfl]
    refine ⟨?_, ?_⟩
    · dsimp only
      rw [hcount, hnone']
      rw [hnone] at hcreated
      exact hcreated
    · dsimp only
      rw [hsum, hnone']
      rw [hnone] at hlines
      simp only [List.map_nil, List.sum_nil, Option.map_none, Option.getD_none] at hlines ⊢
      omega
  | @count _ _ _ k hline hrecord hrecord' hcompletions hout =>
    have hzero : (out.map (·.lines bulkId)).sum = 0 := by
      rw [List.sum_eq_zero_iff]
      intro m hm
      obtain ⟨t', ht', rfl⟩ := List.mem_map.1 hm
      rw [hout t' ht']
      exact lines_completion b bulkId
    rw [isCreate_of_isLine hline, if_neg Bool.false_ne_true] at hcreated
    rw [lines_of_isLine hline] at hlines
    rw [hrecord, Option.isNone_some, Bool.and_false, if_neg Bool.false_ne_true]
    refine ⟨?_, ?_⟩
    · dsimp only
      rw [hcount, hrecord']
      rw [hrecord] at hcreated
      exact hcreated
    · dsimp only
      rw [hsum, hzero, hrecord']
      rw [hrecord] at hlines
      simp only [Option.map_some, Option.getD_some, Bulk.record] at hlines ⊢
      omega
  | create sagaId lines =>
    have hisCreate : (Task.create bulkId sagaId lines).isCreate bulkId = true := decide_eq_true rfl
    have hnone : c.state.records.lookup bulkId = none := by
      cases h : c.state.records.lookup bulkId with
      | none => rfl
      | some r =>
        rw [h, hisCreate, if_pos rfl] at hcreated
        simp only [Option.toList_some, List.length_singleton] at hcreated
        omega
    have hline : (Task.create bulkId sagaId lines).isLine bulkId = false := rfl
    have hlines₀ : (Task.create bulkId sagaId lines).lines bulkId = 0 := if_pos rfl
    rw [hnone, hisCreate, if_pos rfl] at hcreated
    rw [hnone, hlines₀] at hlines
    rw [hline, Bool.false_and, if_neg Bool.false_ne_true]
    refine ⟨?_, ?_⟩
    · dsimp only
      rw [hcount, Stores.create, Finmap.lookup_insert]
      simp only [Option.toList_none, List.length_nil, Option.toList_some, List.length_singleton] at hcreated ⊢
      omega
    · dsimp only
      rw [hsum, Stores.create, Finmap.lookup_insert]
      simp only [List.map_nil, List.sum_nil, Option.map_none, Option.map_some, Option.getD_none,
        Option.getD_some] at hlines ⊢
      omega

end Task

/-! ### Requests -/

theorem linesOf_spec (param : Option String) :
    linesOf param = .nan ∨ ∃ n, 1 ≤ n ∧ n ≤ 10 ∧ linesOf param = .ofNat n :=
  Number.clamp_spec (Number.parseInt_whole _) (by omega)

/-- The bulk of a request. -/
def Request.asked (request : Request) : Bulk := ⟨request.sagaId, linesOf request.lines⟩

theorem enter_eq {request : Request} {db db' : Stores} {out : List Task} (h : enter request db = some (db', out)) :
    request.bulkId ∉ db.issued ∧ request.asked.Valid ∧
      db' = ⟨db.records, request.sagaId :: request.bulkId :: db.issued,
        db.published ++ [request.asked.request request.bulkId]⟩ ∧
      out = [.event (request.asked.request request.bulkId),
        .create request.bulkId request.asked.sagaId request.asked.lines] := by
  unfold enter TelecomController.triggerBulkActivation at h
  obtain ⟨db₁, h₁, h⟩ := Option.bind_eq_some_iff.1 h
  obtain ⟨db₂, h₂, h⟩ := Option.bind_eq_some_iff.1 h
  obtain ⟨-, hnew, rfl⟩ := issue_eq h₁
  obtain ⟨hsaga, -, rfl⟩ := issue_eq h₂
  cases h
  exact ⟨hnew, ⟨hsaga, linesOf_spec request.lines⟩, rfl, rfl⟩

/-- A request of another bulk. -/
theorem enter_other {request : Request} {db' : Stores} {out : List Task} (h : enter request c.state = some (db', out))
    (hne : request.bulkId ≠ bulkId) :
    db'.records.lookup bulkId = c.state.records.lookup bulkId ∧ db'.completions bulkId = c.state.completions bulkId ∧
      ∀ t ∈ out, t.bulk ≠ bulkId := by
  obtain ⟨-, -, rfl, rfl⟩ := enter_eq h
  refine ⟨rfl, completions_publish_of_ne rfl rfl, fun t ht => ?_⟩
  rcases List.mem_pair.1 ht with rfl | rfl <;> exact hne

theorem sum_lines_other {out : List Task} (hout : ∀ t ∈ out, t.bulk ≠ bulkId) :
    ((c.tasks + (out : Multiset Task)).map (·.lines bulkId)).sum = (c.tasks.map (·.lines bulkId)).sum := by
  rw [Multiset.map_add, Multiset.sum_add, Multiset.map_coe, Multiset.sum_coe]
  refine Nat.add_eq_left.2 (List.sum_eq_zero_iff.2 fun m hm => ?_)
  obtain ⟨t, ht, rfl⟩ := List.mem_map.1 hm
  exact if_neg (hout t ht)

/-- What the runs keep of a bulk. -/
def Inv (kept : Prop) (bulkId : String) (early : ℕ) (c : Activation) : Prop :=
  (Untouched bulkId c ∧ early = 0) ∨
    ∃ b, bulkId ∈ c.state.issued ∧ Tracked bulkId b c ∧ (kept → Balanced bulkId b early c)

theorem Inv.enter {request : Request} {db' : Stores} {out : List Task} (hi : Inv kept bulkId n c)
    (h : enter request c.state = some (db', out)) : Inv kept bulkId n ⟨db', c.tasks + out⟩ := by
  by_cases hid : request.bulkId = bulkId
  · subst hid
    obtain ⟨hnew, hvalid, hdb, hout⟩ := enter_eq h
    rcases hi with ⟨⟨htasks, hrecord, hcompletions⟩, rfl⟩ | ⟨b, hissued, -, -⟩
    swap
    · exact absurd hissued hnew
    have hrecord' : db'.records.lookup request.bulkId = none := by rw [hdb]; exact hrecord
    have hcreates : (c.tasks + (out : Multiset Task)).countP (·.isCreate request.bulkId) = 1 := by
      have hzero : c.tasks.countP (·.isCreate request.bulkId) = 0 :=
        Multiset.countP_eq_zero.2 fun t ht => by simp [isCreate_of_ne (htasks t ht)]
      rw [Multiset.countP_add, hzero, hout, Multiset.coe_countP]
      simp [Task.isCreate]
    refine .inr ⟨request.asked, by rw [hdb]; simp, ⟨hvalid, ?_, ?_, .inl ⟨hrecord', ?_⟩⟩, fun _ => ⟨?_, ?_⟩⟩
    · intro t ht
      rcases Multiset.mem_add.1 ht with ht | ht
      · exact Task.of_ne (htasks t ht)
      · rw [Multiset.mem_coe, hout] at ht
        rcases List.mem_pair.1 ht with rfl | rfl
        · exact fun _ => rfl
        · exact fun _ => ⟨rfl, rfl⟩
    · dsimp only
      rw [hcreates, hrecord']
      simp
    · rw [hdb]
      exact (completions_publish_of_ne rfl rfl).trans hcompletions
    · dsimp only
      rw [hcreates, hrecord']
      simp
    · dsimp only
      have hzero : (c.tasks.map (·.lines request.bulkId)).sum = 0 := by
        rw [Multiset.sum_eq_zero_iff]
        intro m hm
        obtain ⟨t, ht, rfl⟩ := Multiset.mem_map.1 hm
        exact if_neg (htasks t ht)
      rw [hrecord', Multiset.map_add, Multiset.sum_add, hzero, hout]
      simp [Multiset.map_coe, Multiset.sum_coe, Task.lines, Task.bulk, Bulk.request, Event.first, Payload.bulkId]
  · obtain ⟨hrecord, hcompletions, hout⟩ := enter_other h hid
    obtain ⟨-, -, hdb, -⟩ := enter_eq h
    have hcreates : (c.tasks + (out : Multiset Task)).countP (·.isCreate bulkId) = c.tasks.countP (·.isCreate bulkId) :=
      countP_isCreate _ fun t ht => isCreate_of_ne (hout t ht)
    rcases hi with ⟨hu, hn⟩ | ⟨b, hissued, hk, hb⟩
    · refine .inl ⟨⟨fun t ht => ?_, hrecord.trans hu.record, hcompletions.trans hu.completions⟩, hn⟩
      rcases Multiset.mem_add.1 ht with ht | ht
      · exact hu.tasks t ht
      · exact hout t (Multiset.mem_coe.1 ht)
    · refine .inr ⟨b, ?_, ⟨hk.valid, fun t ht => ?_, ?_, ?_⟩, fun hkept => ⟨?_, ?_⟩⟩
      · rw [hdb]
        exact List.mem_cons_of_mem _ (List.mem_cons_of_mem _ hissued)
      · rcases Multiset.mem_add.1 ht with ht | ht
        · exact hk.tasks t ht
        · exact Task.of_ne (hout t (Multiset.mem_coe.1 ht))
      · dsimp only
        rw [hcreates, hrecord]
        exact hk.created
      · dsimp only
        rw [hrecord, hcompletions]
        exact hk.counted
      · dsimp only
        rw [hcreates, hrecord]
        exact (hb hkept).created
      · dsimp only
        rw [sum_lines_other hout, hrecord]
        exact (hb hkept).lines

/-! ### Runs -/

theorem Inv.step {a : Tasks.Act Task Input Request} {c' : Activation} (hi : Inv kept bulkId n c)
    (hagain : a.AgainOnly Task.IsEvent) (hkept : kept → a.Once ∧ a.Keeps) (h : Activation.step c a = some c') :
    Inv kept bulkId (n + if isEarly bulkId c a then 1 else 0) c' := by
  cases step_move h with
  | enter he => exact hi.enter he
  | @again t input db' out ht hs =>
    have hnever : ¬ kept := fun hk => Bool.noConfusion (hkept hk).1
    rcases hi with ⟨hu, rfl⟩ | ⟨b, hissued, hk, -⟩
    · exact .inl (hu.handle hs ht fun x hx => hx)
    · refine .inr ⟨b, issued_segment hs hissued, ?_, fun hk => absurd hk hnever⟩
      have he := segment_effect hk.valid hs (hk.tasks t ht) hk.records
      refine hk.effect he ht (fun x hx => hx) ?_
      have hevent : t.IsEvent := hagain rfl
      cases t with
      | event e => exact le_rfl
      | _ => cases hevent
  | @once t left input db' out ht hs =>
    have hmem : t ∈ c.tasks := ht ▸ Multiset.mem_cons_self t left
    have hleft : ∀ x ∈ left, x ∈ c.tasks := fun x hx => ht ▸ Multiset.mem_cons_of_mem hx
    rcases hi with ⟨hu, rfl⟩ | ⟨b, hissued, hk, hb⟩
    · exact .inl (hu.handle hs hmem hleft)
    · have he := segment_effect hk.valid hs (hk.tasks t hmem) hk.records
      refine .inr ⟨b, issued_segment hs hissued, hk.effect he hmem hleft ?_, fun hkept => (hb hkept).effect he ht⟩
      rw [ht, Multiset.countP_cons]
  | @lose t left ht =>
    have hnever : ¬ kept := fun hk => (hkept hk).2
    have hleft : ∀ x ∈ left, x ∈ c.tasks := fun x hx => ht ▸ Multiset.mem_cons_of_mem hx
    rcases hi with ⟨hu, rfl⟩ | ⟨b, hissued, hk, -⟩
    · exact .inl ⟨⟨fun x hx => hu.tasks x (hleft x hx), hu.record, hu.completions⟩, rfl⟩
    · refine .inr ⟨b, hissued, ⟨hk.valid, fun x hx => hk.tasks x (hleft x hx), ?_, hk.counted⟩,
        fun hk => absurd hk hnever⟩
      have hcreated := hk.created
      rw [ht, Multiset.countP_cons] at hcreated
      dsimp only
      omega

theorem inv_of_run {as : List (Tasks.Act Task Input Request)} (h : run Activation.step .empty as = some c)
    (hagain : ∀ a ∈ as, a.AgainOnly Task.IsEvent) (bulkId : String) :
    Inv (∀ a ∈ as, a.Once ∧ a.Keeps) bulkId (countIn Activation.step (isEarly bulkId) .empty as) c := by
  obtain ⟨kept, hkept⟩ : ∃ kept : Prop, kept = ∀ a ∈ as, a.Once ∧ a.Keeps := ⟨_, rfl⟩
  rw [← hkept, ← Nat.zero_add (countIn ..)]
  have heach : Each Activation.step (fun _ a => a.AgainOnly Task.IsEvent ∧ (kept → a.Once ∧ a.Keeps)) .empty as :=
    (each_forall_iff h).2 fun a ha => ⟨hagain a ha, fun hk => (hkept ▸ hk) a ha⟩
  refine run_count (I := Inv kept bulkId) (fun n s a s' hi hC hstep => hi.step hC.1 hC.2 hstep) ?_ heach h
  exact .inl ⟨⟨fun t ht => absurd ht (Multiset.notMem_zero t), rfl, rfl⟩, rfl⟩

end Kept

/-! ## The steps of a bulk -/

/-- More than what the task leaves has. -/
def Task.rank : Task → ℕ
  | .event e =>
    match e.payload with
    | .requested _ lines => 2 + 4 * lineCount lines
    | .lineRequested .. => 3
    | .lineCompleted .. => 2
    | .completed .. => 1
  | .fanOut _ _ lines index => 1 + 4 * (lineCount lines - index)
  | .create .. => 1

theorem ranked : Ranked segment enter Task.rank 43 where
  segment {input db t db' out} h := by
    cases t with
    | event e =>
      simp only [segment] at h
      cases hpayload : e.payload with
      | requested id lines =>
        simp only [hpayload] at h
        cases h
        simp only [List.map_cons, List.map_nil, List.sum_cons, List.sum_nil, Task.rank, hpayload]
        omega
      | lineRequested id index number =>
        simp only [hpayload] at h
        cases h
        simp [Task.rank, hpayload, Event.final]
      | lineCompleted id index number =>
        simp only [hpayload, LineActivationCompletedParticipant.handle, Option.some.injEq] at h
        have hrank : (Task.event e).rank = 2 := by simp [Task.rank, hpayload]
        rw [hrank]
        split at h
        · cases h; simp
        · split at h
          · split at h
            · rename_i completed hcompleted
              obtain ⟨parent, -, rfl⟩ := Option.map_eq_some_iff.1 hcompleted
              cases h
              simp [Task.rank]
            · cases h; simp
          · cases h; simp
      | completed id lines =>
        simp only [hpayload] at h
        cases h
        simp [Task.rank, hpayload]
    | fanOut e id lines index =>
      simp only [segment, BulkActivationForkParticipant.fanOut] at h
      split at h
      · rename_i hlt
        have hless := lt_lineCount.2 hlt
        obtain ⟨db₁, -, heq⟩ := Option.map_eq_some_iff.1 h
        cases heq
        simp only [Stores.publish, List.cons_append, List.nil_append, List.map_cons, List.map_nil, List.sum_cons,
          List.sum_nil, Task.rank, Event.fork]
        omega
      · cases h
        simp [Task.rank]
    | create => cases h; simp [Task.rank]
  enter {request db db' out} h := by
    obtain ⟨-, -, -, rfl⟩ := enter_eq h
    have hcount : lineCount (jsonNumber request.asked.lines) ≤ 10 := by
      rcases linesOf_spec request.lines with hnan | ⟨n, -, hten, hn⟩
      · simp [Request.asked, hnan, jsonNumber, lineCount]
      · simpa [Request.asked, hn, jsonNumber, lineCount, Number.ofNat] using hten
    simp only [List.map_cons, List.map_nil, List.sum_cons, List.sum_nil, Task.rank, Bulk.request, Event.first]
    omega

theorem exists_issue (db : Stores) : ∃ id db', db.issue id = some db' := by
  obtain ⟨id, hid⟩ := Infinite.exists_notMem_finset ("" :: db.issued).toFinset
  rw [List.mem_toFinset, List.mem_cons] at hid
  exact ⟨id, _, if_neg hid⟩

/-- Every task can be handled. -/
theorem segment_isSome (db : Stores) (t : Task) : ∃ input, (segment input db t).isSome := by
  obtain ⟨id, db', hissue⟩ := exists_issue db
  refine ⟨⟨id, ""⟩, ?_⟩
  cases t with
  | event e =>
    obtain ⟨sagaId, root, parent, chain, hint, payload⟩ := e
    cases payload <;> rfl
  | fanOut e bulkId lines index =>
    simp only [segment, BulkActivationForkParticipant.fanOut]
    split
    · rw [hissue]; rfl
    · rfl
  | create => rfl

/-! ## The end of a bulk -/

variable {c : Activation} {as : List (Tasks.Act Task Input Request)}

/-- The event that ends the bulk of the record, of so many lines, in the saga of the bulk. -/
def BulkActivationRecord.completion (record : BulkActivationRecord) (bulkId : String) (n : ℕ) : Event :=
  ⟨record.sagaId, record.sagaId, none, some [], some .final, .completed bulkId (some n)⟩

/-- Whatever is delivered again or lost, the end of a bulk is published once for each line that is counted from the
last one on, in the saga of the bulk, and its record is completed with the first of these; a bulk whose number of
lines is no number never ends, nor does one without a record. -/
theorem completions_exact (h : run Activation.step .empty as = some c) (hagain : ∀ a ∈ as, a.AgainOnly Task.IsEvent)
    (bulkId : String) :
    (c.state.records.lookup bulkId = none → c.state.completions bulkId = []) ∧
    ∀ record, c.state.records.lookup bulkId = some record →
      (record.totalLines = .nan ∧ record.status = .pending ∧ c.state.completions bulkId = []) ∨
      ∃ n, 1 ≤ n ∧ n ≤ 10 ∧ record.totalLines = .ofNat n ∧
        c.state.completions bulkId =
          List.replicate (record.completedLines + 1 - n) (record.completion bulkId n) ∧
        record.status = if n ≤ record.completedLines then .completed else .pending := by
  rcases inv_of_run h hagain bulkId with ⟨hu, -⟩ | ⟨b, -, hk, -⟩
  · refine ⟨fun _ => hu.completions, fun record hrecord => ?_⟩
    rw [hu.record] at hrecord
    cases hrecord
  · rcases hk.counted with ⟨hnone, hcompletions⟩ | ⟨k, hsome, hcompletions⟩
    · refine ⟨fun _ => hcompletions, fun record hrecord => ?_⟩
      rw [hnone] at hrecord
      cases hrecord
    · refine ⟨fun hnone => ?_, fun record hrecord => ?_⟩
      · rw [hsome] at hnone
        cases hnone
      · rw [hsome] at hrecord
        cases hrecord
        rcases hk.valid.lines with hlines | ⟨n, hn, hten, hlines⟩
        · left
          rw [b.surplus_nan hlines] at hcompletions
          exact ⟨hlines, by simp [Bulk.record, hlines, Number.le], hcompletions⟩
        · refine .inr ⟨n, hn, hten, hlines, ?_, by simp [Bulk.record, hlines]⟩
          rw [hcompletions, b.surplus_ofNat hlines hn]
          simp [BulkActivationRecord.completion, Bulk.completion, Bulk.record, hlines, Number.ofNat, jsonNumber]

section Sample

def sampleRequest : Event := .first "saga-1" (.requested "bulk-1" (some 2))

def sampleLine (index : ℕ) (subSagaId : String) : Event :=
  sampleRequest.fork subSagaId (.lineRequested "bulk-1" index ("+551112345678" ++ toString index))

def sampleLineEnd (index : ℕ) (subSagaId : String) : Event :=
  (sampleLine index subSagaId).final (.lineCompleted "bulk-1" index ("+551112345678" ++ toString index))

/-- A request of two lines whose record is created at once; the second line ends `again` and then once more. -/
def bulkRun (again : Bool) : List (Tasks.Act Task Input Request) :=
  [.enter ⟨"bulk-1", "saga-1", some "2"⟩, .handle (.create "bulk-1" "saga-1" (.ofNat 2)) false {},
    .handle (.event sampleRequest) false {},
    .handle (.fanOut sampleRequest "bulk-1" (some 2) 0) false { id := "sub-1", clock := "12345678" },
    .handle (.fanOut sampleRequest "bulk-1" (some 2) 1) false { id := "sub-2", clock := "12345678" },
    .handle (.fanOut sampleRequest "bulk-1" (some 2) 2) false {},
    .handle (.event (sampleLine 1 "sub-2")) false {}, .handle (.event (sampleLine 0 "sub-1")) false {},
    .handle (.event (sampleLineEnd 0 "sub-1")) false {}] ++
  (if again then [.handle (.event (sampleLineEnd 1 "sub-2")) true {}] else []) ++
  [.handle (.event (sampleLineEnd 1 "sub-2")) false {}]

theorem completions_exact_sample :
    ∃ c record, run Activation.step .empty (bulkRun true) = some c ∧
      c.state.records.lookup "bulk-1" = some record ∧ record.completedLines = 3 ∧
      c.state.completions "bulk-1" = List.replicate 2 (record.completion "bulk-1" 2) := by
  obtain ⟨c, hr, hp⟩ := exists_of_run Activation.step .empty (bulkRun true)
    (fun c => (c.state.records.lookup "bulk-1").any fun record =>
      record.completedLines = 3 && record.totalLines = .ofNat 2) (by decide +kernel)
  obtain ⟨record, hrecord, hp⟩ := (Option.any_eq_true _ _).1 hp
  rw [Bool.and_eq_true, decide_eq_true_iff, decide_eq_true_iff] at hp
  obtain ⟨-, hexact⟩ := completions_exact hr (by decide) "bulk-1"
  rcases hexact record hrecord with ⟨hnan, -⟩ | ⟨n, -, -, hn, hcompletions, -⟩
  · rw [hp.2] at hnan
    cases hnan
  · have htwo : n = 2 := by
      rw [hp.2] at hn
      have := Number.finite.inj hn
      exact_mod_cast this.symm
    rw [htwo, hp.1] at hcompletions
    exact ⟨c, record, hr, hrecord, hp.1, hcompletions⟩

end Sample

/-- The requests of a run lead to at most forty-three times as many steps, counted together, they can all be made, and
where nothing was handled again or lost the lines of a bulk are then all counted but those that ended before its record
was created: without such a line the end of the bulk was published once, and with one it never was. -/
theorem activations_settle (h : run Activation.step .empty as = some c) (honce : ∀ a ∈ as, a.Once) :
    as.countP (·.isHandle) ≤ as.countP (·.isEnter) * 43 ∧
    (∃ bs c', run Activation.step c bs = some c' ∧ c'.tasks = 0 ∧ ∀ b ∈ bs, b.Once ∧ b.Keeps ∧ b.isEnter = false) ∧
    (c.tasks = 0 → (∀ a ∈ as, a.Keeps) → ∀ bulkId record, c.state.records.lookup bulkId = some record →
      let early := countIn Activation.step (isEarly bulkId) .empty as
      (record.totalLines = .nan ∧ record.completedLines = 0) ∨
      ∃ n, record.totalLines = .ofNat n ∧ record.completedLines + early = n ∧
        (early = 0 → record.status = .completed ∧ c.state.completions bulkId = [record.completion bulkId n]) ∧
        (early ≠ 0 → record.status = .pending ∧ c.state.completions bulkId = [])) := by
  have hagain : ∀ a ∈ as, a.AgainOnly Task.IsEvent := fun a ha => by
    have hone := honce a ha
    cases a with
    | handle t again input => exact fun htrue => absurd (hone.symm.trans htrue) Bool.false_ne_true
    | _ => trivial
  refine ⟨?_, ?_, fun hdone hkeeps bulkId record hrecord => ?_⟩
  · have hle := ranked.handled_le h honce
    have hempty : (Activation.empty.tasks.map Task.rank).sum = 0 := rfl
    omega
  · exact ranked.exists_drain (I := fun _ => True) (fun _ _ _ _ _ => trivial)
      (fun c t _ _ => segment_isSome c.state t) c trivial
  · obtain ⟨-, hexact⟩ := completions_exact h hagain bulkId
    rcases inv_of_run h hagain bulkId with ⟨hu, -⟩ | ⟨b, -, hk, hb⟩
    · rw [hu.record] at hrecord
      cases hrecord
    · obtain ⟨k, rfl⟩ := hk.records record hrecord
      have hlines := (hb fun a ha => ⟨honce a ha, hkeeps a ha⟩).lines
      rw [hdone, hrecord] at hlines
      simp only [Multiset.map_zero, Multiset.sum_zero, Option.map_some, Option.getD_some, Nat.zero_add] at hlines
      rcases hexact _ hrecord with ⟨hnan, -, -⟩ | ⟨n, hn, -, hofNat, hcompletions, hstatus⟩
      · left
        have hnan' : b.lines = .nan := hnan
        refine ⟨hnan, ?_⟩
        rw [hnan'] at hlines
        simp [lineCount, jsonNumber] at hlines
        omega
      · have hn' : b.lines = .ofNat n := hofNat
        have hbalance : (b.record k).completedLines + countIn Activation.step (isEarly bulkId) .empty as = n := by
          rw [hn'] at hlines
          simpa [lineCount, jsonNumber, Number.ofNat] using hlines
        refine .inr ⟨n, hofNat, hbalance, fun hzero => ?_, fun hpos => ?_⟩
        · rw [hzero, Nat.add_zero] at hbalance
          rw [hbalance] at hcompletions hstatus
          rw [Nat.add_sub_cancel_left] at hcompletions
          exact ⟨by rw [hstatus, if_pos le_rfl], hcompletions⟩
        · have hless : (b.record k).completedLines < n := by omega
          rw [Nat.sub_eq_zero_of_le hless] at hcompletions
          exact ⟨by rw [hstatus, if_neg (not_le.2 hless)], hcompletions⟩

section Sample

/-- All of it handled, the end of the bulk too. -/
def settledRun : List (Tasks.Act Task Input Request) :=
  bulkRun false ++ [.handle (.event (Bulk.completion ⟨"saga-1", .ofNat 2⟩ "bulk-1")) false {}]

theorem activations_settle_sample :
    ∃ c record, run Activation.step .empty settledRun = some c ∧ c.tasks = 0 ∧
      c.state.records.lookup "bulk-1" = some record ∧ record.completedLines +
        countIn Activation.step (isEarly "bulk-1") .empty settledRun = 2 := by
  obtain ⟨c, hr, hp⟩ := exists_of_run Activation.step .empty settledRun
    (fun c => decide (c.tasks = 0) && (c.state.records.lookup "bulk-1").any (·.totalLines = .ofNat 2)) (by decide +kernel)
  rw [Bool.and_eq_true, decide_eq_true_iff, Option.any_eq_true] at hp
  obtain ⟨hdone, record, hrecord, htotal⟩ := hp
  rw [decide_eq_true_iff] at htotal
  obtain ⟨-, -, hsettled⟩ := activations_settle hr (by decide)
  rcases hsettled hdone (by decide) "bulk-1" record hrecord with ⟨hnan, -⟩ | ⟨n, hn, hcounted, -⟩
  · rw [htotal] at hnan
    cases hnan
  · have htwo : n = 2 := by
      rw [htotal] at hn
      have := Number.finite.inj hn
      exact_mod_cast this.symm
    exact ⟨c, record, hr, hdone, hrecord, htwo ▸ hcounted⟩

/-- The record is created when the only line has ended: the bulk never ends. -/
example : (run Activation.step .empty
    [.enter ⟨"bulk-1", "saga-1", some "1"⟩, .handle (.event (.first "saga-1" (.requested "bulk-1" (some 1)))) false {},
      .handle (.fanOut (.first "saga-1" (.requested "bulk-1" (some 1))) "bulk-1" (some 1) 0) false
        { id := "sub-1", clock := "12345678" },
      .handle (.fanOut (.first "saga-1" (.requested "bulk-1" (some 1))) "bulk-1" (some 1) 1) false {},
      .handle (.event ((Event.first "saga-1" (.requested "bulk-1" (some 1))).fork "sub-1"
        (.lineRequested "bulk-1" 0 "+5511123456780"))) false {},
      .handle (.event ⟨"sub-1", "saga-1", some "saga-1", some ["saga-1"], some .final,
        .lineCompleted "bulk-1" 0 "+5511123456780"⟩) false {},
      .handle (.create "bulk-1" "saga-1" (.ofNat 1)) false {}]).any
    (fun c => decide (c.tasks = 0) && c.state.completions "bulk-1" = []) = true := by decide +kernel

end Sample

end Saga.BulkActivation
