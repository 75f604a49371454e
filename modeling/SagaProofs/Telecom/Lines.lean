/-
The tasks of one bulk, with the lines they have yet to end, and what the participants do to it: a line ends and is
counted or is not, or the record is created, or nothing is seen of it.
-/
import SagaProofs.Telecom.Activation

namespace Saga.BulkActivation

open Keyed Lts Tasks

/-! ## The tasks of a bulk -/

def Payload.isCompletion (bulkId : String) : Payload → Bool
  | .completed id _ => id = bulkId
  | _ => false

/-- The ends of a bulk that were published. -/
def Stores.completions (db : Stores) (bulkId : String) : List Event :=
  db.published.filter (·.payload.isCompletion bulkId)

/-- The iterations of a loop with this bound. -/
def lineCount (lines : Option ℚ) : ℕ := ⌈lines.getD 0⌉₊

theorem lt_lineCount {index : ℕ} {lines : Option ℚ} : index < lineCount lines ↔ (index : ℚ) < lines.getD 0 := Nat.lt_ceil

namespace Task

variable (bulkId : String)

/-- The bulk a task is of. -/
def bulk : Task → String
  | .event e => e.payload.bulkId
  | .fanOut _ bulkId _ _ => bulkId
  | .create bulkId _ _ => bulkId

def isCreate : Task → Bool
  | .create id _ _ => id = bulkId
  | _ => false

/-- The end of a line. -/
def isLine : Task → Bool
  | .event e =>
    match e.payload with
    | .lineCompleted id _ _ => id = bulkId
    | _ => false
  | _ => false

/-- The lines of the bulk that the task has yet to end. -/
def lines (t : Task) : ℕ :=
  if t.bulk = bulkId then
    match t with
    | .event e =>
      match e.payload with
      | .requested _ lines => lineCount lines
      | .lineRequested .. => 1
      | .lineCompleted .. => 1
      | .completed .. => 0
    | .fanOut _ _ lines index => lineCount lines - index
    | .create .. => 0
  else 0

end Task

/-- The end of a line is handled while the bulk has no record. -/
def isEarly (bulkId : String) (c : Activation) : Tasks.Act Task Input Request → Bool
  | .handle t _ _ => t.isLine bulkId && (c.state.records.lookup bulkId).isNone
  | _ => false

/-- The saga of a bulk and its lines. -/
structure Bulk where
  sagaId : String
  lines : Number

namespace Bulk

variable (b : Bulk) (bulkId : String)

structure Valid : Prop where
  sagaId : b.sagaId ≠ ""
  lines : b.lines = .nan ∨ ∃ n, 1 ≤ n ∧ n ≤ 10 ∧ b.lines = .ofNat n

/-- The event that starts the bulk. -/
def request : Event := .first b.sagaId (.requested bulkId (jsonNumber b.lines))

/-- The event that ends it. -/
def completion : Event :=
  ⟨b.sagaId, b.sagaId, none, some [], some .final, .completed bulkId (jsonNumber b.lines)⟩

/-- The record with so many lines counted. -/
def record (k : ℕ) : BulkActivationRecord :=
  ⟨b.sagaId, b.lines, k, if b.lines.le (.ofNat k) then .completed else .pending⟩

/-- The lines counted from the last one on. -/
def surplus (k : ℕ) : ℕ := (List.range k).countP fun i => b.lines.le (.ofNat (i + 1))

theorem surplus_succ (k : ℕ) : b.surplus (k + 1) = b.surplus k + if b.lines.le (.ofNat (k + 1)) then 1 else 0 := by
  unfold surplus
  rw [List.range_succ, List.countP_append, List.countP_singleton]

theorem surplus_nan (h : b.lines = .nan) (k : ℕ) : b.surplus k = 0 := by
  unfold surplus
  simp [h, Number.le]

theorem surplus_ofNat {n : ℕ} (h : b.lines = .ofNat n) (hn : 1 ≤ n) (k : ℕ) : b.surplus k = k + 1 - n := by
  induction k with
  | zero => simp only [surplus, List.range_zero, List.countP_nil]; omega
  | succ k ih =>
    rw [surplus_succ, ih, h, Number.ofNat_le_ofNat]
    split <;> simp_all <;> omega

theorem increment_record (k : ℕ) : (b.record k).increment = b.record (k + 1) := by
  unfold BulkActivationRecord.increment record
  cases h : b.lines.le (.ofNat (k + 1)) with
  | true => simp [h]
  | false =>
    have hk : b.lines.le (.ofNat k) = false :=
      Bool.eq_false_iff.2 fun hk => Bool.eq_false_iff.1 h (Number.le_ofNat_mono (Nat.le_succ k) hk)
    simp [h, hk]

end Bulk

/-- The event is one of the bulk, or of another. -/
def Event.Of (bulkId : String) (b : Bulk) (event : Event) : Prop :=
  event.payload.bulkId = bulkId →
    match event.payload with
    | .requested .. => event = b.request bulkId
    | .lineRequested .. => event.rootSagaId = b.sagaId ∧ event.parentSagaId = some b.sagaId ∧
      event.ancestorChain = some [b.sagaId]
    | .lineCompleted .. => event.rootSagaId = b.sagaId ∧ event.parentSagaId = some b.sagaId ∧
      event.ancestorChain = some [b.sagaId]
    | .completed .. => event = b.completion bulkId

/-- The task is one of the bulk, or of another. -/
def Task.Of (bulkId : String) (b : Bulk) : Task → Prop
  | .event e => e.Of bulkId b
  | .fanOut e id lines _ => id = bulkId → e = b.request bulkId ∧ lines = jsonNumber b.lines
  | .create id sagaId lines => id = bulkId → sagaId = b.sagaId ∧ lines = b.lines

section Other

variable {bulkId : String} {b : Bulk} {t : Task}

theorem Task.of_ne (h : t.bulk ≠ bulkId) : t.Of bulkId b := by
  cases t <;> exact fun heq => absurd heq h

theorem isCreate_of_ne (h : t.bulk ≠ bulkId) : t.isCreate bulkId = false := by
  cases t with
  | create => exact decide_eq_false h
  | _ => rfl

theorem isLine_of_ne (h : t.bulk ≠ bulkId) : t.isLine bulkId = false := by
  cases t with
  | event e =>
    obtain ⟨sagaId, root, parent, chain, hint, payload⟩ := e
    cases payload with
    | lineCompleted => exact decide_eq_false h
    | _ => rfl
  | _ => rfl

end Other

/-! ## What a task does -/

section Segment

variable {bulkId : String} {b : Bulk} {db db' : Stores} {input : Input} {t : Task} {out : List Task}

theorem issue_eq {id : String} (h : db.issue id = some db') :
    id ≠ "" ∧ id ∉ db.issued ∧ db' = { db with issued := id :: db.issued } := by
  unfold Stores.issue at h
  split at h
  · cases h
  · rename_i hnot
    cases h
    exact ⟨fun h => hnot (.inl h), fun h => hnot (.inr h), rfl⟩

theorem completions_publish {e : Event} (h : db'.published = db.published ++ [e]) (bulkId : String) :
    db'.completions bulkId = db.completions bulkId ++ if e.payload.isCompletion bulkId then [e] else [] := by
  unfold Stores.completions
  rw [h, List.filter_append, List.filter_singleton, Bool.cond_eq_ite]

theorem completions_publish_of_ne {e : Event} (h : db'.published = db.published ++ [e])
    (hnot : e.payload.isCompletion bulkId = false) : db'.completions bulkId = db.completions bulkId := by
  rw [completions_publish h, hnot]
  exact List.append_nil _

theorem lookup_incrementCompleted (db : Stores) (id bulkId : String) :
    (db.incrementCompleted id).records.lookup bulkId =
      if bulkId = id then (db.records.lookup bulkId).map BulkActivationRecord.increment
      else db.records.lookup bulkId :=
  lookup_modify db.records id BulkActivationRecord.increment bulkId

/-- A participant issues ids and never takes one back. -/
theorem issued_segment (h : segment input db t = some (db', out)) : db.issued ⊆ db'.issued := by
  cases t with
  | event e =>
    obtain ⟨sagaId, root, parent, chain, hint, payload⟩ := e
    cases payload with
    | lineCompleted id index number =>
      simp only [segment, LineActivationCompletedParticipant.handle, Option.some.injEq] at h
      repeat' split at h
      all_goals cases h; exact List.Subset.refl _
    | _ => cases h; exact List.Subset.refl _
  | fanOut e id lines index =>
    simp only [segment, BulkActivationForkParticipant.fanOut] at h
    split at h
    · obtain ⟨db₁, hissue, heq⟩ := Option.map_eq_some_iff.1 h
      obtain ⟨-, -, rfl⟩ := issue_eq hissue
      cases heq
      exact List.subset_cons_self ..
    · cases h; exact List.Subset.refl _
  | create => cases h; exact List.Subset.refl _

/-- A task of one bulk does nothing to another. -/
theorem segment_other (h : segment input db t = some (db', out)) (hne : t.bulk ≠ bulkId) :
    db'.records.lookup bulkId = db.records.lookup bulkId ∧ db'.completions bulkId = db.completions bulkId ∧
      ∀ t' ∈ out, t'.bulk ≠ bulkId := by
  have hone : ∀ t : Task, t.bulk ≠ bulkId → ∀ t' ∈ [t], t'.bulk ≠ bulkId := by
    intro t ht t' ht'
    rw [List.mem_singleton.1 ht']
    exact ht
  cases t with
  | event e =>
    obtain ⟨sagaId, root, parent, chain, hint, payload⟩ := e
    cases payload with
    | requested id lines => cases h; exact ⟨rfl, rfl, hone _ hne⟩
    | lineRequested id index number => cases h; exact ⟨rfl, completions_publish_of_ne rfl rfl, hone _ hne⟩
    | lineCompleted id index number =>
      replace hne : id ≠ bulkId := hne
      have hlookup : (db.incrementCompleted id).records.lookup bulkId = db.records.lookup bulkId := by
        rw [lookup_incrementCompleted, if_neg (Ne.symm hne)]
      simp only [segment, LineActivationCompletedParticipant.handle, Option.some.injEq] at h
      split at h
      · cases h; exact ⟨hlookup, rfl, List.forall_mem_nil _⟩
      · split at h
        · split at h
          · rename_i completed hcompleted
            obtain ⟨parent', -, rfl⟩ := Option.map_eq_some_iff.1 hcompleted
            cases h
            exact ⟨hlookup, completions_publish_of_ne rfl (by simp [Payload.isCompletion, hne]), hone _ hne⟩
          · cases h; exact ⟨hlookup, rfl, List.forall_mem_nil _⟩
        · cases h; exact ⟨hlookup, rfl, List.forall_mem_nil _⟩
    | completed id lines => cases h; exact ⟨rfl, rfl, List.forall_mem_nil _⟩
  | fanOut e id lines index =>
    replace hne : id ≠ bulkId := hne
    simp only [segment, BulkActivationForkParticipant.fanOut] at h
    split at h
    · obtain ⟨db₁, hissue, heq⟩ := Option.map_eq_some_iff.1 h
      obtain ⟨-, -, rfl⟩ := issue_eq hissue
      cases heq
      exact ⟨rfl, completions_publish_of_ne rfl rfl,
        List.forall_mem_append.2 ⟨hone (.event _) hne, hone (.fanOut _ _ _ _) hne⟩⟩
    · cases h; exact ⟨rfl, rfl, List.forall_mem_nil _⟩
  | create id sagaId lines =>
    cases h
    exact ⟨Finmap.lookup_insert_of_ne _ (Ne.symm hne), rfl, List.forall_mem_nil _⟩

/-- What a task does to a bulk: nothing, or it ends a line that is not counted, ends one that is, or creates the
record. -/
inductive Effect (bulkId : String) (b : Bulk) (db : Stores) : Task → Stores → List Task → Prop
  | pass {t : Task} {db' : Stores} {out : List Task}
    (hrecord : db'.records.lookup bulkId = db.records.lookup bulkId)
    (hcompletions : db'.completions bulkId = db.completions bulkId) (hof : ∀ t' ∈ out, t'.Of bulkId b)
    (hcreate : ∀ t' ∈ t :: out, t'.isCreate bulkId = false) (hline : t.isLine bulkId = false)
    (hlines : (out.map (·.lines bulkId)).sum = t.lines bulkId) : Effect bulkId b db t db' out
  | early {t : Task} (hline : t.isLine bulkId = true) (hnone : db.records.lookup bulkId = none) :
    Effect bulkId b db t (db.incrementCompleted bulkId) []
  | count {t : Task} {db' : Stores} {out : List Task} {k : ℕ} (hline : t.isLine bulkId = true)
    (hrecord : db.records.lookup bulkId = some (b.record k))
    (hrecord' : db'.records.lookup bulkId = some (b.record (k + 1)))
    (hcompletions : db'.completions bulkId = db.completions bulkId ++
      if b.lines.le (.ofNat (k + 1)) then [b.completion bulkId] else [])
    (hout : ∀ t' ∈ out, t' = .event (b.completion bulkId)) : Effect bulkId b db t db' out
  | create (sagaId : String) (lines : Number) :
    Effect bulkId b db (.create bulkId sagaId lines) (db.create bulkId sagaId lines) []

theorem Effect.of_other (h : segment input db t = some (db', out)) (hne : t.bulk ≠ bulkId) :
    Effect bulkId b db t db' out := by
  obtain ⟨hrecord, hcompletions, hout⟩ := segment_other h hne
  have hall : ∀ t' ∈ t :: out, t'.bulk ≠ bulkId := List.forall_mem_cons.2 ⟨hne, hout⟩
  refine .pass hrecord hcompletions (fun t' ht' => Task.of_ne (hout t' ht')) (fun t' ht' => isCreate_of_ne (hall t' ht'))
    (isLine_of_ne hne) ?_
  have hzero : ∀ t' ∈ t :: out, t'.lines bulkId = 0 := fun t' ht' => if_neg (hall t' ht')
  rw [hzero t (List.mem_cons_self ..), List.sum_eq_zero_iff]
  intro n hn
  obtain ⟨t', ht', rfl⟩ := List.mem_map.1 hn
  exact hzero t' (List.mem_cons_of_mem _ ht')

theorem toParent_line {e : Event} (hb : b.Valid) (hroot : e.rootSagaId = b.sagaId)
    (hparent : e.parentSagaId = some b.sagaId) (hchain : e.ancestorChain = some [b.sagaId]) :
    e.toParent (some .final) (.completed bulkId (jsonNumber b.lines)) = some (b.completion bulkId) := by
  unfold Event.toParent
  rw [hparent, truthy_some hb.sagaId, hroot, hchain]
  rfl

theorem Effect.of_line (hb : b.Valid) {e : Event} {index : ℕ} {number : String}
    (hpayload : e.payload = .lineCompleted bulkId index number)
    (h : LineActivationCompletedParticipant.handle db e bulkId = (db', out)) (hof : e.Of bulkId b)
    (hrecords : ∀ record, db.records.lookup bulkId = some record → ∃ k, record = b.record k) :
    Effect bulkId b db (.event e) db' out := by
  have hline : (Task.event e).isLine bulkId = true := by simp [Task.isLine, hpayload]
  have hshape := hof (by rw [hpayload]; rfl)
  simp only [hpayload] at hshape
  obtain ⟨hroot, hparent, hchain⟩ := hshape
  have hlookup := lookup_incrementCompleted db bulkId bulkId
  rw [if_pos rfl] at hlookup
  unfold LineActivationCompletedParticipant.handle at h
  cases hrecord : db.records.lookup bulkId with
  | none =>
    simp only [hlookup, hrecord, Option.map_none, Prod.mk.injEq] at h
    obtain ⟨rfl, rfl⟩ := h
    exact .early hline hrecord
  | some record =>
    obtain ⟨k, rfl⟩ := hrecords record hrecord
    rw [hrecord, Option.map_some, b.increment_record k] at hlookup
    have htotal : (b.record (k + 1)).totalLines = b.lines := rfl
    have hcounted : (b.record (k + 1)).completedLines = k + 1 := rfl
    simp only [hlookup, htotal, hcounted, toParent_line hb hroot hparent hchain] at h
    split at h
    · rename_i hreached
      cases h
      refine .count hline hrecord hlookup ?_ fun t' ht' => List.mem_singleton.1 ht'
      rw [completions_publish rfl, if_pos hreached, if_pos (by simp [Bulk.completion, Payload.isCompletion])]
      rfl
    · rename_i hreached
      cases h
      refine .count hline hrecord hlookup ?_ (List.forall_mem_nil _)
      rw [if_neg hreached]
      exact (List.append_nil _).symm

theorem segment_effect (hb : b.Valid) (h : segment input db t = some (db', out)) (hof : t.Of bulkId b)
    (hrecords : ∀ record, db.records.lookup bulkId = some record → ∃ k, record = b.record k) :
    Effect bulkId b db t db' out := by
  by_cases hid : t.bulk = bulkId
  swap
  · exact .of_other h hid
  cases t with
  | event e =>
    have hshape := hof hid
    have hown : e.payload.bulkId = bulkId := hid
    simp only [segment] at h
    cases hpayload : e.payload with
    | requested id lines =>
      rw [hpayload] at hown hshape
      simp only [Payload.bulkId] at hown hshape
      subst hown
      simp only [hpayload] at h
      cases h
      have hlines : lines = jsonNumber b.lines := by
        rw [hshape] at hpayload
        cases hpayload; rfl
      refine .pass rfl rfl ?_ ?_ ?_ ?_
      · simpa [Task.Of] using ⟨hshape, hlines⟩
      · simp [Task.isCreate]
      · simp [Task.isLine, hpayload]
      · simp [Task.lines, Task.bulk, hpayload, Payload.bulkId]
    | lineRequested id index number =>
      rw [hpayload] at hown hshape
      simp only [Payload.bulkId] at hown hshape
      subst hown
      simp only [hpayload] at h
      cases h
      refine .pass rfl (completions_publish_of_ne rfl rfl) ?_ ?_ ?_ ?_
      · intro t' ht'
        rw [List.mem_singleton.1 ht']
        exact fun _ => hshape
      · simp [Task.isCreate]
      · simp [Task.isLine, hpayload]
      · simp [Task.lines, Task.bulk, hpayload, Payload.bulkId, Event.final]
    | lineCompleted id index number =>
      rw [hpayload] at hown
      simp only [Payload.bulkId] at hown
      subst hown
      simp only [hpayload, Option.some.injEq] at h
      exact .of_line hb hpayload h hof hrecords
    | completed id lines =>
      simp only [hpayload] at h
      cases h
      refine .pass rfl rfl (List.forall_mem_nil _) ?_ ?_ ?_
      · simp [Task.isCreate]
      · simp [Task.isLine, hpayload]
      · simp [Task.lines, Task.bulk, hpayload]
  | fanOut e id lines index =>
    replace hid : id = bulkId := hid
    subst hid
    obtain ⟨he, hlines⟩ := hof rfl
    simp only [segment, BulkActivationForkParticipant.fanOut] at h
    split at h
    · rename_i hlt
      obtain ⟨db₁, hissue, heq⟩ := Option.map_eq_some_iff.1 h
      obtain ⟨-, -, rfl⟩ := issue_eq hissue
      cases heq
      have hless := lt_lineCount.2 hlt
      refine .pass rfl (completions_publish_of_ne rfl rfl) ?_ ?_ rfl ?_
      · intro t' ht'
        rcases List.mem_append.1 ht' with ht' | ht'
        · rw [List.mem_singleton.1 ht', he]
          exact fun _ => ⟨rfl, rfl, rfl⟩
        · rw [List.mem_singleton.1 ht']
          exact fun _ => ⟨he, hlines⟩
      · simp [Stores.publish, Task.isCreate]
      · simp [Stores.publish, Task.lines, Task.bulk, Event.fork, Payload.bulkId]
        omega
    · rename_i hge
      cases h
      have hless : lineCount lines ≤ index := not_lt.1 fun h => hge (lt_lineCount.1 h)
      refine .pass rfl rfl (List.forall_mem_nil _) ?_ rfl ?_
      · simp [Task.isCreate]
      · simp [Task.lines, Task.bulk]
        omega
  | create id sagaId lines =>
    replace hid : id = bulkId := hid
    subst hid
    cases h
    exact .create sagaId lines

end Segment

end Saga.BulkActivation
