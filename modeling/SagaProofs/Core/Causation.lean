/-
Causation: an event carries the id of the event on whose handling it was published, or the id of the
saga of the start it was published under, and so the ids of causes lead from every event back to the
start of a root saga, one step for each handler in between and one more.
-/
import SagaProofs.Core.Lineage
import SagaProofs.Lib.Chain

namespace Saga

open Lts

/-! ## Causes -/

/-- The causation id of what belongs to a cause. -/
def Cause.id : Cause → String
  | .handling event => event.eventId
  | .started sagaId => sagaId

/-- A handler that is called on a delivery of the first event receives the second. -/
def Arrives (env : ParseEnv) (topicPrefix : String) (sent received : SagaEvent) : Prop :=
  ∃ added, added.all (foreignHeader ·.1) = true ∧
    parse env (arrive (buildOutboundMessage env.json sent topicPrefix) added) = some (.headers received)

/-- The cause is the start of a root saga, or the handling of one of the publications. -/
def Cause.Grounded (env : ParseEnv) (topicPrefix : String) (created : Forest String) (published : List Publication) :
    Cause → Prop
  | .handling event => ∃ p ∈ published, Arrives env topicPrefix p.event event
  | .started sagaId => (sagaId, none) ∈ created

/-- The number of handlers between a start and a cause, each called on an event that was published for
the cause before it. -/
inductive World.Hops (env : ParseEnv) (topicPrefix : String) (w : World) : Cause → String → ℕ → Prop
  | started (root : String) : World.Hops env topicPrefix w (.started root) root 0
  | handled {p : Publication} {event : SagaEvent} {root : String} {n : ℕ} : p ∈ w.published →
      Arrives env topicPrefix p.event event → World.Hops env topicPrefix w p.cause root n →
      World.Hops env topicPrefix w (.handling event) root (n + 1)

/-- The causation id of the event with the given id. -/
def World.causation (w : World) (eventId : String) : Option String :=
  (w.published.find? (·.event.eventId == eventId)).map (·.event.causationId)

/-! ## What the operations make of a causation id -/

section Operations

open SagaPublisher SagaRunner

variable {s ctx : SagaContextData} {params : EmitParams} {eventId now : String} {event : SagaEvent}

theorem startChild_causationId {opts : Option SagaStartOptions} {sagaId : String}
    (h : startChild (some s) opts sagaId = .ok ctx) : ctx.causationId = s.causationId := by
  cases h; rfl

theorem emit_causationId (h : emit (some s) params eventId now = .ok event) :
    event.causationId = s.causationId ∧ event.eventId = eventId := by
  cases h; exact ⟨rfl, rfl⟩

theorem emitToParent_causationId (h : emitToParent (some s) params eventId now = .ok event) :
    event.causationId = s.causationId ∧ event.eventId = eventId := by
  obtain ⟨parent, above, -, rfl⟩ := emitToParent_ok h
  exact ⟨rfl, rfl⟩

theorem emitToParentContext_causationId (h : emitToParentContext (some s) = .ok ctx) :
    ctx.causationId = s.causationId := by
  obtain ⟨parent, above, -, rfl⟩ := emitToParentContext_ok h
  rfl

end Operations

/-! ## The invariant -/

variable {env : ParseEnv} {topicPrefix : String}

theorem Cause.Grounded.mono {created created' : Forest String} {published published' : List Publication} {c : Cause}
    (h : c.Grounded env topicPrefix created published) (hc : created ⊆ created') (hp : published ⊆ published') :
    c.Grounded env topicPrefix created' published' := by
  cases c with
  | handling event =>
    obtain ⟨p, hmem, harr⟩ := h
    exact ⟨p, hp hmem, harr⟩
  | started sagaId => exact hc h

/-- Contexts and events carry the ids of their causes, every cause is grounded, that of a publication
in what was published before it, and event ids are distinct and not those of sagas. -/
structure CausationInv (env : ParseEnv) (topicPrefix : String) (w : World) : Prop where
  scopes : ∀ s ∈ w.scopes, s.ctx.causationId = s.cause.id ∧ s.cause.Grounded env topicPrefix w.created w.published
  activations : ∀ a ∈ w.activations, (Cause.handling a.event).Grounded env topicPrefix w.created w.published
  published : ∀ p ∈ w.published, p.event.causationId = p.cause.id
  ordered : Justified (fun before p => p.cause.Grounded env topicPrefix w.created before) w.published
  distinct : (w.published.map (·.event.eventId)).Nodup
  used : ∀ p ∈ w.published, p.event.eventId ∈ w.used ∧ p.event.eventId ∉ w.created.nodes

namespace CausationInv

variable {w : World}

theorem enter (h : CausationInv env topicPrefix w) {s : Scope} (hid : s.ctx.causationId = s.cause.id)
    (hg : s.cause.Grounded env topicPrefix w.created w.published) : CausationInv env topicPrefix (w.enter s) := by
  refine ⟨fun x hx => ?_, h.activations, h.published, h.ordered, h.distinct, h.used⟩
  rcases List.mem_append.1 hx with hx | hx
  · exact h.scopes x hx
  · rw [List.mem_singleton.1 hx]; exact ⟨hid, hg⟩

theorem create (h : CausationInv env topicPrefix w) {sagaId : String} {parent : Option String} {s : Scope}
    (hf : w.Fresh sagaId) (hid : s.ctx.causationId = s.cause.id)
    (hg : s.cause.Grounded env topicPrefix ((sagaId, parent) :: w.created) w.published) :
    CausationInv env topicPrefix (w.create sagaId parent s) := by
  have hgrow : w.created ⊆ (sagaId, parent) :: w.created := List.subset_cons_self _ _
  have hmono : ∀ {c : Cause} {ps : List Publication}, c.Grounded env topicPrefix w.created ps →
      c.Grounded env topicPrefix ((sagaId, parent) :: w.created) ps := fun hc => hc.mono hgrow (List.Subset.refl _)
  refine ⟨fun x hx => ?_, fun a ha => hmono (h.activations a ha), h.published, h.ordered.mono fun _ _ => hmono,
    h.distinct, fun p hp => ⟨List.mem_cons_of_mem _ (h.used p hp).1, ?_⟩⟩
  · rcases List.mem_append.1 hx with hx | hx
    · exact ⟨(h.scopes x hx).1, hmono (h.scopes x hx).2⟩
    · rw [List.mem_singleton.1 hx]; exact ⟨hid, hg⟩
  · show p.event.eventId ∉ sagaId :: w.created.nodes
    rw [List.mem_cons, not_or]
    refine ⟨?_, (h.used p hp).2⟩
    rintro heq
    exact hf.2 (heq ▸ (h.used p hp).1)

theorem publish (h : CausationInv env topicPrefix w) (hl : LineageInv w) {event : SagaEvent} {cause : Cause}
    (hf : w.Fresh event.eventId) (hid : event.causationId = cause.id)
    (hg : cause.Grounded env topicPrefix w.created w.published) :
    CausationInv env topicPrefix (w.publish event cause) := by
  have hgrow : w.published ⊆ w.published ++ [⟨event, cause⟩] := List.subset_append_left _ _
  have hmono : ∀ {c : Cause}, c.Grounded env topicPrefix w.created w.published →
      c.Grounded env topicPrefix w.created (w.published ++ [(⟨event, cause⟩ : Publication)]) :=
    fun hc => hc.mono (List.Subset.refl _) hgrow
  refine ⟨fun x hx => ⟨(h.scopes x hx).1, hmono (h.scopes x hx).2⟩, fun a ha => hmono (h.activations a ha),
    fun p hp => ?_, h.ordered.snoc hg, ?_, fun p hp => ?_⟩
  · rcases List.mem_append.1 hp with hp | hp
    · exact h.published p hp
    · rw [List.mem_singleton.1 hp]; exact hid
  · show ((w.published ++ [(⟨event, cause⟩ : Publication)]).map (·.event.eventId)).Nodup
    rw [List.map_append, List.nodup_append]
    refine ⟨h.distinct, List.nodup_singleton _, ?_⟩
    rintro a ha b hb rfl
    obtain ⟨p, hp, rfl⟩ := List.mem_map.1 ha
    rw [List.map_singleton, List.mem_singleton] at hb
    exact hf.2 (hb ▸ (h.used p hp).1)
  · rcases List.mem_append.1 hp with hp | hp
    · exact ⟨List.mem_cons_of_mem _ (h.used p hp).1, (h.used p hp).2⟩
    · rw [List.mem_singleton.1 hp]
      exact ⟨List.mem_cons_self, fun hmem => hf.2 (hl.ids _ hmem).2⟩

theorem activate (h : CausationInv env topicPrefix w) {event : SagaEvent} {config : Option HandlerConfig}
    (hg : (Cause.handling event).Grounded env topicPrefix w.created w.published) :
    CausationInv env topicPrefix (w.activate event config) := by
  have hs := h.enter (s := ⟨SagaRunner.handlerContext event, .handling event⟩) rfl hg
  refine ⟨hs.scopes, fun a ha => ?_, h.published, h.ordered, h.distinct, h.used⟩
  rcases List.mem_append.1 ha with ha | ha
  · exact h.activations a ha
  · rw [List.mem_singleton.1 ha]; exact hg

end CausationInv

section Steps

open SagaPublisher SagaRunner

variable {w w' : World}

theorem causation_start (hi : CausationInv env topicPrefix w) {current : Option Scope}
    (hc : ∀ s, current = some s → s ∈ w.scopes) {opts : Option SagaStartOptions} {sagaId : String}
    {ctx : SagaContextData} (hf : w.Fresh sagaId) (h : start (current.map (·.ctx)) opts sagaId = .ok ctx) :
    CausationInv env topicPrefix (w.create sagaId ((if independent opts then none else current).map (·.ctx.sagaId))
      ⟨ctx, ((if independent opts then none else current).map (·.cause)).getD (.started sagaId)⟩) := by
  unfold start at h
  cases current with
  | none =>
    cases h
    rw [ite_self]
    exact hi.create hf rfl List.mem_cons_self
  | some s =>
    cases hind : independent opts with
    | true =>
      rw [hind] at h
      cases h
      exact hi.create hf rfl List.mem_cons_self
    | false =>
      rw [hind] at h
      obtain ⟨hid, hg⟩ := hi.scopes s (hc s rfl)
      refine hi.create hf ?_ (hg.mono (List.subset_cons_self _ _) (List.Subset.refl _))
      exact (startChild_causationId h).trans hid

/-- Every operation keeps causation ids those of causes. -/
theorem causationInv_step {a : SagaAct} (hl : LineageInv w) (hi : CausationInv env topicPrefix w)
    (h : sagaStep env topicPrefix w a = some w') : CausationInv env topicPrefix w' := by
  cases sagaStep_move h with
  | start hcur hctx hf => exact causation_start hi (World.mem_of_ambient hcur) hf hctx
  | startChild hs hctx hf =>
    obtain ⟨hid, hg⟩ := hi.scopes _ (List.mem_of_getElem? hs)
    exact hi.create hf ((startChild_causationId hctx).trans hid)
      (hg.mono (List.subset_cons_self _ _) (List.Subset.refl _))
  | emit hs hev hf =>
    obtain ⟨hid, hg⟩ := hi.scopes _ (List.mem_of_getElem? hs)
    obtain ⟨hcaus, rfl⟩ := emit_causationId hev
    exact hi.publish hl hf (hcaus.trans hid) hg
  | emitToParent hs hev hf =>
    obtain ⟨hid, hg⟩ := hi.scopes _ (List.mem_of_getElem? hs)
    obtain ⟨hcaus, rfl⟩ := emitToParent_causationId hev
    exact hi.publish hl hf (hcaus.trans hid) hg
  | emitToParentFn hs hctx =>
    obtain ⟨hid, hg⟩ := hi.scopes _ (List.mem_of_getElem? hs)
    exact hi.enter ((emitToParentContext_causationId hctx).trans hid) hg
  | deliver hp hparse hadded => exact hi.activate ⟨_, List.mem_of_getElem? hp, _, hadded, hparse⟩
  | @forkEmit _ _ _ subSagaId eventId _ act _ fork hact _ _ hfs hfe hne =>
    have hg := hi.activations act (List.mem_of_getElem? hact)
    have hsub : CausationInv env topicPrefix
        (w.create subSagaId (some act.event.sagaId) ⟨forkContext act.event fork subSagaId, .handling act.event⟩) :=
      hi.create hfs rfl (hg.mono (List.subset_cons_self _ _) (List.Subset.refl _))
    have hlsub : LineageInv
        (w.create subSagaId (some act.event.sagaId) ⟨forkContext act.event fork subSagaId, .handling act.event⟩) := by
      have hof := hl.activations act (List.mem_of_getElem? hact)
      exact hl.create hfs (fun p hp => by cases hp; exact hof.mem) (hof.child subSagaId)
    refine hsub.publish hlsub ⟨hfe.1, ?_⟩ rfl (hg.mono (List.subset_cons_self _ _) (List.Subset.refl _))
    show eventId ∉ subSagaId :: w.used
    rw [List.mem_cons, not_or]
    exact ⟨fun heq => hne heq.symm, hfe.2⟩
  | boundEmit hact _ _ hf => exact hi.publish hl hf rfl (hi.activations _ (List.mem_of_getElem? hact))

theorem causationInv_empty : CausationInv env topicPrefix .empty where
  scopes _ h := absurd h List.not_mem_nil
  activations _ h := absurd h List.not_mem_nil
  published _ h := absurd h List.not_mem_nil
  ordered := justified_nil _
  distinct := List.nodup_nil
  used _ h := absurd h List.not_mem_nil

end Steps

/-! ## Chains of causes -/

namespace CausationInv

variable {w : World}

theorem grounded (h : CausationInv env topicPrefix w) {p : Publication} (hp : p ∈ w.published) :
    p.cause.Grounded env topicPrefix w.created w.published := by
  obtain ⟨before, after, heq⟩ := List.append_of_mem hp
  exact (h.ordered before p after heq).mono (List.Subset.refl _) (by rw [heq]; exact List.subset_append_left _ _)

theorem causation_eq (h : CausationInv env topicPrefix w) {p : Publication} (hp : p ∈ w.published) :
    w.causation p.event.eventId = some p.event.causationId := by
  have hsome : (w.published.find? (·.event.eventId == p.event.eventId)).isSome :=
    List.find?_isSome.2 ⟨p, hp, beq_self_eq_true _⟩
  obtain ⟨q, hq⟩ := Option.isSome_iff_exists.1 hsome
  have hqp : q = p := List.inj_on_of_nodup_map h.distinct (List.mem_of_find?_eq_some hq) hp
    (by simpa using List.find?_some hq)
  unfold World.causation
  rw [hq, hqp]; rfl

/-- A saga is not an event, so a chain ends there. -/
theorem causation_root (h : CausationInv env topicPrefix w) {root : String} (hr : root ∈ w.created.nodes) :
    w.causation root = none := by
  unfold World.causation
  rw [Option.map_eq_none_iff, List.find?_eq_none]
  intro p hp heq
  rw [beq_iff_eq] at heq
  exact (h.used p hp).2 (heq ▸ hr)

/-- Every cause is some number of handlers away from a start. -/
theorem hops_exist (h : CausationInv env topicPrefix w) : ∀ p ∈ w.published, ∃ root n,
    w.Hops env topicPrefix p.cause root n := by
  -- by the position of the publication: what it was caused by was published before it
  have hall : ∀ k, ∀ before p after, before.length = k → w.published = before ++ p :: after →
      ∃ root n, w.Hops env topicPrefix p.cause root n := by
    intro k
    induction k using Nat.strong_induction_on with
    | _ k ih =>
      rintro before p after rfl heq
      have hg : p.cause.Grounded env topicPrefix w.created before := h.ordered before p after heq
      cases hc : p.cause with
      | started root => exact ⟨root, 0, .started root⟩
      | handling event =>
        rw [hc] at hg
        obtain ⟨q, hq, harr⟩ := hg
        obtain ⟨l1, l2, rfl⟩ := List.append_of_mem hq
        have hlt : l1.length < (l1 ++ q :: l2).length := by
          rw [List.length_append, List.length_cons]
          omega
        obtain ⟨root, n, hn⟩ := ih l1.length hlt l1 q (l2 ++ p :: after) rfl (by rw [heq]; simp)
        exact ⟨root, n + 1, .handled (by rw [heq]; simp) harr hn⟩
  intro p hp
  obtain ⟨before, after, heq⟩ := List.append_of_mem hp
  exact hall before.length before p after rfl heq

/-- From an event the chain leads to the start in one step more than there are handlers. -/
theorem follow_hops (h : CausationInv env topicPrefix w) (hl : LineageInv w) {c : Cause} {root : String} {n : ℕ}
    (hn : w.Hops env topicPrefix c root n) :
    ∀ p ∈ w.published, p.cause = c → Chain.follow w.causation (n + 1) p.event.eventId = some root := by
  induction hn with
  | started root =>
    intro p hp hc
    rw [Nat.zero_add, Chain.follow_one, h.causation_eq hp, h.published p hp, hc]
    rfl
  | @handled q event root n hq harr _ ih =>
    intro p hp hc
    obtain ⟨added, hadded, hparse⟩ := harr
    obtain ⟨payload, rfl⟩ := deliver_wire hl hq hadded hparse
    have hstep : w.causation p.event.eventId = some q.event.eventId := by
      rw [h.causation_eq hp, h.published p hp, hc]
      rfl
    show (w.causation p.event.eventId).bind (Chain.follow w.causation (n + 1)) = some root
    rw [hstep]
    exact ih q hq rfl

/-- The start that a publication leads to is that of a root saga. -/
theorem hops_root (h : CausationInv env topicPrefix w) {c : Cause} {root : String} {n : ℕ}
    (hn : w.Hops env topicPrefix c root n) (hc : c.Grounded env topicPrefix w.created w.published) :
    (root, none) ∈ w.created := by
  induction hn with
  | started root => exact hc
  | handled hq _ _ ih => exact ih (h.grounded hq)

end CausationInv

/-- In every run each event carries the id of its cause, its cause is some number of handlers away from
the start of a root saga, following causation ids from the event reaches that saga in exactly one step
more, and no chain of causation ids comes back to an id. -/
theorem causation_chain {w : World} (h : Reachable (sagaStep env topicPrefix) .empty w) :
    (∀ p ∈ w.published, p.event.causationId = p.cause.id) ∧
    (∀ p ∈ w.published, ∃ root n, w.Hops env topicPrefix p.cause root n) ∧
    (∀ p ∈ w.published, ∀ root n, w.Hops env topicPrefix p.cause root n →
      (root, none) ∈ w.created ∧ ∀ m, Chain.follow w.causation m p.event.eventId = some root ↔ m = n + 1) ∧
    ∀ id m, Chain.follow w.causation (m + 1) id ≠ some id := by
  have hboth : LineageInv w ∧ CausationInv env topicPrefix w :=
    h.induction (I := fun w => LineageInv w ∧ CausationInv env topicPrefix w)
      (fun _ _ _ hi hs => ⟨lineageInv_step hi.1 hs, causationInv_step hi.1 hi.2 hs⟩)
      ⟨lineageInv_empty, causationInv_empty⟩
  obtain ⟨hl, hi⟩ := hboth
  have hroot : ∀ p ∈ w.published, ∀ root n, w.Hops env topicPrefix p.cause root n →
      (root, none) ∈ w.created ∧ w.causation root = none := by
    intro p hp root n hn
    have hmem := hi.hops_root hn (hi.grounded hp)
    exact ⟨hmem, hi.causation_root (List.mem_map.2 ⟨_, hmem, rfl⟩)⟩
  refine ⟨hi.published, hi.hops_exist, fun p hp root n hn => ?_, fun id m => ?_⟩
  · obtain ⟨hmem, hend⟩ := hroot p hp root n hn
    exact ⟨hmem, Chain.follow_end_iff hend (hi.follow_hops hl hn p hp rfl)⟩
  · by_cases hid : ∃ p ∈ w.published, p.event.eventId = id
    · obtain ⟨p, hp, rfl⟩ := hid
      obtain ⟨root, n, hn⟩ := hi.hops_exist p hp
      exact Chain.follow_ne_self (hroot p hp root n hn).2 (hi.follow_hops hl hn p hp rfl) m
    · have hnone : w.causation id = none := by
        unfold World.causation
        rw [Option.map_eq_none_iff, List.find?_eq_none]
        intro p hp heq
        exact hid ⟨p, hp, beq_iff_eq.1 heq⟩
      rw [Chain.follow_end hnone]
      simp

theorem causation_chain_sample :
    ∃ w, run (sagaStep .sample "prod.") .empty SagaAct.sampleRun = some w ∧
      Chain.follow w.causation 3 "event-3" = some "saga-1" ∧ ∀ id m, Chain.follow w.causation (m + 1) id ≠ some id := by
  obtain ⟨w, hr, hp⟩ := exists_of_run (sagaStep .sample "prod.") .empty SagaAct.sampleRun
    (fun w => Chain.follow w.causation 3 "event-3" == some "saga-1") (by decide +kernel)
  have hchain : ∀ id m, Chain.follow w.causation (m + 1) id ≠ some id := (causation_chain ⟨_, hr⟩).2.2.2
  exact ⟨w, hr, by simpa using hp, hchain⟩

/-! ## The scope of a call -/

/-- The scope that a publishing call is made in. -/
def SagaAct.site : SagaAct → Option ℕ
  | .emit scope _ _ _ => some scope
  | .emitToParent scope _ _ _ => some scope
  | .boundEmit _ scope _ _ _ _ => scope
  | _ => none

/-- What is published in a scope carries the id of the cause of the scope, by whatever call. -/
def CausedByScope (env : ParseEnv) (topicPrefix : String) : Prop :=
  ∀ w w' act i s, Reachable (sagaStep env topicPrefix) .empty w → sagaStep env topicPrefix w act = some w' →
    act.site = some i → w.scopes[i]? = some s →
      ∀ p ∈ w'.published.drop w.published.length, p.event.causationId = s.cause.id

/-- A handler starts an independent saga. -/
def SagaAct.independentRun : List SagaAct :=
  [.start none none "saga-1", .emit 0 .sample "event-1" "t1", .deliver 0 [] none,
    .start (some 1) (some ⟨none, none, none, some true⟩) "saga-2"]

/-- The emit function of a handler keeps the event it was made for, also where it is called inside an
independent start: what it publishes there does not carry the id of the saga started. -/
theorem not_causedByScope : ¬ CausedByScope .sample "prod." := by
  intro h
  obtain ⟨w, hw, ht⟩ := exists_of_run (sagaStep .sample "prod.") .empty SagaAct.independentRun
    (fun w => (sagaStep .sample "prod." w (.boundEmit 0 (some 2) .sample "saga-3" "event-2" "t2")).any fun w' =>
      w.scopes[2]?.any (·.cause.id == "saga-2") &&
        (w'.published.drop w.published.length).any (·.event.causationId == "event-1")) (by decide +kernel)
  obtain ⟨w', hs, ht⟩ := (Option.any_eq_true _ _).1 ht
  rw [Bool.and_eq_true] at ht
  obtain ⟨s, hscope, hid⟩ := (Option.any_eq_true _ _).1 ht.1
  obtain ⟨p, hp, hcaus⟩ := List.any_eq_true.1 ht.2
  have heq := h w w' _ 2 s ⟨_, hw⟩ hs rfl hscope p hp
  rw [beq_iff_eq] at hid hcaus
  rw [hid, hcaus] at heq
  exact absurd heq (by decide)

end Saga
