/-
The lineage of a saga: its parent, its root and the chain of its ancestors are carried by contexts
and events and rebuilt by every operation, and in every run they are the ancestors of the saga in
the forest of the sagas created.
-/
import SagaProofs.Core.World

namespace Saga

open Lts

/-! ## Lineages -/

/-- The lineage fields of a context or an event. -/
structure Lineage where
  sagaId : String
  rootSagaId : String
  parentSagaId : Option String
  ancestorChain : Option (List String)

def SagaContextData.lineage (ctx : SagaContextData) : Lineage :=
  ⟨ctx.sagaId, ctx.rootSagaId, ctx.parentSagaId, ctx.ancestorChain⟩

def SagaEvent.lineage (event : SagaEvent) : Lineage :=
  ⟨event.sagaId, event.rootSagaId, event.parentSagaId, event.ancestorChain⟩

namespace Lineage

/-- The ancestor chain, absent read as empty. -/
def chain (l : Lineage) : List String := l.ancestorChain.getD []

/-- A saga created in the saga of the lineage. -/
def child (l : Lineage) (sagaId : String) : Lineage :=
  ⟨sagaId, l.rootSagaId, some l.sagaId, some (l.sagaId :: l.chain)⟩

/-- The parent of the saga of the lineage. -/
def up (l : Lineage) (parent : String) : Lineage :=
  ⟨parent, l.rootSagaId, (l.chain.drop 1).head?, some (l.chain.drop 1)⟩

/-- The lineage as the other side of the wire reads it. -/
def wire (l : Lineage) : Lineage :=
  ⟨l.sagaId, l.rootSagaId, truthy l.parentSagaId, wireChain l.ancestorChain⟩

/-- The lineage is that of its saga among the sagas created. -/
structure Of (created : Forest String) (l : Lineage) : Prop where
  mem : l.sagaId ∈ created.nodes
  chain : l.chain = created.ancestors l.sagaId
  parent : l.parentSagaId = (created.ancestors l.sagaId).head?
  root : l.rootSagaId = created.root l.sagaId

variable {created : Forest String} {l : Lineage}

/-- What a lineage says of itself: the parent is the first of the chain, the root the last or the saga
itself, and the chain has no duplicates, does not have the saga and is that of the creations. -/
structure Consistent (created : Forest String) (l : Lineage) : Prop where
  parent : l.parentSagaId = l.chain.head?
  root : l.rootSagaId = l.chain.getLast?.getD l.sagaId
  not_self : l.sagaId ∉ l.chain
  nodup : l.chain.Nodup
  ancestors : l.chain = created.ancestors l.sagaId

theorem Of.consistent (h : Of created l) (hg : created.Grown) : Consistent created l := by
  refine ⟨?_, ?_, ?_, ?_, h.chain⟩
  · rw [h.chain, h.parent]
  · rw [h.chain, h.root]
    rfl
  · rw [h.chain]
    exact Forest.not_mem_ancestors hg l.sagaId
  · rw [h.chain]
    exact Forest.ancestors_nodup hg l.sagaId

/-- The creation of a saga leaves the lineages of the others. -/
theorem Of.grow (h : Of created l) {x : String} {parent : Option String} (hg : Forest.Grown ((x, parent) :: created)) :
    Of ((x, parent) :: created) l := by
  have ha := Forest.ancestors_grow hg h.mem
  refine ⟨List.mem_cons_of_mem x h.mem, ?_, ?_, ?_⟩
  · rw [ha]; exact h.chain
  · rw [ha]; exact h.parent
  · unfold Forest.root
    rw [ha]; exact h.root

theorem of_root (x : String) : Of ((x, none) :: created) ⟨x, x, none, some []⟩ := by
  refine ⟨List.mem_cons_self, ?_, ?_, ?_⟩
  · rw [Forest.ancestors_root]; rfl
  · rw [Forest.ancestors_root]; rfl
  · rw [Forest.root_of_ancestors_nil (Forest.ancestors_root x created)]

theorem Of.child (h : Of created l) (x : String) : Of ((x, some l.sagaId) :: created) (l.child x) := by
  refine ⟨List.mem_cons_self, ?_, ?_, ?_⟩
  · show l.sagaId :: l.chain = _
    rw [h.chain]; exact (Forest.ancestors_child x l.sagaId created).symm
  · show some l.sagaId = (Forest.ancestors ((x, some l.sagaId) :: created) x).head?
    rw [Forest.ancestors_child]; rfl
  · show l.rootSagaId = Forest.root ((x, some l.sagaId) :: created) x
    rw [h.root]
    unfold Forest.root
    rw [Forest.ancestors_child]
    cases created.ancestors l.sagaId with
    | nil => rfl
    | cons p above => rw [List.getLast?_cons_cons, List.getLast?_eq_some_getLast (List.cons_ne_nil p above)]; rfl

/-- The parent that a lineage names has the lineage above it. -/
theorem Of.up (h : Of created l) (hg : created.Grown) {parent : String} (hp : truthy l.parentSagaId = some parent) :
    Of created (l.up parent) := by
  have hhead : (created.ancestors l.sagaId).head? = some parent := by
    rw [← h.parent]; exact (truthy_eq_some.1 hp).1
  obtain ⟨above, habove⟩ := List.head?_eq_some_iff.1 hhead
  obtain ⟨hmem, hanc⟩ := Forest.ancestors_parent hg habove
  have hdrop : l.chain.drop 1 = created.ancestors parent := by
    rw [h.chain, habove, hanc]
    rfl
  refine ⟨hmem, hdrop, congrArg List.head? hdrop, ?_⟩
  show l.rootSagaId = created.root parent
  rw [h.root, Forest.root_parent hg habove]

/-- A lineage survives the wire when the ids of the sagas are non-empty and have no comma. -/
theorem Of.wire (h : Of created l) (hg : created.Grown) (hids : ∀ id ∈ created.nodes, ChainId id) : Of created l.wire := by
  have hanc : ∀ id ∈ created.ancestors l.sagaId, ChainId id := fun id hid =>
    hids id (Forest.ancestors_subset hg l.sagaId id hid)
  have hchain : (wireChain l.ancestorChain).getD [] = l.chain :=
    (wireChain_eq_iff l.ancestorChain).2 fun id hid => hanc id (h.chain ▸ hid)
  refine ⟨h.mem, hchain.trans h.chain, ?_, h.root⟩
  show truthy l.parentSagaId = (created.ancestors l.sagaId).head?
  rw [h.parent]
  cases ha : created.ancestors l.sagaId with
  | nil => rfl
  | cons p above => exact truthy_some (hanc p (by rw [ha]; exact List.mem_cons_self)).1

end Lineage

/-! ## What the operations make of a lineage -/

section Operations

open SagaPublisher SagaRunner

theorem startChild_lineage {s ctx : SagaContextData} {opts : Option SagaStartOptions} {sagaId : String}
    (h : startChild (some s) opts sagaId = .ok ctx) : ctx.lineage = s.lineage.child sagaId := by
  cases h; rfl

theorem emit_lineage {s : SagaContextData} {params : EmitParams} {eventId now : String} {event : SagaEvent}
    (h : emit (some s) params eventId now = .ok event) : event.lineage = s.lineage := by
  cases h; rfl

theorem parentOf_ok {s : SagaContextData} {parent : String} {above : List String} (h : parentOf s = .ok (parent, above)) :
    truthy s.parentSagaId = some parent ∧ above = s.lineage.chain.drop 1 := by
  unfold parentOf at h
  split at h
  · rename_i p hp
    cases h; exact ⟨hp, rfl⟩
  · cases h

theorem emitToParent_lineage {s : SagaContextData} {params : EmitParams} {eventId now : String} {event : SagaEvent}
    (h : emitToParent (some s) params eventId now = .ok event) :
    ∃ parent, truthy s.parentSagaId = some parent ∧ event.lineage = s.lineage.up parent := by
  obtain ⟨parent, above, hp, rfl⟩ := emitToParent_ok h
  obtain ⟨htruthy, rfl⟩ := parentOf_ok hp
  exact ⟨parent, htruthy, rfl⟩

theorem emitToParentContext_lineage {s ctx : SagaContextData} (h : emitToParentContext (some s) = .ok ctx) :
    ∃ parent, truthy s.parentSagaId = some parent ∧ ctx.lineage = s.lineage.up parent := by
  obtain ⟨parent, above, hp, rfl⟩ := emitToParentContext_ok h
  obtain ⟨htruthy, rfl⟩ := parentOf_ok hp
  exact ⟨parent, htruthy, rfl⟩

end Operations

/-! ## The invariant -/

structure LineageInv (w : World) : Prop where
  grown : w.created.Grown
  ids : ∀ id ∈ w.created.nodes, ChainId id ∧ id ∈ w.used
  scopes : ∀ s ∈ w.scopes, s.ctx.lineage.Of w.created
  activations : ∀ a ∈ w.activations, a.event.lineage.Of w.created
  published : ∀ p ∈ w.published, p.event.lineage.Of w.created

namespace LineageInv

variable {w : World}

theorem enter (h : LineageInv w) {s : Scope} (hs : s.ctx.lineage.Of w.created) : LineageInv (w.enter s) := by
  refine ⟨h.grown, h.ids, fun x hx => ?_, h.activations, h.published⟩
  rcases List.mem_append.1 hx with hx | hx
  · exact h.scopes x hx
  · rw [List.mem_singleton.1 hx]; exact hs

theorem publish (h : LineageInv w) {event : SagaEvent} {cause : Cause} (he : event.lineage.Of w.created) :
    LineageInv (w.publish event cause) := by
  refine ⟨h.grown, fun id hid => ⟨(h.ids id hid).1, List.mem_cons_of_mem _ (h.ids id hid).2⟩, h.scopes, h.activations,
    fun p hp => ?_⟩
  rcases List.mem_append.1 hp with hp | hp
  · exact h.published p hp
  · rw [List.mem_singleton.1 hp]; exact he

theorem activate (h : LineageInv w) {event : SagaEvent} {config : Option HandlerConfig} (he : event.lineage.Of w.created) :
    LineageInv (w.activate event config) := by
  refine ⟨h.grown, h.ids, fun s hs => ?_, fun a ha => ?_, h.published⟩
  · rcases List.mem_append.1 hs with hs | hs
    · exact h.scopes s hs
    · rw [List.mem_singleton.1 hs]; exact he
  · rcases List.mem_append.1 ha with ha | ha
    · exact h.activations a ha
    · rw [List.mem_singleton.1 ha]; exact he

/-- A fresh saga, created as a root or in a saga that was. -/
theorem create (h : LineageInv w) {sagaId : String} {parent : Option String} {s : Scope} (hf : w.Fresh sagaId)
    (hp : ∀ p, parent = some p → p ∈ w.created.nodes) (hs : s.ctx.lineage.Of ((sagaId, parent) :: w.created)) :
    LineageInv (w.create sagaId parent s) := by
  have hg : Forest.Grown ((sagaId, parent) :: w.created) :=
    ⟨fun hmem => hf.2 (h.ids sagaId hmem).2, hp, h.grown⟩
  refine ⟨hg, fun id hid => ?_, fun x hx => ?_, fun a ha => (h.activations a ha).grow hg,
    fun p hp => (h.published p hp).grow hg⟩
  · rcases List.mem_cons.1 hid with rfl | hid
    · exact ⟨hf.1, List.mem_cons_self⟩
    · exact ⟨(h.ids id hid).1, List.mem_cons_of_mem _ (h.ids id hid).2⟩
  · rcases List.mem_append.1 hx with hx | hx
    · exact (h.scopes x hx).grow hg
    · rw [List.mem_singleton.1 hx]; exact hs

end LineageInv

section Steps

open SagaPublisher SagaRunner

variable {env : ParseEnv} {topicPrefix : String} {w w' : World}

/-- What a handler receives is a published event as the wire leaves it. -/
theorem deliver_wire (hi : LineageInv w) {p : Publication} (hp : p ∈ w.published) {added : List (String × String)}
    {event : SagaEvent} (ha : added.all (foreignHeader ·.1) = true)
    (h : parse env (arrive (buildOutboundMessage env.json p.event topicPrefix) added) = some (.headers event)) :
    ∃ payload, event = { wire topicPrefix p.event with payload } := by
  have hid : p.event.sagaId ≠ "" := (hi.ids _ (hi.published p hp).mem).1.1
  rw [parse_delivered hid (arrive_delivered _ ha)] at h
  obtain ⟨payload, -, heq⟩ := Option.map_eq_some_iff.1 h
  cases heq; exact ⟨payload, rfl⟩

theorem lineage_deliver (hi : LineageInv w) {p : Publication} (hp : p ∈ w.published) {added : List (String × String)}
    {event : SagaEvent} (ha : added.all (foreignHeader ·.1) = true)
    (h : parse env (arrive (buildOutboundMessage env.json p.event topicPrefix) added) = some (.headers event)) :
    event.lineage.Of w.created := by
  obtain ⟨payload, rfl⟩ := deliver_wire hi hp ha h
  exact (hi.published p hp).wire hi.grown fun id hid => (hi.ids id hid).1

theorem lineage_start (hi : LineageInv w) {current : Option Scope} (hc : ∀ s, current = some s → s ∈ w.scopes)
    {opts : Option SagaStartOptions} {sagaId : String} {ctx : SagaContextData} {cause : Cause} (hf : w.Fresh sagaId)
    (h : start (current.map (·.ctx)) opts sagaId = .ok ctx) :
    LineageInv (w.create sagaId ((if independent opts then none else current).map (·.ctx.sagaId)) ⟨ctx, cause⟩) := by
  unfold start at h
  cases current with
  | none =>
    cases h
    rw [ite_self]
    exact hi.create hf nofun (Lineage.of_root sagaId)
  | some s =>
    cases hind : independent opts with
    | true =>
      rw [hind] at h
      cases h
      exact hi.create hf nofun (Lineage.of_root sagaId)
    | false =>
      rw [hind] at h
      have hof := hi.scopes s (hc s rfl)
      refine hi.create hf (fun p hp => ?_) ?_
      · cases hp; exact hof.mem
      · show ctx.lineage.Of _
        rw [startChild_lineage h]
        exact hof.child sagaId

/-- Every operation keeps the lineages those of the creations. -/
theorem lineageInv_step {a : SagaAct} (hi : LineageInv w) (h : sagaStep env topicPrefix w a = some w') : LineageInv w' := by
  cases sagaStep_move h with
  | start hcur hctx hf => exact lineage_start hi (World.mem_of_ambient hcur) hf hctx
  | startChild hs hctx hf =>
    have hof := hi.scopes _ (List.mem_of_getElem? hs)
    refine hi.create hf (fun p hp => by cases hp; exact hof.mem) ?_
    show Lineage.Of _ (SagaContextData.lineage _)
    rw [startChild_lineage hctx]
    exact hof.child _
  | emit hs hev =>
    apply hi.publish
    rw [emit_lineage hev]
    exact hi.scopes _ (List.mem_of_getElem? hs)
  | emitToParent hs hev =>
    obtain ⟨parent, hp, hl⟩ := emitToParent_lineage hev
    apply hi.publish
    rw [hl]
    exact (hi.scopes _ (List.mem_of_getElem? hs)).up hi.grown hp
  | emitToParentFn hs hctx =>
    obtain ⟨parent, hp, hl⟩ := emitToParentContext_lineage hctx
    apply hi.enter
    show Lineage.Of _ (SagaContextData.lineage _)
    rw [hl]
    exact (hi.scopes _ (List.mem_of_getElem? hs)).up hi.grown hp
  | deliver hp hparse hadded => exact hi.activate (lineage_deliver hi (List.mem_of_getElem? hp) hadded hparse)
  | @forkEmit _ _ _ subSagaId _ _ _ _ _ hact _ _ hf =>
    have hof := hi.activations _ (List.mem_of_getElem? hact)
    -- the forked saga is a child of the saga of the event, and what is emitted belongs to it
    have hchild := hof.child subSagaId
    exact (hi.create hf (fun p hp => by cases hp; exact hof.mem) hchild).publish hchild
  | boundEmit hact => exact hi.publish (hi.activations _ (List.mem_of_getElem? hact))

theorem lineageInv_empty : LineageInv .empty where
  grown := trivial
  ids _ h := absurd h List.not_mem_nil
  scopes _ h := absurd h List.not_mem_nil
  activations _ h := absurd h List.not_mem_nil
  published _ h := absurd h List.not_mem_nil

/-- In every run, every context established and every event published has the parent, the root and
the ancestor chain that the creations of the sagas give its saga. -/
theorem lineage_consistent (h : Reachable (sagaStep env topicPrefix) .empty w) :
    (∀ s ∈ w.scopes, s.ctx.lineage.Consistent w.created) ∧
    (∀ p ∈ w.published, p.event.lineage.Consistent w.created) := by
  have hi : LineageInv w := h.induction (fun _ _ _ hi hs => lineageInv_step hi hs) lineageInv_empty
  exact ⟨fun s hs => (hi.scopes s hs).consistent hi.grown, fun p hp => (hi.published p hp).consistent hi.grown⟩

end Steps

/-! ## A tree of sagas -/

def EmitParams.sample : EmitParams :=
  { topic := "order.created"
    stepName := "create"
    stepDescription := none
    payload := .obj [("orderId", .str "456")]
    hint := none
    key := none }

/-- A root saga with a saga nested in it, an emit from the inner one that a fork handler receives, what
it emits received in turn, and an emit to the parent from there. -/
def SagaAct.sampleRun : List SagaAct :=
  [.start none none "saga-1", .start (some 0) none "saga-2", .emit 1 .sample "event-1" "t1",
    .deliver 0 [("traceparent", "00-0af7651916cd43dd-b7ad6b7169203331-01")] (some ⟨none, some (.flag true)⟩),
    .boundEmit 0 (some 2) .sample "saga-3" "event-2" "t2", .deliver 1 [] none, .emitToParent 4 .sample "event-3" "t3"]

theorem lineage_consistent_sample :
    ∃ w, run (sagaStep .sample "prod.") .empty SagaAct.sampleRun = some w ∧ w.published.length = 3 ∧
      ∀ p ∈ w.published, p.event.lineage.Consistent w.created := by
  obtain ⟨w, hr, hp⟩ := exists_of_run (sagaStep .sample "prod.") .empty SagaAct.sampleRun
    (fun w => w.published.length == 3) (by decide +kernel)
  exact ⟨w, hr, by simpa using hp, (lineage_consistent ⟨_, hr⟩).2⟩

end Saga
