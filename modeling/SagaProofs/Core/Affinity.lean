/-
Partition affinity: in a tree of sagas that begins with one start, where later starts and emits bring
no key of their own, every message has one and the same key, that of the first start or else the id
of the root saga.
-/
import SagaProofs.Core.Lineage

namespace Saga

open Lts

/-! ## What a message key is made of -/

/-- The fields of a context or an event that decide the key of a message. -/
structure Affinity where
  rootSagaId : String
  key : Option String

def SagaContextData.affinity (ctx : SagaContextData) : Affinity := ⟨ctx.rootSagaId, ctx.key⟩

def SagaEvent.affinity (event : SagaEvent) : Affinity := ⟨event.rootSagaId, event.key⟩

/-- `event.key ?? event.rootSagaId`. -/
def Affinity.messageKey (a : Affinity) : String := a.key.getD a.rootSagaId

theorem buildOutboundMessage_key (json : JSON) (event : SagaEvent) (topicPrefix : String) :
    (buildOutboundMessage json event topicPrefix).key = event.affinity.messageKey := rfl

/-! ## What the operations make of it -/

section Operations

open SagaPublisher SagaRunner

variable {s ctx : SagaContextData} {params : EmitParams} {eventId now : String} {event : SagaEvent}

/-- An emit without a key, in a context that has the base key if there is one, keeps the base key. -/
theorem BoundEmit.affinity {emit : BoundEmit} {current : Option SagaContextData} (hk : params.key = none)
    (hc : ∀ c, current = some c → c.key = emit.baseKey) :
    (emit.event current params eventId now).affinity = ⟨emit.rootSagaId, emit.baseKey⟩ := by
  have hkey : (params.key.or emit.baseKey).or (current.bind (·.key)) = emit.baseKey := by
    rw [hk, Option.none_or]
    cases current with
    | none => exact Option.or_none
    | some c => rw [Option.bind_some, hc c rfl, Option.or_self]
  show Affinity.mk emit.rootSagaId ((params.key.or emit.baseKey).or (current.bind (·.key))) = _
  rw [hkey]

theorem startChild_affinity {opts : Option SagaStartOptions} {sagaId : String} (hk : opts.bind (·.key) = none)
    (h : startChild (some s) opts sagaId = .ok ctx) : ctx.affinity = s.affinity := by
  cases h
  show Affinity.mk s.rootSagaId ((opts.bind (·.key)).or s.key) = _
  rw [hk]; rfl

theorem emit_affinity (hk : params.key = none) (h : emit (some s) params eventId now = .ok event) :
    event.affinity = s.affinity := by
  cases h
  exact BoundEmit.affinity hk fun c hc => by cases hc; rfl

theorem emitToParent_affinity (hk : params.key = none) (h : emitToParent (some s) params eventId now = .ok event) :
    event.affinity = s.affinity := by
  obtain ⟨parent, above, -, rfl⟩ := emitToParent_ok h
  exact BoundEmit.affinity hk fun c hc => by cases hc; rfl

theorem emitToParentContext_affinity (h : emitToParentContext (some s) = .ok ctx) : ctx.affinity = s.affinity := by
  obtain ⟨parent, above, -, rfl⟩ := emitToParentContext_ok h
  rfl

theorem wrappedEmit_affinity {config : Option HandlerConfig} {current : Option SagaContextData} (hk : params.key = none)
    (hc : ∀ c, current = some c → c.key = event.key) :
    (wrappedEmit event config current params eventId now).affinity = event.affinity := by
  unfold wrappedEmit
  apply BoundEmit.affinity _ hc
  split
  · exact hk
  · exact hk

theorem forkEmit_affinity {fork : ForkConfig} {subSagaId : String} (hk : params.key = none) :
    (forkEmit event fork subSagaId params eventId now).affinity = event.affinity :=
  BoundEmit.affinity hk fun c hc => by cases hc; rfl

end Operations

/-! ## The invariant -/

/-- Every context, every event received and every event published has the affinity. -/
structure AffinityInv (a : Affinity) (w : World) : Prop where
  scopes : ∀ s ∈ w.scopes, s.ctx.affinity = a
  activations : ∀ act ∈ w.activations, act.event.affinity = a
  published : ∀ p ∈ w.published, p.event.affinity = a

namespace AffinityInv

variable {a : Affinity} {w : World}

theorem enter (h : AffinityInv a w) {s : Scope} (hs : s.ctx.affinity = a) : AffinityInv a (w.enter s) := by
  refine ⟨fun x hx => ?_, h.activations, h.published⟩
  rcases List.mem_append.1 hx with hx | hx
  · exact h.scopes x hx
  · rw [List.mem_singleton.1 hx]; exact hs

theorem create (h : AffinityInv a w) {sagaId : String} {parent : Option String} {s : Scope} (hs : s.ctx.affinity = a) :
    AffinityInv a (w.create sagaId parent s) :=
  ⟨(h.enter hs).scopes, h.activations, h.published⟩

theorem publish (h : AffinityInv a w) {event : SagaEvent} {cause : Cause} (he : event.affinity = a) :
    AffinityInv a (w.publish event cause) := by
  refine ⟨h.scopes, h.activations, fun p hp => ?_⟩
  rcases List.mem_append.1 hp with hp | hp
  · exact h.published p hp
  · rw [List.mem_singleton.1 hp]; exact he

theorem activate (h : AffinityInv a w) {event : SagaEvent} {config : Option HandlerConfig} (he : event.affinity = a) :
    AffinityInv a (w.activate event config) := by
  have hs := h.enter (s := ⟨SagaRunner.handlerContext event, .handling event⟩) he
  refine ⟨hs.scopes, fun act hact => ?_, h.published⟩
  rcases List.mem_append.1 hact with hact | hact
  · exact h.activations act hact
  · rw [List.mem_singleton.1 hact]; exact he

end AffinityInv

/-! ## Runs without keys -/

open SagaPublisher SagaRunner

/-- The operation stays in the tree and brings no key of its own: a start is made in a scope, is not
independent and has no key option, and an emit has no key. -/
def SagaAct.Keyless : SagaAct → Prop
  | .start scope opts _ => scope.isSome ∧ independent opts = false ∧ opts.bind (·.key) = none
  | .startChild _ opts _ => opts.bind (·.key) = none
  | .emit _ params _ _ => params.key = none
  | .emitToParent _ params _ _ => params.key = none
  | .emitToParentFn _ => True
  | .deliver _ _ _ => True
  | .boundEmit _ _ params _ _ _ => params.key = none

section Steps

variable {env : ParseEnv} {topicPrefix : String} {w w' : World} {a : Affinity}

/-- A key that is not empty survives the wire. -/
theorem affinity_deliver (ha : a.key ≠ some "") (hl : LineageInv w) (hi : AffinityInv a w) {p : Publication}
    (hp : p ∈ w.published) {added : List (String × String)} {event : SagaEvent}
    (hadded : added.all (foreignHeader ·.1) = true)
    (h : parse env (arrive (buildOutboundMessage env.json p.event topicPrefix) added) = some (.headers event)) :
    event.affinity = a := by
  obtain ⟨payload, rfl⟩ := deliver_wire hl hp hadded h
  have hpa := hi.published p hp
  have hkey : truthy p.event.key = p.event.key := truthy_of_ne fun hn => ha (by rw [← hpa]; exact hn)
  show Affinity.mk p.event.rootSagaId (truthy p.event.key) = a
  rw [hkey, ← hpa]; rfl

/-- A start in a scope of the tree that is not independent makes a child of it. -/
theorem start_affinity {s : Scope} (hs : s.ctx.affinity = a) {opts : Option SagaStartOptions} {sagaId : String}
    {ctx : SagaContextData} (hind : independent opts = false) (hk : opts.bind (·.key) = none)
    (h : start (some s.ctx) opts sagaId = .ok ctx) : ctx.affinity = a := by
  unfold start at h
  rw [hind] at h
  exact (startChild_affinity hk h).trans hs

theorem affinityInv_step (ha : a.key ≠ some "") {act : SagaAct} (hl : LineageInv w) (hi : AffinityInv a w)
    (hk : act.Keyless) (h : sagaStep env topicPrefix w act = some w') : AffinityInv a w' := by
  cases sagaStep_move h with
  | @start scope _ _ current _ hcur hctx =>
    obtain ⟨hscope, hind, hkey⟩ := hk
    obtain ⟨i, rfl⟩ := Option.isSome_iff_exists.1 hscope
    obtain ⟨s, hs, rfl⟩ := Option.map_eq_some_iff.1 hcur
    exact hi.create (start_affinity (hi.scopes s (List.mem_of_getElem? hs)) hind hkey hctx)
  | startChild hs hctx =>
    exact hi.create ((startChild_affinity hk hctx).trans (hi.scopes _ (List.mem_of_getElem? hs)))
  | emit hs hev => exact hi.publish ((emit_affinity hk hev).trans (hi.scopes _ (List.mem_of_getElem? hs)))
  | emitToParent hs hev =>
    exact hi.publish ((emitToParent_affinity hk hev).trans (hi.scopes _ (List.mem_of_getElem? hs)))
  | emitToParentFn hs hctx =>
    exact hi.enter ((emitToParentContext_affinity hctx).trans (hi.scopes _ (List.mem_of_getElem? hs)))
  | deliver hp hparse hadded =>
    exact hi.activate (affinity_deliver ha hl hi (List.mem_of_getElem? hp) hadded hparse)
  | @forkEmit _ _ _ subSagaId _ _ act _ fork hact =>
    have hacta := hi.activations act (List.mem_of_getElem? hact)
    have hctx : (forkContext act.event fork subSagaId).affinity = a := hacta
    exact (hi.create (s := ⟨forkContext act.event fork subSagaId, .handling act.event⟩) hctx).publish
      ((forkEmit_affinity hk).trans hacta)
  | boundEmit hact hcur =>
    have hacta := hi.activations _ (List.mem_of_getElem? hact)
    refine hi.publish ((wrappedEmit_affinity hk fun c hc => ?_).trans hacta)
    -- the function may be called in any scope of the tree, and all of them have the key
    obtain ⟨s, hs, rfl⟩ := Option.map_eq_some_iff.1 hc
    have hsa := hi.scopes s (World.mem_of_ambient hcur s hs)
    exact congrArg Affinity.key (hsa.trans hacta.symm)

/-- In every run that begins with one start and then stays in its tree without bringing keys, every
message published has one key: that of the first start, or the id of the root saga. -/
theorem partition_affinity {opts : Option SagaStartOptions} {root : String} {as : List SagaAct}
    (hkey : opts.bind (·.key) ≠ some "") (has : ∀ act ∈ as, act.Keyless)
    (h : run (sagaStep env topicPrefix) .empty (.start none opts root :: as) = some w) :
    ∀ p ∈ w.published, (buildOutboundMessage env.json p.event topicPrefix).key = (opts.bind (·.key)).getD root := by
  obtain ⟨w1, h1, h⟩ := run_cons_some.1 h
  have hl1 : LineageInv w1 := lineageInv_step lineageInv_empty h1
  have hi1 : AffinityInv ⟨root, opts.bind (·.key)⟩ w1 := by
    cases sagaStep_move h1 with
    | start hcur hctx =>
      cases hcur
      cases hctx
      refine ⟨fun s hs => ?_, fun _ hact => absurd hact List.not_mem_nil, fun _ hp => absurd hp List.not_mem_nil⟩
      rw [List.mem_singleton.1 hs]; rfl
  have hstep : ∀ w act w', (LineageInv w ∧ AffinityInv ⟨root, opts.bind (·.key)⟩ w) → act.Keyless →
      sagaStep env topicPrefix w act = some w' → LineageInv w' ∧ AffinityInv ⟨root, opts.bind (·.key)⟩ w' :=
    fun w act w' hi hk hs => ⟨lineageInv_step hi.1 hs, affinityInv_step hkey hi.1 hi.2 hk hs⟩
  have hi := run_each_induction hstep ⟨hl1, hi1⟩ ((each_forall_iff h).2 has) h
  intro p hp
  rw [buildOutboundMessage_key, hi.2.published p hp]
  rfl

end Steps

theorem partition_affinity_sample :
    ∃ w, run (sagaStep .sample "prod.") .empty
        (.start none (some ⟨none, none, some "customer-7", none⟩) "saga-1" :: SagaAct.sampleRun.tail) = some w ∧
      w.published.length = 3 ∧
      ∀ p ∈ w.published, (buildOutboundMessage ParseEnv.sample.json p.event "prod.").key = "customer-7" := by
  obtain ⟨w, hr, hp⟩ := exists_of_run (sagaStep .sample "prod.") .empty
    (.start none (some ⟨none, none, some "customer-7", none⟩) "saga-1" :: SagaAct.sampleRun.tail)
    (fun w => w.published.length == 3) (by decide +kernel)
  have hkeyless : ∀ act ∈ SagaAct.sampleRun.tail, act.Keyless := by
    simp [SagaAct.sampleRun, SagaAct.Keyless, EmitParams.sample, independent]
  exact ⟨w, hr, by simpa using hp, partition_affinity (by decide) hkeyless hr⟩

end Saga
