/-
`SagaRunner.stop` while a batch is processed. `disconnect` disconnects the producer before the
consumer, so an emit of a handler in flight can be refused; the runner logs the error, the promise
of the handler fulfils and `processBatch` resolves the offset. No emit is refused in the runs in
which no hook is in progress when the producer disconnects and none is called after that.
-/
import SagaProofs.Kafka.Service

namespace Saga.Kafka

open Lts

variable {Buffer ρ ε : Type}

section Shutdown

variable (str : Buffer → String) (opts : KafkaTransportOptions) (batch : Batch Buffer)
variable (env : ParseEnv) (routeMap : String → Option (RouteEntry Hooks Unit)) (options : RunnerOptions)

/-! ## What is to be shown -/

/-- The handler of the message was in flight when `stop()` was called. -/
def InFlightAtStop (log : List ServiceEvent) (pos : ℕ) : Prop :=
  ∃ pre post m, log = pre ++ .stop :: post ∧ .batch (.started pos m) ∈ pre ∧
    .batch (.fulfilled pos) ∉ pre ∧ .batch (.rejected pos) ∉ pre

/-- No emit of a handler that was in flight when `stop()` was called is refused. -/
def EmitsKept (log : List ServiceEvent) : Prop := ∀ pos, InFlightAtStop log pos → .refused pos ∉ log

/-- No offset is resolved at or beyond a message of which a hook failed with a refused send. -/
def OffsetsKept (log : List ServiceEvent) : Prop :=
  ∀ f ∈ batch.entries, .failed f.2 ∈ log → ∀ e ∈ batch.entries, f.2 ≤ e.2 → .batch (.resolved e.1.offset) ∉ log

/-- All handlings have the property. -/
def ServiceState.All (P : Handling ρ ε → Prop) (s : ServiceState Buffer ρ ε) : Prop := ∀ h ∈ s.handlings, ∀ x ∈ h, P x

/-- The action starts a message for which a hook is called. -/
def ServiceState.startsHook (s : ServiceState Buffer ρ ε) (a : Act) : Bool :=
  s.batch.starts a && ((s.batch.target a).bind (s.batch.groups[·]?)).any fun gs =>
    gs.todo.head?.any fun e => (Handling.begin str batch env routeMap options e : Handling ρ ε).phase.live options

/-- The producer is disconnected when no hook is in progress or to be called again, and no message for
which a hook is called is started after that. -/
def ServiceState.Quiet (s : ServiceState Buffer ρ ε) : ServiceAct ρ ε → Prop
  | .producerDisconnected => s.All fun x => x.phase.live options = false
  | .batch a => s.connected = true ∨ s.startsHook str batch env routeMap options a = false
  | _ => True

instance (s : ServiceState Buffer ρ ε) : DecidablePred (s.Quiet str batch env routeMap options)
  | .producerDisconnected => inferInstanceAs (Decidable (∀ h ∈ s.handlings, ∀ x ∈ h, x.phase.live options = false))
  | .batch _ => inferInstanceAs (Decidable (_ ∨ _))
  | .emit _ _ => .isTrue trivial
  | .settle _ _ => .isTrue trivial
  | .wake _ => .isTrue trivial
  | .done _ => .isTrue trivial
  | .stop => .isTrue trivial
  | .consumerDisconnected => .isTrue trivial

variable {str opts batch env routeMap options}
variable {s s' : ServiceState Buffer ρ ε}

/-! ## Messages that start -/

/-- A batch step that is not the end of a handler leaves group `g` with a handler in flight exactly
when it starts the first message left to the group. -/
theorem step_starts {t b : BatchState Buffer} {a : Act} {g : ℕ} {e : Entry Buffer} {todo : List (Entry Buffer)}
    (h : step str opts batch t a = some b) (ht : t.target a = some g) (hend : a.endsHandler = false) :
    b.groups[g]? = some ⟨.handling e, todo⟩ ↔
      t.starts a = true ∧ ∃ gs, t.groups[g]? = some gs ∧ gs.todo = e :: todo := by
  rcases step_cases h with ⟨g', gs, tr, gs', events, ht', hgs, hm, -, rfl⟩ | ⟨ticks, unhandled, htick, -⟩
  · rw [ht] at ht'
    cases ht'
    have hget : ({ t with tracker := tr }.put g gs' events).groups[g]? = some gs' :=
      List.getElem?_set_self (List.getElem?_eq_some_iff.1 hgs).1
    rw [hget, hm.starts_eq ht hgs]
    cases hm with
    | start => simp [hgs, Phase.isHandling]
    | _ => simp [Phase.isHandling]
  · cases htick <;> cases ht

/-- A message that starts is the first one left to its group. -/
theorem exists_of_starts {t : BatchState Buffer} {a : Act} (hs : t.starts a = true) :
    ∃ g gs e todo, t.target a = some g ∧ t.groups[g]? = some gs ∧ gs.todo = e :: todo := by
  unfold BatchState.starts at hs
  simp only [Bool.and_eq_true, Option.any_eq_true, Option.bind_eq_some_iff] at hs
  obtain ⟨-, gs, ⟨g, ht, hgs⟩, htodo⟩ := hs
  refine ⟨g, gs, ?_⟩
  obtain ⟨ph, todo⟩ := gs
  cases todo with
  | nil => cases htodo
  | cons e rest => exact ⟨e, rest, ht, hgs, rfl⟩

/-- Whether a hook is called for the message that an action starts. -/
theorem startsHook_eq {a : Act} {g : ℕ} {gs : GroupState Buffer} {e : Entry Buffer} {todo : List (Entry Buffer)}
    (hs : s.batch.starts a = true) (ht : s.batch.target a = some g) (hgs : s.batch.groups[g]? = some gs)
    (htodo : gs.todo = e :: todo) :
    s.startsHook str batch env routeMap options a =
      (Handling.begin str batch env routeMap options e : Handling ρ ε).phase.live options := by
  simp [ServiceState.startsHook, hs, ht, hgs, htodo]

/-! ## Runs that refuse nothing -/

theorem ServiceState.All.get {P : Handling ρ ε → Prop} (hall : s.All P) {g : ℕ} {h : Handling ρ ε}
    (hg : s.handlings[g]? = some (some h)) : P h := hall _ (List.mem_of_getElem? hg) h rfl

theorem ServiceState.All.put {P : Handling ρ ε → Prop} (hall : s.All P) {g : ℕ} {h : Option (Handling ρ ε)}
    (hh : ∀ x ∈ h, P x) (events : List ServiceEvent) : (s.put g h events).All P := by
  intro h' hh' x hx
  rcases List.mem_or_eq_of_mem_set hh' with hmem | rfl
  · exact hall h' hmem x hx
  · exact hh x hx

/-- Nothing has been refused, and with the producer disconnected nothing is left that could be. -/
structure Unrefused (options : RunnerOptions) (s : ServiceState Buffer ρ ε) : Prop where
  quiet : s.connected = true ∨ s.All fun x => x.phase.live options = false
  flags : s.All fun x => x.refused = false
  not_refused : ∀ pos, .refused pos ∉ s.log
  not_failed : ∀ pos, .failed pos ∉ s.log

theorem not_mem_advance {e : ServiceEvent} (hno : e ∉ s.log) (hb : ∀ e', e ≠ .batch e') (b : BatchState Buffer) :
    e ∉ (s.advance b).log := by
  unfold ServiceState.advance
  rw [List.mem_append, List.mem_map]
  rintro (h | ⟨e', -, rfl⟩)
  · exact hno h
  · exact hb e' rfl

theorem Unrefused.log_append (hu : Unrefused options s) {e : ServiceEvent} (he : ∀ pos, e ≠ .refused pos ∧ e ≠ .failed pos)
    (pos : ℕ) : .refused pos ∉ s.log ++ [e] ∧ .failed pos ∉ s.log ++ [e] := by
  simp only [List.mem_append, List.mem_singleton, not_or]
  exact ⟨⟨hu.not_refused pos, (he pos).1.symm⟩, hu.not_failed pos, (he pos).2.symm⟩

theorem Unrefused.advance (hu : Unrefused options s) (b : BatchState Buffer) : Unrefused options (s.advance b) :=
  { quiet := hu.quiet
    flags := hu.flags
    not_refused := fun pos => not_mem_advance (hu.not_refused pos) (by simp) b
    not_failed := fun pos => not_mem_advance (hu.not_failed pos) (by simp) b }

/-- A handling takes the place of another, with the producer connected or nothing to call. -/
theorem Unrefused.put (hu : Unrefused options s) {g : ℕ} {h : Option (Handling ρ ε)} {events : List ServiceEvent}
    (hq : s.connected = true ∨ ∀ x ∈ h, x.phase.live options = false) (hf : ∀ x ∈ h, x.refused = false)
    (he : ∀ pos, .refused pos ∉ events ∧ .failed pos ∉ events) : Unrefused options (s.put g h events) := by
  refine ⟨?_, hu.flags.put hf events, fun pos hmem => ?_, fun pos hmem => ?_⟩
  · rcases hu.quiet with hc | hall
    · exact .inl hc
    · exact hq.imp_right fun hh => hall.put hh events
  · rcases List.mem_append.1 hmem with hmem | hmem
    · exact hu.not_refused pos hmem
    · exact (he pos).1 hmem
  · rcases List.mem_append.1 hmem with hmem | hmem
    · exact hu.not_failed pos hmem
    · exact (he pos).2 hmem

/-- In a state that refuses nothing a live handling is found with the producer connected. -/
theorem Unrefused.connected (hu : Unrefused options s) {g : ℕ} {h : Handling ρ ε} (hg : s.handlings[g]? = some (some h))
    (hl : h.phase.live options = true) : s.connected = true := by
  rcases hu.quiet with hc | hall
  · exact hc
  · have hdead : h.phase.live options = false := hall.get hg
    rw [hl] at hdead; cases hdead

theorem unrefused_step {a : ServiceAct ρ ε} (hu : Unrefused options s)
    (hq : s.Quiet str batch env routeMap options a)
    (hstep : serviceStep str opts batch env routeMap options s a = some s') : Unrefused options s' := by
  cases serviceStep_move hstep with
  | batch => exact hu.advance _
  | @start a b g e todo hend hb ht hg =>
    obtain ⟨hs, gs, hgs, htodo⟩ := (step_starts hb ht hend).1 hg
    refine (hu.advance b).put ?_ (fun x hx => by cases hx; rfl) (by simp)
    refine hq.imp_right fun hno x hx => ?_
    cases hx
    rw [← startsHook_eq hs ht hgs htodo]
    exact hno
  | @emit g acknowledged h hook attempt hg hp hc =>
    refine hu.put (.inl hc) (fun x hx => ?_) fun pos => by cases acknowledged <;> simp
    cases hx
    exact hu.flags.get hg
  | @refuse g acknowledged h hook attempt hg hp hc =>
    -- a call in progress is live, so the producer would be connected
    rw [hu.connected hg (by rw [hp]; rfl)] at hc
    cases hc
  | @settle g outcome h hook attempt hg hp hr =>
    refine hu.put (.inl (hu.connected hg (by rw [hp]; rfl))) (fun x hx => by cases hx; rfl) fun pos => ?_
    have hno : throwsRefusal outcome = false := by
      by_contra ht
      have hflag : h.refused = false := hu.flags.get hg
      rw [hr (by simpa using ht)] at hflag
      cases hflag
    simp [hno]
  | @wake g h hook attempt hg hp =>
    refine hu.put ?_ (fun x hx => by cases hx; rfl) (by simp)
    -- the sleep was live exactly when it ends in a call
    by_cases hle : (Number.ofNat attempt).le options.maxRetries = true
    · exact .inl (hu.connected hg (by rw [hp]; exact hle))
    · refine .inr fun x hx => ?_
      cases hx
      simp [enter, hle, RunnerPhase.live]
  | done => exact (hu.advance _).put (.inr (by simp)) (by simp) (by simp)
  | stop =>
    have hlog := hu.log_append (e := .stop) (by simp)
    exact ⟨.inl rfl, hu.flags, fun pos => (hlog pos).1, fun pos => (hlog pos).2⟩
  | producer => exact ⟨.inr hq, hu.flags, hu.not_refused, hu.not_failed⟩
  | consumer hd =>
    have hlog := hu.log_append (e := .stopped) (by simp)
    refine ⟨.inr ?_, hu.flags, fun pos => (hlog pos).1, fun pos => (hlog pos).2⟩
    exact hu.quiet.resolve_left (by simp [ServiceState.connected, hd])

theorem unrefused_init : Unrefused options (serviceInit str batch : ServiceState Buffer ρ ε) := by
  have hnone : ∀ P, (serviceInit str batch : ServiceState Buffer ρ ε).All P := by
    intro P h hh x hx
    obtain ⟨p, -, rfl⟩ := List.mem_map.1 hh
    cases hx
  exact ⟨.inl rfl, hnone _, by simp [serviceInit], by simp [serviceInit]⟩

/-! ## Hooks that go on -/

theorem serviceStep_refuse (hd : s.connected = false) {g pos attempt : ℕ} {hooks : Hooks} {hook : Hook ρ (HookError ε)}
    {refused : Bool} (hg : s.handlings[g]? = some (some ⟨pos, hooks, .calling hook attempt, refused⟩))
    (acknowledged : Bool) : serviceStep str opts batch env routeMap options s (.emit g acknowledged) =
      some (s.put g (some ⟨pos, hooks, .calling hook attempt, true⟩) [.refused pos]) := by
  simp [serviceStep, hg, hd]

/-- With the producer disconnected a live handling has its next emit refused. -/
theorem refused_of_live (hd : s.connected = false) {g : ℕ} {h : Handling ρ ε} (hg : s.handlings[g]? = some (some h))
    (hl : h.phase.live options = true)
    (hs : (∃ hook attempt, h.phase = .sleeping hook attempt) → s.batch.launched = true) :
    ∃ bs ∈ [[.emit g true], [.wake g, .emit g true]], ∃ t,
      run (serviceStep str opts batch env routeMap options) s bs = some t ∧ .refused h.pos ∈ t.log := by
  obtain ⟨pos, hooks, phase, refused⟩ := h
  cases phase with
  | calling hook attempt =>
    refine ⟨_, .head _, _, run_cons_some.2 ⟨_, serviceStep_refuse hd hg true, run_nil _⟩, ?_⟩
    simp [ServiceState.put]
  | sleeping hook attempt =>
    have hwake : serviceStep str opts batch env routeMap options s (.wake g) =
        some (s.put g (some ⟨pos, hooks, .calling hook attempt, false⟩) []) := by
      have henter : enter options hook attempt = .calling hook attempt := if_pos hl
      simp [serviceStep, hs ⟨_, _, rfl⟩, hg, henter]
    have hget : (s.put g (some ⟨pos, hooks, .calling hook attempt, false⟩) []).handlings[g]? =
        some (some ⟨pos, hooks, .calling hook attempt, false⟩) :=
      List.getElem?_set_self (List.getElem?_eq_some_iff.1 hg).1
    have hd' : (s.put g (some ⟨pos, hooks, .calling hook attempt, false⟩) []).connected = false := hd
    -- the sleep ends, and the call that follows emits
    refine ⟨_, .tail _ (.head _), _,
      run_cons_some.2 ⟨_, hwake, run_cons_some.2 ⟨_, serviceStep_refuse hd' hget true, run_nil _⟩⟩, ?_⟩
    simp [ServiceState.put]
  | settled outcome => cases hl

/-- A step that is not quiet leaves a hook whose next emit is refused. -/
theorem refused_of_not_quiet {a : ServiceAct ρ ε} (hc : Consistent s)
    (hstep : serviceStep str opts batch env routeMap options s a = some s')
    (hq : ¬ s.Quiet str batch env routeMap options a) :
    ∃ g : ℕ, ∃ bs ∈ [[.emit g true], [.wake g, .emit g true]], ∃ t pos,
      run (serviceStep str opts batch env routeMap options) s' bs = some t ∧ .refused pos ∈ t.log := by
  cases a with
  | producerDisconnected =>
    cases serviceStep_move hstep with
    | producer hl hd =>
      have hq' : ∃ h ∈ s.handlings, ∃ x ∈ h, x.phase.live options = true := by
        by_contra hno
        refine hq fun h hh x hx => ?_
        by_contra hx'
        exact hno ⟨h, hh, x, hx, by simpa using hx'⟩
      obtain ⟨h, hh, x, rfl, hlive⟩ := hq'
      obtain ⟨g, hg⟩ := List.mem_iff_getElem?.1 hh
      obtain ⟨bs, hbs, t, hrun, hmem⟩ := refused_of_live (s := { s with disconnect := .consumer }) rfl hg hlive fun _ => hl
      exact ⟨g, bs, hbs, t, _, hrun, hmem⟩
  | batch a =>
    have hd : s.connected = false := by
      by_contra hcon
      exact hq (.inl (by simpa using hcon))
    have hst : s.startsHook str batch env routeMap options a = true := by
      by_contra hcon
      exact hq (.inr (by simpa using hcon))
    have hs : s.batch.starts a = true := by
      unfold ServiceState.startsHook at hst
      exact (Bool.and_eq_true _ _ ▸ hst).1
    cases serviceStep_move hstep with
    | @batch a b hend hb hno =>
      obtain ⟨g, gs, e, todo, ht, hgs, htodo⟩ := exists_of_starts hs
      exact absurd ((step_starts hb ht hend).2 ⟨hs, gs, hgs, htodo⟩) (hno g e todo ht)
    | @start a b g e todo hend hb ht hg =>
      obtain ⟨-, gs, hgs, htodo⟩ := (step_starts hb ht hend).1 hg
      rw [startsHook_eq hs ht hgs htodo] at hst
      have hlt : g < s.handlings.length := by
        rw [hc.length]; exact (List.getElem?_eq_some_iff.1 hgs).1
      have hget : ((s.advance b).put g (some (.begin str batch env routeMap options e)) []).handlings[g]? =
          some (some (.begin str batch env routeMap options e)) := List.getElem?_set_self hlt
      have hd' : ((s.advance b).put g (some (.begin str batch env routeMap options e)) []).connected = false := hd
      obtain ⟨bs, hbs, t, hrun, hmem⟩ := refused_of_live hd' hget hst fun ⟨hook, attempt, hsleep⟩ =>
        absurd hsleep (begin_not_sleeping hook attempt)
      exact ⟨g, bs, hbs, t, _, hrun, hmem⟩
  | _ => exact absurd trivial hq

/-- In a run whose steps are all quiet no emit is refused, so none of a handler that was in flight at the
stop, and no offset is resolved of a message that failed by it. After a step that is not quiet some
hook is left whose next emit is refused. -/
theorem graceful_of_quiet {as : List (ServiceAct ρ ε)}
    (h : run (serviceStep str opts batch env routeMap options) (serviceInit str batch) as = some s) :
    (Each (serviceStep str opts batch env routeMap options) (·.Quiet str batch env routeMap options)
      (serviceInit str batch : ServiceState Buffer ρ ε) as →
        (∀ pos, .refused pos ∉ s.log) ∧ EmitsKept s.log ∧ OffsetsKept batch s.log) ∧
    ∀ a s', serviceStep str opts batch env routeMap options s a = some s' → ¬ s.Quiet str batch env routeMap options a →
      ∃ g : ℕ, ∃ bs ∈ [[.emit g true], [.wake g, .emit g true]], ∃ t pos,
        run (serviceStep str opts batch env routeMap options) s' bs = some t ∧ .refused pos ∈ t.log := by
  constructor
  · intro hq
    have hu : Unrefused options s := run_each_induction (fun _ _ _ hi hc hs => unrefused_step hi hc hs) unrefused_init hq h
    exact ⟨hu.not_refused, fun pos _ => hu.not_refused pos, fun f _ hf => absurd hf (hu.not_failed f.2)⟩
  · intro a s' hs hq
    exact refused_of_not_quiet (consistent_reachable ⟨as, h⟩) hs hq

end Shutdown

/-! ## A lost event -/

/-- A message with a saga header. -/
def KafkaMessage.saga : KafkaMessage String := ⟨some "saga-1", some "1", "10", some [("saga-id", .string "saga-1")]⟩

def Batch.saga : Batch String := ⟨"order.created", [.saga]⟩

/-- One topic with a saga handler whose participant has no further hooks. -/
def sagaRoutes (topic : String) : Option (RouteEntry Hooks Unit) :=
  if topic = "order.created" then some ⟨some ⟨false, false⟩, none, none⟩ else none

/-- The service that handles the message with the default options. -/
def sagaService : ServiceState String Unit Unit → ServiceAct Unit Unit → Option (ServiceState String Unit Unit) :=
  serviceStep id .default .saga .sample sagaRoutes ⟨none, none⟩

/-- `stop()` is called while the handler is in flight: its emit is refused, it rejects with the error of
the send, and the offset of its message is resolved. -/
theorem emit_refused_at_stop :
    (¬ ∀ s, Reachable sagaService (serviceInit id .saga) s → EmitsKept s.log) ∧
    ¬ ∀ s, Reachable sagaService (serviceInit id .saga) s → OffsetsKept .saga s.log := by
  have hrun : (run sagaService (serviceInit id .saga)
      [.batch (.launch true false), .stop, .producerDisconnected, .emit 0 true,
        .settle 0 (.error (.other .disconnected)), .done 0]).map (·.log) =
      some [.batch (.started 0 (toInbound id .saga .saga)), .stop, .refused 0, .failed 0,
        .batch (.fulfilled 0), .batch (.resolved "10")] := by rfl
  obtain ⟨s, hr, hp⟩ := Option.map_eq_some_iff.1 hrun
  constructor
  · intro hall
    have hflight : InFlightAtStop s.log 0 :=
      ⟨[.batch (.started 0 (toInbound id .saga .saga))], _, _, hp, .head _, by simp, by simp⟩
    exact hall s ⟨_, hr⟩ 0 hflight (by rw [hp]; simp)
  · intro hall
    have hmem : ((.saga, 0) : Entry String) ∈ Batch.saga.entries := .head _
    exact hall s ⟨_, hr⟩ _ hmem (by rw [hp]; simp) _ hmem (Nat.le_refl 0) (by rw [hp]; simp [KafkaMessage.saga])

/-- A schedule in which the handler emits and ends, and its group returns, before the producer is
disconnected. -/
def gracefulRun : List (ServiceAct Unit Unit) :=
  [.batch (.launch true false), .stop, .emit 0 true, .settle 0 (.ok ()), .done 0, .batch (.beat 0 false false),
    .producerDisconnected, .consumerDisconnected]

theorem graceful_when_drained :
    ∃ s, run sagaService (serviceInit id .saga) gracefulRun = some s ∧ .sent 0 ∈ s.log ∧ ∀ pos, .refused pos ∉ s.log := by
  obtain ⟨s, hr, hp⟩ := exists_of_run sagaService (serviceInit id .saga) gracefulRun (fun s => s.log.contains (.sent 0))
    (by decide)
  have hq : Each sagaService (·.Quiet id .saga .sample sagaRoutes ⟨none, none⟩) (serviceInit id .saga) gracefulRun :=
    each_of_eachB _ (fun s a => decide (s.Quiet id .saga .sample sagaRoutes ⟨none, none⟩ a))
      (fun s a => of_decide_eq_true) _ _ (by decide)
  exact ⟨s, hr, by simpa using hp, ((graceful_of_quiet hr).1 hq).1⟩

end Saga.Kafka
