/-
The route map of any list of participants. `buildRouteMap` merges their handlers entry by entry; seen as
one loop over the registrations of all participants, it accepts a registration exactly when none before it
is of the same kind and topic, and the entry of a topic is what the registrations of that topic say. The
order of the participants does not show.
-/
import SagaProofs.Core.Registry
import SagaProofs.Lib.Run

namespace Saga

open SagaRegistry Lts

variable {Handler PlainHandler : Type}

/-! ## What is to be shown -/

namespace SagaRegistry

/-- `participant.handlerOptions?.[topic]`. -/
def Participant.optionsOf (participant : Participant Handler PlainHandler) (topic : String) : Option HandlerConfig :=
  participant.handlerOptions.bind (·.lookup topic)

/-- The plain handlers, none where there is no record of them. -/
def Participant.plain (participant : Participant Handler PlainHandler) : Record PlainHandler :=
  participant.onPlain.getD ∅

section Statement

variable (participants : List (Participant Handler PlainHandler)) (topic : String)

/-- Two registrations have a saga handler for the topic, or two a plain one, or one is both final and fork. -/
def Conflict : Prop :=
  (∃ p q, [p, q].Sublist participants ∧ topic ∈ p.on ∧ topic ∈ q.on) ∨
    (∃ p q, [p, q].Sublist participants ∧ topic ∈ p.plain ∧ topic ∈ q.plain) ∨
    ∃ p ∈ participants, topic ∈ p.on ∧ finalAndFork (p.optionsOf topic) = true

/-- The topic has a handler. -/
def Handled : Prop := ∃ p ∈ participants, topic ∈ p.on ∨ topic ∈ p.plain

/-- The entry has the one saga handler of the topic with its participant and options, and the one plain handler
with its participant. -/
structure Combines
    (entry : RouteEntry (Registered Handler PlainHandler Handler) (Registered Handler PlainHandler PlainHandler)) :
    Prop where
  sagaHandler : ∀ p handler, entry.sagaHandler = some ⟨p, handler⟩ ↔ p ∈ participants ∧ p.on.lookup topic = some handler
  sagaOptions : entry.sagaOptions = entry.sagaHandler.bind fun r => r.participant.optionsOf topic
  plainHandler : ∀ p handler,
    entry.plainHandler = some ⟨p, handler⟩ ↔ p ∈ participants ∧ p.plain.lookup topic = some handler

end Statement

/-! ## Registrations -/

/-- One turn of the loops of `buildRouteMap`. -/
inductive Registration (Handler PlainHandler : Type)
  | saga (participant : Participant Handler PlainHandler) (topic : String) (handler : Handler)
  | plain (participant : Participant Handler PlainHandler) (topic : String) (handler : PlainHandler)

def Registration.topic : Registration Handler PlainHandler → String
  | .saga _ topic _ => topic
  | .plain _ topic _ => topic

/-- The two are of one kind and topic. -/
def Registration.Clashes : Registration Handler PlainHandler → Registration Handler PlainHandler → Prop
  | .saga _ topic _, .saga _ topic' _ => topic = topic'
  | .plain _ topic _, .plain _ topic' _ => topic = topic'
  | _, _ => False

def Registration.Valid : Registration Handler PlainHandler → Prop
  | .saga participant topic _ => finalAndFork (participant.optionsOf topic) = false
  | .plain _ _ _ => True

def Participant.registrations (participant : Participant Handler PlainHandler) :
    List (Registration Handler PlainHandler) :=
  participant.on.entries.map (fun e => .saga participant e.1 e.2) ++
    participant.plain.entries.map fun e => .plain participant e.1 e.2

def register (map : RouteMap Handler PlainHandler) :
    Registration Handler PlainHandler → Except RegistryError (RouteMap Handler PlainHandler)
  | .saga participant topic handler => registerSaga participant map topic handler
  | .plain participant topic handler => registerPlain participant map topic handler

theorem registerParticipant_eq (map : RouteMap Handler PlainHandler) (participant : Participant Handler PlainHandler) :
    registerParticipant map participant = participant.registrations.foldlM register map := by
  unfold registerParticipant Participant.registrations Participant.plain
  rw [List.foldlM_append, List.foldlM_map]
  refine bind_congr fun map => ?_
  rw [List.foldlM_map]
  cases participant.onPlain with
  | none => rfl
  | some onPlain => rfl

theorem buildRouteMap_eq (participants : List (Participant Handler PlainHandler)) :
    buildRouteMap participants = (participants.flatMap (·.registrations)).foldlM register ∅ := by
  have h : ∀ map : RouteMap Handler PlainHandler,
      participants.foldlM registerParticipant map = (participants.flatMap (·.registrations)).foldlM register map := by
    induction participants with
    | nil => exact fun _ => rfl
    | cons p ps ih =>
      intro map
      rw [List.foldlM_cons, List.flatMap_cons, List.foldlM_append, registerParticipant_eq]
      exact bind_congr ih
  exact h ∅

variable {participants : List (Participant Handler PlainHandler)} {topic : String}

theorem saga_mem_iff {p : Participant Handler PlainHandler} {handler : Handler} :
    .saga p topic handler ∈ participants.flatMap (·.registrations) ↔
      p ∈ participants ∧ p.on.lookup topic = some handler := by
  rw [← Option.mem_def, AList.mem_lookup_iff]
  simp only [List.mem_flatMap, Participant.registrations, List.mem_append, List.mem_map, reduceCtorEq, and_false,
    exists_false, or_false, Registration.saga.injEq]
  constructor
  · rintro ⟨q, hq, e, he, rfl, rfl, rfl⟩
    exact ⟨hq, he⟩
  · rintro ⟨hp, he⟩
    exact ⟨p, hp, _, he, rfl, rfl, rfl⟩

theorem plain_mem_iff {p : Participant Handler PlainHandler} {handler : PlainHandler} :
    .plain p topic handler ∈ participants.flatMap (·.registrations) ↔
      p ∈ participants ∧ p.plain.lookup topic = some handler := by
  rw [← Option.mem_def, AList.mem_lookup_iff]
  simp only [List.mem_flatMap, Participant.registrations, List.mem_append, List.mem_map, reduceCtorEq, and_false,
    exists_false, false_or, Registration.plain.injEq]
  constructor
  · rintro ⟨q, hq, e, he, rfl, rfl, rfl⟩
    exact ⟨hq, he⟩
  · rintro ⟨hp, he⟩
    exact ⟨p, hp, _, he, rfl, rfl, rfl⟩

/-! ## The loop -/

/-- The map says of each topic what the registrations so far say. -/
structure Represents (rs : List (Registration Handler PlainHandler)) (map : RouteMap Handler PlainHandler) : Prop where
  mem : ∀ topic, topic ∈ map ↔ ∃ r ∈ rs, r.topic = topic
  saga : ∀ topic p handler, (existing map topic).sagaHandler = some ⟨p, handler⟩ ↔ .saga p topic handler ∈ rs
  options : ∀ topic, (existing map topic).sagaOptions =
    (existing map topic).sagaHandler.bind fun r => r.participant.optionsOf topic
  plain : ∀ topic p handler, (existing map topic).plainHandler = some ⟨p, handler⟩ ↔ .plain p topic handler ∈ rs

theorem existing_insert_self (map : RouteMap Handler PlainHandler)
    (entry : RouteEntry (Registered Handler PlainHandler Handler) (Registered Handler PlainHandler PlainHandler)) :
    existing (map.insert topic entry) topic = entry := by
  unfold existing
  rw [AList.lookup_insert]
  rfl

theorem existing_insert_ne {topic' : String} (h : topic' ≠ topic) (map : RouteMap Handler PlainHandler)
    (entry : RouteEntry (Registered Handler PlainHandler Handler) (Registered Handler PlainHandler PlainHandler)) :
    existing (map.insert topic entry) topic' = existing map topic' := by
  unfold existing
  rw [AList.lookup_insert_ne h]

theorem represents_empty : Represents [] (∅ : RouteMap Handler PlainHandler) where
  mem := by simp
  saga := by simp [existing]
  options := by simp [existing]
  plain := by simp [existing]

variable {rs : List (Registration Handler PlainHandler)} {map : RouteMap Handler PlainHandler}

theorem Represents.mem_insert (h : Represents rs map) (r : Registration Handler PlainHandler)
    (entry : RouteEntry (Registered Handler PlainHandler Handler) (Registered Handler PlainHandler PlainHandler))
    (topic : String) : topic ∈ map.insert r.topic entry ↔ ∃ x ∈ rs ++ [r], x.topic = topic := by
  rw [AList.mem_insert, h.mem]
  simp only [List.mem_append, List.mem_singleton]
  constructor
  · rintro (rfl | ⟨x, hx, rfl⟩)
    · exact ⟨r, .inr rfl, rfl⟩
    · exact ⟨x, .inl hx, rfl⟩
  · rintro ⟨x, hx | rfl, rfl⟩
    · exact .inr ⟨x, hx, rfl⟩
    · exact .inl rfl

theorem mem_snoc_of_topic_ne {x r : Registration Handler PlainHandler} (h : x.topic ≠ r.topic) :
    x ∈ rs ++ [r] ↔ x ∈ rs := by
  rw [List.mem_append, List.mem_singleton]
  refine or_iff_left ?_
  rintro rfl
  exact h rfl

/-- A map is extended by a registration through an entry that is right for its topic. -/
theorem Represents.insert (h : Represents rs map) (r : Registration Handler PlainHandler)
    {entry : RouteEntry (Registered Handler PlainHandler Handler) (Registered Handler PlainHandler PlainHandler)}
    (hsaga : ∀ p handler, entry.sagaHandler = some ⟨p, handler⟩ ↔ .saga p r.topic handler ∈ rs ++ [r])
    (hoptions : entry.sagaOptions = entry.sagaHandler.bind fun x => x.participant.optionsOf r.topic)
    (hplain : ∀ p handler, entry.plainHandler = some ⟨p, handler⟩ ↔ .plain p r.topic handler ∈ rs ++ [r]) :
    Represents (rs ++ [r]) (map.insert r.topic entry) := by
  refine ⟨h.mem_insert r entry, fun topic p handler => ?_, fun topic => ?_, fun topic p handler => ?_⟩
  · by_cases ht : topic = r.topic
    · rw [ht, existing_insert_self]
      exact hsaga p handler
    · have hne : (Registration.saga p topic handler).topic ≠ r.topic := ht
      rw [existing_insert_ne ht, h.saga, mem_snoc_of_topic_ne hne]
  · by_cases ht : topic = r.topic
    · rw [ht, existing_insert_self]
      exact hoptions
    · rw [existing_insert_ne ht, h.options]
  · by_cases ht : topic = r.topic
    · rw [ht, existing_insert_self]
      exact hplain p handler
    · have hne : (Registration.plain p topic handler).topic ≠ r.topic := ht
      rw [existing_insert_ne ht, h.plain, mem_snoc_of_topic_ne hne]

theorem Represents.insert_saga (h : Represents rs map) {p : Participant Handler PlainHandler} {handler : Handler}
    (hnone : (existing map topic).sagaHandler = none) :
    Represents (rs ++ [.saga p topic handler]) (map.insert topic
      { existing map topic with sagaHandler := some ⟨p, handler⟩, sagaOptions := p.optionsOf topic }) := by
  have hno : ∀ q handler', .saga q topic handler' ∉ rs := fun q handler' hmem => by
    rw [← h.saga, hnone] at hmem
    cases hmem
  refine h.insert (.saga p topic handler) (fun q handler' => ?_) rfl fun q handler' => ?_
  · simp [Registration.topic, hno, eq_comm]
  · simp [Registration.topic, h.plain]

theorem Represents.insert_plain (h : Represents rs map) {p : Participant Handler PlainHandler} {handler : PlainHandler}
    (hnone : (existing map topic).plainHandler = none) :
    Represents (rs ++ [.plain p topic handler]) (map.insert topic
      { existing map topic with plainHandler := some ⟨p, handler⟩ }) := by
  have hno : ∀ q handler', .plain q topic handler' ∉ rs := fun q handler' hmem => by
    rw [← h.plain, hnone] at hmem
    cases hmem
  refine h.insert (.plain p topic handler) (fun q handler' => ?_) (h.options topic) fun q handler' => ?_
  · simp [Registration.topic, h.saga]
  · simp [Registration.topic, hno, eq_comm]

/-- A registration is accepted when it is valid and none before it is of its kind and topic. -/
theorem register_ok (h : Represents rs map) {r : Registration Handler PlainHandler}
    (hr : (∀ x ∈ rs, ¬ x.Clashes r) ∧ r.Valid) :
    ∃ map', register map r = .ok map' ∧ Represents (rs ++ [r]) map' := by
  cases r with
  | saga p topic handler =>
    have hnone : (existing map topic).sagaHandler = none := by
      rw [Option.eq_none_iff_forall_ne_some]
      rintro ⟨q, handler'⟩ hsome
      exact hr.1 _ ((h.saga topic q handler').1 hsome) rfl
    have hvalid : finalAndFork (p.handlerOptions.bind (·.lookup topic)) = false := hr.2
    refine ⟨_, ?_, h.insert_saga hnone⟩
    simp only [register, registerSaga, hnone, hvalid]
    rfl
  | plain p topic handler =>
    have hnone : (existing map topic).plainHandler = none := by
      rw [Option.eq_none_iff_forall_ne_some]
      rintro ⟨q, handler'⟩ hsome
      exact hr.1 _ ((h.plain topic q handler').1 hsome) rfl
    refine ⟨_, ?_, h.insert_plain hnone⟩
    simp only [register, registerPlain, hnone]

theorem register_error (h : Represents rs map) {r : Registration Handler PlainHandler}
    (hr : ¬ ((∀ x ∈ rs, ¬ x.Clashes r) ∧ r.Valid)) : ∃ e, register map r = .error e := by
  cases r with
  | saga p topic handler =>
    cases hs : (existing map topic).sagaHandler with
    | some first =>
      refine ⟨.duplicateHandler topic first.participant.serviceId p.serviceId, ?_⟩
      simp only [register, registerSaga, hs]
    | none =>
      -- nothing has this topic, so the options are to blame
      have hfree : ∀ x ∈ rs, ¬ x.Clashes (.saga p topic handler) := by
        intro x hx hc
        cases x with
        | plain q t handler' => exact hc
        | saga q t handler' =>
          have ht : t = topic := hc
          subst ht
          rw [← h.saga, hs] at hx
          cases hx
      have hinvalid : finalAndFork (p.handlerOptions.bind (·.lookup topic)) = true :=
        Bool.of_not_eq_false fun hv => hr ⟨hfree, hv⟩
      exact ⟨_, by simp only [register, registerSaga, hs, hinvalid]; rfl⟩
  | plain p topic handler =>
    cases hs : (existing map topic).plainHandler with
    | some first =>
      refine ⟨.duplicateHandler topic first.participant.serviceId p.serviceId, ?_⟩
      simp only [register, registerPlain, hs]
    | none =>
      refine absurd ⟨fun x hx hc => ?_, trivial⟩ hr
      cases x with
      | saga q t handler' => exact hc
      | plain q t handler' =>
        have ht : t = topic := hc
        subst ht
        rw [← h.plain, hs] at hx
        cases hx

/-- The loop fails exactly when two registrations clash or one is not valid, and else its map represents them. -/
theorem buildRouteMap_cases (participants : List (Participant Handler PlainHandler)) :
    (((participants.flatMap (·.registrations)).Pairwise (fun r r' => ¬ r.Clashes r') ∧
        ∀ r ∈ participants.flatMap (·.registrations), r.Valid) ∧
      ∃ map, buildRouteMap participants = .ok map ∧ Represents (participants.flatMap (·.registrations)) map) ∨
    (¬ ((participants.flatMap (·.registrations)).Pairwise (fun r r' => ¬ r.Clashes r') ∧
        ∀ r ∈ participants.flatMap (·.registrations), r.Valid) ∧
      ∃ e, buildRouteMap participants = .error e) := by
  rw [buildRouteMap_eq, ← justified_pairwise_iff]
  exact foldlM_justified (I := Represents) (fun _ _ _ h hr => register_ok h hr)
    (fun _ _ _ h hr => register_error h hr) represents_empty _

/-! ## Participants -/

theorem mem_record {α : Type} {record : Record α} : topic ∈ record ↔ ∃ e ∈ record.entries, e.1 = topic := by
  rw [AList.mem_keys]
  exact List.mem_map

theorem forall_registrations {p : Participant Handler PlainHandler} {P : Registration Handler PlainHandler → Prop} :
    (∀ r ∈ p.registrations, P r) ↔
      (∀ e ∈ p.on.entries, P (.saga p e.1 e.2)) ∧ ∀ e ∈ p.plain.entries, P (.plain p e.1 e.2) := by
  unfold Participant.registrations
  simp only [List.forall_mem_append, List.forall_mem_map]

/-- The registrations of one participant do not clash, since a record has each name once. -/
theorem pairwise_registrations (p : Participant Handler PlainHandler) :
    p.registrations.Pairwise fun r r' => ¬ r.Clashes r' := by
  unfold Participant.registrations
  rw [List.pairwise_append, List.pairwise_map, List.pairwise_map]
  refine ⟨List.nodupKeys_iff_pairwise.1 p.on.nodupKeys, List.nodupKeys_iff_pairwise.1 p.plain.nodupKeys, ?_⟩
  intro r hr r' hr' hc
  obtain ⟨e, -, rfl⟩ := List.mem_map.1 hr
  obtain ⟨e', -, rfl⟩ := List.mem_map.1 hr'
  exact hc

theorem no_common_iff {α : Type} {record record' : Record α} :
    (∀ e ∈ record.entries, ∀ e' ∈ record'.entries, ¬ e.1 = e'.1) ↔ ∀ topic, ¬ (topic ∈ record ∧ topic ∈ record') := by
  simp only [mem_record]
  constructor
  · rintro h topic ⟨⟨e, he, rfl⟩, e', he', heq⟩
    exact h e he e' he' heq.symm
  · intro h e he e' he' heq
    exact h e.1 ⟨⟨e, he, rfl⟩, e', he', heq.symm⟩

/-- The registrations of two participants clash where both have a handler of one kind for a topic. -/
theorem not_clash_iff {p q : Participant Handler PlainHandler} :
    (∀ r ∈ p.registrations, ∀ r' ∈ q.registrations, ¬ r.Clashes r') ↔
      (∀ topic, ¬ (topic ∈ p.on ∧ topic ∈ q.on)) ∧ ∀ topic, ¬ (topic ∈ p.plain ∧ topic ∈ q.plain) := by
  simp only [forall_registrations, Registration.Clashes, not_false_eq_true, implies_true, and_true, true_and]
  rw [no_common_iff, no_common_iff]

theorem clean_iff (participants : List (Participant Handler PlainHandler)) :
    ((participants.flatMap (·.registrations)).Pairwise (fun r r' => ¬ r.Clashes r') ∧
        ∀ r ∈ participants.flatMap (·.registrations), r.Valid) ↔ ¬ ∃ topic, Conflict participants topic := by
  rw [List.pairwise_flatMap, and_iff_right fun p _ => pairwise_registrations p]
  simp only [not_clash_iff]
  simp only [List.forall_mem_flatMap, forall_registrations, Registration.Valid, implies_true, and_true]
  rw [List.pairwise_iff_forall_sublist]
  constructor
  · rintro ⟨hpair, hvalid⟩ ⟨topic, ⟨p, q, hsub, hp, hq⟩ | ⟨p, q, hsub, hp, hq⟩ | ⟨p, hp, hon, hbad⟩⟩
    · exact (hpair hsub).1 topic ⟨hp, hq⟩
    · exact (hpair hsub).2 topic ⟨hp, hq⟩
    · obtain ⟨e, he, rfl⟩ := mem_record.1 hon
      rw [hvalid p hp e he] at hbad
      cases hbad
  · intro h
    refine ⟨fun {p q} hsub => ⟨fun topic ht => ?_, fun topic ht => ?_⟩, fun p hp e he => ?_⟩
    · exact h ⟨topic, .inl ⟨p, q, hsub, ht.1, ht.2⟩⟩
    · exact h ⟨topic, .inr (.inl ⟨p, q, hsub, ht.1, ht.2⟩)⟩
    · exact Bool.of_not_eq_true fun hbad => h ⟨e.1, .inr (.inr ⟨p, hp, mem_record.2 ⟨e, he, rfl⟩, hbad⟩)⟩

/-! ## The map -/

/-- `buildRouteMap` throws exactly where there is a conflict. -/
theorem buildRouteMap_error_iff (participants : List (Participant Handler PlainHandler)) :
    (∃ e, buildRouteMap participants = .error e) ↔ ∃ topic, Conflict participants topic := by
  rw [← not_iff_not, ← clean_iff]
  rcases buildRouteMap_cases participants with ⟨hc, map, hmap, -⟩ | ⟨hc, he⟩
  · refine iff_of_true (fun he => ?_) hc
    obtain ⟨e, he⟩ := he
    rw [hmap] at he
    cases he
  · exact iff_of_false (fun h => h he) hc

theorem represents_buildRouteMap (h : buildRouteMap participants = .ok map) :
    Represents (participants.flatMap (·.registrations)) map := by
  rcases buildRouteMap_cases participants with ⟨-, map', hmap, hrep⟩ | ⟨-, e, he⟩
  · rw [h] at hmap
    cases hmap
    exact hrep
  · rw [h] at he
    cases he

theorem mem_buildRouteMap (h : buildRouteMap participants = .ok map) : topic ∈ map ↔ Handled participants topic := by
  rw [(represents_buildRouteMap h).mem]
  constructor
  · rintro ⟨r, hr, rfl⟩
    cases r with
    | saga p topic handler =>
      obtain ⟨hp, hl⟩ := saga_mem_iff.1 hr
      exact ⟨p, hp, .inl (AList.lookup_isSome.1 (Option.isSome_iff_exists.2 ⟨handler, hl⟩))⟩
    | plain p topic handler =>
      obtain ⟨hp, hl⟩ := plain_mem_iff.1 hr
      exact ⟨p, hp, .inr (AList.lookup_isSome.1 (Option.isSome_iff_exists.2 ⟨handler, hl⟩))⟩
  · rintro ⟨p, hp, hon | hplain⟩
    · obtain ⟨handler, hl⟩ := Option.isSome_iff_exists.1 (AList.lookup_isSome.2 hon)
      exact ⟨.saga p topic handler, saga_mem_iff.2 ⟨hp, hl⟩, rfl⟩
    · obtain ⟨handler, hl⟩ := Option.isSome_iff_exists.1 (AList.lookup_isSome.2 hplain)
      exact ⟨.plain p topic handler, plain_mem_iff.2 ⟨hp, hl⟩, rfl⟩

theorem combines_buildRouteMap (h : buildRouteMap participants = .ok map)
    {entry : RouteEntry (Registered Handler PlainHandler Handler) (Registered Handler PlainHandler PlainHandler)}
    (he : map.lookup topic = some entry) : Combines participants topic entry := by
  have hrep := represents_buildRouteMap h
  have hexisting : existing map topic = entry := by
    unfold existing
    rw [he]
    rfl
  subst hexisting
  exact ⟨fun p handler => (hrep.saga topic p handler).trans saga_mem_iff, hrep.options topic,
    fun p handler => (hrep.plain topic p handler).trans plain_mem_iff⟩

/-- One topic has one entry at most. -/
theorem Combines.unique
    {entry entry' : RouteEntry (Registered Handler PlainHandler Handler) (Registered Handler PlainHandler PlainHandler)}
    (h : Combines participants topic entry) (h' : Combines participants topic entry') : entry = entry' := by
  have hsaga : entry.sagaHandler = entry'.sagaHandler :=
    Option.ext fun r => (h.sagaHandler r.participant r.handler).trans (h'.sagaHandler r.participant r.handler).symm
  have hplain : entry.plainHandler = entry'.plainHandler :=
    Option.ext fun r => (h.plainHandler r.participant r.handler).trans (h'.plainHandler r.participant r.handler).symm
  have hoptions : entry.sagaOptions = entry'.sagaOptions := by rw [h.sagaOptions, h'.sagaOptions, hsaga]
  cases entry
  cases entry'
  simp_all

/-! ## The order of the participants -/

variable {participants' : List (Participant Handler PlainHandler)}

theorem Registration.Clashes.symm {r r' : Registration Handler PlainHandler} (h : r.Clashes r') : r'.Clashes r := by
  cases r <;> cases r' <;> first | exact Eq.symm h | exact h

/-- Whether the registry is rejected does not depend on the order. -/
theorem error_perm (hp : participants.Perm participants') :
    (∃ e, buildRouteMap participants = .error e) ↔ ∃ e, buildRouteMap participants' = .error e := by
  have hregs : (participants.flatMap (·.registrations)).Perm (participants'.flatMap (·.registrations)) :=
    hp.flatMap_right _
  rw [buildRouteMap_error_iff, buildRouteMap_error_iff, ← not_iff_not, ← clean_iff, ← clean_iff,
    hregs.pairwise_iff fun h hc => h hc.symm]
  simp only [hregs.mem_iff]

theorem Combines.perm (hp : participants.Perm participants')
    {entry : RouteEntry (Registered Handler PlainHandler Handler) (Registered Handler PlainHandler PlainHandler)}
    (h : Combines participants topic entry) : Combines participants' topic entry where
  sagaHandler p handler := by rw [h.sagaHandler, hp.mem_iff]
  sagaOptions := h.sagaOptions
  plainHandler p handler := by rw [h.plainHandler, hp.mem_iff]

/-- Nor does the map. -/
theorem lookup_perm (hp : participants.Perm participants') {map' : RouteMap Handler PlainHandler}
    (h : buildRouteMap participants = .ok map) (h' : buildRouteMap participants' = .ok map') :
    map.lookup = map'.lookup := by
  have hmem : ∀ topic, topic ∈ map ↔ topic ∈ map' := by
    intro topic
    rw [mem_buildRouteMap h, mem_buildRouteMap h']
    unfold Handled
    simp only [hp.mem_iff]
  funext topic
  by_cases ht : topic ∈ map
  · obtain ⟨entry, he⟩ := Option.isSome_iff_exists.1 (AList.lookup_isSome.2 ht)
    obtain ⟨entry', he'⟩ := Option.isSome_iff_exists.1 (AList.lookup_isSome.2 ((hmem topic).1 ht))
    rw [he, he', (combines_buildRouteMap h he).unique ((combines_buildRouteMap h' he').perm hp.symm)]
  · rw [AList.lookup_eq_none.2 ht, AList.lookup_eq_none.2 fun ht' => ht ((hmem topic).2 ht')]

end SagaRegistry

/-! ## The runner -/

open SagaRunner

/-- `start` of a registry that is accepted connects, subscribes to the topics with the prefix in front, when there
are any and it has connected, and routes by them. -/
def StartsWith (map : RouteMap Handler PlainHandler) (options : StartOptions) (connects : Bool)
    (s : Start Handler PlainHandler) : Prop :=
  let topicPrefix := options.topicPrefix.getD ""
  ∃ topics routeMap, s.routeMap = some routeMap ∧
    s.calls = .connect ::
      (if connects = true ∧ topics ≠ [] then [.subscribe topics options.fromBeginning options.groupId] else []) ∧
    topics.Nodup ∧ (∀ x, x ∈ topics ↔ ∃ topic ∈ map, x = topicPrefix ++ topic) ∧
    (∀ topic, routeMap.lookup (topicPrefix ++ topic) = map.lookup topic) ∧
    ∀ (env : ParseEnv) (message : InboundMessage), (∀ topic ∈ map, message.topic ≠ topicPrefix ++ topic) →
      handleMessage env routeMap.lookup message = .skip

theorem calls_of_error {participants : List (Participant Handler PlainHandler)} {e : RegistryError}
    (h : buildRouteMap participants = .error e) (options : StartOptions) (connects subscribes : Bool) :
    (SagaRunner.start participants options connects subscribes).calls = [] := by
  unfold SagaRunner.start startRouteMap
  rw [h]
  rfl

theorem starts_of_ok {participants : List (Participant Handler PlainHandler)} {map : RouteMap Handler PlainHandler}
    (h : buildRouteMap participants = .ok map) (options : StartOptions) (connects subscribes : Bool) :
    StartsWith map options connects (SagaRunner.start participants options connects subscribes) := by
  have hroute : startRouteMap participants (options.topicPrefix.getD "") =
      .ok (prefixed (options.topicPrefix.getD "") map) := by
    unfold SagaRunner.startRouteMap
    rw [h]
    rfl
  have hmem : ∀ x, x ∈ prefixed (options.topicPrefix.getD "") map ↔
      ∃ topic ∈ map, x = options.topicPrefix.getD "" ++ topic := fun x => mem_prefixed
  refine ⟨(prefixed (options.topicPrefix.getD "") map).keys, prefixed (options.topicPrefix.getD "") map, ?_, ?_,
    AList.keys_nodup _, fun x => ?_, fun topic => lookup_prefixed _ _ _, fun env message hno => ?_⟩
  · unfold SagaRunner.start
    rw [hroute]
    cases connects with
    | false => rfl
    | true =>
      by_cases hnil : 0 < (prefixed (options.topicPrefix.getD "") map).keys.length <;> simp [hnil]
  · unfold SagaRunner.start
    rw [hroute]
    cases connects with
    | false => simp
    | true =>
      by_cases hnil : (prefixed (options.topicPrefix.getD "") map).keys = [] <;> simp [hnil, List.length_pos_iff]
  · rw [← AList.mem_keys, hmem]
  · have hnone : (prefixed (options.topicPrefix.getD "") map).lookup message.topic = none := by
      rw [AList.lookup_eq_none, hmem]
      rintro ⟨topic, ht, heq⟩
      exact hno topic ht heq
    unfold handleMessage
    simp only [hnone]

/-- The registry is rejected exactly where there is a conflict, and then nothing is called on the transport;
else the map has the topics that are handled, each with the entry of its handlers. The order of the
participants does not show, and `start` subscribes to the topics with the prefix and routes by them. -/
theorem routeMap_correct (participants : List (Participant Handler PlainHandler)) :
    ((∃ e, buildRouteMap participants = .error e) ↔ ∃ topic, Conflict participants topic) ∧
    (∀ map, buildRouteMap participants = .ok map → ∀ topic,
      (topic ∈ map ↔ Handled participants topic) ∧
      ∀ entry, map.lookup topic = some entry → Combines participants topic entry) ∧
    (∀ participants', participants.Perm participants' →
      ((∃ e, buildRouteMap participants = .error e) ↔ ∃ e, buildRouteMap participants' = .error e) ∧
      ∀ map map', buildRouteMap participants = .ok map → buildRouteMap participants' = .ok map' →
        map.lookup = map'.lookup) ∧
    ∀ options connects subscribes,
      (∀ e, buildRouteMap participants = .error e → (SagaRunner.start participants options connects subscribes).calls = []) ∧
      ∀ map, buildRouteMap participants = .ok map →
        StartsWith map options connects (SagaRunner.start participants options connects subscribes) := by
  refine ⟨buildRouteMap_error_iff participants, fun map h topic => ?_, fun participants' hp => ?_,
    fun options connects subscribes => ?_⟩
  · exact ⟨mem_buildRouteMap h, fun entry he => combines_buildRouteMap h he⟩
  · exact ⟨error_perm hp, fun map map' h h' => lookup_perm hp h h'⟩
  · exact ⟨fun e h => calls_of_error h options connects subscribes,
      fun map h => starts_of_ok h options connects subscribes⟩

end Saga
