/-
Baggage of other vendors beside the saga members. `parseBaggageHeader` decodes every member in one
go, so a member it has no use for can make the whole message unreadable; this file says for which
messages that shows.
-/
import SagaProofs.Core.Routing

namespace Saga

/-! ## Saga members and foreign members -/

/-- The names `parseFromBaggage` looks up. -/
def sagaNames : List String := ["saga.id", "saga.root.id", "saga.parent.id"]

section Members

variable (env : ParseEnv) (message : InboundMessage)

/-- The saga members of the `baggage` header, in their order. -/
def sagaMembers : List (String × String) := (baggageMembers message).filter (·.1 ∈ sagaNames)

def SagaDecodable : Prop := ∀ p ∈ sagaMembers message, (Text.decodeURIComponent p.2).isSome

def ForeignDecodable : Prop :=
  ∀ p ∈ baggageMembers message, p.1 ∉ sagaNames → (Text.decodeURIComponent p.2).isSome

/-- But for its foreign members the message is an event: its saga members decode, and its body is JSON other
than `null` beside a saga id in the baggage, or has a saga id itself. -/
structure BearsEvent : Prop where
  decodable : SagaDecodable message
  read : (HasSagaBaggage env message ∧ ∃ body, env.json.parse message.value = some body ∧ body ≠ .null) ∨
    (¬ HasSagaBaggage env message ∧ HasSagaBody env message)

/-- The message with its `baggage` header removed. -/
def InboundMessage.withoutBaggage : InboundMessage := { message with headers := message.headers.erase "baggage" }

end Members

/-- Two messages that differ in the foreign members of their `baggage` headers at most. -/
structure SameButForeign (message other : InboundMessage) : Prop where
  topic : other.topic = message.topic
  key : other.key = message.key
  value : other.value = message.value
  headers : ∀ name, name ≠ "baggage" → other.headers.lookup name = message.headers.lookup name
  members : sagaMembers other = sagaMembers message

/-- The ids of what is parsed: the saga, its root and its parent, `none` where undefined. -/
def Parsed.ids : Parsed → Option Json × Option Json × Option Json
  | .headers event => (some (.str event.sagaId), some (.str event.rootSagaId), event.parentSagaId.map .str)
  | .baggage event => (some (.str event.sagaId), some (.str event.rootSagaId), event.parentSagaId.map .str)
  | .body value => (value.field "sagaId", value.field "rootSagaId", value.field "parentSagaId")

/-! ## What foreign members can change -/

section Foreign

variable {env : ParseEnv} {message other : InboundMessage}

theorem decodable_iff : Decodable message ↔ SagaDecodable message ∧ ForeignDecodable message := by
  unfold Decodable SagaDecodable ForeignDecodable sagaMembers
  constructor
  · intro h
    exact ⟨fun p hp => h p (List.mem_filter.1 hp).1, fun p hp _ => h p hp⟩
  · rintro ⟨hsaga, hforeign⟩ p hp
    by_cases hn : p.1 ∈ sagaNames
    · exact hsaga p (List.mem_filter.2 ⟨hp, by simpa using hn⟩)
    · exact hforeign p hp hn

/-- The last of the members with a saga name is that of the saga members. -/
theorem lookup_sagaMembers {name : String} (hn : name ∈ sagaNames) : ∀ members : List (String × String),
    (members.filter (·.1 ∈ sagaNames)).lookup name = members.lookup name
  | [] => rfl
  | (k, v) :: rest => by
    by_cases hk : name = k
    · subst hk
      simp [hn]
    · have ih := lookup_sagaMembers hn rest
      rw [List.lookup_cons, beq_eq_false_iff_ne.2 hk, ← ih]
      by_cases hmem : k ∈ sagaNames
      · simp [hmem, List.lookup_cons, beq_eq_false_iff_ne.2 hk]
      · simp [hmem]

/-- The value of a saga member in baggage that decodes. -/
theorem lookup_decoded {entries : Headers} {name : String} (hn : name ∈ sagaNames)
    (he : (baggageMembers message).foldlM setMember ∅ = some entries) :
    entries.lookup name = ((sagaMembers message).reverse.lookup name).bind Text.decodeURIComponent := by
  have hproto : name ≠ "__proto__" := by
    rintro rfl
    exact absurd hn (by decide)
  unfold sagaMembers
  rw [lookup_setMembers hproto he, ← List.filter_reverse, lookup_sagaMembers hn]
  cases (baggageMembers message).reverse.lookup name <;> rfl

/-- Messages that differ in foreign members have the same identities when both decode. -/
theorem SameButForeign.baggageOf_eq (h : SameButForeign message other) (hd : Decodable message)
    (hd' : Decodable other) : baggageOf env other = baggageOf env message := by
  have hsome : ((baggageMembers message).foldlM setMember ∅).isSome := setMembers_isSome.2 hd
  have hsome' : ((baggageMembers other).foldlM setMember ∅).isSome := setMembers_isSome.2 hd'
  obtain ⟨entries, he⟩ := Option.isSome_iff_exists.1 hsome
  obtain ⟨entries', he'⟩ := Option.isSome_iff_exists.1 hsome'
  have hsame : ∀ name ∈ sagaNames, entries'.lookup name = entries.lookup name := by
    intro name hn
    rw [lookup_decoded hn he, lookup_decoded hn he', h.members]
  have hheader : headerBaggage other = headerBaggage message := by
    rw [headerBaggage_eq, headerBaggage_eq, he, he', Option.map_some, Option.map_some,
      hsame "saga.id" (by decide), hsame "saga.root.id" (by decide), hsame "saga.parent.id" (by decide)]
  unfold baggageOf
  rw [hheader]

theorem SameButForeign.hasSagaHeader_iff (h : SameButForeign message other) :
    HasSagaHeader other ↔ HasSagaHeader message := by
  unfold HasSagaHeader
  rw [h.headers "saga-id" (by decide)]

theorem SameButForeign.hasSagaBaggage_iff (h : SameButForeign message other) :
    HasSagaBaggage env other ↔ HasSagaBaggage env message := by
  have hlast : (baggageMembers other).reverse.lookup "saga.id" = (baggageMembers message).reverse.lookup "saga.id" := by
    rw [← lookup_sagaMembers (by decide), ← lookup_sagaMembers (by decide) (baggageMembers message).reverse,
      List.filter_reverse, List.filter_reverse]
    exact congrArg (·.reverse.lookup "saga.id") h.members
  unfold HasSagaBaggage
  rw [hlast]

theorem SameButForeign.bearsEvent_iff (h : SameButForeign message other) :
    BearsEvent env other ↔ BearsEvent env message := by
  have hbody : HasSagaBody env other ↔ HasSagaBody env message := by
    unfold HasSagaBody parseFromBody
    rw [h.value]
  have hdec : SagaDecodable other ↔ SagaDecodable message := by
    unfold SagaDecodable
    rw [h.members]
  constructor
  · rintro ⟨hd, hr⟩
    rw [h.hasSagaBaggage_iff, hbody, h.value] at hr
    exact ⟨hdec.1 hd, hr⟩
  · rintro ⟨hd, hr⟩
    rw [← h.hasSagaBaggage_iff, ← hbody, ← h.value] at hr
    exact ⟨hdec.2 hd, hr⟩

/-- Without a `saga-id` header a message is read exactly when it bears an event and its foreign members
decode. -/
theorem parse_isSome_iff_bearsEvent (hs : ¬ HasSagaHeader message) :
    (parse env message).isSome ↔ BearsEvent env message ∧ ForeignDecodable message := by
  rw [parse_isSome_of_not_header hs, decodable_iff]
  constructor
  · rintro ⟨⟨hsaga, hforeign⟩, hr⟩
    exact ⟨⟨hsaga, hr⟩, hforeign⟩
  · rintro ⟨⟨hsaga, hr⟩, hforeign⟩
    exact ⟨⟨hsaga, hforeign⟩, hr⟩

/-- The header layer does not look at baggage. -/
theorem SameButForeign.parse_eq_of_header (h : SameButForeign message other) (hs : HasSagaHeader message) :
    parse env other = parse env message := by
  obtain ⟨sagaId, hid⟩ := Option.isSome_iff_exists.1 hs
  have hid' : truthy (other.headers.lookup "saga-id") = some sagaId := by
    rw [h.headers "saga-id" (by decide)]
    exact hid
  have hheaders : parseFromHeaders env other sagaId = parseFromHeaders env message sagaId := by
    unfold parseFromHeaders
    simp (disch := decide) only [h.topic, h.value, h.headers]
  unfold parse
  rw [hid, hid']
  simp only [hheaders]

theorem SameButForeign.parse_eq_of_decodable (h : SameButForeign message other) (hs : ¬ HasSagaHeader message)
    (hd : Decodable message) (hd' : Decodable other) : parse env other = parse env message := by
  have hid : truthy (message.headers.lookup "saga-id") = none := Option.not_isSome_iff_eq_none.1 hs
  have hid' : truthy (other.headers.lookup "saga-id") = none := by
    rw [h.headers "saga-id" (by decide)]
    exact hid
  have hbaggage : parseFromBaggage env other = parseFromBaggage env message := by
    unfold parseFromBaggage
    rw [h.baggageOf_eq hd hd', h.value]
  unfold parse parseFromBody
  rw [hid, hid', hbaggage, h.value]

/-- Messages that differ in foreign members are read alike, in any part of what is read, exactly when a
`saga-id` header is there, no event is, or the foreign members of both decode or those of neither. -/
theorem SameButForeign.map_parse_iff {α : Type*} (part : Parsed → α) (h : SameButForeign message other) :
    (parse env other).map part = (parse env message).map part ↔
      (¬ HasSagaHeader message → BearsEvent env message → (ForeignDecodable other ↔ ForeignDecodable message)) := by
  by_cases hs : HasSagaHeader message
  · rw [h.parse_eq_of_header hs]
    exact iff_of_true rfl fun hn => absurd hs hn
  · have hsome : (parse env message).isSome ↔ _ := parse_isSome_iff_bearsEvent hs
    have hsome' : (parse env other).isSome ↔ _ := parse_isSome_iff_bearsEvent (mt h.hasSagaHeader_iff.1 hs)
    rw [h.bearsEvent_iff] at hsome'
    constructor
    · intro heq _ hb
      have hiff : (parse env other).isSome ↔ (parse env message).isSome := by
        rw [← Option.isSome_map (f := part), heq, Option.isSome_map]
      rw [hsome, hsome', and_iff_right hb, and_iff_right hb] at hiff
      exact hiff
    · intro hc
      have hiff : (parse env other).isSome ↔ (parse env message).isSome := by
        rw [hsome, hsome']
        exact and_congr_right (hc hs)
      by_cases hread : (parse env message).isSome
      · obtain ⟨hb, hf⟩ := hsome.1 hread
        obtain ⟨hb', hf'⟩ := hsome'.1 (hiff.2 hread)
        have hd' : Decodable other := decodable_iff.2 ⟨(h.bearsEvent_iff.2 hb').decodable, hf'⟩
        rw [h.parse_eq_of_decodable hs (decodable_iff.2 ⟨hb.decodable, hf⟩) hd']
      · rw [Option.not_isSome_iff_eq_none.1 hread, Option.not_isSome_iff_eq_none.1 (mt hiff.1 hread)]

theorem baggageMembers_withoutBaggage (message : InboundMessage) : baggageMembers message.withoutBaggage = [] := by
  unfold baggageMembers InboundMessage.withoutBaggage
  rw [AList.lookup_erase]
  rfl

/-- Without saga members, removing the header removes foreign members only. -/
theorem sameButForeign_withoutBaggage (h : sagaMembers message = []) :
    SameButForeign message.withoutBaggage message := by
  refine ⟨rfl, rfl, rfl, fun name hn => (AList.lookup_erase_ne hn).symm, ?_⟩
  unfold sagaMembers at h ⊢
  rw [h, baggageMembers_withoutBaggage]
  rfl

/-- Foreign baggage hides no event and changes no id exactly as long as it decodes. A message whose header has no
saga member reads as it does without the header, unless it bears an event that a foreign member hides; and
of two headers with the same saga members the ids read are the same, unless the foreign members of one
of them hide an event and those of the other do not. -/
theorem foreign_baggage_iff (env : ParseEnv) (message : InboundMessage) :
    (sagaMembers message = [] → (parse env message = parse env message.withoutBaggage ↔
      (¬ HasSagaHeader message → BearsEvent env message → ForeignDecodable message))) ∧
    ∀ other, SameButForeign message other → ((parse env other).map Parsed.ids = (parse env message).map Parsed.ids ↔
      (¬ HasSagaHeader message → BearsEvent env message → (ForeignDecodable other ↔ ForeignDecodable message))) := by
  refine ⟨fun hnone => ?_, fun other h => h.map_parse_iff Parsed.ids⟩
  have h := sameButForeign_withoutBaggage hnone
  have hforeign : ForeignDecodable message.withoutBaggage := by
    unfold ForeignDecodable
    rw [baggageMembers_withoutBaggage]
    simp
  have hiff : (parse env message).map id = (parse env message.withoutBaggage).map id ↔ _ := h.map_parse_iff id
  rw [Option.map_id, ← h.hasSagaHeader_iff, ← h.bearsEvent_iff, iff_true_right hforeign] at hiff
  exact hiff

end Foreign

/-! ## Baggage of another vendor -/

/-- A legacy message of saga-1 whose `baggage` header has the given text. -/
def InboundMessage.legacy (baggage : String) : InboundMessage :=
  ⟨"order.created", "saga-1", "\x7b\"sagaId\":\"saga-1\"\x7d", AList.singleton "baggage" baggage⟩

/-- The messages of two headers differ in the foreign members when the headers do. -/
theorem sameButForeign_legacy {baggage baggage' : String}
    (h : sagaMembers (.legacy baggage') = sagaMembers (.legacy baggage)) :
    SameButForeign (.legacy baggage) (.legacy baggage') := by
  refine ⟨rfl, rfl, rfl, fun name hn => ?_, h⟩
  have hnone : ∀ text, (InboundMessage.legacy text).headers.lookup name = none := fun text =>
    AList.lookup_eq_none.2 (by simpa [InboundMessage.legacy, AList.mem_keys] using hn)
  rw [hnone, hnone]

/-- A percent sign that stands alone in a foreign value hides the event of a body, and that of the baggage. -/
theorem foreign_percent_hides :
    (¬ ∀ env message, ¬ HasSagaHeader message → sagaMembers message = [] →
      parse env message = parse env message.withoutBaggage) ∧
    ¬ ∀ env message other, SameButForeign message other →
      (parse env other).map Parsed.ids = (parse env message).map Parsed.ids := by
  have hbody : (parse .sample (.legacy "load=100%")).isSome = false := rfl
  have hbaggage : (parse .sample (.legacy "saga.id=saga-1,load=100%")).isSome = false := rfl
  constructor
  · intro hall
    have hheader : ¬ HasSagaHeader (.legacy "load=100%") := Bool.false_ne_true
    rw [hall .sample (.legacy "load=100%") hheader rfl] at hbody
    exact absurd hbody (by decide)
  · intro hall
    have hids := hall .sample (.legacy "saga.id=saga-1") (.legacy "saga.id=saga-1,load=100%")
      (sameButForeign_legacy rfl)
    rw [← Option.isSome_map (f := Parsed.ids), hids, Option.isSome_map] at hbaggage
    exact absurd hbaggage (by decide)

/-- Foreign members that decode leave the ids as they are. -/
theorem foreign_members_kept :
    (parse .sample (.legacy "a=%41,saga.id=saga-1,b=x;p=1")).map Parsed.ids =
      (parse .sample (.legacy "saga.id=saga-1")).map Parsed.ids := by
  have hm : baggageMembers (.legacy "a=%41,saga.id=saga-1,b=x;p=1") =
      [("a", "%41"), ("saga.id", "saga-1"), ("b", "x;p")] := rfl
  have hm' : baggageMembers (.legacy "saga.id=saga-1") = [("saga.id", "saga-1")] := rfl
  have hsame : SameButForeign (.legacy "saga.id=saga-1") (.legacy "a=%41,saga.id=saga-1,b=x;p=1") := by
    refine sameButForeign_legacy ?_
    unfold sagaMembers
    rw [hm, hm']
    decide
  have hiff := (foreign_baggage_iff .sample (.legacy "saga.id=saga-1")).2 _ hsame
  refine hiff.2 fun _ _ => ?_
  unfold ForeignDecodable
  rw [hm, hm']
  decide

end Saga
