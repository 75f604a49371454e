/-
The feed of the pages: the store over the streams of the backend, and the list of events a page shows, which it brings
up to date from time to time with the newest of what the store took.
-/
import SagaProofs.Monitor.SseStore

namespace Saga.Monitor

open Keyed Lts RedisPublisherService

variable {Time : Type} {iso : Time → String}

/-! ## The events of a page -/

def MAX_EVENTS : ℕ := 100

/-- The lists of `useEventBuffer`; all updates its listener was called for, and how many the store took while it was
paused. -/
structure EventBuffer where
  pending : List SagaSseMessage
  buffer : List SagaSseMessage
  delivered : List SagaSseMessage
  missed : ℕ

namespace EventBuffer

def empty : EventBuffer := ⟨[], [], [], 0⟩

variable (e : EventBuffer)

/-- The listener, with `store.getMessage()`. -/
def listen : Option SagaSseMessage → EventBuffer
  | none => e
  | some msg => { e with pending := e.pending ++ [msg], delivered := e.delivered ++ [msg] }

/-- The callback of the interval. -/
def flush : EventBuffer :=
  if e.pending.length = 0 then e
  else { e with pending := [], buffer := (e.pending.reverse ++ e.buffer).take MAX_EVENTS }

variable {e} {accepted : List SagaSseMessage}

/-- The page has the newest of what its listener was called for, which is what the store took since the page is shown,
save what it took while it was paused. -/
structure Holds (accepted : List SagaSseMessage) (e : EventBuffer) : Prop where
  flushed : ∃ flushed, e.delivered = flushed ++ e.pending ∧ e.buffer = flushed.reverse.take MAX_EVENTS
  delivered : ∃ since, since <:+ accepted ∧ e.delivered.Sublist since ∧ since.length = e.delivered.length + e.missed

theorem holds_empty (accepted : List SagaSseMessage) : Holds accepted empty :=
  ⟨⟨[], rfl, rfl⟩, [], List.nil_suffix, .slnil, rfl⟩

theorem Holds.listen (he : Holds accepted e) (m : SagaSseMessage) : Holds (accepted ++ [m]) (e.listen (some m)) := by
  obtain ⟨flushed, hdelivered, hbuffer⟩ := he.flushed
  obtain ⟨since, hsuffix, hsub, hlen⟩ := he.delivered
  refine ⟨⟨flushed, ?_, hbuffer⟩, since ++ [m], ?_, hsub.append (List.Sublist.refl _), ?_⟩
  · unfold EventBuffer.listen
    dsimp only
    rw [hdelivered, List.append_assoc]
  · obtain ⟨earlier, rfl⟩ := hsuffix
    exact ⟨earlier, by rw [List.append_assoc]⟩
  · unfold EventBuffer.listen
    simp only [List.length_append, List.length_singleton, hlen]
    omega

theorem Holds.miss (he : Holds accepted e) (m : SagaSseMessage) :
    Holds (accepted ++ [m]) { e with missed := e.missed + 1 } := by
  obtain ⟨since, hsuffix, hsub, hlen⟩ := he.delivered
  refine ⟨he.flushed, since ++ [m], ?_, hsub.trans (List.sublist_append_left _ _), ?_⟩
  · obtain ⟨earlier, rfl⟩ := hsuffix
    exact ⟨earlier, by rw [List.append_assoc]⟩
  · simp only [List.length_append, List.length_singleton, hlen]
    omega

theorem flush_delivered (e : EventBuffer) : e.flush.delivered = e.delivered ∧ e.flush.missed = e.missed := by
  unfold flush
  split <;> exact ⟨rfl, rfl⟩

/-- After a flush the page has the newest of all its listener was called for. -/
theorem Holds.flush_buffer (he : Holds accepted e) :
    e.flush.pending = [] ∧ e.flush.buffer = e.delivered.reverse.take MAX_EVENTS := by
  obtain ⟨flushed, hdelivered, hbuffer⟩ := he.flushed
  unfold flush
  split
  · rename_i hempty
    rw [List.length_eq_zero_iff] at hempty
    rw [hempty, List.append_nil] at hdelivered
    exact ⟨hempty, by rw [hbuffer, hdelivered]⟩
  · refine ⟨rfl, ?_⟩
    dsimp only
    rw [hdelivered, hbuffer, List.reverse_append, List.take_append, List.take_append, List.take_take,
      Nat.min_eq_left (Nat.sub_le _ _)]

theorem Holds.flush (he : Holds accepted e) : Holds accepted e.flush := by
  obtain ⟨hdelivered, hmissed⟩ := e.flush_delivered
  obtain ⟨hpending, hbuffer⟩ := he.flush_buffer
  refine ⟨⟨e.delivered, ?_, hbuffer⟩, ?_⟩
  · rw [hdelivered, hpending, List.append_nil]
  · rw [hdelivered, hmissed]
    exact he.delivered

/-- The events of the page have different ids, unless the store took more than nine hundred updates while it was
paused. -/
theorem Holds.nodup (he : Holds accepted e) (hspaced : Window.Spaced MAX_SEEN (accepted.map (·.eventId)))
    (hmissed : e.missed ≤ 901) : (e.buffer.map (·.eventId)).Nodup := by
  obtain ⟨flushed, hdelivered, hbuffer⟩ := he.flushed
  obtain ⟨since, ⟨earlier, rfl⟩, hsub, hlen⟩ := he.delivered
  -- what was flushed is a part of what was taken before what is pending
  rw [hdelivered] at hsub hlen
  obtain ⟨before, after, rfl, hbefore, hafter⟩ := List.append_sublist_iff.1 hsub
  have hle := hafter.length_le
  rw [List.length_append, List.length_append] at hlen
  rw [← List.append_assoc, List.map_append, List.map_append] at hspaced
  have hinitial : Window.Spaced MAX_SEEN (earlier.map (·.eventId) ++ before.map (·.eventId)) :=
    hspaced.initial (List.prefix_append _ _)
  have hleft : (before.map (·.eventId)).length ≤ (flushed.map (·.eventId)).length + e.missed := by
    rw [List.length_map, List.length_map]
    omega
  have hnodup : ((flushed.map (·.eventId)).rtake MAX_EVENTS).Nodup := by
    apply hinitial.nodup_part (hbefore.map _) hleft
    unfold MAX_EVENTS MAX_SEEN
    omega
  rw [List.rtake_eq_reverse_take_reverse, List.nodup_reverse] at hnodup
  rw [hbuffer, List.map_take, List.map_reverse]
  exact hnodup

end EventBuffer

/-! ## The feed -/

/-- The backend with the provider of one page. `links` has, for the connections the backend took, the number of its
stream and how many of its data were received. -/
structure Live where
  hub : Hub
  provider : SseProvider
  links : Table ℕ (ℕ × ℕ)
  events : Option EventBuffer

inductive LiveAct (Time : Type)
  -- the backend, Redis and the other pages
  | hub (a : HubAct Time)
  -- the backend takes the request of a connection
  | accept (k : ℕ)
  | receive (k : ℕ)
  | page (a : StoreAct)
  | showEvents
  | hideEvents
  | flush

namespace Live

def initial : Live := ⟨.empty, .initial, ∅, none⟩

/-- The messages come from the streams, and the backend takes a request before the connection is open. -/
def allows (live : Live) : StoreAct → Bool
  | .message _ _ => false
  | .opened k => decide (k ∈ live.links)
  | _ => true

variable (iso) in
def step (live : Live) : LiveAct Time → Option Live
  | .hub a => (live.hub.step iso a).map fun hub => { live with hub }
  | .accept k =>
    if live.provider.store.sources[k]? = some .connecting ∧ k ∉ live.links then
      some { live with
        hub := live.hub.createSseStream channelAll
        links := live.links.insert k (live.hub.streams.length, 0) }
    else none
  | .receive k =>
    match live.links.lookup k with
    | none => none
    | some (i, n) =>
      match (live.hub.streams[i]?).bind fun s : SseStream => s.data[n]? with
      | none => none
      | some data =>
        (live.provider.step (.message k data)).map fun provider =>
          { live with
            provider
            links := live.links.insert k (i, n + 1)
            events := live.events.map fun e =>
              if (live.provider.store.onmessage data).2 then e.listen provider.store.messageSnap
              else { e with missed := e.missed + (live.provider.store.takes data).toList.length } }
  | .page a => if live.allows a then (live.provider.step a).map fun provider => { live with provider } else none
  | .showEvents => if live.events.isNone then some { live with events := some .empty } else none
  | .hideEvents => some { live with events := none }
  | .flush => live.events.map fun e => { live with events := some e.flush }

/-- What the stream of the connection has sent and the page has not received. -/
def unread (live : Live) : List SagaSseMessage :=
  match live.provider.store.eventSource.bind live.links.lookup with
  | none => []
  | some (i, n) =>
    match live.hub.streams[i]? with
    | none => []
    | some s => (s.data.drop n).filterMap StreamData.message?

/-- What the backend knows of a connection it took: the stream is one of all updates, and what was received of it was
taken. -/
structure Linked (live : Live) (k i n : ℕ) : Prop where
  source : k < live.provider.store.sources.length
  stream : ∃ s, live.hub.streams[i]? = some s ∧ s.channel = channelAll ∧ n ≤ s.data.length ∧
    ∀ m ∈ (s.data.take n).filterMap StreamData.message?, m.eventId = "" ∨ m.eventId ∈ live.provider.ids

structure Sound (live : Live) : Prop where
  hub : live.hub.Sound
  connected : live.provider.Connected
  seen : live.provider.Seen
  links : ∀ k i n, live.links.lookup k = some (i, n) → live.Linked k i n
  feed : (live.provider.accepted ++ live.unread).Sublist (onChannel channelAll live.hub.received)
  events : ∀ e, live.events = some e → e.Holds live.provider.accepted

variable {live live' : Live}

theorem sound_initial : initial.Sound where
  hub := Hub.sound_empty
  connected := SseProvider.connected_initial
  seen := SseProvider.seen_initial
  links _ _ _ h := by cases h
  feed := .slnil
  events _ h := by cases h

theorem unread_of_link {k i n : ℕ} {s : SseStream} (hsource : live.provider.store.eventSource = some k)
    (hlink : live.links.lookup k = some (i, n)) (hi : live.hub.streams[i]? = some s) :
    live.unread = (s.data.drop n).filterMap StreamData.message? := by
  unfold unread
  rw [hsource, Option.bind_some, hlink]
  dsimp only
  rw [hi]

theorem unread_of_unlinked (h : ∀ k, live.provider.store.eventSource = some k → live.links.lookup k = none) :
    live.unread = [] := by
  unfold unread
  cases hsource : live.provider.store.eventSource with
  | none => rfl
  | some k =>
    rw [Option.bind_some, h k hsource]

theorem sound_hub {a : HubAct Time} {hub : Hub} (hl : live.Sound) (h : live.hub.step iso a = some hub) :
    Sound { live with hub } := by
  refine ⟨Hub.sound_step hl.hub h, hl.connected, hl.seen, fun k i n hlink => ?_, ?_, hl.events⟩
  · obtain ⟨hsource, s, hi, hchannel, hle, hread⟩ := hl.links k i n hlink
    obtain ⟨s', hi', hflow⟩ := Hub.flow_step hl.hub h hi
    obtain ⟨out, -, hdata, -⟩ := hflow.sent
    refine ⟨hsource, s', hi', hflow.channel.trans hchannel, ?_, ?_⟩
    · rw [hdata, List.length_append]
      omega
    · rw [hdata, List.take_append_of_le_length hle]
      exact hread
  · have hfeed := hl.feed
    by_cases hlinked : ∃ k i n, live.provider.store.eventSource = some k ∧ live.links.lookup k = some (i, n)
    · obtain ⟨k, i, n, hsource, hlink⟩ := hlinked
      obtain ⟨-, s, hi, hchannel, hle, -⟩ := hl.links k i n hlink
      obtain ⟨s', hi', hflow⟩ := Hub.flow_step hl.hub h hi
      obtain ⟨out, more, hdata, hreceived, hsub, -⟩ := hflow.sent
      rw [hchannel] at hreceived
      have hunread : unread { live with hub } = (s'.data.drop n).filterMap StreamData.message? :=
        unread_of_link hsource hlink hi'
      rw [unread_of_link hsource hlink hi] at hfeed
      rw [hunread, hdata, List.drop_append_of_le_length hle, List.filterMap_append, hreceived, ← List.append_assoc]
      exact hfeed.append hsub
    · have hnone : ∀ k, live.provider.store.eventSource = some k → live.links.lookup k = none := by
        intro k hsource
        by_contra hlink
        obtain ⟨⟨i, n⟩, hlink⟩ := Option.ne_none_iff_exists'.1 hlink
        exact hlinked ⟨k, i, n, hsource, hlink⟩
      obtain ⟨more, hreceived⟩ := Hub.received_step h channelAll
      have hunread : unread { live with hub } = [] := unread_of_unlinked hnone
      rw [unread_of_unlinked hnone] at hfeed
      rw [hunread, hreceived]
      exact hfeed.trans (List.sublist_append_left _ _)

theorem sound_accept {k : ℕ} (hl : live.Sound) (hk : live.provider.store.sources[k]? = some .connecting)
    (hnew : k ∉ live.links) :
    Sound { live with
      hub := live.hub.createSseStream channelAll
      links := live.links.insert k (live.hub.streams.length, 0) } := by
  have hopened : live.hub.step id (.openStream .streamAll) = some (live.hub.createSseStream channelAll) := rfl
  have hl' := sound_hub hl hopened
  have hsource : live.provider.store.eventSource = some k := (hl.connected.single k).2 ⟨_, hk, by decide⟩
  have hstream : (live.hub.createSseStream channelAll).streams[live.hub.streams.length]? =
      some ⟨channelAll, true, []⟩ := by
    unfold Hub.createSseStream
    rw [(Hub.subscribe_frame _ _ _).1]
    exact List.getElem?_concat_length
  refine ⟨hl'.hub, hl'.connected, hl'.seen, fun j i n hlink => ?_, ?_, hl'.events⟩
  · dsimp only at hlink
    by_cases hj : j = k
    · subst hj
      rw [Finmap.lookup_insert] at hlink
      cases hlink
      exact ⟨(List.getElem?_eq_some_iff.1 hk).1, _, hstream, rfl, Nat.zero_le _, List.forall_mem_nil _⟩
    · rw [Finmap.lookup_insert_of_ne _ hj] at hlink
      obtain ⟨hlt, hlinked⟩ := hl'.links j i n hlink
      exact ⟨hlt, hlinked⟩
  · have hfeed := hl'.feed
    have hbefore : unread { live with hub := live.hub.createSseStream channelAll } = [] :=
      unread_of_unlinked fun j hj => by
        rw [hsource] at hj
        cases hj
        exact Finmap.lookup_eq_none.2 hnew
    have hafter : unread { live with
        hub := live.hub.createSseStream channelAll
        links := live.links.insert k (live.hub.streams.length, 0) } =
        ((⟨channelAll, true, []⟩ : SseStream).data.drop 0).filterMap StreamData.message? :=
      unread_of_link hsource (Finmap.lookup_insert _) hstream
    rw [hbefore] at hfeed
    rw [hafter]
    exact hfeed

/-- A message is received: it is taken, or it is no update, or its id is one of the last. -/
theorem sound_receive {k i n : ℕ} {s : SseStream} {data : StreamData} (hl : live.Sound)
    (hlink : live.links.lookup k = some (i, n)) (hi : live.hub.streams[i]? = some s) (hn : s.data[n]? = some data)
    (h : live.provider.step (.message k data) = some live'.provider) (hhub : live'.hub = live.hub)
    (hlinks : live'.links = live.links.insert k (i, n + 1))
    (hevents : live'.events = live.events.map fun e =>
      if (live.provider.store.onmessage data).2 then e.listen live'.provider.store.messageSnap
      else { e with missed := e.missed + (live.provider.store.takes data).toList.length }) : live'.Sound := by
  have hconnected := SseProvider.connected_step hl.connected h
  have hseen := SseProvider.seen_step hl.seen h
  have hframe := SseProvider.source_step h
  simp only [SseProvider.step, Option.ite_none_right_eq_some, Option.some.injEq] at h
  obtain ⟨hk, hprovider⟩ := h
  have hsource : live.provider.store.eventSource = some k := (hl.connected.single k).2 ⟨_, hk, by decide⟩
  have haccepted : live'.provider.accepted = live.provider.accepted ++ (live.provider.store.takes data).toList := by
    rw [← hprovider]
  have hids : ∀ id, id ∈ live.provider.ids → id ∈ live'.provider.ids := by
    intro id hid
    unfold SseProvider.ids
    rw [haccepted, List.map_append]
    exact List.mem_append_left _ hid
  obtain ⟨hlt, s', hi', hchannel, hle, hread⟩ := hl.links k i n hlink
  rw [hi] at hi'
  cases hi'
  have hlen : n + 1 ≤ s.data.length := (List.getElem?_eq_some_iff.1 hn).1
  have htake : s.data.take (n + 1) = s.data.take n ++ [data] := by
    rw [List.take_add_one, hn, Option.toList_some]
  have hdrop : s.data.drop n = data :: s.data.drop (n + 1) := by
    rw [List.drop_eq_getElem_cons hlen, (List.getElem?_eq_some_iff.1 hn).2]
  refine ⟨hhub ▸ hl.hub, hconnected, hseen, fun j i' n' hlink' => ?_, ?_, fun e' he' => ?_⟩
  · rw [hlinks] at hlink'
    by_cases hj : j = k
    · subst hj
      rw [Finmap.lookup_insert] at hlink'
      cases hlink'
      refine ⟨hlt.trans_le hframe.1, s, by rw [hhub]; exact hi, hchannel, hlen, fun m hm => ?_⟩
      rw [htake, List.filterMap_append] at hm
      rcases List.mem_append.1 hm with hm | hm
      · exact (hread m hm).imp_right (hids _)
      · obtain ⟨d, hd, hm⟩ := List.mem_filterMap.1 hm
        rw [List.mem_singleton.1 hd] at hm
        unfold SseProvider.ids
        rw [haccepted]
        exact hl.seen.received hm
    · rw [Finmap.lookup_insert_of_ne _ hj] at hlink'
      obtain ⟨hlt', s', hi', hchannel', hle', hread'⟩ := hl.links j i' n' hlink'
      exact ⟨hlt'.trans_le hframe.1, s', by rw [hhub]; exact hi', hchannel', hle',
        fun m hm => (hread' m hm).imp_right (hids _)⟩
  · have hfeed := hl.feed
    rw [unread_of_link hsource hlink hi, hdrop] at hfeed
    have hstay : live'.provider.store.eventSource = some k := by
      rw [← hprovider]
      rcases live.provider.store.onmessage_cases data with ⟨-, heq⟩ | ⟨m, -, -, -, -, ids, heq, -⟩
      · rw [heq]; exact hsource
      · rw [heq]; exact hsource
    rw [unread_of_link hstay (by rw [hlinks]; exact Finmap.lookup_insert _) (by rw [hhub]; exact hi), haccepted, hhub]
    rcases live.provider.store.onmessage_cases data with ⟨htakes, -⟩ | ⟨m, rfl, htakes, -⟩
    · rw [htakes, Option.toList_none, List.append_nil]
      refine List.Sublist.trans ?_ hfeed
      exact ((List.sublist_cons_self _ _).filterMap _).append_left _
    · rw [htakes, Option.toList_some, List.append_assoc live.provider.accepted]
      exact hfeed
  · rw [hevents, Option.map_eq_some_iff] at he'
    obtain ⟨e, he, rfl⟩ := he'
    have hholds := hl.events e he
    rw [haccepted, ← hprovider]
    rcases live.provider.store.onmessage_cases data with ⟨htakes, heq⟩ | ⟨m, -, htakes, -, -, ids, heq, -⟩
    · rw [heq, htakes, Option.toList_none, List.append_nil]
      exact hholds
    · rw [heq, htakes, Option.toList_some]
      dsimp only
      cases hpaused : live.provider.store.paused
      · exact hholds.listen m
      · exact hholds.miss m

theorem sound_page {a : StoreAct} {provider : SseProvider} (hl : live.Sound) (ha : ∀ k data, a ≠ .message k data)
    (h : live.provider.step a = some provider) : Sound { live with provider } := by
  obtain ⟨haccepted, -, -, -⟩ := SseProvider.seen_frame h ha
  obtain ⟨hle, hsource⟩ := SseProvider.source_step h
  have hids : provider.ids = live.provider.ids := by
    unfold SseProvider.ids
    rw [haccepted]
  refine ⟨hl.hub, SseProvider.connected_step hl.connected h, SseProvider.seen_step hl.seen h,
    fun k i n hlink => ?_, ?_, fun e he => ?_⟩
  · obtain ⟨hlt, s, hi, hchannel, hn, hread⟩ := hl.links k i n hlink
    refine ⟨hlt.trans_le hle, s, hi, hchannel, hn, fun m hm => ?_⟩
    rw [hids]
    exact hread m hm
  · have hfeed := hl.feed
    dsimp only
    rw [haccepted]
    rcases hsource with hsource | hsource
    · have hunread : unread { live with provider } = live.unread := by
        unfold unread
        dsimp only
        rw [hsource]
      rw [hunread]
      exact hfeed
    · -- no stream is linked to a new connection
      have hunread : unread { live with provider } = [] := unread_of_unlinked fun k hk => by
        by_contra hlink
        obtain ⟨⟨i, n⟩, hlink⟩ := Option.ne_none_iff_exists'.1 hlink
        exact absurd (hl.links k i n hlink).source (Nat.not_lt.2 (hsource k hk))
      rw [hunread, List.append_nil]
      exact (List.sublist_append_left _ _).trans hfeed
  · rw [haccepted]
    exact hl.events e he

theorem sound_events {events : Option EventBuffer} (hl : live.Sound)
    (he : ∀ e, events = some e → e.Holds live.provider.accepted) : Sound { live with events } := by
  refine ⟨hl.hub, hl.connected, hl.seen, fun k i n hlink => ?_, hl.feed, he⟩
  obtain ⟨hlt, hstream⟩ := hl.links k i n hlink
  exact ⟨hlt, hstream⟩

theorem sound_step {a : LiveAct Time} (hl : live.Sound) (h : live.step iso a = some live') : live'.Sound := by
  cases a with
  | hub a =>
    obtain ⟨hub, hstep, rfl⟩ := Option.map_eq_some_iff.1 h
    exact sound_hub hl hstep
  | accept k =>
    simp only [step, Option.ite_none_right_eq_some, Option.some.injEq] at h
    obtain ⟨⟨hk, hnew⟩, rfl⟩ := h
    exact sound_accept hl hk hnew
  | receive k =>
    simp only [step] at h
    split at h
    · cases h
    · rename_i i n hlink
      split at h
      · cases h
      · rename_i data hdata
        obtain ⟨s, hi, hn⟩ := Option.bind_eq_some_iff.1 hdata
        obtain ⟨provider, hstep, rfl⟩ := Option.map_eq_some_iff.1 h
        exact sound_receive hl hlink hi hn hstep rfl rfl rfl
  | page a =>
    simp only [step, Option.ite_none_right_eq_some, Option.map_eq_some_iff] at h
    obtain ⟨hallows, provider, hstep, rfl⟩ := h
    refine sound_page hl (fun k data ha => ?_) hstep
    rw [ha] at hallows
    cases hallows
  | showEvents =>
    simp only [step, Option.ite_none_right_eq_some, Option.some.injEq] at h
    obtain ⟨-, rfl⟩ := h
    apply sound_events hl
    rintro e ⟨⟩
    exact EventBuffer.holds_empty _
  | hideEvents =>
    cases h
    exact sound_events hl nofun
  | flush =>
    obtain ⟨e, he, rfl⟩ := Option.map_eq_some_iff.1 h
    apply sound_events hl
    rintro e' ⟨⟩
    exact (hl.events e he).flush

theorem sound_run {as : List (LiveAct Time)} (h : run (step iso) .initial as = some live) : live.Sound :=
  run_induction (fun _ _ _ hl hstep => sound_step hl hstep) sound_initial h

/-! ### The backend in a run -/

end Live

/-- A condition on the steps of the backend and Redis. -/
def LiveAct.On (C : Hub → HubAct Time → Prop) (live : Live) : LiveAct Time → Prop
  | .hub a => C live.hub a
  | _ => True

namespace Live

variable {live live' : Live} {C : Hub → HubAct Time → Prop}

/-- A step is one of the backend or leaves it as it is, and connections keep their streams. -/
theorem hub_step {a : LiveAct Time} (hopen : ∀ hub, C hub (.openStream .streamAll)) (ha : a.On C live)
    (h : live.step iso a = some live') :
    (live'.hub = live.hub ∨ ∃ b, C live.hub b ∧ live.hub.step iso b = some live'.hub) ∧
      ∀ k i n, live.links.lookup k = some (i, n) → ∃ n', live'.links.lookup k = some (i, n') := by
  cases a with
  | hub a =>
    obtain ⟨hub, hstep, rfl⟩ := Option.map_eq_some_iff.1 h
    exact ⟨.inr ⟨a, ha, hstep⟩, fun k i n hlink => ⟨n, hlink⟩⟩
  | accept j =>
    simp only [step, Option.ite_none_right_eq_some, Option.some.injEq] at h
    obtain ⟨⟨-, hnew⟩, rfl⟩ := h
    refine ⟨.inr ⟨.openStream .streamAll, hopen _, rfl⟩, fun k i n hlink => ⟨n, ?_⟩⟩
    have hne : k ≠ j := by
      rintro rfl
      rw [Finmap.lookup_eq_none.2 hnew] at hlink
      cases hlink
    exact (Finmap.lookup_insert_of_ne _ hne).trans hlink
  | receive j =>
    simp only [step] at h
    split at h
    · cases h
    · rename_i i' n' hlink'
      split at h
      · cases h
      · obtain ⟨provider, -, rfl⟩ := Option.map_eq_some_iff.1 h
        refine ⟨.inl rfl, fun k i n hlink => ?_⟩
        by_cases hkj : k = j
        · subst hkj
          rw [hlink] at hlink'
          cases hlink'
          exact ⟨_, Finmap.lookup_insert _⟩
        · exact ⟨n, (Finmap.lookup_insert_of_ne _ hkj).trans hlink⟩
  | page a =>
    simp only [step, Option.ite_none_right_eq_some, Option.map_eq_some_iff] at h
    obtain ⟨-, provider, -, rfl⟩ := h
    exact ⟨.inl rfl, fun k i n hlink => ⟨n, hlink⟩⟩
  | showEvents =>
    simp only [step, Option.ite_none_right_eq_some, Option.some.injEq] at h
    obtain ⟨-, rfl⟩ := h
    exact ⟨.inl rfl, fun k i n hlink => ⟨n, hlink⟩⟩
  | hideEvents =>
    cases h
    exact ⟨.inl rfl, fun k i n hlink => ⟨n, hlink⟩⟩
  | flush =>
    obtain ⟨e, -, rfl⟩ := Option.map_eq_some_iff.1 h
    exact ⟨.inl rfl, fun k i n hlink => ⟨n, hlink⟩⟩

/-- The steps of the backend in a run are a run of it. -/
theorem hub_run (hopen : ∀ hub, C hub (.openStream .streamAll)) :
    ∀ {as : List (LiveAct Time)} {live : Live}, Each (step iso) (fun live a => a.On C live) live as →
      run (step iso) live as = some live' →
        (∃ bs, Each (Hub.step iso) C live.hub bs ∧ run (Hub.step iso) live.hub bs = some live'.hub) ∧
          ∀ k i n, live.links.lookup k = some (i, n) → ∃ n', live'.links.lookup k = some (i, n')
  | [], live, _, h => by
    rw [run_nil] at h
    cases h
    exact ⟨⟨[], trivial, rfl⟩, fun k i n hlink => ⟨n, hlink⟩⟩
  | a :: as, live, hc, h => by
    obtain ⟨live₁, hstep, h⟩ := run_cons_some.1 h
    obtain ⟨hhub, hlinks⟩ := hub_step hopen hc.1 hstep
    obtain ⟨⟨bs, hbs, hrun⟩, hlinks'⟩ := hub_run hopen (hc.2 live₁ hstep) h
    refine ⟨?_, fun k i n hlink => ?_⟩
    · rcases hhub with heq | ⟨b, hb, hstep'⟩
      · rw [heq] at hbs hrun
        exact ⟨bs, hbs, hrun⟩
      · exact ⟨b :: bs, (each_cons_iff hstep').2 ⟨hb, hbs⟩, run_cons_some.2 ⟨live₁.hub, hstep', hrun⟩⟩
    · obtain ⟨n₁, hlink₁⟩ := hlinks k i n hlink
      exact hlinks' k i n₁ hlink₁

end Live

/-! ## The feed is faithful -/

/-- In every run, through any number of connections of the page and of the subscriber, the page takes updates that the
subscriber received, in their order, and none whose id is that of one of the last thousand it took; if Redis delivers at
most once and in order these were published. If the client of Redis subscribes again on a new connection, then from a
moment on when all commands are done, while the page keeps its connection, its stream is open and no message is lost,
each update published is taken, or one with its id was, or it is on its way; one without an id is not taken. -/
theorem feed_faithful (iso : Time → String) {as : List (LiveAct Time)} {live : Live}
    (h : run (Live.step iso) .initial as = some live) :
    (live.provider.accepted ++ live.unread).Sublist (onChannel channelAll live.hub.received) ∧
    Window.Spaced MAX_SEEN live.provider.ids ∧
    (Each (Live.step iso) (fun live a => a.On (fun hub a => a.AtMostOnce hub) live) .initial as →
      (live.provider.accepted ++ live.unread ++ onChannel channelAll live.hub.arriving).Sublist
        (onChannel channelAll live.hub.published)) ∧
    (Each (Live.step iso) (fun live a => a.On (fun hub a => a.Resubscribes hub) live) .initial as →
      ∀ (k i n : ℕ) (s : SseStream), live.provider.store.eventSource = some k → live.links.lookup k = some (i, n) →
        live.hub.streams[i]? = some s → live.hub.commands = [] →
        ∀ bs live' s', run (Live.step iso) live bs = some live' →
          Each (Live.step iso) (fun live a => a.On (fun hub a => a.Lossless hub) live) live bs →
          live'.provider.store.eventSource = some k → live'.hub.streams[i]? = some s' → s'.isOpen = true →
            ∃ new, onChannel channelAll live'.hub.published = onChannel channelAll live.hub.published ++ new ∧
              ∀ m ∈ new, m.eventId = "" ∨ m.eventId ∈ live'.provider.ids ∨ m ∈ live'.unread ∨
                m ∈ onChannel channelAll live'.hub.arriving) := by
  have hl := Live.sound_run h
  refine ⟨hl.feed, hl.seen.spaced, fun hc => ?_, ?_⟩
  · obtain ⟨⟨cs, hcs, hrun⟩, -⟩ := Live.hub_run (fun _ => trivial) hc h
    exact (hl.feed.append_right _).trans (Hub.relayed_run hcs hrun channelAll)
  intro hc k i n s hsource hlink hi hcommands bs live' s' hrun hlossless hsource' hi' hopen'
  have hl' : live'.Sound := run_induction (fun _ _ _ hl hstep => Live.sound_step hl hstep) hl hrun
  obtain ⟨⟨cs, hcs, hcsrun⟩, -⟩ := Live.hub_run (fun _ => trivial) hc h
  obtain ⟨⟨ds, hds, hdsrun⟩, hlinks⟩ := Live.hub_run (fun _ => trivial) hlossless hrun
  obtain ⟨n', hlink'⟩ := hlinks k i n hlink
  obtain ⟨-, s₀, hi₀, hchannel, -, -⟩ := hl.links k i n hlink
  rw [hi] at hi₀
  cases hi₀
  obtain ⟨-, s₁, hi₁, -, -, hread⟩ := hl'.links k i n' hlink'
  rw [hi'] at hi₁
  cases hi₁
  -- the stream was sent all of it, or it arrives
  obtain ⟨s₂, hi₂, hflow⟩ := Hub.flow_run hl.hub hdsrun hi
  rw [hi'] at hi₂
  cases hi₂
  obtain ⟨out, more, hdata, hreceived, -, hall⟩ := hflow.sent
  have hfollows := hl.hub.follows (Hub.settled_run hcs hcsrun) hcommands hi (hflow.isOpen hopen')
  obtain ⟨more', new, hreceived', hpublished, hkept⟩ := Hub.kept_run hl.hub hds hdsrun hi hi' hopen' hfollows
  rw [List.append_cancel_left (hreceived'.symm.trans hreceived), ← hall hopen', hchannel] at hkept
  rw [hchannel] at hpublished
  refine ⟨new, hpublished, fun m hm => ?_⟩
  have hmem : m ∈ out.filterMap StreamData.message? ++ onChannel channelAll live'.hub.arriving := by
    rw [hkept]
    exact List.mem_append_right _ hm
  rcases List.mem_append.1 hmem with hmem | hmem
  · have hsent : m ∈ (s'.data.take n' ++ s'.data.drop n').filterMap StreamData.message? := by
      rw [List.take_append_drop, hdata, List.filterMap_append]
      exact List.mem_append_right _ hmem
    rw [List.filterMap_append] at hsent
    rcases List.mem_append.1 hsent with hsent | hsent
    · exact (hread m hsent).imp_right .inl
    · rw [Live.unread_of_link hsource' hlink' hi']
      exact .inr (.inr (.inl hsent))
  · exact .inr (.inr (.inr hmem))

/-- The update of the sample is published twice, and the second one is received; a third one is lost with the
connection of the subscriber. -/
def LiveAct.sampleRun : List (LiveAct String) :=
  [.page .mount, .accept 0, .hub .process, .page (.opened 0), .showEvents,
    .hub (.publish channelAll HubAct.sampleUpdate), .hub .arrive, .receive 0, .flush,
    .hub (.publish channelAll HubAct.sampleUpdate), .hub .arrive, .receive 0,
    .hub (.publish channelAll HubAct.sampleUpdate), .hub (.reconnect [.subscribe channelAll]), .hub .process]

/-- The client does as it usually does in each step of the backend. -/
def LiveAct.again (live : Live) : LiveAct Time → Bool
  | .hub a => a.again live.hub
  | _ => true

theorem feed_faithful_sample :
    ∃ live, run (Live.step id) .initial LiveAct.sampleRun = some live ∧ live.provider.ids = ["e1"] ∧
      Window.Spaced MAX_SEEN live.provider.ids ∧
      (live.provider.accepted ++ live.unread ++ onChannel channelAll live.hub.arriving).Sublist
        (onChannel channelAll live.hub.published) ∧
      ∀ bs live' s', run (Live.step id) live bs = some live' →
        Each (Live.step id) (fun live a => a.On (fun hub a => a.Lossless hub) live) live bs →
        live'.provider.store.eventSource = some 0 → live'.hub.streams[0]? = some s' → s'.isOpen = true →
          ∃ new, onChannel channelAll live'.hub.published = onChannel channelAll live.hub.published ++ new ∧
            ∀ m ∈ new, m.eventId = "" ∨ m.eventId ∈ live'.provider.ids ∨ m ∈ live'.unread ∨
              m ∈ onChannel channelAll live'.hub.arriving := by
  obtain ⟨live, hr, hp⟩ := exists_of_run (Live.step id) .initial LiveAct.sampleRun
    (fun live => decide (live.provider.ids = ["e1"]) && decide (live.provider.store.eventSource = some 0) &&
      decide (live.links.lookup 0 = some (0, 2)) && live.hub.streams[0]?.any (fun s : SseStream => s.isOpen) &&
      decide (live.hub.commands = [])) (by decide +kernel)
  simp only [Bool.and_eq_true, decide_eq_true_eq] at hp
  obtain ⟨⟨⟨⟨hids, hsource⟩, hlink⟩, hopen⟩, hcommands⟩ := hp
  obtain ⟨s, hi, hopen⟩ := (Option.any_eq_true _ _).1 hopen
  have honce : Each (Live.step id) (fun live a => a.On (fun hub a => a.AtMostOnce hub) live) .initial
      LiveAct.sampleRun := by
    simp [Each, LiveAct.sampleRun, LiveAct.On, HubAct.AtMostOnce]
  have hclient : Each (Live.step id) (fun live a => a.On (fun hub a => a.Resubscribes hub) live) .initial
      LiveAct.sampleRun := by
    refine each_of_eachB (Live.step id) LiveAct.again (fun live a ha => ?_) _ _ (by decide +kernel)
    cases a with
    | hub a => exact HubAct.resubscribes_of_again ha
    | _ => trivial
  obtain ⟨-, hspaced, hpublished, hfollows⟩ := feed_faithful id hr
  exact ⟨live, hr, hids, hspaced, hpublished honce, hfollows hclient 0 0 2 s hsource hlink hi hcommands⟩

/-- In every run the page shows the newest hundred of the updates its listener was called for and that were flushed,
newest first; these are what the store took since the page is shown, save what it took while it was paused; and their
ids are all different unless it took more than nine hundred updates while it was paused. -/
theorem events_newest (iso : Time → String) {as : List (LiveAct Time)} {live : Live}
    (h : run (Live.step iso) .initial as = some live) {e : EventBuffer} (he : live.events = some e) :
    (∃ flushed, e.delivered = flushed ++ e.pending ∧ e.buffer = flushed.reverse.take MAX_EVENTS) ∧
    (∃ since, since <:+ live.provider.accepted ∧ e.delivered.Sublist since ∧
      since.length = e.delivered.length + e.missed) ∧
    e.flush.buffer = e.delivered.reverse.take MAX_EVENTS ∧
    (e.missed ≤ 901 → (e.buffer.map (·.eventId)).Nodup) := by
  have hl := Live.sound_run h
  have hholds := hl.events e he
  exact ⟨hholds.flushed, hholds.delivered, hholds.flush_buffer.2, hholds.nodup hl.seen.spaced⟩

theorem events_newest_sample :
    ∃ live e, run (Live.step id) .initial LiveAct.sampleRun = some live ∧ live.events = some e ∧
      e.buffer.map (·.eventId) = ["e1"] ∧ (e.buffer.map (·.eventId)).Nodup := by
  obtain ⟨live, hr, hp⟩ := exists_of_run (Live.step id) .initial LiveAct.sampleRun
    (fun live => live.events.any fun e : EventBuffer =>
      decide (e.buffer.map (·.eventId) = ["e1"]) && decide (e.missed = 0)) (by decide +kernel)
  obtain ⟨e, he, hp⟩ := (Option.any_eq_true _ _).1 hp
  rw [Bool.and_eq_true, decide_eq_true_eq, decide_eq_true_eq] at hp
  have hmissed : e.missed ≤ 901 := by omega
  exact ⟨live, e, hr, he, hp.1, (events_newest id hr he).2.2.2 hmissed⟩

end Saga.Monitor
