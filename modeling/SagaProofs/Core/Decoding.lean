/-
`parseBaggageHeader` against the grammar of W3C baggage. It splits at commas and equals signs and knows
neither of properties nor of equals signs in a value: what it takes for the value of a member is
what stands between its first equals sign and the next.
-/
import SagaProofs.Core.Routing
import SagaProofs.Lib.Baggage

namespace Saga

/-! ## What is taken for a value -/

/-- The value of a member and the properties after it, up to an equals sign in them. -/
def readText (m : W3C.Member) : String :=
  Text.trim (String.ofList ((m.value.text.toList ++ m.propertyChars).takeWhile (· ≠ '=')))

/-- Something stands between the first equals sign of the member and the next one or its end. -/
structure IsRead (m : W3C.Member) : Prop where
  filled : m.value.text ≠ "" ∨ m.properties ≠ []
  apart : m.value.text.toList.head? = some '=' → m.beforeValue.text ≠ ""

instance : DecidablePred IsRead := fun m =>
  decidable_of_iff ((m.value.text ≠ "" ∨ m.properties ≠ []) ∧
    (m.value.text.toList.head? = some '=' → m.beforeValue.text ≠ "")) ⟨fun h => ⟨h.1, h.2⟩, fun h => ⟨h.1, h.2⟩⟩

section Members

variable (m : W3C.Member)

theorem tailChars_spaces : (∀ c ∈ m.tailChars, Text.isSpace c = true) ↔ m.value.text = "" ∧ m.properties = [] := by
  unfold W3C.Member.tailChars
  constructor
  · intro h
    constructor
    · rw [← String.toList_eq_nil_iff, List.eq_nil_iff_forall_not_mem]
      intro c hc
      have hspace := h c (by simp [hc])
      rw [(m.value.char_spec hc).1] at hspace
      cases hspace
    · rw [List.eq_nil_iff_forall_not_mem]
      intro p hp
      have hsemi : ';' ∈ m.propertyChars := List.mem_flatMap.2 ⟨p, hp, by simp [W3C.Property.chars]⟩
      exact absurd (h ';' (by simp [hsemi])) (by decide)
  · rintro ⟨hv, hp⟩ c hc
    have hnone : m.propertyChars = [] := by
      unfold W3C.Member.propertyChars
      rw [hp]
      rfl
    rw [hv, hnone] at hc
    simp only [String.toList_empty, List.nil_append, List.mem_append] at hc
    exact hc.elim m.beforeValue.isSpace m.after.isSpace

theorem head_ne_equals : (m.propertyChars ++ m.after.text.toList).head? ≠ some '=' := by
  have hows : ∀ w : W3C.Ows, w.text.toList.head? ≠ some '=' := fun w h =>
    w.notMem (by decide) (List.mem_of_head? h)
  unfold W3C.Member.propertyChars
  cases m.properties with
  | nil => exact hows m.after
  | cons p ps =>
    have hp := hows p.before
    unfold W3C.Property.chars
    cases hb : p.before.text.toList with
    | nil => simp [hb]
    | cons c rest =>
      rw [hb] at hp
      simpa [hb] using hp

theorem tailChars_head : m.tailChars.head? = some '=' ↔
    m.beforeValue.text = "" ∧ m.value.text.toList.head? = some '=' := by
  have hrest := head_ne_equals m
  unfold W3C.Member.tailChars
  rw [← String.toList_eq_nil_iff]
  cases hb : m.beforeValue.text.toList with
  | nil =>
    cases hv : m.value.text.toList with
    | nil => simpa using hrest
    | cons c rest => simp
  | cons c rest =>
    have hc : c ≠ '=' := by
      rintro rfl
      exact m.beforeValue.notMem (by decide) (hb ▸ List.mem_cons_self ..)
    simpa using hc

/-- The part between the first two equals signs is empty unless the member is read. -/
theorem takeWhile_tailChars_eq_nil :
    (m.tailChars.rdropWhile Text.isSpace).takeWhile (· ≠ '=') = [] ↔ ¬ IsRead m := by
  rw [Text.takeWhile_rdropWhile_eq_nil (by decide), tailChars_spaces, tailChars_head]
  constructor
  · rintro (⟨hv, hp⟩ | ⟨hb, hh⟩) hr
    · exact hr.filled.elim (fun h => h hv) fun h => h hp
    · exact hr.apart hh hb
  · intro hn
    by_contra hcon
    rw [not_or, not_and_or, not_and_or] at hcon
    exact hn ⟨hcon.1, fun hh => hcon.2.resolve_right fun h => h hh⟩

theorem trim_takeWhile_tailChars :
    Text.trim (String.ofList ((m.tailChars.rdropWhile Text.isSpace).takeWhile (· ≠ '='))) = readText m := by
  have hbefore : ∀ c ∈ m.beforeValue.text.toList, decide (c ≠ '=') = true := by
    intro c hc
    rw [decide_eq_true_iff]
    rintro rfl
    exact m.beforeValue.notMem (by decide) hc
  rw [Text.trim_takeWhile_rdropWhile (by decide)]
  unfold W3C.Member.tailChars readText
  rw [List.takeWhile_append_of_pos hbefore, Text.trim_append_left fun c hc => m.beforeValue.isSpace hc,
    ← List.append_assoc, Text.trim_takeWhile_append_right (by decide) fun c hc => m.after.isSpace hc]

theorem trim_text : Text.trim m.text =
    String.ofList (m.key.text.toList ++ m.afterKey.text.toList ++ '=' :: m.tailChars.rdropWhile Text.isSpace) := by
  unfold W3C.Member.text
  rw [Text.trim_append_left fun c hc => m.before.isSpace hc]
  cases hk : m.key.text.toList with
  | nil => exact absurd (String.toList_eq_nil_iff.1 hk) m.key.ne_empty
  | cons c rest =>
    have hc : Text.isSpace c = false := (m.key.char_spec (hk ▸ List.mem_cons_self ..)).1
    rw [List.cons_append, List.cons_append, Text.trim_cons hc, Text.rdropWhile_append_cons (by decide)]
    rfl

/-- What the code makes of a member. -/
theorem baggageMember_text : baggageMember m.text = if IsRead m then some (m.key.text, readText m) else none := by
  have hkey : '=' ∉ m.key.text.toList ++ m.afterKey.text.toList := by
    rw [List.mem_append, not_or]
    exact ⟨fun h => (m.key.char_spec h).2.2 rfl, m.afterKey.notMem (by decide)⟩
  have hne : String.ofList (m.key.text.toList ++ m.afterKey.text.toList) ≠ "" := by
    rw [ne_eq, ← String.toList_eq_nil_iff, String.toList_ofList, List.append_eq_nil_iff, String.toList_eq_nil_iff]
    exact fun h => m.key.ne_empty h.1
  have htrim : Text.trim (String.ofList (m.key.text.toList ++ m.afterKey.text.toList)) = m.key.text := by
    rw [Text.trim_append_right fun c hc => m.afterKey.isSpace hc,
      Text.trim_of_forall fun c hc => (m.key.char_spec hc).1, String.ofList_toList]
  have hhead := Text.splitOn_head '=' (m.tailChars.rdropWhile Text.isSpace)
  have hfirst : String.ofList ((m.tailChars.rdropWhile Text.isSpace).takeWhile (· ≠ '=')) ≠ "" ↔ IsRead m := by
    rw [ne_eq, ← String.toList_eq_nil_iff, String.toList_ofList, takeWhile_tailChars_eq_nil, not_not]
  obtain ⟨more, hmore⟩ := List.head?_eq_some_iff.1 hhead
  unfold baggageMember Text.split
  rw [trim_text, String.toList_ofList, List.splitOn_append_cons_self_of_not_mem hkey, hmore]
  simp only [List.map_cons, htrim, trim_takeWhile_tailChars]
  exact if_congr (by rw [hfirst]; exact and_iff_right hne) rfl rfl

end Members

/-! ## The header -/

section Header

variable {ms : List W3C.Member} {name : String} {m : W3C.Member} {entries : Headers}

theorem filterMap_baggageMember (ms : List W3C.Member) : (ms.map W3C.Member.text).filterMap baggageMember =
    (ms.filter IsRead).map fun m => (m.key.text, readText m) := by
  induction ms with
  | nil => rfl
  | cons m ms ih =>
    have hm := baggageMember_text m
    rw [List.map_cons, List.filterMap_cons, hm, ih]
    by_cases h : IsRead m
    · simp [h]
    · simp [h]

theorem parseBaggageHeader_header (ms : List W3C.Member) :
    parseBaggageHeader (W3C.header ms) =
      ((ms.filter IsRead).map fun m => (m.key.text, readText m)).foldlM setMember ∅ := by
  by_cases hms : ms = []
  · subst hms
    have hsplit : Text.split ',' (W3C.header []) = [""] := rfl
    have hnone : baggageMember "" = none := rfl
    unfold parseBaggageHeader
    rw [hsplit, List.filterMap_cons_none hnone, List.filterMap_nil, List.filter_nil, List.map_nil]
  · unfold parseBaggageHeader
    rw [W3C.split_header hms, filterMap_baggageMember]

/-- The last member with a name, found from the end of what the members are read as. -/
theorem lookup_reverse (ms : List W3C.Member) (name : String) :
    ((ms.filter IsRead).map fun m => (m.key.text, readText m)).reverse.lookup name =
      (W3C.last IsRead ms name).map readText := by
  have hlast : W3C.last IsRead ms name = ((ms.filter IsRead).filter (·.key.text = name)).getLast? := by
    unfold W3C.last
    rw [List.filter_filter]
    simp only [Bool.decide_and]
  rw [hlast]
  induction ms.filter IsRead using List.reverseRecOn with
  | nil => rfl
  | append_singleton l m ih =>
    rw [List.map_append, List.reverse_append, List.filter_append]
    by_cases h : m.key.text = name
    · simp [h]
    · have hne : (name == m.key.text) = false := beq_eq_false_iff_ne.2 (Ne.symm h)
      simp [h, List.lookup_cons, hne, ih]

theorem lookup_proto_setMembers : ∀ {members : List (String × String)} {result entries : Headers},
    members.foldlM setMember result = some entries → entries.lookup "__proto__" = result.lookup "__proto__"
  | [], result, entries, h => by
    cases h; rfl
  | (name, value) :: rest, result, entries, h => by
    rw [List.foldlM_cons] at h
    obtain ⟨next, hset, hrest⟩ := Option.bind_eq_some_iff.1 h
    obtain ⟨decoded, -, hnext⟩ := Option.bind_eq_some_iff.1 hset
    cases hnext
    rw [lookup_proto_setMembers hrest]
    by_cases hn : name = "__proto__"
    · simp [Headers.set, hn]
    · exact Headers.lookup_set_of_ne (Ne.symm hn)

/-- What the header reads as, name by name. -/
theorem lookup_header (h : parseBaggageHeader (W3C.header ms) = some entries) (hn : name ≠ "__proto__") :
    entries.lookup name = (W3C.last IsRead ms name).bind fun m => Text.decodeURIComponent (readText m) := by
  rw [parseBaggageHeader_header] at h
  have hlookup := lookup_setMembers hn h
  rw [lookup_reverse] at hlookup
  rw [hlookup]
  cases W3C.last IsRead ms name with
  | none => exact AList.lookup_empty name
  | some m => simp only [Option.map_some, Option.bind_some]

theorem lookup_header_proto (h : parseBaggageHeader (W3C.header ms) = some entries) :
    entries.lookup "__proto__" = none := by
  rw [parseBaggageHeader_header] at h
  rw [lookup_proto_setMembers h, AList.lookup_empty]

theorem parseBaggageHeader_isSome (ms : List W3C.Member) : (parseBaggageHeader (W3C.header ms)).isSome ↔
    ∀ m ∈ ms, IsRead m → (Text.decodeURIComponent (readText m)).isSome := by
  rw [parseBaggageHeader_header, setMembers_isSome, List.forall_mem_map]
  simp only [List.mem_filter, decide_eq_true_iff, and_imp]

/-! ## Plain members -/

/-- The value of the member has no equals sign, and no property follows it. -/
structure Plain (m : W3C.Member) : Prop where
  properties : m.properties = []
  value : '=' ∉ m.value.text.toList

theorem Plain.readText_eq (h : Plain m) : readText m = m.value.text := by
  have hnone : m.propertyChars = [] := by
    unfold W3C.Member.propertyChars
    rw [h.properties]
    rfl
  unfold readText
  rw [hnone, List.append_nil, Text.takeWhile_of_notMem h.value,
    Text.trim_of_forall fun c hc => (m.value.char_spec hc).1, String.ofList_toList]

theorem Plain.isRead (h : Plain m) (hv : m.value.text ≠ "") : IsRead m :=
  ⟨.inl hv, fun hh => absurd (List.mem_of_head? hh) h.value⟩

/-- What the properties of a member begin with. -/
theorem propertyChars_cons (h : m.properties ≠ []) : ∃ ws cs, m.propertyChars = ws ++ ';' :: cs ∧ '=' ∉ ws := by
  obtain ⟨p, ps, hps⟩ := List.exists_cons_of_ne_nil h
  unfold W3C.Member.propertyChars
  rw [hps, List.flatMap_cons]
  exact ⟨p.before.text.toList, _, by rw [W3C.Property.chars, List.append_assoc, List.cons_append],
    p.before.notMem (by decide)⟩

/-- Of a value with an equals sign only a part is read. -/
theorem value_eq_readText_append (h : '=' ∈ m.value.text.toList) : ∃ x, x ≠ "" ∧ m.value.text = readText m ++ x := by
  obtain ⟨p, r, hsplit, hp⟩ := List.eq_append_cons_of_mem h
  have hspace : ∀ c ∈ p, Text.isSpace c = false := fun c hc => (m.value.char_spec (by rw [hsplit]; simp [hc])).1
  unfold readText
  refine ⟨String.ofList ('=' :: r), by simp, ?_⟩
  rw [hsplit, List.append_assoc, List.cons_append, Text.takeWhile_append_cons hp, Text.trim_of_forall hspace,
    ← String.ofList_append, ← hsplit, String.ofList_toList]

/-- Of a property after the value at least the semicolon is read. -/
theorem readText_eq_value_append (hv : m.value.text ≠ "") (heq : '=' ∉ m.value.text.toList) (h : m.properties ≠ []) :
    ∃ x, x ≠ "" ∧ readText m = m.value.text ++ x := by
  obtain ⟨ws, cs, hcs, hws⟩ := propertyChars_cons h
  have hbefore : ∀ c ∈ m.value.text.toList ++ (ws ++ [';']), decide (c ≠ '=') = true := by
    intro c hc
    rw [decide_eq_true_iff]
    rintro rfl
    simp [heq, hws] at hc
  have htake : (m.value.text.toList ++ m.propertyChars).takeWhile (· ≠ '=') =
      m.value.text.toList ++ (ws ++ ';' :: cs.takeWhile (· ≠ '=')) := by
    have hsplit : m.value.text.toList ++ m.propertyChars = m.value.text.toList ++ (ws ++ [';']) ++ cs := by
      rw [hcs]
      simp
    rw [hsplit, List.takeWhile_append_of_pos hbefore]
    simp
  unfold readText
  rw [htake]
  obtain ⟨c, rest, hchars⟩ := List.exists_cons_of_ne_nil (mt String.toList_eq_nil_iff.1 hv)
  have hc : Text.isSpace c = false := (m.value.char_spec (by rw [hchars]; simp)).1
  -- the first semicolon stays: what is trimmed away at the end comes after it
  refine ⟨String.ofList (ws ++ ';' :: (cs.takeWhile (· ≠ '=')).rdropWhile Text.isSpace), ?_, ?_⟩
  · rw [ne_eq, ← String.toList_eq_nil_iff, String.toList_ofList]
    simp
  · rw [hchars, List.cons_append, Text.trim_cons hc, ← List.append_assoc, Text.rdropWhile_append_cons (by decide)]
    rw [← String.toList_inj, String.toList_append, hchars, String.toList_ofList, String.toList_ofList]
    simp

/-- A member that is not plain and has a value is read as something else. -/
theorem decode_readText_ne (h : ¬ Plain m) (hv : m.value.text ≠ "")
    (hd : (Text.decodeURIComponent (readText m)).isSome) :
    Text.decodeURIComponent (readText m) ≠ Text.decodeURIComponent m.value.text := by
  by_cases heq : '=' ∈ m.value.text.toList
  · obtain ⟨x, hx, hvalue⟩ := value_eq_readText_append heq
    obtain ⟨t, ht⟩ := Option.isSome_iff_exists.1 hd
    rw [hvalue, ht]
    exact (Text.decodeURIComponent_ne ht hx).symm
  · obtain ⟨x, hx, hread⟩ := readText_eq_value_append hv heq fun hprops => h ⟨hprops, heq⟩
    obtain ⟨t, ht⟩ := Option.isSome_iff_exists.1 m.encoded
    rw [hread, ht]
    exact Text.decodeURIComponent_ne ht hx

/-! ## Which headers are read as W3C baggage -/

/-- The header is read as W3C baggage says: every name has the percent-decoded value of its last member with a
value that is not empty, and no other name has one. -/
def ReadsAsBaggage (ms : List W3C.Member) : Prop :=
  ∃ entries, parseBaggageHeader (W3C.header ms) = some entries ∧ ∀ name, entries.lookup name = W3C.valueOf ms name

/-- A member with something after its equals sign. -/
def Counts (m : W3C.Member) : Prop := m.value.text ≠ "" ∨ m.properties ≠ []

instance : DecidablePred Counts := fun _ => inferInstanceAs (Decidable (_ ∨ _))

/-- Every text that is read decodes, no value is set under `__proto__`, and for every other name the last member
that counts is plain. -/
structure Legible (ms : List W3C.Member) : Prop where
  decodes : ∀ m ∈ ms, IsRead m → (Text.decodeURIComponent (readText m)).isSome
  proto : ∀ m ∈ ms, m.key.text = "__proto__" → m.value.text = ""
  plain : ∀ name m, name ≠ "__proto__" → W3C.last Counts ms name = some m → Plain m

/-- For every name the last member that counts has a value, and none that begins with an equals sign right after
the first one. Otherwise another member of the name decides what is read, or what is right, and two texts of
different members may happen to decode alike. -/
def Settled (ms : List W3C.Member) : Prop :=
  ∀ name m, name ≠ "__proto__" → W3C.last Counts ms name = some m →
    m.value.text ≠ "" ∧ (m.value.text.toList.head? = some '=' → m.beforeValue.text ≠ "")

theorem IsRead.counts (h : IsRead m) : Counts m := h.filled

/-- Without a member that counts nothing is read for a name, and it has no value. -/
theorem last_of_no_count (hc : W3C.last Counts ms name = none) :
    W3C.last IsRead ms name = none ∧ W3C.last W3C.Member.HasValue ms name = none := by
  have hnone := W3C.last_eq_none.1 hc
  exact ⟨W3C.last_eq_none.2 fun m hm hk hr => hnone m hm hk hr.counts,
    W3C.last_eq_none.2 fun m hm hk hv => hnone m hm hk (.inl hv)⟩

/-- A last member that counts, is read and has a value decides both what is read and what is right. -/
theorem last_of_counts (hc : W3C.last Counts ms name = some m) (hr : IsRead m) (hv : m.value.text ≠ "") :
    W3C.last IsRead ms name = some m ∧ W3C.last W3C.Member.HasValue ms name = some m :=
  ⟨W3C.last_of_imp (fun _ => IsRead.counts) hc hr, W3C.last_of_imp (fun _ => Or.inl) hc hv⟩

/-- A legible header gives every name its value. -/
theorem Legible.lookup (hl : Legible ms) (h : parseBaggageHeader (W3C.header ms) = some entries) (name : String) :
    entries.lookup name = W3C.valueOf ms name := by
  by_cases hn : name = "__proto__"
  · rw [hn, lookup_header_proto h]
    exact (W3C.valueOf_eq_none.2 hl.proto).symm
  · rw [lookup_header h hn]
    unfold W3C.valueOf
    cases hc : W3C.last Counts ms name with
    | none =>
      obtain ⟨hr, hv⟩ := last_of_no_count hc
      rw [hr, hv, Option.bind_none, Option.bind_none]
    | some m =>
      have hp : Plain m := hl.plain name m hn hc
      have hv : m.value.text ≠ "" := (W3C.mem_of_last hc).2.2.resolve_right fun hprops => hprops hp.properties
      obtain ⟨hread, hvalue⟩ := last_of_counts hc (hp.isRead hv) hv
      rw [hread, hvalue, Option.bind_some, Option.bind_some, hp.readText_eq]

/-- Where the last member that counts is read and has a value, the name is read right only if it is plain. -/
theorem plain_of_lookup (hd : ∀ m ∈ ms, IsRead m → (Text.decodeURIComponent (readText m)).isSome)
    (h : parseBaggageHeader (W3C.header ms) = some entries) (hn : name ≠ "__proto__")
    (hc : W3C.last Counts ms name = some m) (hr : IsRead m) (hv : m.value.text ≠ "")
    (heq : entries.lookup name = W3C.valueOf ms name) : Plain m := by
  obtain ⟨hread, hvalue⟩ := last_of_counts hc hr hv
  rw [lookup_header h hn, W3C.valueOf, hread, hvalue, Option.bind_some, Option.bind_some] at heq
  by_contra hp
  exact decode_readText_ne hp hv (hd m (W3C.mem_of_last hc).1 hr) heq

/-- A legible header is read as W3C baggage. A header in which the last member of each name has a value, and is not
passed over, is read so only if it is legible. -/
theorem readsAsBaggage_iff (ms : List W3C.Member) :
    (Legible ms → ReadsAsBaggage ms) ∧ (Settled ms → (ReadsAsBaggage ms ↔ Legible ms)) := by
  have hsound : Legible ms → ReadsAsBaggage ms := by
    intro hl
    obtain ⟨entries, he⟩ := Option.isSome_iff_exists.1 ((parseBaggageHeader_isSome ms).2 hl.decodes)
    exact ⟨entries, he, hl.lookup he⟩
  refine ⟨hsound, fun hs => ⟨?_, hsound⟩⟩
  rintro ⟨entries, he, hall⟩
  have hd := (parseBaggageHeader_isSome ms).1 (by rw [he]; rfl)
  refine ⟨hd, ?_, fun name m hn hc => ?_⟩
  · rw [← W3C.valueOf_eq_none, ← hall, lookup_header_proto he]
  · obtain ⟨hv, happart⟩ := hs name m hn hc
    exact plain_of_lookup hd he hn hc ⟨.inl hv, happart⟩ hv (hall name)

/-- Plain members under other names than `__proto__` make a legible header, with any white space. -/
theorem legible_of_plain (hp : ∀ m ∈ ms, Plain m) (hn : ∀ m ∈ ms, m.key.text ≠ "__proto__") : Legible ms := by
  refine ⟨fun m hm _ => ?_, fun m hm hk => absurd hk (hn m hm), fun name m _ hc => hp m (W3C.mem_of_last hc).1⟩
  rw [(hp m hm).readText_eq]
  exact m.encoded

/-- Members with values, none of which begins with an equals sign, settle every name. -/
theorem settled_of_values (h : ∀ m ∈ ms, m.value.text ≠ "" ∧ m.value.text.toList.head? ≠ some '=') : Settled ms := by
  intro name m _ hc
  obtain ⟨hv, hh⟩ := h m (W3C.mem_of_last hc).1
  exact ⟨hv, fun heq => absurd heq hh⟩

end Header

/-! ## A property in a saga id -/

/-- A member without white space. -/
def compactMember (key : W3C.Token) (value : W3C.Value) (encoded : (Text.decodeURIComponent value.text).isSome)
    (properties : List W3C.Property) : W3C.Member :=
  let none : W3C.Ows := ⟨"", by decide⟩
  ⟨none, key, none, none, value, encoded, properties, none⟩

/-- `saga.id=saga-1;ttl=60,saga.root.id=cm9vdA==` -/
def taggedMembers : List W3C.Member :=
  let none : W3C.Ows := ⟨"", by decide⟩
  [compactMember ⟨"saga.id", by decide, by decide⟩ ⟨"saga-1", by decide⟩ (by decide)
      [⟨none, none, ⟨"ttl", by decide, by decide⟩, none, some (none, ⟨"60", by decide⟩)⟩],
    compactMember ⟨"saga.root.id", by decide, by decide⟩ ⟨"cm9vdA==", by decide⟩ (by decide) []]

/-- The property is read as part of the saga id, and the root id without its padding. -/
theorem property_read_as_value :
    (¬ ∀ ms, ReadsAsBaggage ms) ∧ W3C.header taggedMembers = "saga.id=saga-1;ttl=60,saga.root.id=cm9vdA==" ∧
      W3C.valueOf taggedMembers "saga.id" = some "saga-1" ∧ W3C.valueOf taggedMembers "saga.root.id" = some "cm9vdA==" ∧
      (parseBaggageHeader (W3C.header taggedMembers)).map (·.lookup "saga.id") = some (some "saga-1;ttl") ∧
      (parseBaggageHeader (W3C.header taggedMembers)).map (·.lookup "saga.root.id") = some (some "cm9vdA") := by
  have hid : (parseBaggageHeader (W3C.header taggedMembers)).map (·.lookup "saga.id") = some (some "saga-1;ttl") := rfl
  have hvalue : W3C.valueOf taggedMembers "saga.id" = some "saga-1" := rfl
  refine ⟨fun hall => ?_, rfl, hvalue, rfl, hid, rfl⟩
  obtain ⟨entries, he, hlookup⟩ := hall taggedMembers
  rw [he, Option.map_some, hlookup, hvalue] at hid
  exact absurd hid (by decide)

/-- `saga.id=saga-1,saga.root.id=saga%2D0` -/
def plainMembers : List W3C.Member :=
  [compactMember ⟨"saga.id", by decide, by decide⟩ ⟨"saga-1", by decide⟩ (by decide) [],
    compactMember ⟨"saga.root.id", by decide, by decide⟩ ⟨"saga%2D0", by decide⟩ (by decide) []]

theorem plain_members_read : ReadsAsBaggage plainMembers ∧ (ReadsAsBaggage plainMembers ↔ Legible plainMembers) := by
  have hplain : ∀ m ∈ plainMembers, Plain m := by
    simp only [plainMembers, List.forall_mem_cons]
    exact ⟨⟨rfl, by decide⟩, ⟨rfl, by decide⟩, by simp⟩
  have hvalues : ∀ m ∈ plainMembers, m.value.text ≠ "" ∧ m.value.text.toList.head? ≠ some '=' := by
    simp only [plainMembers, List.forall_mem_cons]
    exact ⟨⟨by decide, by decide⟩, ⟨by decide, by decide⟩, by simp⟩
  have hnames : ∀ m ∈ plainMembers, m.key.text ≠ "__proto__" := by
    simp only [plainMembers, List.forall_mem_cons]
    exact ⟨by decide, by decide, by simp⟩
  exact ⟨(readsAsBaggage_iff plainMembers).1 (legible_of_plain hplain hnames),
    (readsAsBaggage_iff plainMembers).2 (settled_of_values hvalues)⟩

end Saga
