/-
The grammar of the W3C baggage header: members of a token, a value of baggage octets and properties,
with optional white space around every separator. The parts carry the characters they are made of,
so that only well-formed headers can be built.
-/
import SagaProofs.Lib.Text

namespace W3C

/-! ## The grammar -/

/-- A printable ASCII character. -/
def isVisible (c : Char) : Bool := '!' ≤ c && c ≤ '~'

/-- A character of an HTTP token: a printable one that is no delimiter. -/
def isTchar (c : Char) : Bool :=
  isVisible c && c ∉ ['"', '(', ')', ',', '/', ':', ';', '<', '=', '>', '?', '@', '[', '\\', ']', '\x7b', '\x7d']

/-- A printable ASCII character other than the double quote, the comma, the semicolon and the backslash. -/
def isBaggageOctet (c : Char) : Bool := isVisible c && c ∉ ['"', ',', ';', '\\']

structure Token where
  text : String
  ne_empty : text ≠ ""
  chars : text.toList.all isTchar = true

def isBlank (c : Char) : Bool := c ∈ [' ', '\t']

/-- Optional white space. -/
structure Ows where
  text : String
  chars : text.toList.all isBlank = true

structure Value where
  text : String
  octets : text.toList.all isBaggageOctet = true

/-- A property with the white space around its semicolon: a key, with or without a value. -/
structure Property where
  before : Ows
  after : Ows
  key : Token
  afterKey : Ows
  value : Option (Ows × Value)

/-- A list member with the white space around its comma; its value is percent-encoded UTF-8. -/
structure Member where
  before : Ows
  key : Token
  afterKey : Ows
  beforeValue : Ows
  value : Value
  encoded : (Text.decodeURIComponent value.text).isSome
  properties : List Property
  after : Ows

def Property.chars (p : Property) : List Char :=
  p.before.text.toList ++ ';' :: (p.after.text.toList ++ (p.key.text.toList ++ (p.afterKey.text.toList ++
    match p.value with
    | some v => '=' :: (v.1.text.toList ++ v.2.text.toList)
    | none => [])))

/-- The characters of the properties of a member. -/
def Member.propertyChars (m : Member) : List Char := m.properties.flatMap Property.chars

/-- What stands after the equals sign of a member. -/
def Member.tailChars (m : Member) : List Char :=
  m.beforeValue.text.toList ++ (m.value.text.toList ++ (m.propertyChars ++ m.after.text.toList))

/-- A member as it stands between two commas. -/
def Member.text (m : Member) : String :=
  String.ofList (m.before.text.toList ++ (m.key.text.toList ++ m.afterKey.text.toList ++ '=' :: m.tailChars))

/-- The header of a list of members. -/
def header (ms : List Member) : String := Text.join ',' (ms.map Member.text)

/-! ## What a header says -/

/-- The last of the members with a name that have a property. -/
def last (q : Member → Prop) [DecidablePred q] (ms : List Member) (name : String) : Option Member :=
  (ms.filter fun m => m.key.text = name ∧ q m).getLast?

def Member.HasValue (m : Member) : Prop := m.value.text ≠ ""

instance : DecidablePred Member.HasValue := fun _ => inferInstanceAs (Decidable (_ ≠ _))

/-- The percent-decoded value of the last member with a name and a value that is not empty. -/
def valueOf (ms : List Member) (name : String) : Option String :=
  (last Member.HasValue ms name).bind fun m => Text.decodeURIComponent m.value.text

/-! ## Characters -/

theorem not_isSpace_of_isVisible {c : Char} (h : isVisible c = true) : Text.isSpace c = false := by
  unfold isVisible at h
  rw [Bool.and_eq_true, decide_eq_true_iff, decide_eq_true_iff] at h
  rw [Bool.eq_false_iff]
  intro hs
  unfold Text.isSpace at hs
  rw [Bool.or_eq_true, decide_eq_true_iff, Bool.and_eq_true, decide_eq_true_iff, decide_eq_true_iff] at hs
  rcases hs with hs | ⟨hs, -⟩
  · have hout : ['\t', '\n', '\x0b', '\x0c', '\r', ' ', '\u00a0', '\u1680', '\u2028', '\u2029', '\u202f',
        '\u205f', '\u3000', '\ufeff'].all (fun d => !('!' ≤ d && d ≤ '~')) = true := by decide
    have hc := List.all_eq_true.1 hout c hs
    simp [h.1, h.2] at hc
  · exact absurd (le_trans hs h.2) (by decide)

/-- What percent encoding leaves of a text are baggage octets. -/
theorem isBaggageOctet_of_unreserved {c : Char} (h : Text.unreserved c = true ∨ c = '%') : isBaggageOctet c = true := by
  rcases h with h | rfl
  · have hout : c ∉ ['"', ',', ';', '\\'] := by
      intro hc
      have hall : ['"', ',', ';', '\\'].all (fun d => !Text.unreserved d) = true := by decide
      have hnot := List.all_eq_true.1 hall c hc
      rw [h] at hnot
      cases hnot
    have hvisible : '!' ≤ c ∧ c ≤ '~' := by
      unfold Text.unreserved at h
      rw [decide_eq_true_iff] at h
      rcases h with ⟨hlo, hhi⟩ | ⟨hlo, hhi⟩ | ⟨hlo, hhi⟩ | h
      · exact ⟨le_trans (by decide) hlo, le_trans hhi (by decide)⟩
      · exact ⟨le_trans (by decide) hlo, le_trans hhi (by decide)⟩
      · exact ⟨le_trans (by decide) hlo, le_trans hhi (by decide)⟩
      · have hall : "-_.!~*'()".toList.all (fun d => '!' ≤ d && d ≤ '~') = true := by decide
        have hc := List.all_eq_true.1 hall c h
        rwa [Bool.and_eq_true, decide_eq_true_iff, decide_eq_true_iff] at hc
    unfold isBaggageOctet isVisible
    rw [Bool.and_eq_true, Bool.and_eq_true, decide_eq_true_iff, decide_eq_true_iff, decide_eq_true_iff]
    exact ⟨hvisible, hout⟩
  · decide

/-- A text percent-encoded. -/
def Value.encode (s : String) : Value where
  text := Text.encodeURIComponent s
  octets := List.all_eq_true.2 fun _ hc => isBaggageOctet_of_unreserved (Text.mem_encodeURIComponent hc)

theorem Value.equals_notMem_encode (s : String) : '=' ∉ (Value.encode s).text.toList := by
  intro h
  rcases Text.mem_encodeURIComponent h with h | h
  · exact absurd h (by decide)
  · exact absurd h (by decide)

theorem Token.char_spec (k : Token) {c : Char} (h : c ∈ k.text.toList) :
    Text.isSpace c = false ∧ c ≠ ',' ∧ c ≠ '=' := by
  have hc := List.all_eq_true.1 k.chars c h
  unfold isTchar at hc
  rw [Bool.and_eq_true, decide_eq_true_iff] at hc
  refine ⟨not_isSpace_of_isVisible hc.1, ?_, ?_⟩
  · rintro rfl
    exact hc.2 (by decide)
  · rintro rfl
    exact hc.2 (by decide)

theorem Value.char_spec (v : Value) {c : Char} (h : c ∈ v.text.toList) : Text.isSpace c = false ∧ c ≠ ',' := by
  have hc := List.all_eq_true.1 v.octets c h
  unfold isBaggageOctet at hc
  rw [Bool.and_eq_true, decide_eq_true_iff] at hc
  refine ⟨not_isSpace_of_isVisible hc.1, ?_⟩
  rintro rfl
  exact hc.2 (by decide)

theorem Ows.isSpace (w : Ows) {c : Char} (h : c ∈ w.text.toList) : Text.isSpace c = true := by
  have hc := List.all_eq_true.1 w.chars c h
  unfold isBlank at hc
  rw [decide_eq_true_iff, List.mem_cons, List.mem_singleton] at hc
  rcases hc with rfl | rfl
  · decide
  · decide

theorem Ows.notMem (w : Ows) {sep : Char} (h : Text.isSpace sep = false) : sep ∉ w.text.toList := by
  intro hmem
  rw [w.isSpace hmem] at h
  cases h

/-- No part of a member has a comma. -/
theorem Member.comma_notMem (m : Member) : ',' ∉ m.text.toList := by
  have hows : ∀ w : Ows, ',' ∉ w.text.toList := fun w => w.notMem (by decide)
  have hkey : ∀ k : Token, ',' ∉ k.text.toList := fun k hmem => (k.char_spec hmem).2.1 rfl
  have hvalue : ∀ v : Value, ',' ∉ v.text.toList := fun v hmem => (v.char_spec hmem).2 rfl
  have hproperty : ∀ p ∈ m.properties, ',' ∉ p.chars := by
    intro p _
    unfold Property.chars
    cases p.value with
    | none => simp [hows, hkey]
    | some v => simp [hows, hkey, hvalue]
  unfold Member.text Member.tailChars Member.propertyChars
  simpa [hows, hkey, hvalue] using hproperty

/-- A header splits into its members at the commas. -/
theorem split_header {ms : List Member} (h : ms ≠ []) : Text.split ',' (header ms) = ms.map Member.text := by
  refine Text.split_join (fun x hx => ?_) (by simpa using h)
  obtain ⟨m, -, rfl⟩ := List.mem_map.1 hx
  exact m.comma_notMem

/-! ## The last member with a property -/

section Last

variable {q r : Member → Prop} [DecidablePred q] [DecidablePred r] {ms : List Member} {name : String} {m : Member}

theorem mem_of_last (h : last q ms name = some m) : m ∈ ms ∧ m.key.text = name ∧ q m := by
  have hmem := List.mem_of_getLast? h
  rw [List.mem_filter, decide_eq_true_iff] at hmem
  exact hmem

theorem last_eq_none : last q ms name = none ↔ ∀ m ∈ ms, m.key.text = name → ¬ q m := by
  unfold last
  rw [List.getLast?_eq_none_iff, List.filter_eq_nil_iff]
  simp

theorem last_cons_of_ne (ms : List Member) (h : m.key.text ≠ name) : last q (m :: ms) name = last q ms name := by
  unfold last
  rw [List.filter_cons_of_neg]
  rw [decide_eq_true_iff]
  exact fun hm => h hm.1

/-- Where no later member has the property, the first decides. -/
theorem last_cons_of_eq (h : m.key.text = name) (hrest : last q ms name = none) :
    last q (m :: ms) name = if q m then some m else none := by
  unfold last at hrest ⊢
  rw [List.getLast?_eq_none_iff] at hrest
  rw [List.filter_cons, hrest]
  by_cases hq : q m
  · rw [if_pos (decide_eq_true ⟨h, hq⟩), if_pos hq]
    rfl
  · rw [if_neg (fun hm => hq (of_decide_eq_true hm).2), if_neg hq]
    rfl

/-- The last member with a weaker property is the last with the stronger one if it has that. -/
theorem last_of_imp (hqr : ∀ m, q m → r m) (h : last r ms name = some m) (hm : q m) : last q ms name = some m := by
  have hfilter : (ms.filter fun m => m.key.text = name ∧ q m) =
      (ms.filter fun m => m.key.text = name ∧ r m).filter fun m => q m := by
    rw [List.filter_filter]
    refine List.filter_congr fun x _ => ?_
    by_cases hq : q x
    · simp [hq, hqr x hq]
    · simp [hq]
  obtain ⟨ys, hys⟩ := List.getLast?_eq_some_iff.1 h
  unfold last
  rw [hfilter, hys, List.filter_append, List.filter_cons_of_pos (by simpa using hm)]
  simp

theorem valueOf_eq_none : valueOf ms name = none ↔ ∀ m ∈ ms, m.key.text = name → m.value.text = "" := by
  unfold valueOf
  rw [Option.bind_eq_none_iff]
  constructor
  · intro h m hm hk
    by_contra hv
    cases hl : last Member.HasValue ms name with
    | none => exact last_eq_none.1 hl m hm hk hv
    | some e =>
      have henc := e.encoded
      rw [h e hl] at henc
      cases henc
  · intro h e hl
    obtain ⟨he, hk, hv⟩ := mem_of_last hl
    exact absurd (h e he hk) hv

end Last

end W3C
