/-
String functions of ECMAScript over Lean strings: `split` at a one-character separator, `join`,
`trim`, `encodeURIComponent` and `decodeURIComponent`, with what splitting undoes of joining and decoding
of encoding.
-/
import Mathlib.Data.List.Basic
import Mathlib.Data.List.DropRight
import Mathlib.Data.String.Basic

namespace Text

/-! ## Split and join -/

/-- `s.split(sep)` for a separator of one character. -/
def split (sep : Char) (s : String) : List String := (s.toList.splitOn sep).map String.ofList

/-- `xs.join(sep)`. -/
def join (sep : Char) (xs : List String) : String := (String.singleton sep).intercalate xs

theorem not_mem_splitOn {α : Type*} [BEq α] [LawfulBEq α] (a : α) :
    ∀ (xs l : List α), l ∈ xs.splitOn a → a ∉ l
  | [], l, h => by
    simp only [List.splitOn_nil, List.mem_singleton] at h
    subst h; simp
  | x :: xs, l, h => by
    rw [List.splitOn_cons_eq_if_modifyHead] at h
    have ih := not_mem_splitOn a xs
    split at h
    · rcases List.mem_cons.1 h with rfl | h
      · simp
      · exact ih l h
    · rename_i hx
      obtain ⟨y, ys, hy⟩ := List.exists_cons_of_ne_nil (List.splitOn_ne_nil a xs)
      rw [hy, List.modifyHead_cons] at h
      rcases List.mem_cons.1 h with rfl | h
      · have := ih y (by rw [hy]; exact List.mem_cons_self ..)
        simp only [List.mem_cons, not_or]
        exact ⟨fun e => hx (by simp [e]), this⟩
      · exact ih l (by rw [hy]; exact List.mem_cons_of_mem _ h)

/-- No piece of a split contains the separator. -/
theorem not_mem_of_mem_split {sep : Char} {s x : String} (h : x ∈ split sep s) : sep ∉ x.toList := by
  unfold split at h
  obtain ⟨l, hl, rfl⟩ := List.mem_map.1 h
  rw [String.toList_ofList]
  exact not_mem_splitOn sep _ l hl

/-- Splitting undoes joining when no piece contains the separator. -/
theorem split_join {sep : Char} {xs : List String} (h : ∀ x ∈ xs, sep ∉ x.toList) (hne : xs ≠ []) :
    split sep (join sep xs) = xs := by
  unfold split join
  rw [String.toList_intercalate, String.toList_singleton,
    List.splitOn_intercalate sep (by simpa using h) (by simpa using hne), List.map_map]
  simp

theorem join_eq_empty {sep : Char} {x y : String} {xs : List String} : join sep (x :: y :: xs) ≠ "" := by
  intro h
  have := congrArg String.toList h
  unfold join at this
  simp [String.toList_intercalate] at this

/-- One more piece makes another text. -/
theorem join_cons_ne {sep : Char} (x : String) {xs : List String} (h : xs ≠ []) : join sep (x :: xs) ≠ join sep xs := by
  intro heq
  have hlength := congrArg String.length heq
  unfold join at hlength
  rw [String.intercalate_cons_of_ne_nil h, String.length_append, String.length_append, String.length_singleton] at hlength
  omega

@[simp] theorem join_singleton (sep : Char) (x : String) : join sep [x] = x := by
  unfold join; simp

/-! ## Trim -/

/-- The white space and line terminators `trim` strips. -/
def isSpace (c : Char) : Bool :=
  c ∈ ['\t', '\n', '\x0b', '\x0c', '\r', ' ', '\u00a0', '\u1680', '\u2028', '\u2029', '\u202f',
    '\u205f', '\u3000', '\ufeff'] || ('\u2000' ≤ c && c ≤ '\u200a')

/-- `s.trim()`. -/
def trim (s : String) : String :=
  String.ofList (((s.toList.dropWhile isSpace).reverse.dropWhile isSpace).reverse)

theorem trim_ofList (cs : List Char) :
    trim (String.ofList cs) = String.ofList ((cs.dropWhile isSpace).rdropWhile isSpace) := by
  unfold trim List.rdropWhile
  rw [String.toList_ofList]

/-- What stands up to a character that is not dropped stays. -/
theorem rdropWhile_append_cons {α : Type*} {p : α → Bool} {c : α} (hc : p c = false) (xs ys : List α) :
    (xs ++ c :: ys).rdropWhile p = xs ++ c :: ys.rdropWhile p := by
  unfold List.rdropWhile
  rw [List.reverse_append, List.reverse_cons, List.append_assoc, List.dropWhile_append]
  cases hys : ys.reverse.dropWhile p with
  | nil => simp [hc]
  | cons y rest => simp

theorem rdropWhile_append_of_pos {α : Type*} {p : α → Bool} {ys : List α} (h : ∀ y ∈ ys, p y = true) (xs : List α) :
    (xs ++ ys).rdropWhile p = xs.rdropWhile p := by
  unfold List.rdropWhile
  rw [List.reverse_append, List.dropWhile_append_of_pos]
  simpa using h

/-- White space before a text is trimmed away. -/
theorem trim_append_left {ws : List Char} (h : ∀ c ∈ ws, isSpace c = true) (cs : List Char) :
    trim (String.ofList (ws ++ cs)) = trim (String.ofList cs) := by
  rw [trim_ofList, trim_ofList, List.dropWhile_append_of_pos h]

/-- White space after a text is trimmed away. -/
theorem trim_append_right {ws : List Char} (h : ∀ c ∈ ws, isSpace c = true) (cs : List Char) :
    trim (String.ofList (cs ++ ws)) = trim (String.ofList cs) := by
  rw [trim_ofList, trim_ofList, List.dropWhile_append]
  cases hcs : cs.dropWhile isSpace with
  | nil => simp [List.dropWhile_eq_nil_iff.2 h]
  | cons c rest =>
    rw [List.isEmpty_cons, if_neg Bool.false_ne_true, rdropWhile_append_of_pos h]

theorem trim_rdropWhile (cs : List Char) :
    trim (String.ofList (cs.rdropWhile isSpace)) = trim (String.ofList cs) := by
  have hspace : ∀ c ∈ cs.rtakeWhile isSpace, isSpace c = true := fun c hc => List.mem_rtakeWhile_imp hc
  rw [← trim_append_right hspace, List.rdropWhile_append_rtakeWhile]

/-- A text that begins with something else than white space is trimmed at its end only. -/
theorem trim_cons {c : Char} (h : isSpace c = false) (cs : List Char) :
    trim (String.ofList (c :: cs)) = String.ofList (c :: cs.rdropWhile isSpace) := by
  have hcons : (c :: cs).rdropWhile isSpace = c :: cs.rdropWhile isSpace := rdropWhile_append_cons h [] cs
  rw [trim_ofList, List.dropWhile_cons_of_neg (by simp [h]), hcons]

theorem trim_of_forall {cs : List Char} (h : ∀ c ∈ cs, isSpace c = false) : trim (String.ofList cs) = String.ofList cs := by
  cases cs with
  | nil => rfl
  | cons c rest =>
    obtain ⟨hc, hrest⟩ := List.forall_mem_cons.1 h
    have hself : rest.rdropWhile isSpace = rest :=
      List.rdropWhile_eq_self_iff.2 fun hl => by simp [hrest _ (List.getLast_mem hl)]
    rw [trim_cons hc, hself]

/-! ## The text up to a separator -/

theorem takeWhile_append_cons {sep : Char} {p : List Char} (h : sep ∉ p) (r : List Char) :
    (p ++ sep :: r).takeWhile (· ≠ sep) = p := by
  have hp : ∀ c ∈ p, decide (c ≠ sep) = true := by
    intro c hc
    rw [decide_eq_true_iff]
    rintro rfl
    exact h hc
  rw [List.takeWhile_append_of_pos hp]
  simp

theorem takeWhile_of_notMem {sep : Char} {cs : List Char} (h : sep ∉ cs) : cs.takeWhile (· ≠ sep) = cs := by
  refine List.takeWhile_eq_self_iff.2 fun c hc => ?_
  rw [decide_eq_true_iff]
  rintro rfl
  exact h hc

/-- The first piece of a split is the text up to the separator. -/
theorem splitOn_head (sep : Char) (cs : List Char) : (cs.splitOn sep).head? = some (cs.takeWhile (· ≠ sep)) := by
  by_cases h : sep ∈ cs
  · obtain ⟨p, r, rfl, hp⟩ := List.eq_append_cons_of_mem h
    rw [List.splitOn_append_cons_self_of_not_mem hp, takeWhile_append_cons hp]
    rfl
  · rw [List.splitOn_eq_singleton h, takeWhile_of_notMem h]
    rfl

/-- White space at the end of a text does not show in what stands up to a separator, once that is trimmed. -/
theorem trim_takeWhile_rdropWhile {sep : Char} (hsep : isSpace sep = false) (cs : List Char) :
    trim (String.ofList ((cs.rdropWhile isSpace).takeWhile (· ≠ sep))) =
      trim (String.ofList (cs.takeWhile (· ≠ sep))) := by
  by_cases h : sep ∈ cs
  · obtain ⟨p, r, rfl, hp⟩ := List.eq_append_cons_of_mem h
    rw [rdropWhile_append_cons hsep, takeWhile_append_cons hp, takeWhile_append_cons hp]
  · have h' : sep ∉ cs.rdropWhile isSpace := fun hmem => h ((List.rdropWhile_prefix ..).mem hmem)
    rw [takeWhile_of_notMem h, takeWhile_of_notMem h', trim_rdropWhile]

/-- Nor does white space that is added there. -/
theorem trim_takeWhile_append_right {sep : Char} (hsep : isSpace sep = false) {ws : List Char}
    (h : ∀ c ∈ ws, isSpace c = true) (cs : List Char) :
    trim (String.ofList ((cs ++ ws).takeWhile (· ≠ sep))) = trim (String.ofList (cs.takeWhile (· ≠ sep))) := by
  rw [← trim_takeWhile_rdropWhile hsep, rdropWhile_append_of_pos h, trim_takeWhile_rdropWhile hsep]

/-- Nothing stands up to the separator when the text is white space or begins with the separator. -/
theorem takeWhile_rdropWhile_eq_nil {sep : Char} (hsep : isSpace sep = false) (cs : List Char) :
    (cs.rdropWhile isSpace).takeWhile (· ≠ sep) = [] ↔ (∀ c ∈ cs, isSpace c = true) ∨ cs.head? = some sep := by
  cases cs with
  | nil => simp
  | cons c rest =>
    by_cases hc : c = sep
    · subst hc
      have hkept : (c :: rest).rdropWhile isSpace = c :: rest.rdropWhile isSpace := rdropWhile_append_cons hsep [] rest
      rw [hkept]
      simp
    · rw [← List.rdropWhile_eq_nil_iff]
      have hhead : (c :: rest).head? ≠ some sep := by simpa using hc
      rw [or_iff_left hhead]
      cases hdrop : (c :: rest).rdropWhile isSpace with
      | nil => simp
      | cons d tail =>
        obtain ⟨more, hmore⟩ := List.rdropWhile_prefix isSpace (c :: rest)
        rw [hdrop] at hmore
        cases hmore
        simp [hc]

/-! ## Percent decoding -/

def hexDigit (c : Char) : Option ℕ :=
  if '0' ≤ c ∧ c ≤ '9' then some (c.toNat - 48)
  else if 'a' ≤ c ∧ c ≤ 'f' then some (c.toNat - 87)
  else if 'A' ≤ c ∧ c ≤ 'F' then some (c.toNat - 55)
  else none

/-- Characters that stand for themselves, and the octets of the percent escapes between them;
`none` where a percent sign is not followed by two hexadecimal digits. -/
def unescape : List Char → Option (List (Char ⊕ ℕ))
  | [] => some []
  | '%' :: a :: b :: rest =>
    match hexDigit a, hexDigit b with
    | some h, some l => (unescape rest).map (.inr (16 * h + l) :: ·)
    | _, _ => none
  | '%' :: _ => none
  | c :: rest => (unescape rest).map (.inl c :: ·)

/-- After the first octet of a sequence of two to four: the octets still owed, the bits so far and
the least code point the sequence may encode. -/
def leadOctet (b : ℕ) : Option (ℕ × ℕ × ℕ) :=
  if 0xC0 ≤ b ∧ b < 0xE0 then some (1, b - 0xC0, 0x80)
  else if 0xE0 ≤ b ∧ b < 0xF0 then some (2, b - 0xE0, 0x800)
  else if 0xF0 ≤ b ∧ b < 0xF8 then some (3, b - 0xF0, 0x10000)
  else none

/-- The code points of the escaped octets, each sequence one of valid UTF-8. -/
def assemble : Option (ℕ × ℕ × ℕ) → List (Char ⊕ ℕ) → Option (List Char)
  | none, [] => some []
  | some _, [] => none
  | none, .inl c :: rest => (assemble none rest).map (c :: ·)
  | some _, .inl _ :: _ => none
  | none, .inr b :: rest =>
    if b < 0x80 then (assemble none rest).map (Char.ofNat b :: ·)
    else
      match leadOctet b with
      | some p => assemble (some p) rest
      | none => none
  | some (owed, bits, least), .inr b :: rest =>
    let bits := bits * 64 + (b - 0x80)
    if 0x80 ≤ b ∧ b < 0xC0 then
      if owed = 1 then
        if least ≤ bits ∧ bits.isValidChar then (assemble none rest).map (Char.ofNat bits :: ·) else none
      else assemble (some (owed - 1, bits, least)) rest
    else none

/-- `decodeURIComponent(s)`; `none` where it throws a `URIError`. -/
def decodeURIComponent (s : String) : Option String :=
  ((unescape s.toList).bind (assemble none)).map String.ofList

theorem unescape_eq_nil : ∀ {cs : List Char} {us : List (Char ⊕ ℕ)}, unescape cs = some us → (us = [] ↔ cs = [])
  | [], us, h => by
    cases h; simp
  | c :: rest, us, h => by
    refine iff_of_false ?_ (by simp)
    unfold unescape at h
    split at h
    · rename_i heq
      cases heq
    · split at h
      · obtain ⟨_, -, rfl⟩ := Option.map_eq_some_iff.1 h
        simp
      · cases h
    · cases h
    · obtain ⟨_, -, rfl⟩ := Option.map_eq_some_iff.1 h
      simp

/-- A sequence that has begun decodes to something. -/
theorem assemble_begun : ∀ {us : List (Char ⊕ ℕ)} {p : ℕ × ℕ × ℕ} {cs : List Char}, assemble (some p) us = some cs → cs ≠ []
  | [], p, cs, h => by cases h
  | .inl c :: rest, p, cs, h => by cases h
  | .inr b :: rest, (owed, bits, least), cs, h => by
    unfold assemble at h
    simp only at h
    split at h
    · split at h
      · split at h
        · obtain ⟨_, -, rfl⟩ := Option.map_eq_some_iff.1 h
          simp
        · cases h
      · exact assemble_begun h
    · cases h

theorem assemble_eq_nil {us : List (Char ⊕ ℕ)} {cs : List Char} (h : assemble none us = some cs) : cs = [] ↔ us = [] := by
  match us with
  | [] => cases h; simp
  | .inl c :: rest =>
    obtain ⟨_, -, rfl⟩ := Option.map_eq_some_iff.1 h
    simp
  | .inr b :: rest =>
    refine iff_of_false ?_ (by simp)
    unfold assemble at h
    split at h
    · obtain ⟨_, -, rfl⟩ := Option.map_eq_some_iff.1 h
      simp
    · split at h
      · exact assemble_begun h
      · cases h

/-- Only the empty text decodes to the empty text. -/
theorem decodeURIComponent_eq_empty {s t : String} (h : decodeURIComponent s = some t) : t = "" ↔ s = "" := by
  unfold decodeURIComponent at h
  obtain ⟨cs, hcs, rfl⟩ := Option.map_eq_some_iff.1 h
  obtain ⟨us, hus, hcs⟩ := Option.bind_eq_some_iff.1 hcs
  have h1 := assemble_eq_nil hcs
  have h2 := unescape_eq_nil hus
  constructor
  · intro ht
    have hnil : cs = [] := by
      have := congrArg String.toList ht
      rwa [String.toList_ofList] at this
    have hs := h2.1 (h1.1 hnil)
    rw [← String.ofList_toList (s := s), hs]
  · intro hs
    rw [h1.2 (h2.2 (by rw [hs]; rfl))]

theorem unescape_cons {c : Char} (h : c ≠ '%') (rest : List Char) :
    unescape (c :: rest) = (unescape rest).map (.inl c :: ·) := by
  rw [unescape]
  all_goals simp [h]

/-- What follows a text whose escapes are complete is unescaped by itself. -/
theorem unescape_append : ∀ {cs : List Char} {us : List (Char ⊕ ℕ)}, unescape cs = some us →
    ∀ ds, unescape (cs ++ ds) = (unescape ds).map (us ++ ·)
  | [], us, h, ds => by
    cases h; simp
  | c :: rest, us, h, ds => by
    by_cases hc : c = '%'
    · subst hc
      match rest with
      | [] => cases h
      | [a] => cases h
      | a :: b :: rest =>
        simp only [unescape, List.cons_append] at h ⊢
        split at h
        · rename_i hi lo hhi hlo
          obtain ⟨us', hus, rfl⟩ := Option.map_eq_some_iff.1 h
          rw [unescape_append hus ds]
          simp [Function.comp_def]
        · cases h
    · rw [unescape_cons hc] at h
      obtain ⟨us', hus, rfl⟩ := Option.map_eq_some_iff.1 h
      rw [List.cons_append, unescape_cons hc, unescape_append hus ds]
      simp [Function.comp_def]

/-- What follows a complete sequence of octets is assembled by itself. -/
theorem assemble_append : ∀ {us : List (Char ⊕ ℕ)} {p : Option (ℕ × ℕ × ℕ)} {cs : List Char}, assemble p us = some cs →
    ∀ vs, assemble p (us ++ vs) = (assemble none vs).map (cs ++ ·)
  | [], none, cs, h, vs => by
    cases h; simp
  | [], some _, cs, h, vs => by cases h
  | .inl c :: rest, none, cs, h, vs => by
    obtain ⟨cs', hcs, rfl⟩ := Option.map_eq_some_iff.1 h
    have ih := assemble_append hcs vs
    simp [assemble, ih, Function.comp_def]
  | .inl c :: rest, some _, cs, h, vs => by cases h
  | .inr b :: rest, none, cs, h, vs => by
    unfold assemble at h
    split at h
    · rename_i hb
      obtain ⟨cs', hcs, rfl⟩ := Option.map_eq_some_iff.1 h
      have ih := assemble_append hcs vs
      simp [assemble, hb, ih, Function.comp_def]
    · rename_i hb
      split at h
      · rename_i p hp
        have ih := assemble_append h vs
        simp [assemble, hb, hp, ih]
      · cases h
  | .inr b :: rest, some (owed, bits, least), cs, h, vs => by
    unfold assemble at h
    simp only at h
    split at h
    · rename_i hb
      split at h
      · rename_i howed
        split at h
        · rename_i hbits
          obtain ⟨cs', hcs, rfl⟩ := Option.map_eq_some_iff.1 h
          have ih := assemble_append hcs vs
          simp [assemble, hb, howed, hbits, ih, Function.comp_def]
        · cases h
      · rename_i howed
        have ih := assemble_append h vs
        simp [assemble, hb, howed, ih]
    · cases h

/-- A text that decodes is decoded apart from what follows it. -/
theorem decodeURIComponent_append {s t : String} (h : decodeURIComponent s = some t) (x : String) :
    decodeURIComponent (s ++ x) = (decodeURIComponent x).map (t ++ ·) := by
  unfold decodeURIComponent at h ⊢
  obtain ⟨cs, hcs, rfl⟩ := Option.map_eq_some_iff.1 h
  obtain ⟨us, hus, hcs⟩ := Option.bind_eq_some_iff.1 hcs
  rw [String.toList_append, unescape_append hus]
  cases unescape x.toList with
  | none => rfl
  | some vs =>
    simp [assemble_append hcs, Option.map_map, Function.comp_def, String.ofList_append]

/-- A text and a longer one that begins with it decode differently. -/
theorem decodeURIComponent_ne {s t x : String} (h : decodeURIComponent s = some t) (hx : x ≠ "") :
    decodeURIComponent (s ++ x) ≠ some t := by
  rw [decodeURIComponent_append h]
  intro heq
  obtain ⟨y, hy, ht⟩ := Option.map_eq_some_iff.1 heq
  have hempty : y = "" := by
    have hlist := congrArg String.toList ht
    rw [String.toList_append, List.append_right_eq_self] at hlist
    exact String.toList_eq_nil_iff.1 hlist
  exact hx ((decodeURIComponent_eq_empty hy).1 hempty)

/-! ## Percent encoding -/

/-- The characters `encodeURIComponent` leaves as they are. -/
def unreserved (c : Char) : Bool :=
  ('A' ≤ c ∧ c ≤ 'Z') ∨ ('a' ≤ c ∧ c ≤ 'z') ∨ ('0' ≤ c ∧ c ≤ '9') ∨
    c ∈ "-_.!~*'()".toList

/-- The octets of a code point in UTF-8. -/
def octets (n : ℕ) : List ℕ :=
  if n < 0x80 then [n]
  else if n < 0x800 then [0xC0 + n / 64, 0x80 + n % 64]
  else if n < 0x10000 then [0xE0 + n / 4096, 0x80 + n / 64 % 64, 0x80 + n % 64]
  else [0xF0 + n / 262144, 0x80 + n / 4096 % 64, 0x80 + n / 64 % 64, 0x80 + n % 64]

def hexUpper (n : ℕ) : Char := if n < 10 then Char.ofNat (48 + n) else Char.ofNat (55 + n)

def escapeOctet (b : ℕ) : List Char := ['%', hexUpper (b / 16), hexUpper (b % 16)]

def encodeChar (c : Char) : List Char := if unreserved c then [c] else (octets c.toNat).flatMap escapeOctet

/-- `encodeURIComponent(s)`. -/
def encodeURIComponent (s : String) : String := String.ofList (s.toList.flatMap encodeChar)

theorem hexDigit_hexUpper : ∀ n < 16, hexDigit (hexUpper n) = some n := by decide

theorem unescape_escapeOctet {b : ℕ} (h : b < 256) (cs : List Char) :
    unescape (escapeOctet b ++ cs) = (unescape cs).map (.inr b :: ·) := by
  have hb : 16 * (b / 16) + b % 16 = b := Nat.div_add_mod b 16
  simp only [escapeOctet, List.cons_append, List.nil_append, unescape, hexDigit_hexUpper (b / 16) (by omega),
    hexDigit_hexUpper (b % 16) (by omega), hb]

theorem unescape_escapeOctets : ∀ {bs : List ℕ}, (∀ b ∈ bs, b < 256) →
    unescape (bs.flatMap escapeOctet) = some (bs.map .inr)
  | [], _ => rfl
  | b :: bs, h => by
    rw [List.flatMap_cons, unescape_escapeOctet (h b (List.mem_cons_self ..)),
      unescape_escapeOctets fun x hx => h x (List.mem_cons_of_mem b hx)]
    rfl

theorem octets_lt {n : ℕ} (h : n < 0x110000) : ∀ b ∈ octets n, b < 256 := by
  intro b hb
  unfold octets at hb
  split at hb
  · simp at hb; omega
  · split at hb
    · simp at hb; omega
    · split at hb
      · simp at hb; omega
      · simp at hb; omega

/-- An octet that continues a sequence. -/
theorem assemble_continue {owed bits least b : ℕ} (h : b < 64) (howed : owed ≠ 1) (us : List (Char ⊕ ℕ)) :
    assemble (some (owed, bits, least)) (.inr (0x80 + b) :: us) =
      assemble (some (owed - 1, bits * 64 + b, least)) us := by
  have hrange : 0x80 ≤ 0x80 + b ∧ 0x80 + b < 0xC0 := by omega
  have hb : 0x80 + b - 0x80 = b := by omega
  simp only [assemble, if_pos hrange, if_neg howed, hb]

/-- The octet that ends one. -/
theorem assemble_end {bits least b : ℕ} {c : Char} (h : b < 64) (hbits : bits * 64 + b = c.toNat)
    (hleast : least ≤ c.toNat) : assemble (some (1, bits, least)) [.inr (0x80 + b)] = some [c] := by
  have hrange : 0x80 ≤ 0x80 + b ∧ 0x80 + b < 0xC0 := by omega
  have hb : 0x80 + b - 0x80 = b := by omega
  have hvalid : least ≤ c.toNat ∧ c.toNat.isValidChar := ⟨hleast, c.valid⟩
  simp only [assemble, if_pos hrange, if_true, hb, hbits, if_pos hvalid, Option.map_some, Char.ofNat_toNat]

theorem toNat_lt (c : Char) : c.toNat < 0x110000 := by
  rcases c.valid with h | h
  · exact h.trans (by decide)
  · exact h.2

/-- The octets of a character are assembled to it. -/
theorem assemble_octets (c : Char) : assemble none ((octets c.toNat).map .inr) = some [c] := by
  have hc := toNat_lt c
  unfold octets
  split
  · rename_i h1
    simp only [List.map_cons, List.map_nil, assemble, if_pos h1, Option.map_some, Char.ofNat_toNat]
  · rename_i h1
    split
    · have hlead : leadOctet (0xC0 + c.toNat / 64) = some (1, c.toNat / 64, 0x80) := by
        unfold leadOctet
        rw [if_pos (by omega)]
        simp
      have hfirst : ¬ 0xC0 + c.toNat / 64 < 0x80 := by omega
      simp only [List.map_cons, List.map_nil]
      rw [assemble, if_neg hfirst, hlead]
      exact assemble_end (Nat.mod_lt _ (by decide)) (by omega) (by omega)
    · rename_i h2
      split
      · have hlead : leadOctet (0xE0 + c.toNat / 4096) = some (2, c.toNat / 4096, 0x800) := by
          unfold leadOctet
          rw [if_neg (by omega), if_pos (by omega)]
          simp
        have hfirst : ¬ 0xE0 + c.toNat / 4096 < 0x80 := by omega
        simp only [List.map_cons, List.map_nil]
        rw [assemble, if_neg hfirst, hlead]
        dsimp only
        rw [assemble_continue (Nat.mod_lt _ (by decide)) (by decide)]
        exact assemble_end (Nat.mod_lt _ (by decide)) (by omega) (by omega)
      · have hlead : leadOctet (0xF0 + c.toNat / 262144) = some (3, c.toNat / 262144, 0x10000) := by
          unfold leadOctet
          rw [if_neg (by omega), if_neg (by omega), if_pos (by omega)]
          simp
        have hfirst : ¬ 0xF0 + c.toNat / 262144 < 0x80 := by omega
        simp only [List.map_cons, List.map_nil]
        rw [assemble, if_neg hfirst, hlead]
        dsimp only
        rw [assemble_continue (Nat.mod_lt _ (by decide)) (by decide),
          assemble_continue (Nat.mod_lt _ (by decide)) (by decide)]
        exact assemble_end (Nat.mod_lt _ (by decide)) (by omega) (by omega)

theorem unreserved_ne_percent {c : Char} (h : unreserved c = true) : c ≠ '%' := by
  rintro rfl
  exact absurd h (by decide)

theorem decodeURIComponent_encodeChar (c : Char) :
    decodeURIComponent (String.ofList (encodeChar c)) = some (String.singleton c) := by
  unfold decodeURIComponent encodeChar
  rw [String.toList_ofList]
  split
  · rename_i h
    rw [unescape_cons (unreserved_ne_percent h)]
    rfl
  · rw [unescape_escapeOctets (octets_lt (toNat_lt c)), Option.bind_some, assemble_octets]
    rfl

/-- Decoding undoes encoding. -/
theorem decodeURIComponent_encodeURIComponent (s : String) : decodeURIComponent (encodeURIComponent s) = some s := by
  have hchars : ∀ cs : List Char,
      decodeURIComponent (String.ofList (cs.flatMap encodeChar)) = some (String.ofList cs) := by
    intro cs
    induction cs with
    | nil => rfl
    | cons c cs ih =>
      rw [List.flatMap_cons, String.ofList_append, decodeURIComponent_append (decodeURIComponent_encodeChar c), ih,
        Option.map_some, String.ofList_cons]
  have h := hchars s.toList
  rwa [String.ofList_toList] at h

theorem unreserved_hexUpper : ∀ n < 16, unreserved (hexUpper n) = true := by decide

/-- The characters of an encoded text. -/
theorem mem_encodeURIComponent {s : String} {c : Char} (h : c ∈ (encodeURIComponent s).toList) :
    unreserved c = true ∨ c = '%' := by
  unfold encodeURIComponent at h
  rw [String.toList_ofList, List.mem_flatMap] at h
  obtain ⟨d, -, hd⟩ := h
  unfold encodeChar at hd
  split at hd
  · rw [List.mem_singleton.1 hd]
    exact .inl ‹_›
  · obtain ⟨b, hb, hc⟩ := List.mem_flatMap.1 hd
    have hlt := octets_lt (toNat_lt d) b hb
    unfold escapeOctet at hc
    simp only [List.mem_cons, List.not_mem_nil, or_false] at hc
    rcases hc with rfl | rfl | rfl
    · exact .inr rfl
    · exact .inl (unreserved_hexUpper (b / 16) (by omega))
    · exact .inl (unreserved_hexUpper (b % 16) (by omega))

theorem encodeURIComponent_eq_empty {s : String} : encodeURIComponent s = "" ↔ s = "" :=
  (decodeURIComponent_eq_empty (decodeURIComponent_encodeURIComponent s)).symm

example : encodeURIComponent "saga 1/é" = "saga%201%2F%C3%A9" := by decide
example : decodeURIComponent "saga%2D1%C3%A9" = some "saga-1é" := by decide
example : decodeURIComponent "100%" = none := by decide

end Text
