/-
The `@MessageHandler` decorator and what `SagaRunnerProvider.onModuleInit` makes of its metadata. The map of
a class is looked up through the prototype chain and then written, so a class with a decorated base writes
into the map of that base.
-/
import SagaProofs.Core.Registry
import SagaProofs.Lib.Forest

namespace Saga.Nest

variable {Class Method PlainHandler Store : Type} [DecidableEq Class]

/-! ## The decorator -/

/-- The three calls of reflect-metadata, for the key `MESSAGE_HANDLER_METADATA`; a map is given by its
reference. -/
structure ReflectMetadata (Class Store : Type) where
  getMetadata : Store → Class → Option ℕ
  getOwnMetadata : Store → Class → Option ℕ
  defineMetadata : Store → ℕ → Class → Store

/-- The metadata and the maps that have been created. -/
structure Runtime (Method Store : Type) where
  metadata : Store
  maps : List (Record Method)

/-- `@MessageHandler(...topics)` on a method of a class: `target.constructor` and the name of the method. -/
structure Decoration (Class Method : Type) where
  target : Class
  topics : List String
  propertyKey : Method

def setTopics (topics : List String) (propertyKey : Method) (map : Record Method) : Record Method :=
  topics.foldl (fun map topic => map.insert topic propertyKey) map

/-- `Reflect.getMetadata(...) ?? new Map()`: the map and the maps there are then. -/
def existing (R : ReflectMetadata Class Store) (s : Runtime Method Store) (target : Class) :
    ℕ × List (Record Method) :=
  match R.getMetadata s.metadata target with
  | some map => (map, s.maps)
  | none => (s.maps.length, s.maps ++ [∅])

/-- What the decorator does when it runs. -/
def messageHandler (R : ReflectMetadata Class Store) (s : Runtime Method Store) (e : Decoration Class Method) :
    Runtime Method Store :=
  let (map, maps) := existing R s e.target
  { metadata := R.defineMetadata s.metadata map e.target
    maps := maps.modify map (setTopics e.topics e.propertyKey) }

def evaluate (R : ReflectMetadata Class Store) (metadata : Store) (decorations : List (Decoration Class Method)) :
    Runtime Method Store :=
  decorations.foldl (messageHandler R) ⟨metadata, []⟩

/-! ## The provider -/

/-- `messageHandlerMap`. -/
def messageHandlerMap (R : ReflectMetadata Class Store) (s : Runtime Method Store) (metatype : Class) :
    Option (Record Method) :=
  (R.getMetadata s.metadata metatype).bind (s.maps[·]?)

/-- What the map has for a topic. -/
def methodFor (R : ReflectMetadata Class Store) (s : Runtime Method Store) (metatype : Class) (topic : String) :
    Option Method :=
  (messageHandlerMap R s metatype).bind (·.lookup topic)

/-- One entry of the map; `bound` is the method of the instance bound to it, where it is a function. -/
def register (bound : Method → Option PlainHandler) (onPlain : Record PlainHandler)
    (e : Sigma fun _ : String => Method) : Record PlainHandler :=
  match bound e.2 with
  -- `onPlain["__proto__"] = f` sets the prototype of the object and no key
  | some method => if e.1 = "__proto__" then onPlain else onPlain.insert e.1 method
  | none => onPlain

def onPlain (bound : Method → Option PlainHandler) (messageHandlerMap : Option (Record Method)) :
    Record PlainHandler :=
  match messageHandlerMap with
  | none => ∅
  | some map => map.entries.foldl (register bound) ∅

/-! ## What it is for -/

/-- The prototype chain of a constructor: the class and its bases, the nearest first. -/
def prototypeChain (hierarchy : Forest Class) (c : Class) : List Class := c :: hierarchy.ancestors c

/-- What is assumed of reflect-metadata: `getMetadata` finds the first class of the prototype chain with
metadata of its own, `defineMetadata` writes on the given class, and there is none to begin with. -/
structure ReflectMetadata.Lawful (R : ReflectMetadata Class Store) (hierarchy : Forest Class) (metadata : Store) :
    Prop where
  init : ∀ c, R.getOwnMetadata metadata c = none
  get : ∀ s, ∀ c ∈ hierarchy.nodes, R.getMetadata s c = (prototypeChain hierarchy c).findSome? (R.getOwnMetadata s)
  define : ∀ s map c, R.getOwnMetadata (R.defineMetadata s map c) = Function.update (R.getOwnMetadata s) c (some map)

/-- The classes and the decorations of their methods in the order in which they run: those of a class come
after those of its bases. -/
structure Program (Class Method : Type) [DecidableEq Class] where
  hierarchy : Forest Class
  grown : hierarchy.Grown
  decorations : List (Decoration Class Method)
  targets : ∀ e ∈ decorations, e.target ∈ hierarchy.nodes
  baseFirst : decorations.Pairwise fun e later => later.target ∉ hierarchy.ancestors e.target

/-- The method a class declares for a topic itself, the last one if there are several. -/
def declared (decorations : List (Decoration Class Method)) (c : Class) (topic : String) : Option Method :=
  (decorations.reverse.find? fun e => e.target = c ∧ topic ∈ e.topics).map (·.propertyKey)

/-- The method a class declares or inherits for a topic: the most derived declaration. -/
def expected (p : Program Class Method) (c : Class) (topic : String) : Option Method :=
  (prototypeChain p.hierarchy c).findSome? fun a => declared p.decorations a topic

/-- The maps are what the classes declare and inherit; a decoration changes no map but those of its class and
the classes derived from it; and what is registered has been declared. -/
structure LeakFree (R : ReflectMetadata Class Store) (metadata : Store) (p : Program Class Method) : Prop where
  pairs : ∀ c ∈ p.hierarchy.nodes, ∀ topic,
    methodFor R (evaluate R metadata p.decorations) c topic = expected p c topic
  frame : ∀ done e rest, p.decorations = done ++ e :: rest → ∀ c ∈ p.hierarchy.nodes,
    e.target ∉ prototypeChain p.hierarchy c → ∀ topic,
      methodFor R (evaluate R metadata (done ++ [e])) c topic = methodFor R (evaluate R metadata done) c topic
  registered : ∀ c ∈ p.hierarchy.nodes, ∀ {PlainHandler : Type} (bound : Method → Option PlainHandler) topic,
    topic ∈ onPlain bound (messageHandlerMap R (evaluate R metadata p.decorations) c) → (expected p c topic).isSome

/-! ## Declarations -/

def Decorated (decorations : List (Decoration Class Method)) (c : Class) : Prop := ∃ e ∈ decorations, e.target = c

instance (decorations : List (Decoration Class Method)) (c : Class) : Decidable (Decorated decorations c) :=
  List.decidableBEx _ _

/-- The topmost decorated class of a prototype chain. -/
def top (hierarchy : Forest Class) (decorations : List (Decoration Class Method)) (c : Class) : Option Class :=
  ((prototypeChain hierarchy c).filter (Decorated decorations)).getLast?

section Declarations

variable {hierarchy : Forest Class} {done : List (Decoration Class Method)} {e : Decoration Class Method}
  {a c : Class} {topic : String} {m : Method}

omit [DecidableEq Class] in
theorem decorated_append {rest : List (Decoration Class Method)} :
    Decorated (done ++ rest) c ↔ Decorated done c ∨ Decorated rest c := by
  simp [Decorated, or_and_right, exists_or]

omit [DecidableEq Class] in
theorem decorated_concat : Decorated (done ++ [e]) c ↔ Decorated done c ∨ e.target = c := by
  simp [Decorated, or_and_right, exists_or]

theorem declared_concat (c : Class) (topic : String) : declared (done ++ [e]) c topic =
    if e.target = c ∧ topic ∈ e.topics then some e.propertyKey else declared done c topic := by
  unfold declared
  rw [List.reverse_append, List.reverse_singleton, List.singleton_append, List.find?_cons]
  by_cases h : e.target = c ∧ topic ∈ e.topics
  · simp [h]
  · simp [h]

/-- Decorations of other classes declare nothing. -/
theorem declared_append {rest : List (Decoration Class Method)} (h : ¬ Decorated rest c) (topic : String) :
    declared (done ++ rest) c topic = declared done c topic := by
  have hrest : rest.reverse.find? (fun e => e.target = c ∧ topic ∈ e.topics) = none := by
    rw [List.find?_eq_none]
    intro e he hmatch
    exact h ⟨e, List.mem_reverse.1 he, (of_decide_eq_true hmatch).1⟩
  unfold declared
  rw [List.reverse_append, List.find?_append, hrest, Option.none_or]

theorem mem_of_declared (h : declared done c topic = some m) :
    ∃ e ∈ done, e.target = c ∧ topic ∈ e.topics ∧ e.propertyKey = m := by
  obtain ⟨e, hfind, rfl⟩ := Option.map_eq_some_iff.1 h
  have hmatch := List.find?_some hfind
  obtain ⟨hc, ht⟩ := of_decide_eq_true hmatch
  exact ⟨e, List.mem_reverse.1 (List.mem_of_find?_eq_some hfind), hc, ht, rfl⟩

theorem declared_eq_none (h : ¬ Decorated done c) (topic : String) : declared done c topic = none := by
  by_contra hne
  obtain ⟨m, hm⟩ := Option.ne_none_iff_exists'.1 hne
  obtain ⟨e, he, hc, -⟩ := mem_of_declared hm
  exact h ⟨e, he, hc⟩

theorem mem_chain_self (c : Class) : c ∈ prototypeChain hierarchy c := List.mem_cons_self ..

theorem mem_of_top (h : top hierarchy done c = some a) : a ∈ prototypeChain hierarchy c ∧ Decorated done a := by
  obtain ⟨hmem, hd⟩ := List.mem_filter.1 (List.mem_of_getLast? h)
  exact ⟨hmem, of_decide_eq_true hd⟩

theorem top_eq_none : top hierarchy done c = none ↔ ∀ a ∈ prototypeChain hierarchy c, ¬ Decorated done a := by
  simp [top]

variable (hierarchy) in
theorem exists_top (h : Decorated done c) : ∃ t, top hierarchy done c = some t := by
  cases htop : top hierarchy done c with
  | none => exact absurd h (top_eq_none.1 htop c (mem_chain_self c))
  | some t => exact ⟨t, rfl⟩

/-- A decorated class of a chain has the topmost one of it. -/
theorem top_of_mem_chain (hg : hierarchy.Grown) (ha : a ∈ prototypeChain hierarchy c) (hd : Decorated done a) :
    top hierarchy done c = top hierarchy done a := by
  have hsplit : ∃ below, prototypeChain hierarchy c = below ++ prototypeChain hierarchy a := by
    rcases List.mem_cons.1 ha with rfl | ha
    · exact ⟨[], rfl⟩
    · obtain ⟨below, hb⟩ := Forest.exists_ancestors_eq_append hg ha
      exact ⟨c :: below, congrArg (List.cons c) hb⟩
  obtain ⟨below, hb⟩ := hsplit
  obtain ⟨t, htop⟩ := exists_top hierarchy hd
  unfold top at htop ⊢
  rw [hb, List.filter_append, List.getLast?_append, htop, Option.some_or]

theorem top_congr {done' : List (Decoration Class Method)}
    (h : ∀ a ∈ prototypeChain hierarchy c, Decorated done' a ↔ Decorated done a) :
    top hierarchy done' c = top hierarchy done c := by
  unfold top
  rw [List.filter_congr fun a ha => decide_eq_decide.2 (h a ha)]

/-- The topmost class of a decorated one stays, for the bases are decorated first. -/
theorem top_append {rest : List (Decoration Class Method)} (h : Decorated done c)
    (hfirst : ∀ later ∈ rest, later.target ∉ hierarchy.ancestors c) :
    top hierarchy (done ++ rest) c = top hierarchy done c := by
  apply top_congr
  intro a ha
  rw [decorated_append]
  refine or_iff_left_of_imp ?_
  rintro ⟨later, hlater, rfl⟩
  rcases List.mem_cons.1 ha with heq | ha
  · rwa [heq]
  · exact absurd ha (hfirst later hlater)

/-- The topmost class of a chain is its own topmost class. -/
theorem top_top (hg : hierarchy.Grown) (h : top hierarchy done c = some a) : top hierarchy done a = some a := by
  obtain ⟨hmem, hd⟩ := mem_of_top h
  rw [← top_of_mem_chain hg hmem hd, h]

/-- The class of a decoration has the topmost class of its bases or, if none of them is decorated, is it. -/
theorem top_target (hg : hierarchy.Grown) :
    top hierarchy (done ++ [e]) e.target = (top hierarchy done e.target).or (some e.target) := by
  have hself : Decorated (done ++ [e]) e.target := decorated_concat.2 (.inr rfl)
  cases htop : top hierarchy done e.target with
  | none =>
    have hnone := top_eq_none.1 htop
    rw [Option.none_or]
    obtain ⟨t, hnew⟩ := exists_top hierarchy hself
    obtain ⟨hmem, hdec⟩ := mem_of_top hnew
    rcases decorated_concat.1 hdec with h | h
    · exact absurd h (hnone t hmem)
    · rw [hnew, h]
  | some t =>
    obtain ⟨hmem, hdec⟩ := mem_of_top htop
    rw [Option.some_or, ← htop]
    rw [top_of_mem_chain hg hmem hdec, ← top_append hdec fun later hlater hin => ?_]
    · exact top_of_mem_chain hg hmem (decorated_concat.2 (.inl hdec))
    · -- a class is no base of its bases
      rw [List.mem_singleton.1 hlater] at hin
      rcases List.mem_cons.1 hmem with rfl | hmem
      · exact Forest.not_mem_ancestors hg _ hin
      · exact Forest.not_mem_ancestors_of_mem hg hmem hin

/-- Above the topmost class none is decorated. -/
theorem not_decorated_of_top (hg : hierarchy.Grown) (h : top hierarchy done c = some a) {b : Class}
    (hb : b ∈ hierarchy.ancestors a) : ¬ Decorated done b := by
  intro hd
  have htop := top_of_mem_chain hg (List.mem_cons_of_mem a hb) hd
  rw [top_top hg h] at htop
  rcases List.mem_cons.1 (mem_of_top htop.symm).1 with rfl | hin
  · exact Forest.not_mem_ancestors hg a hb
  · exact Forest.not_mem_ancestors_of_mem hg hb hin

end Declarations

/-! ## Shared maps -/

section Maps

/-- What the map of a reference has for a topic. -/
def Runtime.read (s : Runtime Method Store) (map : ℕ) (topic : String) : Option Method :=
  s.maps[map]?.bind (·.lookup topic)

/-- The decorated classes have metadata of their own, and those that share a topmost decorated class, and no
others, share their map. -/
structure Inv (R : ReflectMetadata Class Store) (hierarchy : Forest Class) (done : List (Decoration Class Method))
    (s : Runtime Method Store) : Prop where
  decorated : ∀ c, (R.getOwnMetadata s.metadata c).isSome ↔ Decorated done c
  bound : ∀ c map, R.getOwnMetadata s.metadata c = some map → map < s.maps.length
  shared : ∀ c c', Decorated done c → Decorated done c' →
    (R.getOwnMetadata s.metadata c = R.getOwnMetadata s.metadata c' ↔ top hierarchy done c = top hierarchy done c')

variable {R : ReflectMetadata Class Store} {hierarchy : Forest Class} {metadata : Store}
  {done : List (Decoration Class Method)} {e : Decoration Class Method} {s : Runtime Method Store} {a c t : Class}
  {topic : String} {map : ℕ}

theorem lookup_setTopics (propertyKey : Method) (topic : String) : ∀ (topics : List String) (map : Record Method),
    (setTopics topics propertyKey map).lookup topic = if topic ∈ topics then some propertyKey else map.lookup topic
  | [], map => rfl
  | first :: topics, map => by
    show (setTopics topics propertyKey (map.insert first propertyKey)).lookup topic = _
    rw [lookup_setTopics propertyKey topic topics]
    by_cases hf : topic = first
    · subst hf
      simp
    · rw [AList.lookup_insert_ne hf]
      simp [hf]

theorem Inv.init (hR : R.Lawful hierarchy metadata) :
    Inv R hierarchy [] (⟨metadata, []⟩ : Runtime Method Store) := by
  constructor
  · intro c
    simp [hR.init, Decorated]
  · intro c map h
    rw [hR.init] at h
    cases h
  · intro c c' h
    obtain ⟨e, he, -⟩ := h
    cases he

/-- A class reads the map of the nearest decorated class of its chain, if there is one. -/
theorem Inv.getMetadata_cases (hi : Inv R hierarchy done s) (hR : R.Lawful hierarchy metadata)
    (hc : c ∈ hierarchy.nodes) :
    (R.getMetadata s.metadata c = none ∧ ∀ a ∈ prototypeChain hierarchy c, ¬ Decorated done a) ∨
      ∃ a ∈ prototypeChain hierarchy c, ∃ map, Decorated done a ∧ R.getOwnMetadata s.metadata a = some map ∧
        R.getMetadata s.metadata c = some map := by
  rw [hR.get s.metadata c hc]
  cases hget : (prototypeChain hierarchy c).findSome? (R.getOwnMetadata s.metadata) with
  | none =>
    refine .inl ⟨rfl, fun a ha hd => ?_⟩
    have hsome := (hi.decorated a).2 hd
    rw [List.findSome?_eq_none_iff.1 hget a ha] at hsome
    cases hsome
  | some map =>
    obtain ⟨a, ha, hown⟩ := List.exists_of_findSome?_eq_some hget
    exact .inr ⟨a, ha, map, (hi.decorated a).1 (by rw [hown]; rfl), hown, rfl⟩

/-- A decorated class reads the map of its own. -/
theorem Inv.getMetadata_decorated (hi : Inv R hierarchy done s) (hR : R.Lawful hierarchy metadata)
    (hc : c ∈ hierarchy.nodes) (hd : Decorated done c) :
    R.getMetadata s.metadata c = R.getOwnMetadata s.metadata c := by
  obtain ⟨map, hown⟩ := Option.isSome_iff_exists.1 ((hi.decorated c).2 hd)
  rw [hR.get s.metadata c hc, prototypeChain, List.findSome?_cons, hown]

theorem own_messageHandler (hR : R.Lawful hierarchy metadata) (c : Class) :
    R.getOwnMetadata (messageHandler R s e).metadata c =
      if c = e.target then some (existing R s e.target).1 else R.getOwnMetadata s.metadata c := by
  show R.getOwnMetadata (R.defineMetadata s.metadata (existing R s e.target).1 e.target) c = _
  rw [hR.define, Function.update_apply]

/-- The map that is written: that of the nearest decorated class or, if there is none, a new one. -/
theorem Inv.existing_cases (hi : Inv R hierarchy done s) (hR : R.Lawful hierarchy metadata)
    (hc : c ∈ hierarchy.nodes) :
    (∃ a ∈ prototypeChain hierarchy c, Decorated done a ∧
        R.getOwnMetadata s.metadata a = some (existing R s c).1 ∧ (existing R s c).2 = s.maps) ∨
      ((∀ a ∈ prototypeChain hierarchy c, ¬ Decorated done a) ∧
        existing R s c = (s.maps.length, s.maps ++ [∅])) := by
  unfold existing
  rcases hi.getMetadata_cases hR hc with ⟨hnone, hchain⟩ | ⟨a, ha, map, hd, hown, hget⟩
  · rw [hnone]
    exact .inr ⟨hchain, rfl⟩
  · rw [hget]
    exact .inl ⟨a, ha, hd, hown, rfl⟩

theorem Inv.length_le (hi : Inv R hierarchy done s) (hR : R.Lawful hierarchy metadata)
    (hc : e.target ∈ hierarchy.nodes) : s.maps.length ≤ (messageHandler R s e).maps.length ∧
      (existing R s e.target).1 < (messageHandler R s e).maps.length := by
  have hlen : (messageHandler R s e).maps.length = (existing R s e.target).2.length := List.length_modify ..
  rw [hlen]
  rcases hi.existing_cases hR hc with ⟨a, -, -, hown, hmaps⟩ | ⟨-, hnew⟩
  · rw [hmaps]
    exact ⟨le_rfl, hi.bound a _ hown⟩
  · rw [hnew, List.length_append]
    exact ⟨Nat.le_add_right .., Nat.lt_add_one _⟩

/-- What is written: the topics, in one map. -/
theorem Inv.read_messageHandler (hi : Inv R hierarchy done s) (hR : R.Lawful hierarchy metadata)
    (hc : e.target ∈ hierarchy.nodes) (map : ℕ) (topic : String) : (messageHandler R s e).read map topic =
      if map = (existing R s e.target).1 ∧ topic ∈ e.topics then some e.propertyKey else s.read map topic := by
  have hread : ((existing R s e.target).2[map]?).bind (·.lookup topic) = s.read map topic ∧
      ((existing R s e.target).2[(existing R s e.target).1]?).isSome := by
    rcases hi.existing_cases hR hc with ⟨a, -, -, hown, hmaps⟩ | ⟨-, hnew⟩
    · rw [hmaps]
      exact ⟨rfl, by simpa using hi.bound a _ hown⟩
    · rw [hnew]
      refine ⟨?_, by simp⟩
      unfold Runtime.read
      rcases Nat.lt_trichotomy map s.maps.length with hlt | rfl | hgt
      · rw [List.getElem?_append_left hlt]
      · simp
      · rw [List.getElem?_eq_none (by simpa using Nat.succ_le_of_lt hgt), List.getElem?_eq_none hgt.le]
  have hmaps : (messageHandler R s e).maps =
      (existing R s e.target).2.modify (existing R s e.target).1 (setTopics e.topics e.propertyKey) := rfl
  rw [← hread.1, Runtime.read, hmaps, List.getElem?_modify]
  by_cases hm : map = (existing R s e.target).1
  · subst hm
    obtain ⟨m, hm⟩ := Option.isSome_iff_exists.1 hread.2
    rw [hm]
    simp [lookup_setTopics]
  · simp [hm, Ne.symm hm]

/-- A decoration keeps the invariant: its class joins the family of its bases or founds one. -/
theorem Inv.step (hi : Inv R hierarchy done s) (hR : R.Lawful hierarchy metadata) (hg : hierarchy.Grown)
    (hc : e.target ∈ hierarchy.nodes)
    (hfirst : ∀ c, Decorated done c → ∀ later ∈ [e], later.target ∉ hierarchy.ancestors c) :
    Inv R hierarchy (done ++ [e]) (messageHandler R s e) := by
  obtain ⟨hlen, hmap⟩ := hi.length_le hR hc
  -- the class of the decoration against another one
  have htarget : ∀ c, c ≠ e.target → Decorated done c →
      (R.getOwnMetadata (messageHandler R s e).metadata c = R.getOwnMetadata (messageHandler R s e).metadata e.target ↔
        top hierarchy (done ++ [e]) c = top hierarchy (done ++ [e]) e.target) := by
    intro c hne hd
    rw [own_messageHandler hR, own_messageHandler hR, if_neg hne, if_pos rfl, top_append hd (hfirst c hd),
      top_target hg]
    rcases hi.existing_cases hR hc with ⟨a, ha, hda, hown, -⟩ | ⟨hchain, hnew⟩
    · have htop := top_of_mem_chain hg ha hda
      obtain ⟨t, hta⟩ := exists_top hierarchy hda
      rw [← hown, htop, hi.shared c a hd hda, hta, Option.some_or]
    · rw [hnew, top_eq_none.2 hchain]
      refine iff_of_false (fun h => ?_) fun h => ?_
      · exact absurd (hi.bound c _ h) (Nat.lt_irrefl _)
      · exact hchain e.target (mem_chain_self _) (mem_of_top h).2
  constructor
  · intro c
    rw [own_messageHandler hR, decorated_concat]
    by_cases h : c = e.target
    · simp [h]
    · rw [if_neg h, hi.decorated c]
      exact (or_iff_left (Ne.symm h)).symm
  · intro c map h
    rw [own_messageHandler hR] at h
    split at h
    · cases h
      exact hmap
    · exact (hi.bound c map h).trans_le hlen
  · intro c c' hd hd'
    by_cases h : c = e.target
    · subst h
      by_cases h' : c' = e.target
      · rw [h']
        exact iff_of_true rfl rfl
      · rw [eq_comm, htarget c' h' ((decorated_concat.1 hd').resolve_right (Ne.symm h')), eq_comm]
    · have hd := (decorated_concat.1 hd).resolve_right (Ne.symm h)
      by_cases h' : c' = e.target
      · subst h'
        exact htarget c h hd
      · have hd' := (decorated_concat.1 hd').resolve_right (Ne.symm h')
        rw [own_messageHandler hR, own_messageHandler hR, if_neg h, if_neg h', top_append hd (hfirst c hd),
          top_append hd' (hfirst c' hd')]
        exact hi.shared c c' hd hd'

/-- After a decoration the map it has written is that of the classes with its topmost class. -/
theorem Inv.written_iff (hi' : Inv R hierarchy (done ++ [e]) (messageHandler R s e)) (hR : R.Lawful hierarchy metadata)
    (hd : Decorated (done ++ [e]) c) :
    R.getOwnMetadata (messageHandler R s e).metadata c = some (existing R s e.target).1 ↔
      top hierarchy (done ++ [e]) c = top hierarchy (done ++ [e]) e.target := by
  have hshared := hi'.shared c e.target hd (decorated_concat.2 (.inr rfl))
  rwa [own_messageHandler hR e.target, if_pos rfl] at hshared

end Maps

/-! ## When they are free of leaks -/

section Leaks

variable {R : ReflectMetadata Class Store} {metadata : Store} {p : Program Class Method}
  {done rest : List (Decoration Class Method)} {e : Decoration Class Method} {s : Runtime Method Store} {a c t : Class}

/-- A class whose bases are decorated declares nothing but what the topmost of them declares itself. -/
def Repeats (p : Program Class Method) : Prop :=
  ∀ e ∈ p.decorations, ∀ t, top p.hierarchy p.decorations e.target = some t → t ≠ e.target →
    ∀ topic ∈ e.topics, declared p.decorations t topic = some e.propertyKey

theorem Program.first (h : p.decorations = done ++ rest) (hd : Decorated done c) :
    ∀ later ∈ rest, later.target ∉ p.hierarchy.ancestors c := by
  obtain ⟨e, he, rfl⟩ := hd
  have hpair := p.baseFirst
  rw [h, List.pairwise_append] at hpair
  exact hpair.2.2 e he

theorem Program.mem_decorations (h : p.decorations = done ++ e :: rest) : e ∈ p.decorations := by
  rw [h]
  exact List.mem_append_right done (List.mem_cons_self ..)

/-- Once a class is decorated, its topmost class is the one it has in the end. -/
theorem Program.top_all (h : p.decorations = done ++ rest) (hd : Decorated done c) :
    top p.hierarchy p.decorations c = top p.hierarchy done c := by
  rw [h]
  exact top_append hd (p.first h hd)

theorem Program.top_concat (h : p.decorations = done ++ e :: rest) (hd : Decorated done c) :
    top p.hierarchy (done ++ [e]) c = top p.hierarchy done c := by
  rw [← p.top_all (h.trans (List.append_cons ..)) (decorated_concat.2 (.inl hd)), p.top_all h hd]

/-- Once a class below it is decorated, a class is decorated no more. -/
theorem Program.not_decorated (h : p.decorations = done ++ rest) (hd : Decorated done c)
    (ha : a ∈ p.hierarchy.ancestors c) : ¬ Decorated rest a := by
  rintro ⟨later, hlater, rfl⟩
  exact p.first h hd later hlater ha

theorem inv_evaluate (hR : R.Lawful p.hierarchy metadata) (h : p.decorations = done ++ rest) :
    Inv R p.hierarchy done (evaluate R metadata done) := by
  induction done using List.reverseRecOn generalizing rest with
  | nil => exact Inv.init hR
  | append_singleton done e ih =>
    rw [List.append_assoc] at h
    have hstep := (ih h).step (e := e) hR p.grown (p.targets e (p.mem_decorations h)) fun c hc later hlater =>
      p.first h hc later (List.mem_append_left rest hlater)
    unfold evaluate at hstep ⊢
    rwa [List.foldl_concat]

/-- What a class below its topmost one declares, that one has declared before. -/
theorem declared_of_repeats (hrep : Repeats p) (hp : p.decorations = done ++ e :: rest)
    (htop : top p.hierarchy (done ++ [e]) e.target = some t) (hne : t ≠ e.target) {topic : String}
    (ht : topic ∈ e.topics) : declared done t topic = some e.propertyKey := by
  have hp' : p.decorations = done ++ [e] ++ rest := hp.trans (List.append_cons ..)
  have hself : Decorated (done ++ [e]) e.target := decorated_concat.2 (.inr rfl)
  have hmem : t ∈ p.hierarchy.ancestors e.target := (List.mem_cons.1 (mem_of_top htop).1).resolve_left hne
  have hdecl := hrep e (p.mem_decorations hp) t ((p.top_all hp' hself).trans htop) hne topic ht
  rwa [hp', declared_append (p.not_decorated hp' hself hmem), declared_concat, if_neg fun h => hne h.1.symm] at hdecl

/-- Each map has what its topmost class declares. -/
def Content (R : ReflectMetadata Class Store) (p : Program Class Method) (done : List (Decoration Class Method))
    (s : Runtime Method Store) : Prop :=
  ∀ c map t, R.getOwnMetadata s.metadata c = some map → top p.hierarchy done c = some t →
    ∀ topic, s.read map topic = declared done t topic

theorem Content.step (hR : R.Lawful p.hierarchy metadata) (hp : p.decorations = done ++ e :: rest)
    (hrep : Repeats p) (hi : Inv R p.hierarchy done s) (hi' : Inv R p.hierarchy (done ++ [e]) (messageHandler R s e))
    (hs : Content R p done s) : Content R p (done ++ [e]) (messageHandler R s e) := by
  have hc : e.target ∈ p.hierarchy.nodes := p.targets e (p.mem_decorations hp)
  intro c map t hown htop topic
  have hdc : Decorated (done ++ [e]) c := (hi'.decorated c).1 (by rw [hown]; rfl)
  rw [hi.read_messageHandler hR hc, declared_concat]
  by_cases hm : map = (existing R s e.target).1
  · -- the map that is written: its topmost class is that of the decoration
    subst hm
    have hfam : top p.hierarchy (done ++ [e]) e.target = some t := by rw [← htop, (hi'.written_iff hR hdc).1 hown]
    by_cases ht : topic ∈ e.topics
    · rw [if_pos ⟨rfl, ht⟩]
      by_cases hte : e.target = t
      · rw [if_pos ⟨hte, ht⟩]
      · rw [if_neg fun h => hte h.1]
        exact (declared_of_repeats hrep hp hfam (Ne.symm hte) ht).symm
    · rw [if_neg fun h => ht h.2, if_neg fun h => ht h.2]
      rw [top_target p.grown] at hfam
      rcases hi.existing_cases hR hc with ⟨a, ha, hda, howna, -⟩ | ⟨hchain, hnew⟩
      · obtain ⟨t', htopa⟩ := exists_top p.hierarchy hda
        rw [top_of_mem_chain p.grown ha hda, htopa] at hfam
        cases hfam
        exact hs a _ _ howna htopa topic
      · -- a new map is empty, and its class has not declared anything
        rw [top_eq_none.2 hchain] at hfam
        cases hfam
        rw [declared_eq_none (hchain e.target (mem_chain_self _)), hnew, Runtime.read, List.getElem?_eq_none le_rfl]
        rfl
  · -- another map, with another topmost class
    have hother : top p.hierarchy (done ++ [e]) c ≠ top p.hierarchy (done ++ [e]) e.target := by
      intro heq
      have hwritten := (hi'.written_iff hR hdc).2 heq
      rw [hown] at hwritten
      exact hm (Option.some.inj hwritten)
    have hte : e.target ≠ t := by
      rintro rfl
      exact hother (htop.trans (top_top p.grown htop).symm)
    have hne : c ≠ e.target := by
      rintro rfl
      exact hother rfl
    have hdone : Decorated done c := (decorated_concat.1 hdc).resolve_right (Ne.symm hne)
    rw [own_messageHandler hR, if_neg hne] at hown
    rw [p.top_concat hp hdone] at htop
    rw [if_neg fun h => hm h.1, if_neg fun h => hte h.1]
    exact hs c map t hown htop topic

theorem content_evaluate (hR : R.Lawful p.hierarchy metadata) (hrep : Repeats p) (h : p.decorations = done ++ rest) :
    Content R p done (evaluate R metadata done) := by
  induction done using List.reverseRecOn generalizing rest with
  | nil =>
    intro c map t hown
    have hnone : R.getOwnMetadata (evaluate R metadata ([] : List (Decoration Class Method))).metadata c = none :=
      hR.init c
    rw [hnone] at hown
    cases hown
  | append_singleton done e ih =>
    have hi' := inv_evaluate hR h
    rw [List.append_assoc] at h
    have hstep := Content.step hR h hrep (inv_evaluate hR h) (e := e)
    unfold evaluate at hstep hi' ⊢
    rw [List.foldl_concat] at hi' ⊢
    exact hstep hi' (ih h)

omit [DecidableEq Class] in
theorem methodFor_eq (c : Class) (topic : String) :
    methodFor R s c topic = (R.getMetadata s.metadata c).bind fun map => s.read map topic :=
  Option.bind_assoc ..

omit [DecidableEq Class] in
theorem evaluate_concat : evaluate R metadata (done ++ [e]) = messageHandler R (evaluate R metadata done) e :=
  List.foldl_concat ..

/-- Classes that repeat what the topmost one declares inherit it. -/
theorem expected_eq (hrep : Repeats p) (htop : top p.hierarchy p.decorations c = some t) (topic : String) :
    expected p c topic = declared p.decorations t topic := by
  unfold expected
  cases hfind : (prototypeChain p.hierarchy c).findSome? fun a => declared p.decorations a topic with
  | none => exact (List.findSome?_eq_none_iff.1 hfind t (mem_of_top htop).1).symm
  | some m =>
    obtain ⟨b, hb, hm⟩ := List.exists_of_findSome?_eq_some hfind
    obtain ⟨e, he, rfl, ht, rfl⟩ := mem_of_declared hm
    by_cases hte : t = e.target
    · rw [hte, hm]
    · have htop' := top_of_mem_chain p.grown hb ⟨e, he, rfl⟩
      exact (hrep e he t (by rw [← htop', htop]) hte topic ht).symm

theorem methodFor_eq_expected (hR : R.Lawful p.hierarchy metadata) (hrep : Repeats p) (hc : c ∈ p.hierarchy.nodes)
    (topic : String) : methodFor R (evaluate R metadata p.decorations) c topic = expected p c topic := by
  have hp : p.decorations = p.decorations ++ [] := (List.append_nil _).symm
  have hi := inv_evaluate hR hp
  rw [methodFor_eq]
  rcases hi.getMetadata_cases hR hc with ⟨hnone, hchain⟩ | ⟨a, ha, map, hd, hown, hget⟩
  · rw [hnone, expected, List.findSome?_eq_none_iff.2 fun a ha => declared_eq_none (hchain a ha) topic]
    rfl
  · have htopa := top_of_mem_chain p.grown ha hd
    obtain ⟨t, htop⟩ := exists_top p.hierarchy hd
    rw [hget, Option.bind_some, content_evaluate hR hrep hp a map t hown htop]
    exact (expected_eq hrep (htopa.trans htop) topic).symm

theorem getMetadata_congr (hR : R.Lawful p.hierarchy metadata) (hc : c ∈ p.hierarchy.nodes) {m m' : Store}
    (h : ∀ a ∈ prototypeChain p.hierarchy c, R.getOwnMetadata m' a = R.getOwnMetadata m a) :
    R.getMetadata m' c = R.getMetadata m c := by
  rw [hR.get m' c hc, hR.get m c hc]
  generalize prototypeChain p.hierarchy c = chain at h
  induction chain with
  | nil => rfl
  | cons a chain ih =>
    rw [List.findSome?_cons, List.findSome?_cons, h a (List.mem_cons_self ..),
      ih fun b hb => h b (List.mem_cons_of_mem a hb)]

/-- A decoration that repeats what the topmost class declares changes no map. -/
theorem methodFor_concat (hR : R.Lawful p.hierarchy metadata) (hrep : Repeats p)
    (hp : p.decorations = done ++ e :: rest) (hc : c ∈ p.hierarchy.nodes)
    (hout : e.target ∉ prototypeChain p.hierarchy c) (topic : String) :
    methodFor R (evaluate R metadata (done ++ [e])) c topic = methodFor R (evaluate R metadata done) c topic := by
  have hp' : p.decorations = done ++ [e] ++ rest := hp.trans (List.append_cons ..)
  have hi := inv_evaluate hR hp
  have hi' := inv_evaluate hR hp'
  have htarget : e.target ∈ p.hierarchy.nodes := p.targets e (p.mem_decorations hp)
  have hne : ∀ a ∈ prototypeChain p.hierarchy c, a ≠ e.target := by
    rintro a ha rfl
    exact hout ha
  rw [evaluate_concat] at hi' ⊢
  have hsame : R.getMetadata (messageHandler R (evaluate R metadata done) e).metadata c =
      R.getMetadata (evaluate R metadata done).metadata c := by
    apply getMetadata_congr hR hc
    intro a ha
    rw [own_messageHandler hR, if_neg (hne a ha)]
  rw [methodFor_eq, methodFor_eq, hsame]
  rcases hi.getMetadata_cases hR hc with ⟨hnone, -⟩ | ⟨a, ha, map, hd, hown, hget⟩
  · rw [hnone]
    rfl
  · rw [hget, Option.bind_some, Option.bind_some, hi.read_messageHandler hR htarget]
    split
    · -- the map is shared with the class of the decoration, below the topmost class of both
      rename_i hwrite
      have hda : Decorated (done ++ [e]) a := decorated_concat.2 (.inl hd)
      have hwritten : R.getOwnMetadata (messageHandler R (evaluate R metadata done) e).metadata a =
          some (existing R (evaluate R metadata done) e.target).1 := by
        rw [own_messageHandler hR, if_neg (hne a ha), hown, hwrite.1]
      obtain ⟨t, htop⟩ := exists_top p.hierarchy hda
      have htc : t ≠ e.target := hne t (mem_of_top ((top_of_mem_chain p.grown ha hda).trans htop)).1
      have hdecl := declared_of_repeats hrep hp (((hi'.written_iff hR hda).1 hwritten).symm.trans htop) htc hwrite.2
      rw [p.top_concat hp hd] at htop
      rw [content_evaluate hR hrep hp a map t hown htop, hdecl]
    · rfl

theorem mem_of_mem_foldl {bound : Method → Option PlainHandler} {topic : String} :
    ∀ {entries : List (Sigma fun _ : String => Method)} {onPlain : Record PlainHandler},
      topic ∈ entries.foldl (register bound) onPlain → topic ∈ onPlain ∨ topic ∈ entries.keys
  | [], _, h => .inl h
  | e :: entries, onPlain, h => by
    rw [List.foldl_cons] at h
    rw [List.keys_cons, List.mem_cons]
    rcases mem_of_mem_foldl h with h | h
    · unfold register at h
      split at h
      · split at h
        · exact .inl h
        · rw [AList.mem_insert] at h
          rcases h with h | h
          · exact .inr (.inl h)
          · exact .inl h
      · exact .inl h
    · exact .inr (.inr h)

/-- What is registered is in the map. -/
theorem mem_of_mem_onPlain {bound : Method → Option PlainHandler} {messageHandlerMap : Option (Record Method)}
    {topic : String} (h : topic ∈ onPlain bound messageHandlerMap) :
    (messageHandlerMap.bind (·.lookup topic)).isSome := by
  cases messageHandlerMap with
  | none => exact absurd h (AList.notMem_empty topic)
  | some map =>
    rw [Option.bind_some, AList.lookup_isSome]
    exact (mem_of_mem_foldl h).resolve_left (AList.notMem_empty topic)

/-- The entries of a map are registered under their topics. -/
theorem lookup_foldl_register (bound : Method → Option PlainHandler) (topic : String) :
    ∀ {entries : List (Sigma fun _ : String => Method)} {record : Record PlainHandler}, entries.NodupKeys →
      (entries.foldl (register bound) record).lookup topic =
        if topic = "__proto__" then record.lookup topic
        else ((entries.dlookup topic).bind bound).or (record.lookup topic)
  | [], record, _ => by simp
  | ⟨name, value⟩ :: entries, record, hn => by
    rw [List.nodupKeys_cons] at hn
    rw [List.foldl_cons, lookup_foldl_register bound topic hn.2]
    by_cases hproto : topic = "__proto__"
    · subst hproto
      rw [if_pos rfl, if_pos rfl]
      unfold register
      cases bound value with
      | none => rfl
      | some method =>
        by_cases hname : name = "__proto__"
        · simp [hname]
        · simp [hname, AList.lookup_insert_ne (Ne.symm hname)]
    · rw [if_neg hproto, if_neg hproto]
      by_cases hname : topic = name
      · subst hname
        -- the topic has no later entry
        rw [List.dlookup_eq_none.2 hn.1, Option.bind_none, Option.none_or, List.dlookup_cons_eq, Option.bind_some]
        unfold register
        cases hb : bound value with
        | none => simp
        | some method => simp [hproto]
      · rw [List.dlookup_cons_ne _ _ hname]
        congr 1
        unfold register
        cases bound value with
        | none => rfl
        | some method =>
          by_cases hkey : name = "__proto__"
          · simp [hkey]
          · simp [hkey, AList.lookup_insert_ne hname]

/-- What is registered for a topic: the method of the map, where it is a function. -/
theorem lookup_onPlain {bound : Method → Option PlainHandler} {map : Option (Record Method)} {topic : String}
    {method : PlainHandler} : (onPlain bound map).lookup topic = some method ↔
      ∃ name, map.bind (·.lookup topic) = some name ∧ bound name = some method ∧ topic ≠ "__proto__" := by
  unfold onPlain
  cases map with
  | none => simp
  | some map =>
    dsimp only
    rw [lookup_foldl_register bound topic map.nodupKeys]
    by_cases hproto : topic = "__proto__"
    · simp [hproto]
    · rw [if_neg hproto, AList.lookup_empty, Option.or_none, Option.bind_eq_some_iff]
      simp only [hproto, ne_eq, not_false_eq_true, and_true]
      exact Iff.rfl

/-- Without leaks, what is in the map of a base stays once a class below it is decorated. -/
theorem methodFor_stays (h : LeakFree R metadata p) (hd : Decorated done c) (ht : t ∈ p.hierarchy.ancestors c)
    (topic : String) {mid : List (Decoration Class Method)} (hp : p.decorations = done ++ mid ++ rest) :
    methodFor R (evaluate R metadata (done ++ mid)) t topic = methodFor R (evaluate R metadata done) t topic := by
  induction mid using List.reverseRecOn generalizing rest with
  | nil => rw [List.append_nil]
  | append_singleton mid later ih =>
    have hstep : p.decorations = done ++ mid ++ later :: rest := by rw [hp]; simp
    rw [← List.append_assoc, h.frame _ later rest hstep t (Forest.ancestors_subset p.grown _ t ht), ih hstep]
    -- the decoration is of no base of a class that is decorated
    intro hin
    have hbase := p.first (hstep.trans (List.append_assoc ..)) hd later (by simp)
    rcases List.mem_cons.1 hin with heq | hin
    · exact hbase (by rwa [heq])
    · obtain ⟨below, hb⟩ := Forest.exists_ancestors_eq_append p.grown ht
      rw [hb] at hbase
      exact hbase (List.mem_append_right below (List.mem_cons_of_mem t hin))

/-- Without leaks, what a class declares stays in the map of the topmost class above it, which declares it. -/
theorem repeats_of_leakFree (hR : R.Lawful p.hierarchy metadata) (h : LeakFree R metadata p) : Repeats p := by
  intro e he t hall hne topic ht
  obtain ⟨done, rest, hp⟩ := List.append_of_mem he
  have hp' : p.decorations = done ++ [e] ++ rest := hp.trans (List.append_cons ..)
  have hself : Decorated (done ++ [e]) e.target := decorated_concat.2 (.inr rfl)
  have htop : top p.hierarchy (done ++ [e]) e.target = some t := by rw [← p.top_all hp' hself, hall]
  have hmem : t ∈ p.hierarchy.ancestors e.target := (List.mem_cons.1 (mem_of_top htop).1).resolve_left hne
  have hnode : t ∈ p.hierarchy.nodes := Forest.ancestors_subset p.grown _ t hmem
  -- the decoration has written into the map of the topmost class
  have hwritten : methodFor R (evaluate R metadata (done ++ [e])) t topic = some e.propertyKey := by
    have hi := inv_evaluate hR hp
    have hi' := inv_evaluate hR hp'
    have hdt := (mem_of_top htop).2
    rw [methodFor_eq, hi'.getMetadata_decorated hR hnode hdt]
    rw [evaluate_concat] at hi' ⊢
    rw [(hi'.written_iff hR hdt).2 ((top_top p.grown htop).trans htop.symm), Option.bind_some,
      hi.read_messageHandler hR (p.targets e he)]
    exact if_pos ⟨rfl, ht⟩
  have hstays := methodFor_stays h hself hmem topic (hp'.trans (List.append_nil _).symm)
  have hfinal := hstays.trans hwritten
  rw [← hp', h.pairs t hnode topic, expected, prototypeChain, List.findSome?_cons] at hfinal
  cases hdecl : declared p.decorations t topic with
  | some m => rwa [hdecl] at hfinal
  | none =>
    -- nor does a base of the topmost class declare it
    rw [hdecl] at hfinal
    obtain ⟨b, hb, hm⟩ := List.exists_of_findSome?_eq_some hfinal
    rw [declared_eq_none (not_decorated_of_top p.grown hall hb)] at hm
    cases hm

/-- The maps are free of leaks exactly when no class that shares the map of another one declares anything
that is not there already. -/
theorem leakFree_iff (hR : R.Lawful p.hierarchy metadata) : LeakFree R metadata p ↔ Repeats p := by
  constructor
  · exact repeats_of_leakFree hR
  · intro hrep
    refine ⟨fun c hc topic => methodFor_eq_expected hR hrep hc topic,
      fun done e rest hp c hc hout topic => methodFor_concat hR hrep hp hc hout topic, fun c hc _ bound topic hmem => ?_⟩
    rw [← methodFor_eq_expected hR hrep hc topic]
    exact mem_of_mem_onPlain hmem

end Leaks

/-! ## Participants with a common base -/

/-- reflect-metadata over the metadata of each class. -/
def reflect (hierarchy : Forest Class) : ReflectMetadata Class (Class → Option ℕ) where
  getMetadata s c := (prototypeChain hierarchy c).findSome? s
  getOwnMetadata s c := s c
  defineMetadata s map c := Function.update s c (some map)

theorem reflect_lawful (hierarchy : Forest Class) : (reflect hierarchy).Lawful hierarchy fun _ => none :=
  ⟨fun _ => rfl, fun _ _ _ => rfl, fun _ _ _ => rfl⟩

/-- A class that repeats a pair of its base, and one that has nothing to do with them. -/
def repeating : Program String String where
  hierarchy := [("PaymentsParticipant", none), ("OrdersParticipant", some "AuditedParticipant"),
    ("AuditedParticipant", none)]
  grown := ⟨by decide, by simp, by decide, by decide, by decide, by simp, trivial⟩
  decorations := [⟨"AuditedParticipant", ["audit.legacy", "orders.legacy"], "audit"⟩,
    ⟨"OrdersParticipant", ["audit.legacy"], "audit"⟩,
    ⟨"PaymentsParticipant", ["payments.legacy", "refunds.legacy"], "handle"⟩]
  targets := by decide
  baseFirst := by decide

/-- The first two share a map, to which the derived class adds nothing. -/
theorem repeating_leakFree : LeakFree (reflect repeating.hierarchy) (fun _ => none) repeating := by
  have hrep : ∀ e ∈ repeating.decorations, ∀ t ∈ top repeating.hierarchy repeating.decorations e.target,
      t ≠ e.target → ∀ topic ∈ e.topics, declared repeating.decorations t topic = some e.propertyKey := by decide
  exact (leakFree_iff (reflect_lawful repeating.hierarchy)).2 hrep

/-- Two classes with a decorated base. -/
def siblings : Program String String where
  hierarchy := [("PaymentsParticipant", some "AuditedParticipant"), ("OrdersParticipant", some "AuditedParticipant"),
    ("AuditedParticipant", none)]
  grown := ⟨by decide, by decide, by decide, by decide, by decide, nofun, trivial⟩
  decorations := [⟨"AuditedParticipant", ["audit.legacy"], "audit"⟩,
    ⟨"OrdersParticipant", ["orders.legacy"], "handle"⟩, ⟨"PaymentsParticipant", ["payments.legacy"], "handle"⟩]
  targets := by decide
  baseFirst := by decide

/-- When their module has been loaded. -/
def siblingsLoaded : Runtime String (String → Option ℕ) :=
  evaluate (reflect siblings.hierarchy) (fun _ => none) siblings.decorations

/-- The one is registered for the topic of the other, for which it has declared nothing. -/
theorem siblings_leak :
    methodFor (reflect siblings.hierarchy) siblingsLoaded "OrdersParticipant" "payments.legacy" = some "handle" ∧
      "payments.legacy" ∈ onPlain some (messageHandlerMap (reflect siblings.hierarchy) siblingsLoaded
        "OrdersParticipant") ∧
      expected siblings "OrdersParticipant" "payments.legacy" = none ∧
      ¬ LeakFree (reflect siblings.hierarchy) (fun _ => none) siblings := by
  have hregistered : "payments.legacy" ∈
      onPlain some (messageHandlerMap (reflect siblings.hierarchy) siblingsLoaded "OrdersParticipant") := by decide
  have hexpected : expected siblings "OrdersParticipant" "payments.legacy" = none := by decide
  refine ⟨by decide, hregistered, hexpected, fun h => ?_⟩
  have hdeclared := h.registered "OrdersParticipant" (by decide) some "payments.legacy" hregistered
  rw [hexpected] at hdeclared
  cases hdeclared

end Saga.Nest
