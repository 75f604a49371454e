/-
Finite runs of a labelled transition system given by a partial step function, the induction
rules for what every step preserves, and logs each entry of which is justified by the entries
before it.
-/
import Mathlib.Data.List.Basic
import Mathlib.Data.List.Induction

namespace Lts

variable {σ α ε : Type*}

/-! ## Runs -/

/-- The state after a list of actions; `none` as soon as one of them is not enabled. -/
def run (step : σ → α → Option σ) (s : σ) (as : List α) : Option σ := as.foldlM step s

/-- `s'` is reached from `s` by some run. -/
def Reachable (step : σ → α → Option σ) (s s' : σ) : Prop := ∃ as, run step s as = some s'

/-- Every action of a run is taken in a state that allows it in the sense of `C`. -/
def Each (step : σ → α → Option σ) (C : σ → α → Prop) : σ → List α → Prop
  | _, [] => True
  | s, a :: as => C s a ∧ ∀ s', step s a = some s' → Each step C s' as

/-- `Each` for a condition that can be computed. -/
def eachB (step : σ → α → Option σ) (c : σ → α → Bool) : σ → List α → Bool
  | _, [] => true
  | s, a :: as => c s a && (step s a).all (eachB step c · as)

theorem each_of_eachB (step : σ → α → Option σ) {C : σ → α → Prop} (c : σ → α → Bool)
    (hc : ∀ s a, c s a = true → C s a) : ∀ (as : List α) (s : σ), eachB step c s as = true → Each step C s as
  | [], _, _ => trivial
  | a :: as, s, h => by
    rw [eachB, Bool.and_eq_true] at h
    refine ⟨hc s a h.1, fun s' hs => each_of_eachB step c hc as s' ?_⟩
    rw [hs, Option.all_some] at h
    exact h.2

/-- A run that can be computed, and a test its last state passes. -/
theorem exists_of_run (step : σ → α → Option σ) (s : σ) (as : List α) (p : σ → Bool) (h : (run step s as).any p = true) :
    ∃ s', run step s as = some s' ∧ p s' = true := by
  obtain ⟨s', hs, hp⟩ := (Option.any_eq_true p _).1 h
  exact ⟨s', hs, hp⟩

variable {step : σ → α → Option σ}

@[simp] theorem run_nil (s : σ) : run step s [] = some s := rfl

theorem run_cons (s : σ) (a : α) (as : List α) :
    run step s (a :: as) = (step s a).bind (run step · as) := by
  unfold run; rw [List.foldlM_cons]; rfl

theorem run_append (s : σ) (as bs : List α) :
    run step s (as ++ bs) = (run step s as).bind (run step · bs) := by
  unfold run; rw [List.foldlM_append]; rfl

/-- A run of at least one action: its first step, then a run of the rest. -/
theorem run_cons_some {s s' : σ} {a : α} {as : List α} :
    run step s (a :: as) = some s' ↔ ∃ t, step s a = some t ∧ run step t as = some s' := by
  rw [run_cons, Option.bind_eq_some_iff]

theorem run_append_some {s s' : σ} {as bs : List α} :
    run step s (as ++ bs) = some s' ↔ ∃ t, run step s as = some t ∧ run step t bs = some s' := by
  rw [run_append, Option.bind_eq_some_iff]

theorem Reachable.refl (s : σ) : Reachable step s s := ⟨[], rfl⟩

theorem Reachable.head {s t s' : σ} {a : α} (h : step s a = some t) (hr : Reachable step t s') :
    Reachable step s s' := by
  obtain ⟨as, has⟩ := hr
  exact ⟨a :: as, run_cons_some.2 ⟨t, h, has⟩⟩

theorem Reachable.trans {s t s' : σ} (h : Reachable step s t) (h' : Reachable step t s') :
    Reachable step s s' := by
  obtain ⟨as, has⟩ := h
  obtain ⟨bs, hbs⟩ := h'
  exact ⟨as ++ bs, run_append_some.2 ⟨t, has, hbs⟩⟩

/-! ## Invariants -/

/-- What every step taken where `C` allows it preserves, every such run preserves. -/
theorem run_each_induction {C : σ → α → Prop} {I : σ → Prop}
    (hstep : ∀ s a s', I s → C s a → step s a = some s' → I s') :
    ∀ {as : List α} {s s' : σ}, I s → Each step C s as → run step s as = some s' → I s'
  | [], s, s', hs, _, h => by
    rw [run_nil] at h
    cases h; exact hs
  | a :: as, s, s', hs, hC, h => by
    obtain ⟨t, ht, h⟩ := run_cons_some.1 h
    exact run_each_induction hstep (hstep s a t hs hC.1 ht) (hC.2 t ht) h

theorem each_true : ∀ (as : List α) (s : σ), Each step (fun _ _ => True) s as
  | [], _ => trivial
  | _ :: as, _ => ⟨trivial, fun s' _ => each_true as s'⟩

/-- What every step preserves, every run preserves. -/
theorem run_induction {I : σ → Prop} (hstep : ∀ s a s', I s → step s a = some s' → I s')
    {as : List α} {s s' : σ} (hs : I s) (h : run step s as = some s') : I s' :=
  run_each_induction (fun s a s' hs _ h => hstep s a s' hs h) hs (each_true as s) h

theorem Reachable.induction {I : σ → Prop} (hstep : ∀ s a s', I s → step s a = some s' → I s')
    {s s' : σ} (hs : I s) (h : Reachable step s s') : I s' := by
  obtain ⟨as, has⟩ := h
  exact run_induction hstep hs has

/-- What holds of the empty history and is extended by every step holds of the history of a run. -/
theorem run_history {I : List α → σ → Prop} (hstep : ∀ as s a s', I as s → step s a = some s' → I (as ++ [a]) s')
    {s₀ s : σ} {as : List α} (h₀ : I [] s₀) (h : run step s₀ as = some s) : I as s := by
  induction as using List.reverseRecOn generalizing s with
  | nil =>
    rw [run_nil] at h
    cases h; exact h₀
  | append_singleton as a ih =>
    obtain ⟨t, ht, hlast⟩ := run_append_some.1 h
    obtain ⟨u, hu, hrest⟩ := run_cons_some.1 hlast
    rw [run_nil] at hrest
    cases hrest; exact hstep as t a s (ih ht) hu

/-- The condition holds where an action of the run is taken. -/
theorem Each.at {C : σ → α → Prop} : ∀ {as bs : List α} {a : α} {s t : σ},
    Each step C s (as ++ a :: bs) → run step s as = some t → C t a
  | [], _, _, s, t, hC, h => by
    rw [run_nil] at h
    cases h; exact hC.1
  | x :: as, _, _, s, t, hC, h => by
    obtain ⟨u, hu, h⟩ := run_cons_some.1 h
    exact Each.at (hC.2 u hu) h

theorem each_cons_iff {C : σ → α → Prop} {s t : σ} {a : α} {as : List α} (ht : step s a = some t) :
    Each step C s (a :: as) ↔ C s a ∧ Each step C t as := by
  constructor
  · rintro ⟨hc, hr⟩
    exact ⟨hc, hr t ht⟩
  · rintro ⟨hc, hr⟩
    refine ⟨hc, fun t' ht' => ?_⟩
    rw [ht] at ht'
    cases ht'; exact hr

/-- A condition on the actions alone is one on each action of the run. -/
theorem each_forall_iff {C : α → Prop} : ∀ {as : List α} {s s' : σ}, run step s as = some s' →
    (Each step (fun _ a => C a) s as ↔ ∀ a ∈ as, C a)
  | [], _, _, _ => by simp [Each]
  | a :: as, s, s', h => by
    obtain ⟨t, ht, h⟩ := run_cons_some.1 h
    rw [each_cons_iff ht, each_forall_iff h, List.forall_mem_cons]

/-- Conditions that are equivalent where an invariant holds are met by the same runs. -/
theorem each_congr_of {I : σ → Prop} {C D : σ → α → Prop} (hI : ∀ s a s', I s → step s a = some s' → I s')
    (hCD : ∀ s a, I s → (C s a ↔ D s a)) : ∀ {as : List α} {s : σ}, I s → (Each step C s as ↔ Each step D s as)
  | [], _, _ => Iff.rfl
  | a :: as, s, hi => by
    have hrest : ∀ s', step s a = some s' → (Each step C s' as ↔ Each step D s' as) := fun s' hs =>
      each_congr_of hI hCD (hI s a s' hi hs)
    constructor
    · rintro ⟨hc, hr⟩
      exact ⟨(hCD s a hi).1 hc, fun s' hs => (hrest s' hs).1 (hr s' hs)⟩
    · rintro ⟨hd, hr⟩
      exact ⟨(hCD s a hi).2 hd, fun s' hs => (hrest s' hs).2 (hr s' hs)⟩

/-- What every step keeps exactly when it is taken as `C` asks holds after a run exactly when it held
before and every step was. The steps may rely on an invariant. -/
theorem run_kept_of {I P : σ → Prop} {C : σ → α → Prop} (hI : ∀ s a s', I s → step s a = some s' → I s')
    (hstep : ∀ s a s', I s → step s a = some s' → (P s' ↔ P s ∧ C s a)) :
    ∀ {as : List α} {s s' : σ}, I s → run step s as = some s' → (P s' ↔ P s ∧ Each step C s as)
  | [], s, s', _, h => by
    rw [run_nil] at h
    cases h; simp [Each]
  | a :: as, s, s', hi, h => by
    obtain ⟨t, ht, h⟩ := run_cons_some.1 h
    rw [run_kept_of hI hstep (hI s a t hi ht) h, hstep s a t hi ht, each_cons_iff ht, and_assoc]

theorem run_kept {P : σ → Prop} {C : σ → α → Prop} (hstep : ∀ s a s', step s a = some s' → (P s' ↔ P s ∧ C s a))
    {as : List α} {s s' : σ} (h : run step s as = some s') : P s' ↔ P s ∧ Each step C s as :=
  run_kept_of (I := fun _ => True) (fun _ _ _ _ _ => trivial) (fun s a s' _ hs => hstep s a s' hs) trivial h

/-! ## Counting steps -/

/-- How many steps of a run are taken where `p` says so. -/
def countIn (step : σ → α → Option σ) (p : σ → α → Bool) : σ → List α → ℕ
  | _, [] => 0
  | s, a :: as => (if p s a then 1 else 0) + ((step s a).map (countIn step p · as)).getD 0

/-- What every step keeps, with one more counted where `p` says so, holds of a run with the number of such steps. -/
theorem run_count {p : σ → α → Bool} {C : σ → α → Prop} {I : ℕ → σ → Prop}
    (hstep : ∀ n s a s', I n s → C s a → step s a = some s' → I (n + if p s a then 1 else 0) s') :
    ∀ {as : List α} {n : ℕ} {s s' : σ}, I n s → Each step C s as → run step s as = some s' →
      I (n + countIn step p s as) s'
  | [], n, s, s', hs, _, h => by
    rw [run_nil] at h
    cases h; exact hs
  | a :: as, n, s, s', hs, hC, h => by
    obtain ⟨t, ht, h⟩ := run_cons_some.1 h
    have hrest := run_count hstep (hstep n s a t hs hC.1 ht) (hC.2 t ht) h
    rw [countIn, ht, Option.map_some, Option.getD_some, ← Nat.add_assoc]
    exact hrest

/-! ## Justified logs -/

/-- Every entry of the log stands in the relation `P` to the entries before it. -/
def Justified (P : List ε → ε → Prop) (log : List ε) : Prop :=
  ∀ pre e post, log = pre ++ e :: post → P pre e

theorem justified_nil (P : List ε → ε → Prop) : Justified P [] := by
  intro pre e post h
  simp at h

theorem Justified.mono {P Q : List ε → ε → Prop} {log : List ε} (hPQ : ∀ pre e, P pre e → Q pre e)
    (h : Justified P log) : Justified Q log :=
  fun pre e post heq => hPQ pre e (h pre e post heq)

/-- A log grows by an entry that the log so far justifies. -/
theorem Justified.snoc {P : List ε → ε → Prop} {log : List ε} (h : Justified P log) {e : ε}
    (he : P log e) : Justified P (log ++ [e]) := by
  intro pre x post heq
  rcases List.eq_nil_or_concat post with rfl | ⟨post', y, rfl⟩
  · obtain ⟨rfl, hx⟩ := List.append_inj' heq rfl
    cases hx; exact he
  · rw [List.concat_eq_append, ← List.cons_append, ← List.append_assoc] at heq
    obtain ⟨heq, -⟩ := List.append_inj' heq rfl
    exact h pre x post' heq

theorem justified_snoc_iff {P : List ε → ε → Prop} {log : List ε} {e : ε} :
    Justified P (log ++ [e]) ↔ Justified P log ∧ P log e := by
  constructor
  · intro h
    refine ⟨fun pre x post heq => h pre x (post ++ [e]) (by rw [heq]; simp), h log e [] rfl⟩
  · rintro ⟨h, he⟩
    exact h.snoc he

/-- A relation of each entry to every entry before it. -/
theorem justified_pairwise_iff {R : ε → ε → Prop} {Q : ε → Prop} {log : List ε} :
    Justified (fun pre e => (∀ x ∈ pre, R x e) ∧ Q e) log ↔ log.Pairwise R ∧ ∀ e ∈ log, Q e := by
  induction log using List.reverseRecOn with
  | nil => simp [justified_nil]
  | append_singleton log e ih =>
    rw [justified_snoc_iff, ih, List.pairwise_append, List.forall_mem_append]
    simp only [List.pairwise_singleton, List.mem_singleton, forall_eq, true_and]
    tauto

/-- A loop whose step accepts an entry exactly when the entries before it justify it, and keeps `I` then,
accepts a log exactly when it is justified. -/
theorem foldlM_justified {β δ : Type*} {f : β → ε → Except δ β} {I : List ε → β → Prop} {P : List ε → ε → Prop}
    (hok : ∀ pre b e, I pre b → P pre e → ∃ b', f b e = .ok b' ∧ I (pre ++ [e]) b')
    (herr : ∀ pre b e, I pre b → ¬ P pre e → ∃ x, f b e = .error x) {b : β} (hb : I [] b) (log : List ε) :
    (Justified P log ∧ ∃ b', log.foldlM f b = .ok b' ∧ I log b') ∨
      (¬ Justified P log ∧ ∃ x, log.foldlM f b = .error x) := by
  induction log using List.reverseRecOn with
  | nil => exact .inl ⟨justified_nil P, b, rfl, hb⟩
  | append_singleton log e ih =>
    rw [justified_snoc_iff, List.foldlM_append]
    rcases ih with ⟨hj, c, hc, hi⟩ | ⟨hj, x, hx⟩
    · by_cases hp : P log e
      · obtain ⟨c', hc', hi'⟩ := hok log c e hi hp
        refine .inl ⟨⟨hj, hp⟩, c', ?_, hi'⟩
        rw [hc]
        simp [bind, Except.bind, hc', pure, Except.pure]
      · obtain ⟨x, hx⟩ := herr log c e hi hp
        refine .inr ⟨fun h => hp h.2, x, ?_⟩
        rw [hc]
        simp [bind, Except.bind, hx]
    · refine .inr ⟨fun h => hj h.1, x, ?_⟩
      rw [hx]
      rfl

theorem Justified.append {P : List ε → ε → Prop} :
    ∀ {es log : List ε}, Justified P log →
      (∀ pre e post, es = pre ++ e :: post → P (log ++ pre) e) → Justified P (log ++ es)
  | [], log, h, _ => by simpa using h
  | e :: es, log, h, he => by
    have h1 : Justified P (log ++ [e]) := h.snoc (by simpa using he [] e es rfl)
    have h2 : Justified P (log ++ [e] ++ es) := Justified.append h1 fun pre x post hx => by
      have := he (e :: pre) x post (by rw [hx]; rfl)
      simpa using this
    simpa using h2

theorem Justified.initial {P : List ε → ε → Prop} {log log' : List ε} (h : Justified P log')
    (hp : log <+: log') : Justified P log := by
  obtain ⟨t, rfl⟩ := hp
  intro pre e post heq
  exact h pre e (post ++ t) (by rw [heq]; simp)

end Lts
