import Mathlib

/-! # Runs of a labelled machine — invariants and exact guards

    A machine is a partial step function `step : S → E → Option (O × S)`: in
    state `s` the event `e` is either refused (`none`) or yields an output and
    the next state.  A RUN records its events with their outputs.

    Two rules are packaged here once:

    * `run_invariant` / `reachable_invariant`: what one step preserves holds
      in every state reached;
    * `exact_guard`: when the guarded steps keep an invariant that implies a
      property, and an unguarded step breaks the property at once, a run has
      the property in all its states EXACTLY WHEN all its steps are
      guarded. -/

namespace LabelledRuns

variable {S E O : Type} {step : S → E → Option (O × S)}

/-- `Run step s tr s'`: the events of `tr`, with the outputs recorded beside
    them, lead from `s` to `s'`. -/
inductive Run (step : S → E → Option (O × S)) :
    S → List (E × O) → S → Prop where
  | nil (s : S) : Run step s [] s
  | cons {s m s' : S} {e : E} {o : O} {tr : List (E × O)} :
      step s e = some (o, m) → Run step m tr s' →
      Run step s ((e, o) :: tr) s'

/-- The states some run reaches from an initial state. -/
def Reachable (step : S → E → Option (O × S)) (init : S → Prop)
    (s : S) : Prop :=
  ∃ s₀ tr, init s₀ ∧ Run step s₀ tr s

/-- `P` holds in every state the run `tr` from `s` passes, both ends
    included. -/
def Always (step : S → E → Option (O × S)) (P : S → Prop)
    (s : S) (tr : List (E × O)) : Prop :=
  ∀ tr₁ tr₂ m, tr = tr₁ ++ tr₂ → Run step s tr₁ m → P m

/-- `ok` holds of every step of the run `tr` from `s`: of the event and of
    the state before it. -/
def Each (step : S → E → Option (O × S)) (ok : S → E → Prop)
    (s : S) (tr : List (E × O)) : Prop :=
  ∀ tr₁ e o tr₂ m, tr = tr₁ ++ (e, o) :: tr₂ → Run step s tr₁ m → ok m e

/-- Execute a list of events, recording the outputs. -/
def exec (step : S → E → Option (O × S)) :
    S → List E → Option (List (E × O) × S)
  | s, [] => some ([], s)
  | s, e :: es =>
      match step s e with
      | none => none
      | some (o, m) =>
          match exec step m es with
          | none => none
          | some (tr, s') => some ((e, o) :: tr, s')

/-- An execution is a run. -/
theorem exec_run {es : List E} {s s' : S} {tr : List (E × O)}
    (h : exec step s es = some (tr, s')) : Run step s tr s' := by
  induction es generalizing s tr with
  | nil =>
      obtain ⟨rfl, rfl⟩ : [] = tr ∧ s = s' := by simpa [exec] using h
      exact .nil s
  | cons e es ih =>
      cases hs : step s e with
      | none => simp [exec, hs] at h
      | some om =>
          obtain ⟨o, m⟩ := om
          cases hx : exec step m es with
          | none => simp [exec, hs, hx] at h
          | some r =>
              obtain ⟨tr', m'⟩ := r
              obtain ⟨rfl, rfl⟩ : (e, o) :: tr' = tr ∧ m' = s' := by
                simpa [exec, hs, hx] using h
              exact .cons hs (ih hx)

/-- The events of an execution are the ones it was given. -/
theorem exec_events {es : List E} {s s' : S} {tr : List (E × O)}
    (h : exec step s es = some (tr, s')) : tr.map Prod.fst = es := by
  induction es generalizing s tr with
  | nil =>
      obtain ⟨rfl, -⟩ : [] = tr ∧ s = s' := by simpa [exec] using h
      rfl
  | cons e es ih =>
      cases hs : step s e with
      | none => simp [exec, hs] at h
      | some om =>
          obtain ⟨o, m⟩ := om
          cases hx : exec step m es with
          | none => simp [exec, hs, hx] at h
          | some r =>
              obtain ⟨tr', m'⟩ := r
              obtain ⟨rfl, rfl⟩ : (e, o) :: tr' = tr ∧ m' = s' := by
                simpa [exec, hs, hx] using h
              rw [List.map_cons, ih hx]

/-- A list of events that executes from `s` to a state where the test `p`
    succeeds gives a run to such a state. -/
theorem exec_reaches {p : S → Bool} {s : S} {es : List E}
    (h : (exec step s es).map (fun r => p r.2) = some true) :
    ∃ tr s', Run step s tr s' ∧ tr.map Prod.fst = es ∧ p s' = true := by
  cases hx : exec step s es with
  | none =>
      rw [hx] at h
      exact nomatch h
  | some r =>
      rw [hx] at h
      exact ⟨r.1, r.2, exec_run hx, exec_events hx, Option.some.inj h⟩

/-- What a list of events that executes from `s` yields. -/
def outcome (step : S → E → Option (O × S)) (s : S) (es : List E)
    (h : (exec step s es).isSome = true) : List (E × O) × S :=
  (exec step s es).get h

theorem outcome_run {s : S} {es : List E}
    (h : (exec step s es).isSome = true) :
    Run step s (outcome step s es h).1 (outcome step s es h).2 :=
  exec_run (Option.some_get h).symm

theorem outcome_events {s : S} {es : List E}
    (h : (exec step s es).isSome = true) :
    (outcome step s es h).1.map Prod.fst = es :=
  exec_events (Option.some_get h).symm

/-- The first step of a nonempty run. -/
theorem run_uncons {s s' : S} {e : E} {o : O} {tr : List (E × O)}
    (h : Run step s ((e, o) :: tr) s') :
    ∃ m, step s e = some (o, m) ∧ Run step m tr s' := by
  cases h with
  | cons hs hr => exact ⟨_, hs, hr⟩

/-! ## Properties of all states and of all steps of a run -/

theorem always_nil {P : S → Prop} {s : S} :
    Always (O := O) step P s [] ↔ P s := by
  constructor
  · intro h
    exact h [] [] s rfl (.nil s)
  · intro h tr₁ tr₂ m heq hr
    obtain ⟨rfl, rfl⟩ : tr₁ = [] ∧ tr₂ = [] := by simpa using heq.symm
    cases hr
    exact h

theorem always_cons {P : S → Prop} {s m : S} {e : E} {o : O}
    {tr : List (E × O)} (hs : step s e = some (o, m)) :
    Always step P s ((e, o) :: tr) ↔ P s ∧ Always step P m tr := by
  constructor
  · intro h
    refine ⟨h [] _ s rfl (.nil s), ?_⟩
    intro tr₁ tr₂ n heq hr
    exact h ((e, o) :: tr₁) tr₂ n (by rw [heq]; rfl) (.cons hs hr)
  · rintro ⟨h₀, h⟩ tr₁ tr₂ n heq hr
    cases tr₁ with
    | nil => cases hr; exact h₀
    | cons p tr₁ =>
        obtain ⟨rfl, heq'⟩ : (e, o) = p ∧ tr = tr₁ ++ tr₂ := by
          simpa using heq
        obtain ⟨n', hn', hr'⟩ := run_uncons hr
        obtain rfl : m = n' := by simpa using hs.symm.trans hn'
        exact h tr₁ tr₂ n heq' hr'

theorem each_nil {ok : S → E → Prop} {s : S} :
    Each (O := O) step ok s [] := by
  intro tr₁ e o tr₂ m heq _
  exact absurd heq (by simp)

theorem each_cons {ok : S → E → Prop} {s m : S} {e : E} {o : O}
    {tr : List (E × O)} (hs : step s e = some (o, m)) :
    Each step ok s ((e, o) :: tr) ↔ ok s e ∧ Each step ok m tr := by
  constructor
  · intro h
    refine ⟨h [] e o tr s rfl (.nil s), ?_⟩
    intro tr₁ e' o' tr₂ n heq hr
    exact h ((e, o) :: tr₁) e' o' tr₂ n (by rw [heq]; rfl) (.cons hs hr)
  · rintro ⟨h₀, h⟩ tr₁ e' o' tr₂ n heq hr
    cases tr₁ with
    | nil =>
        cases hr
        obtain ⟨⟨rfl, -⟩, -⟩ : (e = e' ∧ o = o') ∧ tr = tr₂ := by
          simpa using heq
        exact h₀
    | cons p tr₁ =>
        obtain ⟨rfl, heq'⟩ : (e, o) = p ∧ tr = tr₁ ++ (e', o') :: tr₂ := by
          simpa using heq
        obtain ⟨n', hn', hr'⟩ := run_uncons hr
        obtain rfl : m = n' := by simpa using hs.symm.trans hn'
        exact h tr₁ e' o' tr₂ n heq' hr'

/-! ## The invariant rules -/

/-- **The run rule**: what every guarded step preserves survives a run all of
    whose steps are guarded. -/
theorem run_invariant_guarded {I : S → Prop} {ok : S → E → Prop}
    (hstep : ∀ s e o s', I s → ok s e → step s e = some (o, s') → I s')
    {s s' : S} {tr : List (E × O)} (hr : Run step s tr s')
    (hok : Each step ok s tr) (hI : I s) : I s' := by
  induction hr with
  | nil _ => exact hI
  | cons hs _ ih =>
      obtain ⟨h₀, h₁⟩ := (each_cons hs).mp hok
      exact ih h₁ (hstep _ _ _ _ hI h₀ hs)

theorem run_invariant {I : S → Prop}
    (hstep : ∀ s e o s', I s → step s e = some (o, s') → I s')
    {s s' : S} {tr : List (E × O)} (hr : Run step s tr s')
    (hI : I s) : I s' := by
  have hok : Each step (fun _ _ => True) s tr :=
    fun _ _ _ _ _ _ _ => trivial
  exact run_invariant_guarded (fun s e o s' hI _ hs => hstep s e o s' hI hs)
    hr hok hI

theorem reachable_invariant {I : S → Prop} {init : S → Prop}
    (hinit : ∀ s, init s → I s)
    (hstep : ∀ s e o s', I s → step s e = some (o, s') → I s')
    {s : S} (h : Reachable step init s) : I s := by
  obtain ⟨s₀, tr, h₀, hr⟩ := h
  exact run_invariant hstep hr (hinit s₀ h₀)

/-- **THE EXACT GUARD**: `I` is kept by guarded steps and implies `P`; an
    unguarded step out of `I` breaks `P`.  Then `P` holds all along a run
    exactly when all its steps are guarded.  Only events in `dom` count. -/
theorem exact_guard {I P : S → Prop} {ok : S → E → Prop} {dom : E → Prop}
    (hkeep : ∀ s e o s', I s → dom e → ok s e → step s e = some (o, s') → I s')
    (himp : ∀ s, I s → P s)
    (hbreak : ∀ s e o s', I s → dom e → ¬ ok s e → step s e = some (o, s') →
      ¬ P s')
    {s s' : S} {tr : List (E × O)} (hr : Run step s tr s')
    (hdom : ∀ p ∈ tr, dom p.1) (hI : I s) :
    Each step ok s tr ↔ Always step P s tr := by
  induction hr with
  | nil s =>
      constructor
      · intro _
        exact always_nil.mpr (himp s hI)
      · intro _
        exact each_nil
  | @cons s m s' e o tr hs hr ih =>
      have he : dom e := hdom (e, o) List.mem_cons_self
      have htr : ∀ p ∈ tr, dom p.1 :=
        fun p hp => hdom p (List.mem_cons_of_mem _ hp)
      rw [each_cons hs, always_cons hs]
      -- a guarded step keeps `I`; an unguarded one has broken `P` at once
      by_cases hok : ok s e
      · have hm : I m := hkeep s e o m hI he hok hs
        constructor
        · rintro ⟨-, h⟩
          exact ⟨himp s hI, (ih htr hm).mp h⟩
        · rintro ⟨-, h⟩
          exact ⟨hok, (ih htr hm).mpr h⟩
      · constructor
        · rintro ⟨h, -⟩
          exact absurd h hok
        · rintro ⟨-, h⟩
          exact absurd (h [] tr m rfl (.nil m)) (hbreak s e o m hI he hok hs)

end LabelledRuns
