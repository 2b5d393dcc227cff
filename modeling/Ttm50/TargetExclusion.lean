import Ttm50.TargetFlags

/-! # Mutual exclusion, and what breaks it

    The driver is meant to run one command at a time: `busy` refuses every
    other nexus while a command is in progress.  It fails when a terminating
    callback (reset, abort or invalid reason) finds `working` already clear
    although the terminated nexus is still blocked: the callback then clears
    `busy` under the sleeper, and the next command is accepted beside it.  One
    bus reset is enough, since it can cause several `SCSI_RESET` callbacks.

    `exclusive_iff` says that this is the only way. -/

namespace TargetExclusion

open LabelledRuns TargetDriver TargetSystem TargetFlags

variable {N : Type} [DecidableEq N] {getValue : GetValue}

/-- At most one nexus is inside an accepted command, and while there is one
    `busy` is set. -/
def Exclusive (s : Sys N) : Prop :=
  (∀ a b, Inside s a → Inside s b → a = b) ∧
    ∀ a, Inside s a → s.state.busy = true

/-- A terminating callback that runs while a nexus is blocked finds `working`
    set: the blocked nexus has not been terminated before. -/
def FirstTermination (s : Sys N) (e : Event N) : Prop :=
  ∀ a t bytes, e = .callback a t bytes → t.reason.Terminates →
    (∃ b, s.proc b = .blocked) → s.state.working = true

/-- Two nexuses inside are the same one, after a move of `a` that leaves the
    others where they were. -/
theorem exclusive_of_sole {s' : Sys N} {a : N}
    (hsole : ∀ b, b ≠ a → ¬ Inside s' b)
    (hbusy : Inside s' a → s'.state.busy = true) : Exclusive s' := by
  have hin : ∀ b, Inside s' b → b = a := fun b hb =>
    Decidable.not_not.mp (fun hba => hsole b hba hb)
  refine ⟨fun b c hb hc => (hin b hb).trans (hin c hc).symm, ?_⟩
  intro b hb
  obtain rfl := hin b hb
  exact hbusy hb

/-- Only the nexus of the move can be inside, if it was inside before or
    nobody was. -/
theorem sole_after {s s' : Sys N} {e : Event N} {o : Output N}
    (hE : Exclusive s) (hm : Move getValue s e o s')
    (h : Inside s o.nexus ∨ s.state.busy = false) :
    ∀ b, b ≠ o.nexus → ¬ Inside s' b := by
  intro b hb hin
  have hin' : Inside s b := by
    intro hidle
    exact hin ((proc_other hm hb).trans hidle)
  rcases h with h | h
  · exact hb (hE.1 b o.nexus hin' h)
  · have := hE.2 b hin'
    rw [h] at this
    exact nomatch this

/-- **THE GUARDED STEP**: a move that meets the condition keeps exclusion. -/
theorem exclusive_move {s s' : Sys N} {e : Event N} {o : Output N}
    (hI : FlagInv s) (hE : Exclusive s) (hok : FirstTermination s e)
    (hm : Move getValue s e o s') : Exclusive s' := by
  have hsole := sole_after hE hm
  cases hm with
  | refuse hp hl hr hb => exact hE
  | answer residue buffer status hp hl hr hb hL hres hst => exact hE
  -- `busy` was clear, so nobody was inside
  | accept residue dir buffer t' hp hl hr hb =>
      exact exclusive_of_sole (hsole (Or.inr hb)) (fun _ => rfl)
  | finish buffer hp =>
      exact exclusive_of_sole (hsole (Or.inl (inside_of_connected hp)))
        (fun h => absurd (Function.update_self ..) h)
  | overrun residue buffer hp =>
      exact exclusive_of_sole (hsole (Or.inl (inside_of_connected hp)))
        (fun h => absurd (Function.update_self ..) h)
  | proceed residue buffer t' hp hl =>
      exact exclusive_of_sole (hsole (Or.inl (inside_of_connected hp)))
        (fun _ => (hI.lock_flags _ hl).1)
  | save residue buffer hp hl =>
      exact exclusive_of_sole (hsole (Or.inl (inside_of_connected hp)))
        (fun _ => (hI.lock_flags _ hl).1)
  | block hp hl =>
      exact exclusive_of_sole (hsole (Or.inl (inside_of_connected hp)))
        (fun _ => (hI.lock_flags _ hl).1)
  | restart hp =>
      exact exclusive_of_sole (hsole (Or.inl (inside_of_blocked hp)))
        (fun h => absurd (Function.update_self ..) h)
  | reselect hp hl hw =>
      exact exclusive_of_sole (hsole (Or.inl (inside_of_blocked hp)))
        (fun _ => hI.working_busy hw)
  | resume t' hp hl =>
      exact exclusive_of_sole (hsole (Or.inl (inside_of_connected hp)))
        (fun _ => (hI.lock_flags _ hl).1)
  | @stop a t bytes reply hp hl hidle hr hk hreply =>
      by_cases ha : s.proc a = .idle
      · -- a nexus without a command: somebody else may be blocked
        have hproc : Function.update s.proc a .idle = s.proc := by
          rw [← ha, Function.update_eq_self]
        show Exclusive { state := _, lock := none,
                         proc := Function.update s.proc a .idle, target := _ }
        rw [hproc]
        refine ⟨hE.1, ?_⟩
        intro b hb
        have hbusy := hE.2 b hb
        have hblocked : s.proc b = .blocked := by
          cases hpb : s.proc b with
          | idle => exact absurd hpb hb
          | blocked => rfl
          | connected due =>
              have hlock := hI.connected_lock b due hpb
              rw [hidle ha] at hlock
              exact nomatch hlock
        have hw := hok a t bytes rfl hr ⟨b, hblocked⟩
        show (s.state.busy && s.state.working) = true
        rw [hbusy, hw]
        rfl
      · exact exclusive_of_sole (hsole (Or.inl ha))
          (fun h => absurd (Function.update_self ..) h)
  | @stopBlocked a t bytes reply hp hl hr hk hreply =>
      refine ⟨hE.1, ?_⟩
      intro b hb
      have hw := hok a t bytes rfl hr ⟨a, hp⟩
      show (s.state.busy && s.state.working) = true
      rw [hE.2 b hb, hw]
      rfl

/-- **THE UNGUARDED STEP**: a second termination leaves the sleeper inside a
    driver that is not busy. -/
theorem second_termination {s s' : Sys N} {e : Event N} {o : Output N}
    (hok : ¬ FirstTermination s e) (hm : Move getValue s e o s') :
    ¬ Exclusive s' := by
  -- the condition fails at a callback that terminates the sleeper once more
  obtain ⟨a, t, bytes, he, hr, ⟨b, hb⟩, hw⟩ :
      ∃ a t bytes, e = .callback a t bytes ∧ t.reason.Terminates ∧
        (∃ b, s.proc b = .blocked) ∧ s.state.working = false := by
    refine Classical.not_not.mp (fun hno => hok ?_)
    intro a t bytes he hr hb
    cases hw : s.state.working with
    | true => rfl
    | false => exact absurd ⟨a, t, bytes, he, hr, hb, hw⟩ hno
  subst he
  rintro ⟨-, hbusy⟩
  -- the sleeper is still inside, and `busy && working` is now false
  obtain ⟨hstate, -, hblocked⟩ := move_terminates hm hr
  have hb' := hbusy b (inside_of_blocked (hblocked b hb))
  rw [hstate, show (s.state.busy && s.state.working) = false by
    rw [hw, Bool.and_false]] at hb'
  exact nomatch hb'

omit [DecidableEq N] in
theorem exclusive_initial {s : Sys N} (h : Initial s) : Exclusive s :=
  ⟨fun a _ ha => absurd (h.2.2.2 a) ha, fun a ha => absurd (h.2.2.2 a) ha⟩

/-- **MUTUAL EXCLUSION, EXACTLY**: a run keeps at most one nexus inside an
    accepted command, with `busy` set, in all its states if and only if no
    terminating callback of the run finds a nexus blocked and `working`
    already clear. -/
theorem exclusive_iff {s s' : Sys N} {tr : List (Event N × Output N)}
    (h : Initial s) (hr : Run (step getValue) s tr s') :
    Each (step getValue) FirstTermination s tr ↔
      Always (step getValue) Exclusive s tr := by
  have hkeep : ∀ (s : Sys N) e o s', (FlagInv s ∧ Exclusive s) → True →
      FirstTermination s e → step getValue s e = some (o, s') →
      FlagInv s' ∧ Exclusive s' := by
    rintro s e o s' ⟨hI, hE⟩ - hok hs
    exact ⟨flagInv_move hI (step_move hs),
      exclusive_move hI hE hok (step_move hs)⟩
  have hbreak : ∀ (s : Sys N) e o s', (FlagInv s ∧ Exclusive s) → True →
      ¬ FirstTermination s e → step getValue s e = some (o, s') →
      ¬ Exclusive s' := by
    intro s e o s' _ _ hok hs
    exact second_termination hok (step_move hs)
  exact exact_guard hkeep (fun _ hI => hI.2) hbreak hr (fun _ _ => trivial)
    ⟨flagInv_initial h, exclusive_initial h⟩

/-- A nexus that disconnects, alone, is excluded from nothing. -/
theorem exclusive_iff_alone :
    ∃ tr, tr.map Prod.fst = disconnectEvents 0 ∧
      (Each (step manualGetValue) FirstTermination powerOn tr ↔
        Always (step manualGetValue) Exclusive powerOn tr) := by
  obtain ⟨tr, s, hr, he, -⟩ :=
    @exec_reaches _ _ _ (step manualGetValue) (fun _ => true) powerOn
      (disconnectEvents 0) (by decide)
  exact ⟨tr, he, exclusive_iff powerOn_initial hr⟩

/-- Nexus 0 is blocked; one reset calls nexus 1 back twice; then nexus 1's
    command is accepted. -/
def doubleReset : List (Event Nat) :=
  disconnectEvents 0 ++
    [.callback 1 (turn .reset) [], .callback 1 (turn .reset) [],
      .callback 1 receive8k []]

/-- **TWO COMMANDS AT A TIME**: after one reset with two callbacks, nexus 1
    is inside a command beside the blocked nexus 0. -/
theorem two_inside :
    ∃ s : Sys Nat, Reachable (step manualGetValue) Initial s ∧
      Inside s 0 ∧ Inside s 1 ∧ ¬ Exclusive s := by
  obtain ⟨tr, s, hr, -, hp⟩ :=
    @exec_reaches _ _ _ (step manualGetValue)
      (fun s => decide (s.proc 0 = .blocked) &&
        decide (s.proc 1 = .connected .dataIn))
      powerOn doubleReset (by decide)
  obtain ⟨h₀, h₁⟩ := (Bool.and_eq_true _ _).mp hp
  have hin₀ := inside_of_blocked (of_decide_eq_true h₀)
  have hin₁ := inside_of_connected (of_decide_eq_true h₁)
  refine ⟨s, ⟨powerOn, tr, powerOn_initial, hr⟩, hin₀, hin₁, ?_⟩
  intro hE
  exact nomatch hE.1 0 1 hin₀ hin₁

end TargetExclusion
