import Ttm50.TargetFlags

/-! # A disconnected command and the other nexuses

    While a nexus is blocked, the one `working` flag says both that its
    command still stands and that it is to be restarted; the callbacks of the
    other nexuses write it too.

    * `terminated_iff`: a terminated command restarts, unless another
      nexus's disconnect sets `working` again before the sleeper wakes.
    * `isolated_iff`: a command that stands reselects where it left off,
      unless an abort or an invalid reason for another nexus clears `working`
      meanwhile. -/

namespace TargetIsolation

open LabelledRuns TargetDriver TargetSystem TargetFlags

variable {N : Type} [DecidableEq N] {getValue : GetValue}

/-- The reason of a callback. -/
def callbackReason : Event N → Option Code
  | .callback _ t _ => some t.reason
  | .wake _ => none

/-! ## Terminated commands -/

/-- A bus reset, whatever nexus it is reported for, or an abort for `a`. -/
def TerminatesFor (a : N) (e : Event N) : Prop :=
  ∃ b t bytes, e = .callback b t bytes ∧
    (t.reason = .reset ∨ b = a ∧ t.reason = .abort)

/-- The event is not the callback after a disconnect. -/
def NoDisconnect (_ : Sys N) (e : Event N) : Prop :=
  callbackReason e ≠ some .disconnect

/-- When the lock is free, the pending `STARG_DISCONNECT` callback of `a`
    obtains it and returns `STARG_RESTART`. -/
def Restarts (getValue : GetValue) (a : N) (s : Sys N) : Prop :=
  s.lock = none → ∃ o s', step getValue s (.wake a) = some (o, s') ∧
    o.reply = some .restart

/-- The nexus is blocked and its command terminated. -/
structure Terminated (a : N) (s : Sys N) : Prop where
  blocked : s.proc a = .blocked
  working : s.state.working = false

theorem terminated_begins {s s' : Sys N} {e : Event N} {o : Output N} {a : N}
    (hp : s.proc a = .blocked) (he : TerminatesFor a e)
    (hm : Move getValue s e o s') : Terminated a s' := by
  obtain ⟨b, t, bytes, rfl, hr⟩ := he
  have hterm : t.reason.Terminates := by
    rcases hr with hr | ⟨-, hr⟩
    · rw [hr]
      decide
    · rw [hr]
      decide
  obtain ⟨hstate, -, hblocked⟩ := move_terminates hm hterm
  refine ⟨hblocked a hp, ?_⟩
  rw [hstate]

theorem terminated_move {s s' : Sys N} {e : Event N} {o : Output N} {a : N}
    (h : Terminated a s) (he : e ≠ .wake a) (hok : NoDisconnect s e)
    (hm : Move getValue s e o s') : Terminated a s' := by
  -- `working` can only be set again by a disconnect, which is excluded
  refine ⟨blocked_stays hm h.blocked he, ?_⟩
  cases hw : s'.state.working with
  | false => rfl
  | true =>
      obtain ⟨b, t, bytes, rfl, hr⟩ := working_set hm h.working hw
      exact absurd (congrArg some hr) hok

/-- Another command's disconnect revives the terminated one. -/
theorem revived {s s' : Sys N} {e : Event N} {o : Output N} {a : N}
    (h : Terminated a s) (he : e ≠ .wake a) (hok : ¬ NoDisconnect s e)
    (hm : Move getValue s e o s') :
    s'.lock = none ∧ ∃ o' s'', step getValue s' (.wake a) = some (o', s'') ∧
      o'.reply = some .reselect := by
  cases e with
  | wake b => exact absurd (fun h' => nomatch h') hok
  | callback b t bytes =>
      have hr : t.reason = .disconnect :=
        Classical.not_not.mp (fun hne => hok (fun h' => hne (Option.some.inj h')))
      obtain ⟨-, hstate, hlock, -⟩ := move_disconnect hm hr
      have hp := blocked_stays hm h.blocked he
      obtain ⟨o', s'', hs, hreply, -⟩ :=
        @wake_reselects _ _ getValue _ _ hp hlock (by rw [hstate])
      exact ⟨hlock, o', s'', hs, hreply⟩

/-- **TERMINATED COMMANDS STAY TERMINATED, EXACTLY**: after a reset, or an
    abort for the blocked nexus `a` itself, the pending callback of `a`
    returns `STARG_RESTART` whenever it obtains the lock, all along a run,
    if and only if no other nexus disconnects in that run. -/
theorem terminated_iff {s m s' : Sys N} {e : Event N} {o : Output N} {a : N}
    {tr : List (Event N × Output N)} (hp : s.proc a = .blocked)
    (he : TerminatesFor a e) (hs : step getValue s e = some (o, m))
    (hr : Run (step getValue) m tr s') (hwait : ∀ p ∈ tr, p.1 ≠ .wake a) :
    Each (step getValue) NoDisconnect m tr ↔
      Always (step getValue) (Restarts getValue a) m tr := by
  have hkeep : ∀ (s : Sys N) e o s', Terminated a s → e ≠ .wake a →
      NoDisconnect s e → step getValue s e = some (o, s') →
      Terminated a s' := by
    intro s e o s' h hne hok hs
    exact terminated_move h hne hok (step_move hs)
  have himp : ∀ s : Sys N, Terminated a s → Restarts getValue a s := by
    intro s h hl
    exact wake_restarts h.blocked hl h.working
  have hbreak : ∀ (s : Sys N) e o s', Terminated a s → e ≠ .wake a →
      ¬ NoDisconnect s e → step getValue s e = some (o, s') →
      ¬ Restarts getValue a s' := by
    intro s e o s' h hne hok hs hre
    -- the step is a function: the two replies would have to agree
    obtain ⟨hl, o', s'', hs', hreply⟩ := revived h hne hok (step_move hs)
    obtain ⟨o₂, s₂, hs₂, hreply₂⟩ := hre hl
    obtain ⟨rfl, -⟩ : o' = o₂ ∧ s'' = s₂ := by
      simpa using hs'.symm.trans hs₂
    exact nomatch hreply.symm.trans hreply₂
  exact exact_guard hkeep himp hbreak hr hwait
    (terminated_begins hp he (step_move hs))

/-- Nexus 0 disconnects. -/
def disconnected : Sys Nat :=
  (outcome (step manualGetValue) powerOn (disconnectEvents 0) (by decide)).2

theorem disconnected_reachable :
    Reachable (step manualGetValue) Initial disconnected :=
  ⟨powerOn, _, powerOn_initial, outcome_run _⟩

/-- The blocked nexus 0, after one reset. -/
theorem terminated_iff_reset :
    ∃ m tr, tr.map Prod.fst = [.callback 1 (turn .reset) []] ∧
      (Each (step manualGetValue) NoDisconnect m tr ↔
        Always (step manualGetValue) (Restarts manualGetValue 0) m tr) := by
  let m := (enter manualGetValue disconnected 1 (turn .reset) []).2
  have hs : step manualGetValue disconnected (.callback 1 (turn .reset) [])
      = some (_, m) := step_callback (by decide) (by decide)
  have hx : (exec (step manualGetValue) m
      [.callback 1 (turn .reset) []]).isSome = true := by decide
  have hevents := outcome_events hx
  refine ⟨m, _, hevents, ?_⟩
  refine terminated_iff (by decide) ⟨1, _, _, rfl, Or.inl rfl⟩ hs
    (outcome_run hx) ?_
  intro p hp hwake
  have hmem := List.mem_map_of_mem hp (f := Prod.fst)
  rw [hevents, hwake] at hmem
  exact nomatch List.mem_singleton.mp hmem

/-- One reset with two callbacks for nexus 1, which then starts a command of
    its own and disconnects. -/
def overtaking : List (Event Nat) :=
  [.callback 1 (turn .reset) [], .callback 1 (turn .reset) []]
    ++ disconnectEvents 1

theorem overtaking_runs :
    (exec (step manualGetValue) disconnected overtaking).isSome = true := by
  decide

/-- **A TERMINATED COMMAND RESELECTS**: nexus 0 is terminated by a reset while
    disconnected; after nexus 1 has disconnected in its turn, the pending
    callback of nexus 0 returns `STARG_RESELECT`. -/
theorem terminated_reselects :
    ∃ (s s' s'' : Sys Nat) (tr : List (Event Nat × Output Nat)) (o : Output Nat),
      Reachable (step manualGetValue) Initial s ∧ s.proc 0 = .blocked ∧
      tr.map Prod.fst = overtaking ∧ Run (step manualGetValue) s tr s' ∧
      step manualGetValue s' (.wake 0) = some (o, s'') ∧
      o.reply = some .reselect := by
  let s' := (outcome (step manualGetValue) disconnected overtaking
    overtaking_runs).2
  obtain ⟨o, s'', hs, hreply, -⟩ :
      ∃ o s'', step manualGetValue s' (.wake 0) = some (o, s'') ∧
        o.reply = some .reselect ∧
        s''.state = { s'.state with working := false } :=
    wake_reselects (by decide) (by decide) (by decide)
  exact ⟨disconnected, s', s'', _, o, disconnected_reachable, by decide,
    outcome_events overtaking_runs, outcome_run overtaking_runs, hs, hreply⟩

/-! ## Commands that stand -/

/-- A callback for another nexus that is not a bus reset. -/
def ForeignCallback (a : N) (e : Event N) : Prop :=
  ∃ b t bytes, e = .callback b t bytes ∧ b ≠ a ∧ t.reason ≠ .reset

/-- The event brings a command. -/
def IsCommand (_ : Sys N) (e : Event N) : Prop :=
  callbackReason e = some .command

/-- When the lock is free, the pending `STARG_DISCONNECT` callback of `a`
    obtains it and returns `STARG_RESELECT`; the callback after the
    reselection goes on with the residue and direction of `state`. -/
def Resumes (getValue : GetValue) (a : N) (state : State) (s : Sys N) : Prop :=
  s.lock = none → ∃ o s', step getValue s (.wake a) = some (o, s') ∧
    o.reply = some .reselect ∧ s'.state.residue = state.residue ∧
    s'.state.direction = state.direction ∧
    ∀ t bytes o' s'', t.reason = .reselect →
      step getValue s' (.callback a t bytes) = some (o', s'') →
      o'.reply = some state.direction ∧
        o'.target.dataLen = chunkLen state.residue

/-- Nothing but the records of the other nexuses has changed since `a`
    disconnected in the driver state `state`. -/
structure Standing (a : N) (state : State) (s : Sys N) : Prop where
  state_eq : s.state = state
  busy : state.busy = true
  working : state.working = true
  lock : s.lock = none
  blocked : s.proc a = .blocked

theorem standing_begins {s s' : Sys N} {a : N} {t : Target}
    {bytes : List UInt8} {o : Output N} (hI : FlagInv s)
    (hr : t.reason = .disconnect)
    (hm : Move getValue s (.callback a t bytes) o s') :
    Standing a s'.state s' := by
  obtain ⟨hheld, hstate, hlock, hproc⟩ := move_disconnect hm hr
  refine ⟨rfl, ?_, ?_, hlock, ?_⟩
  · rw [hstate]
    exact (hI.lock_flags a hheld).1
  · rw [hstate]
  · rw [hproc, Function.update_self]

theorem standing_move {s s' : Sys N} {e : Event N} {o : Output N} {a : N}
    {state : State} (h : Standing a state s) (hok : IsCommand s e)
    (hm : Move getValue s e o s') : Standing a state s' := by
  cases e with
  | wake b => exact nomatch hok
  | callback b t bytes =>
      have hbusy : s.state.busy = true := by
        rw [h.state_eq]
        exact h.busy
      -- the sleeper keeps `busy` set, so the command is refused
      obtain ⟨-, hstate, hlock, hproc⟩ :=
        move_refused hm (Option.some.inj hok) hbusy
      refine ⟨hstate.trans h.state_eq, h.busy, h.working,
        hlock.trans h.lock, ?_⟩
      rw [hproc]
      exact h.blocked

theorem standing_resumes {s : Sys N} {a : N} {state : State}
    (h : Standing a state s) : Resumes getValue a state s := by
  intro hl
  have hw : s.state.working = true := by
    rw [h.state_eq]
    exact h.working
  obtain ⟨o, s', hs, hreply, hstate⟩ := wake_reselects h.blocked hl hw
  have hres : s'.state.residue = state.residue := by
    rw [hstate, h.state_eq]
  have hdir : s'.state.direction = state.direction := by
    rw [hstate, h.state_eq]
  refine ⟨o, s', hs, hreply, hres, hdir, ?_⟩
  intro t bytes o' s'' hr hs'
  obtain ⟨hreply', hlen⟩ := move_reselect (step_move hs') hr
  rw [hdir] at hreply'
  rw [hres] at hlen
  exact ⟨hreply', hlen⟩

/-- An abort or an invalid reason for another nexus terminates the command of
    the blocked one. -/
theorem struck {s s' : Sys N} {e : Event N} {o : Output N} {a : N}
    {state : State} (h : Standing a state s) (he : ForeignCallback a e)
    (hok : ¬ IsCommand s e) (hm : Move getValue s e o s') :
    s'.lock = none ∧ Terminated a s' := by
  obtain ⟨b, t, bytes, rfl, -, -⟩ := he
  -- the lock is free: what is not a command terminates
  rcases callback_unlocked hm h.lock with hr | hr
  · exact absurd (congrArg some hr) hok
  · obtain ⟨hstate, hlock, hblocked⟩ := move_terminates hm hr
    refine ⟨hlock, hblocked a h.blocked, ?_⟩
    rw [hstate]

/-- **ISOLATION, EXACTLY**: nexus `a` disconnects in the middle of its
    command; then, along a run of callbacks for other nexuses without a bus
    reset, its pending callback reselects and goes on where it left off in
    every state if and only if the callbacks are all commands. -/
theorem isolated_iff {s m s' : Sys N} {a : N} {t : Target}
    {bytes : List UInt8} {o : Output N} {tr : List (Event N × Output N)}
    (h : Reachable (step getValue) Initial s) (ht : t.reason = .disconnect)
    (hs : step getValue s (.callback a t bytes) = some (o, m))
    (hr : Run (step getValue) m tr s')
    (hforeign : ∀ p ∈ tr, ForeignCallback a p.1) :
    Each (step getValue) IsCommand m tr ↔
      Always (step getValue) (Resumes getValue a m.state) m tr := by
  have hkeep : ∀ (s : Sys N) e o s', Standing a m.state s →
      ForeignCallback a e → IsCommand s e →
      step getValue s e = some (o, s') → Standing a m.state s' := by
    intro s e o s' h _ hok hs
    exact standing_move h hok (step_move hs)
  have hbreak : ∀ (s : Sys N) e o s', Standing a m.state s →
      ForeignCallback a e → ¬ IsCommand s e →
      step getValue s e = some (o, s') → ¬ Resumes getValue a m.state s' := by
    intro s e o s' h he hok hs hre
    obtain ⟨hl, hterm⟩ := struck h he hok (step_move hs)
    obtain ⟨o₁, s₁, hs₁, hreply₁⟩ :=
      @wake_restarts _ _ getValue _ _ hterm.blocked hl hterm.working
    obtain ⟨o₂, s₂, hs₂, hreply₂, -⟩ := hre hl
    obtain ⟨rfl, -⟩ : o₁ = o₂ ∧ s₁ = s₂ := by
      simpa using hs₁.symm.trans hs₂
    exact nomatch hreply₁.symm.trans hreply₂
  exact exact_guard hkeep (fun _ => standing_resumes) hbreak hr hforeign
    (standing_begins (flagInv_reachable h) ht (step_move hs))

/-- Nexus 0 after its first chunk, about to disconnect. -/
def saving : Sys Nat :=
  (outcome (step manualGetValue) powerOn
    [.callback 0 receive8k [], .callback 0 (turn .dataIn) []] (by decide)).2

/-- Nexus 0 disconnects and nexus 1 sends a command. -/
theorem isolated_iff_command :
    ∃ m tr, tr.map Prod.fst = [.callback 1 receive8k []] ∧
      (Each (step manualGetValue) IsCommand m tr ↔
        Always (step manualGetValue) (Resumes manualGetValue 0 m.state)
          m tr) := by
  let m := (enter manualGetValue saving 0 (turn .disconnect) []).2
  have hs : step manualGetValue saving (.callback 0 (turn .disconnect) [])
      = some (_, m) := step_callback (by decide) (by decide)
  have hx : (exec (step manualGetValue) m
      [.callback 1 receive8k []]).isSome = true := by decide
  have hevents := outcome_events hx
  refine ⟨m, _, hevents, ?_⟩
  refine isolated_iff ⟨powerOn, _, powerOn_initial, outcome_run _⟩ rfl hs
    (outcome_run hx) ?_
  intro p hp
  have hmem := List.mem_map_of_mem hp (f := Prod.fst)
  rw [hevents] at hmem
  rw [List.mem_singleton.mp hmem]
  exact ⟨1, receive8k, [], rfl, by decide, by decide⟩

/-- **AN ABORT OF ANOTHER NEXUS**: nexus 1, which has no command outstanding,
    sends `ABORT`; the pending callback of nexus 0 returns `STARG_RESTART`. -/
theorem foreign_abort_restarts :
    ∃ (s' s'' : Sys Nat) (o o' : Output Nat),
      Reachable (step manualGetValue) Initial disconnected ∧
      disconnected.proc 0 = .blocked ∧ disconnected.proc 1 = .idle ∧
      step manualGetValue disconnected (.callback 1 (turn .abort) [])
        = some (o, s') ∧
      step manualGetValue s' (.wake 0) = some (o', s'') ∧
      o'.reply = some .restart := by
  let s' := (enter manualGetValue disconnected 1 (turn .abort) []).2
  have hs : step manualGetValue disconnected (.callback 1 (turn .abort) [])
      = some (_, s') := step_callback (by decide) (by decide)
  obtain ⟨o', s'', hs', hreply⟩ :
      ∃ o s'', step manualGetValue s' (.wake 0) = some (o, s'') ∧
        o.reply = some .restart :=
    wake_restarts (by decide) (by decide) (by decide)
  exact ⟨s', s'', _, o', disconnected_reachable, by decide, by decide, hs, hs',
    hreply⟩

end TargetIsolation
