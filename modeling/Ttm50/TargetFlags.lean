import Ttm50.TargetSystem

/-! # The driver never locks itself out

    `busy` and `working` are one pair of flags for all nexuses, cleared in six
    places and, in the reset and abort cases, left set for a sleeper to clear.
    `FlagInv` is the invariant that survives every interleaving, also those
    in which two commands overlap:

    * the lock is held exactly by a connected nexus, and while it is held
      `busy` is set and `working` clear;
    * `working` implies `busy` and a blocked nexus;
    * `busy` implies a nexus inside an accepted command.

    No assumption on `scsi_get_value` is needed here. -/

namespace TargetFlags

open LabelledRuns TargetDriver TargetSystem

variable {N : Type} [DecidableEq N] {getValue : GetValue}

/-- The invariant of the flags, the lock and the processes. -/
structure FlagInv (s : Sys N) : Prop where
  lock_connected : ∀ a, s.lock = some a → ∃ due, s.proc a = .connected due
  connected_lock : ∀ a due, s.proc a = .connected due → s.lock = some a
  lock_flags : ∀ a, s.lock = some a →
    s.state.busy = true ∧ s.state.working = false
  working_busy : s.state.working = true → s.state.busy = true
  working_blocked : s.state.working = true → ∃ a, s.proc a = .blocked
  busy_inside : s.state.busy = true → ∃ a, s.proc a ≠ .idle
  direction_data : ∀ a, s.proc a = .blocked ∨
    s.proc a = .connected .disconnect ∨ s.proc a = .connected .reselect →
    s.state.direction.isData = true

/-- The process just set away from idle is the nexus inside. -/
theorem update_inside (f : N → Proc) (a : N) {p : Proc} (hp : p ≠ .idle) :
    ∃ b, Function.update f a p b ≠ .idle :=
  ⟨a, by rw [Function.update_self]; exact hp⟩

omit [DecidableEq N] in
theorem flagInv_initial {s : Sys N} (h : Initial s) : FlagInv s := by
  obtain ⟨hb, hw, hl, hp⟩ := h
  refine ⟨?_, ?_, ?_, ?_, ?_, ?_, ?_⟩
  · intro a ha
    rw [hl] at ha
    exact nomatch ha
  · intro a due ha
    rw [hp] at ha
    exact nomatch ha
  · intro a ha
    rw [hl] at ha
    exact nomatch ha
  · intro h
    rw [hw] at h
    exact nomatch h
  · intro h
    rw [hw] at h
    exact nomatch h
  · intro h
    rw [hb] at h
    exact nomatch h
  · intro a ha
    rw [hp] at ha
    rcases ha with ha | ha | ha <;> exact nomatch ha

omit [DecidableEq N] in
/-- Nobody but the holder of the lock is connected. -/
theorem other_not_connected {s : Sys N} (h : FlagInv s) {a b : N} {due : Code}
    (hl : s.lock = none ∨ s.lock = some a) (hba : b ≠ a) :
    s.proc b ≠ .connected due := by
  intro hb
  have hlock := h.connected_lock b due hb
  rcases hl with hl | hl
  · rw [hl] at hlock
    exact nomatch hlock
  · rw [hl] at hlock
    exact hba (Option.some.inj hlock).symm

/-- A nexus that takes or keeps the lock, with the flags of a connected
    nexus. -/
theorem flagInv_connect {s : Sys N} (h : FlagInv s) {a : N} {due : Code}
    {state : State} {target : N → Target}
    (hl : s.lock = none ∨ s.lock = some a) (hb : state.busy = true)
    (hw : state.working = false)
    (hd : state.direction.isData = true ∨
      state.direction = s.state.direction ∧ due ≠ .disconnect ∧
        (due = .reselect → s.proc a = .blocked)) :
    FlagInv { state := state
              lock := some a
              proc := Function.update s.proc a (.connected due)
              target := target } := by
  refine ⟨?_, ?_, ?_, ?_, ?_, ?_, ?_⟩
  · rintro b hb'
    obtain rfl : a = b := Option.some.inj hb'
    exact ⟨due, Function.update_self ..⟩
  -- a second connected nexus would hold the same lock
  · intro b due' hb'
    by_cases hba : b = a
    · rw [hba]
    · have hb₀ : s.proc b = .connected due' :=
        (Function.update_of_ne hba _ _).symm.trans hb'
      exact absurd hb₀ (other_not_connected h hl hba)
  · intro b _
    exact ⟨hb, hw⟩
  · intro _
    exact hb
  · intro h'
    rw [hw] at h'
    exact nomatch h'
  · intro _
    exact update_inside s.proc a (fun h' => nomatch h')
  · intro b hb'
    rcases hd with hd | ⟨hdir, hdue, hres⟩
    · exact hd
    · show state.direction.isData = true
      rw [hdir]
      by_cases hba : b = a
      · subst hba
        simp only [Function.update_self] at hb'
        rcases hb' with hb' | hb' | hb'
        · exact nomatch hb'
        · exact absurd (Proc.connected.inj hb') hdue
        · exact h.direction_data b (Or.inl (hres (Proc.connected.inj hb')))
      · simp only [Function.update_of_ne hba] at hb'
        exact h.direction_data b hb'

/-- A nexus that ends its command with both flags clear. -/
theorem flagInv_release {s : Sys N} (h : FlagInv s) {a : N} {state : State}
    {target : N → Target} (hl : s.lock = none ∨ s.lock = some a)
    (hb : state.busy = true → ∃ b, b ≠ a ∧ s.proc b = .blocked)
    (hw : state.working = false)
    (hd : state.direction = s.state.direction) :
    FlagInv { state := state
              lock := none
              proc := Function.update s.proc a .idle
              target := target } := by
  refine ⟨?_, ?_, ?_, ?_, ?_, ?_, ?_⟩
  · intro b hb'
    exact nomatch hb'
  · intro b due hb'
    by_cases hba : b = a
    · subst hba
      exact nomatch (Function.update_self b Proc.idle s.proc).symm.trans hb'
    · have hb₀ : s.proc b = .connected due :=
        (Function.update_of_ne hba _ _).symm.trans hb'
      exact absurd hb₀ (other_not_connected h hl hba)
  · intro b hb'
    exact nomatch hb'
  · intro h'
    rw [hw] at h'
    exact nomatch h'
  · intro h'
    rw [hw] at h'
    exact nomatch h'
  · intro h'
    obtain ⟨b, hba, hp⟩ := hb h'
    refine ⟨b, ?_⟩
    show Function.update s.proc a .idle b ≠ .idle
    rw [Function.update_of_ne hba, hp]
    exact fun h' => nomatch h'
  · intro b hb'
    show state.direction.isData = true
    rw [hd]
    by_cases hba : b = a
    · subst hba
      simp only [Function.update_self] at hb'
      rcases hb' with hb' | hb' | hb' <;> exact nomatch hb'
    · simp only [Function.update_of_ne hba] at hb'
      exact h.direction_data b hb'

/-- **THE STEP LEMMA**: every move keeps the invariant. -/
theorem flagInv_move {s s' : Sys N} {e : Event N} {o : Output N}
    (h : FlagInv s) (hm : Move getValue s e o s') : FlagInv s' := by
  cases hm with
  | refuse hp hl hr hb =>
      exact ⟨h.lock_connected, h.connected_lock, h.lock_flags,
        h.working_busy, h.working_blocked, h.busy_inside, h.direction_data⟩
  | answer residue buffer status hp hl hr hb hL hres hst =>
      exact ⟨h.lock_connected, h.connected_lock, h.lock_flags,
        h.working_busy, h.working_blocked, h.busy_inside, h.direction_data⟩
  | @accept a t bytes residue dir buffer t' hp hl hr hb hL hres hdir ht' =>
      -- `busy` was clear, so `working` was too
      have hw : s.state.working = false := by
        cases hw : s.state.working with
        | false => rfl
        | true =>
            have := h.working_busy hw
            rw [hb] at this
            exact nomatch this
      have hdata := ownDirection_isData t
      rw [← hdir] at hdata
      refine flagInv_connect h (Or.inl hl) rfl hw (Or.inr ⟨rfl, ?_, ?_⟩)
      · intro hd
        rw [hd] at hdata
        exact nomatch hdata
      · intro hd
        rw [hd] at hdata
        exact nomatch hdata
  | finish buffer hp hl hd hk hres =>
      exact flagInv_release h (Or.inr hl) (fun h' => nomatch h')
        (h.lock_flags _ hl).2 rfl
  | overrun residue buffer hp hl hd hk hres hneg =>
      exact flagInv_release h (Or.inr hl) (fun h' => nomatch h')
        (h.lock_flags _ hl).2 rfl
  | @proceed a t bytes residue buffer t' hp hl hd hk hres hpos ht' =>
      refine flagInv_connect h (Or.inr hl) (h.lock_flags _ hl).1
        (h.lock_flags _ hl).2 (Or.inr ⟨rfl, ?_, ?_⟩)
      · intro hd'
        rw [hd'] at hd
        exact nomatch hd
      · intro hd'
        rw [hd'] at hd
        exact nomatch hd
  | save residue buffer hp hl hd hk hres hpos =>
      exact flagInv_connect h (Or.inr hl) (h.lock_flags _ hl).1
        (h.lock_flags _ hl).2 (Or.inl hd)
  -- not a case of `flagInv_release`: `working` is set and `a` stays inside
  | @block a t bytes hp hl hr hk =>
      have hdir := h.direction_data a (Or.inr (Or.inl hp))
      have hbusy := (h.lock_flags a hl).1
      refine ⟨?_, ?_, ?_, fun _ => hbusy,
        fun _ => ⟨a, Function.update_self ..⟩,
        fun _ => update_inside s.proc a (fun h' => nomatch h'),
        fun _ _ => hdir⟩
      · intro b hb
        exact nomatch hb
      · intro b due hb
        by_cases hba : b = a
        · subst hba
          exact nomatch
            (Function.update_self b Proc.blocked s.proc).symm.trans hb
        · have hb₀ : s.proc b = .connected due :=
            (Function.update_of_ne hba _ _).symm.trans hb
          exact absurd hb₀ (other_not_connected h (Or.inr hl) hba)
      · intro b hb
        exact nomatch hb
  | restart hp hl hw =>
      exact flagInv_release h (Or.inl hl) (fun h' => nomatch h') hw rfl
  | reselect hp hl hw =>
      exact flagInv_connect h (Or.inl hl) (h.working_busy hw) rfl
        (Or.inl (h.direction_data _ (Or.inl hp)))
  | @resume a t bytes t' hp hl hr hk ht' =>
      have hdir := h.direction_data a (Or.inr (Or.inr hp))
      rw [settle_connected s a _ _ (afterReply_data hdir)]
      exact flagInv_connect h (Or.inr hl) (h.lock_flags a hl).1
        (h.lock_flags a hl).2 (Or.inl hdir)
  | @stop a t bytes reply hp hl hidle hr hk hreply =>
      refine flagInv_release h hl ?_ rfl rfl
      -- `busy` survives only if `working` was set: some nexus is blocked
      intro hbw
      obtain ⟨b, hb⟩ := h.working_blocked (Bool.and_eq_true _ _ ▸ hbw).2
      exact ⟨b, fun hba => hp (hba ▸ hb), hb⟩
  -- the sleeper keeps `busy_inside`, even where `busy` is now clear
  | @stopBlocked a t bytes reply hp hl hr hk hreply =>
      refine ⟨h.lock_connected, h.connected_lock, ?_, ?_, ?_,
        fun _ => ⟨a, ?_⟩, h.direction_data⟩
      · intro b hb
        rw [show s.lock = some b from hb] at hl
        exact nomatch hl
      · intro h'
        exact nomatch h'
      · intro h'
        exact nomatch h'
      · rw [hp]
        exact fun h' => nomatch h'

/-- **THE RUN LEMMA**: the invariant holds in every reachable state. -/
theorem flagInv_reachable {s : Sys N}
    (h : Reachable (step getValue) Initial s) : FlagInv s :=
  reachable_invariant (fun _ => flagInv_initial)
    (fun _ _ _ _ hI hs => flagInv_move hI (step_move hs)) h

/-- With `busy` clear no command is refused. -/
theorem not_refused {s s' : Sys N} {a : N} {t : Target} {bytes : List UInt8}
    {o : Output N} (hb : s.state.busy = false) (hr : t.reason = .command)
    (hs : step getValue s (.callback a t bytes) = some (o, s')) :
    ¬ RefusedBusy o := by
  rintro ⟨hreply, hstatus⟩
  cases step_move hs with
  | refuse hp hl hr' hb' =>
      rw [hb] at hb'
      exact nomatch hb'
  | answer residue buffer status hp hl hr' hb' hL hres hst => exact hst hstatus
  | accept residue dir buffer t' hp hl hr' hb' hL hres hdir ht' =>
      have hdata := ownDirection_isData t
      rw [← hdir, Option.some.inj hreply] at hdata
      exact nomatch hdata
  | finish buffer hp hl hd => rw [hr] at hd; exact nomatch hd
  | overrun residue buffer hp hl hd => exact nomatch hreply
  | proceed residue buffer t' hp hl hd => rw [hr] at hd; exact nomatch hd
  | save residue buffer hp hl hd => exact nomatch hreply
  | block hp hl hr' => exact nomatch hreply
  | resume t' hp hl hr' => rw [hr] at hr'; exact nomatch hr'
  | stop reply hp hl hidle hr' => exact absurd hr hr'.1
  | stopBlocked reply hp hl hr' => exact absurd hr hr'.1

/-- **NO LOCK-OUT**: in every reachable state `working` means a blocked
    nexus and `busy` a nexus inside an accepted command; so when no command is
    in progress both flags are clear and any nexus's next command is answered
    by something other than BUSY. -/
theorem never_locked_out {s : Sys N}
    (h : Reachable (step getValue) Initial s) :
    (s.state.working = true → ∃ a, s.proc a = .blocked) ∧
      (s.state.busy = true → ∃ a, Inside s a) ∧
      ((∀ a, ¬ Inside s a) →
        s.state.busy = false ∧ s.state.working = false ∧
        ∀ a t bytes, t.reason = .command →
          ∃ o s', step getValue s (.callback a t bytes) = some (o, s') ∧
            ¬ RefusedBusy o) := by
  have hI := flagInv_reachable h
  refine ⟨hI.working_blocked, hI.busy_inside, ?_⟩
  intro hnone
  -- each flag needs a nexus inside, and so does the lock
  have hidle : ∀ a, s.proc a = .idle := fun a => Decidable.not_not.mp (hnone a)
  have hb : s.state.busy = false := by
    cases hb : s.state.busy with
    | false => rfl
    | true =>
        obtain ⟨a, ha⟩ := hI.busy_inside hb
        exact absurd ha (hnone a)
  have hw : s.state.working = false := by
    cases hw : s.state.working with
    | false => rfl
    | true =>
        have := hI.working_busy hw
        rw [hb] at this
        exact nomatch this
  have hl : s.lock = none := by
    cases hl : s.lock with
    | none => rfl
    | some a =>
        obtain ⟨due, hd⟩ := hI.lock_connected a hl
        rw [hidle a] at hd
        exact nomatch hd
  refine ⟨hb, hw, ?_⟩
  intro a t bytes hr
  have hmay : mayEnter s a t.reason := by
    rw [mayEnter, hidle a]
    exact ⟨hl, Or.inl hr⟩
  have hkept : Target.keptBy (s.target a) t := by
    refine ⟨fun h' => absurd hr h', ?_⟩
    intro h'
    rw [hr] at h'
    exact nomatch h'
  have hs : step getValue s (.callback a t bytes) = some (_, _) :=
    step_callback hmay hkept
  exact ⟨_, _, hs, not_refused hb hr hs⟩

/-- A reached state in which a nexus is blocked with `working` set. -/
theorem never_locked_out_blocked :
    ∃ s : Sys Nat, s.state.working = true ∧ s.state.busy = true ∧
      (∃ a, s.proc a = .blocked) ∧ ∃ a, Inside s a := by
  obtain ⟨tr, s, hr, -, hp⟩ :=
    @exec_reaches _ _ _ (step manualGetValue)
      (fun s => s.state.working && s.state.busy) powerOn (disconnectEvents 0)
      (by decide)
  obtain ⟨hw, hb⟩ := (Bool.and_eq_true _ _).mp hp
  have h := never_locked_out ⟨powerOn, tr, powerOn_initial, hr⟩
  exact ⟨s, hw, hb, h.1 hw, h.2.1 hb⟩

/-! ## The processes and the replies

    `Inside` is what its name says: a nexus gets inside by a command callback
    that replies with a data phase, and stays until a reply of its own process
    ends the command. -/

/-- The replies that end a command. -/
def EndsCommand (reply : Code) : Prop :=
  reply = .complete ∨ reply = .restart ∨ reply = .abort ∨ reply = .reset ∨
    reply = .notOk

theorem inside_begins {s s' : Sys N} {e : Event N} {o : Output N}
    (hm : Move getValue s e o s') {b : N} (h : ¬ Inside s b)
    (h' : Inside s' b) :
    ∃ t bytes d, e = .callback b t bytes ∧ t.reason = .command ∧
      o.reply = some d ∧ d.isData = true := by
  have hidle : s.proc b = .idle := Decidable.not_not.mp h
  have hb : b = o.nexus := by
    by_cases hb : b = o.nexus
    · exact hb
    · exact absurd ((proc_other hm hb).trans hidle) h'
  cases hm with
  | refuse hp => exact absurd hidle h'
  | answer residue buffer status hp => exact absurd hidle h'
  | accept residue dir buffer t' hp hl hr hb' hL hres hdir ht' =>
      subst hb
      exact ⟨_, _, dir, rfl, hr, rfl, hdir ▸ ownDirection_isData _⟩
  | finish buffer hp => subst hb; exact nomatch hidle.symm.trans hp
  | overrun residue buffer hp => subst hb; exact nomatch hidle.symm.trans hp
  | proceed residue buffer t' hp => subst hb; exact nomatch hidle.symm.trans hp
  | save residue buffer hp => subst hb; exact nomatch hidle.symm.trans hp
  | block hp => subst hb; exact nomatch hidle.symm.trans hp
  | restart hp => subst hb; exact nomatch hidle.symm.trans hp
  | reselect hp => subst hb; exact nomatch hidle.symm.trans hp
  | resume t' hp => subst hb; exact nomatch hidle.symm.trans hp
  | stop reply hp =>
      subst hb
      exact absurd (Function.update_self ..) h'
  | stopBlocked reply hp => subst hb; exact nomatch hidle.symm.trans hp

theorem inside_ends {s s' : Sys N} {e : Event N} {o : Output N}
    (hI : FlagInv s) (hm : Move getValue s e o s') {b : N} (h : Inside s b)
    (h' : ¬ Inside s' b) :
    b = o.nexus ∧ (∃ d, o.reply = some d ∧ EndsCommand d) ∧
      (s.proc b = .blocked → e = .wake b) := by
  have hidle : s'.proc b = .idle := Decidable.not_not.mp h'
  have hb : b = o.nexus := by
    by_cases hb : b = o.nexus
    · exact hb
    · exact absurd ((proc_other hm hb).symm.trans hidle) h
  refine ⟨hb, ?_⟩
  cases hm with
  | refuse hp => exact absurd hidle h
  | answer residue buffer status hp => exact absurd hidle h
  | accept =>
      subst hb
      exact nomatch (Function.update_self ..).symm.trans hidle
  | finish buffer hp =>
      refine ⟨⟨.complete, rfl, Or.inl rfl⟩, ?_⟩
      intro hbl
      subst hb
      exact nomatch hbl.symm.trans hp
  | overrun residue buffer hp =>
      refine ⟨⟨.notOk, rfl, Or.inr (Or.inr (Or.inr (Or.inr rfl)))⟩, ?_⟩
      intro hbl
      subst hb
      exact nomatch hbl.symm.trans hp
  | proceed =>
      subst hb
      exact nomatch (Function.update_self ..).symm.trans hidle
  | save =>
      subst hb
      exact nomatch (Function.update_self ..).symm.trans hidle
  | block =>
      subst hb
      exact nomatch (Function.update_self ..).symm.trans hidle
  | restart =>
      subst hb
      exact ⟨⟨.restart, rfl, Or.inr (Or.inl rfl)⟩, fun _ => rfl⟩
  | reselect =>
      subst hb
      exact nomatch (Function.update_self ..).symm.trans hidle
  | @resume a t bytes t' hp =>
      subst hb
      have hd := hI.direction_data _ (Or.inr (Or.inr hp))
      rw [settle_connected s _ _ _ (afterReply_data hd)] at hidle
      exact nomatch (Function.update_self ..).symm.trans hidle
  | stop reply hp hl hid hr hk hreply =>
      subst hb
      refine ⟨⟨reply, rfl, ?_⟩, fun hbl => absurd hbl hp⟩
      rcases hreply with rfl | rfl | rfl
      · exact Or.inr (Or.inr (Or.inr (Or.inl rfl)))
      · exact Or.inr (Or.inr (Or.inl rfl))
      · exact Or.inr (Or.inr (Or.inr (Or.inr rfl)))
  | stopBlocked reply hp => exact absurd hidle h

end TargetFlags
