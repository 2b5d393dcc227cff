import Ttm50.LabelledRuns
import Ttm50.TargetDriver

/-! # The nexuses under the SCSI lock

    Every nexus is a process that enters `target_callback` under the SCSI
    lock, keeps the lock from one callback to the next while it is connected,
    and gives it up only between the `scsi_unlock` and the `scsi_lock` of its
    `STARG_DISCONNECT` case.  The nexuses are the elements of an arbitrary
    type `N`; the interleaving is the list of events of a run.

    The library enters a callback with any `scsi_target` record that agrees
    with the documented protocol (`mayEnter`) and with what the driver left
    in the record (`Target.keptBy`); the command block, the flags and the
    bytes an initiator sends are the environment's choice.

    `Move` lists what a step can do, one constructor per case of the driver,
    and `step_move` is its inversion lemma: the invariants are derived from
    `Move` and never unfold the driver again. -/

namespace TargetSystem

open LabelledRuns TargetDriver

/-- Where the process of a nexus is: without a command in progress, connected
    (it holds the lock and the library's next callback is due), or blocked in
    the `scsi_lock` of `STARG_DISCONNECT`. -/
inductive Proc where
  | idle
  | connected (due : Code)
  | blocked
  deriving DecidableEq, Repr

variable {N : Type}

/-- The driver state, the holder of the SCSI lock between callbacks, the
    process of every nexus and its `scsi_target` record. -/
structure Sys (N : Type) where
  state : State
  lock : Option N
  proc : N → Proc
  target : N → Target

/-- `main`: the flags are reset, `residue`, `direction` and the buffer are as
    `scsi_malloc` left them, and no command is in progress. -/
def Initial (s : Sys N) : Prop :=
  s.state.busy = false ∧ s.state.working = false ∧ s.lock = none ∧
    ∀ a, s.proc a = .idle

/-- A nexus is inside an accepted command: connected or blocked.  A process
    becomes connected only by the data phase of its command (`Move.accept`)
    and is idle again once its own callback has given a reply that ends the
    command; a blocked process counts until its own callback returns. -/
def Inside (s : Sys N) (a : N) : Prop := s.proc a ≠ .idle

theorem inside_of_connected {s : Sys N} {a : N} {due : Code}
    (h : s.proc a = .connected due) : Inside s a := by
  intro h'
  exact nomatch h.symm.trans h'

theorem inside_of_blocked {s : Sys N} {a : N} (h : s.proc a = .blocked) :
    Inside s a := by
  intro h'
  exact nomatch h.symm.trans h'

/-- One atomic turn: a callback of nexus `a` with the record `target` (and,
    before `STARG_DATA_OUT`, the bytes received), or the return of `a`'s
    `scsi_lock`. -/
inductive Event (N : Type) where
  | callback (a : N) (target : Target) (bytes : List UInt8)
  | wake (a : N)
  deriving Repr

/-- What a turn shows: the nexus, the reply (`none` when the callback waits
    in `scsi_lock`) and the record the library reads after it. -/
structure Output (N : Type) where
  nexus : N
  reply : Option Code
  target : Target
  deriving Repr

/-- The nexus an event belongs to. -/
def Event.nexus : Event N → N
  | .callback a _ _ => a
  | .wake a => a

/-- What the library does after a reply, as the manual page says. -/
def afterReply : Code → Proc
  | .dataIn => .connected .dataIn
  | .dataOut => .connected .dataOut
  | .saveAndDisconnect => .connected .disconnect
  | .disconnect => .connected .disconnect
  | .reselect => .connected .reselect
  -- COMPLETE, RESTART, reset, abort and every error end the command
  | _ => .idle

/-- The library leaves `data` and, up to the data callback, `data_len` as the
    driver set them. -/
def Target.keptBy (old new : Target) : Prop :=
  (new.reason ≠ .command → new.data = old.data) ∧
    (new.reason.isData = true → new.dataLen = old.dataLen)

instance (old new : Target) : Decidable (Target.keptBy old new) :=
  inferInstanceAs (Decidable (_ ∧ _))

/-- The library stores the bytes of a data-out phase at `target->data`. -/
def received (state : State) (target : Target) (bytes : List UInt8) : State :=
  if target.reason = .dataOut ∧ target.data = state.data then
    { state with buffer := bytes ++ state.buffer.drop bytes.length }
  else state

/-- A reason that terminates is not a data phase. -/
theorem not_data_of_terminates {c : Code} (h : c.Terminates) :
    c.isData = false := by
  cases c with
  | dataIn => exact absurd rfl h.2.1
  | dataOut => exact absurd rfl h.2.2.1
  | _ => rfl

section Step

variable [DecidableEq N]

/-- The callbacks the manual allows: a command for an idle nexus, the due
    callback for a connected one, and a reset, an abort or an invalid reason
    for any nexus.  A nexus that does not hold the lock finds it free. -/
def mayEnter (s : Sys N) (a : N) (reason : Code) : Prop :=
  match s.proc a with
  | .idle => s.lock = none ∧ (reason = .command ∨ reason.Terminates)
  | .connected due =>
      s.lock = some a ∧
        (reason = due ∧ reason ≠ .command ∨ reason.Terminates)
  | .blocked => s.lock = none ∧ reason.Terminates

instance (s : Sys N) (a : N) (reason : Code) : Decidable (mayEnter s a reason) :=
  match h : s.proc a with
  | .idle => decidable_of_iff
      (s.lock = none ∧ (reason = .command ∨ reason.Terminates))
      (by rw [mayEnter, h])
  | .connected due => decidable_of_iff
      (s.lock = some a ∧
        (reason = due ∧ reason ≠ .command ∨ reason.Terminates))
      (by rw [mayEnter, h])
  | .blocked => decidable_of_iff (s.lock = none ∧ reason.Terminates)
      (by rw [mayEnter, h])

/-- The nexus after a reply of its own process. -/
def settle (s : Sys N) (a : N) (reply : Code) (state : State)
    (target : Target) : Sys N :=
  { state := state
    lock := if afterReply reply = .idle then none else some a
    proc := Function.update s.proc a (afterReply reply)
    target := Function.update s.target a target }

/-- A callback.  A reset, abort or invalid reason for a blocked nexus is a
    second call: the first one stays blocked. -/
def enter (getValue : GetValue) (s : Sys N) (a : N) (target : Target)
    (bytes : List UInt8) : Output N × Sys N :=
  match targetCallback getValue (received s.state target bytes) target with
  | .returns reply state target' =>
      (⟨a, some reply, target'⟩,
        -- the blocked call is still inside `scsi_lock`; only its own return ends it
        if s.proc a = .blocked then
          { s with
            state := state, target := Function.update s.target a target' }
        else settle s a reply state target')
  | .unlocked state target' =>
      (⟨a, none, target'⟩,
        { state := state
          lock := none
          proc := Function.update s.proc a .blocked
          target := Function.update s.target a target' })

/-- One turn of the system. -/
def step (getValue : GetValue) (s : Sys N) :
    Event N → Option (Output N × Sys N)
  | .callback a target bytes =>
      if mayEnter s a target.reason ∧ Target.keptBy (s.target a) target then
        some (enter getValue s a target bytes)
      else none
  | .wake a =>
      if s.proc a = .blocked ∧ s.lock = none then
        let (reply, state) := targetRelocked s.state
        some (⟨a, some reply, s.target a⟩,
          settle s a reply state (s.target a))
      else none

/-- A callback the manual allows takes place. -/
theorem step_callback {getValue : GetValue} {s : Sys N} {a : N} {t : Target}
    {bytes : List UInt8} (hmay : mayEnter s a t.reason)
    (hk : Target.keptBy (s.target a) t) :
    step getValue s (.callback a t bytes)
      = some (enter getValue s a t bytes) :=
  if_pos ⟨hmay, hk⟩

/-! ## What a step can do -/

/-- The cases of a step. -/
inductive Move (getValue : GetValue) (s : Sys N) :
    Event N → Output N → Sys N → Prop where
  /-- A command while the driver is busy. -/
  | refuse {a : N} {t : Target} {bytes : List UInt8}
      (hp : s.proc a = .idle) (hl : s.lock = none) (hr : t.reason = .command)
      (hb : s.state.busy = true) :
      Move getValue s (.callback a t bytes)
        ⟨a, some .complete, { t with status := sstatBusy }⟩
        { s with target :=
            Function.update s.target a { t with status := sstatBusy } }
  /-- A command without a data phase. -/
  | answer {a : N} {t : Target} {bytes : List UInt8} (residue : Int)
      (buffer : List UInt8) (status : UInt8)
      (hp : s.proc a = .idle) (hl : s.lock = none) (hr : t.reason = .command)
      (hb : s.state.busy = false) (hL : requestedLength getValue t = 0)
      (hres : residue = s.state.residue ∨ residue = 0)
      (hst : status ≠ sstatBusy) :
      Move getValue s (.callback a t bytes)
        ⟨a, some .complete, { t with status := status }⟩
        { s with
          state := { s.state with residue := residue, buffer := buffer }
          target := Function.update s.target a { t with status := status } }
  /-- A command is accepted: its first data phase. -/
  | accept {a : N} {t : Target} {bytes : List UInt8} (residue : Int)
      (dir : Code) (buffer : List UInt8) (t' : Target)
      (hp : s.proc a = .idle) (hl : s.lock = none)
      (hr : t.reason = .command) (hb : s.state.busy = false)
      (hL : requestedLength getValue t ≠ 0)
      (hres : residue = toInt32 (requestedLength getValue t))
      (hdir : dir = ownDirection t)
      (ht' : t' = { t with
        dataLen := chunkLen residue, data := s.state.data }) :
      Move getValue s (.callback a t bytes) ⟨a, some dir, t'⟩
        { state := { s.state with
            residue := residue, busy := true, buffer := buffer }
          lock := some a
          proc := Function.update s.proc a (.connected dir)
          target := Function.update s.target a t' }
  /-- The last data phase of a command is over. -/
  | finish {a : N} {t : Target} {bytes : List UInt8} (buffer : List UInt8)
      (hp : s.proc a = .connected t.reason) (hl : s.lock = some a)
      (hd : t.reason.isData = true) (hk : Target.keptBy (s.target a) t)
      (hres : toInt32 (s.state.residue - t.dataLen) = 0) :
      Move getValue s (.callback a t bytes)
        ⟨a, some .complete, { t with status := sstatGood }⟩
        { state := { s.state with
            residue := 0, busy := false, buffer := buffer }
          lock := none
          proc := Function.update s.proc a .idle
          target := Function.update s.target a { t with status := sstatGood } }
  /-- The `Invalid residue` branch. -/
  | overrun {a : N} {t : Target} {bytes : List UInt8} (residue : Int)
      (buffer : List UInt8)
      (hp : s.proc a = .connected t.reason) (hl : s.lock = some a)
      (hd : t.reason.isData = true) (hk : Target.keptBy (s.target a) t)
      (hres : residue = toInt32 (s.state.residue - t.dataLen))
      (hneg : residue < 0) :
      Move getValue s (.callback a t bytes) ⟨a, some .notOk, t⟩
        { state := { s.state with
            residue := residue, busy := false, buffer := buffer }
          lock := none
          proc := Function.update s.proc a .idle
          target := Function.update s.target a t }
  /-- The next data phase follows at once. -/
  | proceed {a : N} {t : Target} {bytes : List UInt8} (residue : Int)
      (buffer : List UInt8) (t' : Target)
      (hp : s.proc a = .connected t.reason) (hl : s.lock = some a)
      (hd : t.reason.isData = true) (hk : Target.keptBy (s.target a) t)
      (hres : residue = toInt32 (s.state.residue - t.dataLen))
      (hpos : 0 < residue)
      (ht' : t' = { t with dataLen := chunkLen residue }) :
      Move getValue s (.callback a t bytes) ⟨a, some t.reason, t'⟩
        { state := { s.state with residue := residue, buffer := buffer }
          lock := some a
          proc := Function.update s.proc a (.connected t.reason)
          target := Function.update s.target a t' }
  /-- The nexus is to disconnect before its next data phase. -/
  | save {a : N} {t : Target} {bytes : List UInt8} (residue : Int)
      (buffer : List UInt8)
      (hp : s.proc a = .connected t.reason) (hl : s.lock = some a)
      (hd : t.reason.isData = true) (hk : Target.keptBy (s.target a) t)
      (hres : residue = toInt32 (s.state.residue - t.dataLen))
      (hpos : 0 < residue) :
      Move getValue s (.callback a t bytes) ⟨a, some .saveAndDisconnect, t⟩
        { state := { s.state with
            residue := residue, direction := t.reason, buffer := buffer }
          lock := some a
          proc := Function.update s.proc a (.connected .disconnect)
          target := Function.update s.target a t }
  /-- The nexus disconnects and blocks. -/
  | block {a : N} {t : Target} {bytes : List UInt8}
      (hp : s.proc a = .connected .disconnect) (hl : s.lock = some a)
      (hr : t.reason = .disconnect) (hk : Target.keptBy (s.target a) t) :
      Move getValue s (.callback a t bytes) ⟨a, none, t⟩
        { state := { s.state with working := true }
          lock := none
          proc := Function.update s.proc a .blocked
          target := Function.update s.target a t }
  /-- A blocked nexus finds itself terminated. -/
  | restart {a : N} (hp : s.proc a = .blocked) (hl : s.lock = none)
      (hw : s.state.working = false) :
      Move getValue s (.wake a) ⟨a, some .restart, s.target a⟩
        { state := { s.state with busy := false }
          lock := none
          proc := Function.update s.proc a .idle
          target := Function.update s.target a (s.target a) }
  /-- A blocked nexus is to reselect. -/
  | reselect {a : N} (hp : s.proc a = .blocked) (hl : s.lock = none)
      (hw : s.state.working = true) :
      Move getValue s (.wake a) ⟨a, some .reselect, s.target a⟩
        { state := { s.state with working := false }
          lock := some a
          proc := Function.update s.proc a (.connected .reselect)
          target := Function.update s.target a (s.target a) }
  /-- A reselected nexus starts its next data phase. -/
  | resume {a : N} {t : Target} {bytes : List UInt8} (t' : Target)
      (hp : s.proc a = .connected .reselect) (hl : s.lock = some a)
      (hr : t.reason = .reselect) (hk : Target.keptBy (s.target a) t)
      (ht' : t' = { t with dataLen := chunkLen s.state.residue }) :
      Move getValue s (.callback a t bytes) ⟨a, some s.state.direction, t'⟩
        (settle s a s.state.direction s.state t')
  /-- A reset, an abort or an invalid reason for a nexus that is not
      blocked. -/
  | stop {a : N} {t : Target} {bytes : List UInt8} (reply : Code)
      (hp : s.proc a ≠ .blocked) (hl : s.lock = none ∨ s.lock = some a)
      (hidle : s.proc a = .idle → s.lock = none)
      (hr : t.reason.Terminates) (hk : Target.keptBy (s.target a) t)
      (hreply : reply = .reset ∨ reply = .abort ∨ reply = .notOk) :
      Move getValue s (.callback a t bytes) ⟨a, some reply, t⟩
        { state := { s.state with
            busy := s.state.busy && s.state.working, working := false }
          lock := none
          proc := Function.update s.proc a .idle
          target := Function.update s.target a t }
  /-- The same for a nexus that is blocked. -/
  | stopBlocked {a : N} {t : Target} {bytes : List UInt8} (reply : Code)
      (hp : s.proc a = .blocked) (hl : s.lock = none)
      (hr : t.reason.Terminates) (hk : Target.keptBy (s.target a) t)
      (hreply : reply = .reset ∨ reply = .abort ∨ reply = .notOk) :
      Move getValue s (.callback a t bytes) ⟨a, some reply, t⟩
        { s with
          state := { s.state with
            busy := s.state.busy && s.state.working, working := false }
          target := Function.update s.target a t }

variable {getValue : GetValue}

/-- The library's storing of received bytes changes the buffer only. -/
theorem received_eq (state : State) (target : Target) (bytes : List UInt8) :
    ∃ buffer, received state target bytes
      = { state with buffer := buffer } := by
  by_cases h : target.reason = .dataOut ∧ target.data = state.data
  · exact ⟨_, if_pos h⟩
  · exact ⟨state.buffer, if_neg h⟩

theorem received_of_ne (state : State) {target : Target} (bytes : List UInt8)
    (h : target.reason ≠ .dataOut) : received state target bytes = state :=
  if_neg (fun h' => h h'.1)

theorem settle_idle (s : Sys N) (a : N) {reply : Code} (state : State)
    (target : Target) (h : afterReply reply = .idle) :
    settle s a reply state target
      = { state := state
          lock := none
          proc := Function.update s.proc a .idle
          target := Function.update s.target a target } := by
  show Sys.mk state _ _ _ = _
  rw [if_pos h, h]

theorem settle_connected (s : Sys N) (a : N) {reply due : Code}
    (state : State) (target : Target)
    (h : afterReply reply = .connected due) :
    settle s a reply state target
      = { state := state
          lock := some a
          proc := Function.update s.proc a (.connected due)
          target := Function.update s.target a target } := by
  show Sys.mk state _ _ _ = _
  rw [if_neg (by rw [h]; exact fun h' => Proc.noConfusion h'), h]

theorem enter_returns {s : Sys N} {a : N} {target target' : Target}
    {bytes : List UInt8} {reply : Code} {state : State}
    (h : targetCallback getValue (received s.state target bytes) target
      = .returns reply state target') (hp : s.proc a ≠ .blocked) :
    enter getValue s a target bytes
      = (⟨a, some reply, target'⟩, settle s a reply state target') := by
  show (match targetCallback getValue (received s.state target bytes) target
    with | .returns _ _ _ => _ | .unlocked _ _ => _) = _
  rw [h]
  simp only [if_neg hp]

/-- The command callback of an idle nexus. -/
theorem enter_command {s : Sys N} {a : N} {t : Target} {bytes : List UInt8}
    (hp : s.proc a = .idle) (hl : s.lock = none) (hr : t.reason = .command) :
    Move getValue s (.callback a t bytes)
      (enter getValue s a t bytes).1 (enter getValue s a t bytes).2 := by
  have hne : s.proc a ≠ .blocked := by rw [hp]; exact fun h => nomatch h
  have hrec : received s.state t bytes = s.state :=
    received_of_ne s.state bytes (by rw [hr]; exact fun h => nomatch h)
  have hcall : targetCallback getValue (received s.state t bytes) t
      = .returns (targetCommand getValue s.state t).1
          (targetCommand getValue s.state t).2.1
          (targetCommand getValue s.state t).2.2 := by
    rw [hrec, targetCallback, hr]
  -- a command without a data phase leaves the nexus idle, as it was
  have hself : Function.update s.proc a .idle = s.proc := by
    rw [← hp, Function.update_eq_self]
  rw [enter_returns hcall hne]
  by_cases hb : s.state.busy = true
  · rw [targetCommand_busy getValue t hb, settle_idle s a _ _ rfl, hself]
    have hm : Move getValue s (.callback a t bytes) _ _ :=
      .refuse hp hl hr hb
    rw [hl] at hm
    exact hm
  · have hb' : s.state.busy = false := by simpa using hb
    by_cases hL : requestedLength getValue t = 0
    · obtain ⟨residue, buffer, status, hres, hst, heq⟩ :=
        targetCommand_completes hb' hL
      rw [heq, settle_idle s a _ _ rfl, hself]
      have hm : Move getValue s (.callback a t bytes) _ _ :=
        .answer residue buffer status hp hl hr hb' hL hres hst
      rw [hl] at hm
      exact hm
    · obtain ⟨buffer, heq⟩ := targetCommand_accepts hb' hL
      have hafter : afterReply (ownDirection t)
          = .connected (ownDirection t) := by
        rw [ownDirection]
        split <;> rfl
      rw [heq, settle_connected s a _ _ hafter]
      exact .accept _ _ buffer _ hp hl hr hb' hL rfl rfl rfl

/-- The data callback of a connected nexus. -/
theorem enter_data {s : Sys N} {a : N} {t : Target} {bytes : List UInt8}
    (hp : s.proc a = .connected t.reason) (hl : s.lock = some a)
    (hd : t.reason.isData = true) (hk : Target.keptBy (s.target a) t) :
    Move getValue s (.callback a t bytes)
      (enter getValue s a t bytes).1 (enter getValue s a t bytes).2 := by
  have hne : s.proc a ≠ .blocked := by rw [hp]; exact fun h => nomatch h
  obtain ⟨buffer, hrec⟩ := received_eq s.state t bytes
  -- the two data cases share their text in the `switch`
  have hcase : targetCallback getValue (received s.state t bytes) t
      = dataDone (received s.state t bytes) t := by
    rw [targetCallback]
    cases hr : t.reason <;> rw [hr] at hd <;> first | rfl | exact nomatch hd
  rw [hrec] at hcase
  -- the four branches in the order of the source
  by_cases h0 : toInt32 (s.state.residue - t.dataLen) = 0
  · have hcall : targetCallback getValue (received s.state t bytes) t
        = .returns .complete
            { s.state with residue := 0, busy := false, buffer := buffer }
            { t with status := sstatGood } := by
      rw [hrec, hcase, dataDone]
      simp only [h0, if_true]
    rw [enter_returns hcall hne, settle_idle s a _ _ rfl]
    exact .finish buffer hp hl hd hk h0
  by_cases hneg : toInt32 (s.state.residue - t.dataLen) < 0
  · have hcall : targetCallback getValue (received s.state t bytes) t
        = .returns .notOk
            { s.state with
              residue := toInt32 (s.state.residue - t.dataLen)
              busy := false, buffer := buffer } t := by
      rw [hrec, hcase, dataDone]
      simp only [if_neg h0, if_pos hneg]
    rw [enter_returns hcall hne, settle_idle s a _ _ rfl]
    exact .overrun _ buffer hp hl hd hk rfl hneg
  have hpos : 0 < toInt32 (s.state.residue - t.dataLen) := by omega
  by_cases hf : t.flags &&& sflagNoDisconnects ≠ 0
  · have hcall : targetCallback getValue (received s.state t bytes) t
        = .returns t.reason
            { s.state with
              residue := toInt32 (s.state.residue - t.dataLen)
              buffer := buffer }
            { t with
              dataLen := chunkLen (toInt32 (s.state.residue - t.dataLen)) } := by
      rw [hrec, hcase, dataDone]
      simp only [if_neg h0, if_neg hneg, if_pos hf]
    have hafter : afterReply t.reason = .connected t.reason := by
      cases hr : t.reason <;> rw [hr] at hd <;> first | rfl | exact nomatch hd
    rw [enter_returns hcall hne, settle_connected s a _ _ hafter]
    exact .proceed _ buffer _ hp hl hd hk rfl hpos rfl
  · have hcall : targetCallback getValue (received s.state t bytes) t
        = .returns .saveAndDisconnect
            { s.state with
              residue := toInt32 (s.state.residue - t.dataLen)
              direction := t.reason, buffer := buffer } t := by
      rw [hrec, hcase, dataDone]
      simp only [if_neg h0, if_neg hneg, if_neg hf]
    rw [enter_returns hcall hne, settle_connected s a _ _ rfl]
    exact .save _ buffer hp hl hd hk rfl hpos

/-- The callback after a disconnect: the nexus blocks. -/
theorem enter_disconnect {s : Sys N} {a : N} {t : Target}
    {bytes : List UInt8} (hp : s.proc a = .connected .disconnect)
    (hl : s.lock = some a) (hr : t.reason = .disconnect)
    (hk : Target.keptBy (s.target a) t) :
    Move getValue s (.callback a t bytes)
      (enter getValue s a t bytes).1 (enter getValue s a t bytes).2 := by
  have hrec : received s.state t bytes = s.state :=
    received_of_ne s.state bytes (by rw [hr]; exact fun h => nomatch h)
  have hcall : targetCallback getValue (received s.state t bytes) t
      = .unlocked { s.state with working := true } t := by
    rw [hrec, targetCallback, hr]
  have henter : enter getValue s a t bytes
      = (⟨a, none, t⟩,
          { state := { s.state with working := true }
            lock := none
            proc := Function.update s.proc a .blocked
            target := Function.update s.target a t }) := by
    rw [enter, hcall]
  rw [henter]
  exact .block hp hl hr hk

/-- The callback after a reselection. -/
theorem enter_reselect {s : Sys N} {a : N} {t : Target} {bytes : List UInt8}
    (hp : s.proc a = .connected .reselect) (hl : s.lock = some a)
    (hr : t.reason = .reselect) (hk : Target.keptBy (s.target a) t) :
    Move getValue s (.callback a t bytes)
      (enter getValue s a t bytes).1 (enter getValue s a t bytes).2 := by
  have hne : s.proc a ≠ .blocked := by rw [hp]; exact fun h => nomatch h
  have hrec : received s.state t bytes = s.state :=
    received_of_ne s.state bytes (by rw [hr]; exact fun h => nomatch h)
  have hcall : targetCallback getValue (received s.state t bytes) t
      = .returns s.state.direction s.state
          { t with dataLen := chunkLen s.state.residue } := by
    rw [hrec, targetCallback, hr]
  rw [enter_returns hcall hne]
  exact .resume _ hp hl hr hk rfl

/-- The three terminating cases of the `switch` act alike on the flags. -/
theorem targetCallback_terminates (getValue : GetValue) (state : State)
    {t : Target} (hr : t.reason.Terminates) :
    ∃ reply, (reply = .reset ∨ reply = .abort ∨ reply = .notOk) ∧
      afterReply reply = .idle ∧
      targetCallback getValue state t
        = .returns reply
            { state with busy := state.busy && state.working
                         working := false } t := by
  obtain ⟨h₁, h₂, h₃, h₄, h₅⟩ := hr
  -- `if (!working) busy = FALSE` is the conjunction of the two flags
  have hterm : ∀ reply, terminate reply state t
      = .returns reply
          { state with busy := state.busy && state.working
                       working := false } t := by
    intro reply
    rw [terminate]
    cases hw : state.working with
    | true => simp
    | false => simp
  rw [targetCallback]
  cases hr : t.reason with
  | command => exact absurd hr h₁
  | dataIn => exact absurd hr h₂
  | dataOut => exact absurd hr h₃
  | disconnect => exact absurd hr h₄
  | reselect => exact absurd hr h₅
  | reset => exact ⟨.reset, Or.inl rfl, rfl, hterm _⟩
  | abort => exact ⟨.abort, Or.inr (Or.inl rfl), rfl, hterm _⟩
  | complete => exact ⟨.notOk, Or.inr (Or.inr rfl), rfl, hterm _⟩
  | saveAndDisconnect => exact ⟨.notOk, Or.inr (Or.inr rfl), rfl, hterm _⟩
  | restart => exact ⟨.notOk, Or.inr (Or.inr rfl), rfl, hterm _⟩
  | notOk => exact ⟨.notOk, Or.inr (Or.inr rfl), rfl, hterm _⟩
  | other n => exact ⟨.notOk, Or.inr (Or.inr rfl), rfl, hterm _⟩

/-- A reset, abort or invalid reason, for any nexus. -/
theorem enter_terminates {s : Sys N} {a : N} {t : Target}
    {bytes : List UInt8} (hl : s.lock = none ∨ s.lock = some a)
    (hfree : s.proc a = .idle ∨ s.proc a = .blocked → s.lock = none)
    (hr : t.reason.Terminates) (hk : Target.keptBy (s.target a) t) :
    Move getValue s (.callback a t bytes)
      (enter getValue s a t bytes).1 (enter getValue s a t bytes).2 := by
  have hrec : received s.state t bytes = s.state :=
    received_of_ne s.state bytes hr.2.2.1
  obtain ⟨reply, hreply, hafter, hcall⟩ :=
    targetCallback_terminates getValue (received s.state t bytes) hr
  by_cases hp : s.proc a = .blocked
  · have henter : enter getValue s a t bytes
        = (⟨a, some reply, t⟩,
            { s with
              state := { s.state with
                busy := s.state.busy && s.state.working, working := false }
              target := Function.update s.target a t }) := by
      rw [enter, hcall, hrec]
      simp only [if_pos hp]
    rw [henter]
    exact .stopBlocked reply hp (hfree (Or.inr hp)) hr hk hreply
  · rw [enter_returns hcall hp, settle_idle s a _ _ hafter, hrec]
    exact .stop reply hp hl (fun h => hfree (Or.inl h)) hr hk hreply

/-- The due callback of a connected nexus. -/
theorem enter_due {s : Sys N} {a : N} {t : Target} {bytes : List UInt8}
    (hp : s.proc a = .connected t.reason) (hl : s.lock = some a)
    (hc : t.reason ≠ .command) (hk : Target.keptBy (s.target a) t) :
    Move getValue s (.callback a t bytes)
      (enter getValue s a t bytes).1 (enter getValue s a t bytes).2 := by
  by_cases hd : t.reason.isData = true
  · exact enter_data hp hl hd hk
  -- a due reason that is none of the `STARG_` cases takes the default case
  by_cases h₄ : t.reason = .disconnect
  · rw [h₄] at hp
    exact enter_disconnect hp hl h₄ hk
  by_cases h₅ : t.reason = .reselect
  · rw [h₅] at hp
    exact enter_reselect hp hl h₅ hk
  · refine enter_terminates (Or.inr hl) ?_ ⟨hc, ?_, ?_, h₄, h₅⟩ hk
    · rw [hp]
      rintro (h | h) <;> exact nomatch h
    · intro h
      exact hd (by rw [h]; rfl)
    · intro h
      exact hd (by rw [h]; rfl)

/-- The return of a blocked nexus's `scsi_lock`. -/
theorem wake_move {s : Sys N} {a : N} (hp : s.proc a = .blocked)
    (hl : s.lock = none) :
    Move getValue s (.wake a)
      ⟨a, some (targetRelocked s.state).1, s.target a⟩
      (settle s a (targetRelocked s.state).1 (targetRelocked s.state).2
        (s.target a)) := by
  cases hw : s.state.working with
  | false =>
      have hre : targetRelocked s.state
          = (.restart, { s.state with busy := false }) :=
        if_pos (by rw [hw]; rfl)
      rw [hre, settle_idle s a _ _ rfl]
      exact .restart hp hl hw
  | true =>
      have hre : targetRelocked s.state
          = (.reselect, { s.state with working := false }) :=
        if_neg (by rw [hw]; exact Bool.false_ne_true)
      rw [hre, settle_connected s a _ _ rfl]
      exact .reselect hp hl hw

/-- **The inversion lemma**: a step of the system is one of the moves. -/
theorem step_move {s s' : Sys N} {e : Event N} {o : Output N}
    (h : step getValue s e = some (o, s')) : Move getValue s e o s' := by
  cases e with
  | callback a t bytes =>
      rw [step] at h
      by_cases hguard : mayEnter s a t.reason ∧ Target.keptBy (s.target a) t
      · rw [if_pos hguard] at h
        obtain ⟨hmay, hk⟩ := hguard
        have hm : Move getValue s (.callback a t bytes)
            (enter getValue s a t bytes).1 (enter getValue s a t bytes).2 := by
          cases hp : s.proc a with
          | idle =>
              rw [mayEnter, hp] at hmay
              obtain ⟨hl, hr | hr⟩ := hmay
              · exact enter_command hp hl hr
              · exact enter_terminates (Or.inl hl) (fun _ => hl) hr hk
          | blocked =>
              rw [mayEnter, hp] at hmay
              obtain ⟨hl, hr⟩ := hmay
              exact enter_terminates (Or.inl hl) (fun _ => hl) hr hk
          | connected due =>
              rw [mayEnter, hp] at hmay
              obtain ⟨hl, ⟨rfl, hc⟩ | hr⟩ := hmay
              · exact enter_due hp hl hc hk
              · refine enter_terminates (Or.inr hl) ?_ hr hk
                rw [hp]
                rintro (h' | h') <;> exact nomatch h'
        rw [Option.some.inj h] at hm
        exact hm
      · rw [if_neg hguard] at h
        exact nomatch h
  | wake a =>
      rw [step] at h
      by_cases hguard : s.proc a = .blocked ∧ s.lock = none
      · rw [if_pos hguard] at h
        have ho : Output.mk a (some (targetRelocked s.state).1) (s.target a)
            = o := congrArg Prod.fst (Option.some.inj h)
        have hs : settle s a (targetRelocked s.state).1
            (targetRelocked s.state).2 (s.target a) = s' :=
          congrArg Prod.snd (Option.some.inj h)
        rw [← ho, ← hs]
        exact wake_move hguard.1 hguard.2
      · rw [if_neg hguard] at h
        exact nomatch h

/-! ## Moves by their reason -/

theorem afterReply_data {c : Code} (h : c.isData = true) :
    afterReply c = .connected c := by
  cases c <;> first | rfl | exact nomatch h

/-- The reply to a command callback: refused with BUSY or not. -/
def RefusedBusy (o : Output N) : Prop :=
  o.reply = some .complete ∧ o.target.status = sstatBusy

/-- A turn of one nexus leaves the other processes where they are. -/
theorem proc_other {s s' : Sys N} {e : Event N} {o : Output N}
    (hm : Move getValue s e o s') {b : N} (hb : b ≠ o.nexus) :
    s'.proc b = s.proc b := by
  cases hm with
  | refuse => rfl
  | answer => rfl
  | stopBlocked => rfl
  | resume => exact Function.update_of_ne hb _ _
  | accept => exact Function.update_of_ne hb _ _
  | finish => exact Function.update_of_ne hb _ _
  | overrun => exact Function.update_of_ne hb _ _
  | proceed => exact Function.update_of_ne hb _ _
  | save => exact Function.update_of_ne hb _ _
  | block => exact Function.update_of_ne hb _ _
  | restart => exact Function.update_of_ne hb _ _
  | reselect => exact Function.update_of_ne hb _ _
  | stop => exact Function.update_of_ne hb _ _

/-- A busy driver refuses a command, and nothing else changes. -/
theorem move_refused {s s' : Sys N} {a : N} {t : Target} {bytes : List UInt8}
    {o : Output N} (hm : Move getValue s (.callback a t bytes) o s')
    (hr : t.reason = .command) (hb : s.state.busy = true) :
    RefusedBusy o ∧ s'.state = s.state ∧ s'.lock = s.lock ∧
      s'.proc = s.proc := by
  cases hm with
  | refuse => exact ⟨⟨rfl, rfl⟩, rfl, rfl, rfl⟩
  | answer residue buffer status hp hl hr' hb' => exact nomatch hb.symm.trans hb'
  | accept residue dir buffer t' hp hl hr' hb' => exact nomatch hb.symm.trans hb'
  | finish buffer hp hl hd => rw [hr] at hd; exact nomatch hd
  | overrun residue buffer hp hl hd => rw [hr] at hd; exact nomatch hd
  | proceed residue buffer t' hp hl hd => rw [hr] at hd; exact nomatch hd
  | save residue buffer hp hl hd => rw [hr] at hd; exact nomatch hd
  | block hp hl hr' => exact nomatch hr.symm.trans hr'
  | resume t' hp hl hr' => exact nomatch hr.symm.trans hr'
  | stop reply hp hl hidle hr' => exact absurd hr hr'.1
  | stopBlocked reply hp hl hr' => exact absurd hr hr'.1

/-- A reset, an abort or an invalid reason clears `working`, and clears `busy`
    too if `working` was already clear.  A blocked nexus stays blocked. -/
theorem move_terminates {s s' : Sys N} {a : N} {t : Target}
    {bytes : List UInt8} {o : Output N}
    (hm : Move getValue s (.callback a t bytes) o s')
    (hr : t.reason.Terminates) :
    s'.state = { s.state with
        busy := s.state.busy && s.state.working, working := false } ∧
      s'.lock = none ∧ ∀ b, s.proc b = .blocked → s'.proc b = .blocked := by
  have hdata : t.reason.isData ≠ true := by
    rw [not_data_of_terminates hr]
    exact Bool.false_ne_true
  cases hm with
  | refuse hp hl hr' => exact absurd hr' hr.1
  | answer residue buffer status hp hl hr' => exact absurd hr' hr.1
  | accept residue dir buffer t' hp hl hr' => exact absurd hr' hr.1
  | finish buffer hp hl hd => exact absurd hd hdata
  | overrun residue buffer hp hl hd => exact absurd hd hdata
  | proceed residue buffer t' hp hl hd => exact absurd hd hdata
  | save residue buffer hp hl hd => exact absurd hd hdata
  | block hp hl hr' => exact absurd hr' hr.2.2.2.1
  | resume t' hp hl hr' => exact absurd hr' hr.2.2.2.2
  | stop reply hp =>
      refine ⟨rfl, rfl, ?_⟩
      intro b hb
      have hba : b ≠ a := fun hba => hp (hba ▸ hb)
      exact (Function.update_of_ne hba _ _).trans hb
  | stopBlocked reply hp hl => exact ⟨rfl, hl, fun _ hb => hb⟩

/-- The callback after a disconnect sets `working` and frees the lock. -/
theorem move_disconnect {s s' : Sys N} {a : N} {t : Target}
    {bytes : List UInt8} {o : Output N}
    (hm : Move getValue s (.callback a t bytes) o s')
    (hr : t.reason = .disconnect) :
    s.lock = some a ∧ s'.state = { s.state with working := true } ∧
      s'.lock = none ∧ s'.proc = Function.update s.proc a .blocked := by
  cases hm with
  | refuse hp hl hr' => exact nomatch hr.symm.trans hr'
  | answer residue buffer status hp hl hr' => exact nomatch hr.symm.trans hr'
  | accept residue dir buffer t' hp hl hr' => exact nomatch hr.symm.trans hr'
  | finish buffer hp hl hd => rw [hr] at hd; exact nomatch hd
  | overrun residue buffer hp hl hd => rw [hr] at hd; exact nomatch hd
  | proceed residue buffer t' hp hl hd => rw [hr] at hd; exact nomatch hd
  | save residue buffer hp hl hd => rw [hr] at hd; exact nomatch hd
  | block hp hl => exact ⟨hl, rfl, rfl, rfl⟩
  | resume t' hp hl hr' => exact nomatch hr.symm.trans hr'
  | stop reply hp hl hidle hr' => exact absurd hr hr'.2.2.2.1
  | stopBlocked reply hp hl hr' => exact absurd hr hr'.2.2.2.1

/-- Only a disconnect sets `working`. -/
theorem working_set {s s' : Sys N} {e : Event N} {o : Output N}
    (hm : Move getValue s e o s') (hw : s.state.working = false)
    (hw' : s'.state.working = true) :
    ∃ a t bytes, e = .callback a t bytes ∧ t.reason = .disconnect := by
  cases hm with
  | block hp hl hr => exact ⟨_, _, _, rfl, hr⟩
  | stop => exact nomatch hw'
  | stopBlocked => exact nomatch hw'
  | reselect => exact nomatch hw'
  | _ => exact nomatch hw.symm.trans hw'

/-- While the lock is free, a callback brings a command or terminates. -/
theorem callback_unlocked {s s' : Sys N} {a : N} {t : Target}
    {bytes : List UInt8} {o : Output N}
    (hm : Move getValue s (.callback a t bytes) o s') (hl : s.lock = none) :
    t.reason = .command ∨ t.reason.Terminates := by
  cases hm with
  | refuse hp hl' hr => exact Or.inl hr
  | answer residue buffer status hp hl' hr => exact Or.inl hr
  | accept residue dir buffer t' hp hl' hr => exact Or.inl hr
  | finish buffer hp hl' => exact nomatch hl.symm.trans hl'
  | overrun residue buffer hp hl' => exact nomatch hl.symm.trans hl'
  | proceed residue buffer t' hp hl' => exact nomatch hl.symm.trans hl'
  | save residue buffer hp hl' => exact nomatch hl.symm.trans hl'
  | block hp hl' => exact nomatch hl.symm.trans hl'
  | resume t' hp hl' => exact nomatch hl.symm.trans hl'
  | stop reply hp hl' hidle hr => exact Or.inr hr
  | stopBlocked reply hp hl' hr => exact Or.inr hr

/-- A blocked nexus stays blocked until its own `scsi_lock` returns. -/
theorem blocked_stays {s s' : Sys N} {e : Event N} {o : Output N} {a : N}
    (hm : Move getValue s e o s') (hp : s.proc a = .blocked)
    (he : e ≠ .wake a) : s'.proc a = .blocked := by
  -- only the nexus's own moves touch its process, and only `wake` needs it blocked
  by_cases ha : a = o.nexus
  · subst ha
    cases hm with
    | refuse => exact hp
    | answer => exact hp
    | stopBlocked => exact hp
    | accept residue dir buffer t' hp' => exact nomatch hp.symm.trans hp'
    | finish buffer hp' => exact nomatch hp.symm.trans hp'
    | overrun residue buffer hp' => exact nomatch hp.symm.trans hp'
    | proceed residue buffer t' hp' => exact nomatch hp.symm.trans hp'
    | save residue buffer hp' => exact nomatch hp.symm.trans hp'
    | block hp' => exact nomatch hp.symm.trans hp'
    | resume t' hp' => exact nomatch hp.symm.trans hp'
    | restart => exact absurd rfl he
    | reselect => exact absurd rfl he
    | stop reply hp' => exact absurd hp hp'
  · exact (proc_other hm ha).trans hp

/-- A blocked nexus gets the free lock and restarts if it finds `working`
    clear. -/
theorem wake_restarts {s : Sys N} {a : N} (hp : s.proc a = .blocked)
    (hl : s.lock = none) (hw : s.state.working = false) :
    ∃ o s', step getValue s (.wake a) = some (o, s') ∧
      o.reply = some .restart := by
  refine ⟨_, _, if_pos ⟨hp, hl⟩, ?_⟩
  show some (targetRelocked s.state).1 = some .restart
  rw [targetRelocked, hw]
  rfl

/-- A blocked nexus gets the free lock and reselects if it finds `working`
    set; the rest of the driver state stays. -/
theorem wake_reselects {s : Sys N} {a : N} (hp : s.proc a = .blocked)
    (hl : s.lock = none) (hw : s.state.working = true) :
    ∃ o s', step getValue s (.wake a) = some (o, s') ∧
      o.reply = some .reselect ∧
      s'.state = { s.state with working := false } := by
  have hre : targetRelocked s.state
      = (.reselect, { s.state with working := false }) := by
    rw [targetRelocked, hw]
    rfl
  refine ⟨_, _, if_pos ⟨hp, hl⟩, ?_, ?_⟩
  · show some (targetRelocked s.state).1 = some .reselect
    rw [hre]
  · show (targetRelocked s.state).2 = _
    rw [hre]

/-- The callback after a reselection starts the next chunk in the saved
    direction. -/
theorem move_reselect {s s' : Sys N} {a : N} {t : Target}
    {bytes : List UInt8} {o : Output N}
    (hm : Move getValue s (.callback a t bytes) o s')
    (hr : t.reason = .reselect) :
    o.reply = some s.state.direction ∧
      o.target.dataLen = chunkLen s.state.residue := by
  cases hm with
  | refuse hp hl hr' => exact nomatch hr.symm.trans hr'
  | answer residue buffer status hp hl hr' => exact nomatch hr.symm.trans hr'
  | accept residue dir buffer t' hp hl hr' => exact nomatch hr.symm.trans hr'
  | finish buffer hp hl hd => rw [hr] at hd; exact nomatch hd
  | overrun residue buffer hp hl hd => rw [hr] at hd; exact nomatch hd
  | proceed residue buffer t' hp hl hd => rw [hr] at hd; exact nomatch hd
  | save residue buffer hp hl hd => rw [hr] at hd; exact nomatch hd
  | block hp hl hr' => exact nomatch hr.symm.trans hr'
  | resume t' hp hl hr' hk ht' => exact ⟨rfl, by rw [ht']⟩
  | stop reply hp hl hidle hr' => exact absurd hr hr'.2.2.2.2
  | stopBlocked reply hp hl hr' => exact absurd hr hr'.2.2.2.2

end Step

/-! ## A concrete system -/

/-- A command block of 12 bytes: opcode, and the length in bytes 2 to 4. -/
def cdbOf (opcode hi mid lo : UInt8) : Vector UInt8 12 :=
  #v[opcode, 0, hi, mid, lo, 0, 0, 0, 0, 0, 0, 0]

/-- A callback record with disconnects enabled and a full chunk due. -/
def turn (reason : Code) : Target :=
  { cdb := cdbOf scmdTestUnitReady 0 0 0, data := 0x80001000
    dataLen := dataSize, status := 0, reason := reason, flags := 0 }

/-- The command `RECEIVE` for 8192 bytes: two data phases. -/
def receive8k : Target :=
  { turn .command with cdb := cdbOf scmdReceive 0x00 0x20 0x00 }

/-- The system as `main` leaves it. -/
def powerOn : Sys Nat :=
  { state := { residue := 0, direction := .complete, data := 0x80001000
               busy := false, working := false, buffer := [] }
    lock := none
    proc := fun _ => .idle
    target := fun _ => turn .complete }

theorem powerOn_initial : Initial powerOn :=
  ⟨rfl, rfl, rfl, fun _ => rfl⟩

/-- Nexus `a` sends `receive8k`, transfers its first chunk and disconnects. -/
def disconnectEvents (a : Nat) : List (Event Nat) :=
  [.callback a receive8k [], .callback a (turn .dataIn) [],
    .callback a (turn .disconnect) []]

end TargetSystem
