import Ttm50.TargetTransfer

/-! # One buffer for all nexuses

    The driver has one data buffer.  In a run without reset, abort or invalid
    reason it nevertheless serves its nexuses as if their commands came one
    after the other, each in one piece: `served_serially` reads the commands
    and their data off the run and compares them with `Serial`, which knows
    nothing of callbacks, chunks and disconnections.

    What a `RECEIVE` returns follows (`echo`): the data of the last `SEND`,
    if they fit the buffer, and else what its chunks have left there. -/

namespace TargetBuffer

open LabelledRuns TargetDriver TargetSystem TargetFlags TargetChunks
open TargetExclusion TargetTransfer

/-! ## Serving commands one after the other -/

/-- Bytes stored at the start of a buffer. -/
def overlay (buffer piece : List UInt8) : List UInt8 :=
  piece ++ buffer.drop piece.length

/-- A command, with the data that its data phases moved. -/
structure Service (N : Type) where
  nexus : N
  command : Target
  pieces : List (List UInt8)

/-- What a command leaves in the buffer. -/
def stored (buffer : List UInt8) (command : Target)
    (pieces : List (List UInt8)) : List UInt8 :=
  if command.opcode = scmdInquiry then overlay buffer inquiryData
  else if command.opcode = scmdSend then pieces.foldl overlay buffer
  else buffer

variable {N : Type}

/-- The command moves the bytes that it asks for, in pieces of `DATA_SIZE`.
    Data for the initiator are the start of the buffer. -/
structure Serves (buffer : List UInt8) (v : Service N)
    (buffer' : List UInt8) : Prop where
  lengths : v.pieces.map List.length = chunks dataSize (commandLength v.command)
  leaves : buffer' = stored buffer v.command v.pieces
  gives : ownDirection v.command = .dataIn →
    ∀ p ∈ v.pieces, p = buffer'.take p.length

/-- Commands served one after the other, with the buffer at both ends. -/
inductive Serial : List UInt8 → List (Service N) → List UInt8 → Prop where
  | nil (b : List UInt8) : Serial b [] b
  | snoc {b b' b'' : List UInt8} {vs : List (Service N)} {v : Service N} :
      Serial b vs b' → Serves b' v b'' → Serial b (vs ++ [v]) b''

/-! ## Pieces over a buffer -/

section Pieces

variable {buffer piece : List UInt8} {pieces : List (List UInt8)} {c n j : Nat}

theorem overlay_inside (h : j < piece.length) :
    (overlay buffer piece)[j]? = piece[j]? := List.getElem?_append_left h

theorem overlay_outside (h : piece.length ≤ j) :
    (overlay buffer piece)[j]? = buffer[j]? := by
  rw [overlay, List.getElem?_append_right h, List.getElem?_drop,
    Nat.add_sub_cancel' h]

/-- Short pieces leave the end of the buffer alone. -/
theorem overlays_outside (h : ∀ p ∈ pieces, p.length ≤ j) :
    (pieces.foldl overlay buffer)[j]? = buffer[j]? := by
  induction pieces generalizing buffer with
  | nil => rfl
  | cons p pieces ih =>
      rw [List.foldl_cons, ih (fun q hq => h q (List.mem_cons_of_mem _ hq)),
        overlay_outside (h p List.mem_cons_self)]

theorem piece_length_le (h : pieces.map List.length = chunks c n) :
    ∀ p ∈ pieces, p.length ≤ n := by
  intro p hp
  rw [← sum_chunks c n, ← h]
  exact List.single_le_sum (fun x _ => Nat.zero_le x) _
    (List.mem_map_of_mem hp)

/-- The first piece, and the pieces of the rest. -/
theorem pieces_cons (hc : 0 < c) (hn : 0 < n)
    (h : pieces.map List.length = chunks c n) :
    ∃ p rest, pieces = p :: rest ∧ p.length = min n c ∧
      rest.map List.length = chunks c (n - min n c) := by
  rw [chunks_cons hc hn] at h
  cases pieces with
  | nil => exact absurd h.symm (List.cons_ne_nil _ _)
  | cons p rest =>
      obtain ⟨hp, hrest⟩ := List.cons.inj h
      exact ⟨p, rest, rfl, hp, hrest⟩

/-- Chunks stored over each other: at each place the last one that reaches it
    is left. -/
theorem overlays_get (hc : 0 < c) (h : pieces.map List.length = chunks c n)
    (hjc : j < c) (hjn : j < n) :
    (pieces.foldl overlay buffer)[j]?
      = pieces.flatten[j + c * ((n - 1 - j) / c)]? := by
  induction n using Nat.strong_induction_on generalizing pieces buffer with
  | _ n ih =>
      obtain ⟨p, rest, rfl, hp, hrest⟩ := pieces_cons hc (by omega) h
      rw [List.foldl_cons, List.flatten_cons]
      by_cases hlast : j < n - min n c
      · -- a later chunk reaches the place
        have hle : c ≤ n := by omega
        rw [Nat.min_eq_right hle] at hp hrest hlast
        have hdiv : (n - 1 - j) / c = (n - c - 1 - j) / c + 1 := by
          rw [show n - 1 - j = (n - c - 1 - j) + c by omega,
            Nat.add_div_right _ hc]
        rw [ih (n - c) (by omega) hrest hlast, hdiv, Nat.mul_add, Nat.mul_one,
          List.getElem?_append_right (by omega)]
        congr 1
        omega
      · have hdiv : (n - 1 - j) / c = 0 := Nat.div_eq_of_lt (by omega)
        have hjp : j < p.length := by omega
        rw [overlays_outside, overlay_inside hjp, hdiv, Nat.mul_zero,
          Nat.add_zero, List.getElem?_append_left hjp]
        intro q hq
        exact (piece_length_le hrest q hq).trans (Nat.le_of_not_lt hlast)

/-- The start of the buffer, given over and over. -/
theorem takes_get (hc : 0 < c)
    (h : pieces.map List.length = chunks c n)
    (htake : ∀ p ∈ pieces, p = buffer.take p.length) (hj : j < n) :
    pieces.flatten[j]? = buffer[j % c]? := by
  induction n using Nat.strong_induction_on generalizing pieces j with
  | _ n ih =>
      obtain ⟨p, rest, rfl, hp, hrest⟩ := pieces_cons hc (by omega) h
      rw [List.flatten_cons]
      by_cases hjp : j < p.length
      · have hmod : j % c = j := Nat.mod_eq_of_lt (by omega)
        rw [List.getElem?_append_left hjp, hmod, htake p List.mem_cons_self,
          List.getElem?_take_of_lt hjp]
      · have hle : c ≤ n := by omega
        rw [Nat.min_eq_right hle] at hp hrest
        rw [List.getElem?_append_right (Nat.le_of_not_lt hjp), hp,
          ih (n - c) (by omega) hrest
            (fun q hq => htake q (List.mem_cons_of_mem _ hq)) (by omega),
          ← Nat.mod_eq_sub_mod (by omega)]

end Pieces

/-! ## The parts of a command -/

theorem dataIn_or_send (command : Target) :
    (command.opcode = scmdSend ∧ ownDirection command = .dataOut) ∨
      (command.opcode ≠ scmdSend ∧ ownDirection command = .dataIn) := by
  rw [ownDirection]
  by_cases h : command.opcode = scmdSend
  · exact Or.inl ⟨h, if_pos h⟩
  · exact Or.inr ⟨h, if_neg h⟩

/-- A piece of a `SEND` lies over the ones before it. -/
theorem stored_send {command : Target} (h : command.opcode = scmdSend)
    (buffer : List UInt8) (pieces : List (List UInt8)) (piece : List UInt8) :
    stored buffer command (pieces ++ [piece])
      = overlay (stored buffer command pieces) piece := by
  have hI : ¬ command.opcode = scmdInquiry := by
    rw [h]
    decide
  rw [stored, stored, if_neg hI, if_neg hI, if_pos h, if_pos h,
    List.foldl_append]
  rfl

/-- Data for the initiator leave the buffer as it is. -/
theorem stored_in {command : Target} (h : command.opcode ≠ scmdSend)
    (buffer : List UInt8) (pieces pieces' : List (List UInt8)) :
    stored buffer command pieces = stored buffer command pieces' := by
  rw [stored, stored, if_neg h, if_neg h]

theorem overlay_length {buffer piece : List UInt8}
    (h : piece.length ≤ buffer.length) :
    (overlay buffer piece).length = buffer.length := by
  rw [overlay, List.length_append, List.length_drop]
  omega

/-- A command in progress, of which `v.pieces` have been moved so far. -/
structure Part (b : List UInt8) (state : State) (v : Service N) : Prop where
  lengths : v.pieces.map List.length ++ chunks dataSize state.residue.toNat
    = chunks dataSize (commandLength v.command)
  leaves : state.buffer = stored b v.command v.pieces
  gives : ownDirection v.command = .dataIn →
    ∀ p ∈ v.pieces, p = state.buffer.take p.length

/-- The step lemma of a command in progress: a data phase is over. -/
theorem part_piece {b : List UInt8} {state state' : State} {v : Service N}
    {p : List UInt8} (h : Part b state v)
    (hchunk : chunks dataSize state.residue.toNat
      = p.length :: chunks dataSize state'.residue.toNat)
    (hout : v.command.opcode = scmdSend → state'.buffer = overlay state.buffer p)
    (hin : v.command.opcode ≠ scmdSend →
      state'.buffer = state.buffer ∧ p = state.buffer.take p.length) :
    Part b state' { v with pieces := v.pieces ++ [p] } where
  lengths := by
    rw [← h.lengths, hchunk, List.map_append, List.append_assoc]
    rfl
  leaves := by
    show state'.buffer = stored b v.command (v.pieces ++ [p])
    rcases dataIn_or_send v.command with ⟨hs, -⟩ | ⟨hs, -⟩
    · rw [stored_send hs, hout hs, h.leaves]
    · rw [stored_in hs b _ v.pieces, (hin hs).1, h.leaves]
  gives := by
    intro hdir q hq
    rcases dataIn_or_send v.command with ⟨-, hs⟩ | ⟨hs, -⟩
    · exact nomatch hdir.symm.trans hs
    · obtain ⟨hsame, hp⟩ := hin hs
      rw [hsame]
      rcases List.mem_append.mp hq with hq | hq
      · exact h.gives hdir q hq
      · rw [List.mem_singleton.mp hq]
        exact hp

/-- A command that has nothing left is served. -/
theorem serves_of_part {b : List UInt8} {state : State} {v : Service N}
    (h : Part b state v) (hres : state.residue = 0) :
    Serves b v state.buffer where
  lengths := by
    rw [← h.lengths, hres]
    show _ = _ ++ chunks dataSize 0
    rw [chunks_zero, List.append_nil]
  leaves := h.leaves
  gives := h.gives

/-! ## The commands of a run -/

/-- The commands that are complete, and the one in progress. -/
structure Log (N : Type) where
  done : List (Service N)
  current : Option (Service N)

/-- The bytes of a data phase that is over: those the library has received,
    or those it has found at `target->data`. -/
def phaseBytes (s : Sys N) (t : Target) (bytes : List UInt8) : List UInt8 :=
  if t.reason = .dataOut then bytes else s.state.buffer.take t.dataLen

/-- The log after a turn. -/
def logged (s : Sys N) (o : Output N) (log : Log N) : Event N → Log N
  | .wake _ => log
  | .callback a t bytes =>
      if t.reason = .command then
        -- a refused command is not served
        if s.state.busy then log
        else if o.reply = some .complete then
          { log with done := log.done ++ [⟨a, t, []⟩] }
        else { log with current := some ⟨a, t, []⟩ }
      else if t.reason.isData then
        match log.current with
        | none => log
        | some v =>
            let v := { v with pieces := v.pieces ++ [phaseBytes s t bytes] }
            if o.reply = some .complete then ⟨log.done ++ [v], none⟩
            else ⟨log.done, some v⟩
      else log

/-- The library receives `data_len` bytes in a data-out phase. -/
def FullPhase (e : Event N) : Prop :=
  ∀ a t bytes, e = .callback a t bytes → t.reason = .dataOut →
    bytes.length = t.dataLen

instance : DecidablePred (FullPhase (N := N))
  | .callback _ t bytes => decidable_of_iff
      (t.reason = .dataOut → bytes.length = t.dataLen)
      ⟨fun h _ _ _ heq => by cases heq; exact h, fun h => h _ _ _ rfl⟩
  | .wake _ => isTrue nofun

variable [DecidableEq N] {getValue : GetValue}

/-- The log of a run from a state on. -/
def history (getValue : GetValue) :
    Sys N → Log N → List (Event N × Output N) → Log N
  | _, log, [] => log
  | s, log, (e, o) :: tr =>
      match step getValue s e with
      | none => log
      | some (_, m) => history getValue m (logged s o log e) tr

theorem history_cons {s m : Sys N} {log : Log N} {e : Event N} {o o' : Output N}
    {tr : List (Event N × Output N)} (hs : step getValue s e = some (o', m)) :
    history getValue s log ((e, o) :: tr)
      = history getValue m (logged s o log e) tr := by
  rw [history, hs]

/-! ## What a step does to the buffer -/

/-- The driver state that a callback leaves. -/
def Progress.left : Progress → State
  | .returns _ state _ => state
  | .unlocked state _ => state

theorem dataDone_buffer (state : State) (t : Target) :
    (Progress.left (dataDone state t)).buffer = state.buffer := by
  rw [dataDone]
  simp only
  split
  · rfl
  · split
    · rfl
    · split <;> rfl

theorem inquiryData_length : inquiryData.length = stdInquirySize := by
  decide

theorem setupTransfer_buffer (dir : Code) (state : State) (t : Target) :
    (setupTransfer getValue dir state t).2.1.buffer = state.buffer := by
  simp only [setupTransfer, apply_ite Prod.snd, apply_ite Prod.fst,
    apply_ite State.buffer, ite_self]

theorem inquiry_buffer (state : State) (t : Target) :
    (inquiry state t).2.1.buffer = overlay state.buffer inquiryData := by
  rw [inquiry, overlay, inquiryData_length]
  simp only
  split
  · rfl
  · split <;> rfl

/-- Only an inquiry changes the buffer. -/
theorem targetCommand_buffer (state : State) (t : Target) :
    (targetCommand getValue state t).2.1.buffer
      = if state.busy = false ∧ t.opcode = scmdInquiry
        then overlay state.buffer inquiryData else state.buffer := by
  rw [targetCommand]
  by_cases hI : state.busy = false ∧ t.opcode = scmdInquiry
  · obtain ⟨hb, hcdb⟩ := hI
    have hb' : ¬ state.busy = true := by simp [hb]
    have hT : ¬ t.opcode = scmdTestUnitReady := by
      rw [hcdb]
      decide
    rw [if_neg hb', if_neg hT, if_pos hcdb, if_pos ⟨hb, hcdb⟩]
    exact inquiry_buffer state t
  · rw [if_neg hI]
    split
    · rfl
    · rename_i hb
      have hb' : state.busy = false := by simpa using hb
      have hcdb : ¬ t.opcode = scmdInquiry := fun h => hI ⟨hb', h⟩
      rw [if_neg hcdb]
      split
      · rfl
      · split
        · exact setupTransfer_buffer _ state t
        · split
          · exact setupTransfer_buffer _ state t
          · rfl

/-- The buffer after a callback. -/
theorem targetCallback_buffer (state : State) (t : Target) :
    (Progress.left (targetCallback getValue state t)).buffer
      = if t.reason = .command ∧ state.busy = false ∧ t.opcode = scmdInquiry
        then overlay state.buffer inquiryData else state.buffer := by
  by_cases hr : t.reason = .command
  · rw [targetCallback, hr]
    simp only [true_and]
    exact targetCommand_buffer state t
  · rw [if_neg (fun h => hr h.1), targetCallback]
    split
    · exact absurd ‹_› hr
    · exact dataDone_buffer state t
    · exact dataDone_buffer state t
    · rfl
    · rfl
    all_goals
      rw [terminate]
      split <;> rfl

theorem enter_left (s : Sys N) (a : N) (t : Target) (bytes : List UInt8) :
    (enter getValue s a t bytes).2.state
      = Progress.left (targetCallback getValue (received s.state t bytes) t) := by
  rw [enter]
  split
  · rename_i h
    rw [h]
    simp only
    split <;> rfl
  · rename_i h
    rw [h]
    rfl

/-! ## The log of a run -/

/-- The log is right: the complete commands have been served from the buffer
    `b₀`, and the one in progress is the one that the driver is busy with. -/
inductive Standing (b : List UInt8) (s : Sys N) : Option (Service N) → Prop where
  | free (hbusy : s.state.busy = false) (hbuffer : s.state.buffer = b) :
      Standing b s none
  | serving {v : Service N} {rest : List Nat} {k : Nat}
      (hphase : Phase v.nexus (ownDirection v.command) s rest k)
      (hpart : Part b s.state v) : Standing b s (some v)

structure Recorded (b₀ : List UInt8) (s : Sys N) (log : Log N) : Prop where
  undisturbed : Undisturbed s
  size : s.state.buffer.length = dataSize
  serial : ∃ b, Serial b₀ log.done b ∧ Standing b s log.current

/-- The buffer after a callback has taken place. -/
theorem callback_buffer {s s' : Sys N} {a : N} {t : Target}
    {bytes : List UInt8} {o : Output N}
    (hs : step getValue s (.callback a t bytes) = some (o, s')) :
    s'.state.buffer
      = if t.reason = .command ∧ s.state.busy = false ∧ t.opcode = scmdInquiry
        then overlay s.state.buffer inquiryData
        else (received s.state t bytes).buffer := by
  rw [step] at hs
  split at hs
  · have hs' : (enter getValue s a t bytes).2 = s' :=
      congrArg Prod.snd (Option.some.inj hs)
    rw [← hs', enter_left, targetCallback_buffer]
    by_cases hr : t.reason = .command
    · have hout : t.reason ≠ .dataOut := by
        rw [hr]
        decide
      rw [received_of_ne s.state bytes hout]
    · rw [if_neg (fun h => hr h.1), if_neg (fun h => hr h.1)]
  · exact absurd hs.symm (Option.some_ne_none _)

/-- A data phase moves `phaseBytes`, the chunk of the residue. -/
theorem data_buffer {s s' : Sys N} {a : N} {t : Target}
    {bytes : List UInt8} {o : Output N} (hI : ChunkInv s)
    (hsize : s.state.buffer.length = dataSize)
    (hf : FullPhase (.callback a t bytes))
    (hs : step getValue s (.callback a t bytes) = some (o, s'))
    (hp : s.proc a = .connected t.reason) (hd : t.reason.isData = true)
    (hk : Target.keptBy (s.target a) t) :
    (phaseBytes s t bytes).length = chunkLen s.state.residue ∧
      (t.reason = .dataOut →
        s'.state.buffer = overlay s.state.buffer (phaseBytes s t bytes)) ∧
      (t.reason = .dataIn → s'.state.buffer = s.state.buffer ∧
        phaseBytes s t bytes
          = s.state.buffer.take (phaseBytes s t bytes).length) := by
  have hc : t.reason ≠ .command := by
    intro h
    rw [h] at hd
    exact nomatch hd
  have hbusy := (hI.flags.lock_flags a (hI.flags.connected_lock a _ hp)).1
  have hlen : t.dataLen = chunkLen s.state.residue :=
    (hk.2 hd).trans (hI.data_len a _ hp hd)
  have hptr : t.data = s.state.data :=
    (hk.1 hc).trans (hI.data_ptr a (inside_of_connected hp))
  obtain ⟨-, hle, -⟩ :=
    chunkLen_bounds (hI.residue_pos hbusy) (hI.residue_le hbusy)
  have hbuffer := callback_buffer hs
  rw [if_neg (fun h => hc h.1)] at hbuffer
  by_cases hout : t.reason = .dataOut
  · have hbytes : phaseBytes s t bytes = bytes := if_pos hout
    have hrec : (received s.state t bytes).buffer
        = overlay s.state.buffer bytes := by
      rw [received, if_pos ⟨hout, hptr⟩]
      rfl
    rw [hbytes]
    refine ⟨(hf a t bytes rfl hout).trans hlen, ?_, ?_⟩
    · intro _
      exact hbuffer.trans hrec
    · intro hin
      exact nomatch hin.symm.trans hout
  · have hbytes : phaseBytes s t bytes = s.state.buffer.take t.dataLen :=
      if_neg hout
    have htake : (phaseBytes s t bytes).length = t.dataLen := by
      rw [hbytes, List.length_take]
      omega
    refine ⟨htake.trans hlen, fun h => absurd h hout, ?_⟩
    intro _
    rw [htake]
    rw [received_of_ne _ _ hout] at hbuffer
    exact ⟨hbuffer, hbytes⟩

/-! ## The log along a run -/

section Logged

variable {s : Sys N} {o : Output N} {log : Log N} {a : N} {t : Target}
  {bytes : List UInt8}

omit [DecidableEq N]

theorem logged_refused (hr : t.reason = .command) (hb : s.state.busy = true) :
    logged s o log (.callback a t bytes) = log := by
  rw [logged, if_pos hr, if_pos hb]

theorem logged_answered (hr : t.reason = .command) (hb : s.state.busy = false)
    (ho : o.reply = some .complete) :
    logged s o log (.callback a t bytes)
      = { log with done := log.done ++ [⟨a, t, []⟩] } := by
  rw [logged, if_pos hr, if_neg (by simp [hb]), if_pos ho]

theorem logged_accepted (hr : t.reason = .command) (hb : s.state.busy = false)
    (ho : o.reply ≠ some .complete) :
    logged s o log (.callback a t bytes)
      = { log with current := some ⟨a, t, []⟩ } := by
  rw [logged, if_pos hr, if_neg (by simp [hb]), if_neg ho]

theorem logged_quiet (hr : t.reason ≠ .command) (hd : t.reason.isData = false) :
    logged s o log (.callback a t bytes) = log := by
  rw [logged, if_neg hr, if_neg (by simp [hd])]

theorem logged_data {v : Service N} (hd : t.reason.isData = true)
    (hv : log.current = some v) :
    logged s o log (.callback a t bytes)
      = if o.reply = some .complete
        then ⟨log.done ++
          [{ v with pieces := v.pieces ++ [phaseBytes s t bytes] }], none⟩
        else ⟨log.done,
          some { v with pieces := v.pieces ++ [phaseBytes s t bytes] }⟩ := by
  have hc : t.reason ≠ .command := by
    intro h
    rw [h] at hd
    exact nomatch hd
  rw [logged, if_neg hc, if_pos hd]
  simp only [hv]

end Logged

/-- While the driver is free, a turn is a command. -/
theorem recorded_free (hv : DecodesBigEndian getValue) {b₀ b : List UInt8}
    {s s' : Sys N} {log : Log N} {e : Event N} {o : Output N}
    (hU : Undisturbed s) (hU' : Undisturbed s') (he : Plain e)
    (hsize : s.state.buffer.length = dataSize) (hserial : Serial b₀ log.done b)
    (hbusy : s.state.busy = false) (hbuffer : s.state.buffer = b)
    (hcur : log.current = none) (hs : step getValue s e = some (o, s')) :
    Recorded b₀ s' (logged s o log e) := by
  have hidle : ∀ a, s.proc a = .idle := by
    intro a
    refine Decidable.not_not.mp (fun hin => ?_)
    exact nomatch hbusy.symm.trans (hU.exclusive.2 a hin)
  have hcallback : ∀ {a t bytes}, e = .callback a t bytes →
      t.reason = .command → s'.state.buffer = stored b t [] := by
    intro a t bytes heq hr
    rw [heq] at hs
    rw [callback_buffer hs, received_of_ne _ _ (by rw [hr]; decide), ← hbuffer,
      stored]
    simp only [hr, hbusy, true_and]
    split
    · rfl
    · split <;> rfl
  have hsize' : ∀ t : Target, (stored b t []).length = dataSize := by
    intro t
    rw [← hbuffer, stored]
    split
    · rw [overlay_length ?_, hsize]
      rw [inquiryData_length, hsize]
      decide
    · split <;> exact hsize
  cases step_move hs with
  | refuse hp hl hr hb => exact nomatch hbusy.symm.trans hb
  | @answer a t bytes residue buffer status hp hl hr hb hL =>
      have hleft := hcallback rfl hr
      rw [logged_answered hr hb rfl]
      refine ⟨hU', hleft ▸ hsize' t, _, hserial.snoc ⟨?_, hleft, ?_⟩, ?_⟩
      · rw [requestedLength_eq hv] at hL
        show [] = chunks dataSize (commandLength t)
        rw [hL, chunks_zero]
      · exact fun _ p hp => absurd hp List.not_mem_nil
      · rw [hcur]
        exact .free hbusy rfl
  | @accept a t bytes residue dir buffer t' hp hl hr hb hL hres hdir =>
      subst hdir
      have hleft := hcallback rfl hr
      have hdata := ownDirection_isData t
      have hreply : some (ownDirection t) ≠ some .complete := by
        intro h
        rw [Option.some.inj h] at hdata
        exact nomatch hdata
      obtain ⟨-, -, hpos, rest, hrest, hph⟩ :=
        transfer_begins hv (step_move hs) hr rfl hdata
      have hle := requestedLength_le hv t
      rw [toInt32_of_range (by omega) (by omega)] at hres
      rw [logged_accepted hr hb hreply]
      refine ⟨hU', hleft ▸ hsize' t, b, hserial, .serving hph ⟨?_, hleft, ?_⟩⟩
      · show [] ++ chunks dataSize residue.toNat = chunks dataSize (commandLength t)
        rw [hres, Int.toNat_natCast, requestedLength_eq hv]
        rfl
      · exact fun _ p hp => absurd hp List.not_mem_nil
  | finish buffer hp => exact nomatch (hidle _).symm.trans hp
  | overrun residue buffer hp => exact nomatch (hidle _).symm.trans hp
  | proceed residue buffer t' hp => exact nomatch (hidle _).symm.trans hp
  | save residue buffer hp => exact nomatch (hidle _).symm.trans hp
  | block hp => exact nomatch (hidle _).symm.trans hp
  | restart hp => exact nomatch (hidle _).symm.trans hp
  | reselect hp => exact nomatch (hidle _).symm.trans hp
  | resume t' hp => exact nomatch (hidle _).symm.trans hp
  | stop reply hp hl hid hr => exact absurd hr (he _ _ _ rfl)
  | stopBlocked reply hp hl hr => exact absurd hr (he _ _ _ rfl)

omit [DecidableEq N] in
/-- The command in progress after a turn that moves no data. -/
theorem standing_quiet {b : List UInt8} {s s' : Sys N} {v : Service N}
    {rest : List Nat} {k : Nat} (hpart : Part b s.state v)
    (hphase : Phase v.nexus (ownDirection v.command) s' rest k)
    (hresidue : s'.state.residue = s.state.residue)
    (hbuffer : s'.state.buffer = s.state.buffer) : Standing b s' (some v) := by
  refine .serving hphase ⟨?_, ?_, ?_⟩
  · rw [hresidue]
    exact hpart.lengths
  · rw [hbuffer]
    exact hpart.leaves
  · rw [hbuffer]
    exact hpart.gives

omit [DecidableEq N] in
/-- Where the command goes on, it has a phase. -/
theorem phase_of_turn {s s' : Sys N} {e : Event N} {o : Output N} {a : N}
    {dir : Code} {rest : List Nat} {k : Nat} (h : Turn a dir s rest k e o s')
    (ho : o.reply ≠ some .complete) :
    ∃ rest' k', Phase a dir s' rest' k' := by
  cases h with
  | foreign he hr ha hbusy hstate h => exact ⟨_, _, h⟩
  | quiet ha hreply hk h => exact ⟨_, _, h⟩
  | announce ha hreply hrest hk h => exact ⟨_, _, h⟩
  | complete ha hreply => exact absurd hreply ho

/-- The command in progress after one of its data phases. -/
theorem data_part {b : List UInt8} {s s' : Sys N} {a : N} {t : Target}
    {bytes : List UInt8} {o : Output N} {v : Service N} {rest : List Nat}
    {k : Nat} (hU : Undisturbed s) (hsize : s.state.buffer.length = dataSize)
    (hf : FullPhase (.callback a t bytes))
    (hs : step getValue s (.callback a t bytes) = some (o, s'))
    (hp : s.proc a = .connected t.reason) (hd : t.reason.isData = true)
    (hk : Target.keptBy (s.target a) t)
    (hphase : Phase v.nexus (ownDirection v.command) s rest k)
    (hpart : Part b s.state v)
    (hres : s'.state.residue = toInt32 (s.state.residue - t.dataLen)) :
    Part b s'.state { v with pieces := v.pieces ++ [phaseBytes s t bytes] } ∧
      s'.state.buffer.length = dataSize := by
  have hI := hU.chunk
  obtain ⟨hlen, hout, hin⟩ := data_buffer hI hsize hf hs hp hd hk
  have hbusy := (hI.flags.lock_flags a (hI.flags.connected_lock a _ hp)).1
  have hpos := hI.residue_pos hbusy
  have hmax := hI.residue_le hbusy
  rw [data_residue hI hp hd hk] at hres
  obtain rfl : v.nexus = a :=
    hU.exclusive.1 _ _ (phase_inside hphase) (inside_of_connected hp)
  obtain ⟨hdir, -, -⟩ := phase_moving hphase hp hd
  have hwhich := dataIn_or_send v.command
  rw [← hdir] at hwhich
  refine ⟨part_piece hpart ?_ ?_ ?_, ?_⟩
  · rw [chunks_residue hpos hmax, hlen, hres]
  · intro hsend
    rcases hwhich with ⟨-, hr⟩ | ⟨hne, -⟩
    · exact hout hr
    · exact absurd hsend hne
  · intro hsend
    rcases hwhich with ⟨heq, -⟩ | ⟨-, hr⟩
    · exact absurd heq hsend
    · exact hin hr
  · rcases hwhich with ⟨-, hr⟩ | ⟨-, hr⟩
    · obtain ⟨-, hle, -⟩ := chunkLen_bounds hpos hmax
      rw [hout hr, overlay_length ?_, hsize]
      rw [hlen, hsize]
      exact hle
    · rw [(hin hr).1, hsize]

/-- While a command is in progress, a turn goes on with it or is refused. -/
theorem recorded_serving {b₀ b : List UInt8} {s s' : Sys N} {log : Log N}
    {e : Event N} {o : Output N} {v : Service N} {rest : List Nat} {k : Nat}
    (hU : Undisturbed s) (hU' : Undisturbed s') (he : Plain e)
    (hf : FullPhase e) (hsize : s.state.buffer.length = dataSize)
    (hserial : Serial b₀ log.done b)
    (hphase : Phase v.nexus (ownDirection v.command) s rest k)
    (hpart : Part b s.state v) (hcur : log.current = some v)
    (hs : step getValue s e = some (o, s')) :
    Recorded b₀ s' (logged s o log e) := by
  have hm := step_move hs
  have hbusy := hU.exclusive.2 _ (phase_inside hphase)
  have hnext := phase_of_turn (transfer_step hU he hphase hm)
  -- a turn that moves no data and goes on
  have hquiet : logged s o log e = log → o.reply ≠ some .complete →
      s'.state.residue = s.state.residue →
      s'.state.buffer = s.state.buffer → Recorded b₀ s' (logged s o log e) := by
    intro hlog ho hresidue hbuffer
    obtain ⟨rest', k', hphase'⟩ := hnext ho
    rw [hlog]
    refine ⟨hU', hbuffer.symm ▸ hsize, b, hserial, ?_⟩
    rw [hcur]
    exact standing_quiet hpart hphase' hresidue hbuffer
  cases hm with
  | @refuse a t bytes hp hl hr hb =>
      rw [logged_refused hr hb]
      refine ⟨hU', hsize, b, hserial, ?_⟩
      rw [hcur]
      exact standing_quiet hpart (phase_congr hphase rfl rfl) rfl rfl
  | answer residue buffer status hp hl hr hb => exact nomatch hbusy.symm.trans hb
  | accept residue dir buffer t' hp hl hr hb => exact nomatch hbusy.symm.trans hb
  | @finish a t bytes buffer hp hl hd hk hres =>
      obtain ⟨hpart', hsize'⟩ :=
        data_part hU hsize hf hs hp hd hk hphase hpart hres.symm
      rw [logged_data hd hcur, if_pos rfl]
      exact ⟨hU', hsize', _, hserial.snoc (serves_of_part hpart' rfl),
        .free rfl rfl⟩
  | @overrun a t bytes residue buffer hp hl hd hk hres hneg =>
      have hI := hU.chunk
      obtain ⟨-, -, hle⟩ :=
        chunkLen_bounds (hI.residue_pos hbusy) (hI.residue_le hbusy)
      rw [data_residue hI hp hd hk] at hres
      omega
  | @proceed a t bytes residue buffer t' hp hl hd hk hres hpos =>
      have hreply : some t.reason ≠ some .complete := by
        intro h
        rw [Option.some.inj h] at hd
        exact nomatch hd
      obtain ⟨hpart', hsize'⟩ :=
        data_part hU hsize hf hs hp hd hk hphase hpart hres
      obtain ⟨rest', k', hphase'⟩ := hnext hreply
      rw [logged_data hd hcur, if_neg hreply]
      exact ⟨hU', hsize', b, hserial, .serving hphase' hpart'⟩
  | @save a t bytes residue buffer hp hl hd hk hres hpos =>
      have hreply : some Code.saveAndDisconnect ≠ some .complete := by decide
      obtain ⟨hpart', hsize'⟩ :=
        data_part hU hsize hf hs hp hd hk hphase hpart hres
      obtain ⟨rest', k', hphase'⟩ := hnext hreply
      rw [logged_data hd hcur, if_neg hreply]
      exact ⟨hU', hsize', b, hserial, .serving hphase' hpart'⟩
  | block hp hl hr hk =>
      have hreply : (none : Option Code) ≠ some .complete := by decide
      exact hquiet (logged_quiet (by rw [hr]; decide) (by rw [hr]; rfl))
        hreply rfl rfl
  | restart hp hl hw =>
      exact nomatch hw.symm.trans (hU.blocked_working _ hp)
  | reselect hp hl hw =>
      have hreply : some Code.reselect ≠ some .complete := by decide
      exact hquiet rfl hreply rfl rfl
  | @resume a t bytes t' hp hl hr hk ht' =>
      have hdata := hU.chunk.flags.direction_data a (Or.inr (Or.inr hp))
      have hreply : some s.state.direction ≠ some .complete := by
        intro h
        rw [Option.some.inj h] at hdata
        exact nomatch hdata
      exact hquiet (logged_quiet (by rw [hr]; decide) (by rw [hr]; rfl))
        hreply rfl rfl
  | stop reply hp hl hid hr => exact absurd hr (he _ _ _ rfl)
  | stopBlocked reply hp hl hr => exact absurd hr (he _ _ _ rfl)

/-- **THE STEP LEMMA**: a turn keeps the log right. -/
theorem recorded_step (hv : DecodesBigEndian getValue) {b₀ : List UInt8}
    {s s' : Sys N} {log : Log N} {e : Event N} {o : Output N}
    (h : Recorded b₀ s log) (he : Plain e) (hf : FullPhase e)
    (hs : step getValue s e = some (o, s')) :
    Recorded b₀ s' (logged s o log e) := by
  obtain ⟨hU, hsize, b, hserial, hstand⟩ := h
  have hU' := undisturbed_move hv hU he (step_move hs)
  generalize hcur : log.current = current at hstand
  cases hstand with
  | free hbusy hbuffer =>
      exact recorded_free hv hU hU' he hsize hserial hbusy hbuffer hcur hs
  | serving hphase hpart =>
      exact recorded_serving hU hU' he hf hsize hserial hphase hpart hcur hs

theorem recorded_run (hv : DecodesBigEndian getValue) {b₀ : List UInt8}
    {s s' : Sys N} {log : Log N} {tr : List (Event N × Output N)}
    (h : Recorded b₀ s log) (hr : Run (step getValue) s tr s')
    (hplain : ∀ p ∈ tr, Plain p.1) (hfull : ∀ p ∈ tr, FullPhase p.1) :
    Recorded b₀ s' (history getValue s log tr) := by
  induction hr generalizing log with
  | nil s => exact h
  | @cons s m s' e o tr hs hr ih =>
      rw [history_cons hs]
      refine ih ?_ ?_ ?_
      · exact recorded_step hv h (hplain (e, o) List.mem_cons_self)
          (hfull (e, o) List.mem_cons_self) hs
      · exact fun p hp => hplain p (List.mem_cons_of_mem _ hp)
      · exact fun p hp => hfull p (List.mem_cons_of_mem _ hp)

/-! ## The results -/

/-- The log before the first command. -/
def Log.empty : Log N := ⟨[], none⟩

/-- The log of a run from the start is right. -/
theorem history_recorded (hv : DecodesBigEndian getValue) {s₀ s : Sys N}
    {tr : List (Event N × Output N)} (h₀ : Initial s₀)
    (hsize : s₀.state.buffer.length = dataSize)
    (hr : Run (step getValue) s₀ tr s) (hplain : ∀ p ∈ tr, Plain p.1)
    (hfull : ∀ p ∈ tr, FullPhase p.1) :
    Recorded s₀.state.buffer s (history getValue s₀ .empty tr) := by
  have hstart : Recorded s₀.state.buffer s₀ .empty :=
    ⟨undisturbed_initial h₀, hsize, _, .nil _, .free h₀.1 rfl⟩
  exact recorded_run hv hstart hr hplain hfull

/-- **ONE AFTER THE OTHER**: in a run without reset, abort or invalid reason
    the commands that complete have been served one after the other from the
    buffer, and of the one in progress the driver has moved a part.  So no
    nexus ever finds data of a command that another one has interrupted. -/
theorem served_serially (hv : DecodesBigEndian getValue) {s₀ s : Sys N}
    {tr : List (Event N × Output N)} (h₀ : Initial s₀)
    (hsize : s₀.state.buffer.length = dataSize)
    (hr : Run (step getValue) s₀ tr s) (hplain : ∀ p ∈ tr, Plain p.1)
    (hfull : ∀ p ∈ tr, FullPhase p.1) :
    ∃ b, Serial s₀.state.buffer (history getValue s₀ .empty tr).done b ∧
      ((history getValue s₀ .empty tr).current = none →
        s.state.busy = false ∧ s.state.buffer = b) ∧
      ∀ v, (history getValue s₀ .empty tr).current = some v →
        Inside s v.nexus ∧ Part b s.state v := by
  obtain ⟨-, -, b, hserial, hstand⟩ :=
    history_recorded hv h₀ hsize hr hplain hfull
  refine ⟨b, hserial, ?_, ?_⟩
  · intro hcur
    rw [hcur] at hstand
    cases hstand with
    | free hbusy hbuffer => exact ⟨hbusy, hbuffer⟩
  · intro v hcur
    rw [hcur] at hstand
    cases hstand with
    | serving hphase hpart => exact ⟨phase_inside hphase, hpart⟩

/-- The data of a command. -/
def Service.data (v : Service N) : List UInt8 := v.pieces.flatten

omit [DecidableEq N] in
theorem serial_append {b b' : List UInt8} {vs ws : List (Service N)}
    (h : Serial b (vs ++ ws) b') : ∃ m, Serial b vs m ∧ Serial m ws b' := by
  induction ws using List.reverseRecOn generalizing b' with
  | nil => exact ⟨b', List.append_nil vs ▸ h, .nil b'⟩
  | append_singleton ws w ih =>
      rw [← List.append_assoc] at h
      generalize hall : vs ++ ws ++ [w] = all at h
      cases h with
      | nil => exact absurd hall (List.append_ne_nil_of_right_ne_nil _ (by simp))
      | snoc h hw =>
          obtain ⟨heq, hlast⟩ := List.append_inj' hall rfl
          obtain rfl := (List.cons.inj hlast).1
          rw [← heq] at h
          obtain ⟨m, hvs, hws⟩ := ih h
          exact ⟨m, hvs, hws.snoc hw⟩

omit [DecidableEq N] in
/-- Each of the commands has been served from some buffer. -/
theorem serial_mem {b b' : List UInt8} {vs : List (Service N)}
    (h : Serial b vs b') {v : Service N} (hv : v ∈ vs) :
    ∃ m m', Serves m v m' := by
  induction h with
  | nil => exact absurd hv List.not_mem_nil
  | snoc h hw ih =>
      rcases List.mem_append.mp hv with hv | hv
      · exact ih hv
      · rw [List.mem_singleton.mp hv]
        exact ⟨_, _, hw⟩

omit [DecidableEq N] in
theorem serial_nil {b b' : List UInt8} (h : Serial (N := N) b [] b') : b' = b := by
  generalize hall : ([] : List (Service N)) = all at h
  cases h with
  | nil => rfl
  | snoc => exact absurd hall.symm (by simp)

omit [DecidableEq N] in
theorem serial_single {b b' : List UInt8} {v : Service N}
    (h : Serial b [v] b') : Serves b v b' := by
  generalize hall : [v] = all at h
  cases h with
  | nil => exact absurd hall (List.cons_ne_nil v [])
  | @snoc _ _ vs w h hw =>
      cases vs with
      | nil =>
          obtain rfl := (List.cons.inj hall).1
          cases serial_nil h
          exact hw
      | cons u vs =>
          obtain ⟨-, hnil⟩ := List.cons.inj hall
          exact absurd hnil.symm (List.append_ne_nil_of_right_ne_nil _ (by simp))

omit [DecidableEq N] in
/-- Commands that neither send nor inquire leave the buffer alone. -/
theorem serial_receives {b b' : List UInt8} {vs : List (Service N)}
    (h : Serial b vs b')
    (hvs : ∀ v ∈ vs, v.command.opcode ≠ scmdSend ∧
      v.command.opcode ≠ scmdInquiry) : b' = b := by
  induction h with
  | nil => rfl
  | @snoc b' b'' vs v h hv ih =>
      obtain ⟨hsend, hinq⟩ := hvs v (List.mem_append_right _ List.mem_cons_self)
      rw [hv.leaves, stored, if_neg hinq, if_neg hsend]
      exact ih (fun w hw => hvs w (List.mem_append_left _ hw))

/-- **WHAT A RECEIVE RETURNS** after a `SEND` of `n` bytes, with no other
    `SEND` and no `INQUIRY` completed in between: byte `i` is the last of the
    bytes sent whose place in the buffer is `i` modulo `DATA_SIZE`.  Where
    all that was sent fits the buffer, it is byte `i`. -/
theorem receive_returns (hv : DecodesBigEndian getValue) {s₀ s : Sys N}
    {tr : List (Event N × Output N)} (h₀ : Initial s₀)
    (hsize : s₀.state.buffer.length = dataSize)
    (hr : Run (step getValue) s₀ tr s) (hplain : ∀ p ∈ tr, Plain p.1)
    (hfull : ∀ p ∈ tr, FullPhase p.1) {before between after : List (Service N)}
    {v w : Service N}
    (hlog : (history getValue s₀ .empty tr).done
      = before ++ ([v] ++ (between ++ ([w] ++ after))))
    (hsend : v.command.opcode = scmdSend)
    (hbetween : ∀ u ∈ between, u.command.opcode ≠ scmdSend ∧
      u.command.opcode ≠ scmdInquiry)
    (hreceive : w.command.opcode = scmdReceive) :
    v.data.length = commandLength v.command ∧
      w.data.length = commandLength w.command ∧
      (∀ i < w.data.length, i % dataSize < v.data.length →
        w.data[i]? = v.data[i % dataSize
          + dataSize * ((v.data.length - 1 - i % dataSize) / dataSize)]?) ∧
      (w.data.length ≤ v.data.length → v.data.length ≤ dataSize →
        w.data = v.data.take w.data.length) := by
  obtain ⟨-, -, b, hserial, -⟩ := history_recorded hv h₀ hsize hr hplain hfull
  rw [hlog] at hserial
  obtain ⟨m₁, -, hserial⟩ := serial_append hserial
  obtain ⟨m₂, hv₁, hserial⟩ := serial_append hserial
  obtain ⟨m₃, hmid, hserial⟩ := serial_append hserial
  obtain ⟨m₄, hw₁, -⟩ := serial_append hserial
  obtain ⟨hvlen, hvleaves, -⟩ := serial_single hv₁
  obtain ⟨hwlen, hwleaves, hwgives⟩ := serial_single hw₁
  have hsendI : ¬ v.command.opcode = scmdInquiry := by
    rw [hsend]
    decide
  have hne : ¬ w.command.opcode = scmdSend := by
    rw [hreceive]
    decide
  have hneI : ¬ w.command.opcode = scmdInquiry := by
    rw [hreceive]
    decide
  rw [stored, if_neg hsendI, if_pos hsend] at hvleaves
  rw [stored, if_neg hneI, if_neg hne, serial_receives hmid hbetween,
    hvleaves] at hwleaves
  have hgives := hwgives (if_neg hne)
  have hlen : ∀ {u : Service N},
      u.pieces.map List.length = chunks dataSize (commandLength u.command) →
      u.data.length = commandLength u.command := by
    intro u hu
    rw [Service.data, List.length_flatten, hu, sum_chunks]
  have hbyte : ∀ i < w.data.length, i % dataSize < v.data.length →
      w.data[i]? = v.data[i % dataSize
        + dataSize * ((v.data.length - 1 - i % dataSize) / dataSize)]? := by
    intro i hi hin
    rw [hlen hwlen] at hi
    rw [hlen hvlen] at hin ⊢
    rw [Service.data, takes_get (by decide) hwlen hgives hi, hwleaves]
    exact overlays_get (by decide) hvlen (Nat.mod_lt _ (by decide)) hin
  refine ⟨hlen hvlen, hlen hwlen, hbyte, ?_⟩
  intro hle hfits
  apply List.ext_getElem?
  intro i
  by_cases hi : i < w.data.length
  · have hmod : i % dataSize = i := Nat.mod_eq_of_lt (by omega)
    have hdiv : (v.data.length - 1 - i) / dataSize = 0 :=
      Nat.div_eq_of_lt (by omega)
    rw [hbyte i hi (by omega), hmod, hdiv, List.getElem?_take_of_lt hi]
    rfl
  · rw [List.getElem?_eq_none (by omega), List.getElem?_eq_none]
    rw [List.length_take]
    omega

/-- `powerOn` with the buffer allocated. -/
def allocated : Sys Nat :=
  { powerOn with
    state := { powerOn.state with buffer := List.replicate dataSize 0 } }

/-- `SEND` and `RECEIVE` for two bytes. -/
def send2 : Target :=
  { turn .command with cdb := cdbOf scmdSend 0 0 2 }
def receive2 : Target :=
  { turn .command with cdb := cdbOf scmdReceive 0 0 2 }

/-- Nexus 0 sends two bytes, and nexus 1 receives two. -/
def echoEvents : List (Event Nat) :=
  [.callback 0 send2 [], .callback 0 { turn .dataOut with dataLen := 2 } [7, 9],
    .callback 1 receive2 [], .callback 1 { turn .dataIn with dataLen := 2 } []]

theorem echoEvents_run :
    (exec (step manualGetValue) allocated echoEvents).isSome = true := by
  decide

/-- The run of `echoEvents`. -/
def echoRun : List (Event Nat × Output Nat) :=
  (outcome (step manualGetValue) allocated _ echoEvents_run).1

theorem echoRun_plain : ∀ p ∈ echoRun, Plain p.1 := by decide

theorem echoRun_full : ∀ p ∈ echoRun, FullPhase p.1 := by decide

theorem allocated_initial : Initial allocated := ⟨rfl, rfl, rfl, fun _ => rfl⟩

theorem allocated_size : allocated.state.buffer.length = dataSize :=
  List.length_replicate ..

/-- The log of the run: one command of each nexus, none in progress. -/
theorem echo_serially :
    ∃ b, Serial allocated.state.buffer
        [⟨0, send2, [[7, 9]]⟩, ⟨1, receive2, [[7, 9]]⟩] b ∧
      (outcome (step manualGetValue) allocated _ echoEvents_run).2.state.buffer
        = b := by
  obtain ⟨b, hserial, hfree, -⟩ := served_serially manualGetValue_decodes
    allocated_initial allocated_size (outcome_run echoEvents_run)
    echoRun_plain echoRun_full
  exact ⟨b, hserial, (hfree rfl).2⟩

theorem echo_two_bytes :
    ∃ v w : Service Nat, v.data = [7, 9] ∧ w.command = receive2 ∧
      w.data = v.data.take w.data.length := by
  refine ⟨⟨0, send2, [[7, 9]]⟩, ⟨1, receive2, [[7, 9]]⟩, rfl, rfl, ?_⟩
  have hnone : ∀ u ∈ ([] : List (Service Nat)),
      u.command.opcode ≠ scmdSend ∧ u.command.opcode ≠ scmdInquiry :=
    fun u hu => absurd hu List.not_mem_nil
  have hlog : (history manualGetValue allocated .empty echoRun).done
      = [] ++ ([⟨0, send2, [[7, 9]]⟩] ++ ([] ++ ([⟨1, receive2, [[7, 9]]⟩] ++ [])))
      := rfl
  refine (receive_returns manualGetValue_decodes allocated_initial
    allocated_size (outcome_run echoEvents_run)
    echoRun_plain echoRun_full hlog rfl hnone rfl).2.2.2 ?_ ?_
  · decide
  · decide

end TargetBuffer
