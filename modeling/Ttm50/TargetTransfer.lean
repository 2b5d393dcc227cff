import Ttm50.TargetChunks
import Ttm50.TargetExclusion

/-! # Exact transfer

    In a run without reset, abort or invalid reason an accepted command moves
    exactly the bytes it asked for, however it disconnects and whatever
    commands other nexuses send meanwhile.

    The chunking is spread over three places of the driver: the first chunk,
    the continued chunk and the chunk after a reselection.  `Phase` says, for
    each position of the process, which chunks are still to be announced and
    how many turns of the nexus are left; `transfer_step` is its step lemma,
    and `Transfer` is the shape of the run that results. -/

namespace TargetTransfer

open LabelledRuns TargetDriver TargetSystem TargetFlags TargetChunks
open TargetExclusion

/-! ## Cutting a length into chunks -/

/-- `n` cut into pieces of `c`, and a last piece for what is left. -/
def chunks (c n : Nat) : List Nat :=
  List.replicate (n / c) c ++ if n % c = 0 then [] else [n % c]

theorem chunks_zero (c : Nat) : chunks c 0 = [] := by
  show List.replicate (0 / c) c ++ (if 0 % c = 0 then [] else [0 % c]) = []
  rw [Nat.zero_div, Nat.zero_mod, if_pos rfl]
  rfl

/-- The first chunk, and the chunks of the rest. -/
theorem chunks_cons {c n : Nat} (hc : 0 < c) (hn : 0 < n) :
    chunks c n = min n c :: chunks c (n - min n c) := by
  rcases Nat.lt_or_ge n c with hlt | hge
  · rw [Nat.min_eq_left (Nat.le_of_lt hlt), Nat.sub_self, chunks_zero]
    show List.replicate (n / c) c ++ (if n % c = 0 then [] else [n % c]) = [n]
    rw [Nat.div_eq_of_lt hlt, Nat.mod_eq_of_lt hlt,
      if_neg (Nat.pos_iff_ne_zero.mp hn)]
    rfl
  · rw [Nat.min_eq_right hge]
    have hdiv : n / c = (n - c) / c + 1 := Nat.div_eq_sub_div hc hge
    have hmod : n % c = (n - c) % c := Nat.mod_eq_sub_mod hge
    show List.replicate (n / c) c ++ (if n % c = 0 then [] else [n % c]) = _
    rw [hdiv, hmod, List.replicate_succ, List.cons_append]
    rfl

theorem sum_chunks (c n : Nat) : (chunks c n).sum = n := by
  have hdm := Nat.div_add_mod n c
  show (List.replicate (n / c) c
    ++ (if n % c = 0 then [] else [n % c])).sum = n
  rw [List.sum_append, List.sum_replicate_nat, Nat.mul_comm]
  split
  · rw [List.sum_nil]
    omega
  · rw [List.sum_singleton]
    omega

/-! ## Runs without termination -/

variable {N : Type} [DecidableEq N] {getValue : GetValue}

/-- The event is not a reset, an abort or an invalid reason. -/
def Plain (e : Event N) : Prop :=
  ∀ a t bytes, e = .callback a t bytes → ¬ t.reason.Terminates

instance : DecidablePred (Plain (N := N))
  | .callback _ t _ => decidable_of_iff (¬ t.reason.Terminates)
      ⟨fun h _ _ _ heq => (Event.callback.inj heq).2.1 ▸ h, fun h => h _ _ _ rfl⟩
  | .wake _ => isTrue nofun

/-- What holds in every state of a run without termination. -/
structure Undisturbed (s : Sys N) : Prop where
  chunk : ChunkInv s
  exclusive : Exclusive s
  blocked_working : ∀ a, s.proc a = .blocked → s.state.working = true

omit [DecidableEq N] in
theorem undisturbed_initial {s : Sys N} (h : Initial s) : Undisturbed s := by
  refine ⟨chunkInv_initial h, exclusive_initial h, ?_⟩
  intro a ha
  rw [h.2.2.2] at ha
  exact nomatch ha

/-- A blocked nexus keeps `working` set: it is the only one inside, and only
    it clears the flag. -/
theorem blocked_working_move {s s' : Sys N} {e : Event N} {o : Output N}
    (h : Undisturbed s) (he : Plain e) (hE' : Exclusive s')
    (hm : Move getValue s e o s') {b : N} (hb : s'.proc b = .blocked) :
    s'.state.working = true := by
  -- by exclusion a connected nexus after the move rules the blocked one out,
  -- and so does a clear `busy`
  have hconn : ∀ {a : N} {due : Code}, s'.proc a = .connected due →
      s'.state.working = true := by
    intro a due ha
    obtain rfl := hE'.1 a b (inside_of_connected ha) (inside_of_blocked hb)
    exact nomatch ha.symm.trans hb
  have hfree : s'.state.busy = false → s'.state.working = true := by
    intro hbusy
    exact nomatch hbusy.symm.trans (hE'.2 b (inside_of_blocked hb))
  cases hm with
  | refuse => exact h.blocked_working b hb
  | answer => exact h.blocked_working b hb
  | accept => exact hconn (Function.update_self ..)
  | finish => exact hfree rfl
  | overrun => exact hfree rfl
  | proceed => exact hconn (Function.update_self ..)
  | save => exact hconn (Function.update_self ..)
  | block => rfl
  | restart => exact hfree rfl
  | reselect => exact hconn (Function.update_self ..)
  | @resume a t bytes t' hp =>
      have hdir := h.chunk.flags.direction_data a (Or.inr (Or.inr hp))
      rw [settle_connected s a _ _ (afterReply_data hdir)] at hconn ⊢
      exact hconn (Function.update_self ..)
  | stop reply hp hl hidle hr => exact absurd hr (he _ _ _ rfl)
  | stopBlocked reply hp hl hr => exact absurd hr (he _ _ _ rfl)

theorem undisturbed_move (hv : DecodesBigEndian getValue) {s s' : Sys N}
    {e : Event N} {o : Output N} (h : Undisturbed s) (he : Plain e)
    (hm : Move getValue s e o s') : Undisturbed s' := by
  have hok : FirstTermination s e := by
    intro a t bytes heq hr
    exact absurd hr (he a t bytes heq)
  have hE' := exclusive_move h.chunk.flags h.exclusive hok hm
  exact ⟨chunkInv_move hv h.chunk hm, hE',
    fun _ => blocked_working_move h he hE' hm⟩

theorem undisturbed_run (hv : DecodesBigEndian getValue) {s s' : Sys N}
    {tr : List (Event N × Output N)} (h : Undisturbed s)
    (hr : Run (step getValue) s tr s') (hplain : ∀ p ∈ tr, Plain p.1) :
    Undisturbed s' := by
  have hok : Each (step getValue) (fun _ e => Plain e) s tr := by
    intro tr₁ e o tr₂ m heq _
    refine hplain (e, o) ?_
    rw [heq]
    exact List.mem_append_right _ List.mem_cons_self
  exact run_invariant_guarded
    (fun _ _ _ _ hI he hs => undisturbed_move hv hI he (step_move hs)) hr hok h

/-! ## The phases of a command -/

/-- The turns of a nexus since it was told to disconnect; `none` if it is not
    disconnecting, disconnected or just reselected. -/
def turnsSince : Proc → Option Nat
  | .connected .disconnect => some 0
  | .blocked => some 1
  | .connected .reselect => some 2
  | _ => none

theorem turnsSince_data {c : Code} (h : c.isData = true) :
    turnsSince (.connected c) = none := by
  cases c <;> first | rfl | exact nomatch h

omit [DecidableEq N] in
theorem inside_of_turnsSince {s : Sys N} {a : N} {n : Nat}
    (h : turnsSince (s.proc a) = some n) : Inside s a := by
  intro hidle
  rw [hidle] at h
  exact nomatch h

/-- Where the command of nexus `a` stands: the chunks still to be announced,
    and a bound on the turns of `a` until it completes. -/
inductive Phase (a : N) (dir : Code) (s : Sys N) : List Nat → Nat → Prop where
  /-- The data phase last announced is under way. -/
  | moving {rest : List Nat} (hp : s.proc a = .connected dir)
      (hdir : dir.isData = true)
      (hrest : chunks dataSize s.state.residue.toNat
        = chunkLen s.state.residue :: rest) :
      Phase a dir s rest (4 * rest.length + 1)
  /-- The command is between two data phases, disconnected or about to be. -/
  | pending {rest : List Nat} {n : Nat} (hp : turnsSince (s.proc a) = some n)
      (hdir : s.state.direction = dir)
      (hrest : chunks dataSize s.state.residue.toNat = rest) :
      Phase a dir s rest (4 * rest.length - n)

omit [DecidableEq N] in
theorem phase_inside {s : Sys N} {a : N} {dir : Code} {rest : List Nat}
    {k : Nat} (h : Phase a dir s rest k) : Inside s a := by
  cases h with
  | moving hp => exact inside_of_connected hp
  | pending hp => exact inside_of_turnsSince hp

omit [DecidableEq N] in
/-- The phase depends on the process and the driver state only. -/
theorem phase_congr {s s' : Sys N} {a : N} {dir : Code} {rest : List Nat}
    {k : Nat} (h : Phase a dir s rest k) (hstate : s'.state = s.state)
    (hproc : s'.proc = s.proc) : Phase a dir s' rest k := by
  cases h with
  | moving hp hdir hrest =>
      refine .moving ?_ hdir ?_
      · rw [hproc, hp]
      · rw [hstate, hrest]
  | pending hp hdir hrest =>
      refine .pending ?_ ?_ ?_
      · rw [hproc, hp]
      · rw [hstate, hdir]
      · rw [hstate, hrest]

/-- The chunks of a residue within the driver's range start with the next
    `data_len`. -/
theorem chunks_residue {r : Int} (h₀ : 0 < r) (h₁ : r ≤ 0xffffff) :
    chunks dataSize r.toNat
      = chunkLen r :: chunks dataSize (r - chunkLen r).toNat := by
  have hlen : chunkLen r = min r.toNat dataSize :=
    chunkLen_of_range (by omega) (by omega)
  have hsub : (r - chunkLen r).toNat = r.toNat - min r.toNat dataSize := by
    rw [hlen]
    omega
  rw [hsub, hlen]
  exact chunks_cons (by decide) (by omega)

theorem turnsSince_le {p : Proc} {n : Nat} (h : turnsSince p = some n) :
    n ≤ 2 := by
  cases p with
  | idle => exact nomatch h
  | blocked =>
      obtain rfl : 1 = n := Option.some.inj h
      decide
  | connected due =>
      cases due with
      | disconnect =>
          obtain rfl : 0 = n := Option.some.inj h
          decide
      | reselect =>
          obtain rfl : 2 = n := Option.some.inj h
          decide
      | _ => exact nomatch h

omit [DecidableEq N] in
/-- A nexus inside has a turn left. -/
theorem phase_pos {s : Sys N} {a : N} {dir : Code} {rest : List Nat} {k : Nat}
    (h : Undisturbed s) (hph : Phase a dir s rest k) : 0 < k := by
  cases hph with
  | moving => exact Nat.succ_pos _
  | pending hdue hdir hrest =>
      have hb := h.exclusive.2 a (inside_of_turnsSince hdue)
      have hle := turnsSince_le hdue
      rw [chunks_residue (h.chunk.residue_pos hb) (h.chunk.residue_le hb)]
        at hrest
      rw [← hrest, List.length_cons]
      omega

/-- What one turn does to the command of `a`: another nexus's command is
    refused; or `a` goes on, announcing at most the next chunk; or the last
    chunk is over and the command completes. -/
inductive Turn (a : N) (dir : Code) (s : Sys N) (rest : List Nat) (k : Nat)
    (e : Event N) (o : Output N) (s' : Sys N) : Prop where
  | foreign {b : N} {t : Target} {bytes : List UInt8}
      (he : e = .callback b t bytes) (hr : t.reason = .command)
      (ha : o.nexus ≠ a) (hbusy : RefusedBusy o)
      (hstate : s'.state = s.state) (h : Phase a dir s' rest k)
  | quiet {k' : Nat} (ha : o.nexus = a)
      (hreply : o.reply = none ∨ o.reply = some .saveAndDisconnect ∨
        o.reply = some .reselect)
      (hk : k' < k) (h : Phase a dir s' rest k')
  | announce {rest' : List Nat} {k' : Nat} (ha : o.nexus = a)
      (hreply : o.reply = some dir) (hrest : rest = o.target.dataLen :: rest')
      (hk : k' < k) (h : Phase a dir s' rest' k')
  | complete (ha : o.nexus = a) (hreply : o.reply = some .complete)
      (hstatus : o.target.status = sstatGood) (hrest : rest = [])
      (hbusy : s'.state.busy = false) (hidle : s'.proc a = .idle)

/-- While `a` is inside, a turn of another nexus is a command, and it is
    refused. -/
theorem foreign_turn {s s' : Sys N} {e : Event N} {o : Output N} {a : N}
    (h : Undisturbed s) (he : Plain e) (hin : Inside s a)
    (hm : Move getValue s e o s') (ha : o.nexus ≠ a) :
    ∃ b t bytes, e = .callback b t bytes ∧ t.reason = .command ∧
      RefusedBusy o ∧ s'.state = s.state ∧ s'.proc = s.proc := by
  -- `a` is the only nexus inside, so the other one is idle
  have hidle : s.proc o.nexus = .idle := by
    refine Decidable.not_not.mp (fun hin' => ha ?_)
    exact h.exclusive.1 _ _ hin' hin
  have hbusy := h.exclusive.2 a hin
  cases hm with
  | refuse hp hl hr hb => exact ⟨_, _, _, rfl, hr, ⟨rfl, rfl⟩, rfl, rfl⟩
  | answer residue buffer status hp hl hr hb => exact nomatch hbusy.symm.trans hb
  | accept residue dir buffer t' hp hl hr hb => exact nomatch hbusy.symm.trans hb
  | finish buffer hp => exact nomatch hidle.symm.trans hp
  | overrun residue buffer hp => exact nomatch hidle.symm.trans hp
  | proceed residue buffer t' hp => exact nomatch hidle.symm.trans hp
  | save residue buffer hp => exact nomatch hidle.symm.trans hp
  | block hp => exact nomatch hidle.symm.trans hp
  | restart hp => exact nomatch hidle.symm.trans hp
  | reselect hp => exact nomatch hidle.symm.trans hp
  | resume t' hp => exact nomatch hidle.symm.trans hp
  | stop reply hp hl hid hr => exact absurd hr (he _ _ _ rfl)
  | stopBlocked reply hp hl hr => exact absurd hr (he _ _ _ rfl)

omit [DecidableEq N] in
/-- A nexus due for a data phase is moving. -/
theorem phase_moving {s : Sys N} {a : N} {dir c : Code} {rest : List Nat}
    {k : Nat} (h : Phase a dir s rest k) (hp : s.proc a = .connected c)
    (hc : c.isData = true) :
    c = dir ∧ k = 4 * rest.length + 1 ∧
      chunks dataSize s.state.residue.toNat
        = chunkLen s.state.residue :: rest := by
  cases h with
  | moving hp' hdir hrest =>
      exact ⟨Proc.connected.inj (hp.symm.trans hp'), rfl, hrest⟩
  | pending hp' =>
      rw [hp, turnsSince_data hc] at hp'
      exact nomatch hp'

omit [DecidableEq N] in
/-- Between two data phases at least one chunk is left. -/
theorem phase_pending {s : Sys N} {a : N} {dir : Code} {rest : List Nat}
    {k n : Nat} (h : Phase a dir s rest k) (hp : turnsSince (s.proc a) = some n)
    (hI : ChunkInv s) (hb : s.state.busy = true) :
    k = 4 * rest.length - n ∧ 0 < rest.length ∧ s.state.direction = dir ∧
      chunks dataSize s.state.residue.toNat = rest := by
  cases h with
  | moving hp' hdir =>
      rw [hp', turnsSince_data hdir] at hp
      exact nomatch hp
  | pending hp' hdir hrest =>
      obtain rfl := Option.some.inj (hp.symm.trans hp')
      refine ⟨rfl, ?_, hdir, hrest⟩
      rw [← hrest, chunks_residue (hI.residue_pos hb) (hI.residue_le hb)]
      exact Nat.succ_pos _

omit [DecidableEq N] in
/-- The chunks left after the data phase that is under way. -/
theorem rest_residue {s : Sys N} {rest : List Nat} (h : ChunkInv s)
    (hb : s.state.busy = true)
    (hrest : chunks dataSize s.state.residue.toNat
      = chunkLen s.state.residue :: rest) :
    rest = chunks dataSize
      (s.state.residue - chunkLen s.state.residue).toNat := by
  rw [chunks_residue (h.residue_pos hb) (h.residue_le hb)] at hrest
  exact (List.cons.inj hrest).2.symm

/-- **THE STEP LEMMA** of a transfer. -/
theorem transfer_step {s s' : Sys N} {e : Event N} {o : Output N} {a : N}
    {dir : Code} {rest : List Nat} {k : Nat} (h : Undisturbed s)
    (he : Plain e) (hph : Phase a dir s rest k)
    (hm : Move getValue s e o s') : Turn a dir s rest k e o s' := by
  by_cases ha : o.nexus = a
  case neg =>
    obtain ⟨b, t, bytes, heq, hr, hbusy, hstate, hproc⟩ :=
      foreign_turn h he (phase_inside hph) hm ha
    exact .foreign heq hr ha hbusy hstate (phase_congr hph hstate hproc)
  case pos =>
    subst ha
    have hI := h.chunk
    cases hm with
    | refuse hp => exact absurd hp (phase_inside hph)
    | answer residue buffer status hp => exact absurd hp (phase_inside hph)
    | accept residue dir' buffer t' hp => exact absurd hp (phase_inside hph)
    | @finish a t bytes buffer hp hl hd hk hres =>
        obtain ⟨-, -, hrest⟩ := phase_moving hph hp hd
        rw [data_residue hI hp hd hk] at hres
        refine .complete rfl rfl rfl ?_ rfl (Function.update_self ..)
        rw [rest_residue hI (hI.flags.lock_flags a hl).1 hrest, hres]
        exact chunks_zero dataSize
    | @overrun a t bytes residue buffer hp hl hd hk hres hneg =>
        -- the chunk of the residue is never more than the residue
        have hb := (hI.flags.lock_flags a hl).1
        obtain ⟨-, -, hle⟩ :=
          chunkLen_bounds (hI.residue_pos hb) (hI.residue_le hb)
        rw [data_residue hI hp hd hk] at hres
        omega
    | @proceed a t bytes residue buffer t' hp hl hd hk hres hpos ht' =>
        obtain ⟨rfl, hk', hrest⟩ := phase_moving hph hp hd
        have hb := (hI.flags.lock_flags a hl).1
        have hle := hI.residue_le hb
        have hnn : (0 : Int) ≤ chunkLen s.state.residue := Int.natCast_nonneg _
        rw [data_residue hI hp hd hk] at hres
        have hsplit := chunks_residue hpos (by omega)
        have hrest' : rest = t'.dataLen ::
            chunks dataSize (residue - chunkLen residue).toNat := by
          rw [rest_residue hI hb hrest, ← hres, hsplit, ht']
        have hlt : 4 * (chunks dataSize
            (residue - chunkLen residue).toNat).length + 1 < k := by
          rw [hk', hrest', List.length_cons]
          omega
        exact .announce rfl rfl hrest' hlt
          (.moving (Function.update_self ..) hd hsplit)
    | @save a t bytes residue buffer hp hl hd hk hres hpos =>
        obtain ⟨hdir, hk', hrest⟩ := phase_moving hph hp hd
        have hb := (hI.flags.lock_flags a hl).1
        rw [data_residue hI hp hd hk] at hres
        have hrest' : chunks dataSize residue.toNat = rest := by
          rw [rest_residue hI hb hrest, hres]
        have hlt : 4 * rest.length - 0 < k := by omega
        have hdue : turnsSince (Function.update s.proc a
            (.connected .disconnect) a) = some 0 := by
          rw [Function.update_self]
          rfl
        exact .quiet rfl (Or.inr (Or.inl rfl)) hlt (.pending hdue hdir hrest')
    | @block a t bytes hp hl hr hk =>
        have hdue : turnsSince (s.proc a) = some 0 := by rw [hp]; rfl
        obtain ⟨hk', hpos, hdir, hrest⟩ :=
          phase_pending hph hdue hI (hI.flags.lock_flags a hl).1
        have hlt : 4 * rest.length - 1 < k := by omega
        have hdue' : turnsSince (Function.update s.proc a .blocked a)
            = some 1 := by
          rw [Function.update_self]
          rfl
        exact .quiet rfl (Or.inl rfl) hlt (.pending hdue' hdir hrest)
    | @restart a hp hl hw =>
        exact nomatch hw.symm.trans (h.blocked_working a hp)
    | @reselect a hp hl hw =>
        have hdue : turnsSince (s.proc a) = some 1 := by rw [hp]; rfl
        obtain ⟨hk', hpos, hdir, hrest⟩ :=
          phase_pending hph hdue hI (hI.flags.working_busy hw)
        have hlt : 4 * rest.length - 2 < k := by omega
        have hdue' : turnsSince (Function.update s.proc a
            (.connected .reselect) a) = some 2 := by
          rw [Function.update_self]
          rfl
        exact .quiet rfl (Or.inr (Or.inr rfl)) hlt (.pending hdue' hdir hrest)
    | @resume a t bytes t' hp hl hr hk ht' =>
        have hb := (hI.flags.lock_flags a hl).1
        have hdata := hI.flags.direction_data a (Or.inr (Or.inr hp))
        have hdue : turnsSince (s.proc a) = some 2 := by rw [hp]; rfl
        obtain ⟨hk', hpos, rfl, hrest⟩ := phase_pending hph hdue hI hb
        have hsplit := chunks_residue (hI.residue_pos hb) (hI.residue_le hb)
        have hrest' : rest = t'.dataLen :: chunks dataSize
            (s.state.residue - chunkLen s.state.residue).toNat := by
          rw [← hrest, hsplit, ht']
        have hlt : 4 * (chunks dataSize (s.state.residue
            - chunkLen s.state.residue).toNat).length + 1 < k := by
          rw [hk', hrest', List.length_cons]
          omega
        rw [settle_connected s a _ _ (afterReply_data hdata)]
        exact .announce rfl rfl hrest' hlt
          (.moving (Function.update_self ..) hdata hsplit)
    | stop reply hp hl hid hr => exact absurd hr (he _ _ _ rfl)
    | stopBlocked reply hp hl hr => exact absurd hr (he _ _ _ rfl)

/-- The process of a nexus inside can always take its next turn, with
    disconnects enabled or not. -/
theorem phase_enabled {s : Sys N} {a : N} {dir : Code} {rest : List Nat}
    {k : Nat} (h : Undisturbed s) (hph : Phase a dir s rest k)
    (flags : BitVec 32) :
    ∃ e o s', step getValue s e = some (o, s') ∧ e.nexus = a ∧ Plain e ∧
      ∀ t bytes, e = .callback a t bytes → t.flags = flags := by
  -- a due callback may always come, with the record as the driver left it
  have hcall : ∀ due : Code, s.proc a = .connected due → due ≠ .command →
      ¬ due.Terminates →
      ∃ e o s', step getValue s e = some (o, s') ∧ e.nexus = a ∧ Plain e ∧
        ∀ t bytes, e = .callback a t bytes → t.flags = flags := by
    intro due hp hc ht
    have hmay : mayEnter s a due := by
      rw [mayEnter, hp]
      exact ⟨h.chunk.flags.connected_lock a due hp, Or.inl ⟨rfl, hc⟩⟩
    refine ⟨.callback a { s.target a with reason := due, flags := flags } [],
      _, _, step_callback hmay ⟨fun _ => rfl, fun _ => rfl⟩, rfl, ?_, ?_⟩
    · intro b t bytes he hr
      obtain ⟨-, rfl, -⟩ := Event.callback.inj he
      exact ht hr
    · intro t bytes he
      obtain ⟨-, rfl, -⟩ := Event.callback.inj he
      rfl
  cases hph with
  | moving hp hdir =>
      refine hcall dir hp ?_ ?_
      · intro h'
        rw [h'] at hdir
        exact nomatch hdir
      · intro h'
        rw [not_data_of_terminates h'] at hdir
        exact nomatch hdir
  | pending hdue =>
      cases hp : s.proc a with
      | idle => exact absurd hp (inside_of_turnsSince hdue)
      | connected due =>
          rw [hp] at hdue
          refine hcall due hp ?_ ?_
          · intro h'
            rw [h'] at hdue
            exact nomatch hdue
          · intro h'
            cases due with
            | disconnect => exact absurd rfl h'.2.2.2.1
            | reselect => exact absurd rfl h'.2.2.2.2
            | _ => exact nomatch hdue
      | blocked =>
          have hl : s.lock = none := by
            cases hl : s.lock with
            | none => rfl
            | some b =>
                obtain ⟨due, hb⟩ := h.chunk.flags.lock_connected b hl
                obtain rfl := h.exclusive.1 b a (inside_of_connected hb)
                  (inside_of_blocked hp)
                exact nomatch hb.symm.trans hp
          obtain ⟨o, s', hs, -⟩ :=
            wake_reselects hp hl (h.blocked_working a hp)
          exact ⟨.wake a, o, s', hs, rfl, (fun _ _ _ h' => nomatch h'),
            (fun _ _ h' => nomatch h')⟩

/-- The first data phase of an accepted command. -/
theorem transfer_begins (hv : DecodesBigEndian getValue) {s s' : Sys N}
    {a : N} {t : Target} {bytes : List UInt8} {o : Output N} {d : Code}
    (hm : Move getValue s (.callback a t bytes) o s')
    (hr : t.reason = .command) (ho : o.reply = some d)
    (hd : d.isData = true) :
    o.nexus = a ∧ d = ownDirection t ∧ 0 < requestedLength getValue t ∧
      ∃ rest, o.target.dataLen :: rest
          = chunks dataSize (requestedLength getValue t) ∧
        Phase a d s' rest (4 * rest.length + 1) := by
  cases hm with
  | refuse => rw [← Option.some.inj ho] at hd; exact nomatch hd
  | answer => rw [← Option.some.inj ho] at hd; exact nomatch hd
  | accept residue dir buffer t' hp hl hr' hb hL hres hdir ht' =>
      obtain rfl := Option.some.inj ho
      have hle := requestedLength_le hv t
      have hpos : 0 < requestedLength getValue t := Nat.pos_of_ne_zero hL
      rw [toInt32_of_range (by omega) (by omega)] at hres
      have hsplit : chunks dataSize residue.toNat = chunkLen residue ::
          chunks dataSize (residue - chunkLen residue).toNat :=
        chunks_residue (by omega) (by omega)
      refine ⟨rfl, hdir, hpos, _, ?_,
        .moving (Function.update_self ..) hd hsplit⟩
      rw [ht', ← hsplit, hres, Int.toNat_natCast]
  | finish buffer hp hl hd' => rw [hr] at hd'; exact nomatch hd'
  | overrun residue buffer hp hl hd' => rw [hr] at hd'; exact nomatch hd'
  | proceed residue buffer t' hp hl hd' => rw [hr] at hd'; exact nomatch hd'
  | save residue buffer hp hl hd' => rw [hr] at hd'; exact nomatch hd'
  | block hp hl hr' => exact nomatch hr.symm.trans hr'
  | resume t' hp hl hr' => exact nomatch hr.symm.trans hr'
  | stop reply hp hl hidle hr' => exact absurd hr hr'.1
  | stopBlocked reply hp hl hr' => exact absurd hr hr'.1

/-! ## The run of a command -/

/-- A run in which the command of `a` is in progress: other nexuses only send
    commands, each refused with BUSY and without a change to the driver state;
    `a` gives no reply but data phases of direction `dir`, whose lengths are
    collected, and the replies of a disconnection. -/
inductive Transfer (getValue : GetValue) (a : N) (dir : Code) :
    Sys N → List (Event N × Output N) → List Nat → Sys N → Prop where
  | nil (s : Sys N) : Transfer getValue a dir s [] [] s
  | foreign {s m s' : Sys N} {b : N} {t : Target} {bytes : List UInt8}
      {o : Output N} {tr : List (Event N × Output N)} {lens : List Nat}
      (hs : step getValue s (.callback b t bytes) = some (o, m))
      (hr : t.reason = .command) (ha : o.nexus ≠ a) (hbusy : RefusedBusy o)
      (hstate : m.state = s.state) (h : Transfer getValue a dir m tr lens s') :
      Transfer getValue a dir s ((.callback b t bytes, o) :: tr) lens s'
  | quiet {s m s' : Sys N} {e : Event N} {o : Output N}
      {tr : List (Event N × Output N)} {lens : List Nat}
      (hs : step getValue s e = some (o, m)) (ha : o.nexus = a)
      (hreply : o.reply = none ∨ o.reply = some .saveAndDisconnect ∨
        o.reply = some .reselect)
      (h : Transfer getValue a dir m tr lens s') :
      Transfer getValue a dir s ((e, o) :: tr) lens s'
  | announce {s m s' : Sys N} {e : Event N} {o : Output N}
      {tr : List (Event N × Output N)} {lens : List Nat}
      (hs : step getValue s e = some (o, m)) (ha : o.nexus = a)
      (hreply : o.reply = some dir) (h : Transfer getValue a dir m tr lens s') :
      Transfer getValue a dir s ((e, o) :: tr) (o.target.dataLen :: lens) s'

/-- The run continues with the turn in which `a` completes: status GOOD,
    `busy` clear, and the nexus idle. -/
def Completes (getValue : GetValue) (a : N) (s : Sys N)
    (tr : List (Event N × Output N)) : Prop :=
  ∃ e o s' tr', tr = (e, o) :: tr' ∧ step getValue s e = some (o, s') ∧
    o.nexus = a ∧ o.reply = some .complete ∧ o.target.status = sstatGood ∧
    s'.state.busy = false ∧ s'.proc a = .idle

/-- The turns of `a` in a run. -/
def turns (a : N) (tr : List (Event N × Output N)) : Nat :=
  (tr.filter (fun p => p.2.nexus = a)).length

theorem turns_cons_self {a : N} {e : Event N} {o : Output N}
    {tr : List (Event N × Output N)} (ha : o.nexus = a) :
    turns a ((e, o) :: tr) = turns a tr + 1 := by
  rw [turns, List.filter_cons_of_pos (by simpa using ha), List.length_cons]
  rfl

theorem turns_cons_other {a : N} {e : Event N} {o : Output N}
    {tr : List (Event N × Output N)} (ha : o.nexus ≠ a) :
    turns a ((e, o) :: tr) = turns a tr := by
  rw [turns, List.filter_cons_of_neg (by simpa using ha)]
  rfl

/-- **THE RUN LEMMA** of a transfer: a run without termination is a transfer
    to its end, or a transfer that announces all the chunks and then
    completes. -/
theorem transfer_run (hv : DecodesBigEndian getValue) {s s' : Sys N}
    {tr : List (Event N × Output N)} {a : N} {dir : Code} {rest : List Nat}
    {k : Nat} (hr : Run (step getValue) s tr s') (h : Undisturbed s)
    (hph : Phase a dir s rest k) (hplain : ∀ p ∈ tr, Plain p.1) :
    (∃ lens rest' k', Transfer getValue a dir s tr lens s' ∧
      rest = lens ++ rest' ∧ Phase a dir s' rest' k' ∧
      turns a tr + k' ≤ k) ∨
    (∃ tr₁ tr₂ n, tr = tr₁ ++ tr₂ ∧ Transfer getValue a dir s tr₁ rest n ∧
      Completes getValue a n tr₂ ∧ turns a tr₁ < k) := by
  induction hr generalizing rest k with
  | nil s => exact Or.inl ⟨[], rest, k, .nil s, rfl, hph, Nat.le_of_eq (Nat.zero_add k)⟩
  | @cons s m s' e o tr hs hr ih =>
      have he : Plain e := hplain (e, o) List.mem_cons_self
      have htr : ∀ p ∈ tr, Plain p.1 :=
        fun p hp => hplain p (List.mem_cons_of_mem _ hp)
      have hm := step_move hs
      have h' := undisturbed_move hv h he hm
      cases transfer_step h he hph hm with
      | @foreign b t bytes heq hreason ha hbusy hstate hph' =>
          subst heq
          rcases ih h' hph' htr with
            ⟨lens, rest', k', ht, hrest, hend, hk⟩ | ⟨tr₁, tr₂, n, rfl, ht, hc, hk⟩
          · refine Or.inl ⟨lens, rest', k',
              .foreign hs hreason ha hbusy hstate ht, hrest, hend, ?_⟩
            rw [turns_cons_other ha]
            exact hk
          · refine Or.inr ⟨_ :: tr₁, tr₂, n, rfl,
              .foreign hs hreason ha hbusy hstate ht, hc, ?_⟩
            rw [turns_cons_other ha]
            exact hk
      | quiet ha hreply hlt hph' =>
          rcases ih h' hph' htr with
            ⟨lens, rest', k', ht, hrest, hend, hk⟩ | ⟨tr₁, tr₂, n, rfl, ht, hc, hk⟩
          · refine Or.inl ⟨lens, rest', k', .quiet hs ha hreply ht, hrest,
              hend, ?_⟩
            rw [turns_cons_self ha]
            omega
          · refine Or.inr ⟨_ :: tr₁, tr₂, n, rfl, .quiet hs ha hreply ht, hc, ?_⟩
            rw [turns_cons_self ha]
            omega
      | announce ha hreply hrest₁ hlt hph' =>
          rcases ih h' hph' htr with
            ⟨lens, rest', k', ht, hrest, hend, hk⟩ | ⟨tr₁, tr₂, n, rfl, ht, hc, hk⟩
          · refine Or.inl ⟨_ :: lens, rest', k', .announce hs ha hreply ht,
              ?_, hend, ?_⟩
            · rw [hrest₁, hrest]
              rfl
            · rw [turns_cons_self ha]
              omega
          · refine Or.inr ⟨_ :: tr₁, tr₂, n, rfl, ?_, hc, ?_⟩
            · rw [hrest₁]
              exact .announce hs ha hreply ht
            · rw [turns_cons_self ha]
              omega
      -- no chunk is left: the transfer ends before this turn
      | complete ha hreply hstatus hrest hbusy hidle =>
          subst hrest
          refine Or.inr ⟨[], _, s, rfl, .nil s,
            ⟨e, o, m, tr, rfl, hs, ha, hreply, hstatus, hbusy, hidle⟩, ?_⟩
          exact phase_pos h hph

/-- **EXACT TRANSFER**: a command is accepted in a run without reset, abort or
    invalid reason, and the run goes on without.  Then all data phases of the
    command have its own direction and the lengths `DATA_SIZE`, ..., with what
    is left at the end; other nexuses' commands are refused and change
    nothing; and after the last chunk the command completes with status GOOD
    and `busy` clear.  Fewer than four turns of the nexus a chunk lead there,
    and until then its next turn can always be taken. -/
theorem exact_transfer (hv : DecodesBigEndian getValue) {s₀ s m s' : Sys N}
    {tr₀ tr : List (Event N × Output N)} {a : N} {t : Target}
    {bytes : List UInt8} {o : Output N} {d : Code}
    (h₀ : Initial s₀) (hr₀ : Run (step getValue) s₀ tr₀ s)
    (hplain₀ : ∀ p ∈ tr₀, Plain p.1) (ht : t.reason = .command)
    (hs : step getValue s (.callback a t bytes) = some (o, m))
    (ho : o.reply = some d) (hd : d.isData = true)
    (hr : Run (step getValue) m tr s') (hplain : ∀ p ∈ tr, Plain p.1) :
    0 < commandLength t ∧ d = ownDirection t ∧
      ∃ tr₁ tr₂ lens n, tr = tr₁ ++ tr₂ ∧
        Transfer getValue a d m tr₁ lens n ∧
        turns a tr₁ + 3 < 4 * (chunks dataSize (commandLength t)).length ∧
        ((o.target.dataLen :: lens = chunks dataSize (commandLength t) ∧
            (o.target.dataLen :: lens).sum = commandLength t ∧
            Completes getValue a n tr₂) ∨
          (tr₂ = [] ∧
            o.target.dataLen :: lens <+: chunks dataSize (commandLength t) ∧
            ∀ flags, ∃ e o' s'', step getValue n e = some (o', s'') ∧
              e.nexus = a ∧ Plain e ∧
              ∀ t bytes, e = .callback a t bytes → t.flags = flags)) := by
  have hm := step_move hs
  have hplain₁ : Plain (.callback a t bytes) := by
    intro b t' bytes' he hterm
    obtain ⟨-, rfl, -⟩ := Event.callback.inj he
    exact hterm.1 ht
  have hU := undisturbed_move hv
    (undisturbed_run hv (undisturbed_initial h₀) hr₀ hplain₀) hplain₁ hm
  obtain ⟨-, hdir, hpos, rest, hrest, hph⟩ := transfer_begins hv hm ht ho hd
  rw [requestedLength_eq hv] at hpos hrest
  refine ⟨hpos, hdir, ?_⟩
  rw [← hrest, List.length_cons]
  rcases transfer_run hv hr hU hph hplain with
    ⟨lens, rest', k', htr, hsplit, hph', hk⟩ | ⟨tr₁, tr₂, n, heq, htr, hc, hk⟩
  · have hU' := undisturbed_run hv hU hr hplain
    have hk' := phase_pos hU' hph'
    refine ⟨tr, [], lens, s', (List.append_nil tr).symm, htr, by omega,
      Or.inr ⟨rfl, ?_, phase_enabled hU' hph'⟩⟩
    rw [hsplit]
    exact ⟨rest', rfl⟩
  · refine ⟨tr₁, tr₂, rest, n, heq, htr, by omega, Or.inl ⟨rfl, ?_, hc⟩⟩
    rw [hrest, sum_chunks]

/-- `receive8k` for nexus 0, which disconnects after its first chunk; nexus 1
    sends a command meanwhile. -/
theorem exact_transfer_receive8k :
    ∃ m tr tr₁ tr₂ lens n, tr.map Prod.fst
        = [.callback 0 (turn .dataIn) [], .callback 0 (turn .disconnect) [],
            .callback 1 receive8k [], .wake 0] ∧
      tr = tr₁ ++ tr₂ ∧ Transfer manualGetValue 0 .dataIn m tr₁ lens n := by
  let m := (enter manualGetValue powerOn 0 receive8k []).2
  have hs : step manualGetValue powerOn (.callback 0 receive8k [])
      = some (_, m) := step_callback (by decide) (by decide)
  have hx : (exec (step manualGetValue) m
      [.callback 0 (turn .dataIn) [], .callback 0 (turn .disconnect) [],
        .callback 1 receive8k [], .wake 0]).isSome = true := by decide
  have hevents := outcome_events hx
  have hsafe : ∀ e ∈ ([.callback 0 (turn .dataIn) [],
      .callback 0 (turn .disconnect) [], .callback 1 receive8k [],
      .wake 0] : List (Event Nat)), Plain e := by decide
  have hplain : ∀ p ∈ (outcome (step manualGetValue) m _ hx).1, Plain p.1 :=
    fun p hp => hsafe p.1 (hevents ▸ List.mem_map_of_mem hp)
  obtain ⟨-, -, tr₁, tr₂, lens, n, heq, htr, -⟩ :=
    exact_transfer manualGetValue_decodes powerOn_initial (.nil powerOn)
      (fun _ h => nomatch h) rfl hs rfl rfl (outcome_run hx) hplain
  exact ⟨m, _, tr₁, tr₂, lens, n, hevents, heq, htr⟩

end TargetTransfer
