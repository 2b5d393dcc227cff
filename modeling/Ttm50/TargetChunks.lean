import Ttm50.TargetFlags

/-! # Chunk safety

    `data_len` is kept per nexus, `residue` is one variable for all of them.
    The joint invariant is that `busy` implies a residue between 1 and
    2^24 - 1, that the data phase a connected nexus is due for is the chunk of
    that residue, and that every nexus inside a command points at the driver's
    buffer.  It holds also when a stale sleeper reselects: the residue it then
    finds is another command's, but the chunk is computed from it anew. -/

namespace TargetChunks

open LabelledRuns TargetDriver TargetSystem TargetFlags

variable {N : Type} [DecidableEq N] {getValue : GetValue}

/-- The invariant of the transfer lengths. -/
structure ChunkInv (s : Sys N) : Prop where
  flags : FlagInv s
  residue_pos : s.state.busy = true → 0 < s.state.residue
  residue_le : s.state.busy = true → s.state.residue ≤ 0xffffff
  data_len : ∀ a due, s.proc a = .connected due → due.isData = true →
    (s.target a).dataLen = chunkLen s.state.residue
  data_ptr : ∀ a, s.proc a ≠ .idle → (s.target a).data = s.state.data

/-- A chunk is between 1 and `DATA_SIZE` bytes and within the residue. -/
theorem chunkLen_bounds {r : Int} (h₀ : 0 < r) (h₁ : r ≤ 0xffffff) :
    0 < chunkLen r ∧ chunkLen r ≤ dataSize ∧ (chunkLen r : Int) ≤ r := by
  rw [chunkLen_of_range (by omega) (by omega)]
  have hsize : dataSize = 4096 := rfl
  omega

/-- The subtraction of a chunk does not wrap. -/
theorem residue_after {r : Int} (h₀ : 0 < r) (h₁ : r ≤ 0xffffff) :
    toInt32 (r - chunkLen r) = r - chunkLen r := by
  obtain ⟨-, -, hle⟩ := chunkLen_bounds h₀ h₁
  have hnn : (0 : Int) ≤ chunkLen r := Int.natCast_nonneg _
  exact toInt32_of_range (by omega) (by omega)

omit [DecidableEq N] in
theorem chunkInv_initial {s : Sys N} (h : Initial s) : ChunkInv s := by
  obtain ⟨hb, hw, hl, hp⟩ := h
  refine ⟨flagInv_initial ⟨hb, hw, hl, hp⟩, ?_, ?_, ?_, ?_⟩
  · intro h
    rw [hb] at h
    exact nomatch h
  · intro h
    rw [hb] at h
    exact nomatch h
  · intro a due ha
    rw [hp] at ha
    exact nomatch ha
  · intro a ha
    exact absurd (hp a) ha

omit [DecidableEq N] in
/-- At a data callback the residue minus `data_len` is the residue left. -/
theorem data_residue {s : Sys N} (h : ChunkInv s) {a : N} {t : Target}
    (hp : s.proc a = .connected t.reason) (hd : t.reason.isData = true)
    (hk : Target.keptBy (s.target a) t) :
    toInt32 (s.state.residue - t.dataLen)
      = s.state.residue - chunkLen s.state.residue := by
  have hlock := h.flags.connected_lock a _ hp
  have hbusy := (h.flags.lock_flags a hlock).1
  rw [hk.2 hd, h.data_len a _ hp hd]
  exact residue_after (h.residue_pos hbusy) (h.residue_le hbusy)

/-- A nexus that takes or keeps the lock, its data phase (if it is due for
    one) being the chunk of the residue. -/
theorem chunkInv_connect {s s' : Sys N} (h : ChunkInv s) {a : N} {due : Code}
    {t' : Target} (hflags : FlagInv s') (hl : s.lock = none ∨ s.lock = some a)
    (hproc : s'.proc = Function.update s.proc a (.connected due))
    (htgt : s'.target = Function.update s.target a t')
    (hdata : s'.state.data = s.state.data)
    (hpos : 0 < s'.state.residue) (hle : s'.state.residue ≤ 0xffffff)
    (hlen : due.isData = true → t'.dataLen = chunkLen s'.state.residue)
    (hptr : t'.data = s.state.data) : ChunkInv s' := by
  refine ⟨hflags, fun _ => hpos, fun _ => hle, ?_, ?_⟩
  · intro b due' hb hd
    by_cases hba : b = a
    · subst hba
      rw [hproc, Function.update_self] at hb
      rw [htgt, Function.update_self]
      exact hlen ((Proc.connected.inj hb) ▸ hd)
    · rw [hproc, Function.update_of_ne hba] at hb
      exact absurd hb (other_not_connected h.flags hl hba)
  · intro b hb
    by_cases hba : b = a
    · subst hba
      rw [htgt, Function.update_self, hptr, hdata]
    · rw [hproc, Function.update_of_ne hba] at hb
      rw [htgt, Function.update_of_ne hba, hdata]
      exact h.data_ptr b hb

/-- A nexus that lets the lock go. -/
theorem chunkInv_release {s s' : Sys N} (h : ChunkInv s) {a : N} {p : Proc}
    {t' : Target} (hflags : FlagInv s') (hl : s.lock = none ∨ s.lock = some a)
    (hproc : s'.proc = Function.update s.proc a p)
    (hp : ∀ due, p ≠ .connected due)
    (htgt : s'.target = Function.update s.target a t')
    (hdata : s'.state.data = s.state.data)
    (hres : s'.state.busy = true →
      s.state.busy = true ∧ s'.state.residue = s.state.residue)
    (hptr : p ≠ .idle → t'.data = s.state.data) : ChunkInv s' := by
  refine ⟨hflags, ?_, ?_, ?_, ?_⟩
  · intro hb
    rw [(hres hb).2]
    exact h.residue_pos (hres hb).1
  · intro hb
    rw [(hres hb).2]
    exact h.residue_le (hres hb).1
  · intro b due hb
    by_cases hba : b = a
    · subst hba
      rw [hproc, Function.update_self] at hb
      exact absurd hb (hp due)
    · rw [hproc, Function.update_of_ne hba] at hb
      exact absurd hb (other_not_connected h.flags hl hba)
  · intro b hb
    by_cases hba : b = a
    · subst hba
      rw [hproc, Function.update_self] at hb
      rw [htgt, Function.update_self, hptr hb, hdata]
    · rw [hproc, Function.update_of_ne hba] at hb
      rw [htgt, Function.update_of_ne hba, hdata]
      exact h.data_ptr b hb

/-- The record of a nexus without a connection may change at will. -/
theorem chunkInv_record {s s' : Sys N} (h : ChunkInv s) {a : N} {t' : Target}
    (hflags : FlagInv s') (hl : s.lock = none) (hproc : s'.proc = s.proc)
    (htgt : s'.target = Function.update s.target a t')
    (hdata : s'.state.data = s.state.data)
    (hres : s'.state.busy = true →
      s.state.busy = true ∧ s'.state.residue = s.state.residue)
    (hptr : s.proc a ≠ .idle → t'.data = s.state.data) : ChunkInv s' := by
  refine chunkInv_release h hflags (Or.inl hl) (p := s.proc a) ?_ ?_ htgt
    hdata hres hptr
  · rw [hproc, Function.update_eq_self]
  · intro due hp
    have := h.flags.connected_lock a due hp
    rw [hl] at this
    exact nomatch this

/-- **THE STEP LEMMA** of the transfer lengths. -/
theorem chunkInv_move (hv : DecodesBigEndian getValue) {s s' : Sys N}
    {e : Event N} {o : Output N} (h : ChunkInv s)
    (hm : Move getValue s e o s') : ChunkInv s' := by
  have hflags := flagInv_move h.flags hm
  cases hm with
  | refuse hp hl hr hb =>
      exact chunkInv_record h hflags hl rfl rfl rfl (fun h' => ⟨h', rfl⟩)
        (fun h' => absurd hp h')
  | answer residue buffer status hp hl hr hb hL hres hst =>
      refine chunkInv_record h hflags hl rfl rfl rfl ?_
        (fun h' => absurd hp h')
      intro h'
      exact nomatch hb.symm.trans h'
  -- the 24-bit length is at most 2^24 - 1, so the `int` does not wrap
  | @accept a t bytes residue dir buffer t' hp hl hr hb hL hres hdir ht' =>
      have hle := requestedLength_le hv t
      rw [toInt32_of_range (by omega) (by omega)] at hres
      refine chunkInv_connect h hflags (Or.inl hl) rfl rfl rfl ?_ ?_ ?_ ?_
      · show 0 < residue
        omega
      · show residue ≤ 0xffffff
        omega
      · intro _
        rw [ht']
      · rw [ht']
  | finish buffer hp hl hd hk hres =>
      exact chunkInv_release h hflags (Or.inr hl) rfl
        (fun _ h' => nomatch h') rfl rfl (fun h' => nomatch h')
        (fun h' => absurd rfl h')
  | overrun residue buffer hp hl hd hk hres hneg =>
      exact chunkInv_release h hflags (Or.inr hl) rfl
        (fun _ h' => nomatch h') rfl rfl (fun h' => nomatch h')
        (fun h' => absurd rfl h')
  | @proceed a t bytes residue buffer t' hp hl hd hk hres hpos ht' =>
      -- the residue only shrinks here, and the next chunk is cut from what is left
      have hbusy := (h.flags.lock_flags a hl).1
      have hle := h.residue_le hbusy
      rw [data_residue h hp hd hk] at hres
      refine chunkInv_connect h hflags (Or.inr hl) rfl rfl rfl hpos ?_ ?_ ?_
      · show residue ≤ 0xffffff
        omega
      · intro _
        rw [ht']
      · rw [ht']
        show t.data = s.state.data
        rw [hk.1 (by intro hc; rw [hc] at hd; exact nomatch hd)]
        exact h.data_ptr a (by rw [hp]; exact fun h' => nomatch h')
  | @save a t bytes residue buffer hp hl hd hk hres hpos =>
      have hbusy := (h.flags.lock_flags a hl).1
      have hle := h.residue_le hbusy
      rw [data_residue h hp hd hk] at hres
      refine chunkInv_connect h hflags (Or.inr hl) rfl rfl rfl hpos ?_ ?_ ?_
      · show residue ≤ 0xffffff
        omega
      · intro h'
        exact nomatch h'
      · rw [hk.1 (by intro hc; rw [hc] at hd; exact nomatch hd)]
        exact h.data_ptr a (by rw [hp]; exact fun h' => nomatch h')
  | @block a t bytes hp hl hr hk =>
      refine chunkInv_release h hflags (Or.inr hl) rfl
        (fun _ h' => nomatch h') rfl rfl (fun h' => ⟨h', rfl⟩) ?_
      intro _
      rw [hk.1 (by rw [hr]; exact fun h' => nomatch h')]
      exact h.data_ptr a (by rw [hp]; exact fun h' => nomatch h')
  | restart hp hl hw =>
      exact chunkInv_release h hflags (Or.inl hl) rfl
        (fun _ h' => nomatch h') rfl rfl (fun h' => nomatch h')
        (fun h' => absurd rfl h')
  -- the residue may be another command's by now; all that counts is its range
  | @reselect a hp hl hw =>
      have hbusy := h.flags.working_busy hw
      exact chunkInv_connect h hflags (Or.inl hl) rfl rfl rfl
        (h.residue_pos hbusy) (h.residue_le hbusy) (fun h' => nomatch h')
        (h.data_ptr a (by rw [hp]; exact fun h' => nomatch h'))
  | @resume a t bytes t' hp hl hr hk ht' =>
      have hbusy := (h.flags.lock_flags a hl).1
      have hdir := h.flags.direction_data a (Or.inr (Or.inr hp))
      rw [settle_connected s a _ _ (afterReply_data hdir)] at hflags ⊢
      refine chunkInv_connect h hflags (Or.inr hl) rfl rfl rfl
        (h.residue_pos hbusy) (h.residue_le hbusy) ?_ ?_
      · intro _
        rw [ht']
      · rw [ht']
        show t.data = s.state.data
        rw [hk.1 (by rw [hr]; exact fun h' => nomatch h')]
        exact h.data_ptr a (by rw [hp]; exact fun h' => nomatch h')
  | stop reply hp hl hidle hr hk hreply =>
      exact chunkInv_release h hflags hl rfl (fun _ h' => nomatch h') rfl rfl
        (fun h' => ⟨((Bool.and_eq_true _ _).mp h').1, rfl⟩)
        (fun h' => absurd rfl h')
  | @stopBlocked a t bytes reply hp hl hr hk hreply =>
      refine chunkInv_record h hflags hl rfl rfl rfl
        (fun h' => ⟨((Bool.and_eq_true _ _).mp h').1, rfl⟩) ?_
      intro h'
      rw [hk.1 hr.1]
      exact h.data_ptr a h'

/-- **THE RUN LEMMA** of the transfer lengths. -/
theorem chunkInv_reachable (hv : DecodesBigEndian getValue) {s : Sys N}
    (h : Reachable (step getValue) Initial s) : ChunkInv s :=
  reachable_invariant (fun _ => chunkInv_initial)
    (fun _ _ _ _ hI hs => chunkInv_move hv hI (step_move hs)) h

/-- The nexus of a data-phase reply is due for that data phase afterwards. -/
theorem data_reply_due {s s' : Sys N} {e : Event N} {o : Output N} {d : Code}
    (hm : Move getValue s e o s') (ho : o.reply = some d)
    (hd : d.isData = true) :
    s'.proc o.nexus = .connected d ∧ s'.target o.nexus = o.target := by
  cases hm with
  | refuse => obtain rfl := Option.some.inj ho; exact nomatch hd
  | answer => obtain rfl := Option.some.inj ho; exact nomatch hd
  | accept =>
      obtain rfl := Option.some.inj ho
      exact ⟨Function.update_self .., Function.update_self ..⟩
  | finish => obtain rfl := Option.some.inj ho; exact nomatch hd
  | overrun => obtain rfl := Option.some.inj ho; exact nomatch hd
  | proceed =>
      obtain rfl := Option.some.inj ho
      exact ⟨Function.update_self .., Function.update_self ..⟩
  | save => obtain rfl := Option.some.inj ho; exact nomatch hd
  | block => exact nomatch ho
  | restart => obtain rfl := Option.some.inj ho; exact nomatch hd
  | reselect => obtain rfl := Option.some.inj ho; exact nomatch hd
  | resume =>
      obtain rfl := Option.some.inj ho
      rw [settle_connected s _ _ _ (afterReply_data hd)]
      exact ⟨Function.update_self .., Function.update_self ..⟩
  | stop reply hp hl hidle hr hk hreply =>
      obtain rfl := Option.some.inj ho
      rcases hreply with rfl | rfl | rfl <;> exact nomatch hd
  | stopBlocked reply hp hl hr hk hreply =>
      obtain rfl := Option.some.inj ho
      rcases hreply with rfl | rfl | rfl <;> exact nomatch hd

/-- A step leaves a residue that is not negative, or the one it found. -/
theorem residue_step (hv : DecodesBigEndian getValue) {s s' : Sys N}
    {e : Event N} {o : Output N} (h : ChunkInv s)
    (hm : Move getValue s e o s') :
    0 ≤ s'.state.residue ∨ s'.state.residue = s.state.residue := by
  have h' := chunkInv_move hv h hm
  cases hm with
  | refuse => exact Or.inr rfl
  | answer residue buffer status hp hl hr hb hL hres hst =>
      rcases hres with rfl | rfl
      · exact Or.inr rfl
      · exact Or.inl (Int.le_refl 0)
  | accept => exact Or.inl (Int.le_of_lt (h'.residue_pos rfl))
  | finish => exact Or.inl (Int.le_refl 0)
  -- the branch cannot be taken: `data_len` is a chunk of the residue
  | @overrun a t bytes residue buffer hp hl hd hk hres hneg =>
      have hbusy := (h.flags.lock_flags a hl).1
      obtain ⟨-, -, hle⟩ :=
        chunkLen_bounds (h.residue_pos hbusy) (h.residue_le hbusy)
      rw [data_residue h hp hd hk] at hres
      omega
  | proceed residue buffer t' hp hl hd hk hres hpos =>
      exact Or.inl (Int.le_of_lt hpos)
  | save residue buffer hp hl hd hk hres hpos =>
      exact Or.inl (Int.le_of_lt hpos)
  | block => exact Or.inr rfl
  | restart => exact Or.inr rfl
  | reselect => exact Or.inr rfl
  | resume => exact Or.inr rfl
  | stop => exact Or.inr rfl
  | stopBlocked => exact Or.inr rfl

/-- A data callback is for a nexus that is due for it, and fails only in the
    `Invalid residue` branch. -/
theorem data_callback {s s' : Sys N} {a : N} {t : Target}
    {bytes : List UInt8} {o : Output N}
    (hm : Move getValue s (.callback a t bytes) o s')
    (hd : t.reason.isData = true) :
    s.proc a = .connected t.reason ∧ Target.keptBy (s.target a) t ∧
      (o.reply = some .notOk →
        toInt32 (s.state.residue - t.dataLen) < 0) := by
  cases hm with
  | refuse hp hl hr => rw [hr] at hd; exact nomatch hd
  | answer residue buffer status hp hl hr => rw [hr] at hd; exact nomatch hd
  | accept residue dir buffer t' hp hl hr => rw [hr] at hd; exact nomatch hd
  | finish buffer hp hl hd' hk hres =>
      exact ⟨hp, hk, fun h' => nomatch h'⟩
  | overrun residue buffer hp hl hd' hk hres hneg =>
      exact ⟨hp, hk, fun _ => hres ▸ hneg⟩
  | proceed residue buffer t' hp hl hd' hk hres hpos ht' =>
      refine ⟨hp, hk, fun h' => ?_⟩
      rw [Option.some.inj h'] at hd
      exact nomatch hd
  | save residue buffer hp hl hd' hk hres hpos =>
      exact ⟨hp, hk, fun h' => nomatch h'⟩
  | block hp hl hr => rw [hr] at hd; exact nomatch hd
  | resume t' hp hl hr => rw [hr] at hd; exact nomatch hd
  | stop reply hp hl hidle hr =>
      rw [not_data_of_terminates hr] at hd
      exact nomatch hd
  | stopBlocked reply hp hl hr =>
      rw [not_data_of_terminates hr] at hd
      exact nomatch hd

/-- **CHUNK SAFETY**: every data-phase reply of every run has a `data_len`
    between 1 and `DATA_SIZE`, within the residue, and points at the driver's
    buffer; no step makes the residue negative; and no data callback takes the
    `Invalid residue` branch. -/
theorem chunk_safety (hv : DecodesBigEndian getValue) {s s' : Sys N}
    {e : Event N} {o : Output N} (h : Reachable (step getValue) Initial s)
    (hs : step getValue s e = some (o, s')) :
    (∀ d, o.reply = some d → d.isData = true →
      0 < o.target.dataLen ∧ o.target.dataLen ≤ dataSize ∧
        (o.target.dataLen : Int) ≤ s'.state.residue ∧
        o.target.data = s'.state.data) ∧
      (0 ≤ s'.state.residue ∨ s'.state.residue = s.state.residue) ∧
      (∀ a t bytes, e = .callback a t bytes → t.reason.isData = true →
        0 ≤ toInt32 (s.state.residue - t.dataLen) ∧
          o.reply ≠ some .notOk) := by
  have hI := chunkInv_reachable hv h
  have hm := step_move hs
  have hI' := chunkInv_move hv hI hm
  refine ⟨?_, residue_step hv hI hm, ?_⟩
  · intro d ho hd
    obtain ⟨hp, ht⟩ := data_reply_due hm ho hd
    have hlock := hI'.flags.connected_lock _ _ hp
    have hbusy := (hI'.flags.lock_flags _ hlock).1
    obtain ⟨h₁, h₂, h₃⟩ :=
      chunkLen_bounds (hI'.residue_pos hbusy) (hI'.residue_le hbusy)
    have hlen := hI'.data_len _ _ hp hd
    have hptr := hI'.data_ptr o.nexus (by rw [hp]; exact fun h' => nomatch h')
    rw [ht] at hlen hptr
    rw [hlen]
    exact ⟨h₁, h₂, h₃, hptr⟩
  · intro a t bytes he hd
    subst he
    obtain ⟨hp, hk, hfail⟩ := data_callback hm hd
    have hlock := hI.flags.connected_lock a _ hp
    have hbusy := (hI.flags.lock_flags a hlock).1
    obtain ⟨-, -, hle⟩ :=
      chunkLen_bounds (hI.residue_pos hbusy) (hI.residue_le hbusy)
    have hnn : 0 ≤ toInt32 (s.state.residue - t.dataLen) := by
      rw [data_residue hI hp hd hk]
      omega
    refine ⟨hnn, fun ho => ?_⟩
    have hneg := hfail ho
    omega

/-- The first data phase of `receive8k`. -/
theorem chunk_safety_receive8k :
    ∃ o s', step manualGetValue powerOn (.callback 0 receive8k [])
        = some (o, s') ∧ o.reply = some .dataIn ∧
      0 < o.target.dataLen ∧ o.target.dataLen ≤ dataSize ∧
      (o.target.dataLen : Int) ≤ s'.state.residue ∧
      o.target.data = s'.state.data := by
  refine ⟨(enter manualGetValue powerOn 0 receive8k []).1,
    (enter manualGetValue powerOn 0 receive8k []).2,
    step_callback (by decide) (by decide), by decide, ?_⟩
  have hs : step manualGetValue powerOn (.callback 0 receive8k [])
      = some (enter manualGetValue powerOn 0 receive8k []) :=
    step_callback (by decide) (by decide)
  exact (chunk_safety manualGetValue_decodes
    ⟨powerOn, [], powerOn_initial, .nil _⟩ hs).1 .dataIn (by decide) rfl

end TargetChunks
