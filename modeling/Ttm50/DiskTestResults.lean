import Ttm50.DiskTestDriver

/-! # What the disk test detects

    `fill_test` writes the words of a progression, clears the buffer, reads it
    back and compares.  `wp_fillTest` says once what it does over any disk;
    two results follow.

    * `fill_test_detects`: blocks that come back swapped, doubled or not at
      all are found, for every way they may be mapped: the progression does
      not repeat itself in the buffer and is never zero;
    * `dropped_reported_iff`: every trial writes the same data, so a disk that
      drops blocks of a later write is reported only when its read fails as
      well. -/

namespace DiskTestResults

open InteractivePrograms ByteBuffers DiskTestDriver

/-! ## The buffer -/

/-- The data that `fill_test` writes. -/
def pattern : Buffer := termByte valueStart valueInc

theorem setBuffer_spec (left i : Nat) (v : Word) (b : Buffer) (j : Nat) :
    setBuffer left i v b j
      = if i ≤ j ∧ j < i + 4 * left then termByte v valueInc (j - i)
        else b j := by
  induction left generalizing i v b with
  | zero => rw [setBuffer, if_neg (by omega)]
  | succ left ih =>
      rw [setBuffer, ih]
      by_cases hlater : i + 4 ≤ j ∧ j < i + 4 + 4 * left
      · rw [if_pos hlater, if_pos (by omega), termByte_succ,
          show j - (i + 4) + 4 = j - i by omega]
      · rw [if_neg hlater]
        by_cases hword : i ≤ j ∧ j < i + 4
        · obtain ⟨k, rfl⟩ : ∃ k, j = i + k := ⟨j - i, by omega⟩
          have hk : k < 4 := by omega
          have hbyte := termByte_at v valueInc 0 hk
          rw [if_pos (by omega), storeWord_at b i v hk,
            Nat.add_sub_cancel_left]
          simpa using hbyte.symm
        · rw [if_neg (by omega), storeWord_other b v hword]

/-- The buffer that is set holds the pattern. -/
theorem setBuffer_bytes (b : Buffer) (size : Nat) :
    bytes (setBuffer (turns size) 0 valueStart b) size = bytes pattern size := by
  refine List.map_congr_left ?_
  intro j hj
  have hlt := List.mem_range.mp hj
  rw [setBuffer_spec, if_pos (by rw [turns]; omega)]
  rfl

/-- What is left of the buffer to be tested holds the progression from `v`
    on. -/
def Matches (b : Buffer) (left i : Nat) (v : Word) : Prop :=
  ∀ j < 4 * left, b (i + j) = termByte v valueInc j

theorem matches_succ (b : Buffer) (left i : Nat) (v : Word) :
    Matches b (left + 1) i v ↔
      loadWord b i = v ∧ Matches b left (i + 4) (v + valueInc) := by
  rw [loadWord_eq_iff]
  have hfirst : ∀ k < 4, termByte v valueInc k = byteOf v k := by
    intro k hk
    simpa using termByte_at v valueInc 0 hk
  constructor
  · intro h
    refine ⟨fun k hk => (h k (by omega)).trans (hfirst k hk), ?_⟩
    intro j hj
    rw [termByte_succ, Nat.add_assoc, Nat.add_comm 4 j]
    exact h (j + 4) (by omega)
  · rintro ⟨hword, hrest⟩ j hj
    by_cases hk : j < 4
    · exact (hword j hk).trans (hfirst j hk).symm
    · obtain ⟨k, rfl⟩ : ∃ k, j = k + 4 := ⟨j - 4, by omega⟩
      have h := hrest k (by omega)
      rwa [termByte_succ, Nat.add_assoc, Nat.add_comm 4 k] at h

/-- The bytes a reply brings, in a cleared buffer. -/
def readBack (size : Nat) (r : Reply) : Buffer := ofBytes (r.data.take size)

/-- The buffer as the test finds it: behind its end, where neither `memset`
    nor the read reaches, it still holds what was set. -/
theorem tested_matches (b : Buffer) (size : Nat) (r : Reply) :
    Matches (copyIn (memset (setBuffer (turns size) 0 valueStart b) 0x00 size)
        (r.data.take size)) (turns size) 0 valueStart ↔
      ∀ j < size, readBack size r j = pattern j := by
  have hturns : size ≤ 4 * turns size := by
    rw [turns]
    omega
  have hin : ∀ j < size,
      copyIn (memset (setBuffer (turns size) 0 valueStart b) 0x00 size)
        (r.data.take size) j = readBack size r j := by
    intro j hj
    rw [copyIn, readBack, ofBytes, copyIn, memset, if_pos hj]
  have hbehind : ∀ j, size ≤ j → j < 4 * turns size →
      copyIn (memset (setBuffer (turns size) 0 valueStart b) 0x00 size)
        (r.data.take size) j = pattern j := by
    intro j hj hlt
    rw [copyIn_other _ ((List.length_take_le _ _).trans hj), memset,
      if_neg (by omega), setBuffer_spec, if_pos (by omega)]
    rfl
  constructor
  · intro h j hj
    have hj' := h j (by omega)
    rw [Nat.zero_add] at hj'
    exact (hin j hj).symm.trans hj'
  · intro h j hj
    rw [Nat.zero_add]
    by_cases hlt : j < size
    · exact (hin j hlt).trans (h j hlt)
    · exact hbehind j (by omega) hj

/-! ## `fill_test` over any disk -/

/-- The command succeeded: zero result, status and residue. -/
def Good (r : Reply) : Prop := r.result = 0 ∧ r.status = 0 ∧ r.residue = 0

instance (r : Reply) : Decidable (Good r) := by
  unfold Good
  infer_instance

/-- A read succeeded and brought the pattern. -/
def PatternBack (size : Nat) (r : Reply) : Prop :=
  Good r ∧ ∀ j < size, readBack size r j = pattern j

/-- The command that `fill` issues in `fill_test`. -/
def fillCommand (address : Address) (blocks size : Nat) : Command :=
  { cdb := extendedCdb scmdWrite10 address blocks
    data := bytes pattern size
    dataLen := size
    flags := sflagDataOut
    timeout := 10 }

/-- The command that `dump` issues in `fill_test`. -/
def dumpCommand (address : Address) (blocks size : Nat) : Command :=
  { cdb := extendedCdb scmdRead10 address blocks
    data := bytes (fun _ => 0) size
    dataLen := size
    flags := sflagDataIn
    timeout := 10 }

def passedMessage : String := "Passed all tests.\n"

/-- Messages other than the success message leave the world alone. -/
def Quiet {W : Type} (env : Env DiskOp DiskOp.Res W) : Prop :=
  ∀ w text args r w', text ≠ passedMessage →
    env w (.printf text args) r w' → w' = w

section AnyDisk

variable {W A : Type} {env : Env DiskOp DiskOp.Res W} {E : Nat → W → Prop}
  {w : W}

theorem wp_printf {Q : Unit → W → Prop} (hq : Quiet env) {text : String}
    {args : List Int} (hne : text ≠ passedMessage) (h : Q () w) :
    wp env (fun _ _ => True) Q E (printf text args) w := by
  refine ⟨trivial, ?_⟩
  intro r w' hr
  obtain rfl := hq w text args r w' hne hr
  exact h

theorem wp_info {Q : Unit → W → Prop} (hq : Quiet env) {verbosity : Nat}
    {text : String} {args : List Int} (hne : text ≠ passedMessage)
    (h : Q () w) : wp env (fun _ _ => True) Q E (info verbosity text args) w := by
  rw [info]
  split
  · exact wp_printf hq hne h
  · exact h

theorem wp_verbose {Q : Unit → W → Prop} (hq : Quiet env) {verbosity : Nat}
    {text : String} {args : List Int} (hne : text ≠ passedMessage)
    (h : Q () w) :
    wp env (fun _ _ => True) Q E (verbose verbosity text args) w := by
  rw [verbose]
  split
  · exact wp_printf hq hne h
  · exact h

/-- `fill` and `dump` perform their command and say whether it succeeded. -/
theorem wp_transfer {Q : Int × Reply → W → Prop} (hq : Quiet env)
    {opcode : Byte} {flags : Nat} {start failed : String}
    (hstart : start ≠ passedMessage) (hfailed : failed ≠ passedMessage)
    {verbosity : Nat} {address : Address} {blocks size : Nat} {data : Buffer}
    (h : ∀ (r : Reply) w', env w (.scsiCommand address
        { cdb := extendedCdb opcode address blocks
          data := bytes data size
          dataLen := size
          flags := flags
          timeout := 10 }) r w' →
      Q (if Good r then scsiOk else scsiNotOk, r) w') :
    wp env (fun _ _ => True) Q E
      (transfer opcode flags start failed verbosity address blocks data size)
      w := by
  rw [transfer, wp_bind]
  refine wp_verbose hq hstart ?_
  refine ⟨trivial, ?_⟩
  intro r w' hr
  have hQ := h r w' hr
  show wp env (fun _ _ => True) Q E (if r.result ≠ 0 then _ else _) w'
  by_cases hresult : r.result = 0
  · rw [if_neg (not_not.mpr hresult)]
    by_cases hstatus : r.status ≠ 0 ∨ r.residue ≠ 0
    · have hbad : ¬ Good r := by
        rintro ⟨-, hs, hres⟩
        exact hstatus.elim (absurd hs) (absurd hres)
      rw [if_pos hstatus, wp_bind]
      rw [if_neg hbad] at hQ
      exact wp_info hq (by simp [passedMessage]) hQ
    · obtain ⟨hs, hres⟩ := not_or.mp hstatus
      rw [if_neg hstatus]
      rwa [if_pos ⟨hresult, not_not.mp hs, not_not.mp hres⟩] at hQ
  · rw [if_pos hresult, wp_bind]
    rw [if_neg (fun hg => hresult hg.1)] at hQ
    exact wp_info hq hfailed hQ

theorem wp_testBuffer {Q : Unit → W → Prop} (hq : Quiet env) {b : Buffer}
    {left i : Nat} {v : Word} (hpass : Matches b left i v → Q () w)
    (hfail : ¬ Matches b left i v → E 1 w) :
    wp env (fun _ _ => True) Q E (testBuffer left i v b) w := by
  induction left generalizing i v with
  | zero => exact hpass (fun j hj => absurd hj (by omega))
  | succ left ih =>
      rw [matches_succ] at hpass hfail
      rw [testBuffer]
      by_cases hword : loadWord b i = v
      · rw [if_neg (not_not.mpr hword)]
        exact ih (fun h => hpass ⟨hword, h⟩) (fun h => hfail (fun h' => h h'.2))
      · rw [if_pos hword, wp_bind]
        exact wp_printf hq (by simp [passedMessage]) (hfail (fun h => hword h.1))

/-- **`fill_test` OVER ANY DISK**: it writes the pattern and reads; it returns
    when both commands succeed and the pattern has come back, and exits with
    status 1 otherwise. -/
theorem wp_fillTest {Q : Buffer → W → Prop} (hq : Quiet env)
    {verbosity : Nat} {address : Address} {blocks size : Nat} {b : Buffer}
    (h : ∀ (r : Reply) w₁, env w (.scsiCommand address
        (fillCommand address blocks size)) r w₁ →
      (Good r → ∀ (r' : Reply) w₂, env w₁ (.scsiCommand address
          (dumpCommand address blocks size)) r' w₂ →
        (PatternBack size r' → ∀ b', Q b' w₂) ∧
        (¬ PatternBack size r' → E 1 w₂)) ∧
      (¬ Good r → E 1 w₁)) :
    wp env (fun _ _ => True) Q E (fillTest verbosity address blocks b size) w := by
  have hclear : ∀ b', bytes (memset b' 0x00 size) size
      = bytes (fun _ => 0) size := by
    intro b'
    refine List.map_congr_left ?_
    intro j hj
    rw [memset, if_pos (List.mem_range.mp hj)]
  rw [fillTest, wp_bind]
  refine wp_info hq (by simp [passedMessage]) ?_
  rw [wp_bind]
  refine wp_verbose hq (by simp [passedMessage]) ?_
  rw [wp_bind]
  refine wp_transfer hq (by simp [passedMessage]) (by simp [passedMessage]) ?_
  intro r w₁ hr
  rw [setBuffer_bytes] at hr
  obtain ⟨hread, hfailed⟩ := h r w₁ hr
  by_cases hgood : Good r
  · simp only [if_pos hgood]
    rw [if_neg (by simp [scsiOk]), wp_bind]
    refine wp_info hq (by simp [passedMessage]) ?_
    rw [wp_bind]
    refine wp_verbose hq (by simp [passedMessage]) ?_
    rw [wp_bind]
    refine wp_transfer hq (by simp [passedMessage]) (by simp [passedMessage]) ?_
    intro r' w₂ hr'
    rw [hclear] at hr'
    obtain ⟨hback, hlost⟩ := hread hgood r' w₂ hr'
    by_cases hgood' : Good r'
    · simp only [if_pos hgood']
      rw [if_neg (by simp [scsiOk]), wp_bind]
      refine wp_verbose hq (by simp [passedMessage]) ?_
      rw [wp_bind]
      refine wp_testBuffer hq ?_ ?_
      · intro hm
        exact hback ⟨hgood', (tested_matches b size r').mp hm⟩ _
      · intro hm
        exact hlost (fun hc => hm ((tested_matches b size r').mpr hc.2))
    · simp only [if_neg hgood']
      rw [if_pos (by simp [scsiNotOk]), wp_bind]
      exact wp_printf hq (by simp [passedMessage])
        (hlost (fun hc => hgood' hc.1))
  · simp only [if_neg hgood]
    rw [if_pos (by simp [scsiNotOk]), wp_bind]
    exact wp_printf hq (by simp [passedMessage]) (hfailed hgood)

end AnyDisk

/-! ## The geometry -/

/-- What the checks of `main` ensure. -/
theorem geometry_spec {blockSize lastBlock : Int} {g : Geometry}
    (h : geometry blockSize lastBlock = some g) :
    4 ≤ g.blockSize ∧ g.bufferSize = g.bufferBlocks * g.blockSize ∧
      g.bufferBlocks ≤ maxBlocks ∧ g.bufferSize ≤ maxBufferSize := by
  rw [geometry] at h
  split at h
  · exact nomatch h
  · rename_i hvalid
    obtain rfl := Option.some.inj h
    refine ⟨?_, rfl, ?_, ?_⟩
    · show 4 ≤ blockSize.toNat
      omega
    · exact (min_le_left _ _).trans (min_le_right _ _)
    · calc min (min (maxBufferSize / blockSize.toNat) maxBlocks)
            (numberBlocks lastBlock).toNat * blockSize.toNat
          ≤ maxBufferSize / blockSize.toNat * blockSize.toNat :=
            Nat.mul_le_mul_right _
              ((min_le_left _ _).trans (min_le_left _ _))
        _ ≤ maxBufferSize := Nat.div_mul_le_self _ _

/-- Block `k` of one memory is block `k'` of another. -/
def SameBlock (blockSize : Nat) (b : Buffer) (k : Nat) (b' : Buffer)
    (k' : Nat) : Prop :=
  ∀ i < blockSize, b (k * blockSize + i) = b' (k' * blockSize + i)

/-- Memories agree when their blocks do. -/
theorem agree_iff_blocks {blockSize : Nat} (h : 0 < blockSize) (blocks : Nat)
    (b b' : Buffer) :
    (∀ j < blocks * blockSize, b j = b' j) ↔
      ∀ k < blocks, SameBlock blockSize b k b' k := by
  constructor
  · intro hall k hk i hi
    refine hall _ ?_
    calc k * blockSize + i < k * blockSize + blockSize := by omega
      _ = (k + 1) * blockSize := by ring
      _ ≤ blocks * blockSize := Nat.mul_le_mul_right _ hk
  · intro hall j hj
    have hblock : j / blockSize < blocks :=
      Nat.div_lt_of_lt_mul (by rwa [Nat.mul_comm] at hj)
    have hbyte := hall _ hblock _ (Nat.mod_lt j h)
    rwa [Nat.div_add_mod'] at hbyte

/-- The pattern has come back when every block of it has. -/
theorem patternBack_iff_blocks {blockSize blocks : Nat} {r : Reply}
    (hgood : Good r) (h : 0 < blockSize) :
    PatternBack (blocks * blockSize) r ↔ ∀ k < blocks,
      SameBlock blockSize (readBack (blocks * blockSize) r) k
        (ofBytes (bytes pattern (blocks * blockSize))) k := by
  rw [PatternBack, and_iff_right hgood, ← agree_iff_blocks h]
  refine forall₂_congr ?_
  intro j hj
  rw [ofBytes_bytes _ hj]

theorem pattern_word (m : Nat) {i : Nat} (hi : i < 4) :
    pattern (4 * m + i) = byteOf (term valueStart valueInc m) i :=
  termByte_at valueStart valueInc m hi

/-- The words of the pattern differ all over the buffer. -/
theorem pattern_inj {m m' : Nat} (hm : 4 * m < maxBufferSize)
    (hm' : 4 * m' < maxBufferSize)
    (h : ∀ i < 4, pattern (4 * m + i) = pattern (4 * m' + i)) : m = m' := by
  have hterm : term valueStart valueInc m = term valueStart valueInc m' := by
    refine byteOf_inj ?_
    intro i hi
    rw [← pattern_word m hi, ← pattern_word m' hi, h i hi]
  -- the increment is 8 times an odd number: the period is 2^29 words
  have hinc : valueInc.toNat = 2 ^ 3 * 0x2468acf := rfl
  have hbuffer : maxBufferSize = 1048576 := rfl
  exact term_inj hinc ⟨0x1234567, rfl⟩ (by omega) (by omega) (by omega) hterm

/-- No word of the pattern is zero. -/
theorem pattern_ne_zero (m : Nat) : ¬ ∀ i < 4, pattern (4 * m + i) = 0 := by
  intro h
  have hzero : term valueStart valueInc m = 0 := by
    refine byteOf_inj ?_
    intro i hi
    rw [← pattern_word m hi, h i hi, byteOf_zero]
  exact term_ne_zero rfl rfl m hzero

/-! ## Blocks that come back in other places -/

/-- What has been seen of a disk: the data of the last extended write, and
    the reply to the last extended read. -/
structure Watch where
  written : Option (List Byte)
  reply : Option Reply

def Watch.next (w : Watch) : (o : DiskOp) → o.Res → Watch
  | .scsiCommand _ command, reply =>
      if command.cdb.head? = some scmdWrite10 then
        { w with written := some command.data }
      else if command.cdb.head? = some scmdRead10 then
        { w with reply := some reply }
      else w
  | _, _ => w

/-- Any disk; the world watches. -/
abbrev watcher : Env DiskOp DiskOp.Res Watch := watching Watch.next

/-- Nothing has been seen yet. -/
def Watch.start : Watch := ⟨none, none⟩

/-- Block `k` of the buffer holds what was written to block `source`, or
    zeros. -/
def Holds (g : Geometry) (b : Buffer) (data : List Byte) (k : Nat) :
    (source : Option Nat) → Prop
  | some k' => k' < g.bufferBlocks ∧ SameBlock g.blockSize b k (ofBytes data) k'
  | none => ∀ i < g.blockSize, b (k * g.blockSize + i) = 0

/-! ## The commands of a run -/

/-- A command with its reply. -/
structure Exchange where
  address : Address
  command : Command
  reply : Reply

/-- The commands that a run has issued, in order. -/
def exchanged : Trace DiskOp DiskOp.Res → List Exchange
  | [] => []
  | ⟨.scsiCommand address command, reply⟩ :: tr =>
      ⟨address, command, reply⟩ :: exchanged tr
  | _ :: tr => exchanged tr

/-- The observer that notes the commands. -/
def note (l : List Exchange) : (o : DiskOp) → o.Res → List Exchange
  | .scsiCommand address command, reply => l ++ [⟨address, command, reply⟩]
  | _, _ => l

theorem quiet_note : Quiet (watching note) := by
  rintro w text args r w' - rfl
  rfl

theorem watched_note (l : List Exchange) (tr : Trace DiskOp DiskOp.Res) :
    watched note l tr = l ++ exchanged tr := by
  induction tr generalizing l with
  | nil => exact (List.append_nil l).symm
  | cons e tr ih =>
      obtain ⟨o, r⟩ := e
      show watched note (note l o r) tr = _
      rw [ih]
      cases o with
      | scsiCommand address command => exact List.append_assoc l _ _
      | _ => rfl

/-- What the observer of a disk has seen lies in the commands. -/
theorem watched_exchanged (w : Watch) (tr : Trace DiskOp DiskOp.Res) :
    watched Watch.next w tr = (exchanged tr).foldl
      (fun w e => w.next (.scsiCommand e.address e.command) e.reply) w := by
  induction tr generalizing w with
  | nil => rfl
  | cons e tr ih =>
      obtain ⟨o, r⟩ := e
      show watched Watch.next (w.next o r) tr = _
      rw [ih]
      cases o <;> rfl

/-- What holds of the commands of every complete run. -/
theorem exchanged_of_run {W A : Type} {env : Env DiskOp DiskOp.Res W}
    {p : Disk A} {Q : A → List Exchange → Prop} {E : Nat → List Exchange → Prop}
    (h : wp (watching note) (fun _ _ => True) Q E p []) {w w' : W}
    {tr : Trace DiskOp DiskOp.Res} {out : Outcome Nat A}
    (hr : Run env p w tr out w') : Outcome.Meets Q E (exchanged tr) out := by
  have hpost := wp_post h (watching_swap note hr [])
  rw [watched_note, List.nil_append] at hpost
  exact hpost

/-- The write of `fill_test`, with its reply. -/
def filled (address : Address) (blocks size : Nat) (r : Reply) : Exchange :=
  ⟨address, fillCommand address blocks size, r⟩

/-- The read of `fill_test`, with its reply. -/
def dumped (address : Address) (blocks size : Nat) (r : Reply) : Exchange :=
  ⟨address, dumpCommand address blocks size, r⟩

/-- `fill_test` issues a write, and a read when that has succeeded; it returns
    if and only if the pattern has come back. -/
theorem exchanged_fillTest (verbosity : Nat) (address : Address)
    (blocks size : Nat) (b : Buffer) :
    wp (watching note) (fun _ _ => True)
      (fun _ l => ∃ r r', Good r ∧ PatternBack size r' ∧
        l = [filled address blocks size r, dumped address blocks size r'])
      (fun _ l => (∃ r, ¬ Good r ∧ l = [filled address blocks size r]) ∨
        ∃ r r', Good r ∧ ¬ PatternBack size r' ∧
          l = [filled address blocks size r, dumped address blocks size r'])
      (fillTest verbosity address blocks b size) [] := by
  refine wp_fillTest quiet_note ?_
  rintro r w₁ rfl
  refine ⟨fun hgood => ?_, fun hbad => Or.inl ⟨r, hbad, rfl⟩⟩
  rintro r' w₂ rfl
  constructor
  · intro hback _
    exact ⟨r, r', hgood, hback, rfl⟩
  · intro hlost
    exact Or.inr ⟨r, r', hgood, hlost, rfl⟩

/-- A complete `fill_test` has issued the write alone, when that has failed, or
    the write and the read. -/
theorem exchanged_complete {W : Type} {env : Env DiskOp DiskOp.Res W}
    {verbosity : Nat} {address : Address} {blocks size : Nat} {b : Buffer}
    {w w' : W} {tr : Trace DiskOp DiskOp.Res} {out : Outcome Nat Buffer}
    (hr : Run env (fillTest verbosity address blocks b size) w tr out w')
    (hout : out ≠ .running) :
    (∃ r, ¬ Good r ∧ exchanged tr = [filled address blocks size r]) ∨
      ∃ r r', exchanged tr
          = [filled address blocks size r, dumped address blocks size r'] ∧
        ((∃ b', out = .returned b') ↔ PatternBack size r') := by
  have hpost := exchanged_of_run (exchanged_fillTest verbosity address
    blocks size b) hr
  cases out with
  | running => exact absurd rfl hout
  | returned b' =>
      obtain ⟨r, r', -, hback, hl⟩ := hpost
      exact Or.inr ⟨r, r', hl, fun _ => hback, fun _ => ⟨b', rfl⟩⟩
  | exited x =>
      rcases hpost with ⟨r, hbad, hl⟩ | ⟨r, r', -, hlost, hl⟩
      · exact Or.inl ⟨r, hbad, hl⟩
      · refine Or.inr ⟨r, r', hl, ?_, fun h => absurd h hlost⟩
        rintro ⟨b', h⟩
        exact nomatch h

/-! ## Misplaced blocks -/

/-- The bytes that were written are those of the pattern. -/
theorem written_pattern {g : Geometry} {k i : Nat} (hk : k < g.bufferBlocks)
    (hi : i < g.blockSize) :
    k * g.blockSize + i < g.bufferBlocks * g.blockSize ∧
      ofBytes (bytes pattern (g.bufferBlocks * g.blockSize))
        (k * g.blockSize + i) = pattern (k * g.blockSize + i) := by
  have hlt : k * g.blockSize + i < g.bufferBlocks * g.blockSize := by
    calc k * g.blockSize + i < k * g.blockSize + g.blockSize := by omega
      _ = (k + 1) * g.blockSize := by ring
      _ ≤ g.bufferBlocks * g.blockSize := Nat.mul_le_mul_right _ hk
  exact ⟨hlt, ofBytes_bytes _ hlt⟩

/-- A block of the pattern is at home in one place only. -/
theorem source_of_same {g : Geometry} {m : Nat} (hm : g.blockSize = 4 * (m + 1))
    (hmax : g.bufferBlocks * g.blockSize ≤ maxBufferSize) {b : Buffer}
    {k : Nat} (hk : k < g.bufferBlocks)
    (hsame : SameBlock g.blockSize b k
      (ofBytes (bytes pattern (g.bufferBlocks * g.blockSize))) k)
    {source : Option Nat}
    (hsource : Holds g b (bytes pattern (g.bufferBlocks * g.blockSize)) k source) :
    source = some k := by
  -- the first word of block `k` lies at offset `4 * (k * (m + 1))`
  have hword : ∀ k, k * g.blockSize = 4 * (k * (m + 1)) := by
    intro k
    rw [hm]
    ring
  have hown : ∀ i < 4, b (k * g.blockSize + i) = pattern (k * g.blockSize + i) := by
    intro i hi
    have hi' : i < g.blockSize := by omega
    exact (hsame i hi').trans (written_pattern hk hi').2
  cases source with
  | none =>
      refine absurd ?_ (pattern_ne_zero (k * (m + 1)))
      intro i hi
      rw [← hword k]
      exact (hown i hi).symm.trans (hsource i (by omega))
  | some k' =>
      obtain ⟨hk', hother⟩ := hsource
      have hstart : k * g.blockSize < maxBufferSize :=
        (written_pattern hk (by omega : 0 < g.blockSize)).1.trans_le hmax
      have hstart' : k' * g.blockSize < maxBufferSize :=
        (written_pattern hk' (by omega : 0 < g.blockSize)).1.trans_le hmax
      rw [hword] at hstart hstart'
      have heq : k * (m + 1) = k' * (m + 1) := by
        refine pattern_inj hstart hstart' ?_
        intro i hi
        have hi' : i < g.blockSize := by omega
        rw [← hword k, ← hword k']
        calc pattern (k * g.blockSize + i) = b (k * g.blockSize + i) :=
              (hown i hi).symm
          _ = ofBytes (bytes pattern (g.bufferBlocks * g.blockSize))
                (k' * g.blockSize + i) := hother i hi'
          _ = pattern (k' * g.blockSize + i) := (written_pattern hk' hi').2
      rw [Nat.eq_of_mul_eq_mul_right (Nat.succ_pos m) heq]

/-- **MISPLACED DATA ARE DETECTED**: when all commands succeed, `fill_test` has
    made its write and its read, and passes a disk that has kept every block;
    and when the read succeeds and every block holds what was written to some
    block, or zeros, `fill_test` returns if and only if every block holds its
    own data; and so it does if and only if no block has come from another one
    or stayed zero. -/
theorem fill_test_detects {blockSize lastBlock : Int} {g : Geometry}
    (hg : geometry blockSize lastBlock = some g) (h4 : 4 ∣ g.blockSize)
    {verbosity : Nat} {address : Address} {b : Buffer}
    {tr : Trace DiskOp DiskOp.Res} {out : Outcome Nat Buffer} {w : Watch}
    (hr : Run watcher
      (fillTest verbosity address g.bufferBlocks b g.bufferSize)
      Watch.start tr out w) (hout : out ≠ .running) :
    ((∀ e ∈ exchanged tr, Good e.reply) →
      ∃ r, Good r ∧ w.written = some (bytes pattern g.bufferSize) ∧
        w.reply = some r ∧
        ((∀ k < g.bufferBlocks, SameBlock g.blockSize (readBack g.bufferSize r)
          k (ofBytes (bytes pattern g.bufferSize)) k) →
          ∃ b', out = .returned b')) ∧
    ∀ data, w.written = some data → ∀ r, w.reply = some r → Good r →
      ∀ source : Nat → Option Nat,
      (∀ k < g.bufferBlocks,
        Holds g (readBack g.bufferSize r) data k (source k)) →
      ((∃ b', out = .returned b') ↔ ∀ k < g.bufferBlocks,
        SameBlock g.blockSize (readBack g.bufferSize r) k (ofBytes data) k) ∧
      ((∃ b', out = .returned b') ↔
        ∀ k < g.bufferBlocks, source k = some k) := by
  obtain ⟨hpos, hsize, -, hmax⟩ := geometry_spec hg
  have hw : w = (exchanged tr).foldl
      (fun w e => w.next (.scsiCommand e.address e.command) e.reply)
      Watch.start := by
    rw [← watched_exchanged]
    exact watching_run hr
  rcases exchanged_complete hr hout with ⟨r, hbad, hl⟩ | ⟨r₀, r₁, hl, hback⟩
  · rw [hl] at hw ⊢
    refine ⟨fun hgood => absurd (hgood _ List.mem_cons_self) hbad, ?_⟩
    intro data _ r' hreply
    rw [hw] at hreply
    exact nomatch hreply
  have hwritten : w.written = some (bytes pattern g.bufferSize) := by
    rw [hw, hl]
    rfl
  have hread : w.reply = some r₁ := by
    rw [hw, hl]
    rfl
  have hown : Good r₁ → ((∃ b', out = .returned b') ↔ ∀ k < g.bufferBlocks,
      SameBlock g.blockSize (readBack g.bufferSize r₁) k
        (ofBytes (bytes pattern g.bufferSize)) k) := by
    intro hgood
    rw [hback, hsize]
    exact patternBack_iff_blocks hgood (by omega)
  refine ⟨?_, ?_⟩
  · intro hall
    rw [hl] at hall
    have hgood := hall _ (List.mem_cons_of_mem _ List.mem_cons_self)
    exact ⟨r₁, hgood, hwritten, hread, (hown hgood).mpr⟩
  intro data hdata r hreply hgood source hsource
  obtain rfl := Option.some.inj (hdata.symm.trans hwritten)
  obtain rfl := Option.some.inj (hreply.symm.trans hread)
  refine ⟨hown hgood, (hown hgood).trans (forall₂_congr ?_)⟩
  intro k hk
  obtain ⟨m, hm⟩ : ∃ m, g.blockSize = 4 * (m + 1) := by
    obtain ⟨m, hm⟩ := h4
    exact ⟨m - 1, by omega⟩
  have hholds := hsource k hk
  rw [hsize] at hmax hholds ⊢
  constructor
  · intro hsame
    exact source_of_same hm hmax hk hsame hholds
  · intro hself
    rw [hself] at hholds
    exact hholds.2

/-- The reply of a disk of two blocks that swaps them. -/
def swappedReply : Reply :=
  ⟨0, 0, 0, (bytes pattern 8).drop 4 ++ (bytes pattern 8).take 4⟩

def swapping : (o : DiskOp) → o.Res
  | .scsiInitialise => 7
  | .scsiResetBus => ()
  | .scsiFindDevice _ => some ⟨sdevDirectAccess, 4, 1⟩
  | .scsiMalloc _ => some (fun _ => 0)
  | .scsiFree => ()
  | .scsiCommand _ _ => swappedReply
  | .printf _ _ => ()

/-- The test of the swapping disk. -/
def swappedTest : Disk Buffer := fillTest 0 ⟨0, 0⟩ 2 (fun _ => 0) 8

theorem fill_test_detects_swap :
    ¬ ∃ b', (answered swapping swappedTest).2 = .returned b' := by
  have hr := answered_run Watch.next swapping swappedTest Watch.start
  generalize hw : watched Watch.next Watch.start
    (answered swapping swappedTest).1 = w at hr
  have hdata : w.written = some (bytes pattern 8) := by
    rw [← hw, ← setBuffer_bytes (fun _ => 0)]
    rfl
  have hreply : w.reply = some swappedReply := by rw [← hw]; rfl
  have hg : geometry 4 1 = some ⟨4, 2, 8⟩ := rfl
  have hholds : ∀ k < 2, Holds ⟨4, 2, 8⟩ (readBack 8 swappedReply)
      (bytes pattern 8) k (some (1 - k)) := by
    intro k hk
    obtain rfl | rfl : k = 0 ∨ k = 1 := by omega
    · exact ⟨Nat.one_lt_two, by show ∀ i < 4, _ = _; decide⟩
    · exact ⟨Nat.two_pos, by show ∀ i < 4, _ = _; decide⟩
  have hdetects := ((fill_test_detects hg (Nat.dvd_refl 4) hr
    (answered_complete _ _)).2 _ hdata _ hreply ⟨rfl, rfl, rfl⟩ _ hholds).2
  rw [hdetects]
  intro h
  exact nomatch h 0 Nat.two_pos

/-! ## Writes that are dropped -/

/-- The first block of an extended command block, most significant byte
    first. -/
def startBlock (cdb : List Byte) : Nat :=
  ((cdb.drop 2).take 4).foldl (fun n c => 256 * n + c.toNat) 0

/-- Its number of blocks. -/
def transferLength (cdb : List Byte) : Nat :=
  ((cdb.drop 7).take 2).foldl (fun n c => 256 * n + c.toNat) 0

/-- The disk, and what has been done with it: its bytes from block 0 on, the
    number of extended writes, the number of success messages. -/
structure World where
  disk : Buffer
  writes : Nat
  passed : Nat

/-- The disk after a write of which the `dropped` blocks are not stored. -/
def store (blockSize : Nat) (dropped : Nat → Bool) (disk : Buffer)
    (first blocks : Nat) (data : List Byte) : Buffer :=
  fun p =>
    if first * blockSize ≤ p ∧ p < (first + blocks) * blockSize ∧
        dropped (p / blockSize) = false then
      data.getD (p - first * blockSize) 0
    else disk p

/-- The bytes of the blocks that are read. -/
def fetch (blockSize : Nat) (disk : Buffer) (first blocks : Nat) : List Byte :=
  bytes (fun j => disk (first * blockSize + j)) (blocks * blockSize)

/-- The world after an extended write: number `n` drops blocks. -/
def World.write (w : World) (blockSize n : Nat) (dropped : Nat → Bool)
    (c : Command) : World :=
  { w with
    disk := store blockSize
      (if w.writes + 1 = n then dropped else fun _ => false) w.disk
      (startBlock c.cdb) (transferLength c.cdb) c.data
    writes := w.writes + 1 }

/-- A disk that stores and returns its blocks until write `n`: of that one it
    drops some blocks and yet reports success, and the read after it has the
    reply `last`, whatever that is. -/
def dropping (blockSize n : Nat) (dropped : Nat → Bool) (last : Reply) :
    Env DiskOp DiskOp.Res World :=
  fun w o r w' =>
    match o, r with
    | .scsiCommand _ c, r =>
        if c.cdb.head? = some scmdWrite10 then
          Good r ∧ w' = w.write blockSize n dropped c
        else if c.cdb.head? = some scmdRead10 then
          w' = w ∧
          if w.writes = n then r = last
          else Good r ∧
            r.data = fetch blockSize w.disk (startBlock c.cdb) (transferLength c.cdb)
        else w' = w
    | .printf text _, _ =>
        w' = { w with
          passed := w.passed + if text = passedMessage then 1 else 0 }
    | _, _ => w' = w

/-- Trial `n` has ended in a failure: the trials before it have passed, it
    has not, and the utility has exited with status 1. -/
def Reported (n : Nat) (out : Outcome Nat Bool) (w : World) : Prop :=
  out = .exited 1 ∧ w.passed + 1 = n

/-- The reply is that of a read that succeeds and returns what the disk
    holds. -/
def Faithful (size : Nat) (disk : Buffer) (last : Reply) : Prop :=
  Good last ∧ ∀ j < size, readBack size last j = disk j

theorem startBlock_extended (opcode : Byte) (address : Address)
    (blocks : Nat) : startBlock (extendedCdb opcode address blocks) = 0 := rfl

theorem transferLength_extended (opcode : Byte) (address : Address)
    {blocks : Nat} (h : blocks ≤ maxBlocks) :
    transferLength (extendedCdb opcode address blocks) = blocks := by
  have hmax : maxBlocks = 32767 := rfl
  show 256 * (256 * 0 + (BitVec.ofNat 8 (blocks / 256)).toNat)
    + (BitVec.ofNat 8 blocks).toNat = blocks
  rw [BitVec.toNat_ofNat, BitVec.toNat_ofNat]
  omega

section Trials

variable {g : Geometry} {n : Nat} {dropped : Nat → Bool} {last : Reply}

/-- The world before trial `i`: the writes before it have left the pattern on
    the disk, and after trial `n` its read has been faithful. -/
structure Before (g : Geometry) (n : Nat) (last : Reply) (i : Nat)
    (w : World) : Prop where
  writes : w.writes + 1 = i
  passed : w.passed + 1 = i
  disk : 2 ≤ i → ∀ j < g.bufferSize, w.disk j = pattern j
  read : n < i → Faithful g.bufferSize w.disk last

theorem dropping_quiet : Quiet (dropping g.blockSize n dropped last) := by
  rintro w text args r w' hne rfl
  simp [hne]

/-- The pattern is on the disk after a write of it, and it stays there when
    blocks of a later write of it are dropped. -/
theorem store_pattern (hsize : g.bufferSize = g.bufferBlocks * g.blockSize)
    {i : Nat} {w : World} (hn : 2 ≤ n) (h : Before g n last i w) {j : Nat}
    (hj : j < g.bufferSize) :
    store g.blockSize (if w.writes + 1 = n then dropped else fun _ => false)
      w.disk 0 g.bufferBlocks (bytes pattern g.bufferSize) j = pattern j := by
  have hwrites := h.writes
  have hstored : (bytes pattern g.bufferSize).getD (j - 0 * g.blockSize) 0
      = pattern j := by
    rw [Nat.zero_mul, Nat.sub_zero]
    exact bytes_getD pattern hj 0
  rw [store]
  by_cases hlast : w.writes + 1 = n
  · -- some blocks may be dropped, but the disk holds the pattern already
    rw [if_pos hlast]
    split
    · exact hstored
    · exact h.disk (by omega) j hj
  · rw [if_neg hlast, if_pos]
    · exact hstored
    · refine ⟨by omega, ?_, rfl⟩
      rw [Nat.zero_add, ← hsize]
      exact hj

/-- What a read returns of the blocks of the buffer. -/
theorem readBack_fetch (hsize : g.bufferSize = g.bufferBlocks * g.blockSize)
    {disk : Buffer} {r : Reply}
    (h : r.data = fetch g.blockSize disk 0 g.bufferBlocks) {j : Nat}
    (hj : j < g.bufferSize) : readBack g.bufferSize r j = disk j := by
  have hdata : r.data.take g.bufferSize
      = bytes (fun j => disk (0 * g.blockSize + j)) g.bufferSize := by
    rw [h, fetch, ← hsize]
    exact List.take_of_length_le (bytes_length _ _).le
  rw [readBack, hdata, ofBytes_bytes _ hj, Nat.zero_mul, Nat.zero_add]

/-- **ONE TRIAL** over such a disk passes, unless it is trial `n` and its read
    is not faithful. -/
theorem wp_trial {blockSize lastBlock : Int}
    (hg : geometry blockSize lastBlock = some g) (hn : 2 ≤ n)
    {verbosity : Nat} {address : Address} {b : Buffer} {i : Nat}
    {w : World} (h : Before g n last i w) :
    wp (dropping g.blockSize n dropped last) (fun _ _ => True)
      (fun _ w' => w'.writes = i ∧ w'.passed + 1 = i ∧
        (∀ j < g.bufferSize, w'.disk j = pattern j) ∧
        (i = n → Faithful g.bufferSize w'.disk last))
      (fun x w' => x = 1 ∧ w'.passed + 1 = i ∧ i = n ∧
        (∀ j < g.bufferSize, w'.disk j = pattern j) ∧
        ¬ Faithful g.bufferSize w'.disk last)
      (fillTest verbosity address g.bufferBlocks b g.bufferSize) w := by
  obtain ⟨-, hsize, hblocks, -⟩ := geometry_spec hg
  refine wp_fillTest dropping_quiet ?_
  rintro r w₁ ⟨hgood, rfl⟩
  refine ⟨fun _ => ?_, absurd hgood⟩
  rintro r' w₂ ⟨rfl, hread⟩
  -- the world between the two commands
  simp only [World.write, fillCommand, dumpCommand, startBlock_extended,
    transferLength_extended _ _ hblocks, h.writes] at hread ⊢
  have hdisk : ∀ j < g.bufferSize, store g.blockSize
      (if w.writes + 1 = n then dropped else fun _ => false) w.disk 0
      g.bufferBlocks (bytes pattern g.bufferSize) j = pattern j :=
    fun j hj => store_pattern hsize hn h hj
  rw [h.writes] at hdisk
  generalize store g.blockSize (if i = n then dropped else fun _ => false)
    w.disk 0 g.bufferBlocks (bytes pattern g.bufferSize) = disk at *
  have hfaithful : PatternBack g.bufferSize r' ↔
      Faithful g.bufferSize disk r' := by
    refine and_congr_right (fun _ => forall₂_congr ?_)
    intro j hj
    rw [hdisk j hj]
  rw [hfaithful]
  constructor
  · intro hF b'
    refine ⟨trivial, h.passed, hdisk, ?_⟩
    rintro rfl
    rw [if_pos rfl] at hread
    rwa [hread] at hF
  · intro hF
    by_cases hlast : i = n
    · rw [if_pos hlast] at hread
      rw [hread] at hF
      exact ⟨trivial, h.passed, hlast, hdisk, hF⟩
    · rw [if_neg hlast] at hread
      exact absurd ⟨hread.1, fun j hj => readBack_fetch hsize hread.2 hj⟩ hF

/-- The loop of trials, from trial `i` to trial `n`. -/
theorem wp_trials {blockSize lastBlock : Int}
    (hg : geometry blockSize lastBlock = some g) (hn : 2 ≤ n)
    {verbosity : Nat} {address : Address} {b : Buffer} {left i : Nat}
    (hi : i + left = n + 1) {w : World} (h : Before g n last i w) :
    wp (dropping g.blockSize n dropped last) (fun _ _ => True)
      (fun done w' => done = false ∧ w'.passed = n ∧
        (∀ j < g.bufferSize, w'.disk j = pattern j) ∧
        Faithful g.bufferSize w'.disk last)
      (fun x w' => x = 1 ∧ w'.passed + 1 = n ∧
        (∀ j < g.bufferSize, w'.disk j = pattern j) ∧
        ¬ Faithful g.bufferSize w'.disk last)
      (trials verbosity true address g left i b) w := by
  induction left generalizing i b w with
  | zero =>
      have hpassed := h.passed
      exact ⟨rfl, by omega, h.disk (by omega), h.read (by omega)⟩
  | succ left ih =>
      rw [trials, if_pos rfl, wp_bind, wp_bind]
      refine wp_printf dropping_quiet (by simp [passedMessage]) ?_
      rw [wp_bind]
      refine wp_printf dropping_quiet (by simp [passedMessage]) ?_
      refine wp_info dropping_quiet (by simp [passedMessage]) ?_
      rw [wp_bind]
      refine wp_consequence (fun _ _ h => h) ?_ ?_ (wp_trial hg hn h)
      · rintro b' w' ⟨hwrites, hpassed, hdisk, hread⟩
        rw [wp_bind]
        refine wp_info dropping_quiet (by simp [passedMessage]) ?_
        rw [wp_bind]
        refine ⟨trivial, ?_⟩
        rintro _ w'' rfl
        -- the success message is counted: the world is before the next trial
        refine ih (by omega) ⟨?_, ?_, fun _ => hdisk, fun hlt => hread (by omega)⟩
        · simpa using hwrites
        · simpa [passedMessage] using hpassed
      · rintro x w' ⟨hx, hpassed, hlast, hread⟩
        exact ⟨hx, by omega, hread⟩

/-- The world before the first trial. -/
def fresh (disk : Buffer) : World := ⟨disk, 0, 0⟩

theorem fresh_before (hn : 2 ≤ n) (disk : Buffer) :
    Before g n last 1 (fresh disk) :=
  ⟨rfl, rfl, fun h => absurd h (by omega), fun h => absurd h (by omega)⟩

/-- Trial `n` ends in one of two ways, with the pattern on the disk. -/
theorem trials_end {blockSize lastBlock : Int}
    (hg : geometry blockSize lastBlock = some g) (hn : 2 ≤ n)
    {verbosity : Nat} {address : Address} {b disk : Buffer}
    {tr : Trace DiskOp DiskOp.Res} {out : Outcome Nat Bool} {w : World}
    (hr : Run (dropping g.blockSize n dropped last)
      (trials verbosity true address g n 1 b) (fresh disk) tr out w)
    (hout : out ≠ .running) :
    (∀ j < g.bufferSize, w.disk j = pattern j) ∧
    ((Reported n out w ∧ ¬ Faithful g.bufferSize w.disk last) ∨
      (out = .returned false ∧ w.passed = n ∧
        Faithful g.bufferSize w.disk last)) := by
  have hpost := wp_post
    (wp_trials hg hn (by omega) (fresh_before hn disk)) hr
  cases out with
  | running => exact absurd rfl hout
  | returned done =>
      obtain ⟨rfl, hpassed, hdisk, hread⟩ := hpost
      exact ⟨hdisk, Or.inr ⟨rfl, hpassed, hread⟩⟩
  | exited x =>
      obtain ⟨rfl, hpassed, hdisk, hread⟩ := hpost
      exact ⟨hdisk, Or.inl ⟨⟨rfl, hpassed⟩, hread⟩⟩

/-- Every operation has an answer on such a disk. -/
theorem dropping_total (blockSize n : Nat) (dropped : Nat → Bool)
    (last : Reply) (w : World) (o : DiskOp) :
    ∃ r w', dropping blockSize n dropped last w o r w' := by
  cases o with
  | scsiInitialise => exact ⟨(0 : Int), w, rfl⟩
  | scsiFindDevice address => exact ⟨none, w, rfl⟩
  | scsiMalloc size => exact ⟨none, w, rfl⟩
  | scsiResetBus | scsiFree => exact ⟨(), w, rfl⟩
  | printf text args => exact ⟨(), _, rfl⟩
  | scsiCommand address c =>
      by_cases hwrite : c.cdb.head? = some scmdWrite10
      · refine ⟨⟨0, 0, 0, []⟩, w.write blockSize n dropped c, ?_⟩
        simp only [dropping]
        rw [if_pos hwrite]
        exact ⟨⟨rfl, rfl, rfl⟩, trivial⟩
      · by_cases hread : c.cdb.head? = some scmdRead10
        · refine ⟨if w.writes = n then last else
            ⟨0, 0, 0, fetch blockSize w.disk (startBlock c.cdb)
              (transferLength c.cdb)⟩, w, ?_⟩
          simp only [dropping]
          rw [if_neg hwrite, if_pos hread]
          refine ⟨trivial, ?_⟩
          split
          · rfl
          · exact ⟨⟨rfl, rfl, rfl⟩, rfl⟩
        · refine ⟨⟨0, 0, 0, []⟩, w, ?_⟩
          simp only [dropping]
          rw [if_neg hwrite, if_neg hread]
          trivial

end Trials

/-- **DROPPED WRITES, EXACTLY**: on a disk that drops blocks of the write of
    trial `n` and reports success, whatever blocks they are, trial `n` ends in
    a failure report if and only if its read fails, or returns something else
    than the disk holds. -/
theorem dropped_reported_iff {blockSize lastBlock : Int} {g : Geometry}
    (hg : geometry blockSize lastBlock = some g) {n : Nat} (hn : 2 ≤ n)
    {dropped : Nat → Bool} {last : Reply} {verbosity : Nat}
    {address : Address} {b disk : Buffer} {tr : Trace DiskOp DiskOp.Res}
    {out : Outcome Nat Bool} {w : World}
    (hr : Run (dropping g.blockSize n dropped last)
      (trials verbosity true address g n 1 b) (fresh disk) tr out w)
    (hout : out ≠ .running) :
    Reported n out w ↔ ¬ Faithful g.bufferSize w.disk last := by
  rcases (trials_end hg hn hr hout).2 with ⟨hreported, hread⟩ | ⟨rfl, -, hread⟩
  · exact iff_of_true hreported hread
  · refine iff_of_false ?_ (not_not.mpr hread)
    rintro ⟨h, -⟩
    exact nomatch h

/-- Two trials on a disk of one block of 512 bytes, the second write of which
    is dropped. -/
def twoTrials : Disk Bool :=
  trials 0 true ⟨0, 0⟩ ⟨512, 1, 512⟩ 2 1 (fun _ => 0)

/-- A second read that fails is reported. -/
theorem dropped_reported_iff_failing :
    ∃ tr out w, Run (dropping 512 2 (fun _ => true) ⟨-1, 0, 0, []⟩) twoTrials
      (fresh (fun _ => 0)) tr out w ∧ Reported 2 out w := by
  obtain ⟨tr, out, w, hr, hout⟩ := run_exists
    (dropping_total 512 2 (fun _ => true) ⟨-1, 0, 0, []⟩) twoTrials
    (fresh (fun _ => 0))
  refine ⟨tr, out, w, hr, ?_⟩
  refine (@dropped_reported_iff 512 0 ⟨512, 1, 512⟩ rfl 2 (Nat.le_refl 2) _ _ _ _
    _ _ _ _ _ hr hout).mpr ?_
  rintro ⟨⟨h, -, -⟩, -⟩
  exact nomatch h

/-- **A DROPPED WRITE GOES UNNOTICED**: the block of the second trial is not
    stored, the read brings the one of the first trial, and the trial
    passes. -/
theorem dropped_write_passes :
    ∃ tr out w, Run (dropping 512 2 (fun _ => true) ⟨0, 0, 0, bytes pattern 512⟩)
      twoTrials (fresh (fun _ => 0)) tr out w ∧ out ≠ .running ∧
      ¬ Reported 2 out w := by
  obtain ⟨tr, out, w, hr, hout⟩ := run_exists
    (dropping_total 512 2 (fun _ => true) ⟨0, 0, 0, bytes pattern 512⟩) twoTrials
    (fresh (fun _ => 0))
  refine ⟨tr, out, w, hr, hout, ?_⟩
  obtain ⟨hdisk, hend⟩ := @trials_end ⟨512, 1, 512⟩ 2 _ _ 512 0 rfl (Nat.le_refl 2)
    _ _ _ _ _ _ _ hr hout
  rcases hend with ⟨-, hread⟩ | ⟨rfl, -, -⟩
  · refine absurd ⟨⟨rfl, rfl, rfl⟩, ?_⟩ hread
    intro j hj
    rw [hdisk j hj, readBack, List.take_of_length_le (bytes_length _ _).le]
    exact ofBytes_bytes pattern hj
  · rintro ⟨h, -⟩
    exact nomatch h

end DiskTestResults
