import Ttm50.DiskTestResults

/-! # The transfers of the disk test

    `main` derives the number of blocks of a transfer from the disk's block
    size and last block; `fill` and `dump` encode it in a 10-byte command
    block.  `geometry_right` says that for all parameters that pass the check
    the number is the largest that the buffer, the command block and the disk
    allow, and that the command blocks, decoded, name the same blocks as the
    data length. -/

namespace DiskTestGeometry

open InteractivePrograms ByteBuffers DiskTestDriver DiskTestResults

/-! ## Command blocks -/

/-- What an extended command block says. -/
structure Extended where
  opcode : Byte
  lun : Nat
  startBlock : Nat
  blocks : Nat
  deriving DecidableEq, Repr

/-- A number in big-endian bytes. -/
def bigEndian (bs : List Byte) : Nat :=
  bs.foldl (fun n b => 256 * n + b.toNat) 0

/-- READ(10) and WRITE(10): operation code, logical unit in the upper three
    bits, four bytes of block address, two bytes of transfer length. -/
def decodeExtended : List Byte → Option Extended
  | [opcode, unit, a₃, a₂, a₁, a₀, _, n₁, n₀, _] =>
      if opcode = scmdRead10 ∨ opcode = scmdWrite10 then
        some
          { opcode := opcode
            lun := (unit >>> 5).toNat
            startBlock := bigEndian [a₃, a₂, a₁, a₀]
            blocks := bigEndian [n₁, n₀] }
      else none
  | _ => none

/-- The command block survives the encoding. -/
theorem decode_extendedCdb {opcode : Byte}
    (hop : opcode = scmdRead10 ∨ opcode = scmdWrite10) {address : Address}
    (hlun : address.lun ≤ 7) {blocks : Nat} (hblocks : blocks ≤ maxBlocks) :
    decodeExtended (extendedCdb opcode address blocks)
      = some ⟨opcode, address.lun, 0, blocks⟩ := by
  have hunit : ((BitVec.ofNat 8 address.lun <<< 5) >>> 5).toNat
      = address.lun := by
    rw [BitVec.toNat_ushiftRight, BitVec.toNat_shiftLeft, BitVec.toNat_ofNat,
      Nat.shiftLeft_eq, Nat.shiftRight_eq_div_pow]
    omega
  have hlength : bigEndian
      [BitVec.ofNat 8 (blocks / 256), BitVec.ofNat 8 blocks] = blocks := by
    have hmax : maxBlocks = 32767 := rfl
    show 256 * (256 * 0 + (BitVec.ofNat 8 (blocks / 256)).toNat)
      + (BitVec.ofNat 8 blocks).toNat = blocks
    rw [BitVec.toNat_ofNat, BitVec.toNat_ofNat]
    omega
  rw [extendedCdb, decodeExtended, if_pos hop, hunit, hlength]
  rfl

/-- A command for these blocks from the start of this unit, with all of their
    bytes. -/
def Issues (opcode : Byte) (address : Address) (g : Geometry) : DiskOp → Prop
  | .scsiCommand unit command => unit = address ∧
      decodeExtended command.cdb
        = some ⟨opcode, address.lun, 0, g.bufferBlocks⟩ ∧
      command.dataLen = g.bufferBlocks * g.blockSize ∧
      command.data.length = command.dataLen
  | _ => True

/-- Every complete run issues exactly one command, for these blocks. -/
def IssuesOnce {A : Type} (opcode : Byte) (address : Address) (g : Geometry)
    (p : Disk A) : Prop :=
  ∀ tr out, Run anyAnswer p () tr out () → out ≠ .running →
    ∃ command reply, exchanged tr = [⟨address, command, reply⟩] ∧
      Issues opcode address g (.scsiCommand address command)

/-- Any exit is allowed here. -/
abbrev AnyStatus (_ : Nat) : Prop := True

/-! ## What `main` makes of the disk's parameters -/

/-- The transfer of `main` for a disk of `lastBlock + 1` blocks. -/
structure TransferRight (blockSize lastBlock : Int) (address : Address)
    (g : Geometry) : Prop where
  positive : 1 ≤ g.bufferBlocks
  encodable : g.bufferBlocks ≤ 0x7fff
  onDisk : (g.bufferBlocks : Int) ≤ lastBlock + 1
  product : (g.bufferSize : Int) = g.bufferBlocks * blockSize
  noOverflow : Int.bmod (g.bufferBlocks * blockSize) (2 ^ 32)
    = g.bufferBlocks * blockSize
  bounded : g.bufferSize ≤ 1024 * 1024
  largest : 0x7fff < g.bufferBlocks + 1 ∨
    lastBlock + 1 < (g.bufferBlocks + 1 : Int) ∨
    1024 * 1024 < (g.bufferBlocks + 1 : Int) * blockSize
  writes : ∀ verbosity data,
    Only (Issues scmdWrite10 address g) AnyStatus
      (fill verbosity address g.bufferBlocks data g.bufferSize)
  reads : ∀ verbosity data,
    Only (Issues scmdRead10 address g) AnyStatus
      (dump verbosity address g.bufferBlocks data g.bufferSize)
  writesOnce : ∀ verbosity data, IssuesOnce scmdWrite10 address g
    (fill verbosity address g.bufferBlocks data g.bufferSize)
  readsOnce : ∀ verbosity data, IssuesOnce scmdRead10 address g
    (dump verbosity address g.bufferBlocks data g.bufferSize)
  trials : ∀ verbosity continuous left i buffer,
    Only (fun o => Issues scmdWrite10 address g o ∨ Issues scmdRead10 address g o)
      AnyStatus (trials verbosity continuous address g left i buffer)

section Geometry

variable {blockSize lastBlock : Int} {g : Geometry}

/-- What has passed the check. -/
theorem geometry_valid (h : geometry blockSize lastBlock = some g) :
    4 ≤ blockSize ∧ blockSize ≤ 1024 * 1024 ∧ 1 ≤ numberBlocks lastBlock ∧
      g = ⟨blockSize.toNat,
        min (min (maxBufferSize / blockSize.toNat) maxBlocks)
          (numberBlocks lastBlock).toNat,
        min (min (maxBufferSize / blockSize.toNat) maxBlocks)
          (numberBlocks lastBlock).toNat * blockSize.toNat⟩ := by
  rw [geometry] at h
  split at h
  · exact absurd h.symm (Option.some_ne_none g)
  · rename_i hvalid
    have hmax : maxBufferSize = 1048576 := rfl
    exact ⟨by omega, by omega, by omega, (Option.some.inj h).symm⟩

/-- An accepted number of blocks has not overflown. -/
theorem numberBlocks_exact (hlow : -2 ^ 31 ≤ lastBlock)
    (hhigh : lastBlock < 2 ^ 31) (h : 1 ≤ numberBlocks lastBlock) :
    numberBlocks lastBlock = lastBlock + 1 := by
  rw [numberBlocks] at h ⊢
  by_cases htop : lastBlock = 2 ^ 31 - 1
  · rw [htop] at h
    exact absurd h (by decide)
  · exact Int.bmod_eq_of_le (by omega) (by omega)

/-- The number of blocks is the least of the three limits. -/
theorem bufferBlocks_limits (hlow : -2 ^ 31 ≤ lastBlock)
    (hhigh : lastBlock < 2 ^ 31) (h : geometry blockSize lastBlock = some g) :
    1 ≤ g.bufferBlocks ∧ g.bufferBlocks ≤ 0x7fff ∧
      (g.bufferBlocks : Int) ≤ lastBlock + 1 ∧
      (0x7fff < g.bufferBlocks + 1 ∨
        lastBlock + 1 < (g.bufferBlocks + 1 : Int) ∨
        1024 * 1024 / blockSize.toNat < g.bufferBlocks + 1) := by
  obtain ⟨hmin, hmax, hpos, hg⟩ := geometry_valid h
  have hnumber := numberBlocks_exact hlow hhigh hpos
  have hquot : 1 ≤ 1024 * 1024 / blockSize.toNat :=
    (Nat.one_le_div_iff (by omega)).mpr (by omega)
  have hsize : maxBufferSize = 1024 * 1024 := rfl
  have hblocks : maxBlocks = 0x7fff := rfl
  have hcount := congrArg Geometry.bufferBlocks hg
  rw [hnumber, hsize, hblocks] at hcount
  simp only at hcount
  omega

end Geometry

/-! ## The commands of the test -/

section Commands

variable {S : DiskOp → Prop}

theorem only_printf (hS : ∀ text args, S (.printf text args)) (text : String)
    (args : List Int) : Only S AnyStatus (printf text args) :=
  ⟨hS text args, fun _ => trivial⟩

theorem only_info (hS : ∀ text args, S (.printf text args)) (verbosity : Nat)
    (text : String) (args : List Int) :
    Only S AnyStatus (info verbosity text args) := by
  rw [info]
  split
  · exact only_printf hS text args
  · trivial

theorem only_verbose (hS : ∀ text args, S (.printf text args))
    (verbosity : Nat) (text : String) (args : List Int) :
    Only S AnyStatus (verbose verbosity text args) := by
  rw [verbose]
  split
  · exact only_printf hS text args
  · trivial

theorem only_transfer (hS : ∀ text args, S (.printf text args))
    {opcode : Byte} {flags : Nat} {start failed : String} {verbosity : Nat}
    {address : Address} {blocks size : Nat} {data : Buffer}
    (hcommand : S (.scsiCommand address
      { cdb := extendedCdb opcode address blocks
        data := bytes data size
        dataLen := size
        flags := flags
        timeout := 10 })) :
    Only S AnyStatus
      (transfer opcode flags start failed verbosity address blocks data size) := by
  refine only_bind (only_verbose hS _ _ _) (fun _ => ?_)
  refine ⟨hcommand, fun reply => ?_⟩
  show Only S AnyStatus (if reply.result ≠ 0 then _ else _)
  split
  · exact only_bind (only_info hS _ _ _) (fun _ => trivial)
  · split
    · exact only_bind (only_info hS _ _ _) (fun _ => trivial)
    · trivial

/-- `fill` and `dump` issue their command once. -/
theorem once_transfer {opcode : Byte} {flags : Nat} {start failed : String}
    (hstart : start ≠ passedMessage) (hfailed : failed ≠ passedMessage)
    {verbosity : Nat} {address : Address} {g : Geometry} {data : Buffer}
    (hcommand : Issues opcode address g (.scsiCommand address
      { cdb := extendedCdb opcode address g.bufferBlocks
        data := bytes data g.bufferSize
        dataLen := g.bufferSize
        flags := flags
        timeout := 10 })) :
    IssuesOnce opcode address g (transfer opcode flags start failed verbosity
      address g.bufferBlocks data g.bufferSize) := by
  have hone : wp (watching note) (fun _ _ => True)
      (fun _ l => ∃ command reply, l = [⟨address, command, reply⟩] ∧
        Issues opcode address g (.scsiCommand address command))
      (fun _ _ => False)
      (transfer opcode flags start failed verbosity address g.bufferBlocks data
        g.bufferSize) [] := by
    refine wp_transfer quiet_note hstart hfailed ?_
    rintro r w' rfl
    exact ⟨_, r, rfl, hcommand⟩
  intro tr out hr hout
  have hpost := exchanged_of_run hone hr
  cases out with
  | running => exact absurd rfl hout
  | returned a => exact hpost
  | exited x => exact hpost.elim

theorem only_testBuffer (hS : ∀ text args, S (.printf text args))
    (left i : Nat) (value : Word) (buffer : Buffer) :
    Only S AnyStatus (testBuffer left i value buffer) := by
  induction left generalizing i value with
  | zero => trivial
  | succ left ih =>
      rw [testBuffer]
      split
      · exact only_bind (only_printf hS _ _) (fun _ => trivial)
      · exact ih (i + 4) (value + valueInc)

theorem only_fillTest (hS : ∀ text args, S (.printf text args))
    {verbosity : Nat} {address : Address} {blocks size : Nat}
    (hfill : ∀ data, Only S AnyStatus (fill verbosity address blocks data size))
    (hdump : ∀ data, Only S AnyStatus (dump verbosity address blocks data size))
    (buffer : Buffer) :
    Only S AnyStatus (fillTest verbosity address blocks buffer size) := by
  refine only_bind (only_info hS _ _ _) (fun _ => ?_)
  refine only_bind (only_verbose hS _ _ _) (fun _ => ?_)
  refine only_bind (hfill _) ?_
  rintro ⟨failed, reply⟩
  show Only S AnyStatus (if failed ≠ 0 then _ else _)
  split
  · exact only_bind (only_printf hS _ _) (fun _ => trivial)
  refine only_bind (only_info hS _ _ _) (fun _ => ?_)
  refine only_bind (only_verbose hS _ _ _) (fun _ => ?_)
  refine only_bind (hdump _) ?_
  rintro ⟨failed, reply⟩
  show Only S AnyStatus (if failed ≠ 0 then _ else _)
  split
  · exact only_bind (only_printf hS _ _) (fun _ => trivial)
  refine only_bind (only_verbose hS _ _ _) (fun _ => ?_)
  exact only_bind (only_testBuffer hS _ _ _ _) (fun _ => trivial)

theorem only_trials (hS : ∀ text args, S (.printf text args))
    {verbosity : Nat} {address : Address} {g : Geometry}
    (htest : ∀ buffer, Only S AnyStatus
      (fillTest verbosity address g.bufferBlocks buffer g.bufferSize))
    (continuous : Bool) (left i : Nat) (buffer : Buffer) :
    Only S AnyStatus
      (trials verbosity continuous address g left i buffer) := by
  induction left generalizing i buffer with
  | zero => trivial
  | succ left ih =>
      refine only_bind ?_ (fun _ => ?_)
      · split
        · refine only_bind (only_printf hS _ _) (fun _ => ?_)
          refine only_bind (only_printf hS _ _) (fun _ => ?_)
          exact only_info hS _ _ _
        · trivial
      refine only_bind (htest buffer) (fun buffer' => ?_)
      refine only_bind (only_info hS _ _ _) (fun _ => ?_)
      refine only_bind (only_printf hS _ _) (fun _ => ?_)
      split
      · exact ih (i + 1) buffer'
      · trivial

end Commands

/-- **THE TRANSFER GEOMETRY**: for every block size and last block that pass
    the check and every unit, the transfer keeps to the three limits, no
    larger one does, and the commands name exactly its blocks and bytes. -/
theorem geometry_right {blockSize lastBlock : BitVec 32} {g : Geometry}
    {address : Address} (hlun : address.lun ≤ 7)
    (h : geometry blockSize.toInt lastBlock.toInt = some g) :
    TransferRight blockSize.toInt lastBlock.toInt address g := by
  obtain ⟨hmin, -, -, hg⟩ := geometry_valid h
  obtain ⟨hpos, hblocks, hdisk, hlargest⟩ :=
    bufferBlocks_limits (BitVec.le_toInt lastBlock) BitVec.toInt_lt h
  obtain ⟨-, hsize, -, hmax⟩ := geometry_spec h
  have hblockSize : (g.blockSize : Int) = blockSize.toInt := by
    rw [hg]
    exact Int.toNat_of_nonneg (by omega)
  have hbound : g.bufferSize ≤ 1024 * 1024 := hmax
  have hproduct : (g.bufferSize : Int) = g.bufferBlocks * blockSize.toInt := by
    rw [hsize, Nat.cast_mul, hblockSize]
  have hissue : ∀ opcode flags data,
      opcode = scmdRead10 ∨ opcode = scmdWrite10 →
      Issues opcode address g (.scsiCommand address
        { cdb := extendedCdb opcode address g.bufferBlocks
          data := bytes data g.bufferSize
          dataLen := g.bufferSize
          flags := flags
          timeout := 10 }) :=
    fun opcode flags data hop => ⟨rfl, decode_extendedCdb hop hlun hblocks,
      hsize, bytes_length data g.bufferSize⟩
  have hwrites : ∀ verbosity data, Only (Issues scmdWrite10 address g) AnyStatus
      (fill verbosity address g.bufferBlocks data g.bufferSize) :=
    fun verbosity data =>
      only_transfer (fun _ _ => trivial) (hissue _ _ data (Or.inr rfl))
  have hreads : ∀ verbosity data, Only (Issues scmdRead10 address g) AnyStatus
      (dump verbosity address g.bufferBlocks data g.bufferSize) :=
    fun verbosity data =>
      only_transfer (fun _ _ => trivial) (hissue _ _ data (Or.inl rfl))
  have hwritesOnce : ∀ verbosity data, IssuesOnce scmdWrite10 address g
      (fill verbosity address g.bufferBlocks data g.bufferSize) :=
    fun verbosity data => once_transfer (by simp [passedMessage])
      (by simp [passedMessage]) (hissue _ _ data (Or.inr rfl))
  have hreadsOnce : ∀ verbosity data, IssuesOnce scmdRead10 address g
      (dump verbosity address g.bufferBlocks data g.bufferSize) :=
    fun verbosity data => once_transfer (by simp [passedMessage])
      (by simp [passedMessage]) (hissue _ _ data (Or.inl rfl))
  refine ⟨hpos, hblocks, hdisk, hproduct, ?_, hbound, ?_, hwrites, hreads,
    hwritesOnce, hreadsOnce, ?_⟩
  · rw [← hproduct]
    exact Int.bmod_eq_of_le (by omega) (by omega)
  · rcases hlargest with hl | hl | hl
    · exact Or.inl hl
    · exact Or.inr (Or.inl hl)
    · refine Or.inr (Or.inr ?_)
      -- one block more than the quotient is more than the buffer
      have hover : 1024 * 1024 < (g.bufferBlocks + 1) * blockSize.toInt.toNat :=
        Nat.lt_mul_of_div_lt hl (by omega)
      have hnat : ((blockSize.toInt.toNat : Nat) : Int) = blockSize.toInt :=
        Int.toNat_of_nonneg (by omega)
      rw [← hnat]
      exact_mod_cast hover
  · intro verbosity continuous left i buffer
    refine only_trials (fun _ _ => Or.inl trivial) (fun buffer => ?_) _ _ _ _
    refine only_fillTest (fun _ _ => Or.inl trivial) ?_ ?_ buffer
    · intro data
      exact only_mono (fun _ => Or.inl) (hwrites verbosity data)
    · intro data
      exact only_mono (fun _ => Or.inr) (hreads verbosity data)

/-- A disk of 100000 blocks of 512 bytes, unit 3. -/
theorem geometry_right_disk :
    geometry (512 : BitVec 32).toInt (99999 : BitVec 32).toInt
        = some ⟨512, 2048, 1048576⟩ ∧
      TransferRight (512 : BitVec 32).toInt (99999 : BitVec 32).toInt ⟨0, 3⟩
        ⟨512, 2048, 1048576⟩ :=
  ⟨by decide, geometry_right (by decide) (by decide)⟩

end DiskTestGeometry
