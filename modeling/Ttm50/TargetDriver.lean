import Mathlib

/-! # The example target driver (`TARGET.C`)

    `target_command` and `target_callback` as the driver computes them, over
    the one `struct state` that serves every nexus.  `target_callback` gives
    the SCSI system up in the middle of its `STARG_DISCONNECT` case: the
    callback is therefore cut at `scsi_unlock`, and `targetRelocked` is the
    rest of it, from the return of `scsi_lock` on.

    `scsi_get_value` is library code: it is the parameter `getValue`, and
    `DecodesBigEndian` is what its manual page promises. -/

namespace TargetDriver

/-! ## Constants of `scsi.h` and of the driver -/

/-- The values of `target->reason` and of the driver's replies: the `STARG_`
    constants, `SCSI_RESET`, `SCSI_NOT_OK`, and every other `int`. -/
inductive Code where
  | complete
  | command
  | dataIn
  | dataOut
  | saveAndDisconnect
  | disconnect
  | reselect
  | restart
  | abort
  | reset
  | notOk
  | other (n : Int)
  deriving DecidableEq, Repr

/-- `STARG_DATA_IN` or `STARG_DATA_OUT`. -/
def Code.isData : Code → Bool
  | .dataIn => true
  | .dataOut => true
  | _ => false

def scmdTestUnitReady : UInt8 := 0x00
def scmdInquiry : UInt8 := 0x12
def scmdSend : UInt8 := 0x0a
def scmdReceive : UInt8 := 0x08

def sstatGood : UInt8 := 0x00
def sstatCheckCondition : UInt8 := 0x02
def sstatBusy : UInt8 := 0x08

/-- `SFLAG_NO_DISCONNECTS`. -/
def sflagNoDisconnects : BitVec 32 := 0x004

/-- `SCSI_STD_INQUIRY_SIZE`. -/
def stdInquirySize : Nat := 36

/-- `DATA_SIZE`: the size of the data buffer. -/
def dataSize : Nat := 4096

/-! ## The driver's data -/

/-- `struct state`.  `data` is the pointer and `buffer` the `DATA_SIZE` bytes
    it points at; `residue` is a 32-bit `int`. -/
structure State where
  residue : Int
  direction : Code
  data : Nat
  busy : Bool
  working : Bool
  buffer : List UInt8
  deriving DecidableEq, Repr

/-- The fields of `struct scsi_target` that the driver reads or writes. -/
structure Target where
  cdb : Vector UInt8 12
  data : Nat
  dataLen : Nat
  status : UInt8
  reason : Code
  flags : BitVec 32
  deriving DecidableEq, Repr

/-- The C conversion to a 32-bit `int`. -/
def toInt32 (x : Int) : Int := Int.bmod x (2 ^ 32)

/-- The C conversion of an `int` to the 32-bit `size_t`. -/
def toSize (x : Int) : Nat := (x % 2 ^ 32).toNat

theorem toInt32_of_range {x : Int} (h₀ : 0 ≤ x) (h₁ : x < 2 ^ 31) :
    toInt32 x = x := by
  rw [toInt32]
  exact Int.bmod_eq_of_le (by omega) (by omega)

theorem toSize_of_range {x : Int} (h₀ : 0 ≤ x) (h₁ : x < 2 ^ 32) :
    toSize x = x.toNat := by
  rw [toSize, Int.emod_eq_of_lt h₀ h₁]

/-- The type of `scsi_get_value( source, length )`. -/
abbrev GetValue := List UInt8 → Nat → BitVec 32

/-- The number a byte string spells in SCSI format, most significant byte
    first. -/
def bigEndian (bytes : List UInt8) : Nat :=
  bytes.foldl (fun v b => 256 * v + b.toNat) 0

/-- What the manual page of `scsi_get_value` promises. -/
def DecodesBigEndian (getValue : GetValue) : Prop :=
  ∀ source length, length ≤ source.length → length ≤ 4 →
    (getValue source length).toNat = bigEndian (source.take length)

/-- A decoder that does what the manual page says. -/
def manualGetValue : GetValue := fun source length =>
  BitVec.ofNat 32 (bigEndian (source.take length))

theorem bigEndian_lt (bytes : List UInt8) :
    bigEndian bytes < 256 ^ bytes.length := by
  have hfold : ∀ (bytes : List UInt8) (v : Nat),
      bytes.foldl (fun v b => 256 * v + b.toNat) v
        < (v + 1) * 256 ^ bytes.length := by
    intro bytes
    induction bytes with
    | nil =>
        intro v
        show v < (v + 1) * 1
        omega
    | cons b bytes ih =>
        intro v
        have hb : b.toNat < 256 := b.toNat_lt
        calc (b :: bytes).foldl (fun v b => 256 * v + b.toNat) v
            < (256 * v + b.toNat + 1) * 256 ^ bytes.length :=
              ih (256 * v + b.toNat)
          _ ≤ ((v + 1) * 256) * 256 ^ bytes.length :=
              Nat.mul_le_mul_right _ (by omega)
          _ = (v + 1) * 256 ^ (b :: bytes).length := by
              rw [List.length_cons, Nat.pow_succ, Nat.mul_assoc,
                Nat.mul_comm 256]
  have := hfold bytes 0
  rw [Nat.zero_add, Nat.one_mul] at this
  exact this

theorem manualGetValue_decodes : DecodesBigEndian manualGetValue := by
  intro source length hlen hle
  have htake : (source.take length).length = length := by
    rw [List.length_take, Nat.min_eq_left hlen]
  have hlt : bigEndian (source.take length) < 2 ^ 32 :=
    calc bigEndian (source.take length)
        < 256 ^ (source.take length).length := bigEndian_lt _
      _ = 256 ^ length := by rw [htake]
      _ ≤ 256 ^ 4 := Nat.pow_le_pow_right (by omega) hle
      _ = 2 ^ 32 := by decide
  show (BitVec.ofNat 32 (bigEndian (source.take length))).toNat = _
  rw [BitVec.toNat_ofNat, Nat.mod_eq_of_lt hlt]

/-! ## `target_command` -/

/-- The inquiry record: `type` 3 (processor), `format` 2, `length` 32, `sync`
    set, and the 28 characters of vendor, product and revision. -/
def inquiryData : List UInt8 :=
  [0x03, 0x00, 0x00, 0x02, 0x20, 0x00, 0x00, 0x10]
    ++ "TRANST  Example Target 0001".toList.map (fun c => UInt8.ofNat c.toNat)
    ++ [0x00]

/-- `data_len` of the next data phase: `DATA_SIZE` or what is left. -/
def chunkLen (residue : Int) : Nat :=
  if residue > dataSize then dataSize else toSize residue

/-- The common text of the `SCMD_SEND` and `SCMD_RECEIVE` cases. -/
def setupTransfer (getValue : GetValue) (direction : Code) (state : State)
    (target : Target) : Code × State × Target :=
  let state := { state with
    residue := toInt32 (getValue (target.cdb.toList.drop 2) 3).toNat }
  if state.residue = 0 then
    (.complete, state, { target with status := sstatGood })
  else
    (direction, { state with busy := true },
      { target with dataLen := chunkLen state.residue, data := state.data })

/-- The `SCMD_INQUIRY` case. -/
def inquiry (state : State) (target : Target) : Code × State × Target :=
  let state := { state with
    buffer := inquiryData ++ state.buffer.drop stdInquirySize
    residue := target.cdb[4].toNat }
  if state.residue = 0 then
    (.complete, state, { target with status := sstatGood })
  else
    let state := if state.residue > stdInquirySize
      then { state with residue := stdInquirySize } else state
    (.dataIn, { state with busy := true },
      { target with dataLen := toSize state.residue, data := state.data })

/-- `target_command`. -/
def targetCommand (getValue : GetValue) (state : State) (target : Target) :
    Code × State × Target :=
  if state.busy then
    (.complete, state, { target with status := sstatBusy })
  else if target.cdb[0] = scmdTestUnitReady then
    (.complete, state, { target with status := sstatGood })
  else if target.cdb[0] = scmdInquiry then
    inquiry state target
  else if target.cdb[0] = scmdSend then
    setupTransfer getValue .dataOut state target
  else if target.cdb[0] = scmdReceive then
    setupTransfer getValue .dataIn state target
  else
    (.complete, state, { target with status := sstatCheckCondition })

/-! ## `target_callback` -/

/-- How far a call of `target_callback` gets: it returns, or it has released
    the SCSI system and waits in `scsi_lock`. -/
inductive Progress where
  | returns (reply : Code) (state : State) (target : Target)
  | unlocked (state : State) (target : Target)
  deriving DecidableEq, Repr

/-- The `STARG_DATA_IN` and `STARG_DATA_OUT` cases. -/
def dataDone (state : State) (target : Target) : Progress :=
  let state := { state with residue := toInt32 (state.residue - target.dataLen) }
  if state.residue = 0 then
    .returns .complete { state with busy := false }
      { target with status := sstatGood }
  else if state.residue < 0 then
    .returns .notOk { state with busy := false } target
  else if target.flags &&& sflagNoDisconnects ≠ 0 then
    .returns target.reason state
      { target with dataLen := chunkLen state.residue }
  else
    .returns .saveAndDisconnect { state with direction := target.reason } target

/-- The common text of the `SCSI_RESET`, `STARG_ABORT` and `default` cases. -/
def terminate (reply : Code) (state : State) (target : Target) : Progress :=
  let state := if !state.working then { state with busy := false } else state
  .returns reply { state with working := false } target

/-- `target_callback`, up to its return or to its `scsi_unlock`. -/
def targetCallback (getValue : GetValue) (state : State) (target : Target) :
    Progress :=
  match target.reason with
  | .command =>
      let (reply, state, target) := targetCommand getValue state target
      .returns reply state target
  | .dataIn => dataDone state target
  | .dataOut => dataDone state target
  | .disconnect => .unlocked { state with working := true } target
  | .reselect =>
      .returns state.direction state
        { target with dataLen := chunkLen state.residue }
  | .reset => terminate .reset state target
  | .abort => terminate .abort state target
  | _ => terminate .notOk state target

/-- The rest of the `STARG_DISCONNECT` case, after `scsi_lock` returns. -/
def targetRelocked (state : State) : Code × State :=
  if !state.working then
    (.restart, { state with busy := false })
  else
    (.reselect, { state with working := false })

/-! ## What a command asks for -/

/-- A reason that the `switch` sends to its reset, abort or default case. -/
def Code.Terminates (reason : Code) : Prop :=
  reason ≠ .command ∧ reason ≠ .dataIn ∧ reason ≠ .dataOut ∧
    reason ≠ .disconnect ∧ reason ≠ .reselect

instance (reason : Code) : Decidable reason.Terminates :=
  inferInstanceAs (Decidable (_ ∧ _))

/-- The operation code. -/
abbrev Target.opcode (target : Target) : UInt8 := target.cdb[0]

/-- The allocation length of an inquiry. -/
abbrev Target.allocationLength (target : Target) : UInt8 := target.cdb[4]

/-- The number of bytes a command asks to move; 0 for the opcodes without a
    data phase. -/
def requestedLength (getValue : GetValue) (target : Target) : Nat :=
  if target.cdb[0] = scmdInquiry then min target.cdb[4].toNat stdInquirySize
  else if target.cdb[0] = scmdSend ∨ target.cdb[0] = scmdReceive then
    (getValue (target.cdb.toList.drop 2) 3).toNat
  else 0

/-- The length that the bytes of the command block spell: the allocation
    length of an inquiry within its record, the 24-bit value of bytes 2 to 4
    of `SEND` and `RECEIVE`. -/
def commandLength (target : Target) : Nat :=
  if target.cdb[0] = scmdInquiry then min target.cdb[4].toNat stdInquirySize
  else if target.cdb[0] = scmdSend ∨ target.cdb[0] = scmdReceive then
    bigEndian ((target.cdb.toList.drop 2).take 3)
  else 0

/-- The direction of a command: OUT for `SEND`, IN for the others. -/
def ownDirection (target : Target) : Code :=
  if target.cdb[0] = scmdSend then .dataOut else .dataIn

theorem opcode_get (target : Target) :
    target.cdb.toList[0]? = some target.opcode := by
  simp

theorem allocationLength_get (target : Target) :
    target.cdb.toList[4]? = some target.allocationLength := by
  simp

theorem ownDirection_isData (target : Target) :
    (ownDirection target).isData = true := by
  rw [ownDirection]
  split <;> rfl

theorem requestedLength_inquiry (getValue : GetValue) {target : Target}
    (h : target.cdb[0] = scmdInquiry) :
    requestedLength getValue target = min target.cdb[4].toNat stdInquirySize :=
  if_pos h

theorem requestedLength_transfer (getValue : GetValue) {target : Target}
    (hI : target.cdb[0] ≠ scmdInquiry)
    (h : target.cdb[0] = scmdSend ∨ target.cdb[0] = scmdReceive) :
    requestedLength getValue target
      = (getValue (target.cdb.toList.drop 2) 3).toNat := by
  rw [requestedLength, if_neg hI, if_pos h]

theorem requestedLength_other (getValue : GetValue) {target : Target}
    (hI : target.cdb[0] ≠ scmdInquiry) (hS : target.cdb[0] ≠ scmdSend)
    (hR : target.cdb[0] ≠ scmdReceive) : requestedLength getValue target = 0 := by
  rw [requestedLength, if_neg hI, if_neg (by simp [hS, hR])]

theorem requestedLength_lt (getValue : GetValue) (target : Target) :
    requestedLength getValue target < 2 ^ 32 := by
  rw [requestedLength]
  split
  · have : min target.cdb[4].toNat stdInquirySize ≤ 36 := Nat.min_le_right _ _
    omega
  · split
    · exact (getValue _ 3).isLt
    · omega

/-- A 32-bit unsigned value becomes the `int` 0 only if it is 0. -/
theorem toInt32_eq_zero {n : Nat} (h : n < 2 ^ 32) :
    toInt32 n = 0 ↔ n = 0 := by
  rw [toInt32, Int.bmod_eq_emod]
  split <;> omega

theorem chunkLen_small {r : Int} (h₀ : 0 ≤ r) (h : r ≤ stdInquirySize) :
    chunkLen r = toSize r := by
  have hle : ¬ r > dataSize := by
    simp only [stdInquirySize, dataSize] at h ⊢
    omega
  rw [chunkLen, if_neg hle]

/-! ## The spec lemmas of `target_command` -/

theorem setupTransfer_completes {getValue : GetValue} (direction : Code)
    (state : State) {target : Target}
    (h : (getValue (target.cdb.toList.drop 2) 3).toNat = 0) :
    setupTransfer getValue direction state target
      = (.complete, { state with residue := 0 },
          { target with status := sstatGood }) := by
  simp only [setupTransfer, h]
  rfl

theorem setupTransfer_accepts {getValue : GetValue} (direction : Code)
    (state : State) {target : Target}
    (h : toInt32 (getValue (target.cdb.toList.drop 2) 3).toNat ≠ 0) :
    setupTransfer getValue direction state target
      = (direction,
          { state with
            residue := toInt32 (getValue (target.cdb.toList.drop 2) 3).toNat
            busy := true },
          { target with
            dataLen :=
              chunkLen (toInt32 (getValue (target.cdb.toList.drop 2) 3).toNat)
            data := state.data }) := by
  simp only [setupTransfer, if_neg h]

theorem inquiry_completes (state : State) {target : Target}
    (h : target.cdb[4].toNat = 0) :
    inquiry state target
      = (.complete,
          { state with
            buffer := inquiryData ++ state.buffer.drop stdInquirySize
            residue := 0 },
          { target with status := sstatGood }) := by
  simp only [inquiry, h]
  rfl

theorem inquiry_accepts (state : State) {target : Target}
    (h : target.cdb[4].toNat ≠ 0) :
    inquiry state target
      = (.dataIn,
          { state with
            buffer := inquiryData ++ state.buffer.drop stdInquirySize
            residue := (min target.cdb[4].toNat stdInquirySize : Nat)
            busy := true },
          { target with
            dataLen := toSize (min target.cdb[4].toNat stdInquirySize : Nat)
            data := state.data }) := by
  have h0 : ¬ (target.cdb[4].toNat : Int) = 0 := by omega
  simp only [inquiry, if_neg h0]
  by_cases hgt : (target.cdb[4].toNat : Int) > stdInquirySize
  · have hmin : min target.cdb[4].toNat stdInquirySize = stdInquirySize := by
      omega
    simp only [if_pos hgt, hmin]
  · have hmin : min target.cdb[4].toNat stdInquirySize
        = target.cdb[4].toNat := by omega
    simp only [if_neg hgt, hmin]

/-- A busy driver refuses every command and changes nothing. -/
theorem targetCommand_busy (getValue : GetValue) {state : State}
    (target : Target) (hb : state.busy = true) :
    targetCommand getValue state target
      = (.complete, state, { target with status := sstatBusy }) := by
  rw [targetCommand, if_pos hb]

/-- A command without a data phase completes with a status other than BUSY. -/
theorem targetCommand_completes {getValue : GetValue} {state : State}
    {target : Target} (hb : state.busy = false)
    (hL : requestedLength getValue target = 0) :
    ∃ residue buffer status, (residue = state.residue ∨ residue = 0) ∧
      status ≠ sstatBusy ∧
      targetCommand getValue state target
        = (.complete, { state with residue := residue, buffer := buffer },
            { target with status := status }) := by
  have hgood : sstatGood ≠ sstatBusy := by decide
  have hcheck : sstatCheckCondition ≠ sstatBusy := by decide
  rw [targetCommand, if_neg (by simp [hb])]
  -- the opcodes in the order of the `switch`
  by_cases hT : target.cdb[0] = scmdTestUnitReady
  · rw [if_pos hT]
    exact ⟨state.residue, state.buffer, _, Or.inl rfl, hgood, rfl⟩
  rw [if_neg hT]
  by_cases hI : target.cdb[0] = scmdInquiry
  · rw [requestedLength_inquiry getValue hI] at hL
    have h0 : target.cdb[4].toNat = 0 := by
      simp only [stdInquirySize] at hL
      omega
    rw [if_pos hI, inquiry_completes state h0]
    exact ⟨0, _, _, Or.inr rfl, hgood, rfl⟩
  rw [if_neg hI]
  by_cases hS : target.cdb[0] = scmdSend
  · rw [requestedLength_transfer getValue hI (Or.inl hS)] at hL
    rw [if_pos hS, setupTransfer_completes .dataOut state hL]
    exact ⟨0, state.buffer, _, Or.inr rfl, hgood, rfl⟩
  rw [if_neg hS]
  by_cases hR : target.cdb[0] = scmdReceive
  · rw [requestedLength_transfer getValue hI (Or.inr hR)] at hL
    rw [if_pos hR, setupTransfer_completes .dataIn state hL]
    exact ⟨0, state.buffer, _, Or.inr rfl, hgood, rfl⟩
  · rw [if_neg hR]
    exact ⟨state.residue, state.buffer, _, Or.inl rfl, hcheck, rfl⟩

/-- The first data phase of an accepted command. -/
theorem targetCommand_accepts {getValue : GetValue} {state : State}
    {target : Target} (hb : state.busy = false)
    (hL : requestedLength getValue target ≠ 0) :
    ∃ buffer, targetCommand getValue state target
      = (ownDirection target,
          { state with
            residue := toInt32 (requestedLength getValue target)
            busy := true, buffer := buffer },
          { target with
            dataLen := chunkLen (toInt32 (requestedLength getValue target))
            data := state.data }) := by
  have hne : toInt32 (requestedLength getValue target) ≠ 0 :=
    fun h => hL ((toInt32_eq_zero (requestedLength_lt _ _)).mp h)
  rw [targetCommand, if_neg (by simp [hb])]
  by_cases hI : target.cdb[0] = scmdInquiry
  · have hT : target.cdb[0] ≠ scmdTestUnitReady := by rw [hI]; decide
    have hS : target.cdb[0] ≠ scmdSend := by rw [hI]; decide
    have hdir : ownDirection target = .dataIn := if_neg hS
    have hlen := requestedLength_inquiry getValue hI
    have hle : requestedLength getValue target ≤ stdInquirySize := by
      rw [hlen]
      exact Nat.min_le_right _ _
    have hsize : stdInquirySize = 36 := rfl
    -- at most 36 bytes: neither the `int` nor the data buffer cuts them
    have hint : toInt32 (requestedLength getValue target)
        = (requestedLength getValue target : Int) :=
      toInt32_of_range (by omega) (by omega)
    refine ⟨inquiryData ++ state.buffer.drop stdInquirySize, ?_⟩
    rw [if_neg hT, if_pos hI, hdir, hint,
      chunkLen_small (by omega) (by omega), hlen]
    exact inquiry_accepts state (fun h0 => hL (by rw [hlen, h0]; rfl))
  · have hT : target.cdb[0] ≠ scmdTestUnitReady := by
      intro h
      exact hL (requestedLength_other getValue hI (by rw [h]; decide)
        (by rw [h]; decide))
    rw [if_neg hT, if_neg hI]
    by_cases hS : target.cdb[0] = scmdSend
    · have hdir : ownDirection target = .dataOut := if_pos hS
      have hlen := requestedLength_transfer getValue hI (Or.inl hS)
      rw [hlen] at hne
      rw [if_pos hS, hdir, hlen]
      exact ⟨state.buffer, setupTransfer_accepts .dataOut state hne⟩
    · have hdir : ownDirection target = .dataIn := if_neg hS
      have hR : target.cdb[0] = scmdReceive :=
        Classical.byContradiction (fun hR =>
          hL (requestedLength_other getValue hI hS hR))
      have hlen := requestedLength_transfer getValue hI (Or.inr hR)
      rw [hlen] at hne
      rw [if_neg hS, if_pos hR, hdir, hlen]
      exact ⟨state.buffer, setupTransfer_accepts .dataIn state hne⟩

/-- With a decoder as the manual promises it, the driver asks for the length
    that the command block spells. -/
theorem requestedLength_eq {getValue : GetValue}
    (hv : DecodesBigEndian getValue) (target : Target) :
    requestedLength getValue target = commandLength target := by
  have hlen : 3 ≤ (target.cdb.toList.drop 2).length := by simp
  rw [requestedLength, commandLength, hv _ 3 hlen (by decide)]

/-- The 24-bit length field cannot exceed 2^24 - 1. -/
theorem requestedLength_le {getValue : GetValue}
    (hv : DecodesBigEndian getValue) (target : Target) :
    requestedLength getValue target ≤ 0xffffff := by
  have hbytes : ((target.cdb.toList.drop 2).take 3).length = 3 := by simp
  have hlt := bigEndian_lt ((target.cdb.toList.drop 2).take 3)
  rw [hbytes] at hlt
  rw [requestedLength_eq hv, commandLength]
  split
  · have : min target.cdb[4].toNat stdInquirySize ≤ 36 := Nat.min_le_right _ _
    omega
  · split
    · omega
    · omega

theorem chunkLen_of_range {r : Int} (h₀ : 0 ≤ r) (h₁ : r < 2 ^ 31) :
    chunkLen r = min r.toNat dataSize := by
  rw [chunkLen]
  split
  · omega
  · rw [toSize_of_range h₀ (by omega)]
    omega

end TargetDriver
