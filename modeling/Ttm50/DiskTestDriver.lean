import Ttm50.ByteBuffers
import Ttm50.InteractivePrograms

/-! # The disk test utility (`DISKTEST.C`)

    `fill_test`, `fill`, `dump` and `main` from the initialisation of the SCSI
    library on, as programs over the library's calls and `printf`.  The
    arguments of `main` have been parsed already: `verbosity`, `continuous`
    and the address are parameters.

    The data buffer is the memory from the pointer that `scsi_malloc` returned
    on.  When the buffer size is not a multiple of 4 the loops of `fill_test`
    touch up to three bytes behind it, and so they do here. -/

namespace DiskTestDriver

open InteractivePrograms ByteBuffers

/-! ## Constants -/

def maxBufferSize : Nat := 1024 * 1024
def maxBlocks : Nat := 0x7fff
def valueStart : Word := 0xdeadbeef
def valueInc : Word := 0x12345678

def scsiOk : Int := 0
def scsiNotOk : Int := -1

def scmdRead10 : Byte := 0x28
def scmdWrite10 : Byte := 0x2a

def sflagDataIn : Nat := 0x001
def sflagDataOut : Nat := 0x002

def sdevDirectAccess : Nat := 0x00

/-! ## Operations -/

/-- `struct scsi_address`. -/
structure Address where
  id : Nat
  lun : Nat
  deriving DecidableEq, Repr

/-- The fields of `struct scsi_command` that the caller sets; `data` are the
    `dataLen` bytes at the data pointer. -/
structure Command where
  cdb : List Byte
  data : List Byte
  dataLen : Nat
  flags : Nat
  timeout : Nat
  deriving DecidableEq, Repr

/-- What `scsi_command` returns and sets: its result, the fields `status` and
    `residue`, and the bytes that came in. -/
structure Reply where
  result : Int
  status : Byte
  residue : Nat
  data : List Byte
  deriving DecidableEq, Repr

/-- The record of the unit that was found. -/
structure Device where
  type : Nat
  blockSize : Int
  lastBlock : Int
  deriving DecidableEq, Repr

inductive DiskOp where
  | scsiInitialise
  | scsiResetBus
  | scsiFindDevice (address : Address)
  | scsiMalloc (size : Nat)
  | scsiFree
  | scsiCommand (address : Address) (command : Command)
  | printf (text : String) (args : List Int)
  deriving DecidableEq, Repr

/-- The TRAM's id, the device if there is one, the memory if there is some,
    the reply to a command. -/
@[reducible] def DiskOp.Res : DiskOp → Type
  | .scsiInitialise => Int
  | .scsiFindDevice _ => Option Device
  | .scsiMalloc _ => Option Buffer
  | .scsiCommand _ _ => Reply
  | _ => Unit

/-- A piece of the utility: it returns, or exits with a status. -/
abbrev Disk (A : Type) := Prog DiskOp DiskOp.Res Nat A

def scsiCommand (address : Address) (command : Command) : Disk Reply :=
  perform (DiskOp.scsiCommand address command)

def printf (text : String) (args : List Int) : Disk Unit :=
  perform (DiskOp.printf text args)

/-- `INFO`. -/
def info (verbosity : Nat) (text : String) (args : List Int) : Disk Unit :=
  if verbosity > 0 then printf text args else pure ()

/-- `VERBOSE`. -/
def verbose (verbosity : Nat) (text : String) (args : List Int) : Disk Unit :=
  if verbosity > 1 then printf text args else pure ()

/-! ## Commands -/

/-- The command block of an extended write or read from block 0 on. -/
def extendedCdb (opcode : Byte) (address : Address) (numberBlocks : Nat) :
    List Byte :=
  [opcode, BitVec.ofNat 8 address.lun <<< 5, 0, 0, 0, 0, 0,
    BitVec.ofNat 8 (numberBlocks / 256), BitVec.ofNat 8 numberBlocks, 0]

/-- The common text of `fill` and `dump`: what they return, and the reply. -/
def transfer (opcode : Byte) (flags : Nat) (start failed : String)
    (verbosity : Nat) (address : Address) (numberBlocks : Nat) (data : Buffer)
    (dataLen : Nat) : Disk (Int × Reply) := do
  verbose verbosity start [(dataLen : Int)]
  let reply ← scsiCommand address
    { cdb := extendedCdb opcode address numberBlocks
      data := bytes data dataLen
      dataLen := dataLen
      flags := flags
      timeout := 10 }
  if reply.result ≠ 0 then do
    info verbosity failed [reply.result]
    pure (scsiNotOk, reply)
  else if reply.status ≠ 0 ∨ reply.residue ≠ 0 then do
    info verbosity "Read status %d. Residue %d.\n"
      [(reply.status.toNat : Int), (reply.residue : Int)]
    pure (scsiNotOk, reply)
  else pure (scsiOk, reply)

/-- `fill`. -/
def fill : (verbosity : Nat) → Address → (numberBlocks : Nat) →
    (data : Buffer) → (dataLen : Nat) → Disk (Int × Reply) :=
  transfer scmdWrite10 sflagDataOut "Writing %d bytes.\n" "Write result %d.\n"

/-- `dump`. -/
def dump : (verbosity : Nat) → Address → (numberBlocks : Nat) →
    (data : Buffer) → (dataLen : Nat) → Disk (Int × Reply) :=
  transfer scmdRead10 sflagDataIn "Reading %d bytes.\n" "Read result %d.\n"

/-! ## `fill_test` -/

/-- The number of turns of `for (i = 0; i < buffer_size; i += 4)`. -/
def turns (bufferSize : Nat) : Nat := (bufferSize + 3) / 4

/-- The loop that sets the buffer, from offset `i` on. -/
def setBuffer : (left i : Nat) → (value : Word) → Buffer → Buffer
  | 0, _, _, buffer => buffer
  | left + 1, i, value, buffer =>
      setBuffer left (i + 4) (value + valueInc) (storeWord buffer i value)

/-- The loop that tests the buffer, from offset `i` on. -/
def testBuffer : (left i : Nat) → (value : Word) → Buffer → Disk Unit
  | 0, _, _, _ => pure ()
  | left + 1, i, value, buffer =>
      if loadWord buffer i ≠ value then do
        printf "0x%08x: Found 0x%08lx expected 0x%08lx.\n"
          [(i : Int), ((loadWord buffer i).toNat : Int), (value.toNat : Int)]
        .exit 1
      else testBuffer left (i + 4) (value + valueInc) buffer

/-- `fill_test`: the buffer it leaves. -/
def fillTest (verbosity : Nat) (address : Address) (bufferBlocks : Nat)
    (buffer : Buffer) (bufferSize : Nat) : Disk Buffer := do
  info verbosity "Write test.\n" []
  verbose verbosity "Setting buffer.\n" []
  let buffer := setBuffer (turns bufferSize) 0 valueStart buffer
  let (failed, _) ← fill verbosity address bufferBlocks buffer bufferSize
  if failed ≠ 0 then do
    printf "Failed to write to disk.\n" []
    .exit 1
  else do
    info verbosity "Read test.\n" []
    verbose verbosity "Clearing buffer.\n" []
    let buffer := memset buffer 0x00 bufferSize
    let (failed, reply) ← dump verbosity address bufferBlocks buffer bufferSize
    let buffer := copyIn buffer (reply.data.take bufferSize)
    if failed ≠ 0 then do
      printf "Failed to read from disk.\n" []
      .exit 1
    else do
      verbose verbosity "Testing buffer.\n" []
      testBuffer (turns bufferSize) 0 valueStart buffer
      pure buffer

/-! ## `main` -/

/-- What `main` makes of the disk's parameters. -/
structure Geometry where
  blockSize : Nat
  bufferBlocks : Nat
  bufferSize : Nat
  deriving DecidableEq, Repr

/-- `last_block + 1` in an `int`. -/
def numberBlocks (lastBlock : Int) : Int := Int.bmod (lastBlock + 1) (2 ^ 32)

/-- The checks of `main` on the disk's parameters, and the size of the
    buffer: `none` when they are invalid. -/
def geometry (blockSize lastBlock : Int) : Option Geometry :=
  if blockSize < 4 ∨ blockSize > maxBufferSize ∨ numberBlocks lastBlock < 1
  then none
  else
    let blocks := min (min (maxBufferSize / blockSize.toNat) maxBlocks)
      (numberBlocks lastBlock).toNat
    some
      { blockSize := blockSize.toNat
        bufferBlocks := blocks
        bufferSize := blocks * blockSize.toNat }

/-- The loop of `main` from trial `i` on, cut off after `left` trials:
    whether it was left by `break`. -/
def trials (verbosity : Nat) (continuous : Bool) (address : Address)
    (g : Geometry) : (left i : Nat) → Buffer → Disk Bool
  | 0, _, _ => pure false
  | left + 1, i, buffer => do
      (if continuous then do
        printf "\n" []
        printf "... Trial %d ...\n" [(i : Int)]
        info verbosity "\n" []
      else pure ())
      let buffer ← fillTest verbosity address g.bufferBlocks buffer g.bufferSize
      info verbosity "\n" []
      printf "Passed all tests.\n" []
      (if continuous then
        trials verbosity continuous address g left (i + 1) buffer
      else pure true)

/-- `main` once the arguments are parsed, with its loop cut off after `left`
    trials; it returns when it is cut off. -/
def main (verbosity : Nat) (continuous : Bool) (address : Address)
    (left : Nat) : Disk Unit := do
  verbose verbosity "Initialising SCSI library.\n" []
  let id : Int ← perform DiskOp.scsiInitialise
  if id < 0 then do
    printf "Failed to initialise SCSI.\n" []
    .exit 1
  else do
  info verbosity "SCSI TRAM id is %d.\n" [id]
  if id = (address.id : Int) then do
    printf "Disk and TRAM SCSI ids cannot be the same.\n" []
    .exit 1
  else do
  verbose verbosity "Resetting SCSI bus.\n" []
  let () ← perform DiskOp.scsiResetBus
  verbose verbosity "Looking for direct access device target %d lun %d.\n"
    [(address.id : Int), (address.lun : Int)]
  let device : Option Device ← perform (DiskOp.scsiFindDevice address)
  match device with
  | none => do
      printf "Failed to find disk.\n" []
      .exit 1
  | some device =>
      if device.type ≠ sdevDirectAccess then do
        info verbosity "Found device of type %d.\n" [(device.type : Int)]
        printf "Not a disk device.\n" []
        .exit 1
      else
        match geometry device.blockSize device.lastBlock with
        | none => do
            printf "Invalid block size %d, number %d.\n"
              [device.blockSize, numberBlocks device.lastBlock]
            .exit 1
        | some g => do
            verbose verbosity "Disk has %d blocks of size %d.\n"
              [numberBlocks device.lastBlock, device.blockSize]
            verbose verbosity "Allocating buffer of size %d.\n"
              [(g.bufferSize : Int)]
            let memory : Option Buffer ← perform (DiskOp.scsiMalloc g.bufferSize)
            match memory with
            | none => do
                printf "Failed to allocate buffer.\n" []
                .exit 1
            | some buffer => do
                let done ← trials verbosity continuous address g left 1 buffer
                if done then do
                  verbose verbosity "Freeing buffer.\n" []
                  let () ← perform DiskOp.scsiFree
                  .exit 0
                else pure ()

end DiskTestDriver
