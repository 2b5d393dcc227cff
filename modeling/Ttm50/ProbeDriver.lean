import Ttm50.CPrintf
import Ttm50.DiskTestDriver

/-! # The probe utility (`PROBE.C`)

    `main`, `probe_unit` and `print_data` as programs over the calls of the
    SCSI library, over its global variable `scsi_id`, and over `printf` and
    `putchar`.  `struct scsi_inquiry` is its 36 bytes; its bit fields `type`
    and `qualifier` are the low five and the high three bits of the first. -/

namespace ProbeDriver

open InteractivePrograms ByteBuffers CPrintf
open DiskTestDriver (Address Command Reply sflagDataIn)

/-! ## Constants -/

/-- `sizeof( struct scsi_inquiry )`. -/
def inquirySize : Nat := 36

def scmdInquiry : Byte := 0x12

def sdevCommunications : Nat := 0x09
def sdevUnknown : Nat := 0x1f
def squalNoDevice : Nat := 0x3

/-- `MAX_DEVICE_TYPE`. -/
def maxDeviceType : Nat := sdevCommunications

/-- `device_type`. -/
def deviceType : List String :=
  ["Direct Access", "Sequential Access", "Printer", "Processor", "Write Once",
    "CD-ROM", "Scanner", "Optical Memory", "Medium Changer", "Communications"]

/-! ## Operations -/

/-- `scsiId` reads the global variable `scsi_id`. -/
inductive ProbeOp where
  | scsiInitialise
  | scsiId
  | scsiResetBus
  | scsiCommand (address : Address) (command : Command)
  | printf (format : String) (args : List Value)
  | putchar (c : Char)
  deriving DecidableEq, Repr

@[reducible] def ProbeOp.Res : ProbeOp → Type
  | .scsiInitialise => Int
  | .scsiId => Int
  | .scsiCommand _ _ => Reply
  | _ => Unit

/-- A piece of the utility: it returns, or exits with a status. -/
abbrev Probe (A : Type) := Prog ProbeOp ProbeOp.Res Nat A

def printf (format : String) (args : List Value) : Probe Unit :=
  perform (ProbeOp.printf format args)

def putchar (c : Char) : Probe Unit := perform (ProbeOp.putchar c)

/-! ## `probe_unit` -/

/-- `isprint`, of a `char`. -/
def isPrint (b : Byte) : Bool := 0x20 ≤ b.toNat ∧ b.toNat ≤ 0x7e

/-- `print_data`. -/
def printData : List Byte → Probe Unit
  | [] => pure ()
  | b :: data => do
      (if isPrint b then putchar (Char.ofNat b.toNat) else putchar ' ')
      printData data

/-- The inquiry command for a unit; `data` is the inquiry record, which has
    been cleared. -/
def inquiryCommand (address : Address) : Command :=
  { cdb := [scmdInquiry, BitVec.ofNat 8 address.lun <<< 5, 0, 0,
      BitVec.ofNat 8 inquirySize, 0]
    data := List.replicate inquirySize 0
    dataLen := inquirySize
    flags := sflagDataIn
    timeout := 10 }

/-- The inquiry record: the bytes that came in over the cleared ones. -/
def inquiryRecord (data : List Byte) : List Byte :=
  (data ++ List.replicate inquirySize 0).take inquirySize

/-- The fields of `struct scsi_inquiry` that are read. -/
def type (inquiry : List Byte) : Nat := (inquiry.headD 0).toNat % 32
def qualifier (inquiry : List Byte) : Nat := (inquiry.headD 0).toNat / 32
def vendor (inquiry : List Byte) : List Byte := (inquiry.drop 8).take 8
def product (inquiry : List Byte) : List Byte := (inquiry.drop 16).take 16
def revision (inquiry : List Byte) : List Byte := (inquiry.drop 32).take 4

/-- `probe_unit`. -/
def probeUnit (address : Address) : Probe Unit := do
  let reply : Reply ←
    perform (ProbeOp.scsiCommand address (inquiryCommand address))
  let inquiry := inquiryRecord reply.data
  if reply.result ≠ 0 then pure ()
  else if reply.residue = inquirySize then pure ()
  else if type inquiry = sdevUnknown ∨ qualifier inquiry = squalNoDevice then
    pure ()
  else do
    printf " %d  %d  " [.int address.id, .int address.lun]
    (if type inquiry < maxDeviceType then
      printf "%- 17s " [.str (deviceType.getD (type inquiry) "").toList]
    else printf "Type 0x%02x         " [.int (type inquiry)])
    printData (vendor inquiry)
    putchar ' '
    printData (product inquiry)
    putchar ' '
    printData (revision inquiry)
    putchar '\n'

/-! ## `main` -/

/-- `usage`. -/
def usage {A : Type} (value : Nat) : Probe A := do
  printf "Usage: probe [-h]\n" []
  printf "       -h         Print this message.\n" []
  .exit value

/-- `argv[i][j]`; a string ends with a NUL. -/
def charAt (arg : String) (j : Nat) : Char := arg.toList.getD j '\x00'

/-- The loop that parses the arguments. -/
def parse : List String → Probe Unit
  | [] => pure ()
  | arg :: args => do
      (if charAt arg 0 = '-' ∨ charAt arg 0 = '/' then
        if charAt arg 1 = 'h' ∨ charAt arg 1 = 'H' then usage 0 else usage 1
      else usage 1)
      parse args

/-- `main` from its loop over the arguments on, called with these arguments
    after the program's name. -/
def main (args : List String) : Probe Unit := do
  parse args
  let id : Int ← perform ProbeOp.scsiInitialise
  if id < 0 then do
    printf "Failed to initialise SCSI.\n" []
    .exit 1
  else do
    printf "SCSI TRAM id is %d.\n" [.int id]
    printf "\n" []
    let () ← perform ProbeOp.scsiResetBus
    printf "% 2s % 3s %- 17s %- 8s %- 16s %- 8s\n"
      [.str "Id".toList, .str "LUN".toList, .str "Device Type".toList,
        .str "Vendor".toList, .str "Product".toList, .str "Revision".toList]
    forRange
      (fun id => do
        let own : Int ← perform ProbeOp.scsiId
        if (id : Int) ≠ own then
          forRange (fun lun => probeUnit ⟨id, lun⟩) 8 0
        else pure ())
      8 0
    putchar '\n'
    .exit 0

end ProbeDriver
