import Ttm50.CStdio
import Ttm50.InteractivePrograms

/-! # The flash programming utility (`FLASH.C`)

    `high_pr` and the functions it calls, as programs over the accesses to the
    flash window, the waits, the messages and the opening of the hex file.
    What the device and the file system answer is not fixed here: the later
    modules choose the environment.  The messages of the verbose mode
    (`INFO`, `VERBOSE`) are left out; they access nothing.

    A read carries the function it stands in (`Site`), which says what the
    read is for. -/

namespace FlashDriver

open CStdio InteractivePrograms

/-! ## Constants -/

def flashBaseAddress : Word := 0x40000000
def flashWordSize : Nat := 0x20000

def flashReadMemory : Word := 0x00000000
def flashEraseSetup : Word := 0x20202020
def flashErase : Word := 0x20202020
def flashProgramSetup : Word := 0x40404040
def flashReadIdCodes : Word := 0x90909090
def flashEraseVerify : Word := 0xa0a0a0a0
def flashProgramVerify : Word := 0xc0c0c0c0
def flashReset : Word := 0xffffffff

def manufacturerCode : Word := 0x89898989
def deviceCode : Word := 0xb4b4b4b4

def exitSuccess : Nat := 0
def exitFailure : Nat := 1

/-! ## Operations -/

/-- The function a read stands in, with the value that `check_value`
    expects. -/
inductive Site where
  | readII
  | progTo0
  | checkValue (value : Word)
  | erase
  | progEp
  | checkEp
  deriving DecidableEq, Repr

/-- What the utility does to its surroundings. -/
inductive FlashOp where
  | read (site : Site) (address : Word)
  | write (address value : Word)
  | procWait (us : Nat)
  | printf (text : String) (args : List Word)
  | fopen
  | fclose
  deriving DecidableEq, Repr

/-- A read yields a word; opening the file fails or yields its text. -/
@[reducible] def FlashOp.Res : FlashOp → Type
  | .read _ _ => Word
  | .fopen => Option (List Char)
  | _ => Unit

/-- A piece of the utility: it returns, or exits with a status. -/
abbrev Flash (A : Type) := Prog FlashOp FlashOp.Res Nat A

def read (site : Site) (address : Word) : Flash Word :=
  perform (FlashOp.read site address)

def write (address value : Word) : Flash Unit :=
  perform (FlashOp.write address value)

def procWait (us : Nat) : Flash Unit := perform (FlashOp.procWait us)

def printf (text : String) (args : List Word) : Flash Unit :=
  perform (FlashOp.printf text args)

def fopen : Flash (Option (List Char)) := perform FlashOp.fopen

def fclose : Flash Unit := perform FlashOp.fclose

/-- `&p[j]` of a pointer to words. -/
def index (p : Word) (j : Nat) : Word := p + BitVec.ofNat 32 (4 * j)

/-- `&fl_eprom[j]`, where `fl_eprom` is the base address. -/
def flEprom (j : Nat) : Word := index flashBaseAddress j

/-! ## Commands -/

/-- `reset_fe`. -/
def resetFe : Flash Unit := do
  write (flEprom 0) flashReset
  write (flEprom 0) flashReset
  procWait 10

/-- `read_i_i`. -/
def readII : Flash Unit := do
  write (flEprom 0) flashReset
  write (flEprom 0) flashReset
  procWait 10
  write (flEprom 0) flashReadIdCodes
  procWait 10
  let manufacturer ← read .readII (flEprom 0)
  let device ← read .readII (flEprom 1)
  if manufacturer ≠ manufacturerCode ∨ device ≠ deviceCode then do
    printf "Failed to read flash EPROM id codes.\n" []
    printf "Check 12V power supply is connected.\n" []
    .exit exitFailure
  else pure ()

/-- The `while` loop of `prog_to_0` on word `j`, with `left = 4 - i`. -/
def zeroWord (j : Nat) : (left : Nat) → (epData : Word) → Flash Unit
  | 0, _ => pure ()
  | left + 1, epData =>
      if epData ≠ 0x00000000 then do
        write (flEprom 0) flashProgramSetup
        write (flEprom j) 0x00000000
        procWait 10
        write (flEprom 0) flashProgramVerify
        procWait 6
        let epData ← read .progTo0 (flEprom j)
        zeroWord j left epData
      else pure ()

/-- `prog_to_0`. -/
def progTo0 : Flash Unit :=
  forRange (fun j => zeroWord j 3 0xffffffff) flashWordSize 0

/-- `check_value`. -/
def checkValue (value : Word) : Flash Unit :=
  forRange
    (fun j => do
      let epData ← read (.checkValue value) (flEprom j)
      if epData ≠ value then do
        printf "0x%08p: found 0x%08lx expected 0x%08lx.\n"
          [flEprom j, epData, value]
        .exit exitFailure
      else pure ())
    flashWordSize 0

/-- The erase verify loop from word `j` on, with `left` words to go: the
    values of `failure` and `j` it ends with. -/
def eraseVerify : (left j : Nat) → Flash (Nat × Nat)
  | 0, j => pure (0, j)
  | left + 1, j => do
      write (flEprom j) flashEraseVerify
      procWait 6
      let epData ← read .erase (flEprom j)
      if epData ≠ 0xffffffff then pure (1, j)
      else eraseVerify left (j + 1)

/-- The `while` loop of `erase`, with `left = 1000 - i`: the value of `j` it
    ends with. -/
def eraseLoop : (left failure j : Nat) → Flash Nat
  | 0, _, j => pure j
  | left + 1, failure, j =>
      if failure ≠ 0 then do
        write (flEprom 0) flashEraseSetup
        write (flEprom 0) flashErase
        procWait 10000
        let (failure, j) ← eraseVerify flashWordSize 0
        eraseLoop left failure j
      else pure j

/-- `erase`. -/
def erase : Flash Unit := do
  let j ← eraseLoop 999 1 0
  write (flEprom 0) flashReadMemory
  if j = flashWordSize then pure ()
  else do
    printf "Failed to erase flash eprom.\n" []
    .exit exitFailure

/-! ## Lines of the hex file -/

/-- `hex_data`: an address and four words of data. -/
abbrev HexData := Vector Word 5

/-- `(volatile long *) hex_data[0]`. -/
def lineAddress (hexData : HexData) : Word := hexData[0]

/-- The word that four bytes of a little-endian memory hold. -/
def littleEndian (b₀ b₁ b₂ b₃ : Word) : Word :=
  (b₀ &&& 255) ||| (b₁ &&& 255) <<< 8 ||| (b₂ &&& 255) <<< 16
    ||| (b₃ &&& 255) <<< 24

/-- The address and the data of a line whose numbers are `values`: the
    missing bytes are zero. -/
def hexDataOf (values : List Word) : HexData :=
  let byteData (i : Nat) : Word := (values.drop 1).getD i 0
  #v[values.getD 0 0 ||| flashBaseAddress,
    littleEndian (byteData 0) (byteData 1) (byteData 2) (byteData 3),
    littleEndian (byteData 4) (byteData 5) (byteData 6) (byteData 7),
    littleEndian (byteData 8) (byteData 9) (byteData 10) (byteData 11),
    littleEndian (byteData 12) (byteData 13) (byteData 14) (byteData 15)]

/-- The `switch` of `get_line`: `word_ct` for a number of conversions, `none`
    in the default case. -/
def wordCount : Nat → Option Nat
  | 5 => some 1
  | 9 => some 2
  | 13 => some 3
  | 17 => some 4
  | _ => none

/-- The failure that ends the utility at a line that is not legal. -/
def invalidLine {A : Type} : Flash A := do
  printf "Invalid line in file.\n" []
  resetFe
  .exit exitFailure

/-- `get_line`, on what `fgets` returned: `file_end`, `hex_data` and
    `word_ct`.  `hexData` is the array as the call finds it. -/
def getLine (line : Option (List Char)) (hexData : HexData) :
    Flash (Bool × HexData × Nat) :=
  match line with
  | none => pure (true, hexData, 0)
  | some line =>
      let values := sscanfHex 17 (cString line)
      match wordCount values.length with
      | some wordCt => pure (false, hexDataOf values, wordCt)
      | none =>
          if allSpace line then pure (false, hexData, 0)
          else invalidLine

/-- The `while` loop of `prog_hf` and `check_hf` on the lines left in the
    file; `ep` is `prog_ep` or `check_ep`. -/
def readLines (ep : HexData → Nat → Flash Unit) :
    List (List Char) → HexData → Flash Unit
  | [], hexData => do
      let (_, hexData, wordCt) ← getLine none hexData
      (if wordCt > 0 then ep hexData wordCt else pure ())
  | line :: fp, hexData => do
      let (fileEnd, hexData, wordCt) ← getLine (some line) hexData
      (if wordCt > 0 then ep hexData wordCt else pure ())
      (if fileEnd then pure () else readLines ep fp hexData)

/-- `prog_hf` and `check_hf` once the file is open, on its text. -/
def hexText (ep : HexData → Nat → Flash Unit) (text : List Char)
    (hexData : HexData) : Flash Unit := do
  readLines ep (fgetsAll 256 text) hexData
  fclose

/-- The common text of `prog_hf` and `check_hf`.  The array is not
    initialised there; `hexData` is what the stack holds. -/
def hexFile (ep : HexData → Nat → Flash Unit) (hexData : HexData) :
    Flash Unit := do
  let fp ← fopen
  match fp with
  | none => do
      printf "Failed to open file.\n" []
      .exit exitFailure
  | some text => hexText ep text hexData

/-- The `while` loop of `prog_ep` on word `j`, with `left = 4 - i`: whether
    the word failed, and the data read last. -/
def progWord (fl : Word) (j : Nat) (data : Word) :
    (left : Nat) → (failure : Bool) → (epData : Word) → Flash (Bool × Word)
  | 0, failure, epData => pure (failure, epData)
  | left + 1, failure, epData =>
      if failure then do
        write (index fl 0) flashProgramSetup
        write (index fl (j - 1)) data
        procWait 10
        write (index fl 0) flashProgramVerify
        procWait 6
        let epData ← read .progEp (index fl (j - 1))
        progWord fl j data left (epData ≠ data) epData
      else pure (failure, epData)

/-- `prog_ep`. -/
def progEp (hexData : HexData) (wordCt : Nat) : Flash Unit :=
  let fl := lineAddress hexData
  forRange
    (fun j => do
      let data := hexData.getD j 0
      let (failure, epData) ← progWord fl j data 3 true 0
      if failure then do
        printf "0x%08p: expected 0x%08lx found 0x%08lx.\n"
          [index fl (j - 1), data, epData]
        write (index fl 0) flashReset
        write (index fl 0) flashReset
        .exit exitFailure
      else pure ())
    wordCt 1

/-- `check_ep`. -/
def checkEp (hexData : HexData) (wordCt : Nat) : Flash Unit :=
  let fl := lineAddress hexData
  forRange
    (fun j => do
      let data := hexData.getD j 0
      let epData ← read .checkEp (index fl (j - 1))
      if epData ≠ data then do
        printf "0x%08p: expected 0x%08lx found 0x%08lx.\n"
          [index fl (j - 1), data, epData]
        .exit exitFailure
      else pure ())
    wordCt 1

/-- `prog_hf`. -/
def progHf : HexData → Flash Unit := hexFile progEp

/-- `check_hf`. -/
def checkHf : HexData → Flash Unit := hexFile checkEp

/-! ## `high_pr` -/

def successMessage : String := "Flash EPROM programmed succesfully.\n"

/-- `high_pr`; `stack` and `stack'` are the uninitialised arrays of `prog_hf`
    and `check_hf`. -/
def highPr (stack stack' : HexData) : Flash Unit := do
  resetFe
  readII
  resetFe
  readII
  resetFe
  progTo0
  checkValue 0x00000000
  resetFe
  erase
  checkValue 0xffffffff
  resetFe
  progHf stack
  resetFe
  resetFe
  checkHf stack'
  printf successMessage []
  .exit exitSuccess

end FlashDriver
