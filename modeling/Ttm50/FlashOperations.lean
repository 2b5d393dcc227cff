import Ttm50.FlashLines

/-! # The operations of each function

    Which values a function writes, whether it opens the file, and how it
    exits, whatever the device and the file system answer.  The set `S` of
    allowed operations is a parameter: a tolerant one admits reads, waits and
    failure messages, and each function asks for the writes that it makes. -/

namespace FlashOperations

open CStdio InteractivePrograms FlashDriver FlashLines

/-- Reads, waits and failure messages are allowed. -/
structure Tolerant (S : FlashOp → Prop) : Prop where
  read : ∀ site a, S (.read site a)
  procWait : ∀ us, S (.procWait us)
  printf : ∀ text args, text ≠ successMessage → S (.printf text args)
  fclose : S .fclose

/-- The exits of all functions but `high_pr`. -/
abbrev Fails (x : Nat) : Prop := x = exitFailure

section Rules

variable {A : Type} {S : FlashOp → Prop}

/-- A write, and what follows it. -/
@[simp] theorem only_write (a v : Word) (f : Unit → Flash A) :
    Only S Fails (write a v >>= f) ↔ S (.write a v) ∧ Only S Fails (f ()) :=
  ⟨fun h => ⟨h.1, h.2 ()⟩, fun h => ⟨h.1, fun _ => h.2⟩⟩

/-- A wait does not decide what follows. -/
@[simp] theorem only_procWait (us : Nat) (f : Unit → Flash A) :
    Only S Fails (procWait us >>= f) ↔ S (.procWait us) ∧ Only S Fails (f ()) :=
  ⟨fun h => ⟨h.1, h.2 ()⟩, fun h => ⟨h.1, fun _ => h.2⟩⟩

/-- After a read the rest has to do with any answer. -/
@[simp] theorem only_read (site : Site) (a : Word) (f : Word → Flash A) :
    Only S Fails (read site a >>= f) ↔
      S (.read site a) ∧ ∀ r, Only S Fails (f r) := Iff.rfl

/-- A message, and what follows it. -/
@[simp] theorem only_printf (text : String) (args : List Word)
    (f : Unit → Flash A) :
    Only S Fails (printf text args >>= f) ↔
      S (.printf text args) ∧ Only S Fails (f ()) :=
  ⟨fun h => ⟨h.1, h.2 ()⟩, fun h => ⟨h.1, fun _ => h.2⟩⟩

/-- The last steps of a failure: a message and the exit. -/
theorem only_failure (hS : Tolerant S) {text : String} {args : List Word}
    (h : text ≠ successMessage) :
    Only S Fails (do printf text args; Prog.exit exitFailure : Flash A) := by
  rw [only_printf]
  exact ⟨hS.printf text args h, rfl⟩

/-! ## Commands -/

/-- `reset_fe` writes the reset command only. -/
theorem only_resetFe (hS : Tolerant S) (hreset : ∀ a, S (.write a flashReset)) :
    Only S Fails resetFe := by
  rw [resetFe, only_write, only_write]
  exact ⟨hreset _, hreset _, hS.procWait 10, fun _ => trivial⟩

/-- `read_i_i` resets the device and asks for its identifiers; both ways out of
    it are allowed. -/
theorem only_readII (hS : Tolerant S) (hreset : ∀ a, S (.write a flashReset))
    (hid : ∀ a, S (.write a flashReadIdCodes)) : Only S Fails readII := by
  simp only [readII, only_write, only_procWait, only_read]
  refine ⟨hreset _, hreset _, hS.procWait 10, hid _, hS.procWait 10,
    hS.read _ _, fun manufacturer => ⟨hS.read _ _, fun device => ?_⟩⟩
  split
  · rw [only_printf]
    exact ⟨hS.printf _ _ (by simp [successMessage]),
      only_failure hS (by simp [successMessage])⟩
  · trivial

/-- The attempts at one word of `prog_to_0`, by induction on those that are
    left. -/
theorem only_zeroWord (hS : Tolerant S)
    (hsetup : ∀ a, S (.write a flashProgramSetup))
    (hzero : ∀ a, S (.write a 0x00000000))
    (hverify : ∀ a, S (.write a flashProgramVerify)) (j left : Nat)
    (epData : Word) : Only S Fails (zeroWord j left epData) := by
  induction left generalizing epData with
  | zero => trivial
  | succ left ih =>
      rw [zeroWord]
      split
      · simp only [only_write, only_procWait, only_read]
        exact ⟨hsetup _, hzero _, hS.procWait 10, hverify _, hS.procWait 6,
          hS.read _ _, ih⟩
      · trivial

/-- `prog_to_0` writes the program commands and zeros. -/
theorem only_progTo0 (hS : Tolerant S)
    (hsetup : ∀ a, S (.write a flashProgramSetup))
    (hzero : ∀ a, S (.write a 0x00000000))
    (hverify : ∀ a, S (.write a flashProgramVerify)) :
    Only S Fails progTo0 :=
  only_forRange (fun j => only_zeroWord hS hsetup hzero hverify j 3 _) _ 0

/-- `check_value` writes nothing at all. -/
theorem only_checkValue (hS : Tolerant S) (value : Word) :
    Only S Fails (checkValue value) := by
  refine only_forRange ?_ flashWordSize 0
  intro j
  rw [only_read]
  refine ⟨hS.read _ _, fun epData => ?_⟩
  split
  · exact only_failure hS (by simp [successMessage])
  · trivial

/-- The inner loop of `erase` writes the verify command only; it is left at the
    first word that is not erased. -/
theorem only_eraseVerify (hS : Tolerant S)
    (hverify : ∀ a, S (.write a flashEraseVerify)) (left j : Nat) :
    Only S Fails (eraseVerify left j) := by
  induction left generalizing j with
  | zero => trivial
  | succ left ih =>
      simp only [eraseVerify, only_write, only_procWait, only_read]
      refine ⟨hverify _, hS.procWait 6, hS.read _ _, fun epData => ?_⟩
      split
      · trivial
      · exact ih (j + 1)

/-- The erase pulses, by induction on those that are left. -/
theorem only_eraseLoop (hS : Tolerant S) (herase : ∀ a, S (.write a flashErase))
    (hverify : ∀ a, S (.write a flashEraseVerify)) (left failure j : Nat) :
    Only S Fails (eraseLoop left failure j) := by
  induction left generalizing failure j with
  | zero => trivial
  | succ left ih =>
      rw [eraseLoop]
      split
      · simp only [only_write, only_procWait]
        refine ⟨herase _, herase _, hS.procWait 10000, ?_⟩
        exact only_bind (only_eraseVerify hS hverify _ _) (fun found => ih _ _)
      · trivial

/-- `erase` ends with the command that makes the array readable. -/
theorem only_erase (hS : Tolerant S) (herase : ∀ a, S (.write a flashErase))
    (hverify : ∀ a, S (.write a flashEraseVerify))
    (hmemory : ∀ a, S (.write a flashReadMemory)) : Only S Fails erase := by
  refine only_bind (only_eraseLoop hS herase hverify 999 1 0) (fun j => ?_)
  rw [only_write]
  refine ⟨hmemory _, ?_⟩
  split
  · trivial
  · exact only_failure hS (by simp [successMessage])

/-! ## The hex file -/

/-- `get_line` writes only before it exits: the reset after the message about
    an invalid line. -/
theorem only_getLine (hS : Tolerant S) (hreset : ∀ a, S (.write a flashReset))
    (line : Option (List Char)) (hexData : HexData) :
    Only S Fails (getLine line hexData) := by
  cases line with
  | none => trivial
  | some line =>
      rw [getLine]
      cases wordCount (sscanfHex 17 (cString line)).length with
      | some wordCt => trivial
      | none =>
          show Only S Fails (if allSpace line then _ else _)
          split
          · trivial
          · rw [invalidLine, only_printf]
            exact ⟨hS.printf _ _ (by simp [successMessage]),
              only_bind (only_resetFe hS hreset) (fun _ => rfl)⟩

/-- The loop over the lines, with `ep` for `prog_ep` or `check_ep`. -/
theorem only_readLines (hS : Tolerant S)
    (hreset : ∀ a, S (.write a flashReset)) {ep : HexData → Nat → Flash Unit}
    (hep : ∀ hexData wordCt, Only S Fails (ep hexData wordCt))
    (lines : List (List Char)) (hexData : HexData) :
    Only S Fails (readLines ep lines hexData) := by
  induction lines generalizing hexData with
  | nil => trivial
  | cons line lines ih =>
      rw [readLines_cons]
      refine only_bind (only_getLine hS hreset _ _) (fun r => ?_)
      refine only_bind ?_ (fun _ => ?_)
      · split
        · exact hep _ _
        · trivial
      · split
        · trivial
        · exact ih _

/-- A pass over the hex file opens it, and closes it when it has not exited. -/
theorem only_hexFile (hS : Tolerant S) (hreset : ∀ a, S (.write a flashReset))
    (hopen : S .fopen) {ep : HexData → Nat → Flash Unit}
    (hep : ∀ hexData wordCt, Only S Fails (ep hexData wordCt))
    (hexData : HexData) : Only S Fails (hexFile ep hexData) := by
  refine only_bind ⟨hopen, fun _ => trivial⟩ (fun fp => ?_)
  cases fp with
  | none => exact only_failure hS (by simp [successMessage])
  | some text =>
      show Only S Fails (hexText ep text hexData)
      exact only_bind (only_readLines hS hreset hep _ hexData)
        (fun _ => ⟨hS.fclose, fun _ => trivial⟩)

/-- The attempts at one word of a line.  The data may be any value, and so any
    write has to be allowed. -/
theorem only_progWord (hS : Tolerant S) (hwrite : ∀ a v, S (.write a v))
    (fl : Word) (j : Nat) (data : Word) (left : Nat) (failure : Bool)
    (epData : Word) : Only S Fails (progWord fl j data left failure epData) := by
  induction left generalizing failure epData with
  | zero => trivial
  | succ left ih =>
      rw [progWord]
      split
      · simp only [only_write, only_procWait, only_read]
        exact ⟨hwrite _ _, hwrite _ _, hS.procWait 10, hwrite _ _,
          hS.procWait 6, hS.read _ _, fun epData => ih _ epData⟩
      · trivial

/-- `prog_ep` resets through the address of its line when a word fails. -/
theorem only_progEp (hS : Tolerant S) (hwrite : ∀ a v, S (.write a v))
    (hexData : HexData) (wordCt : Nat) :
    Only S Fails (progEp hexData wordCt) := by
  refine only_forRange (fun j => ?_) wordCt 1
  refine only_bind (only_progWord hS hwrite _ _ _ _ _ _) ?_
  rintro ⟨failure, epData⟩
  cases failure with
  | false => trivial
  | true =>
      show Only S Fails (printf _ _ >>= fun _ => _)
      rw [only_printf, only_write, only_write]
      exact ⟨hS.printf _ _ (by simp [successMessage]), hwrite _ _, hwrite _ _,
        rfl⟩

/-- `check_ep` writes nothing at all. -/
theorem only_checkEp (hS : Tolerant S) (hexData : HexData) (wordCt : Nat) :
    Only S Fails (checkEp hexData wordCt) := by
  refine only_forRange (fun j => ?_) wordCt 1
  rw [only_read]
  refine ⟨hS.read _ _, fun epData => ?_⟩
  split
  · exact only_failure hS (by simp [successMessage])
  · trivial

end Rules

end FlashOperations
