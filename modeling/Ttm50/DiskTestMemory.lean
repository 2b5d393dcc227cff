import Ttm50.DiskTestGeometry

/-! # Where `fill_test` touches memory

    `fillTestAccesses` is `fill_test` once more, with the stores and loads
    through `ptr` as operations of their own; carried out on a buffer it is
    the `fillTest` of the driver.  `accesses_inside_iff` says for which disks
    all of them lie in the memory that `scsi_malloc` returned: the loops step
    by 4, so the buffer size has to be a multiple of 4, and the check of
    `main` does not ask for that. -/

namespace DiskTestMemory

open InteractivePrograms ByteBuffers DiskTestDriver DiskTestResults
open DiskTestGeometry

/-! ## The accesses of `fill_test` -/

/-- A store or load of the word at an offset of the buffer, and the calls
    between them. -/
inductive MemOp where
  | store (offset : Nat) (value : Word)
  | load (offset : Nat)
  | memset (value : Byte) (len : Nat)
  | fill (numberBlocks dataLen : Nat)
  | dump (numberBlocks dataLen : Nat)
  | printf (text : String) (args : List Int)
  deriving DecidableEq, Repr

@[reducible] def MemOp.Res : MemOp → Type
  | .load _ => Word
  | .fill _ _ => Int
  | .dump _ _ => Int
  | _ => Unit

abbrev Mem (A : Type) := Prog MemOp MemOp.Res Nat A

/-- A message at a level of verbosity. -/
def message (shown : Bool) (text : String) : Mem Unit :=
  if shown then perform (MemOp.printf text []) else pure ()

/-- The loop that sets the buffer: `*ptr = value` at offset `i`. -/
def setLoop : (left i : Nat) → (value : Word) → Mem Unit
  | 0, _, _ => pure ()
  | left + 1, i, value => do
      let () ← perform (MemOp.store i value)
      setLoop left (i + 4) (value + valueInc)

/-- The loop that tests the buffer; a word that differs is loaded again for
    the message. -/
def testLoop : (left i : Nat) → (value : Word) → Mem Unit
  | 0, _, _ => pure ()
  | left + 1, i, value => do
      let word : Word ← perform (MemOp.load i)
      if word ≠ value then do
        let word : Word ← perform (MemOp.load i)
        let () ← perform (MemOp.printf
          "0x%08x: Found 0x%08lx expected 0x%08lx.\n"
          [(i : Int), (word.toNat : Int), (value.toNat : Int)])
        .exit 1
      else testLoop left (i + 4) (value + valueInc)

/-- `fill_test`. -/
def fillTestAccesses (verbosity bufferBlocks bufferSize : Nat) : Mem Unit := do
  message (verbosity > 0) "Write test.\n"
  message (verbosity > 1) "Setting buffer.\n"
  setLoop (turns bufferSize) 0 valueStart
  let failed : Int ← perform (MemOp.fill bufferBlocks bufferSize)
  if failed ≠ 0 then do
    let () ← perform (MemOp.printf "Failed to write to disk.\n" [])
    .exit 1
  else do
    message (verbosity > 0) "Read test.\n"
    message (verbosity > 1) "Clearing buffer.\n"
    let () ← perform (MemOp.memset 0x00 bufferSize)
    let failed : Int ← perform (MemOp.dump bufferBlocks bufferSize)
    if failed ≠ 0 then do
      let () ← perform (MemOp.printf "Failed to read from disk.\n" [])
      .exit 1
    else do
      message (verbosity > 1) "Testing buffer.\n"
      testLoop (turns bufferSize) 0 valueStart

/-! ## Carried out on a buffer -/

/-- What the operations do to the buffer. -/
def onBuffer (verbosity : Nat) (address : Address) :
    Buffer → (o : MemOp) → Disk (o.Res × Buffer)
  | buffer, .store i value => pure ((), storeWord buffer i value)
  | buffer, .load i => pure (loadWord buffer i, buffer)
  | buffer, .memset value len => pure ((), memset buffer value len)
  | buffer, .fill blocks len => do
      let (failed, _) ← fill verbosity address blocks buffer len
      pure (failed, buffer)
  | buffer, .dump blocks len => do
      let (failed, reply) ← dump verbosity address blocks buffer len
      pure (failed, copyIn buffer (reply.data.take len))
  | buffer, .printf text args => do
      printf text args
      pure ((), buffer)

section Refinement

variable {verbosity : Nat} {address : Address}

theorem setLoop_buffer (left i : Nat) (value : Word) (buffer : Buffer) :
    (setLoop left i value).handle (onBuffer verbosity address) buffer
      = pure ((), setBuffer left i value buffer) := by
  induction left generalizing i value buffer with
  | zero => rfl
  | succ left ih => exact ih (i + 4) (value + valueInc) (storeWord buffer i value)

theorem testLoop_buffer (left i : Nat) (value : Word) (buffer : Buffer) :
    (testLoop left i value).handle (onBuffer verbosity address) buffer
      = testBuffer left i value buffer >>= fun _ => pure ((), buffer) := by
  induction left generalizing i value with
  | zero => rfl
  | succ left ih =>
      rw [testLoop, handle_perform, testBuffer]
      show (if loadWord buffer i ≠ value then _ else _ : Mem Unit).handle _ _ = _
      split
      · rfl
      · exact ih (i + 4) (value + valueInc)

theorem message_info (text : String) (buffer : Buffer) :
    (message (verbosity > 0) text).handle (onBuffer verbosity address) buffer
      = info verbosity text [] >>= fun _ => pure ((), buffer) := by
  rw [message, info]
  by_cases h : verbosity > 0
  · rw [if_pos h, if_pos (decide_eq_true h)]
    rfl
  · rw [if_neg h, if_neg (by simpa using h)]
    rfl

theorem message_verbose (text : String) (buffer : Buffer) :
    (message (verbosity > 1) text).handle (onBuffer verbosity address) buffer
      = verbose verbosity text [] >>= fun _ => pure ((), buffer) := by
  rw [message, verbose]
  by_cases h : verbosity > 1
  · rw [if_pos h, if_pos (decide_eq_true h)]
    rfl
  · rw [if_neg h, if_neg (by simpa using h)]
    rfl

/-- **REFINEMENT**: carried out on a buffer, the accesses are the `fillTest`
    of the driver. -/
theorem fillTest_accesses (blocks size : Nat) (buffer : Buffer) :
    (fillTestAccesses verbosity blocks size).handle
        (onBuffer verbosity address) buffer
      = fillTest verbosity address blocks buffer size >>= fun buffer' =>
          pure ((), buffer') := by
  rw [fillTestAccesses, fillTest, handle_bind, message_info, prog_bind_assoc,
    prog_bind_assoc]
  congr 1
  funext _
  rw [prog_pure_bind, handle_bind, message_verbose, prog_bind_assoc,
    prog_bind_assoc]
  congr 1
  funext _
  rw [prog_pure_bind, handle_bind, setLoop_buffer, prog_pure_bind,
    handle_perform, onBuffer, prog_bind_assoc, prog_bind_assoc]
  congr 1
  funext r
  obtain ⟨failed, reply⟩ := r
  show (if failed ≠ 0 then _ else _ : Mem Unit).handle _ _
    = (if failed ≠ 0 then _ else _) >>= _
  split
  · rfl
  rw [handle_bind, message_info, prog_bind_assoc, prog_bind_assoc]
  congr 1
  funext _
  rw [prog_pure_bind, handle_bind, message_verbose, prog_bind_assoc,
    prog_bind_assoc]
  congr 1
  funext _
  rw [prog_pure_bind, handle_perform, onBuffer, prog_pure_bind,
    handle_perform, onBuffer, prog_bind_assoc, prog_bind_assoc]
  congr 1
  funext r
  obtain ⟨failed, reply⟩ := r
  show (if failed ≠ 0 then _ else _ : Mem Unit).handle _ _
    = (if failed ≠ 0 then _ else _) >>= _
  split
  · rfl
  rw [handle_bind, message_verbose, prog_bind_assoc, prog_bind_assoc]
  congr 1
  funext _
  rw [prog_pure_bind, testLoop_buffer, prog_bind_assoc]
  rfl

end Refinement

/-! ## The bounds of the buffer -/

/-- The four bytes of the word lie in the buffer. -/
def InBuffer (size : Nat) : MemOp → Prop
  | .store i _ => i + 4 ≤ size
  | .load i => i + 4 ≤ size
  | _ => True

/-- In every run of `fill_test`, whatever the disk does and the memory holds,
    each store and load through `ptr` lies in the buffer. -/
def StaysInBuffer (verbosity bufferBlocks bufferSize : Nat) : Prop :=
  ∀ tr out,
    Run anyAnswer (fillTestAccesses verbosity bufferBlocks bufferSize) () tr
      out () →
    ∀ e ∈ tr, InBuffer bufferSize e.1

/-- The loops go on exactly while the offset is below the size. -/
theorem lt_turns {size k : Nat} : k < turns size ↔ 4 * k < size := by
  rw [turns]
  omega

/-- The last word is in the buffer when the size is a number of words. -/
theorem turns_inside (size : Nat) :
    (∀ k < turns size, 4 * k + 4 ≤ size) ↔ 4 ∣ size := by
  constructor
  · intro h
    by_cases hzero : size = 0
    · rw [hzero]
      exact Nat.dvd_zero 4
    · have hlast := h ((size - 1) / 4) (lt_turns.mpr (by omega))
      omega
  · intro h k hk
    have hlt := lt_turns.mp hk
    omega

instance (o : MemOp) : Nonempty o.Res := by
  cases o with
  | load => exact ⟨(0 : Word)⟩
  | fill | dump => exact ⟨(0 : Int)⟩
  | store | memset | printf => exact ⟨()⟩

section Bounds

variable {size : Nat}

theorem inside_message (shown : Bool) (text : String) :
    Only (InBuffer size) AnyStatus (message shown text) := by
  rw [message]
  split
  · exact ⟨trivial, fun _ => trivial⟩
  · trivial

theorem message_returns (shown : Bool) (text : String) :
    Returns (message shown text) := by
  rw [message]
  split
  · exact .op () (.ret ())
  · exact .ret ()

theorem inside_setLoop (left i : Nat) (value : Word) :
    Only (InBuffer size) AnyStatus (setLoop left i value) ↔
      ∀ k < left, i + 4 * k + 4 ≤ size := by
  induction left generalizing i value with
  | zero => exact ⟨fun _ k hk => absurd hk (Nat.not_lt_zero k), fun _ => trivial⟩
  | succ left ih =>
      have hrest := ih (i + 4) (value + valueInc)
      constructor
      · rintro ⟨hfirst, hloop⟩ k hk
        have hfirst' : i + 4 ≤ size := hfirst
        cases k with
        | zero => omega
        | succ k =>
            have hstep := hrest.mp (hloop ()) k (by omega)
            omega
      · intro h
        have hfirst := h 0 (Nat.succ_pos left)
        refine ⟨hfirst, fun _ => hrest.mpr ?_⟩
        intro k hk
        have hstep := h (k + 1) (by omega)
        omega

theorem inside_testLoop {left i : Nat} (h : ∀ k < left, i + 4 * k + 4 ≤ size)
    (value : Word) :
    Only (InBuffer size) AnyStatus (testLoop left i value) := by
  induction left generalizing i value with
  | zero => trivial
  | succ left ih =>
      have hfirst := h 0 (Nat.succ_pos left)
      refine ⟨hfirst, fun word => ?_⟩
      show Only _ _ (if word ≠ value then _ else _)
      split
      · exact ⟨hfirst, fun _ => ⟨trivial, fun _ => trivial⟩⟩
      · refine ih ?_ (value + valueInc)
        intro k hk
        have hstep := h (k + 1) (by omega)
        omega

theorem inside_fillTest (verbosity blocks : Nat) :
    Only (InBuffer size) AnyStatus (fillTestAccesses verbosity blocks size) ↔
      4 ∣ size := by
  rw [← turns_inside, fillTestAccesses]
  constructor
  · intro h
    -- the loop that sets the buffer is always gone through to its end
    have h₁ := ((only_bind_iff (message_returns _ _)).mp h).2
    have h₂ := ((only_bind_iff (message_returns _ _)).mp h₁).2
    intro k hk
    have hword := (inside_setLoop _ _ _).mp (only_first h₂) k hk
    omega
  · intro h
    have hwords : ∀ k < turns size, 0 + 4 * k + 4 ≤ size := by
      intro k hk
      have hword := h k hk
      omega
    refine only_bind (inside_message _ _) (fun _ => ?_)
    refine only_bind (inside_message _ _) (fun _ => ?_)
    refine only_bind ((inside_setLoop _ _ _).mpr hwords) (fun _ => ?_)
    refine ⟨trivial, fun failed => ?_⟩
    show Only _ _ (if failed ≠ 0 then _ else _)
    split
    · exact ⟨trivial, fun _ => trivial⟩
    refine only_bind (inside_message _ _) (fun _ => ?_)
    refine only_bind (inside_message _ _) (fun _ => ?_)
    refine ⟨trivial, fun _ => ⟨trivial, fun failed => ?_⟩⟩
    show Only _ _ (if failed ≠ 0 then _ else _)
    split
    · exact ⟨trivial, fun _ => trivial⟩
    exact only_bind (inside_message _ _) (fun _ => inside_testLoop hwords _)

end Bounds

/-- **THE BUFFER BOUNDS, EXACTLY**: for every disk that the check of `main`
    accepts, all accesses lie in the buffer if and only if the bytes of the
    blocks that fit are a number of words. -/
theorem accesses_inside_iff {blockSize lastBlock : BitVec 32} {g : Geometry}
    (h : geometry blockSize.toInt lastBlock.toInt = some g) (verbosity : Nat) :
    StaysInBuffer verbosity g.bufferBlocks g.bufferSize ↔
      4 ∣ min (min (1048576 / blockSize.toInt.toNat) 0x7fff)
        (lastBlock.toInt + 1).toNat * blockSize.toInt.toNat := by
  obtain ⟨-, -, hpos, hg⟩ := geometry_valid h
  have hnumber := numberBlocks_exact (BitVec.le_toInt lastBlock)
    BitVec.toInt_lt hpos
  have hsize : g.bufferSize = min (min (1048576 / blockSize.toInt.toNat) 0x7fff)
      (lastBlock.toInt + 1).toNat * blockSize.toInt.toNat := by
    rw [hg, hnumber]
    rfl
  rw [← hsize, ← inside_fillTest verbosity g.bufferBlocks]
  constructor
  · exact fun hruns => only_of_runs hruns
  · exact fun honly tr out hr => only_each honly hr

/-- Blocks of the usual size keep all accesses in the buffer; two blocks of six
    bytes do, and three do not. -/
theorem accesses_inside_iff_usual :
    geometry (512 : BitVec 32).toInt (99999 : BitVec 32).toInt
        = some ⟨512, 2048, 1048576⟩ ∧
      StaysInBuffer 0 2048 1048576 ∧
      geometry (6 : BitVec 32).toInt (1 : BitVec 32).toInt = some ⟨6, 2, 12⟩ ∧
      StaysInBuffer 0 2 12 ∧
      geometry (6 : BitVec 32).toInt (2 : BitVec 32).toInt = some ⟨6, 3, 18⟩ ∧
      ¬ StaysInBuffer 0 3 18 := by
  have husual : geometry (512 : BitVec 32).toInt (99999 : BitVec 32).toInt
      = some ⟨512, 2048, 1048576⟩ := by decide
  have htwo : geometry (6 : BitVec 32).toInt (1 : BitVec 32).toInt
      = some ⟨6, 2, 12⟩ := by decide
  have hthree : geometry (6 : BitVec 32).toInt (2 : BitVec 32).toInt
      = some ⟨6, 3, 18⟩ := by decide
  refine ⟨husual, (accesses_inside_iff husual 0).mpr (by decide), htwo,
    (accesses_inside_iff htwo 0).mpr (by decide), hthree, ?_⟩
  intro h
  exact absurd ((accesses_inside_iff hthree 0).mp h) (by decide)

/-- **THE BUFFER IS OVERRUN**: a disk of one block of five bytes passes the
    check, and the second store takes the bytes 4 to 7 of a buffer of five. -/
theorem short_block_overrun :
    geometry (5 : BitVec 32).toInt (0 : BitVec 32).toInt = some ⟨5, 1, 5⟩ ∧
      ¬ StaysInBuffer 0 1 5 := by
  refine ⟨by decide, ?_⟩
  intro h
  have hrun : Run anyAnswer (fillTestAccesses 0 1 5) ()
      [⟨.store 0 valueStart, ()⟩, ⟨.store 4 (valueStart + valueInc), ()⟩]
      .running () :=
    .op (m := ()) trivial (.op (m := ()) trivial (.stop _ _))
  have hin : 4 + 4 ≤ 5 :=
    h _ _ hrun _ (List.mem_cons_of_mem _ List.mem_cons_self)
  exact absurd hin (by decide)

end DiskTestMemory
