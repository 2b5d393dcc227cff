import Ttm50.ByteBuffers
import Ttm50.TfsHeader
import Ttm50.TfshDriver

/-! # The full test of the file system (`FULLTEST.C`)

    The three tests of reading and writing, and `test_fstat` of the local and
    of the remote version, as programs over the calls of the TFS library for
    the process `pid`, over `rand`, `printf`, and over the accesses to the
    global arrays `buf_orig` and `buf_cmp`.  An `assert` that fails exits. -/

namespace FullTestDriver

open InteractivePrograms ByteBuffers TfsHeader TfshDriver

/-! ## Constants -/

/-- `SIZE` and `BLOCK`. -/
def size : Nat := 100 * 1024
def block : Nat := 1000

/-- `file`. -/
def file : String := "test.file"

/-! ## Operations -/

/-- The global arrays. -/
inductive Global where
  | bufOrig
  | bufCmp
  deriving DecidableEq, Repr

/-- A pointer into one of them. -/
structure Pointer where
  array : Global
  offset : Nat
  deriving DecidableEq, Repr

/-- `struct tfs_stat_t`. -/
structure Stat where
  st_mode : BitVec 16
  st_ino : Word
  st_dev : Word
  st_nlink : BitVec 16
  st_uid : BitVec 16
  st_gid : BitVec 16
  st_size : Word
  st_mtime : Word
  deriving DecidableEq, Repr

/-- `seriousError` stands for `serious_error`, which writes its message to
    `stderr` and counts it. -/
inductive FullOp where
  | tfsOpen (path : String) (oMode cPerm : Nat)
  | tfsLseek (fd offset : Int) (whence : Nat)
  | tfsRead (fd : Int) (buf : Pointer) (nbytes : Nat)
  | tfsWrite (fd : Int) (buf : Pointer) (nbytes : Nat)
  | tfsClose (fd : Int)
  | tfsStat (path : String)
  | tfsFstat (fd : Int)
  | rand
  | load (p : Pointer)
  | store (p : Pointer) (value : Byte)
  | storeInt (p : Pointer) (value : Word)
  | printf (text : String) (args : List Arg)
  | fprintf (text : String) (args : List Arg)
  | seriousError (msg : String)
  deriving DecidableEq, Repr

/-- The result of a call, with the record that `tfs_stat` and `tfs_fstat`
    fill in; a random number; a byte of an array. -/
@[reducible] def FullOp.Res : FullOp → Type
  | .tfsOpen _ _ _ => Int
  | .tfsLseek _ _ _ => Int
  | .tfsRead _ _ _ => Int
  | .tfsWrite _ _ _ => Int
  | .tfsClose _ => Int
  | .tfsStat _ => Int × Stat
  | .tfsFstat _ => Int × Stat
  | .rand => Word
  | .load _ => Byte
  | _ => Unit

/-- A piece of the tests: it returns, or a failed `assert` ends the program. -/
abbrev Full (A : Type) := Prog FullOp FullOp.Res Unit A

def tfsOpen (path : String) (oMode cPerm : Nat) : Full Int :=
  perform (FullOp.tfsOpen path oMode cPerm)

def tfsLseek (fd offset : Int) (whence : Nat) : Full Int :=
  perform (FullOp.tfsLseek fd offset whence)

def tfsRead (fd : Int) (buf : Pointer) (nbytes : Nat) : Full Int :=
  perform (FullOp.tfsRead fd buf nbytes)

def tfsWrite (fd : Int) (buf : Pointer) (nbytes : Nat) : Full Int :=
  perform (FullOp.tfsWrite fd buf nbytes)

def tfsClose (fd : Int) : Full Int := perform (FullOp.tfsClose fd)

def tfsStat (path : String) : Full (Int × Stat) :=
  perform (FullOp.tfsStat path)

def tfsFstat (fd : Int) : Full (Int × Stat) := perform (FullOp.tfsFstat fd)

def rand : Full Word := perform FullOp.rand

def load (p : Pointer) : Full Byte := perform (FullOp.load p)

def store (p : Pointer) (value : Byte) : Full Unit :=
  perform (FullOp.store p value)

def storeInt (p : Pointer) (value : Word) : Full Unit :=
  perform (FullOp.storeInt p value)

def printf (text : String) (args : List Arg) : Full Unit :=
  perform (FullOp.printf text args)

def fprintf (text : String) (args : List Arg) : Full Unit :=
  perform (FullOp.fprintf text args)

def seriousError (msg : String) : Full Unit :=
  perform (FullOp.seriousError msg)

/-- `assert`. -/
def assert (condition : Bool) : Full Unit :=
  if condition then pure () else .exit ()

/-- `&buf_orig[i]` and `&buf_cmp[i]`. -/
def bufOrig (i : Nat) : Pointer := ⟨.bufOrig, i⟩
def bufCmp (i : Nat) : Pointer := ⟨.bufCmp, i⟩

/-- An `int` as an argument of a message. -/
def num (n : Nat) : Arg := .d n

/-- A byte as an argument of a message. -/
def char (b : Byte) : Arg := .d b.toInt

/-- `random`. -/
def random (limit : Nat) : Full Nat := do
  let r ← rand
  pure ((r &&& 0x000fffff).toNat % limit)

/-! ## Reading a file at random -/

/-- One turn of the first reading loop: whether the test has returned. -/
def readBlock (fd : Int) : Full Bool := do
  let pos ← random (size - block)
  let rv ← tfsLseek fd pos tfsSeekSet
  if rv ≠ pos then do
    seriousError "lseek failed"
    pure true
  else do
    let rv ← tfsRead fd (bufCmp 0) block
    if rv ≠ block then do
      seriousError "read failed"
      pure true
    else do
      forRange
        (fun i => do
          let found ← load (bufCmp i)
          let expected ← load (bufOrig (pos + i))
          if found ≠ expected then do
            fprintf "error at %d+%d: found 0x%x, expected 0x%x\n"
              [num pos, num i, char found, char expected]
            seriousError ""
          else pure ())
        block 0
      pure false

/-- One turn of the second reading loop. -/
def readBlockAgain (fd : Int) : Full Unit := do
  let pos ← random (size - block)
  let rv ← tfsLseek fd pos tfsSeekSet
  assert (rv = pos)
  let rv ← tfsRead fd (bufCmp 0) block
  (if rv ≠ block then do
    printf "read(%d, addr, %d) returned %d, pos=%d\n"
      [.d fd, num block, .d rv, num pos]
    assert (rv = block)
  else pure ())
  forRange
    (fun i => do
      let found ← load (bufCmp i)
      let expected ← load (bufOrig (pos + i))
      if found ≠ expected then do
        printf "error at %d+%d: found 0x%x, expected 0x%x\n"
          [num pos, num i, char found, char expected]
        assert false
      else pure ())
    block 0

/-- `tst_seq_write_rand_read`. -/
def tstSeqWriteRandRead : Full Unit := do
  printf "tst_seq_write_rand_read...\n" []
  let fd ← tfsOpen file (tfsORdwr ||| tfsOTrunc ||| tfsOCreat) 0o777
  if fd = -1 then seriousError "tst_seq_write_rand_read: open failed"
  else do
    forRange (fun i => storeInt (bufOrig (4 * i)) (BitVec.ofNat 32 i))
      (size / 4) 0
    let rv ← tfsLseek fd 0 tfsSeekSet
    if rv ≠ 0 then seriousError "lseek failed"
    else do
      let rv ← tfsWrite fd (bufOrig 0) size
      if rv ≠ size then seriousError "write failed"
      else do
        let returned ← forUntil (fun _ => readBlock fd) 100 0
        if returned then pure ()
        else do
          let rv ← tfsClose fd
          (if rv ≠ 0 then seriousError "close" else pure ())
          let fd ← tfsOpen file tfsORdonly 0
          forRange (fun _ => readBlockAgain fd) 1000 0
          let rv ← tfsClose fd
          assert (rv = 0)

/-! ## Writing a file at random -/

/-- One turn of the loop that writes blocks at random. -/
def writeBlock (fd : Int) : Full Unit := do
  let pos ← random (size - block)
  let _ : Int ← tfsLseek fd pos tfsSeekSet
  let _ : Int ← tfsWrite fd (bufOrig pos) block
  forRange (fun i => store (bufCmp (pos + i)) 1) block 0

/-- The loop over `count` that looks for the end of a gap at `i`, with `left`
    bytes to go. -/
def gapLength (i : Nat) : (left count : Nat) → Full Nat
  | 0, count => pure count
  | left + 1, count => do
      let written ← load (bufCmp (i + count))
      if written ≠ 0 then pure count else gapLength i left (count + 1)

/-- One turn of the loop that fills the gaps. -/
def fillGap (fd : Int) (i : Nat) : Full Unit := do
  let count ← gapLength i (size - i) 0
  if count > 0 then do
    let _ : Int ← tfsLseek fd i tfsSeekSet
    let _ : Int ← tfsWrite fd (bufOrig i) count
    pure ()
  else pure ()

/-- `tst_rand_write_seq_read`. -/
def tstRandWriteSeqRead : Full Unit := do
  printf "tst_rand_write_seq_read...\n" []
  let fd ← tfsOpen file (tfsORdwr ||| tfsOTrunc ||| tfsOCreat) 0o777
  if fd = -1 then seriousError "open failed"
  else do
    forRange
      (fun i => do
        let r ← rand
        store (bufOrig i) (r.setWidth 8)
        store (bufCmp i) 0)
      size 0
    forRange (fun _ => writeBlock fd) 1000 0
    forRange (fillGap fd) size 0
    let _ : Int ← tfsClose fd
    let fd ← tfsOpen file tfsORdonly 0
    let rv ← tfsRead fd (bufCmp 0) size
    (if rv ≠ size then do
      printf "read(fd, buf_cmp, %d) = %d\n" [num size, .d rv]
      seriousError "read"
    else pure ())
    forRange
      (fun i => do
        let found ← load (bufCmp i)
        let expected ← load (bufOrig i)
        if found ≠ expected then do
          printf "error at %d, found %d, expected %d\n"
            [num i, char found, char expected]
          assert false
        else pure ())
      size 0
    let _ : Int ← tfsClose fd
    pure ()

/-! ## Overwriting -/

/-- One turn of the loop of `overwrite_tst`: whether the test has returned.
    The position to read from is 100 before that of the write, but at least
    0. -/
def overwriteBlock (fd : Int) (count : Nat) : Full Bool := do
  let pos ← random (size - block)
  forRange
    (fun j => do
      store (bufCmp j) (BitVec.ofNat 8 count)
      store (bufOrig (pos + j)) (BitVec.ofNat 8 count))
    block 0
  let rv ← tfsLseek fd pos tfsSeekSet
  if rv ≠ pos then do
    seriousError "lseek"
    pure true
  else do
    let rv ← tfsWrite fd (bufCmp 0) block
    assert (rv = block)
    let opos := pos
    let pos := pos - 100
    let rv ← tfsLseek fd pos tfsSeekSet
    assert (rv = pos)
    let rv ← tfsRead fd (bufCmp 0) block
    (if rv ≠ block then do
      printf "lseek(df, %d, L_SET) = %d\n" [num pos, num pos]
      printf "read (fd, buf_cmp, %d) = %d\n" [num block, .d rv]
    else pure ())
    assert (rv = block)
    forRange
      (fun j => do
        let found ← load (bufCmp j)
        let expected ← load (bufOrig (pos + j))
        if found ≠ expected then do
          printf "error at %d: found %d, expected %d\n"
            [num (pos + j), char found, char expected]
          printf "writing %d at %d\n" [num (count % 256), num opos]
          printf "checking at %d\n" [num pos]
          assert false
        else pure ())
      block 0
    pure false

/-- `overwrite_tst`. -/
def overwriteTst : Full Unit := do
  printf "overwrite_tst...\n" []
  let fd ← tfsOpen file (tfsORdwr ||| tfsOTrunc ||| tfsOCreat) 0o777
  assert (fd ≠ -1)
  forRange (fun i => store (bufOrig i) 0) size 0
  let rv ← tfsLseek fd 0 tfsSeekSet
  assert (rv = 0)
  let rv ← tfsWrite fd (bufOrig 0) size
  assert (rv = size)
  printf "original file written...\n" []
  let returned ← forUntil (overwriteBlock fd) 1000 0
  if returned then pure ()
  else do
    printf "block by block test complete...\n" []
    let rv ← tfsLseek fd 0 tfsSeekSet
    assert (rv = 0)
    let rv ← tfsRead fd (bufCmp 0) size
    assert (rv = size)
    forRange
      (fun j => do
        let found ← load (bufCmp j)
        let expected ← load (bufOrig j)
        assert (found = expected))
      size 0
    let _ : Int ← tfsClose fd
    pure ()

/-! ## Comparing `stat` and `fstat` -/

/-- `statcmp`.  Both sides of each comparison are fields of `s1`. -/
def statcmp (s1 _s2 : Stat) : Int :=
  if s1.st_mode ≠ s1.st_mode then -1
  else if s1.st_ino ≠ s1.st_ino then -1
  else if s1.st_dev ≠ s1.st_dev then -1
  else if s1.st_nlink ≠ s1.st_nlink then -1
  else if s1.st_uid ≠ s1.st_uid then -1
  else if s1.st_gid ≠ s1.st_gid then -1
  else if s1.st_size ≠ s1.st_size then -1
  else if s1.st_mtime ≠ s1.st_mtime then -1
  else 0

/-- The bytes of a field of two bytes, and of one of four. -/
def halfBytes (v : BitVec 16) : List Byte := [v.setWidth 8, (v >>> 8).setWidth 8]
def wordBytes (v : Word) : List Byte :=
  [byteOf v 0, byteOf v 1, byteOf v 2, byteOf v 3]

/-- What lies between fields of two bytes and fields of four. -/
def padding : List Byte := [0, 0]

/-- A record in memory. -/
def Stat.image (st : Stat) : List Byte :=
  halfBytes st.st_mode ++ (padding ++ (wordBytes st.st_ino ++
    (wordBytes st.st_dev ++ (halfBytes st.st_nlink ++ (halfBytes st.st_uid ++
      (halfBytes st.st_gid ++ (padding ++ (wordBytes st.st_size ++
        wordBytes st.st_mtime))))))))

/-- `memcmp`: the first bytes that differ decide. -/
def memcmp : List Byte → List Byte → Int
  | a :: as, b :: bs =>
      if a = b then memcmp as bs else if a.toNat < b.toNat then -1 else 1
  | _, _ => 0

/-- What both versions of `test_fstat` say of two records that differ. -/
def difference : String := "difference between stat and fstat"

/-- The file of both versions. -/
def fstatFile : String := "fstat.test"

/-- The calls that `printstat` and `test_fstat` make, as programs over any
    operations. -/
structure StatCalls (Op : Type) (Res : Op → Type) where
  tfsOpen : String → Nat → Nat → Prog Op Res Unit Int
  tfsStat : String → Prog Op Res Unit (Int × Stat)
  tfsFstat : Int → Prog Op Res Unit (Int × Stat)
  tfsClose : Int → Prog Op Res Unit Int
  printf : String → List Nat → Prog Op Res Unit Unit
  seriousError : String → Prog Op Res Unit Unit

section Fstat

variable {Op : Type} {Res : Op → Type} (calls : StatCalls Op Res)

/-- `printstat`. -/
def printstat (st : Stat) : Prog Op Res Unit Unit := do
  calls.printf "\tst_mode = 0x%x\n" [st.st_mode.toNat]
  calls.printf "\tst_ino = 0x%x\n" [st.st_ino.toNat]
  calls.printf "\tst_dev = 0x%x\n" [st.st_dev.toNat]
  calls.printf "\tst_nlink = 0x%x\n" [st.st_nlink.toNat]
  calls.printf "\tst_uid = 0x%x\n" [st.st_uid.toNat]
  calls.printf "\tst_gid = 0x%x\n" [st.st_gid.toNat]
  calls.printf "\tst_size = 0x%x\n" [st.st_size.toNat]
  calls.printf "\tst_mtime = 0x%x\n" [st.st_mtime.toNat]

/-- `test_fstat` with the piece that compares the records. -/
def fstatTest (compare : Stat → Stat → Prog Op Res Unit Unit) :
    Prog Op Res Unit Unit := do
  calls.printf "fstat...\n" []
  let fd ← calls.tfsOpen fstatFile (tfsORdwr ||| tfsOTrunc ||| tfsOCreat) 0o777
  if fd = -1 then calls.seriousError "open"
  else do
    let st ← calls.tfsStat fstatFile
    if st.1 ≠ 0 then calls.seriousError "stat"
    else do
      let fst ← calls.tfsFstat fd
      if fst.1 ≠ 0 then calls.seriousError "fstat"
      else do
        compare st.2 fst.2
        let _ : Int ← calls.tfsClose fd
        pure ()

/-- `test_fstat` of the local version, over any operations. -/
def localFstatTest : Prog Op Res Unit Unit :=
  fstatTest calls (fun st fst =>
    if statcmp st fst ≠ 0 then do
      calls.printf "stat returned:\n" []
      printstat calls st
      calls.printf "fstat returned:\n" []
      printstat calls fst
      calls.seriousError difference
    else pure ())

end Fstat

/-- The calls as operations of these tests. -/
def statCalls : StatCalls FullOp FullOp.Res :=
  { tfsOpen := tfsOpen
    tfsStat := tfsStat
    tfsFstat := tfsFstat
    tfsClose := tfsClose
    printf := fun text args => printf text (args.map num)
    seriousError := seriousError }

/-- `test_fstat` of the local version. -/
def testFstat : Full Unit := localFstatTest statCalls

/-- `test_fstat` of the remote version. -/
def remoteTestFstat : Full Unit :=
  fstatTest statCalls (fun st fst =>
    if memcmp st.image fst.image ≠ 0 then seriousError difference
    else pure ())

end FullTestDriver
