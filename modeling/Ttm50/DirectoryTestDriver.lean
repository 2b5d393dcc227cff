import Ttm50.CPrintf
import Ttm50.FullTestDriver

/-! # The full test of the file system: names and directories (`FULLTEST.C`)

    `test_create`, `test_dir`, `test_umask`, `test_link`, `test_rmdir`,
    `test_fstat` and `test_bandwidth` as programs over the calls of the TFS
    library for the process `pid`.  Path names are their characters.  The data
    that are written and read are left out, their lengths are not.

    The name in `test_rmdir` has 256 bytes.  A `strcat` behind its end ends
    the program here. -/

namespace DirectoryTestDriver

open InteractivePrograms CPrintf TfsHeader
open FullTestDriver (Stat StatCalls localFstatTest)

/-! ## Constants -/

/-- `sizeof(struct tfs_dir_t)`. -/
def dirSize : Nat := 32

/-- The size of the array `name` in `test_rmdir`. -/
def nameSize : Nat := 256

/-- `BLK` and `CNT`. -/
def blk : Nat := 16 * 1024
def cnt : Nat := 512

/-! ## Operations -/

/-- `seriousError` and `minorError` stand for the functions that write a
    message to `stderr` and count it. -/
inductive DirOp where
  | tfsOpen (path : List Char) (oMode : Nat) (cPerm : BitVec 16)
  | tfsClose (fd : Int)
  | tfsWrite (fd : Int) (nbytes : Nat)
  | tfsRead (fd : Int) (nbytes : Nat)
  | tfsLseek (fd offset : Int) (whence : Nat)
  | tfsStat (path : List Char)
  | tfsFstat (fd : Int)
  | tfsUmask (cmask : BitVec 16)
  | tfsChmod (path : List Char) (perm : BitVec 16)
  | tfsUnlink (path : List Char)
  | tfsAccess (path : List Char) (aperm : Int)
  | tfsMkdir (path : List Char) (perms : BitVec 16)
  | tfsRmdir (path : List Char)
  | tfsChdir (path : List Char)
  | tfsLink (path1 path2 : List Char)
  | tfsSync
  | tfsErrno
  | procGetPriority
  | procTime
  | printf (format : String) (args : List Value)
  | seriousError (msg : String)
  | minorError (msg : String)
  deriving DecidableEq, Repr

/-- The result of a call, with the record that `tfs_stat` or `tfs_fstat` fills
    in. -/
@[reducible] def DirOp.Res : DirOp → Type
  | .tfsStat _ => Int × Stat
  | .tfsFstat _ => Int × Stat
  | .tfsUmask _ => BitVec 16
  | .tfsSync => Unit
  | .printf _ _ => Unit
  | .seriousError _ => Unit
  | .minorError _ => Unit
  | _ => Int

/-- A piece of the tests. -/
abbrev Dir (A : Type) := Prog DirOp DirOp.Res Unit A

/-- `tfs_open`: a descriptor, or -1. -/
def tfsOpen (path : List Char) (oMode : Nat) (cPerm : BitVec 16) : Dir Int :=
  perform (DirOp.tfsOpen path oMode cPerm)

/-- `tfs_close`.  This call and those below return 0, or -1, where nothing else
    is said. -/
def tfsClose (fd : Int) : Dir Int := perform (DirOp.tfsClose fd)

/-- `tfs_write`: the number of bytes written, or -1. -/
def tfsWrite (fd : Int) (nbytes : Nat) : Dir Int :=
  perform (DirOp.tfsWrite fd nbytes)

/-- `tfs_read`: the number of bytes read, or -1. -/
def tfsRead (fd : Int) (nbytes : Nat) : Dir Int :=
  perform (DirOp.tfsRead fd nbytes)

/-- `tfs_lseek`: the new position, or -1. -/
def tfsLseek (fd offset : Int) (whence : Nat) : Dir Int :=
  perform (DirOp.tfsLseek fd offset whence)

/-- `tfs_stat`, with the record of the file. -/
def tfsStat (path : List Char) : Dir (Int × Stat) :=
  perform (DirOp.tfsStat path)

/-- `tfs_fstat`, with the record of the open file. -/
def tfsFstat (fd : Int) : Dir (Int × Stat) := perform (DirOp.tfsFstat fd)

/-- `tfs_umask`: the old mask. -/
def tfsUmask (cmask : BitVec 16) : Dir (BitVec 16) :=
  perform (DirOp.tfsUmask cmask)

/-- `tfs_chmod`. -/
def tfsChmod (path : List Char) (perm : BitVec 16) : Dir Int :=
  perform (DirOp.tfsChmod path perm)

/-- `tfs_unlink`. -/
def tfsUnlink (path : List Char) : Dir Int := perform (DirOp.tfsUnlink path)

/-- `tfs_access`: 0 if the file is there, and -1 if not, for `TFS_F_OK`. -/
def tfsAccess (path : List Char) (aperm : Int) : Dir Int :=
  perform (DirOp.tfsAccess path aperm)

/-- `tfs_mkdir`. -/
def tfsMkdir (path : List Char) (perms : BitVec 16) : Dir Int :=
  perform (DirOp.tfsMkdir path perms)

/-- `tfs_rmdir`. -/
def tfsRmdir (path : List Char) : Dir Int := perform (DirOp.tfsRmdir path)

/-- `tfs_chdir`. -/
def tfsChdir (path : List Char) : Dir Int := perform (DirOp.tfsChdir path)

/-- `tfs_link`: the second path becomes another name of the first. -/
def tfsLink (path1 path2 : List Char) : Dir Int :=
  perform (DirOp.tfsLink path1 path2)

/-- `tfs_sync`; its result is not used. -/
def tfsSync : Dir Unit := perform DirOp.tfsSync

/-- The global variable `tfs_errno`. -/
def tfsErrno : Dir Int := perform DirOp.tfsErrno

/-- `ProcGetPriority`, which chooses the length of a tick. -/
def procGetPriority : Dir Int := perform DirOp.procGetPriority

/-- `ProcTime`, in ticks. -/
def procTime : Dir Int := perform DirOp.procTime

/-- `printf`, with the arguments before they are formatted. -/
def printf (format : String) (args : List Value) : Dir Unit :=
  perform (DirOp.printf format args)

/-- `serious_error`, which counts an error that fails the test. -/
def seriousError (msg : String) : Dir Unit := perform (DirOp.seriousError msg)

/-- `minor_error`, which counts a fault that the test goes on with. -/
def minorError (msg : String) : Dir Unit := perform (DirOp.minorError msg)

/-- `if (condition) serious_error(msg);` -/
def seriousIf (condition : Bool) (msg : String) : Dir Unit :=
  if condition then seriousError msg else pure ()

/-- The mode `TFS_O_RDWR | TFS_O_CREAT | TFS_O_TRUNC`. -/
def anew : Nat := tfsORdwr ||| tfsOCreat ||| tfsOTrunc

/-! ## `test_create` -/

/-- The directory of the tests, and the file of `test_create` in it. -/
def testDir : List Char := "test_dir".toList
def testFile : List Char := "test_dir/test_file".toList

/-- `test_create`.  The library does not write to the path name. -/
def testCreate : Dir Unit := do
  printf "mkdir/open/close...\n" []
  let rv ← tfsMkdir testDir 0o777
  let errno ← tfsErrno
  if rv = -1 ∧ errno ≠ tfsEexist then seriousError "mkdir failed"
  else do
  let fd ← tfsOpen testFile anew 0o777
  if fd = -1 then seriousError "open failed"
  else do
  let rv ← tfsWrite fd 6
  if rv ≠ 6 then seriousError "write failed"
  else do
  let rv ← tfsClose fd
  (if rv = -1 then minorError "close failed" else pure ())
  let (rv, st) ← tfsStat testFile
  if rv = -1 then seriousError "stat failed"
  else seriousIf (st.st_size ≠ 6) "file has wrong size\n"

/-! ## `test_dir` -/

/-- `sprintf(name, "file.%d", i)`. -/
def fileName (i : Nat) : List Char := formatted "file.%d" [.int i]

/-- `test_dir`. -/
def testDirectory : Dir Unit := do
  printf "chdir/big directory/read directory...\n" []
  let rv ← tfsChdir testDir
  if rv ≠ 0 then seriousError "chdir failed"
  else do
  let left ← forUntil
    (fun i => do
      let fd ← tfsOpen (fileName i) (tfsORdwr ||| tfsOCreat) 0o777
      if fd = -1 then do
        seriousError "open failed"
        pure true
      else do
      let rv ← tfsClose fd
      if rv ≠ 0 then do
        seriousError "close failed"
        pure true
      else pure false)
    300 0
  if left then pure ()
  else do
  let (rv, st) ← tfsStat ['.']
  if rv = -1 then seriousError "stat failed"
  else if st.st_mode &&& tfsIDir = 0 then seriousError "directory mode bit"
  else if st.st_size.toNat < 303 * dirSize then
    minorError "directory has wrong size"
  else pure ()

/-! ## `test_umask` -/

/-- The file of `test_umask`. -/
def umaskFile : List Char := "Umask_test_file".toList

/-- The mask for the permission bits. -/
def permBits : BitVec 16 := 0o777

/-- `test_umask`. -/
def testUmask : Dir Unit := do
  printf "test_umask\n" []
  let _ ← tfsUnlink umaskFile
  let fd ← tfsOpen umaskFile anew 0o777
  if fd = -1 then seriousError "open failed"
  else do
  let rv ← tfsClose fd
  if rv ≠ 0 then seriousError "close"
  else do
  let oldMask ← tfsUmask 7
  let errno ← tfsErrno
  if errno ≠ 0 then seriousError "umask"
  else do
  let (rv, st) ← tfsStat umaskFile
  if rv = -1 then seriousError "stat failed"
  else do
  (if st.st_mode &&& permBits ≠ ~~~oldMask &&& permBits then do
    printf "st_mode=%o, ~old_mask=%o\n"
      [.int (st.st_mode &&& permBits).toNat, .int (~~~oldMask &&& permBits).toNat]
    seriousError "file has wrong mode (old_mask)"
  else pure ())
  let rv ← tfsChmod umaskFile 0o700
  seriousIf (rv ≠ 0) "chmod"
  let (rv, st) ← tfsStat umaskFile
  seriousIf (rv ≠ 0) "stat 2"
  seriousIf (st.st_mode &&& permBits ≠ 0o700) "file has wrong mode (0700)"
  let rv ← tfsUnlink umaskFile
  seriousIf (rv ≠ 0) "unlink"
  let rv ← tfsAccess umaskFile tfsFOk
  seriousIf (rv ≠ -1) "access failed"
  let fd ← tfsOpen umaskFile anew 0o777
  seriousIf (fd = -1) "open 2 failed"
  let rv ← tfsClose fd
  seriousIf (rv ≠ 0) "close 2"
  let (rv, st) ← tfsStat umaskFile
  seriousIf (rv ≠ 0) "stat 3"
  seriousIf (st.st_mode &&& permBits ≠ 0o770) "file has wrong mode (0770)\n"

/-! ## `test_link` -/

/-- The file of `test_link` and its second name. -/
def linkFile : List Char := "link.test".toList
def linkFile2 : List Char := "link2.test".toList

/-- `test_link`. -/
def testLink : Dir Unit := do
  printf "test link...\n" []
  let fd ← tfsOpen linkFile anew 0o777
  if fd = -1 then seriousError "open"
  else do
  let _ ← tfsClose fd
  let rv ← tfsLink linkFile linkFile2
  if rv ≠ 0 then seriousError "link"
  else do
  let (rv, st) ← tfsStat linkFile
  if rv ≠ 0 then seriousError "stat"
  else do
  seriousIf (st.st_nlink ≠ 2) "wrong number of links"
  let rv ← tfsUnlink linkFile2
  seriousIf (rv ≠ 0) "unlink"

/-! ## `test_rmdir` -/

/-- The loop that looks for a name; `room` more characters fit the array. -/
def freeName : (room : Nat) → List Char → Dir (List Char)
  | 0, name => do
      let rv ← tfsAccess name tfsFOk
      if rv = 0 then .exit () else pure name
  | room + 1, name => do
      let rv ← tfsAccess name tfsFOk
      if rv = 0 then freeName room (name ++ ['A']) else pure name

/-- The first name that is tried. -/
def tmpdir : List Char := "tmpdir".toList

/-- `test_rmdir`. -/
def testRmdir : Dir Unit := do
  printf "test mkdir/rmdir\n" []
  let name ← freeName (nameSize - 1 - tmpdir.length) tmpdir
  let rv ← tfsMkdir name 0o777
  if rv ≠ 0 then seriousError "mkdir"
  else do
  let rv ← tfsRmdir name
  if rv ≠ 0 then seriousError "mkdir"
  else do
  let rv ← tfsAccess name tfsFOk
  seriousIf (rv ≠ -1) "file still exits"

/-! ## `test_fstat` -/

/-- The file of `test_fstat`. -/
def fstatFile : List Char := FullTestDriver.fstatFile.toList

/-- The calls of `test_fstat` as operations of these tests. -/
def statCalls : StatCalls DirOp DirOp.Res :=
  { tfsOpen := fun path oMode cPerm =>
      tfsOpen path.toList oMode (BitVec.ofNat 16 cPerm)
    tfsStat := fun path => tfsStat path.toList
    tfsFstat := tfsFstat
    tfsClose := tfsClose
    printf := fun format args => printf format (args.map (fun n => .int n))
    seriousError := seriousError }

/-- `test_fstat`. -/
def testFstat : Dir Unit := localFstatTest statCalls

/-! ## `test_bandwidth` -/

/-- The file of `test_bandwidth`. -/
def bandwidthFile : List Char := "bandwidth.test".toList

/-- A loop over the blocks that a wrong count leaves. -/
def blocks (call : Dir Int) (msg : String) : Dir Bool :=
  forUntil
    (fun _ => do
      let rv ← call
      if rv ≠ blk then do
        seriousError msg
        pure true
      else pure false)
    cnt 0

/-- `test_bandwidth`, of the local version.  The quotients of the times are
    formed in floating point for the messages only; here the messages have
    their operands. -/
def testBandwidth : Dir Unit := do
  let priority ← procGetPriority
  printf "test bandwidth\n" []
  tfsSync
  let fd ← tfsOpen bandwidthFile anew 0o777
  if fd = -1 then seriousError "open trunc"
  else do
  let t1 ← procTime
  let left ← blocks (tfsWrite fd blk) "write"
  if left then pure ()
  else do
  let t2 ← procTime
  printf "Write truncated file: %.2f K/s\n" [.int t1, .int t2, .int priority]
  let _ ← tfsClose fd
  tfsSync
  let fd ← tfsOpen bandwidthFile tfsORdwr 0
  if fd = -1 then seriousError "open rdwr"
  else do
  let t1 ← procTime
  let left ← blocks (tfsWrite fd blk) "write"
  if left then pure ()
  else do
  let t2 ← procTime
  printf "Write non-truncated file: %.2f K/s\n"
    [.int t1, .int t2, .int priority]
  let _ ← tfsLseek fd 0 tfsSeekSet
  tfsSync
  let t1 ← procTime
  let left ← blocks (tfsRead fd blk) "read"
  if left then pure ()
  else do
  let t2 ← procTime
  printf "read: %.2f K/s\n" [.int t1, .int t2, .int priority]
  let _ ← tfsClose fd
  pure ()

/-! ## The tests in the order of `main` -/

/-- The calls of `main` from `test_create` on. -/
def directoryTests : Dir Unit := do
  testCreate
  testDirectory
  testUmask
  testLink
  testRmdir
  testFstat
  testBandwidth

end DirectoryTestDriver
