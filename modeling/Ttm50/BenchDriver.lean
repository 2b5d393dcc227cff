import Ttm50.FindDriver

/-! # The `benchmark` command (`BENCH.C`)

    `benchmark` as a program over the calls of the TFS library, of the
    allocator, of the clock and of `printf`.  Its two labels are programs that
    the jumps end with; a jump out of a loop is a body that leaves it.  The
    quotients of the measured times are formed in floating point for the
    messages only; here the messages have their operands. -/

namespace BenchDriver

open CStdio InteractivePrograms TfshDriver FindDriver
open TfsHeader (tfsORdonly tfsOWronly tfsOCreat)

/-! ## Operations -/

/-- The calls of the library, of the allocator and of the clock.  A buffer is
    its address. -/
inductive BenchOp where
  | calloc (nmemb size : Int)
  | free (buffer : Nat)
  | procGetPriority
  | procTime
  | tfsOpen (pid : Int) (path : String) (oMode : Int) (cPerm : Nat)
  | tfsWrite (pid fd : Int) (buffer : Nat) (nbytes : Int)
  | tfsRead (pid fd : Int) (buffer : Nat) (nbytes : Int)
  | tfsClose (pid fd : Int)
  | tfsSync
  | tfsErrno
  | printf (text : String) (args : List Arg)
  deriving DecidableEq, Repr

/-- The address of the memory if there is some, the priority, the time, the
    result of a call, the value of `tfs_errno`. -/
@[reducible] def BenchOp.Res : BenchOp → Type
  | .calloc _ _ => Option Nat
  | .procGetPriority => Int
  | .procTime => Int
  | .tfsOpen _ _ _ _ => Int
  | .tfsWrite _ _ _ _ => Int
  | .tfsRead _ _ _ _ => Int
  | .tfsClose _ _ => Int
  | .tfsErrno => Int
  | _ => Unit

/-- A piece of the command; nothing in it exits. -/
abbrev Bench (A : Type) := Prog BenchOp BenchOp.Res Empty A

/-- `calloc`: the address, or `none` when there is no memory. -/
def calloc (nmemb size : Int) : Bench (Option Nat) :=
  perform (BenchOp.calloc nmemb size)

/-- `free`, of an address that `calloc` has given. -/
def free (buffer : Nat) : Bench Unit := perform (BenchOp.free buffer)

/-- `ProcGetPriority`, which chooses the length of a tick. -/
def procGetPriority : Bench Int := perform BenchOp.procGetPriority

/-- `ProcTime`, in ticks. -/
def procTime : Bench Int := perform BenchOp.procTime

/-- `tfs_open`: a descriptor, or -1. -/
def tfsOpen (pid : Int) (path : String) (oMode : Int) (cPerm : Nat) :
    Bench Int :=
  perform (BenchOp.tfsOpen pid path oMode cPerm)

/-- `tfs_write`: the number of bytes written, or -1. -/
def tfsWrite (pid fd : Int) (buffer : Nat) (nbytes : Int) : Bench Int :=
  perform (BenchOp.tfsWrite pid fd buffer nbytes)

/-- `tfs_read`: the number of bytes read, or -1. -/
def tfsRead (pid fd : Int) (buffer : Nat) (nbytes : Int) : Bench Int :=
  perform (BenchOp.tfsRead pid fd buffer nbytes)

/-- `tfs_close`: 0, or -1. -/
def tfsClose (pid fd : Int) : Bench Int := perform (BenchOp.tfsClose pid fd)

/-- `tfs_sync`. -/
def tfsSync : Bench Unit := perform BenchOp.tfsSync

/-- The global variable `tfs_errno`. -/
def tfsErrno : Bench Int := perform BenchOp.tfsErrno

/-- `printf`, with the arguments before they are formatted. -/
def printf (text : String) (args : List Arg) : Bench Unit :=
  perform (BenchOp.printf text args)

/-! ## `benchmark` -/

/-- A value that an `int` wraps around to. -/
def wrap (n : Int) : Int := Int.bmod n (2 ^ 32)

/-- `ProcTimeMinus( end, start )`. -/
def procTimeMinus (finish start : Int) : Int := wrap (finish - start)

/-- `(size*times)/1024`. -/
def kbytes (size times : Int) : Int := (wrap (size * times)).tdiv 1024

/-- A message with the value of `tfs_errno`. -/
def complain (text : String) : Bench Unit := do
  let errno ← tfsErrno
  printf text [.d errno]

/-- The two messages about the file, with the value of `tfs_errno`. -/
def openFailed : String := "Failed to open \"temp.dat\". TFS error = %d.\n"
def closeFailed : String := "Failed to close \"temp.dat\". TFS error = %d.\n"

/-- From the label `err_exit` on. -/
def errExit (buffer : Nat) : Bench Unit := free buffer

/-- From the label `err_close` on. -/
def errClose (pid fd : Int) (buffer : Nat) : Bench Unit := do
  let failed ← tfsClose pid fd
  (if failed ≠ 0 then complain closeFailed else pure ())
  errExit buffer

/-- The loop that writes; it is left by `goto err_close`. -/
def writeLoop (pid fd : Int) (buffer : Nat) (size times : Int) : Bench Bool :=
  forUntil
    (fun _ => do
      let count ← tfsWrite pid fd buffer size
      if count ≠ size then do
        complain "Failed to write data, TFS error = %d.\n"
        pure true
      else pure false)
    times.toNat 0

/-- The loop that reads; it is left by `goto err_close`. -/
def readLoop (pid fd : Int) (buffer : Nat) (size times : Int) : Bench Bool :=
  forUntil
    (fun _ => do
      let count ← tfsRead pid fd buffer size
      if count ≠ size then do
        complain "Failed to read data, TFS error = %d.\n"
        pure true
      else pure false)
    times.toNat 0

/-- The two messages with the result of a half. -/
def report (text : String) (interval second kb size : Int) : Bench Unit := do
  printf text [.d interval, .d second, .d kb, .d size]
  printf "which is %.2f Kb/s.\n" [.d kb, .d second, .d interval]

/-- The reports of the two directions: the number of bytes, then the times. -/
def writeReport : String :=
  "Write: %.1f seconds for %d Kbytes, using %d byte blocks, "
def readReport : String :=
  "Read: %.1f seconds for %d Kbytes, using %d byte blocks, "

/-- From the second `tfs_open` on. -/
def readHalf (pid : Int) (buffer : Nat) (size times second : Int) :
    Bench Unit := do
  let fd ← tfsOpen pid "temp.dat" tfsORdonly 0o666
  if fd < 0 then do
    complain openFailed
    errExit buffer
  else do
    let start ← procTime
    let failed ← readLoop pid fd buffer size times
    if failed then errClose pid fd buffer
    else do
      let finish ← procTime
      report readReport (procTimeMinus finish start) second (kbytes size times)
        size
      errClose pid fd buffer

/-- From the first `tfs_open` on. -/
def writeHalf (pid : Int) (buffer : Nat) (size times second : Int) :
    Bench Unit := do
  let fd ← tfsOpen pid "temp.dat" (tfsOWronly + tfsOCreat) 0o666
  if fd < 0 then do
    complain openFailed
    errExit buffer
  else do
    let start ← procTime
    let failed ← writeLoop pid fd buffer size times
    if failed then errClose pid fd buffer
    else do
      let finish ← procTime
      report writeReport (procTimeMinus finish start) second
        (kbytes size times) size
      let failed ← tfsClose pid fd
      if failed ≠ 0 then do
        complain closeFailed
        errExit buffer
      else do
        tfsSync
        readHalf pid buffer size times second

/-- `benchmark`. -/
def benchmark (pid : Int) (command : Command) (argv : List String) :
    Bench Unit :=
  match argv with
  | [_, size, times] =>
      let size := atoi size
      let times := atoi times
      if size ≤ 0 ∨ times ≤ 0 then do
        printf "Invalid arguments.\n" []
        usage printf command
      else do
        let buffer ← calloc size 1
        match buffer with
        | none => printf "Can't malloc %d bytes\n" [.d size]
        | some buffer => do
            let priority ← procGetPriority
            let second := if priority ≠ 0 then 15625 else 1000000
            writeHalf pid buffer size times second
  | _ => usage printf command

end BenchDriver
