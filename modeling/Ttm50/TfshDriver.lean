import Ttm50.CStdio
import Ttm50.InteractivePrograms

/-! # The file system shell (`TFS_UTIL.C`)

    The start of `tfsh` and its commands `mount`, `logon` and `logoff`, as
    programs over the calls of the TFS library, `getenv` and `printf`.  The
    shell's variables `pid` and `cwd` are passed along; the prompt of the
    interactive mode shows `cwd`. -/

namespace TfshDriver

open CStdio InteractivePrograms

/-! ## Constants -/

def tfsDoFsck : Int := -1
def tfsDontFsck : Int := 0

/-! ## Operations -/

/-- An argument of `printf`, for `%s` or `%d`. -/
inductive Arg where
  | s (text : String)
  | d (value : Int)
  deriving DecidableEq, Repr

inductive TfsOp where
  | getenv (name : String)
  | tfsMount (doFsck : Int)
  | tfsLogon (uid gid : Nat)
  | tfsLogoff (pid : Int)
  | tfsChdir (pid : Int) (path : String)
  | getcwd
  | tfsErrno
  | tfsPerror (pid : Int) (text : String)
  | printf (text : String) (args : List Arg)
  deriving DecidableEq, Repr

/-- The value of a variable if it is set, the result of a call, the directory
    that `getcwd` writes, the value of `tfs_errno`. -/
@[reducible] def TfsOp.Res : TfsOp → Type
  | .getenv _ => Option String
  | .tfsMount _ => Int
  | .tfsLogon _ _ => Int
  | .tfsLogoff _ => Int
  | .tfsChdir _ _ => Int
  | .getcwd => String
  | .tfsErrno => Int
  | _ => Unit

/-- A piece of the shell. -/
abbrev Tfsh (A : Type) := Prog TfsOp TfsOp.Res Int A

def getenv (name : String) : Tfsh (Option String) :=
  perform (TfsOp.getenv name)

def tfsMount (doFsck : Int) : Tfsh Int := perform (TfsOp.tfsMount doFsck)

def tfsLogon (uid gid : Nat) : Tfsh Int := perform (TfsOp.tfsLogon uid gid)

def tfsLogoff (pid : Int) : Tfsh Int := perform (TfsOp.tfsLogoff pid)

def tfsChdir (pid : Int) (path : String) : Tfsh Int :=
  perform (TfsOp.tfsChdir pid path)

def getcwd : Tfsh String := perform TfsOp.getcwd

def tfsErrno : Tfsh Int := perform TfsOp.tfsErrno

def tfsPerror (pid : Int) (text : String) : Tfsh Unit :=
  perform (TfsOp.tfsPerror pid text)

def printf (text : String) (args : List Arg) : Tfsh Unit :=
  perform (TfsOp.printf text args)

/-- Conversion to `u_short`. -/
def uShort (n : Int) : Nat := (n % 65536).toNat

/-! ## Commands -/

/-- The variables `pid` and `cwd`. -/
structure Shell where
  pid : Int
  cwd : String
  deriving DecidableEq, Repr

/-- Their initial values. -/
def Shell.initial : Shell := ⟨-1, "not mounted"⟩

/-- `struct command` without the function. -/
structure Command where
  name : String
  usage : Option String
  deriving DecidableEq, Repr

/-- The entries of the table `Command`. -/
def mountCommand : Command := ⟨"mount", some "[ fsck ]"⟩
def logonCommand : Command := ⟨"logon", some "<uid> <gid>"⟩

/-- `usage`, with the `printf` of the program that calls it. -/
def usage {P : Type} (printf : String → List Arg → P) (command : Command) :
    P :=
  match command.usage with
  | some text => printf "Usage: %s %s\n" [.s command.name, .s text]
  | none => printf "Usage: %s\n" [.s command.name]

/-- `logon`. -/
def logon (command : Command) (argv : List String) (sh : Shell) :
    Tfsh Shell :=
  match argv with
  | [_, uid, gid] => do
      let pid ← tfsLogon (uShort (atoi uid)) (uShort (atoi gid))
      if pid < 0 then do
        let errno ← tfsErrno
        printf "logon: TFS error %d.\n" [.d errno]
        pure { sh with pid := pid }
      else do
        let cwd ← getcwd
        pure { pid := pid, cwd := cwd }
  | _ => do
      usage printf command
      pure sh

/-- `logoff`. -/
def logoff (sh : Shell) : Tfsh Shell := do
  let failed ← tfsLogoff sh.pid
  (if failed ≠ 0 then do
    let errno ← tfsErrno
    printf "logoff: TFS error %d.\n" [.d errno]
  else pure ())
  pure { pid := -1, cwd := "not logged on" }

/-- The flag that the arguments of `mount` give, `none` for others. -/
def fsckFlag (argv : List String) : Option Int :=
  if argv.length = 1 then some tfsDontFsck
  else if argv[1]? = some "fsck" then some tfsDoFsck
  else none

/-- `mount`. -/
def mount (command : Command) (argv : List String) (sh : Shell) :
    Tfsh Shell :=
  match fsckFlag argv with
  | none => do
      usage printf command
      pure sh
  | some doFsck => do
      let failed ← tfsMount doFsck
      if failed ≠ 0 then do
        tfsPerror (-1) "mount"
        pure sh
      else pure { sh with cwd := "not logged on" }

/-! ## The start -/

/-- How `tfsh` goes on after its start: it returns -1, executes one command
    line, or enters the interactive mode. -/
inductive Start where
  | failed
  | commandLine (argv : List String) (sh : Shell)
  | interactive (sh : Shell)
  deriving DecidableEq, Repr

/-- The user or group id of an environment variable. -/
def idOf (value : Option String) : Int :=
  match value with
  | some text => atoi text
  | none => -2

/-- `tfsh`, until it executes commands. -/
def tfsh (argv : List String) (sh : Shell) : Tfsh Start := do
  let uid ← getenv "TFS_UID"
  let gid ← getenv "TFS_GID"
  if argv.length = 1 ∨ argv[1]? ≠ some "-n" then do
    let rv ← tfsMount tfsDontFsck
    if rv ≠ 0 then do
      tfsPerror (-1) "tfsh: mount failed"
      pure .failed
    else do
      let sh := { sh with cwd := "not logged on" }
      let pid ← tfsLogon (uShort (idOf uid)) (uShort (idOf gid))
      let sh := { sh with pid := pid }
      let sh ← (if pid = -1 then do
          tfsPerror (-1) "tfsh: logon failed"
          pure sh
        else do
          let home ← getenv "TFS_HOME"
          let _ ← tfsChdir pid (home.getD "/")
          let cwd ← getcwd
          pure { sh with cwd := cwd })
      if argv.length > 1 then pure (.commandLine (argv.drop 1) sh)
      else pure (.interactive sh)
  else if argv.length > 2 then pure (.commandLine (argv.drop 2) sh)
  else pure (.interactive sh)

end TfshDriver
