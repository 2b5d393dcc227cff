import Ttm50.TfsHeader
import Ttm50.TfshDriver

/-! # The `find` command (`FIND.C`)

    `find_dir`, `_find` and `find` as programs over the calls of the TFS
    library and of `stdio`.  The two functions call each other, and `find_dir`
    reads its directory in a loop: `fuel` bounds the depth of the recursion
    and the number of reads of each loop, and a program that has used it up
    exits.  The result 0 of both functions is not used and left out. -/

namespace FindDriver

open InteractivePrograms TfshDriver
open TfsHeader (tfsORdonly tfsNameMax tfsPathMax tfsOpenMax)

/-! ## Constants -/

/-- `TFS_I_TYPE`, the inode type field, and its two values. -/
def tfsIType : Nat := 0o170000
def tfsIReg : Nat := 0o100000
def tfsIDir : Nat := 0o040000

/-- `struct tfs_dir_t`. -/
structure Dirent where
  inode_no : Nat
  name : String
  deriving DecidableEq, Repr

/-- `sizeof(struct tfs_dir_t)`. -/
def direntSize : Int := 32

/-! ## Operations -/

/-- The calls of the library and of `stdio`, and the building of a path. -/
inductive FindOp where
  | tfsStat (pid : Int) (path : String)
  | tfsOpen (pid : Int) (path : String) (oMode : Int) (cPerm : Nat)
  | tfsRead (pid fd : Int) (nbytes : Int)
  | tfsClose (pid fd : Int)
  | tfsGeterr (pid : Int)
  | tfsErrlist (error : Int)
  | entryPath (path : String)
  | printf (text : String) (args : List Arg)
  | fprintf (text : String) (args : List Arg)
  deriving DecidableEq, Repr

/-- The result and `st_mode`, a descriptor, the number of bytes read and the
    entry in the buffer, an error and its text.  `entryPath` stands for the
    `strcpy` and `strcat` calls that leave a path in the buffer of that name,
    `fprintf` writes to `stderr`. -/
@[reducible] def FindOp.Res : FindOp → Type
  | .tfsStat _ _ => Int × Nat
  | .tfsOpen _ _ _ _ => Int
  | .tfsRead _ _ _ => Int × Dirent
  | .tfsGeterr _ => Int
  | .tfsErrlist _ => String
  | _ => Unit

/-- A piece of the command; it exits when the fuel is used up. -/
abbrev Find (A : Type) := Prog FindOp FindOp.Res Unit A

/-- `tfs_stat`: its result and the mode of the file. -/
def tfsStat (pid : Int) (path : String) : Find (Int × Nat) :=
  perform (FindOp.tfsStat pid path)

/-- `tfs_open`: a descriptor, or -1. -/
def tfsOpen (pid : Int) (path : String) (oMode : Int) (cPerm : Nat) :
    Find Int :=
  perform (FindOp.tfsOpen pid path oMode cPerm)

/-- `tfs_read` of one directory entry: the number of bytes and the entry. -/
def tfsRead (pid fd nbytes : Int) : Find (Int × Dirent) :=
  perform (FindOp.tfsRead pid fd nbytes)

/-- `tfs_close`; its result is not used. -/
def tfsClose (pid fd : Int) : Find Unit := perform (FindOp.tfsClose pid fd)

/-- `tfs_geterr`: the last error of the process. -/
def tfsGeterr (pid : Int) : Find Int := perform (FindOp.tfsGeterr pid)

/-- `tfs_errlist[ error ]`. -/
def tfsErrlist (error : Int) : Find String :=
  perform (FindOp.tfsErrlist error)

/-- The path is in the buffer `entry_path`. -/
def entryPath (path : String) : Find Unit := perform (FindOp.entryPath path)

/-- `printf`, to the output. -/
def printf (text : String) (args : List Arg) : Find Unit :=
  perform (FindOp.printf text args)

/-- `fprintf( stderr, ... )`. -/
def fprintf (text : String) (args : List Arg) : Find Unit :=
  perform (FindOp.fprintf text args)

/-! ## The traversal -/

/-- The variables `pid`, `type_mask` and `print`. -/
structure Globals where
  pid : Int
  typeMask : Nat
  print : Bool
  deriving DecidableEq, Repr

/-- The entry is in use and is neither `.` nor `..`. -/
def isEntry (dir : Dirent) : Bool :=
  dir.inode_no ≠ 0 && dir.name ≠ "." && dir.name ≠ ".."

/-- The diagnostics, with the path and the text of the error. -/
def statFailed : String := "find: \"%s\": stat failed: %s\n"
def openFailed : String := "find: \"%s\": open failed: %s\n"

/-- The diagnostics of the two functions. -/
def complain (g : Globals) (text path : String) : Find Unit := do
  let error ← tfsGeterr g.pid
  let message ← tfsErrlist error
  fprintf text [.s path, .s message]

/-- The loop of `find_dir`, with `_find` as `visit`. -/
def readLoop (visit : String → Find Unit) (g : Globals) (fd : Int)
    (dir_path : String) : (fuel : Nat) → Find Unit
  | 0 => .exit ()
  | fuel + 1 => do
      let r ← tfsRead g.pid fd direntSize
      if r.1 = direntSize then do
        (if isEntry r.2 then do
          entryPath (dir_path ++ "/" ++ r.2.name)
          visit (dir_path ++ "/" ++ r.2.name)
        else pure ())
        readLoop visit g fd dir_path fuel
      else pure ()

/-- `find_dir`. -/
def findDir (visit : String → Find Unit) (g : Globals) (fuel : Nat)
    (dir_path : String) : Find Unit := do
  let fd ← tfsOpen g.pid dir_path tfsORdonly 0
  if fd = -1 then complain g openFailed dir_path
  else do
    readLoop visit g fd dir_path fuel
    tfsClose g.pid fd

/-- `_find`. -/
def find_ (g : Globals) : (fuel : Nat) → String → Find Unit
  | 0, _ => .exit ()
  | fuel + 1, path => do
      let st ← tfsStat g.pid path
      if st.1 = -1 then complain g statFailed path
      else do
        (if st.2 &&& g.typeMask ≠ 0 then
          if g.print then printf "%s\n" [.s path] else pure ()
        else pure ())
        if st.2 &&& tfsIDir ≠ 0 then findDir (find_ g fuel) g fuel path
        else pure ()

/-! ## The command -/

/-- `type_mask` and `print` as the arguments set them, `none` for a wrong use.
    Each `-type` looks at the argument after it, which the loop comes to
    next. -/
def options : List String → Nat × Bool → Option (Nat × Bool)
  | [], o => some o
  | arg :: rest, (mask, print) =>
      if arg = "-type" then
        match rest with
        | [] => none
        | kind :: _ =>
            if kind.toList.head? = some 'f' then options rest (tfsIReg, print)
            else if kind.toList.head? = some 'd' then
              options rest (tfsIDir, print)
            else none
      else if arg = "-print" then options rest (mask, true)
      else options rest (mask, print)

/-- The arguments before the first option. -/
def startPaths (argv : List String) : List String :=
  (argv.drop 1).takeWhile (fun arg => arg.toList.head? ≠ some '-')

/-- The loop over the start paths. -/
def forEach (visit : String → Find Unit) : List String → Find Unit
  | [] => pure ()
  | path :: paths => do
      visit path
      forEach visit paths

/-- The entry of `find` in the table `Command`. -/
def findCommand : Command :=
  ⟨"find", some "[ <files> ... ] [ -type f|d ] -print"⟩

/-- `find`. -/
def find (pid : Int) (fuel : Nat) (command : Command) (argv : List String) :
    Find Unit :=
  match options (argv.drop 2) (tfsIDir ||| tfsIReg, false) with
  | none => usage printf command
  | some (mask, print) =>
      forEach (find_ ⟨pid, mask, print⟩ fuel) (startPaths argv)

end FindDriver
