import Mathlib

/-! # The header of the file system's library (`TFS.H`)

    What the programs that call the library use of it: the limits, the open
    modes, the inode modes, and the errors. -/

namespace TfsHeader

/-! ## Limits -/

/-- The longest name in a directory and the longest path, the most links of a
    file and the most descriptors of a process. -/
def tfsNameMax : Nat := 27
def tfsPathMax : Nat := 255
def tfsLinkMax : Nat := 8
def tfsOpenMax : Nat := 16

/-! ## Open modes and positions -/

/-- Where `tfs_lseek` counts from: the beginning, or the file pointer. -/
def tfsSeekSet : Nat := 0
def tfsSeekCur : Nat := 1

/-- What a file is opened for, two bits, and how. -/
def tfsORdonly : Nat := 1
def tfsOWronly : Nat := 2
def tfsORdwr : Nat := 3
def tfsOCreat : Nat := 0x0200
def tfsOTrunc : Nat := 0x0400
def tfsOExcl : Nat := 0x0800
def tfsOAppend : Nat := 8

/-- `tfs_access` asks whether the file exists. -/
def tfsFOk : Int := 0

/-! ## Inode modes -/

/-- A regular file, and a directory. -/
def tfsIReg : BitVec 16 := 0o100000
def tfsIDir : BitVec 16 := 0o040000

/-- The permission field, and the two bits in it that a write to a regular
    file clears. -/
def tfsSPerms : BitVec 16 := 0o6777
def tfsSIsuid : BitVec 16 := 0o4000
def tfsSIsgid : BitVec 16 := 0o2000

/-! ## Errors -/

/-- The values of `tfs_errno` that the pages name here. -/
def tfsEnotdir : Int := 3
def tfsEexist : Int := 5
def tfsEnoent : Int := 7
def tfsEisdir : Int := 8
def tfsEperm : Int := 10
def tfsEbadf : Int := 11
def tfsEinval : Int := 12
def tfsEnametoolong : Int := 14
def tfsEmlink : Int := 16
def tfsEnotempty : Int := 17
def tfsEbusy : Int := 18

end TfsHeader
