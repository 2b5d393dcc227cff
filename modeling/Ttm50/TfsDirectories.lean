import Ttm50.DirectoryTestDriver
import Ttm50.LinkTables
import Ttm50.TfsDescriptors

/-! # Names and directories of the manual pages

    What the pages of `tfs_open`, `tfs_mkdir`, `tfs_rmdir`, `tfs_link`,
    `tfs_unlink`, `tfs_chdir`, `tfs_chmod`, `tfs_umask`, `tfs_access`,
    `tfs_stat`, `tfs_fstat` and `tfs_errno` promise to one logical process,
    while it is granted every access, there are space and descriptors, and no
    error occurs on the disk.

    The entries of all directories, `.` and `..` apart, are one table of links
    from a directory and a name to an inode, and the number of links of a file
    is the number of its names in that table.  An inode without names that is
    not in use is free. -/

namespace TfsDirectories

open InteractivePrograms LinkTables TfsHeader TfsDescriptors
open DirectoryTestDriver
open FullTestDriver (Stat)

/-! ## The file system and the process -/

abbrev Name := List Char

/-- `parent` is the directory `..`, `size` the length of a regular file. -/
structure Inode where
  isDir : Bool
  perms : BitVec 16
  size : Nat
  parent : Nat

/-- The file system, the logical process, and the counters of the tests. -/
structure World where
  links : Links (Nat × Name) Nat
  inode : Nat → Inode
  root : Nat
  cwd : Nat
  umask : BitVec 16
  errno : Int
  descs : List (Int × Desc Nat)
  serious : Nat
  minor : Nat

/-- The entry of a directory. -/
def World.entry (w : World) (dir : Nat) (name : Name) : Option Nat :=
  w.links.lookup (dir, name)

/-- The number of links of an inode. -/
def World.nlink (w : World) (ino : Nat) : Nat := refs w.links ino

/-- Nothing refers to the inode. -/
structure World.Free (w : World) (ino : Nat) : Prop where
  nlink : w.nlink ino = 0
  empty : ∀ name, w.entry ino name = none
  root : ino ≠ w.root
  cwd : ino ≠ w.cwd
  descs : ∀ e ∈ w.descs, e.2.file ≠ ino

/-- The call fails. -/
def World.fails (w : World) (errno : Int) : Int × World :=
  (-1, { w with errno := errno })

/-! ## Path names -/

/-- The components of the rest of a path, when `name` has been read of the
    current one. -/
def componentsFrom : (name : Name) → List Char → List Name
  | [], [] => []
  | name, [] => [name]
  | name, c :: path =>
      if c = '/' then
        (if name = [] then [] else [name]) ++ componentsFrom [] path
      else componentsFrom (name ++ [c]) path

def components (path : List Char) : List Name := componentsFrom [] path

/-- One component in a directory: what it names, if anything. -/
def World.look (w : World) (dir : Nat) (name : Name) :
    Except Int (Option Nat) :=
  if name.length > tfsNameMax then .error tfsEnametoolong
  else if (w.inode dir).isDir = false then .error tfsEnotdir
  else if name = ['.'] then .ok (some dir)
  else if name = ['.', '.'] then .ok (some (w.inode dir).parent)
  else .ok (w.entry dir name)

/-- The inode that the components lead to. -/
def World.walk (w : World) : Nat → List Name → Except Int Nat
  | dir, [] => .ok dir
  | dir, name :: names =>
      match w.look dir name with
      | .error e => .error e
      | .ok none => .error tfsEnoent
      | .ok (some ino) => w.walk ino names

/-- A place for an entry, and the inode that is there. -/
structure Spot where
  dir : Nat
  name : Name
  ino : Option Nat

/-- The place that a path names. -/
def World.locate (w : World) (path : List Char) : Except Int Spot :=
  if path = [] then .error tfsEnoent
  else if path.length > tfsPathMax then .error tfsEnametoolong
  else
    let start := if path.head? = some '/' then w.root else w.cwd
    match (components path).reverse with
    | [] => .ok ⟨w.root, ['.'], some w.root⟩
    | name :: front =>
        match w.walk start front.reverse with
        | .error e => .error e
        | .ok dir =>
            match w.look dir name with
            | .error e => .error e
            | .ok ino => .ok ⟨dir, name, ino⟩

/-- The place of something that is there. -/
def World.find (w : World) (path : List Char) : Except Int (Spot × Nat) :=
  match w.locate path with
  | .error e => .error e
  | .ok spot =>
      match spot.ino with
      | none => .error tfsEnoent
      | some ino => .ok (spot, ino)

/-! ## The calls -/

/-- What `tfs_open` makes of a path: an error, a file that is there, or a place
    for a new one. -/
inductive Opening where
  | error (errno : Int)
  | present (ino : Nat)
  | absent (dir : Nat) (name : Name)

def World.opening (w : World) (path : List Char) (oMode : Nat) : Opening :=
  if oMode &&& 3 = 0 ∨ (has oMode tfsOTrunc ∧ ¬ has oMode tfsOWronly) then
    .error tfsEinval
  else
    match w.locate path with
    | .error e => .error e
    | .ok ⟨dir, name, none⟩ =>
        if has oMode tfsOCreat then .absent dir name else .error tfsEnoent
    | .ok ⟨_, _, some ino⟩ =>
        if has oMode tfsOCreat ∧ has oMode tfsOExcl then .error tfsEexist
        else if (w.inode ino).isDir ∧ has oMode tfsOWronly then
          .error tfsEisdir
        else .present ino

/-- The process gets a descriptor. -/
def World.opened (w : World) (ino : Nat) (oMode : Nat) (fd : Int) : World :=
  { w with
    errno := 0
    descs := (fd, openedDesc ino oMode) :: w.descs }

/-- An inode changes. -/
def World.setInode (w : World) (ino : Nat) (i : Inode) : World :=
  { w with inode := Function.update w.inode ino i }

/-- A new entry. -/
def World.enter (w : World) (dir : Nat) (name : Name) (ino : Nat) : World :=
  { w with links := w.links.insert (dir, name) ino }

/-- An entry goes. -/
def World.leave (w : World) (dir : Nat) (name : Name) : World :=
  { w with links := w.links.erase (dir, name) }

/-- The permission bits of something new. -/
def World.granted (w : World) (perms : BitVec 16) : BitVec 16 :=
  perms &&& ~~~w.umask &&& tfsSPerms

/-- A new regular file. -/
def World.create (w : World) (dir : Nat) (name : Name) (perms : BitVec 16)
    (ino : Nat) : World :=
  (w.setInode ino ⟨false, w.granted perms, 0, 0⟩).enter dir name ino

/-- A file that is opened is cut off with `TFS_O_TRUNC`. -/
def World.cut (w : World) (ino : Nat) (oMode : Nat) : World :=
  if has oMode tfsOTrunc then w.setInode ino { w.inode ino with size := 0 }
  else w

/-- A new directory, empty. -/
def World.makeDir (w : World) (dir : Nat) (name : Name) (perms : BitVec 16)
    (ino : Nat) : World :=
  (w.setInode ino ⟨true, w.granted perms, 0, dir⟩).enter dir name ino

/-- An empty directory: no entries but `.` and `..`. -/
def World.Empty (w : World) (ino : Nat) : Prop :=
  ∀ e ∈ w.links.keys, e.1 ≠ ino

instance (w : World) (ino : Nat) : Decidable (w.Empty ino) :=
  inferInstanceAs (Decidable (∀ _ ∈ _, _))

def World.done (w : World) (rv : Int) : Int × World :=
  (rv, { w with errno := 0 })

/-- `tfs_rmdir`. -/
def World.rmdir (w : World) (path : List Char) : Int × World :=
  match w.find path with
  | .error e => w.fails e
  | .ok (spot, ino) =>
      if (w.inode ino).isDir = false then w.fails tfsEnotdir
      else if ino = w.root ∨ ino = w.cwd then w.fails tfsEbusy
      else if spot.name = ['.'] ∨ spot.name = ['.', '.'] then w.fails tfsEperm
      else if ¬ w.Empty ino then w.fails tfsEnotempty
      else (w.leave spot.dir spot.name).done 0

/-- `tfs_chdir`. -/
def World.chdir (w : World) (path : List Char) : Int × World :=
  match w.find path with
  | .error e => w.fails e
  | .ok (_, ino) =>
      if (w.inode ino).isDir = false then w.fails tfsEnotdir
      else ({ w with cwd := ino } : World).done 0

/-- `tfs_unlink`. -/
def World.unlink (w : World) (path : List Char) : Int × World :=
  match w.find path with
  | .error e => w.fails e
  | .ok (spot, ino) =>
      if (w.inode ino).isDir then w.fails tfsEperm
      else (w.leave spot.dir spot.name).done 0

/-- `tfs_link`. -/
def World.link (w : World) (path1 path2 : List Char) : Int × World :=
  match w.find path1 with
  | .error e => w.fails e
  | .ok (_, ino) =>
      if (w.inode ino).isDir then w.fails tfsEperm
      else
        match w.locate path2 with
        | .error e => w.fails e
        | .ok ⟨_, _, some _⟩ => w.fails tfsEexist
        | .ok ⟨dir, name, none⟩ =>
            if w.nlink ino ≥ tfsLinkMax then w.fails tfsEmlink
            else (w.enter dir name ino).done 0

/-- `tfs_chmod`. -/
def World.chmod (w : World) (path : List Char) (perm : BitVec 16) :
    Int × World :=
  match w.find path with
  | .error e => w.fails e
  | .ok (_, ino) =>
      (w.setInode ino { w.inode ino with perms := perm &&& tfsSPerms }).done 0

/-- `tfs_access`. -/
def World.access (w : World) (path : List Char) : Int × World :=
  match w.find path with
  | .error e => w.fails e
  | .ok _ => w.done 0

/-- `tfs_close`. -/
def World.close (w : World) (fd : Int) : Int × World :=
  match w.descs.lookup fd with
  | none => w.fails tfsEbadf
  | some _ => World.done { w with descs := w.descs.filter (fun e => e.1 ≠ fd) } 0

def World.setDesc (w : World) (fd : Int) (d : Desc Nat) : World :=
  { w with descs := (fd, d) :: w.descs }

/-- The inode after a write of `nbytes` bytes at a position.  It loses its SUID
    and SGID bits. -/
def Inode.written (i : Inode) (pos nbytes : Nat) : Inode :=
  { i with
    perms := i.perms &&& ~~~(tfsSIsuid ||| tfsSIsgid)
    size := if nbytes = 0 then i.size else max i.size (pos + nbytes) }

theorem written_size (i : Inode) (pos : Nat) {nbytes : Nat} (h : nbytes ≠ 0) :
    (i.written pos nbytes).size = max i.size (pos + nbytes) := if_neg h

/-- `tfs_write`: all bytes, as there is space. -/
def World.write (w : World) (fd : Int) (nbytes : Nat) : Int × World :=
  match w.descs.lookup fd with
  | none => w.fails tfsEbadf
  | some d =>
      if !d.writable then w.fails tfsEbadf
      else
        let i := w.inode d.file
        let pos := if d.append then i.size else d.offset
        ((w.setInode d.file (i.written pos nbytes)).setDesc fd
          { d with offset := pos + nbytes }).done nbytes

/-- `tfs_read`: fewer bytes at the end of the file only. -/
def World.read (w : World) (fd : Int) (nbytes : Nat) : Int × World :=
  match w.descs.lookup fd with
  | none => w.fails tfsEbadf
  | some d =>
      if !d.readable then w.fails tfsEbadf
      else
        let count := min nbytes ((w.inode d.file).size - d.offset)
        (w.setDesc fd { d with offset := d.offset + count }).done count

/-- `tfs_lseek`. -/
def World.lseek (w : World) (fd offset : Int) (whence : Nat) : Int × World :=
  match w.descs.lookup fd with
  | none => w.fails tfsEbadf
  | some d =>
      let target := seekTarget (w.inode d.file).size d offset whence
      if target < 0 then w.fails tfsEinval
      else (w.setDesc fd { d with offset := target.toNat }).done target

/-- The record of an inode.  The pages do not say what the size and the number
    of links of a directory are. -/
structure World.Describes (w : World) (ino : Nat) (st : Stat) : Prop where
  mode : st.st_mode
    = (if (w.inode ino).isDir then tfsIDir else tfsIReg) ||| (w.inode ino).perms
  number : st.st_ino = BitVec.ofNat 32 ino
  nlink : (w.inode ino).isDir = false →
    st.st_nlink = BitVec.ofNat 16 (w.nlink ino)
  size : (w.inode ino).isDir = false →
    st.st_size = BitVec.ofNat 32 (w.inode ino).size

/-- The answers that the manual pages allow.  The descriptor of an opened file
    and the inode of a new one are any that are free.  No call fails for want of
    access (`TFS_EACCES`), of space (`TFS_ENOSPC`, `TFS_EFBIG`) or of
    descriptors (`TFS_EMFILE`, `TFS_ENFILE`), nor by an error of the disk
    (`TFS_EIO`). -/
def manual : Env DirOp DirOp.Res World
  | w, .tfsOpen path oMode cPerm, fd, w' =>
      match w.opening path oMode with
      | .error e => (fd, w') = w.fails e
      | .present ino =>
          0 ≤ fd ∧ w.descs.lookup fd = none ∧
            w' = (w.cut ino oMode).opened ino oMode fd
      | .absent dir name =>
          0 ≤ fd ∧ w.descs.lookup fd = none ∧
            ∃ ino, w.Free ino ∧
              w' = (w.create dir name cPerm ino).opened ino oMode fd
  | w, .tfsMkdir path perms, rv, w' =>
      match w.locate path with
      | .error e => (rv, w') = w.fails e
      | .ok ⟨_, _, some _⟩ => (rv, w') = w.fails tfsEexist
      | .ok ⟨dir, name, none⟩ =>
          ∃ ino, w.Free ino ∧ (rv, w') = (w.makeDir dir name perms ino).done 0
  | w, .tfsStat path, (rv, st), w' =>
      match w.find path with
      | .error e => (rv, w') = w.fails e
      | .ok (_, ino) => (rv, w') = w.done 0 ∧ w.Describes ino st
  | w, .tfsFstat fd, (rv, st), w' =>
      match w.descs.lookup fd with
      | none => (rv, w') = w.fails tfsEbadf
      | some d => (rv, w') = w.done 0 ∧ w.Describes d.file st
  | w, .tfsUmask cmask, old, w' =>
      old = w.umask ∧ w' = { w with umask := cmask &&& permBits, errno := 0 }
  | w, .tfsClose fd, rv, w' => (rv, w') = w.close fd
  | w, .tfsWrite fd nbytes, rv, w' => (rv, w') = w.write fd nbytes
  | w, .tfsRead fd nbytes, rv, w' => (rv, w') = w.read fd nbytes
  | w, .tfsLseek fd offset whence, rv, w' => (rv, w') = w.lseek fd offset whence
  | w, .tfsChmod path perm, rv, w' => (rv, w') = w.chmod path perm
  | w, .tfsUnlink path, rv, w' => (rv, w') = w.unlink path
  | w, .tfsAccess path _, rv, w' => (rv, w') = w.access path
  | w, .tfsRmdir path, rv, w' => (rv, w') = w.rmdir path
  | w, .tfsChdir path, rv, w' => (rv, w') = w.chdir path
  | w, .tfsLink path1 path2, rv, w' => (rv, w') = w.link path1 path2
  | w, .tfsSync, _, w' => w' = { w with errno := 0 }
  | w, .tfsErrno, e, w' => e = w.errno ∧ w' = w
  | w, .procGetPriority, _, w' => w' = w
  | w, .procTime, _, w' => w' = w
  | w, .printf _ _, _, w' => w' = w
  | w, .seriousError _, _, w' => w' = { w with serious := w.serious + 1 }
  | w, .minorError _, _, w' => w' = { w with minor := w.minor + 1 }

/-! ## Path names without a surprise -/

/-- A name that may stand in a directory. -/
structure Plain (name : Name) : Prop where
  nonempty : name ≠ []
  slash : '/' ∉ name
  short : name.length ≤ tfsNameMax
  dot : name ≠ ['.']
  dots : name ≠ ['.', '.']

instance (name : Name) : Decidable (Plain name) :=
  decidable_of_iff
    (name ≠ [] ∧ '/' ∉ name ∧ name.length ≤ tfsNameMax ∧ name ≠ ['.'] ∧
      name ≠ ['.', '.'])
    ⟨fun ⟨h₁, h₂, h₃, h₄, h₅⟩ => ⟨h₁, h₂, h₃, h₄, h₅⟩,
      fun ⟨h₁, h₂, h₃, h₄, h₅⟩ => ⟨h₁, h₂, h₃, h₄, h₅⟩⟩

/-- The last component of a path. -/
def lastName (path : List Char) : Name := (components path).getLast?.getD ['.']

theorem componentsFrom_cons (name : Name) (c : Char) (path : List Char) :
    componentsFrom name (c :: path)
      = if c = '/' then
          (if name = [] then [] else [name]) ++ componentsFrom [] path
        else componentsFrom (name ++ [c]) path := by
  cases name <;> rfl

theorem componentsFrom_nil {name : Name} (h : name ≠ []) :
    componentsFrom name [] = [name] := by
  cases name with
  | nil => exact absurd rfl h
  | cons c name => rfl

/-- A component is read to its end, or to a slash. -/
theorem componentsFrom_append {name : Name} (h : '/' ∉ name) (front : Name)
    (path : List Char) :
    componentsFrom front (name ++ path) = componentsFrom (front ++ name) path := by
  induction name generalizing front with
  | nil => rw [List.nil_append, List.append_nil]
  | cons c name ih =>
      have hc : '/' ≠ c := List.ne_of_not_mem_cons h
      have hname : '/' ∉ name := List.not_mem_of_not_mem_cons h
      rw [List.cons_append, componentsFrom_cons, if_neg (Ne.symm hc), ih hname,
        List.append_assoc, List.singleton_append]

theorem components_plain {name : Name} (h : Plain name) :
    components name = [name] := by
  have := componentsFrom_append h.slash [] []
  rw [List.append_nil, List.nil_append] at this
  rw [components, this, componentsFrom_nil h.nonempty]

theorem components_below {dir name : Name} (hd : Plain dir) (hn : Plain name) :
    components (dir ++ '/' :: name) = [dir, name] := by
  rw [components, componentsFrom_append hd.slash, List.nil_append,
    componentsFrom_cons, if_pos rfl, if_neg hd.nonempty, ← components,
    components_plain hn]
  rfl

theorem head_plain {name : Name} (h : Plain name) (path : List Char) :
    (name ++ path).head? ≠ some '/' := by
  obtain ⟨hne, hslash, -⟩ := h
  cases name with
  | nil => exact absurd rfl hne
  | cons c name =>
      intro hc
      exact hslash (Option.some.inj hc ▸ List.mem_cons_self)

section Locating

variable {w : World} {path : List Char} {name : Name} {spot : Spot}

theorem look_plain {dir : Nat} (hd : (w.inode dir).isDir = true)
    (h : Plain name) : w.look dir name = .ok (w.entry dir name) := by
  have hlen : ¬ name.length > tfsNameMax := Nat.not_lt.mpr h.short
  rw [World.look, if_neg hlen, if_neg (by rw [hd]; decide), if_neg h.dot,
    if_neg h.dots]

/-- The components of a relative path are followed from the current
    directory. -/
theorem locate_relative {front : List Name} (hne : path ≠ [])
    (hlen : path.length ≤ tfsPathMax) (hhead : path.head? ≠ some '/')
    (hc : components path = front ++ [name]) :
    w.locate path
      = match w.walk w.cwd front with
        | .error e => .error e
        | .ok dir =>
            match w.look dir name with
            | .error e => .error e
            | .ok ino => .ok ⟨dir, name, ino⟩ := by
  rw [World.locate, if_neg hne, if_neg (Nat.not_lt.mpr hlen), hc]
  simp only [List.reverse_append, List.reverse_singleton,
    List.singleton_append, List.reverse_reverse, if_neg hhead]

/-- A plain name is one in the current directory. -/
theorem locate_plain (hd : (w.inode w.cwd).isDir = true) (h : Plain name) :
    w.locate name = .ok ⟨w.cwd, name, w.entry w.cwd name⟩ := by
  have hlen : name.length ≤ tfsPathMax := h.short.trans (by decide)
  have hhead := head_plain h []
  rw [List.append_nil] at hhead
  have hc : components name = [] ++ [name] := components_plain h
  rw [locate_relative h.nonempty hlen hhead hc, World.walk]
  simp only [look_plain hd h]

/-- What a plain name names. -/
theorem find_plain (hd : (w.inode w.cwd).isDir = true) (h : Plain name) :
    w.find name = match w.entry w.cwd name with
      | none => .error tfsEnoent
      | some ino => .ok (⟨w.cwd, name, some ino⟩, ino) := by
  rw [World.find, locate_plain hd h]
  dsimp only
  cases w.entry w.cwd name with
  | none => rfl
  | some ino => rfl

theorem locate_dot (hd : (w.inode w.cwd).isDir = true) :
    w.locate ['.'] = .ok ⟨w.cwd, ['.'], some w.cwd⟩ := by
  have hlook : w.look w.cwd ['.'] = .ok (some w.cwd) := by
    rw [World.look, if_neg (by decide), if_neg (by rw [hd]; decide), if_pos rfl]
  have hc : components ['.'] = [] ++ [['.']] := rfl
  rw [locate_relative (List.cons_ne_nil _ _) (by decide) (by decide) hc,
    World.walk]
  simp only [hlook]

/-- A path of two names leads through the entry of the first. -/
theorem locate_two {dir : Name} (hd : (w.inode w.cwd).isDir = true)
    (hdir : Plain dir) (h : Plain name) {ino : Nat}
    (he : w.entry w.cwd dir = some ino) :
    w.locate (dir ++ '/' :: name) = match w.look ino name with
      | .error e => .error e
      | .ok i => .ok ⟨ino, name, i⟩ := by
  have hlen : (dir ++ '/' :: name).length ≤ tfsPathMax := by
    have h₁ := hdir.short
    have h₂ := h.short
    rw [List.length_append, List.length_cons]
    simp only [tfsNameMax, tfsPathMax] at h₁ h₂ ⊢
    omega
  have hc : components (dir ++ '/' :: name) = [dir] ++ [name] :=
    components_below hdir h
  rw [locate_relative
    (List.append_ne_nil_of_right_ne_nil _ (List.cons_ne_nil _ _)) hlen
    (head_plain hdir _) hc]
  simp only [World.walk, look_plain hd hdir, he]

/-- A name in a directory of the current one. -/
theorem locate_below {dir : Name} (hd : (w.inode w.cwd).isDir = true)
    (hdir : Plain dir) (h : Plain name) {ino : Nat}
    (he : w.entry w.cwd dir = some ino) (hi : (w.inode ino).isDir = true) :
    w.locate (dir ++ '/' :: name) = .ok ⟨ino, name, w.entry ino name⟩ := by
  rw [locate_two hd hdir h he]
  simp only [look_plain hi h]

/-- Below something that is no directory there is nothing. -/
theorem locate_below_file {dir : Name} (hd : (w.inode w.cwd).isDir = true)
    (hdir : Plain dir) (h : Plain name) {ino : Nat}
    (he : w.entry w.cwd dir = some ino) (hi : (w.inode ino).isDir = false) :
    w.locate (dir ++ '/' :: name) = .error tfsEnotdir := by
  have hlook : w.look ino name = .error tfsEnotdir := by
    rw [World.look, if_neg (Nat.not_lt.mpr h.short), if_pos hi]
  rw [locate_two hd hdir h he]
  simp only [hlook]

theorem look_entry {dir : Nat} {ino : Option Nat}
    (h : w.look dir name = .ok ino) (hn : ino = none ∨ Plain name) :
    w.entry dir name = ino := by
  rw [World.look] at h
  split at h
  · cases h
  · split at h
    · cases h
    · split at h
      · rename_i hdot
        obtain rfl := Except.ok.inj h
        rcases hn with hn | hn
        · exact absurd hn (Option.some_ne_none _)
        · exact absurd hdot hn.dot
      · split at h
        · rename_i hdots
          obtain rfl := Except.ok.inj h
          rcases hn with hn | hn
          · exact absurd hn (Option.some_ne_none _)
          · exact absurd hdots hn.dots
        · exact Except.ok.inj h

/-- The place has the last name of the path, and what is there is the entry,
    but for `.` and `..`. -/
theorem locate_spec (h : w.locate path = .ok spot) :
    spot.name = lastName path ∧
      (spot.ino = none ∨ Plain spot.name →
        w.entry spot.dir spot.name = spot.ino) := by
  rw [World.locate] at h
  split at h
  · cases h
  · split at h
    · cases h
    · cases hc : (components path).reverse with
      | nil =>
          have hnil : components path = [] := List.reverse_eq_nil_iff.mp hc
          simp only [hc] at h
          cases h
          refine ⟨?_, ?_⟩
          · rw [lastName, hnil]
            rfl
          · rintro (hn | hn)
            · exact absurd hn (Option.some_ne_none _)
            · exact absurd rfl hn.dot
      | cons name front =>
          have hlast : lastName path = name := by
            rw [lastName, ← List.head?_reverse, hc]
            rfl
          simp only [hc] at h
          split at h
          · cases h
          · split at h
            · cases h
            · rename_i hlook
              cases h
              exact ⟨hlast.symm, look_entry hlook⟩

theorem find_spec {ino : Nat} (h : w.find path = .ok (spot, ino)) :
    spot.name = lastName path ∧
      (Plain spot.name → w.entry spot.dir spot.name = some ino) := by
  rw [World.find] at h
  split at h
  · cases h
  · rename_i hlocate
    obtain ⟨hname, hentry⟩ := locate_spec hlocate
    split at h
    · cases h
    · rename_i hino
      cases h
      exact ⟨hname, fun hn => (hentry (Or.inr hn)).trans hino⟩

end Locating

end TfsDirectories
