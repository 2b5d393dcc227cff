import Ttm50.TfsDirectories

/-! # What the calls leave alone

    `Moves` says once what a call may do to the file system: nothing, or one
    entry or one inode changes.  From it follow, for every program,

    * `Sound`: the current directory stays a directory, and no file gets more
      than `TFS_LINK_MAX` links;
    * `Confined`: a program that works under certain names only leaves all
      other entries alone, and the files that have none of these names;
    * `Grown`: without `tfs_unlink`, `tfs_rmdir` and `tfs_link` nothing loses
      its name and nothing that is there gets another. -/

namespace TfsFrames

open InteractivePrograms LinkTables TfsHeader TfsDescriptors
open DirectoryTestDriver TfsDirectories
open FullTestDriver (Stat)

variable {w w' w₀ : World} {o : DirOp}

/-! ## Entries and links -/

theorem entry_enter (w : World) (dir : Nat) (name : Name) (ino e : Nat)
    (m : Name) :
    (w.enter dir name ino).entry e m
      = if e = dir ∧ m = name then some ino else w.entry e m := by
  by_cases h : e = dir ∧ m = name
  · obtain ⟨rfl, rfl⟩ := h
    rw [if_pos ⟨rfl, rfl⟩]
    exact AList.lookup_insert _
  · rw [if_neg h]
    refine AList.lookup_insert_ne ?_
    intro heq
    exact h (Prod.mk.inj heq)

theorem entry_leave (w : World) (dir : Nat) (name : Name) (e : Nat)
    (m : Name) :
    (w.leave dir name).entry e m
      = if e = dir ∧ m = name then none else w.entry e m := by
  by_cases h : e = dir ∧ m = name
  · obtain ⟨rfl, rfl⟩ := h
    rw [if_pos ⟨rfl, rfl⟩]
    exact AList.lookup_erase _ _
  · rw [if_neg h]
    refine AList.lookup_erase_ne ?_
    intro heq
    exact h (Prod.mk.inj heq)

theorem nlink_enter {dir : Nat} {name : Name} (h : w.entry dir name = none)
    (ino j : Nat) :
    (w.enter dir name ino).nlink j = w.nlink j + if ino = j then 1 else 0 :=
  refs_insert (AList.lookup_eq_none.mp h) ino j

theorem nlink_leave {dir ino : Nat} {name : Name}
    (h : w.entry dir name = some ino) (j : Nat) :
    w.nlink j = (w.leave dir name).nlink j + if ino = j then 1 else 0 :=
  refs_erase h j

theorem nlink_leave_other {dir j : Nat} {name : Name}
    (h : w.entry dir name ≠ some j) :
    (w.leave dir name).nlink j = w.nlink j := by
  cases hentry : w.entry dir name with
  | none =>
      have herase : w.links.erase (dir, name) = w.links :=
        erase_of_notMem (AList.lookup_eq_none.mp hentry)
      show refs (w.links.erase (dir, name)) j = refs w.links j
      rw [herase]
  | some ino =>
      have hne : ino ≠ j := fun heq => h (heq ▸ hentry)
      have := nlink_leave hentry j
      rw [if_neg hne] at this
      exact this.symm

theorem nlink_pos {dir ino : Nat} {name : Name}
    (h : w.entry dir name = some ino) : 0 < w.nlink ino := refs_pos h

/-! ## What a call may do -/

/-- The same file system and current directory, and no new open file. -/
structure Same (w w' : World) : Prop where
  links : w'.links = w.links
  inode : w'.inode = w.inode
  root : w'.root = w.root
  cwd : w'.cwd = w.cwd
  descs : ∀ e ∈ w'.descs, ∃ e' ∈ w.descs, e'.2.file = e.2.file

/-- The inode has the last name of the path in some directory. -/
def Named (w : World) (path : List Char) (ino : Nat) : Prop :=
  ∃ dir, Plain (lastName path) → w.entry dir (lastName path) = some ino

inductive Moves (w : World) : DirOp → World → Prop where
  | quiet {o : DirOp} {w' : World} (h : Same w w') : Moves w o w'
  | chdir {path : List Char} {ino : Nat} (hdir : (w.inode ino).isDir = true) :
      Moves w (.tfsChdir path) { w with cwd := ino, errno := 0 }
  | present {path : List Char} {oMode : Nat} {cPerm : BitVec 16} {ino : Nat}
      {fd : Int} (hnamed : Named w path ino) :
      Moves w (.tfsOpen path oMode cPerm) ((w.cut ino oMode).opened ino oMode fd)
  | absent {path : List Char} {oMode : Nat} {cPerm : BitVec 16} {dir ino : Nat}
      {fd : Int} (hfree : w.Free ino)
      (hentry : w.entry dir (lastName path) = none) :
      Moves w (.tfsOpen path oMode cPerm)
        ((w.create dir (lastName path) cPerm ino).opened ino oMode fd)
  | mkdir {path : List Char} {perms : BitVec 16} {dir ino : Nat}
      (hfree : w.Free ino) (hentry : w.entry dir (lastName path) = none) :
      Moves w (.tfsMkdir path perms)
        { w.makeDir dir (lastName path) perms ino with errno := 0 }
  | chmod {path : List Char} {perm : BitVec 16} {ino : Nat}
      (hnamed : Named w path ino) :
      Moves w (.tfsChmod path perm)
        { w.setInode ino { w.inode ino with perms := perm &&& tfsSPerms } with
          errno := 0 }
  | write {fd : Int} {nbytes pos : Nat} {d : Desc Nat}
      (hd : w.descs.lookup fd = some d) :
      Moves w (.tfsWrite fd nbytes)
        { (w.setInode d.file ((w.inode d.file).written pos nbytes)).setDesc fd
            { d with offset := pos + nbytes } with errno := 0 }
  | unlink {path : List Char} {dir : Nat} :
      Moves w (.tfsUnlink path) { w.leave dir (lastName path) with errno := 0 }
  | rmdir {path : List Char} {dir : Nat} :
      Moves w (.tfsRmdir path) { w.leave dir (lastName path) with errno := 0 }
  | link {path1 path2 : List Char} {dir ino : Nat}
      (hnamed : Named w path1 ino) (hfile : (w.inode ino).isDir = false)
      (hfew : w.nlink ino < tfsLinkMax)
      (hentry : w.entry dir (lastName path2) = none) :
      Moves w (.tfsLink path1 path2)
        { w.enter dir (lastName path2) ino with errno := 0 }

theorem same_errno (w : World) (errno : Int) :
    Same w { w with errno := errno } :=
  ⟨rfl, rfl, rfl, rfl, fun e he => ⟨e, he, rfl⟩⟩

/-- A call that fails leaves the file system alone. -/
theorem same_fails {errno rv : Int} (h : (rv, w') = w.fails errno) :
    Same w w' := by
  obtain ⟨-, rfl⟩ := Prod.mk.inj h
  exact same_errno w errno

theorem find_named {path : List Char} {spot : Spot} {ino : Nat}
    (h : w.find path = .ok (spot, ino)) : Named w path ino := by
  obtain ⟨hname, hentry⟩ := find_spec h
  rw [hname] at hentry
  exact ⟨spot.dir, hentry⟩

/-- What is opened is what the path names. -/
theorem opening_present {path : List Char} {oMode ino : Nat}
    (h : w.opening path oMode = .present ino) : Named w path ino := by
  rw [World.opening] at h
  split at h
  · cases h
  · split at h
    · cases h
    · split at h
      · cases h
      · cases h
    · rename_i hlocate
      obtain ⟨hname, hentry⟩ := locate_spec hlocate
      split at h
      · cases h
      · split at h
        · cases h
        · cases h
          dsimp only at hname hentry
          rw [hname] at hentry
          exact ⟨_, fun hp => hentry (Or.inr hp)⟩

/-- What is created has the last name of the path. -/
theorem opening_absent {path : List Char} {oMode dir : Nat} {name : Name}
    (h : w.opening path oMode = .absent dir name) :
    name = lastName path ∧ w.entry dir name = none := by
  rw [World.opening] at h
  split at h
  · cases h
  · split at h
    · cases h
    · rename_i hlocate
      obtain ⟨hname, hentry⟩ := locate_spec hlocate
      split at h
      · cases h
        exact ⟨hname, hentry (Or.inl rfl)⟩
      · cases h
    · split at h
      · cases h
      · split at h
        · cases h
        · cases h

theorem open_moves {path : List Char} {oMode : Nat} {cPerm : BitVec 16}
    {fd : Int} (h : manual w (.tfsOpen path oMode cPerm) fd w') :
    Moves w (.tfsOpen path oMode cPerm) w' := by
  rw [manual] at h
  cases hopen : w.opening path oMode with
  | error e =>
      simp only [hopen] at h
      exact .quiet (same_fails h)
  | present ino =>
      simp only [hopen] at h
      rw [h.2.2]
      exact .present (opening_present hopen)
  | absent dir name =>
      simp only [hopen] at h
      obtain ⟨-, -, ino, hfree, rfl⟩ := h
      obtain ⟨rfl, hentry⟩ := opening_absent hopen
      exact .absent hfree hentry

theorem mkdir_moves {path : List Char} {perms : BitVec 16} {rv : Int}
    (h : manual w (.tfsMkdir path perms) rv w') :
    Moves w (.tfsMkdir path perms) w' := by
  rw [manual] at h
  cases hlocate : w.locate path with
  | error e =>
      simp only [hlocate] at h
      exact .quiet (same_fails h)
  | ok spot =>
      obtain ⟨dir, name, ino⟩ := spot
      cases ino with
      | some ino =>
          simp only [hlocate] at h
          exact .quiet (same_fails h)
      | none =>
          simp only [hlocate] at h
          obtain ⟨ino, hfree, heq⟩ := h
          obtain ⟨-, rfl⟩ := Prod.mk.inj heq
          obtain ⟨hname, hentry⟩ := locate_spec hlocate
          obtain rfl : name = lastName path := hname
          exact .mkdir hfree (hentry (Or.inl rfl))

theorem stat_moves {path : List Char} {r : Int × Stat}
    (h : manual w (.tfsStat path) r w') : Moves w (.tfsStat path) w' := by
  obtain ⟨rv, st⟩ := r
  rw [manual] at h
  cases hfind : w.find path with
  | error e =>
      simp only [hfind] at h
      exact .quiet (same_fails h)
  | ok found =>
      simp only [hfind] at h
      obtain ⟨-, rfl⟩ := Prod.mk.inj h.1
      exact .quiet (same_errno w 0)

theorem fstat_moves {fd : Int} {r : Int × Stat}
    (h : manual w (.tfsFstat fd) r w') : Moves w (.tfsFstat fd) w' := by
  obtain ⟨rv, st⟩ := r
  rw [manual] at h
  cases hd : w.descs.lookup fd with
  | none =>
      simp only [hd] at h
      exact .quiet (same_fails h)
  | some d =>
      simp only [hd] at h
      obtain ⟨-, rfl⟩ := Prod.mk.inj h.1
      exact .quiet (same_errno w 0)

/-- A call on something that is there. -/
theorem found_moves {path : List Char} {rv : Int}
    {call : Spot → Nat → Int × World}
    (h : (rv, w') = match w.find path with
      | .error e => w.fails e
      | .ok (spot, ino) => call spot ino)
    (hcall : ∀ spot ino, w.find path = .ok (spot, ino) →
      (rv, w') = call spot ino → Moves w o w') : Moves w o w' := by
  cases hfind : w.find path with
  | error e =>
      rw [hfind] at h
      exact .quiet (same_fails h)
  | ok found =>
      rw [hfind] at h
      exact hcall found.1 found.2 hfind h

theorem link_moves {path1 path2 : List Char} {rv : Int}
    (h : (rv, w') = w.link path1 path2) : Moves w (.tfsLink path1 path2) w' := by
  refine found_moves h ?_
  intro spot ino hfind h
  by_cases hdir : (w.inode ino).isDir = true
  · rw [if_pos hdir] at h
    exact .quiet (same_fails h)
  · rw [if_neg hdir] at h
    cases hlocate : w.locate path2 with
    | error e =>
        rw [hlocate] at h
        exact .quiet (same_fails h)
    | ok spot₂ =>
        obtain ⟨dir, name, there⟩ := spot₂
        rw [hlocate] at h
        cases there with
        | some j => exact .quiet (same_fails h)
        | none =>
            dsimp only at h
            by_cases hmax : w.nlink ino ≥ tfsLinkMax
            · rw [if_pos hmax] at h
              exact .quiet (same_fails h)
            · rw [if_neg hmax] at h
              obtain ⟨-, rfl⟩ := Prod.mk.inj h
              obtain ⟨hname, hentry⟩ := locate_spec hlocate
              obtain rfl : name = lastName path2 := hname
              exact .link (find_named hfind) (Bool.eq_false_iff.mpr hdir)
                (Nat.lt_of_not_le hmax) (hentry (Or.inl rfl))

theorem rmdir_moves {path : List Char} {rv : Int}
    (h : (rv, w') = w.rmdir path) : Moves w (.tfsRmdir path) w' := by
  refine found_moves h ?_
  intro spot ino hfind h
  split at h
  · exact .quiet (same_fails h)
  · split at h
    · exact .quiet (same_fails h)
    · split at h
      · exact .quiet (same_fails h)
      · split at h
        · exact .quiet (same_fails h)
        · obtain ⟨-, rfl⟩ := Prod.mk.inj h
          rw [(find_spec hfind).1]
          exact .rmdir

theorem desc_mem {descs : List (Int × Desc Nat)} {fd : Int} {d : Desc Nat}
    (h : descs.lookup fd = some d) : ∃ e ∈ descs, e.2 = d := by
  induction descs with
  | nil => exact absurd h.symm (Option.some_ne_none d)
  | cons e descs ih =>
      rw [List.lookup_cons] at h
      split at h
      · exact ⟨e, List.mem_cons_self, Option.some.inj h⟩
      · obtain ⟨e', he', heq⟩ := ih h
        exact ⟨e', List.mem_cons_of_mem _ he', heq⟩

/-- Moving a file pointer opens nothing. -/
theorem same_setDesc {fd : Int} {d : Desc Nat} {offset : Nat}
    (h : w.descs.lookup fd = some d) :
    Same w { w.setDesc fd { d with offset := offset } with errno := 0 } where
  links := rfl
  inode := rfl
  root := rfl
  cwd := rfl
  descs := by
    intro e he
    rcases List.mem_cons.mp he with rfl | he
    · obtain ⟨e', he', rfl⟩ := desc_mem h
      exact ⟨e', he', rfl⟩
    · exact ⟨e, he, rfl⟩

/-- A call on a descriptor. -/
theorem desc_moves {fd rv : Int} {call : Desc Nat → Int × World}
    (h : (rv, w') = match w.descs.lookup fd with
      | none => w.fails tfsEbadf
      | some d => call d)
    (hcall : ∀ d, w.descs.lookup fd = some d →
      (rv, w') = call d → Moves w o w') : Moves w o w' := by
  cases hd : w.descs.lookup fd with
  | none =>
      rw [hd] at h
      exact .quiet (same_fails h)
  | some d =>
      rw [hd] at h
      exact hcall d hd h

/-- **WHAT A CALL MAY DO** to the file system. -/
theorem manual_moves {r : o.Res} (h : manual w o r w') : Moves w o w' := by
  cases o with
  | tfsOpen path oMode cPerm => exact open_moves h
  | tfsMkdir path perms => exact mkdir_moves h
  | tfsStat path => exact stat_moves h
  | tfsFstat fd => exact fstat_moves h
  | tfsLink path1 path2 => exact link_moves h
  | tfsRmdir path => exact rmdir_moves h
  | tfsChdir path =>
      refine found_moves h ?_
      intro spot ino hfind h
      split at h
      · exact .quiet (same_fails h)
      · rename_i hdir
        obtain ⟨-, rfl⟩ := Prod.mk.inj h
        exact .chdir (Bool.ne_false_iff.mp hdir)
  | tfsUnlink path =>
      refine found_moves h ?_
      intro spot ino hfind h
      split at h
      · exact .quiet (same_fails h)
      · obtain ⟨-, rfl⟩ := Prod.mk.inj h
        rw [(find_spec hfind).1]
        exact .unlink
  | tfsChmod path perm =>
      refine found_moves h ?_
      intro spot ino hfind h
      obtain ⟨-, rfl⟩ := Prod.mk.inj h
      exact .chmod (find_named hfind)
  | tfsAccess path aperm =>
      rw [manual, World.access] at h
      split at h
      · exact .quiet (same_fails h)
      · obtain ⟨-, rfl⟩ := Prod.mk.inj h
        exact .quiet (same_errno w 0)
  | tfsClose fd =>
      refine desc_moves h ?_
      intro d hd h
      obtain ⟨-, rfl⟩ := Prod.mk.inj h
      refine .quiet ⟨rfl, rfl, rfl, rfl, ?_⟩
      intro e he
      exact ⟨e, List.mem_of_mem_filter he, rfl⟩
  | tfsWrite fd nbytes =>
      refine desc_moves h ?_
      intro d hd h
      split at h
      · exact .quiet (same_fails h)
      · obtain ⟨-, rfl⟩ := Prod.mk.inj h
        exact .write hd
  | tfsRead fd nbytes =>
      refine desc_moves h ?_
      intro d hd h
      split at h
      · exact .quiet (same_fails h)
      · obtain ⟨-, rfl⟩ := Prod.mk.inj h
        exact .quiet (same_setDesc hd)
  | tfsLseek fd offset whence =>
      refine desc_moves h ?_
      intro d hd h
      dsimp only at h
      split at h
      · exact .quiet (same_fails h)
      · obtain ⟨-, rfl⟩ := Prod.mk.inj h
        exact .quiet (same_setDesc hd)
  | tfsUmask cmask =>
      obtain ⟨-, rfl⟩ := h
      exact .quiet ⟨rfl, rfl, rfl, rfl, fun e he => ⟨e, he, rfl⟩⟩
  | tfsSync => exact .quiet (h ▸ same_errno w 0)
  | tfsErrno => exact .quiet (h.2 ▸ same_errno w w.errno)
  | procGetPriority | procTime | printf => exact .quiet (h ▸ same_errno w w.errno)
  | seriousError | minorError =>
      exact .quiet (h ▸ ⟨rfl, rfl, rfl, rfl, fun e he => ⟨e, he, rfl⟩⟩)

/-! ## One inode changes -/

theorem setInode_isDir {ino : Nat} {x : Inode}
    (h : x.isDir = (w.inode ino).isDir) (j : Nat) :
    ((w.setInode ino x).inode j).isDir = (w.inode j).isDir := by
  show (Function.update w.inode ino x j).isDir = _
  by_cases hj : j = ino
  · rw [hj, Function.update_self, h]
  · rw [Function.update_of_ne hj]

theorem setInode_other {ino j : Nat} (x : Inode) (h : j ≠ ino) :
    (w.setInode ino x).inode j = w.inode j := by
  show Function.update w.inode ino x j = w.inode j
  rw [Function.update_of_ne h]

theorem cut_isDir (w : World) (ino oMode j : Nat) :
    ((w.cut ino oMode).inode j).isDir = (w.inode j).isDir := by
  rw [World.cut]
  split
  · have hkind : ({ w.inode ino with size := 0 } : Inode).isDir
        = (w.inode ino).isDir := rfl
    exact setInode_isDir hkind j
  · rfl

theorem cut_other {ino j : Nat} (oMode : Nat) (h : j ≠ ino) :
    (w.cut ino oMode).inode j = w.inode j := by
  rw [World.cut]
  split
  · exact setInode_other _ h
  · rfl

/-- Cutting a file off changes nothing else. -/
theorem cut_rest (w : World) (ino oMode : Nat) :
    (w.cut ino oMode).links = w.links ∧ (w.cut ino oMode).root = w.root ∧
      (w.cut ino oMode).cwd = w.cwd ∧ (w.cut ino oMode).descs = w.descs := by
  rw [World.cut]
  split
  · exact ⟨rfl, rfl, rfl, rfl⟩
  · exact ⟨rfl, rfl, rfl, rfl⟩

/-! ## Soundness -/

/-- The current directory is one, and no file has too many links. -/
structure Sound (w : World) : Prop where
  cwd : (w.inode w.cwd).isDir = true
  few : ∀ i, (w.inode i).isDir = false → w.nlink i ≤ tfsLinkMax

/-- Fewer links, and inodes of the same kinds. -/
theorem sound_of_fewer (h : Sound w)
    (hkind : ∀ i, (w'.inode i).isDir = (w.inode i).isDir)
    (hcwd : w'.cwd = w.cwd) (hlinks : ∀ i, w'.nlink i ≤ w.nlink i) :
    Sound w' where
  cwd := by
    rw [hkind, hcwd]
    exact h.cwd
  few := by
    intro i hi
    rw [hkind] at hi
    exact (hlinks i).trans (h.few i hi)

/-- A new inode with one link. -/
theorem sound_of_new {ino dir : Nat} {name : Name} {x : Inode} (h : Sound w)
    (hfree : w.Free ino) (hentry : w.entry dir name = none) :
    Sound ((w.setInode ino x).enter dir name ino) where
  cwd := by
    show ((w.setInode ino x).inode w.cwd).isDir = true
    rw [setInode_other x (Ne.symm hfree.cwd)]
    exact h.cwd
  few := by
    intro i hi
    have hlink : ((w.setInode ino x).enter dir name ino).nlink i
        = w.nlink i + if ino = i then 1 else 0 :=
      nlink_enter (w := w.setInode ino x) hentry ino i
    rw [hlink]
    by_cases hne : ino = i
    · rw [if_pos hne, ← hne, hfree.nlink]
      decide
    · rw [if_neg hne]
      refine h.few i ?_
      rw [← setInode_other x (Ne.symm hne)]
      exact hi

theorem leave_links (w : World) (dir : Nat) (name : Name) (i : Nat) :
    (w.leave dir name).nlink i ≤ w.nlink i := by
  by_cases h : w.entry dir name = some i
  · rw [nlink_leave h i]
    exact Nat.le_add_right _ _
  · rw [nlink_leave_other h]

/-- **SOUND** file systems stay so. -/
theorem sound_moves (h : Sound w) (hm : Moves w o w') : Sound w' := by
  cases hm with
  | quiet hs =>
      refine sound_of_fewer h ?_ hs.cwd ?_
      · intro i
        rw [hs.inode]
      · intro i
        rw [World.nlink, hs.links]
        exact Nat.le_refl _
  | chdir hdir => exact ⟨hdir, h.few⟩
  | @present path oMode _ ino fd _ =>
      obtain ⟨hlinks, -, hcwd, -⟩ := cut_rest w ino oMode
      refine sound_of_fewer h (fun i => cut_isDir w ino oMode i) hcwd ?_
      intro i
      show refs (w.cut ino oMode).links i ≤ _
      rw [hlinks]
      exact Nat.le_refl _
  | @absent path _ cPerm dir ino fd hfree hentry =>
      have hnew : Sound (w.create dir (lastName path) cPerm ino) :=
        sound_of_new h hfree hentry
      exact ⟨hnew.cwd, hnew.few⟩
  | @mkdir path perms dir ino hfree hentry =>
      have hnew : Sound (w.makeDir dir (lastName path) perms ino) :=
        sound_of_new h hfree hentry
      exact ⟨hnew.cwd, hnew.few⟩
  | @chmod _ perm ino _ =>
      have hkind : ({ w.inode ino with perms := perm &&& tfsSPerms } : Inode).isDir
          = (w.inode ino).isDir := rfl
      exact sound_of_fewer h (setInode_isDir hkind) rfl (fun i => Nat.le_refl _)
  | @write _ nbytes pos d _ =>
      have hkind : ((w.inode d.file).written pos nbytes).isDir
          = (w.inode d.file).isDir := rfl
      exact sound_of_fewer h (setInode_isDir hkind) rfl (fun i => Nat.le_refl _)
  | unlink =>
      exact sound_of_fewer h (fun _ => rfl) rfl (leave_links w _ _)
  | rmdir =>
      exact sound_of_fewer h (fun _ => rfl) rfl (leave_links w _ _)
  | @link _ path2 dir ino _ hfile hfew hentry =>
      refine ⟨h.cwd, ?_⟩
      intro i hi
      show (w.enter dir (lastName path2) ino).nlink i ≤ _
      rw [nlink_enter hentry]
      by_cases hne : ino = i
      · rw [if_pos hne, ← hne]
        exact hfew
      · rw [if_neg hne]
        exact h.few i hi

/-! ## Programs that work under certain names -/

/-- The call works under the names `S` only, in whatever directory. -/
def Within (S : Name → Prop) : DirOp → Prop
  | .tfsOpen path _ _ => S (lastName path) ∧ Plain (lastName path)
  | .tfsMkdir path _ => S (lastName path)
  | .tfsChmod path _ => S (lastName path) ∧ Plain (lastName path)
  | .tfsUnlink path => S (lastName path)
  | .tfsRmdir path => S (lastName path)
  | .tfsLink path1 path2 =>
      (S (lastName path1) ∧ Plain (lastName path1)) ∧ S (lastName path2)
  | _ => True

theorem within_mono {S S' : Name → Prop} (hS : ∀ n, S n → S' n)
    (ho : Within S o) : Within S' o := by
  cases o with
  | tfsOpen | tfsChmod => exact ⟨hS _ ho.1, ho.2⟩
  | tfsMkdir | tfsUnlink | tfsRmdir => exact hS _ ho
  | tfsLink => exact ⟨⟨hS _ ho.1.1, ho.1.2⟩, hS _ ho.2⟩
  | _ => trivial

/-- The inode is in use, but not under the names `S` and not open. -/
structure Spared (S : Name → Prop) (w : World) (i : Nat) : Prop where
  live : i = w.root ∨ w.nlink i ≠ 0
  names : ∀ dir name, S name → w.entry dir name ≠ some i
  closed : ∀ e ∈ w.descs, e.2.file ≠ i

/-- All entries with other names are as before and name the same kind of
    inode, and the inodes that have none of the names are as before. -/
structure Confined (S : Name → Prop) (w₀ w : World) : Prop where
  root : w.root = w₀.root
  top : (w.inode w.root).isDir = (w₀.inode w₀.root).isDir
  entry : ∀ dir name, ¬ S name → w.entry dir name = w₀.entry dir name
  kind : ∀ dir name i, ¬ S name → w₀.entry dir name = some i →
    (w.inode i).isDir = (w₀.inode i).isDir
  spared : ∀ i, Spared S w₀ i →
    Spared S w i ∧ w.inode i = w₀.inode i ∧ w.nlink i = w₀.nlink i

variable {S : Name → Prop}

theorem Confined.refl (S : Name → Prop) (w : World) : Confined S w w :=
  ⟨rfl, rfl, fun _ _ _ => rfl, fun _ _ _ _ _ => rfl, fun _ h => ⟨h, rfl, rfl⟩⟩

theorem Confined.trans (h : Confined S w₀ w) (h' : Confined S w w') :
    Confined S w₀ w' where
  root := h'.root.trans h.root
  top := h'.top.trans h.top
  entry := fun dir name hn => (h'.entry dir name hn).trans (h.entry dir name hn)
  kind := by
    intro dir name i hn hi
    rw [← h.entry dir name hn] at hi
    rw [h'.kind dir name i hn hi]
    rw [h.entry dir name hn] at hi
    exact h.kind dir name i hn hi
  spared := by
    intro i hi
    obtain ⟨hi, hinode, hnlink⟩ := h.spared i hi
    obtain ⟨hi, hinode', hnlink'⟩ := h'.spared i hi
    exact ⟨hi, hinode'.trans hinode, hnlink'.trans hnlink⟩

/-- More names than are needed. -/
theorem Confined.mono {S' : Name → Prop} (hS : ∀ n, S n → S' n)
    (h : Confined S w₀ w) : Confined S' w₀ w where
  root := h.root
  top := h.top
  entry := fun dir name hn => h.entry dir name (fun hs => hn (hS _ hs))
  kind := fun dir name i hn hi => h.kind dir name i (fun hs => hn (hS _ hs)) hi
  spared := by
    intro i hi
    have hless : Spared S w₀ i :=
      ⟨hi.live, fun dir name hn => hi.names dir name (hS _ hn), hi.closed⟩
    obtain ⟨hi', hinode, hnlink⟩ := h.spared i hless
    refine ⟨⟨hi'.live, ?_, hi'.closed⟩, hinode, hnlink⟩
    intro dir name hn
    by_cases hs : S name
    · exact hi'.names dir name hs
    · rw [h.entry dir name hs]
      exact hi.names dir name hn

/-- The entries stay, and the inodes that are spared. -/
theorem confined_of_inodes (hlinks : w'.links = w.links)
    (hroot : w'.root = w.root)
    (hkind : ∀ i, (w'.inode i).isDir = (w.inode i).isDir)
    (hinode : ∀ i, Spared S w i → w'.inode i = w.inode i)
    (hdescs : ∀ i, Spared S w i → ∀ e ∈ w'.descs, e.2.file ≠ i) :
    Confined S w w' := by
  have hentry : ∀ dir name, w'.entry dir name = w.entry dir name := by
    intro dir name
    rw [World.entry, hlinks]
    rfl
  have hnlink : ∀ i, w'.nlink i = w.nlink i := by
    intro i
    rw [World.nlink, hlinks]
    rfl
  have htop : (w'.inode w'.root).isDir = (w.inode w.root).isDir := by
    rw [hroot, hkind]
  refine ⟨hroot, htop, fun dir name _ => hentry dir name,
    fun _ _ i _ _ => hkind i, ?_⟩
  intro i hi
  refine ⟨⟨?_, ?_, hdescs i hi⟩, hinode i hi, hnlink i⟩
  · rw [hroot, hnlink]
    exact hi.live
  · intro dir name hn
    rw [hentry]
    exact hi.names dir name hn

/-- Two names of which one is in `S`. -/
theorem not_at {d dir : Nat} {m name : Name} (hm : ¬ S m) (hn : S name) :
    ¬ (d = dir ∧ m = name) := by
  rintro ⟨-, rfl⟩
  exact hm hn

/-- A free inode gets one of the names. -/
theorem confined_of_new {ino dir : Nat} {name : Name} {x : Inode}
    (hfree : w.Free ino) (hentry : w.entry dir name = none) (hn : S name)
    (hinode : w'.inode = (w.setInode ino x).inode)
    (hlinks : w'.links = (w.enter dir name ino).links)
    (hroot : w'.root = w.root)
    (hdescs : ∀ e ∈ w'.descs, e.2.file = ino ∨ e ∈ w.descs) :
    Confined S w w' := by
  have hentries : ∀ d m, w'.entry d m
      = if d = dir ∧ m = name then some ino else w.entry d m := by
    intro d m
    rw [← entry_enter, World.entry, hlinks]
    rfl
  have hother : ∀ i, i ≠ ino → w'.inode i = w.inode i := by
    intro i hi
    rw [hinode, setInode_other x hi]
  have htop : (w'.inode w'.root).isDir = (w.inode w.root).isDir := by
    rw [hroot, hother _ (Ne.symm hfree.root)]
  refine ⟨hroot, htop, ?_, ?_, ?_⟩
  · intro d m hm
    rw [hentries, if_neg (not_at hm hn)]
  · intro d m i _ hi
    have hpos := nlink_pos hi
    have hne : i ≠ ino := by
      intro h
      rw [h, hfree.nlink] at hpos
      exact Nat.lt_irrefl 0 hpos
    rw [hother i hne]
  · intro i hi
    have hne : i ≠ ino := by
      intro h
      rcases hi.live with hr | hl
      · exact hfree.root (h ▸ hr)
      · exact hl (h ▸ hfree.nlink)
    have hnlink : w'.nlink i = w.nlink i := by
      have h := nlink_enter hentry ino i
      rw [if_neg (Ne.symm hne)] at h
      rw [World.nlink, hlinks]
      exact h
    refine ⟨⟨?_, ?_, ?_⟩, hother i hne, hnlink⟩
    · rw [hroot, hnlink]
      exact hi.live
    · intro d m hm
      rw [hentries]
      split
      · intro h
        exact hne (Option.some.inj h).symm
      · exact hi.names d m hm
    · intro e he
      rcases hdescs e he with h | h
      · rw [h]
        exact Ne.symm hne
      · exact hi.closed e h

/-- One of the names goes. -/
theorem confined_of_leave {dir : Nat} {name : Name} (errno : Int)
    (hn : S name) : Confined S w { w.leave dir name with errno := errno } := by
  refine ⟨rfl, rfl, ?_, fun _ _ _ _ _ => rfl, ?_⟩
  · intro d m hm
    show (w.leave dir name).entry d m = _
    rw [entry_leave, if_neg (not_at hm hn)]
  · intro i hi
    have hnlink : (w.leave dir name).nlink i = w.nlink i :=
      nlink_leave_other (hi.names dir name hn)
    refine ⟨⟨?_, ?_, hi.closed⟩, rfl, hnlink⟩
    · show i = w.root ∨ (w.leave dir name).nlink i ≠ 0
      rw [hnlink]
      exact hi.live
    · intro d m hm
      show (w.leave dir name).entry d m ≠ some i
      rw [entry_leave]
      split
      · exact fun h => Option.some_ne_none i h.symm
      · exact hi.names d m hm

/-- An inode with one of the names gets another. -/
theorem confined_of_link {dir ino : Nat} {name : Name} (errno : Int)
    (hn : S name) (hentry : w.entry dir name = none)
    (hino : ¬ Spared S w ino) :
    Confined S w { w.enter dir name ino with errno := errno } := by
  refine ⟨rfl, rfl, ?_, fun _ _ _ _ _ => rfl, ?_⟩
  · intro d m hm
    show (w.enter dir name ino).entry d m = _
    rw [entry_enter, if_neg (not_at hm hn)]
  · intro i hi
    have hne : ino ≠ i := fun h => hino (h ▸ hi)
    have hnlink : (w.enter dir name ino).nlink i = w.nlink i := by
      rw [nlink_enter hentry, if_neg hne]
      rfl
    refine ⟨⟨?_, ?_, hi.closed⟩, rfl, hnlink⟩
    · show i = w.root ∨ (w.enter dir name ino).nlink i ≠ 0
      rw [hnlink]
      exact hi.live
    · intro d m hm
      show (w.enter dir name ino).entry d m ≠ some i
      rw [entry_enter]
      split
      · exact fun h => hne (Option.some.inj h)
      · exact hi.names d m hm

theorem not_spared {path : List Char} {ino : Nat}
    (hn : S (lastName path) ∧ Plain (lastName path)) (h : Named w path ino) :
    ¬ Spared S w ino := by
  obtain ⟨dir, hentry⟩ := h
  intro hs
  exact hs.names dir _ hn.1 (hentry hn.2)

/-- The step lemma of confinement. -/
theorem confined_step (ho : Within S o) (hm : Moves w o w') :
    Confined S w w' := by
  cases hm with
  | quiet hs =>
      refine confined_of_inodes hs.links hs.root (fun i => by rw [hs.inode])
        (fun i _ => by rw [hs.inode]) ?_
      intro i hi e he
      obtain ⟨e', he', heq⟩ := hs.descs e he
      rw [← heq]
      exact hi.closed e' he'
  | chdir _ =>
      exact confined_of_inodes rfl rfl (fun _ => rfl) (fun _ _ => rfl)
        (fun i hi => hi.closed)
  | @present path oMode _ ino fd hnamed =>
      obtain ⟨hlinks, hroot, -, hdescs⟩ := cut_rest w ino oMode
      have hne : ∀ i, Spared S w i → i ≠ ino :=
        fun i hi h => not_spared ho hnamed (h ▸ hi)
      refine confined_of_inodes hlinks hroot (fun i => cut_isDir w ino oMode i)
        (fun i hi => cut_other oMode (hne i hi)) ?_
      intro i hi e he
      rcases List.mem_cons.mp he with rfl | he
      · exact Ne.symm (hne i hi)
      · rw [hdescs] at he
        exact hi.closed e he
  | absent hfree hentry =>
      refine confined_of_new hfree hentry ho.1 rfl rfl rfl ?_
      intro e he
      rcases List.mem_cons.mp he with rfl | he
      · exact Or.inl rfl
      · exact Or.inr he
  | mkdir hfree hentry =>
      exact confined_of_new hfree hentry ho rfl rfl rfl (fun e he => Or.inr he)
  | @chmod _ perm ino hnamed =>
      have hkind : ({ w.inode ino with perms := perm &&& tfsSPerms } : Inode).isDir
          = (w.inode ino).isDir := rfl
      exact confined_of_inodes rfl rfl (setInode_isDir hkind)
        (fun i hi => setInode_other _
          (fun h => not_spared ho hnamed (h ▸ hi)))
        (fun i hi => hi.closed)
  | @write fd nbytes pos d hd =>
      obtain ⟨e, he, rfl⟩ := desc_mem hd
      have hkind : ((w.inode e.2.file).written pos nbytes).isDir
          = (w.inode e.2.file).isDir := rfl
      refine confined_of_inodes rfl rfl (setInode_isDir hkind)
        (fun i hi => setInode_other _ (Ne.symm (hi.closed e he))) ?_
      intro i hi e' he'
      rcases List.mem_cons.mp he' with rfl | he'
      · exact hi.closed e he
      · exact hi.closed e' he'
  | unlink => exact confined_of_leave 0 ho
  | rmdir => exact confined_of_leave 0 ho
  | link hnamed _ _ hentry =>
      exact confined_of_link 0 ho.2 hentry (not_spared ho.1 hnamed)

/-- **CONFINED**: every run of a program that works under certain names. -/
theorem wp_confined {A : Type} {p : Dir A}
    (hp : Only (Within S) (fun _ => True) p) (w : World) :
    wp manual (fun _ _ => True) (fun _ => Confined S w)
      (fun _ => Confined S w) p w :=
  wp_only (fun _ _ _ _ => trivial)
    (fun _ _ _ _ h ho hr => h.trans (confined_step ho (manual_moves hr)))
    (fun _ _ h _ => h) hp (Confined.refl S w)

/-! ## Programs that remove nothing -/

/-- The call removes no name and gives none to something that has one. -/
def Adds : DirOp → Prop
  | .tfsUnlink _ => False
  | .tfsRmdir _ => False
  | .tfsLink _ _ => False
  | _ => True

/-- What had a name has kept it, its kind and its number of links. -/
structure Grown (w₀ w : World) : Prop where
  entry : ∀ dir name i, w₀.entry dir name = some i → w.entry dir name = some i
  kind : ∀ i, w₀.nlink i ≠ 0 → (w.inode i).isDir = (w₀.inode i).isDir
  nlink : ∀ i, w₀.nlink i ≠ 0 → w.nlink i = w₀.nlink i

theorem Grown.refl (w : World) : Grown w w :=
  ⟨fun _ _ _ h => h, fun _ _ => rfl, fun _ _ => rfl⟩

theorem Grown.trans (h : Grown w₀ w) (h' : Grown w w') : Grown w₀ w' where
  entry := fun dir name i hi => h'.entry dir name i (h.entry dir name i hi)
  kind := by
    intro i hi
    rw [h'.kind i (by rw [h.nlink i hi]; exact hi), h.kind i hi]
  nlink := by
    intro i hi
    rw [h'.nlink i (by rw [h.nlink i hi]; exact hi), h.nlink i hi]

/-- The entries stay, and the kinds of the inodes. -/
theorem grown_of_inodes (hlinks : w'.links = w.links)
    (hkind : ∀ i, (w'.inode i).isDir = (w.inode i).isDir) : Grown w w' where
  entry := by
    intro dir name i hi
    rw [World.entry, hlinks]
    exact hi
  kind := fun i _ => hkind i
  nlink := by
    intro i _
    rw [World.nlink, hlinks]
    rfl

theorem grown_of_new {ino dir : Nat} {name : Name} {x : Inode}
    (hfree : w.Free ino) (hentry : w.entry dir name = none)
    (hinode : w'.inode = (w.setInode ino x).inode)
    (hlinks : w'.links = (w.enter dir name ino).links) : Grown w w' where
  entry := by
    intro d m i hi
    have hne : ¬ (d = dir ∧ m = name) := by
      rintro ⟨rfl, rfl⟩
      exact absurd (hentry.symm.trans hi) (Option.some_ne_none i).symm
    have h := entry_enter w dir name ino d m
    rw [if_neg hne] at h
    rw [World.entry, hlinks]
    exact h.trans hi
  kind := by
    intro i hi
    have hne : i ≠ ino := fun h => hi (h ▸ hfree.nlink)
    rw [hinode, setInode_other x hne]
  nlink := by
    intro i hi
    have hne : ino ≠ i := fun h => hi (h ▸ hfree.nlink)
    have h := nlink_enter hentry ino i
    rw [if_neg hne] at h
    rw [World.nlink, hlinks]
    exact h

/-- The step lemma of growing. -/
theorem grown_step (ho : Adds o) (hm : Moves w o w') : Grown w w' := by
  cases hm with
  | quiet hs => exact grown_of_inodes hs.links (fun i => by rw [hs.inode])
  | chdir _ => exact grown_of_inodes rfl (fun _ => rfl)
  | @present path oMode _ ino fd _ =>
      exact grown_of_inodes (cut_rest w ino oMode).1
        (fun i => cut_isDir w ino oMode i)
  | absent hfree hentry => exact grown_of_new hfree hentry rfl rfl
  | mkdir hfree hentry => exact grown_of_new hfree hentry rfl rfl
  | @chmod _ perm ino _ =>
      have hkind : ({ w.inode ino with perms := perm &&& tfsSPerms } : Inode).isDir
          = (w.inode ino).isDir := rfl
      exact grown_of_inodes rfl (setInode_isDir hkind)
  | @write _ nbytes pos d _ =>
      have hkind : ((w.inode d.file).written pos nbytes).isDir
          = (w.inode d.file).isDir := rfl
      exact grown_of_inodes rfl (setInode_isDir hkind)
  | unlink => exact absurd ho id
  | rmdir => exact absurd ho id
  | link => exact absurd ho id

/-- Every run of a program that removes nothing. -/
theorem wp_grown {A : Type} {p : Dir A}
    (hp : Only Adds (fun _ => True) p) (w : World) :
    wp manual (fun _ _ => True) (fun _ => Grown w) (fun _ => Grown w) p w :=
  wp_only (fun _ _ _ _ => trivial)
    (fun _ _ _ _ h ho hr => h.trans (grown_step ho (manual_moves hr)))
    (fun _ _ h _ => h) hp (Grown.refl w)

end TfsFrames
