import Ttm50.TfsFrames

/-! # One file at its place

    A test works with one file at a time, under a name in the current
    directory or in a directory below.  `At` says what the place holds and
    what the logical process is; `Using` adds a descriptor.  There is one rule
    for each call.  What the calls leave alone is not said here, it follows
    from the names (`wp_confined`). -/

namespace TfsPlaces

open InteractivePrograms LinkTables TfsHeader TfsDescriptors
open DirectoryTestDriver TfsDirectories TfsFrames
open FullTestDriver (Stat)

/-! ## Places -/

/-- The logical process, the count of serious errors, and all entries. -/
structure Session where
  cwd : Nat
  umask : BitVec 16
  serious : Nat
  links : Links (Nat × Name) Nat

def session (w : World) : Session := ⟨w.cwd, w.umask, w.serious, w.links⟩

/-- A path leads to a name in the current directory, or in one below it. -/
inductive Route (w : World) : List Char → Nat → Name → Prop where
  | here {name : Name} (hn : Plain name) : Route w name w.cwd name
  | below {d name : Name} {dir : Nat} (hd : Plain d) (hn : Plain name)
      (hne : d ≠ name) (hentry : w.entry w.cwd d = some dir)
      (hdir : (w.inode dir).isDir = true) :
      Route w (d ++ '/' :: name) dir name

variable {w w' : World} {path : List Char} {dir : Nat} {name : Name}
  {s : Session} {x : Option Inode} {E : Unit → World → Prop}

theorem Route.plain (h : Route w path dir name) : Plain name := by
  cases h with
  | here hn => exact hn
  | below _ hn => exact hn

theorem Route.last (h : Route w path dir name) : lastName path = name := by
  cases h with
  | here hn =>
      rw [lastName, components_plain hn]
      rfl
  | below hd hn =>
      rw [lastName, components_below hd hn]
      rfl

/-- The path works under its name. -/
theorem Route.within (h : Route w path dir name) :
    lastName path = name ∧ Plain (lastName path) := by
  refine ⟨h.last, ?_⟩
  rw [h.last]
  exact h.plain

theorem Route.locate (h : Route w path dir name) (hw : Sound w) :
    w.locate path = .ok ⟨dir, name, w.entry dir name⟩ := by
  cases h with
  | here hn => exact locate_plain hw.cwd hn
  | below hd hn _ hentry hdir => exact locate_below hw.cwd hd hn hentry hdir

/-- Work under the last name does not bend the path. -/
theorem Route.confined (h : Route w path dir name) (hcwd : w'.cwd = w.cwd)
    (hc : Confined (fun n => n = name) w w') : Route w' path dir name := by
  cases h with
  | here hn =>
      rw [← hcwd]
      exact .here hn
  | below hd hn hne hentry hdir =>
      refine .below hd hn hne ?_ ?_
      · rw [hcwd, hc.entry _ _ hne]
        exact hentry
      · rw [hc.kind _ _ _ hne hentry]
        exact hdir

/-- What a place holds. -/
def holds (w : World) (dir : Nat) (name : Name) : Option Inode :=
  (w.entry dir name).map w.inode

/-- A sound file system, the logical process, and what the place holds. -/
structure At (path : List Char) (dir : Nat) (name : Name) (s : Session)
    (x : Option Inode) (w : World) : Prop where
  sound : Sound w
  session : session w = s
  route : Route w path dir name
  holds : holds w dir name = x

/-- The place holds a file that is open for reading and writing. -/
structure Using (path : List Char) (dir : Nat) (name : Name) (s : Session)
    (x : Inode) (fd : Int) (offset : Nat) (w : World) : Prop where
  place : At path dir name s (some x) w
  file : x.isDir = false
  desc : ∃ ino, w.entry dir name = some ino ∧
    w.descs.lookup fd = some ⟨ino, true, true, false, offset⟩

/-- A name in the current directory is a place. -/
theorem at_here (hw : Sound w) (hs : session w = s) (hn : Plain name)
    (hx : TfsPlaces.holds w s.cwd name = x) : At name s.cwd name s x w := by
  subst hs
  exact ⟨hw, rfl, .here hn, hx⟩

/-- The step lemma of a place. -/
theorem At.step {o : DirOp} {r : o.Res} {s' : Session} {x' : Option Inode}
    (h : At path dir name s x w) (hr : manual w o r w')
    (ho : Within (fun n => n = name) o) (hcwd : w'.cwd = w.cwd)
    (hs : TfsPlaces.session w' = s') (hx : TfsPlaces.holds w' dir name = x') :
    At path dir name s' x' w' := by
  have hm := manual_moves hr
  exact ⟨sound_moves h.sound hm, hs,
    h.route.confined hcwd (confined_step ho hm), hx⟩

theorem holds_none (h : holds w dir name = none) : w.entry dir name = none :=
  Option.map_eq_none_iff.mp h

theorem holds_some {i : Inode} (h : holds w dir name = some i) :
    ∃ ino, w.entry dir name = some ino ∧ w.inode ino = i :=
  Option.map_eq_some_iff.mp h

theorem At.find_none (h : At path dir name s none w) :
    w.find path = .error tfsEnoent := by
  rw [World.find, h.route.locate h.sound, holds_none h.holds]

theorem At.find_some {ino : Nat} (h : At path dir name s x w)
    (he : w.entry dir name = some ino) :
    w.find path = .ok (⟨dir, name, some ino⟩, ino) := by
  rw [World.find, h.route.locate h.sound, he]

/-- The place is in a directory. -/
theorem At.isDir (h : At path dir name s x w) : (w.inode dir).isDir = true := by
  obtain ⟨hsound, -, hroute, -⟩ := h
  cases hroute with
  | here _ => exact hsound.cwd
  | below _ _ _ _ hdir => exact hdir

theorem At.links (h : At path dir name s x w) : w.links = s.links :=
  congrArg Session.links h.session

theorem At.entry (h : At path dir name s x w) (e : Nat) (m : Name) :
    w.entry e m = s.links.lookup (e, m) := by
  rw [World.entry, h.links]

theorem At.inode {i : Inode} {ino : Nat}
    (h : At path dir name s (some i) w)
    (hino : s.links.lookup (dir, name) = some ino) : w.inode ino = i := by
  have hholds := h.holds
  rw [TfsPlaces.holds, h.entry, hino] at hholds
  exact Option.some.inj hholds

theorem At.nlink (h : At path dir name s x w) (f : Nat) :
    w.nlink f = refs s.links f := by
  rw [World.nlink, h.links]

/-! ## Opening -/

/-- The mode opens for reading and writing, at the beginning. -/
structure Updating (oMode : Nat) : Prop where
  access : oMode &&& 3 ≠ 0
  reads : has oMode tfsORdonly = true
  writes : has oMode tfsOWronly = true
  excl : has oMode tfsOExcl = false
  append : has oMode tfsOAppend = false

/-- What a file is after it is opened. -/
def opened (umask : BitVec 16) (oMode : Nat) (cPerm : BitVec 16) :
    Option Inode → Inode
  | none => ⟨false, cPerm &&& ~~~umask &&& tfsSPerms, 0, 0⟩
  | some i => if has oMode tfsOTrunc then { i with size := 0 } else i

theorem opening_valid {oMode : Nat} (hm : Updating oMode) :
    ¬ (oMode &&& 3 = 0 ∨ (has oMode tfsOTrunc ∧ ¬ has oMode tfsOWronly)) := by
  rintro (h | ⟨-, h⟩)
  · exact hm.access h
  · exact h hm.writes

theorem lookup_opened {oMode ino : Nat} {fd : Int} (hm : Updating oMode) :
    (w.opened ino oMode fd).descs.lookup fd
      = some ⟨ino, true, true, false, 0⟩ := by
  show List.lookup fd ((fd, _) :: w.descs) = _
  rw [List.lookup_cons_self, openedDesc, hm.reads, hm.writes, hm.append]

theorem cut_session (w : World) (ino oMode : Nat) :
    session (w.cut ino oMode) = session w := by
  rw [World.cut]
  split <;> rfl

theorem cut_self (w : World) (ino oMode : Nat) {umask cPerm : BitVec 16} :
    (w.cut ino oMode).inode ino
      = opened umask oMode cPerm (some (w.inode ino)) := by
  rw [World.cut, opened]
  by_cases ht : has oMode tfsOTrunc
  · rw [if_pos ht, if_pos ht]
    exact Function.update_self ..
  · rw [if_neg ht, if_neg ht]

/-- A file is opened, or created. -/
theorem wp_open {oMode : Nat} {cPerm : BitVec 16} {Q : Int → World → Prop}
    (hm : Updating oMode) (hc : x = none → has oMode tfsOCreat = true)
    (hx : ∀ i, x = some i → i.isDir = false) (h : At path dir name s x w)
    (hQ : ∀ fd t w', 0 ≤ fd → Linked s.links (dir, name) t →
      Using path dir name { s with links := t } (opened s.umask oMode cPerm x)
        fd 0 w' → Q fd w') :
    wp manual (fun _ _ => True) Q E (tfsOpen path oMode cPerm) w := by
  refine ⟨trivial, ?_⟩
  intro fd w' hr
  have hlocate := h.route.locate h.sound
  have hr₀ := hr
  rw [manual] at hr
  cases x with
  | none =>
      have hentry := holds_none h.holds
      have hopening : w.opening path oMode = .absent dir name := by
        rw [World.opening, if_neg (opening_valid hm), hlocate, hentry]
        exact if_pos (hc rfl)
      simp only [hopening] at hr
      obtain ⟨hfd, -, ino, hfree, rfl⟩ := hr
      have hnew : ((w.create dir name cPerm ino).opened ino oMode fd).entry dir name
          = some ino := by
        show ((w.setInode ino _).enter dir name ino).entry dir name = _
        rw [entry_enter, if_pos ⟨rfl, rfl⟩]
      have hlinked : Linked s.links (dir, name)
          (s.links.insert (dir, name) ino) := by
        refine .new ?_ ?_
        · rw [← AList.lookup_eq_none, ← h.entry]
          exact hentry
        · rw [← h.nlink]
          exact hfree.nlink
      refine hQ fd _ _ hfd hlinked ⟨?_, rfl, ino, hnew, ?_⟩
      · refine h.step hr₀ h.route.within rfl ?_ ?_
        · rw [← h.session]
          rfl
        rw [holds, hnew, ← h.session]
        show some (Function.update w.inode ino _ ino) = _
        rw [Function.update_self]
        rfl
      · exact lookup_opened hm
  | some i =>
      obtain ⟨ino, hentry, rfl⟩ := holds_some h.holds
      have hfile := hx _ rfl
      have hopening : w.opening path oMode = .present ino := by
        rw [World.opening, if_neg (opening_valid hm), hlocate, hentry]
        dsimp only
        rw [if_neg (by simp [hm.excl]), if_neg (by simp [hfile])]
      simp only [hopening] at hr
      obtain ⟨hfd, -, rfl⟩ := hr
      have hsame : ((w.cut ino oMode).opened ino oMode fd).entry dir name
          = some ino := by
        show (w.cut ino oMode).links.lookup (dir, name) = _
        rw [(cut_rest w ino oMode).1]
        exact hentry
      have hlinked : Linked s.links (dir, name) s.links := by
        refine .old ?_
        rw [← AList.lookup_isSome, ← h.entry, hentry]
        rfl
      refine hQ fd _ _ hfd hlinked ⟨?_, ?_, ino, hsame, ?_⟩
      · refine h.step hr₀ h.route.within ?_ ?_ ?_
        · exact (cut_rest w ino oMode).2.2.1
        · rw [← h.session]
          exact cut_session w ino oMode
        · rw [holds, hsame]
          exact congrArg some (cut_self w ino oMode)
      · rw [← cut_self]
        show ((w.cut ino oMode).inode ino).isDir = false
        rw [cut_isDir]
        exact hfile
      · exact lookup_opened hm

/-- A directory is not opened for writing. -/
theorem wp_open_dir {oMode : Nat} {cPerm : BitVec 16} {Q : Int → World → Prop}
    {i : Inode} (hm : Updating oMode) (hdir : i.isDir = true)
    (h : At path dir name s (some i) w)
    (hQ : ∀ w', At path dir name s (some i) w' → Q (-1) w') :
    wp manual (fun _ _ => True) Q E (tfsOpen path oMode cPerm) w := by
  refine ⟨trivial, ?_⟩
  intro fd w' hr
  have hr₀ := hr
  obtain ⟨ino, hentry, rfl⟩ := holds_some h.holds
  have hopening : w.opening path oMode = .error tfsEisdir := by
    rw [World.opening, if_neg (opening_valid hm), h.route.locate h.sound, hentry]
    dsimp only
    rw [if_neg (by simp [hm.excl]), if_pos ⟨hdir, hm.writes⟩]
  rw [manual] at hr
  simp only [hopening] at hr
  obtain ⟨rfl, rfl⟩ := Prod.mk.inj hr
  exact hQ _ (h.step hr₀ h.route.within rfl h.session h.holds)

/-! ## Calls on a descriptor -/

section Descriptor

variable {i : Inode} {fd : Int} {offset : Nat} {Q : Int → World → Prop}

theorem wp_close (h : Using path dir name s i fd offset w)
    (hQ : ∀ w', At path dir name s (some i) w' → Q 0 w') :
    wp manual (fun _ _ => True) Q E (tfsClose fd) w := by
  refine ⟨trivial, ?_⟩
  intro rv w' hr
  have hr₀ := hr
  obtain ⟨ino, -, hdesc⟩ := h.desc
  rw [manual, World.close, hdesc] at hr
  obtain ⟨rfl, rfl⟩ := Prod.mk.inj hr
  exact hQ _ (h.place.step hr₀ trivial rfl h.place.session h.place.holds)

theorem lookup_setDesc (d : Desc Nat) :
    (w.setDesc fd d).descs.lookup fd = some d := List.lookup_cons_self ..

/-- All bytes are written. -/
theorem wp_write {nbytes : Nat} (h : Using path dir name s i fd offset w)
    (hQ : ∀ w', Using path dir name s (i.written offset nbytes) fd
      (offset + nbytes) w' → Q nbytes w') :
    wp manual (fun _ _ => True) Q E (tfsWrite fd nbytes) w := by
  refine ⟨trivial, ?_⟩
  intro rv w' hr
  have hr₀ := hr
  obtain ⟨ino, hentry, hdesc⟩ := h.desc
  have hi : w.inode ino = i :=
    h.place.inode ((h.place.entry _ _).symm.trans hentry)
  rw [manual, World.write, hdesc] at hr
  simp only [Bool.not_true, Bool.false_eq_true, if_false, hi] at hr
  obtain ⟨rfl, rfl⟩ := Prod.mk.inj hr
  refine hQ _ ⟨?_, h.file, ino, hentry, lookup_setDesc _⟩
  refine h.place.step hr₀ trivial rfl h.place.session ?_
  show ((w.entry dir name).map (Function.update w.inode ino _)) = _
  rw [hentry]
  exact congrArg some (Function.update_self ..)

/-- The bytes up to the end of the file are read. -/
theorem wp_read {nbytes : Nat} (h : Using path dir name s i fd offset w)
    (hQ : ∀ w', Using path dir name s i fd
      (offset + min nbytes (i.size - offset)) w' →
      Q (min nbytes (i.size - offset) : Nat) w') :
    wp manual (fun _ _ => True) Q E (tfsRead fd nbytes) w := by
  refine ⟨trivial, ?_⟩
  intro rv w' hr
  have hr₀ := hr
  obtain ⟨ino, hentry, hdesc⟩ := h.desc
  have hi : w.inode ino = i :=
    h.place.inode ((h.place.entry _ _).symm.trans hentry)
  rw [manual, World.read, hdesc] at hr
  simp only [Bool.not_true, Bool.false_eq_true, if_false, hi] at hr
  obtain ⟨rfl, rfl⟩ := Prod.mk.inj hr
  refine hQ _ ⟨?_, h.file, ino, hentry, lookup_setDesc _⟩
  exact h.place.step hr₀ trivial rfl h.place.session h.place.holds

/-- Records of a file that is open. -/
theorem wp_stat_using {Q : Int × Stat → World → Prop}
    (h : Using path dir name s i fd offset w)
    (hQ : ∀ st w', Using path dir name s i fd offset w' → Q (0, st) w') :
    wp manual (fun _ _ => True) Q E (tfsStat path) w := by
  refine ⟨trivial, ?_⟩
  rintro ⟨rv, st⟩ w' hr
  have hr₀ := hr
  obtain ⟨ino, hentry, hdesc⟩ := h.desc
  rw [manual] at hr
  simp only [h.place.find_some hentry] at hr
  obtain ⟨rfl, rfl⟩ := Prod.mk.inj hr.1
  exact hQ st _ ⟨h.place.step hr₀ trivial rfl h.place.session h.place.holds,
    h.file, ino, hentry, hdesc⟩

theorem wp_fstat {Q : Int × Stat → World → Prop}
    (h : Using path dir name s i fd offset w)
    (hQ : ∀ st w', Using path dir name s i fd offset w' → Q (0, st) w') :
    wp manual (fun _ _ => True) Q E (tfsFstat fd) w := by
  refine ⟨trivial, ?_⟩
  rintro ⟨rv, st⟩ w' hr
  have hr₀ := hr
  obtain ⟨ino, hentry, hdesc⟩ := h.desc
  rw [manual] at hr
  simp only [hdesc] at hr
  obtain ⟨rfl, rfl⟩ := Prod.mk.inj hr.1
  exact hQ st _ ⟨h.place.step hr₀ trivial rfl h.place.session h.place.holds,
    h.file, ino, hentry, hdesc⟩

/-- Back to the beginning. -/
theorem wp_rewind (h : Using path dir name s i fd offset w)
    (hQ : ∀ w', Using path dir name s i fd 0 w' → Q 0 w') :
    wp manual (fun _ _ => True) Q E (tfsLseek fd 0 tfsSeekSet) w := by
  refine ⟨trivial, ?_⟩
  intro rv w' hr
  have hr₀ := hr
  obtain ⟨ino, hentry, hdesc⟩ := h.desc
  have htarget : ∀ size (d : Desc Nat), seekTarget size d 0 tfsSeekSet = 0 :=
    fun _ _ => if_pos rfl
  rw [manual, World.lseek, hdesc] at hr
  simp only [htarget] at hr
  obtain ⟨rfl, rfl⟩ := Prod.mk.inj hr
  refine hQ _ ⟨?_, h.file, ino, hentry, lookup_setDesc _⟩
  exact h.place.step hr₀ trivial rfl h.place.session h.place.holds

end Descriptor

/-! ## Calls on the name -/

section Name

variable {i : Inode}

/-- The record of a file. -/
theorem wp_stat {Q : Int × Stat → World → Prop} (hfile : i.isDir = false)
    (h : At path dir name s (some i) w)
    (hQ : ∀ st ino w', At path dir name s (some i) w' →
      w'.entry dir name = some ino → st.st_mode = tfsIReg ||| i.perms →
      st.st_size = BitVec.ofNat 32 i.size →
      st.st_nlink = BitVec.ofNat 16 (w'.nlink ino) → Q (0, st) w') :
    wp manual (fun _ _ => True) Q E (tfsStat path) w := by
  refine ⟨trivial, ?_⟩
  rintro ⟨rv, st⟩ w' hr
  have hr₀ := hr
  obtain ⟨ino, hentry, rfl⟩ := holds_some h.holds
  rw [manual] at hr
  simp only [h.find_some hentry] at hr
  obtain ⟨heq, hst⟩ := hr
  obtain ⟨rfl, rfl⟩ := Prod.mk.inj heq
  refine hQ st ino _ (h.step hr₀ trivial rfl h.session h.holds) hentry ?_
    (hst.size hfile) (hst.nlink hfile)
  rw [hst.mode, if_neg (by rw [hfile]; decide)]

theorem wp_chmod {Q : Int → World → Prop} {perm : BitVec 16}
    (h : At path dir name s (some i) w)
    (hQ : ∀ w', At path dir name s (some { i with perms := perm &&& tfsSPerms }) w' →
      Q 0 w') :
    wp manual (fun _ _ => True) Q E (tfsChmod path perm) w := by
  refine ⟨trivial, ?_⟩
  intro rv w' hr
  have hr₀ := hr
  obtain ⟨ino, hentry, rfl⟩ := holds_some h.holds
  rw [manual, World.chmod, h.find_some hentry] at hr
  obtain ⟨rfl, rfl⟩ := Prod.mk.inj hr
  refine hQ _ (h.step hr₀ h.route.within rfl h.session ?_)
  show ((w.entry dir name).map (Function.update w.inode ino _)) = _
  rw [hentry]
  exact congrArg some (Function.update_self ..)

/-- A file loses its name. -/
theorem wp_unlink {Q : Int → World → Prop} (hfile : i.isDir = false)
    (h : At path dir name s (some i) w)
    (hQ : ∀ w', At path dir name
      { s with links := s.links.erase (dir, name) } none w' → Q 0 w') :
    wp manual (fun _ _ => True) Q E (tfsUnlink path) w := by
  refine ⟨trivial, ?_⟩
  intro rv w' hr
  have hr₀ := hr
  obtain ⟨ino, hentry, rfl⟩ := holds_some h.holds
  rw [manual, World.unlink, h.find_some hentry] at hr
  simp only [hfile, Bool.false_eq_true, if_false] at hr
  obtain ⟨rfl, rfl⟩ := Prod.mk.inj hr
  refine hQ _ (h.step hr₀ h.route.last rfl ?_ ?_)
  · rw [← h.session]
    rfl
  show ((w.leave dir name).entry dir name).map _ = none
  rw [entry_leave, if_pos ⟨rfl, rfl⟩]
  rfl

/-- There is nothing to unlink, or a directory. -/
theorem wp_unlink_refused {Q : Int → World → Prop}
    (hx : ∀ i, x = some i → i.isDir = true) (h : At path dir name s x w)
    (hQ : ∀ w', At path dir name s x w' → Q (-1) w') :
    wp manual (fun _ _ => True) Q E (tfsUnlink path) w := by
  refine ⟨trivial, ?_⟩
  intro rv w' hr
  have hr₀ := hr
  rw [manual, World.unlink] at hr
  cases x with
  | none =>
      rw [h.find_none] at hr
      obtain ⟨rfl, rfl⟩ := Prod.mk.inj hr
      exact hQ _ (h.step hr₀ h.route.last rfl h.session h.holds)
  | some i =>
      obtain ⟨ino, hentry, rfl⟩ := holds_some h.holds
      rw [h.find_some hentry] at hr
      simp only [hx _ rfl, if_true] at hr
      obtain ⟨rfl, rfl⟩ := Prod.mk.inj hr
      exact hQ _ (h.step hr₀ h.route.last rfl h.session h.holds)

/-- Whether there was a file or not, afterwards there is none. -/
theorem wp_unlink_any {Q : Int → World → Prop}
    (hx : ∀ i, x = some i → i.isDir = false) (h : At path dir name s x w)
    (hQ : ∀ rv w', At path dir name
      { s with links := s.links.erase (dir, name) } none w' → Q rv w') :
    wp manual (fun _ _ => True) Q E (tfsUnlink path) w := by
  cases x with
  | none =>
      have hrest : s.links.erase (dir, name) = s.links := by
        refine erase_of_notMem ?_
        rw [← AList.lookup_eq_none, ← h.entry]
        exact holds_none h.holds
      rw [hrest] at hQ
      exact wp_unlink_refused (fun i hi => absurd hi.symm (Option.some_ne_none i))
        h (hQ (-1))
  | some i => exact wp_unlink (hx i rfl) h (hQ 0)

/-- A file gets a second name, in the current directory. -/
theorem wp_link {Q : Int → World → Prop} {name₂ : Name} {ino : Nat}
    (hname : Plain name) (hname₂ : Plain name₂) (hne : name ≠ name₂)
    (hfile : i.isDir = false) (h : At name s.cwd name s (some i) w)
    (hino : s.links.lookup (s.cwd, name) = some ino)
    (hnone : s.links.lookup (s.cwd, name₂) = none)
    (hfew : refs s.links ino < tfsLinkMax)
    (hQ : ∀ w', At name s.cwd name
      { s with links := s.links.insert (s.cwd, name₂) ino } (some i) w' →
      Q 0 w') :
    wp manual (fun _ _ => True) Q E (tfsLink name name₂) w := by
  refine ⟨trivial, ?_⟩
  intro rv w' hr
  have hm := manual_moves hr
  have hcwd : w.cwd = s.cwd := congrArg Session.cwd h.session
  have hentry : w.entry s.cwd name = some ino := (h.entry _ _).trans hino
  have hentry₂ : w.entry s.cwd name₂ = none := (h.entry _ _).trans hnone
  have hi := h.inode hino
  have hlocate : w.locate name₂ = .ok ⟨s.cwd, name₂, none⟩ := by
    rw [locate_plain h.sound.cwd hname₂, hcwd, hentry₂]
  rw [manual, World.link, h.find_some hentry] at hr
  simp only [hi, hfile, Bool.false_eq_true, if_false, hlocate] at hr
  rw [if_neg (by rw [h.nlink]; omega)] at hr
  obtain ⟨rfl, rfl⟩ := Prod.mk.inj hr
  have hsession : session { w.enter s.cwd name₂ ino with errno := 0 }
      = { s with links := s.links.insert (s.cwd, name₂) ino } := by
    rw [← h.session]
    rfl
  have hholds : holds { w.enter s.cwd name₂ ino with errno := 0 } s.cwd name
      = some i := by
    show ((w.enter s.cwd name₂ ino).entry s.cwd name).map w.inode = _
    rw [entry_enter, if_neg (fun h => hne h.2)]
    exact h.holds
  exact hQ _ (at_here (sound_moves h.sound hm) hsession hname hholds)

/-- The second name of a file goes. -/
theorem wp_unlink_second {Q : Int → World → Prop} {name₂ : Name} {ino : Nat}
    (hname : Plain name) (hname₂ : Plain name₂) (hne : name ≠ name₂)
    (hfile : i.isDir = false) (h : At name s.cwd name s (some i) w)
    (hino : s.links.lookup (s.cwd, name) = some ino)
    (hino₂ : s.links.lookup (s.cwd, name₂) = some ino)
    (hQ : ∀ w', At name s.cwd name
      { s with links := s.links.erase (s.cwd, name₂) } (some i) w' → Q 0 w') :
    wp manual (fun _ _ => True) Q E (tfsUnlink name₂) w := by
  refine ⟨trivial, ?_⟩
  intro rv w' hr
  have hm := manual_moves hr
  have hcwd : w.cwd = s.cwd := congrArg Session.cwd h.session
  have hentry₂ : w.entry s.cwd name₂ = some ino := (h.entry _ _).trans hino₂
  have hi := h.inode hino
  have hfind : w.find name₂ = .ok (⟨s.cwd, name₂, some ino⟩, ino) := by
    rw [find_plain h.sound.cwd hname₂, hcwd, hentry₂]
  rw [manual, World.unlink, hfind] at hr
  simp only [hi, hfile, Bool.false_eq_true, if_false] at hr
  obtain ⟨rfl, rfl⟩ := Prod.mk.inj hr
  have hsession : session { w.leave s.cwd name₂ with errno := 0 }
      = { s with links := s.links.erase (s.cwd, name₂) } := by
    rw [← h.session]
    rfl
  have hholds : holds { w.leave s.cwd name₂ with errno := 0 } s.cwd name
      = some i := by
    show ((w.leave s.cwd name₂).entry s.cwd name).map w.inode = _
    rw [entry_leave, if_neg (fun h => hne h.2)]
    exact h.holds
  exact hQ _ (at_here (sound_moves h.sound hm) hsession hname hholds)

/-- The second name is taken, or the file has too many. -/
theorem wp_link_refused {Q : Int → World → Prop} {name₂ : Name} {ino : Nat}
    (hname₂ : Plain name₂) (hfile : i.isDir = false)
    (h : At name s.cwd name s (some i) w)
    (hino : s.links.lookup (s.cwd, name) = some ino)
    (hno : s.links.lookup (s.cwd, name₂) ≠ none ∨
      tfsLinkMax ≤ refs s.links ino)
    (hQ : ∀ w', At name s.cwd name s (some i) w' → Q (-1) w') :
    wp manual (fun _ _ => True) Q E (tfsLink name name₂) w := by
  refine ⟨trivial, ?_⟩
  intro rv w' hr
  have hm := manual_moves hr
  have hcwd : w.cwd = s.cwd := congrArg Session.cwd h.session
  have hentry : w.entry s.cwd name = some ino := (h.entry _ _).trans hino
  have hi := h.inode hino
  have hlocate : w.locate name₂ = .ok ⟨s.cwd, name₂, w.entry s.cwd name₂⟩ := by
    rw [locate_plain h.sound.cwd hname₂, hcwd]
  rw [manual, World.link, h.find_some hentry] at hr
  simp only [hi, hfile, Bool.false_eq_true, if_false, hlocate] at hr
  have hfails : ∃ e, (rv, w') = w.fails e := by
    rw [h.entry] at hr
    cases hthere : s.links.lookup (s.cwd, name₂) with
    | some j =>
        rw [hthere] at hr
        exact ⟨_, hr⟩
    | none =>
        rw [hthere] at hr
        have hmany : w.nlink ino ≥ tfsLinkMax := by
          rw [h.nlink]
          exact hno.resolve_left (fun hne => hne hthere)
        dsimp only at hr
        rw [if_pos hmany] at hr
        exact ⟨_, hr⟩
  obtain ⟨e, heq⟩ := hfails
  obtain ⟨rfl, rfl⟩ := Prod.mk.inj heq
  exact hQ _ (at_here (sound_moves h.sound hm) h.session h.route.plain h.holds)

/-- There is nothing. -/
theorem wp_access_none {Q : Int → World → Prop}
    (h : At path dir name s none w)
    (hQ : ∀ w', At path dir name s none w' → Q (-1) w') :
    wp manual (fun _ _ => True) Q E (tfsAccess path tfsFOk) w := by
  refine ⟨trivial, ?_⟩
  intro rv w' hr
  have hr₀ := hr
  rw [manual, World.access, h.find_none] at hr
  obtain ⟨rfl, rfl⟩ := Prod.mk.inj hr
  exact hQ _ (h.step hr₀ trivial rfl h.session h.holds)

/-- The new mask. -/
theorem wp_umask {Q : BitVec 16 → World → Prop} {cmask : BitVec 16}
    (h : At path dir name s x w)
    (hQ : ∀ w', At path dir name { s with umask := cmask &&& permBits } x w' →
      w'.errno = 0 → Q s.umask w') :
    wp manual (fun _ _ => True) Q E (tfsUmask cmask) w := by
  refine ⟨trivial, ?_⟩
  intro old w' hr
  have hr₀ := hr
  obtain ⟨rfl, rfl⟩ := hr
  have hold : w.umask = s.umask := congrArg Session.umask h.session
  rw [hold]
  refine hQ _ (h.step hr₀ trivial rfl ?_ h.holds) rfl
  rw [← h.session]
  rfl

end Name

/-! ## Calls without effect on files -/

theorem wp_errno {Q : Int → World → Prop} (hQ : Q w.errno w) :
    wp manual (fun _ _ => True) Q E tfsErrno w := by
  refine ⟨trivial, ?_⟩
  rintro e w' ⟨rfl, rfl⟩
  exact hQ

theorem wp_printf {Q : Unit → World → Prop} {format : String}
    {args : List CPrintf.Value} (hQ : Q () w) :
    wp manual (fun _ _ => True) Q E (printf format args) w := by
  refine ⟨trivial, ?_⟩
  rintro r w' rfl
  exact hQ

theorem wp_procTime {Q : Int → World → Prop} (hQ : ∀ t, Q t w) :
    wp manual (fun _ _ => True) Q E procTime w := by
  refine ⟨trivial, ?_⟩
  rintro t w' rfl
  exact hQ t

theorem wp_procGetPriority {Q : Int → World → Prop} (hQ : ∀ t, Q t w) :
    wp manual (fun _ _ => True) Q E procGetPriority w := by
  refine ⟨trivial, ?_⟩
  rintro t w' rfl
  exact hQ t

/-- A sync is a step that changes no file. -/
theorem wp_sync {Q : Unit → World → Prop} (h : At path dir name s x w)
    (hQ : ∀ w', At path dir name s x w' → Q () w') :
    wp manual (fun _ _ => True) Q E tfsSync w := by
  refine ⟨trivial, ?_⟩
  intro r w' hr
  have hr₀ := hr
  obtain rfl := hr
  exact hQ _ (h.step hr₀ trivial rfl h.session h.holds)

theorem wp_sync_using {Q : Unit → World → Prop} {i : Inode} {fd : Int}
    {offset : Nat} (h : Using path dir name s i fd offset w)
    (hQ : ∀ w', Using path dir name s i fd offset w' → Q () w') :
    wp manual (fun _ _ => True) Q E tfsSync w := by
  refine ⟨trivial, ?_⟩
  intro r w' hr
  have hr₀ := hr
  obtain rfl := hr
  exact hQ _ ⟨h.place.step hr₀ trivial rfl h.place.session h.place.holds, h.file,
    h.desc⟩

theorem wp_seriousError {Q : Unit → World → Prop} {msg : String}
    (hQ : Q () { w with serious := w.serious + 1 }) :
    wp manual (fun _ _ => True) Q E (seriousError msg) w := by
  refine ⟨trivial, ?_⟩
  rintro r w' rfl
  exact hQ

theorem wp_seriousIf {Q : Unit → World → Prop} {condition : Bool}
    {msg : String} (hc : condition = false) (hQ : Q () w) :
    wp manual (fun _ _ => True) Q E (seriousIf condition msg) w := by
  rw [seriousIf, if_neg (by rw [hc]; decide)]
  exact hQ

end TfsPlaces
