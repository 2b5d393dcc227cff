import Ttm50.DirectoryTestFiles

/-! # The tests of directories

    `test_create`, `test_dir` and `test_rmdir` of `FULLTEST.C` against the
    manual pages: where each of them finds no serious error, and what it leaves
    alone. -/

namespace DirectoryTestDirectories

open InteractivePrograms LinkTables TestSequences CPrintf TfsHeader
open TfsDescriptors DirectoryTestDriver TfsDirectories TfsFrames TfsPlaces
open DirectoryTestFiles
open FullTestDriver (Stat)

variable {w w' : World} {dir : Nat} {name : Name} {S : Name → Prop}
  {s : Session} {x : Option Inode} {E : Unit → World → Prop}

/-! ## Names -/

/-- The names that `test_rmdir` tries. -/
def tmpName (k : Nat) : Name := tmpdir ++ List.replicate k 'A'

theorem tmpName_succ (k : Nat) : tmpName k ++ ['A'] = tmpName (k + 1) := by
  rw [tmpName, tmpName, List.append_assoc, ← List.replicate_succ']

theorem tmpName_length (k : Nat) : (tmpName k).length = 6 + k := by
  rw [tmpName, List.length_append, List.length_replicate]
  rfl

theorem tmpName_slash (k : Nat) : '/' ∉ tmpName k := by
  rw [tmpName, List.mem_append, List.mem_replicate]
  rintro (h | h)
  · exact absurd h (by decide)
  · exact absurd h.2 (by decide)

theorem tmpName_take (k : Nat) : (tmpName k).take 2 = ['t', 'm'] := rfl

/-- A name that is too long for `..` and not too long for a directory. -/
theorem plain_of_length (hslash : '/' ∉ name) (hlong : 2 < name.length)
    (hshort : name.length ≤ tfsNameMax) : Plain name := by
  refine ⟨?_, hslash, hshort, ?_, ?_⟩
  · rintro rfl
    exact absurd hlong (by decide)
  · rintro rfl
    exact absurd hlong (by decide)
  · rintro rfl
    exact absurd hlong (by decide)

theorem tmpName_plain {k : Nat} (hk : k < 22) : Plain (tmpName k) := by
  have hlen := tmpName_length k
  refine plain_of_length (tmpName_slash k) (by omega) ?_
  rw [hlen, tfsNameMax]
  omega

theorem tmpName_ne (k : Nat) : tmpName k ≠ [] := by
  intro h
  have hlen := tmpName_length k
  rw [h, List.length_nil] at hlen
  omega

theorem tmpName_components (k : Nat) : components (tmpName k) = [tmpName k] := by
  have h := componentsFrom_append (tmpName_slash k) [] []
  rw [List.append_nil, List.nil_append] at h
  rw [components, h, componentsFrom_nil (tmpName_ne k)]

theorem tmpName_last (k : Nat) : lastName (tmpName k) = tmpName k := by
  rw [lastName, tmpName_components]
  rfl

theorem fileName_eq (i : Nat) :
    fileName i = ['f', 'i', 'l', 'e', '.'] ++ Nat.toDigits 10 i := by
  have hformat : fileName i = ['f', 'i', 'l', 'e', '.'] ++
      (signed .plain (i : Int) ++ []) := rfl
  rw [hformat, List.append_nil, signed_plain (by omega), Int.natAbs_natCast]

theorem fileName_take (i : Nat) : (fileName i).take 2 = ['f', 'i'] := by
  rw [fileName_eq]
  rfl

theorem fileName_inj {i j : Nat} (h : fileName i = fileName j) : i = j := by
  rw [fileName_eq, fileName_eq] at h
  exact digits_inj (List.append_cancel_left h)

theorem fileName_plain {i : Nat} (hi : i < 300) : Plain (fileName i) := by
  have hdigits : (Nat.toDigits 10 i).length ≤ 3 :=
    (Nat.length_toDigits_le_iff (by decide) (by decide)).mpr (by omega)
  refine plain_of_length ?_ ?_ ?_
  · rw [fileName_eq, List.mem_append]
    rintro (h | h)
    · exact absurd h (by decide)
    · have := Nat.isDigit_of_mem_toDigits (by decide) (by decide) h
      exact absurd this (by decide)
  · rw [fileName_eq, List.length_append]
    exact Nat.lt_of_lt_of_le (by decide) (Nat.le_add_right _ _)
  · rw [fileName_eq, List.length_append, tfsNameMax]
    exact (Nat.add_le_add_left hdigits _).trans (by decide)

/-! ## `test_rmdir` -/

/-- One of the names that `test_rmdir` tries is free. -/
def TmpFree (w : World) (dir : Nat) : Prop :=
  ∃ k < 22, w.entry dir (tmpName k) = none

/-- The name that does not fit a directory. -/
theorem locate_long (w : World) :
    w.locate (tmpName 22) = .error tfsEnametoolong := by
  have hc : components (tmpName 22) = [] ++ [tmpName 22] :=
    tmpName_components 22
  have hshort : (tmpName 22).length ≤ tfsPathMax := by
    rw [tmpName_length]
    decide
  have hlook : w.look w.cwd (tmpName 22) = .error tfsEnametoolong := by
    rw [World.look, if_pos]
    rw [tmpName_length]
    decide
  rw [locate_relative (tmpName_ne 22) hshort (by decide) hc, World.walk]
  simp only [hlook]

theorem wp_mkdir_long {Q : Int → World → Prop} {perms : BitVec 16}
    (hQ : ∀ errno, Q (-1) { w with errno := errno }) :
    wp manual (fun _ _ => True) Q E (tfsMkdir (tmpName 22) perms) w := by
  refine ⟨trivial, ?_⟩
  intro rv w' hr
  rw [manual, locate_long] at hr
  obtain ⟨rfl, rfl⟩ := Prod.mk.inj hr
  exact hQ _

theorem access_name (hw : Sound w) (hn : Plain name) :
    w.access name = match w.entry w.cwd name with
      | none => w.fails tfsEnoent
      | some _ => w.done 0 := by
  rw [World.access, find_plain hw.cwd hn]
  cases w.entry w.cwd name with
  | none => rfl
  | some ino => rfl

theorem wp_access {Q : Int → World → Prop} (hw : Sound w) (hn : Plain name)
    (hnone : ∀ errno, w.entry w.cwd name = none → Q (-1) { w with errno := errno })
    (hsome : w.entry w.cwd name ≠ none → Q 0 { w with errno := 0 }) :
    wp manual (fun _ _ => True) Q E (tfsAccess name tfsFOk) w := by
  refine ⟨trivial, ?_⟩
  intro rv w' hr
  rw [manual, access_name hw hn] at hr
  cases hentry : w.entry w.cwd name with
  | none =>
      rw [hentry] at hr
      obtain ⟨rfl, rfl⟩ := Prod.mk.inj hr
      exact hnone _ hentry
  | some ino =>
      rw [hentry] at hr
      obtain ⟨rfl, rfl⟩ := Prod.mk.inj hr
      refine hsome ?_
      rw [hentry]
      exact Option.some_ne_none ino

theorem sound_errno (h : Sound w) (errno : Int) :
    Sound { w with errno := errno } := ⟨h.cwd, h.few⟩

section FreeName

variable {Q : List Char → World → Prop}

/-- The name that is too long is not looked behind. -/
theorem wp_lastName {p : Dir (List Char)}
    (hQ : ∀ errno, Q (tmpName 22) { w with errno := errno }) :
    wp manual (fun _ _ => True) Q E
      (do
        let rv ← tfsAccess (tmpName 22) tfsFOk
        if rv = 0 then p else pure (tmpName 22)) w := by
  refine (wp_bind _ _ _).mpr ⟨trivial, ?_⟩
  intro rv w' hr
  rw [manual, World.access, World.find, locate_long] at hr
  obtain ⟨rfl, rfl⟩ := Prod.mk.inj hr
  exact hQ _

/-- The loop stops at the first name that is free, or at the one that is too
    long, long before the array is full. -/
theorem wp_freeName (hw : Sound w) {room k : Nat} (hk : k ≤ 22)
    (hroom : 22 ≤ room + k)
    (hQ : ∀ j errno, j ≤ 22 →
      (∀ i, k ≤ i → i < j → w.entry w.cwd (tmpName i) ≠ none) →
      (j < 22 → w.entry w.cwd (tmpName j) = none) →
      Q (tmpName j) { w with errno := errno }) :
    wp manual (fun _ _ => True) Q E (freeName room (tmpName k)) w := by
  have hstop : k = 22 → ∀ errno, Q (tmpName 22) { w with errno := errno } := by
    rintro rfl errno
    exact hQ 22 errno (Nat.le_refl _) (fun i h₁ h₂ => absurd h₁ (by omega))
      (fun h => absurd h (by omega))
  induction room generalizing k w with
  | zero =>
      obtain rfl : k = 22 := by omega
      exact wp_lastName (hstop rfl)
  | succ room ih =>
      by_cases hlast : k = 22
      · subst hlast
        exact wp_lastName (hstop rfl)
      · refine (wp_bind _ _ _).mpr
          (wp_access hw (tmpName_plain (by omega)) ?_ ?_)
        · intro errno hnone
          exact hQ k errno hk (fun i h₁ h₂ => absurd h₁ (by omega))
            (fun _ => hnone)
        · intro hsome
          rw [if_pos rfl, tmpName_succ]
          have hnext : ∀ j errno, j ≤ 22 →
              (∀ i, k + 1 ≤ i → i < j → w.entry w.cwd (tmpName i) ≠ none) →
              (j < 22 → w.entry w.cwd (tmpName j) = none) →
              Q (tmpName j) { w with errno := errno } := by
            intro j errno hj htaken hfree
            refine hQ j errno hj ?_ hfree
            intro i hki hij
            by_cases hik : i = k
            · rw [hik]
              exact hsome
            · exact htaken i (by omega) hij
          refine ih (sound_errno hw 0) (by omega) (by omega) hnext ?_
          intro h22 errno
          exact hnext 22 errno (Nat.le_refl _)
            (fun i h₁ h₂ => absurd h₁ (by omega)) (fun h => absurd h (by omega))

end FreeName

section Rmdir

variable {Q : Int → World → Prop} {perms : BitVec 16} {ino : Nat}

/-- A new directory in the current one. -/
def made (w : World) (name : Name) (perms : BitVec 16) (ino : Nat) :
    World :=
  { w.makeDir w.cwd name perms ino with errno := 0 }

theorem wp_mkdir (hw : Sound w) (hn : Plain name)
    (hnone : w.entry w.cwd name = none)
    (hQ : ∀ ino, w.Free ino → Moves w (.tfsMkdir name perms)
      (made w name perms ino) → Q 0 (made w name perms ino)) :
    wp manual (fun _ _ => True) Q E (tfsMkdir name perms) w := by
  refine ⟨trivial, ?_⟩
  intro rv w' hr
  have hm := manual_moves hr
  rw [manual, locate_plain hw.cwd hn, hnone] at hr
  obtain ⟨ino, hfree, heq⟩ := hr
  obtain ⟨rfl, rfl⟩ := Prod.mk.inj heq
  exact hQ ino hfree hm

theorem made_entry (w : World) (name : Name) (perms : BitVec 16) (ino e : Nat)
    (m : Name) :
    (made w name perms ino).entry e m
      = if e = w.cwd ∧ m = name then some ino else w.entry e m :=
  entry_enter (w.setInode ino _) w.cwd name ino e m

theorem made_inode (w : World) (name : Name) (perms : BitVec 16) (ino : Nat) :
    ((made w name perms ino).inode ino).isDir = true := by
  show (Function.update w.inode ino _ ino).isDir = true
  rw [Function.update_self]

/-- A new directory is empty. -/
theorem made_empty (hfree : w.Free ino) (m : Name) :
    (made w name perms ino).entry ino m = none := by
  rw [made_entry, if_neg (fun h => hfree.cwd h.1)]
  exact hfree.empty m

/-- What is left when the directory is gone. -/
def unmade (w : World) (name : Name) (perms : BitVec 16) (ino : Nat)
    (errno : Int) : World :=
  { (made w name perms ino).leave w.cwd name with errno := errno }

/-- And can be removed. -/
theorem wp_rmdir (hw : Sound w) (hn : Plain name) (hfree : w.Free ino)
    (hm : Moves w (.tfsMkdir name perms) (made w name perms ino))
    (hQ : Sound (unmade w name perms ino 0) → Q 0 (unmade w name perms ino 0)) :
    wp manual (fun _ _ => True) Q E (tfsRmdir name)
      (made w name perms ino) := by
  refine ⟨trivial, ?_⟩
  intro rv w' hr
  have hm' := manual_moves hr
  have hsound := sound_moves hw hm
  have hfind : (made w name perms ino).find name
      = .ok (⟨w.cwd, name, some ino⟩, ino) := by
    have hentry : (made w name perms ino).entry w.cwd name = some ino := by
      rw [made_entry, if_pos ⟨rfl, rfl⟩]
    rw [find_plain hsound.cwd hn]
    show (match (made w name perms ino).entry w.cwd name with
      | none => _
      | some ino => _) = _
    rw [hentry]
    rfl
  have hempty : (made w name perms ino).Empty ino := by
    rintro ⟨e, m⟩ hkey rfl
    have hsome := AList.lookup_isSome.mpr (AList.mem_keys.mpr hkey)
    have hnone : (made w name perms e).entry e m = none :=
      made_empty hfree m
    rw [World.entry] at hnone
    rw [hnone] at hsome
    exact absurd hsome (by decide)
  have hbusy : ¬ (ino = (made w name perms ino).root ∨
      ino = (made w name perms ino).cwd) := by
    rintro (h | h)
    · exact hfree.root h
    · exact hfree.cwd h
  rw [manual, World.rmdir, hfind] at hr
  dsimp only at hr
  rw [if_neg (by rw [made_inode]; decide), if_neg hbusy,
    if_neg (by rintro (h | h); exacts [hn.dot h, hn.dots h]),
    if_neg (not_not.mpr hempty)] at hr
  obtain ⟨rfl, rfl⟩ := Prod.mk.inj hr
  exact hQ (sound_moves hsound hm')

theorem unmade_links (hnone : w.entry w.cwd name = none) (errno : Int) :
    (unmade w name perms ino errno).links = w.links := by
  show (w.links.insert (w.cwd, name) ino).erase (w.cwd, name) = w.links
  rw [erase_insert_self, erase_of_notMem (AList.lookup_eq_none.mp hnone)]

/-- Nothing else has changed. -/
theorem unmade_grown (hnone : w.entry w.cwd name = none) (hfree : w.Free ino)
    (errno : Int) : Grown w (unmade w name perms ino errno) where
  entry := by
    intro e m i hi
    rw [World.entry, unmade_links hnone]
    exact hi
  kind := by
    intro i hi
    have hne : i ≠ ino := fun h => hi (h ▸ hfree.nlink)
    exact congrArg Inode.isDir (setInode_other _ hne)
  nlink := by
    intro i _
    rw [World.nlink, unmade_links hnone]
    rfl

end Rmdir

/-- `test_rmdir` with the name that it has found. -/
def makeAndRemove (name : List Char) : Dir Unit := do
  let rv ← tfsMkdir name 0o777
  if rv ≠ 0 then seriousError "mkdir"
  else do
  let rv ← tfsRmdir name
  if rv ≠ 0 then seriousError "mkdir"
  else do
  let rv ← tfsAccess name tfsFOk
  seriousIf (rv ≠ -1) "file still exits"

/-- A free name is free again, and nothing else has changed. -/
theorem wp_makeAndRemove {Q : Unit → World → Prop} (hw : Sound w)
    (hn : Plain name) (hnone : w.entry w.cwd name = none)
    (hQ : ∀ w', Sound w' → w'.cwd = w.cwd → w'.serious = w.serious →
      w'.entry w.cwd name = none → Grown w w' → Q () w') :
    wp manual (fun _ _ => True) Q E (makeAndRemove name) w := by
  refine (wp_bind _ _ _).mpr (wp_mkdir hw hn hnone ?_)
  intro ino hfree hm
  rw [if_neg (by decide)]
  refine (wp_bind _ _ _).mpr (wp_rmdir hw hn hfree hm ?_)
  intro hgone
  rw [if_neg (by decide)]
  have hentry : ∀ errno,
      (unmade w name 0o777 ino errno).entry w.cwd name = none := by
    intro errno
    rw [World.entry, unmade_links hnone]
    exact hnone
  refine (wp_bind _ _ _).mpr (wp_access hgone hn ?_ ?_)
  · intro errno _
    exact wp_seriousIf (by decide) (hQ _ (sound_errno hgone errno) rfl rfl
      (hentry errno) (unmade_grown hnone hfree errno))
  · intro hsome
    exact absurd (hentry 0) hsome

/-- The names of `test_rmdir`. -/
def Tmp (n : Name) : Prop := ∃ k, n = tmpName k

theorem only_freeName {f : List Char → Dir Unit}
    (hf : ∀ k, Only (Within Tmp) (fun _ => True) (f (tmpName k)))
    (room k : Nat) :
    Only (Within Tmp) (fun _ => True) (freeName room (tmpName k) >>= f) := by
  induction room generalizing k with
  | zero =>
      refine ⟨trivial, fun rv => ?_⟩
      show Only _ _ ((if rv = (0 : Int) then _ else _) >>= f)
      split
      · trivial
      · exact hf k
  | succ room ih =>
      refine ⟨trivial, fun rv => ?_⟩
      show Only _ _ ((if rv = (0 : Int) then _ else _) >>= f)
      split
      · rw [tmpName_succ]
        exact ih (k + 1)
      · exact hf k

theorem tmpName_zero : tmpName 0 = tmpdir := List.append_nil tmpdir

theorem rmdir_within :
    Only (Within Tmp) (fun _ => True) testRmdir := by
  have hname : ∀ k, Tmp (lastName (tmpName k)) := fun k => ⟨k, tmpName_last k⟩
  refine only_bind (only_call trivial) (fun _ => ?_)
  rw [← tmpName_zero]
  refine only_freeName (fun k => ?_) _ 0
  refine only_bind (only_call (hname k)) (fun _ => ?_)
  refine only_ite (only_call trivial) ?_
  refine only_bind (only_call (hname k)) (fun _ => ?_)
  refine only_ite (only_call trivial) ?_
  refine only_bind (only_call trivial) (fun _ => ?_)
  exact only_seriousIf trivial

/-- **`test_rmdir`** asks that one of its names is free. -/
theorem decides_rmdir :
    Decides manual World.serious Sound Sound (fun w => TmpFree w w.cwd)
      (Keeps Tmp) testRmdir := by
  suffices h : Decides manual World.serious Sound Sound
      (fun w => TmpFree w w.cwd) (fun w w' => w'.cwd = w.cwd ∧ Grown w w')
      testRmdir from
    decides_congr (decides_and h (wp_confined rmdir_within))
      (fun _ _ => Iff.rfl) (fun _ _ _ _ hP => hP)
      (fun _ _ _ hR => ⟨⟨hR.1.1, hR.2⟩, hR.1.2⟩)
  intro w hw
  refine (wp_bind _ _ _).mpr (wp_printf ?_)
  rw [← tmpName_zero]
  refine (wp_bind _ _ _).mpr (wp_freeName hw (by omega) (by decide) ?_)
  intro j errno hj htaken hfree
  have hw₁ := sound_errno hw errno
  by_cases hlast : j = 22
  · subst hlast
    refine (wp_bind _ _ _).mpr (wp_mkdir_long (fun errno' => ?_))
    rw [if_pos (by decide)]
    refine wp_complain (sound_errno hw errno') ?_
    intro w' hw' hworse
    refine ⟨hw', .failed ?_ hworse⟩
    rintro ⟨k, hk, hnone⟩
    exact htaken k (Nat.zero_le _) hk hnone
  · have hnone := hfree (by omega)
    refine wp_makeAndRemove hw₁ (tmpName_plain (by omega)) hnone ?_
    intro w' hw' hcwd hserious hgone hgrown
    have hstart : Grown w { w with errno := errno } :=
      grown_of_inodes rfl (fun _ => rfl)
    refine ⟨hw', .passed ⟨j, by omega, hnone⟩ ⟨j, by omega, ?_⟩ hserious
      ⟨hcwd, hstart.trans hgrown⟩⟩
    rw [hcwd]
    exact hgone

/-! ## `test_dir` -/

/-- The mode in which the files of the big directory are opened. -/
abbrev openOld : Nat := tfsORdwr ||| tfsOCreat

theorem openOld_updating : Updating openOld where
  access := by decide
  reads := rfl
  writes := rfl
  excl := rfl
  append := rfl

/-- One turn of the loop. -/
def openAndClose (i : Nat) : Dir Bool := do
  let fd ← tfsOpen (fileName i) openOld 0o777
  if fd = -1 then do
    seriousError "open failed"
    pure true
  else do
  let rv ← tfsClose fd
  if rv ≠ 0 then do
    seriousError "close failed"
    pure true
  else pure false

/-- `test_dir` in the directory, behind the loop. -/
def ownStat : Dir Unit := do
  let (rv, st) ← tfsStat ['.']
  if rv = -1 then seriousError "stat failed"
  else if st.st_mode &&& tfsIDir = 0 then seriousError "directory mode bit"
  else if st.st_size.toNat < 303 * dirSize then
    minorError "directory has wrong size"
  else pure ()

theorem testDirectory_eq :
    testDirectory = (do
      printf "chdir/big directory/read directory...\n" []
      let rv ← tfsChdir testDir
      if rv ≠ 0 then seriousError "chdir failed"
      else do
      let left ← forUntil openAndClose 300 0
      if left then pure () else ownStat) := rfl

/-- The names of `test_dir`. -/
def Numbered (n : Name) : Prop := ∃ i < 300, n = fileName i

/-- The first `j` of them. -/
def Before (j : Nat) (n : Name) : Prop := ∃ i < j, n = fileName i

section Directory

variable {Q : Bool → World → Prop} {i : Nat}

/-- The file is there afterwards, or there is a directory of its name. -/
theorem wp_openAndClose {Q : Bool → World → Prop}
    (h : At (fileName i) dir (fileName i) s x w)
    (hyes : (∀ y, x = some y → y.isDir = false) → ∀ y t w', y.isDir = false →
      At (fileName i) dir (fileName i) { s with links := t } (some y) w' →
      Q false w')
    (hno : ∀ y, x = some y → y.isDir = true → ∀ w', Sound w' →
      s.serious < w'.serious → Q true w') :
    wp manual (fun _ _ => True) Q E (openAndClose i) w := by
  by_cases hx : ∀ y, x = some y → y.isDir = false
  · refine (wp_bind _ _ _).mpr (wp_open openOld_updating (fun _ => rfl) hx h ?_)
    intro fd t w₁ hfd _ h₁
    rw [if_neg (by omega)]
    refine (wp_bind _ _ _).mpr (wp_close h₁ ?_)
    intro w₂ h₂
    rw [if_neg (by decide)]
    exact hyes hx _ t w₂ h₁.file h₂
  · push Not at hx
    obtain ⟨y, rfl, hy⟩ := hx
    have hdir : y.isDir = true := Bool.ne_false_iff.mp hy
    refine (wp_bind _ _ _).mpr (wp_open_dir openOld_updating hdir h ?_)
    intro w₁ h₁
    rw [if_pos rfl]
    refine (wp_bind _ _ _).mpr (wp_complain_at h₁ ?_)
    intro w₂ hw₂ hworse
    exact hno y rfl hdir w₂ hw₂ hworse

theorem openAndClose_only (hi : i < 300) :
    Only (fun o => Within (fun n => n = fileName i) o ∧ Adds o) (fun _ => True)
      (openAndClose i) := by
  have hplain := fileName_plain hi
  have hlast : lastName (fileName i) = fileName i := by
    rw [lastName, components_plain hplain]
    rfl
  have hname : lastName (fileName i) = fileName i ∧
      Plain (lastName (fileName i)) := by
    rw [hlast]
    exact ⟨rfl, hplain⟩
  have hfree : True ∧ True := ⟨trivial, trivial⟩
  refine only_bind (only_call ⟨hname, trivial⟩) (fun fd => ?_)
  refine only_ite (only_bind (only_call hfree) (fun _ => trivial)) ?_
  refine only_bind (only_call hfree) (fun rv => ?_)
  exact only_ite (only_bind (only_call hfree) (fun _ => trivial)) trivial

/-- What the loop has done and found before turn `j`. -/
structure Opened (w : World) (j : Nat) (w' : World) : Prop where
  sound : Sound w'
  cwd : w'.cwd = w.cwd
  serious : w'.serious = w.serious
  confined : Confined (Before j) w w'
  grown : Grown w w'
  before : ∀ i < j, Clear w w.cwd (fileName i)
  after : ∀ i < j, Clear w' w.cwd (fileName i)

/-- The step lemma of the loop. -/
theorem opened_step {j : Nat} (hj : j < 300) {w₁ : World} (h : Opened w j w₁) :
    wp manual (fun _ _ => True)
      (fun leave w' => if leave then
          Sound w' ∧ w.serious < w'.serious ∧
            ¬ ∀ i < 300, Clear w w.cwd (fileName i)
        else Opened w (j + 1) w')
      (fun _ _ => False) (openAndClose j) w₁ := by
  have honly := openAndClose_only hj
  have hwithin := only_mono (fun _ ho => ho.1) honly
  have hadds := only_mono (fun _ ho => ho.2) honly
  have hnew : ¬ Before j (fileName j) := by
    rintro ⟨i, hi, heq⟩
    exact absurd (fileName_inj heq) (by omega)
  have hclear : Clear w₁ w.cwd (fileName j) ↔ Clear w w.cwd (fileName j) :=
    clear_confined h.confined hnew
  have hat := at_here h.sound rfl (fileName_plain hj) rfl
  have hturn : wp manual (fun _ _ => True)
      (fun leave w' => if leave then
          Sound w' ∧ w.serious < w'.serious ∧
            ¬ ∀ i < 300, Clear w w.cwd (fileName i)
        else Clear w₁ w₁.cwd (fileName j) ∧ ∃ y t, y.isDir = false ∧
          At (fileName j) w₁.cwd (fileName j) { session w₁ with links := t }
            (some y) w')
      (fun _ _ => False) (openAndClose j) w₁ := by
    refine wp_openAndClose hat ?_ ?_
    · intro hx y t w' hy h'
      exact ⟨clear_holds.mpr hx, y, t, hy, h'⟩
    · intro y hy hdir w' hw' hworse
      refine ⟨hw', h.serious ▸ hworse, ?_⟩
      intro hall
      have hc := hclear.mpr (hall j hj)
      rw [← h.cwd] at hc
      have := clear_holds.mp hc y hy
      rw [hdir] at this
      exact absurd this (by decide)
  refine wp_consequence (fun _ _ _ => trivial) ?_ (fun _ _ h => h.1)
    (wp_and hturn (wp_and (wp_confined hwithin w₁) (wp_grown hadds w₁)))
  rintro leave w' ⟨hturn, hconfined, hgrown⟩
  cases leave with
  | true => exact hturn
  | false =>
      obtain ⟨hfound, y, t, hy, h'⟩ := hturn
      rw [h.cwd] at hfound h'
      have hold : Confined (Before (j + 1)) w w₁ := by
        refine h.confined.mono ?_
        rintro n ⟨i, hi, rfl⟩
        exact ⟨i, by omega, rfl⟩
      have hone : Confined (Before (j + 1)) w₁ w' := by
        refine hconfined.mono ?_
        rintro n rfl
        exact ⟨j, Nat.lt_succ_self j, rfl⟩
      refine ⟨h'.sound, (congrArg Session.cwd h'.session).trans h.cwd,
        (congrArg Session.serious h'.session).trans h.serious,
        hold.trans hone, h.grown.trans hgrown, ?_, ?_⟩
      · intro i hi
        by_cases heq : i = j
        · rw [heq]
          exact hclear.mp hfound
        · exact h.before i (by omega)
      · intro i hi
        by_cases heq : i = j
        · rw [heq]
          exact clear_at h' hy
        · have hne : ¬ fileName i = fileName j := fun h => heq (fileName_inj h)
          exact (clear_confined hconfined hne).mpr (h.after i (by omega))

/-- The loop. -/
theorem wp_openFiles (hw : Sound w) {Q : Bool → World → Prop}
    (hyes : ∀ w', Opened w 300 w' → Q false w')
    (hno : ∀ w', Sound w' → w.serious < w'.serious →
      (¬ ∀ i < 300, Clear w w.cwd (fileName i)) → Q true w') :
    wp manual (fun _ _ => True) Q (fun _ _ => False)
      (forUntil openAndClose 300 0) w := by
  have hstart : Opened w 0 w :=
    ⟨hw, rfl, rfl, Confined.refl _ _, Grown.refl _,
      fun i hi => absurd hi (Nat.not_lt_zero i),
      fun i hi => absurd hi (Nat.not_lt_zero i)⟩
  have hloop : wp manual (fun _ _ => True) _ _ (forUntil openAndClose 300 0) w :=
    wp_forUntil (I := Opened w) (fun j w' _ hj h => opened_step (by omega) h) hstart
  refine wp_mono ?_ hloop
  intro leave w' h
  cases leave with
  | true => exact hno w' h.1 h.2.1 h.2.2
  | false => exact hyes w' h

end Directory

/-- Another current directory, error number and count of minor errors. -/
theorem confined_same (S : Name → Prop) (hlinks : w'.links = w.links)
    (hinode : w'.inode = w.inode) (hroot : w'.root = w.root)
    (hdescs : w'.descs = w.descs) : Confined S w w' := by
  refine confined_of_inodes hlinks hroot (fun i => by rw [hinode])
    (fun i _ => by rw [hinode]) ?_
  intro i hi
  rw [hdescs]
  exact hi.closed

/-- The directory itself is looked at, nothing changes but the counts. -/
theorem wp_ownStat {Q : Unit → World → Prop} (hw : Sound w)
    (hQ : ∀ errno minor, Q () { w with errno := errno, minor := minor }) :
    wp manual (fun _ _ => True) Q E ownStat w := by
  have hfind : w.find ['.'] = .ok (⟨w.cwd, ['.'], some w.cwd⟩, w.cwd) := by
    rw [World.find, locate_dot hw.cwd]
  refine (wp_bind _ _ _).mpr ⟨trivial, ?_⟩
  rintro ⟨rv, st⟩ w' hr
  rw [manual] at hr
  simp only [hfind] at hr
  obtain ⟨heq, hst⟩ := hr
  obtain ⟨rfl, rfl⟩ := Prod.mk.inj heq
  have hmode : st.st_mode &&& tfsIDir ≠ 0 := by
    rw [hst.mode, if_pos hw.cwd]
    intro h0
    have hbit := congrArg (fun b => BitVec.getLsbD b 14) h0
    simp [tfsIDir] at hbit
  show wp manual _ Q E (if (0 : Int) = -1 then _ else _) _
  rw [if_neg (by decide), if_neg hmode]
  split
  · refine ⟨trivial, ?_⟩
    rintro _ w' rfl
    exact hQ 0 (w.minor + 1)
  · exact hQ 0 w.minor

theorem wp_chdir {Q : Int → World → Prop} (hw : Sound w) (hn : Plain name)
    (hyes : ∀ d, w.entry w.cwd name = some d → (w.inode d).isDir = true →
      Q 0 { w with cwd := d, errno := 0 })
    (hno : ∀ errno, (∀ d, w.entry w.cwd name = some d →
      (w.inode d).isDir = false) → Q (-1) { w with errno := errno }) :
    wp manual (fun _ _ => True) Q E (tfsChdir name) w := by
  refine ⟨trivial, ?_⟩
  intro rv w' hr
  rw [manual, World.chdir, find_plain hw.cwd hn] at hr
  cases hentry : w.entry w.cwd name with
  | none =>
      rw [hentry] at hr
      obtain ⟨rfl, rfl⟩ := Prod.mk.inj hr
      refine hno _ ?_
      intro d hd
      rw [hentry] at hd
      exact absurd hd.symm (Option.some_ne_none d)
  | some d =>
      rw [hentry] at hr
      dsimp only at hr
      by_cases hdir : (w.inode d).isDir = false
      · rw [if_pos hdir] at hr
        obtain ⟨rfl, rfl⟩ := Prod.mk.inj hr
        refine hno _ ?_
        intro d' hd'
        rw [hentry] at hd'
        rw [← Option.some.inj hd']
        exact hdir
      · rw [if_neg hdir] at hr
        obtain ⟨rfl, rfl⟩ := Prod.mk.inj hr
        exact hyes d hentry (Bool.ne_false_iff.mp hdir)

theorem directory_within :
    Only (Within Numbered) (fun _ => True) testDirectory := by
  rw [testDirectory_eq]
  refine only_bind (only_call trivial) (fun _ => ?_)
  refine only_bind (only_call trivial) (fun _ => ?_)
  refine only_ite (only_call trivial) ?_
  refine only_bind (only_forUntil ?_) (fun left => ?_)
  · intro j _ hj
    refine only_mono ?_ (openAndClose_only (i := j) (by omega))
    rintro o ⟨ho, -⟩
    exact within_mono (fun n hn => ⟨j, by omega, hn⟩) ho
  · refine only_ite trivial (only_bind (only_call trivial) (fun _ => ?_))
    refine only_ite (only_call trivial) (only_ite (only_call trivial) ?_)
    exact only_ite (only_call trivial) trivial

/-- The directory `test_dir` of `home` is one, and none of the names in it that
    `test_dir` opens is a directory's. -/
def DirectoryFit (home : Nat) (w : World) : Prop :=
  ∃ d, w.entry home testDir = some d ∧ (w.inode d).isDir = true ∧
    ∀ i < 300, Clear w d (fileName i)

/-- The current directory is `test_dir` afterwards. -/
def Enters (home : Nat) (w w' : World) : Prop :=
  w.entry home testDir = some w'.cwd ∧ Confined Numbered w w' ∧ Grown w w'

theorem testDir_plain : Plain testDir := by decide

theorem testDir_numbered : ¬ Numbered testDir := by
  rintro ⟨i, -, h⟩
  have htake := congrArg (List.take 2) h
  rw [fileName_take] at htake
  exact absurd htake (by decide)

/-- **`test_dir`** asks that its directory is there, and has no directories of
    the names in it. -/
theorem decides_directory (home : Nat) :
    Decides manual World.serious (fun w => Sound w ∧ w.cwd = home) Sound
      (DirectoryFit home) (Enters home) testDirectory := by
  rintro w ⟨hw, rfl⟩
  rw [testDirectory_eq]
  refine (wp_bind _ _ _).mpr (wp_printf ?_)
  refine (wp_bind _ _ _).mpr (wp_chdir hw testDir_plain ?_ ?_)
  · intro d hentry hdir
    rw [if_neg (by decide)]
    have hw₁ : Sound { w with cwd := d, errno := 0 } := ⟨hdir, hw.few⟩
    refine (wp_bind _ _ _).mpr (wp_openFiles hw₁ ?_ ?_)
    · intro w₂ h₂
      refine wp_ownStat h₂.sound ?_
      intro errno minor
      have hinto : Confined Numbered w { w with cwd := d, errno := 0 } :=
        confined_same Numbered rfl rfl rfl rfl
      have hstat : Confined Numbered w₂
          { w₂ with errno := errno, minor := minor } :=
        confined_same Numbered rfl rfl rfl rfl
      have hconfined := (hinto.trans h₂.confined).trans hstat
      have hgrown : Grown w { w₂ with errno := errno, minor := minor } :=
        ⟨h₂.grown.entry, h₂.grown.kind, h₂.grown.nlink⟩
      refine ⟨⟨h₂.sound.cwd, h₂.sound.few⟩, .passed ⟨d, hentry, hdir, h₂.before⟩
        ⟨d, ?_, ?_, h₂.after⟩ h₂.serious ⟨?_, hconfined, hgrown⟩⟩
      · rw [hconfined.entry _ _ testDir_numbered]
        exact hentry
      · rw [hconfined.kind _ _ d testDir_numbered hentry]
        exact hdir
      · rw [hentry]
        exact congrArg some h₂.cwd.symm
    · intro w₂ hw₂ hworse hnot
      refine ⟨hw₂, .failed ?_ hworse⟩
      rintro ⟨d', hd', -, hall⟩
      obtain rfl := Option.some.inj (hentry.symm.trans hd')
      exact hnot hall
  · intro errno hnot
    rw [if_pos (by decide)]
    refine wp_complain (sound_errno hw errno) ?_
    intro w' hw' hworse
    refine ⟨hw', .failed ?_ hworse⟩
    rintro ⟨d, hentry, hdir, -⟩
    rw [hnot d hentry] at hdir
    exact absurd hdir (by decide)

/-! ## `test_create` -/

def testName : Name := "test_file".toList

theorem testName_plain : Plain testName := by decide

theorem testFile_eq : testFile = testDir ++ '/' :: testName := by decide

theorem testDir_ne : testDir ≠ testName := by decide

/-- `test_create` from the call of `tfs_open` on. -/
def createFile : Dir Unit := do
  let fd ← tfsOpen testFile anew 0o777
  if fd = -1 then seriousError "open failed"
  else do
  let rv ← tfsWrite fd 6
  if rv ≠ 6 then seriousError "write failed"
  else do
  let rv ← tfsClose fd
  (if rv = -1 then minorError "close failed" else pure ())
  let (rv, st) ← tfsStat testFile
  if rv = -1 then seriousError "stat failed"
  else seriousIf (st.st_size ≠ 6) "file has wrong size\n"

section Create

variable {Q : Unit → World → Prop}

/-- A file of six bytes. -/
theorem wp_createFile (hx : ∀ i, x = some i → i.isDir = false)
    (h : At testFile dir testName s x w)
    (hQ : ∀ i t w', i.isDir = false → Linked s.links (dir, testName) t →
      At testFile dir testName { s with links := t } (some i) w' → Q () w') :
    wp manual (fun _ _ => True) Q E createFile w := by
  refine (wp_bind _ _ _).mpr (wp_open anew_updating (fun _ => rfl) hx h ?_)
  intro fd t w₁ hfd ht h₁
  rw [if_neg (by omega)]
  refine (wp_bind _ _ _).mpr (wp_write h₁ ?_)
  intro w₂ h₂
  rw [if_neg (by decide)]
  refine (wp_bind _ _ _).mpr (wp_close h₂ ?_)
  intro w₃ h₃
  rw [if_neg (by decide)]
  refine (wp_pure_bind _ _ _).mpr ?_
  refine (wp_bind _ _ _).mpr (wp_stat h₂.file h₃ ?_)
  intro st ino w₄ h₄ _ _ hsize _
  show wp manual _ Q E (if (0 : Int) = -1 then _ else _) _
  rw [if_neg (by decide)]
  have hsix : (opened s.umask anew 0o777 x).size = 0 := by
    cases x with
    | none => rfl
    | some i => rfl
  refine wp_seriousIf ?_ (hQ _ t w₄ h₂.file ht h₄)
  rw [hsize, written_size _ _ (by decide), hsix]
  decide

/-- What there is when the file has been made. -/
structure Made (d : Nat) (s : Session) (w : World) : Prop where
  sound : Sound w
  cwd : w.cwd = s.cwd
  serious : w.serious = s.serious
  entry : w.entry s.cwd testDir = some d
  isDir : (w.inode d).isDir = true
  clear : Clear w d testName
  rest : ∀ m, m ≠ testName → w.entry d m = s.links.lookup (d, m)

theorem createFile_made {d : Nat} (hx : ∀ i, x = some i → i.isDir = false)
    (h : At testFile d testName s x w)
    (hentry : s.links.lookup (s.cwd, testDir) = some d)
    (hQ : ∀ w', Made d s w' → Q () w') :
    wp manual (fun _ _ => True) Q E createFile w := by
  refine wp_createFile hx h ?_
  intro i t w' hi ht h'
  have hother : ∀ e m, m ≠ testName → w'.entry e m = s.links.lookup (e, m) := by
    intro e m hm
    rw [h'.entry]
    exact ht.lookup_ne (fun h => hm (Prod.mk.inj h).2)
  refine hQ w' ⟨h'.sound, congrArg Session.cwd h'.session,
    congrArg Session.serious h'.session, ?_, h'.isDir, clear_at h' hi, ?_⟩
  · exact (hother _ _ testDir_ne).trans hentry
  · exact fun m hm => hother d m hm

/-- The file cannot be opened. -/
theorem wp_createFile_error {errno : Int} (hw : Sound w)
    (hopening : w.opening testFile anew = .error errno)
    (hQ : ∀ w', Sound w' → w'.cwd = w.cwd → w.serious < w'.serious → Q () w') :
    wp manual (fun _ _ => True) Q E createFile w := by
  refine (wp_bind _ _ _).mpr ⟨trivial, ?_⟩
  intro fd w' hr
  rw [manual] at hr
  simp only [hopening] at hr
  obtain ⟨rfl, rfl⟩ := Prod.mk.inj hr
  show wp manual _ Q E (if (-1 : Int) = -1 then _ else _) _
  rw [if_pos rfl]
  exact wp_seriousError
    (hQ _ ⟨hw.cwd, hw.few⟩ rfl (Nat.lt_succ_self _))

/-- The name of the directory is taken by a file, or the name in it by a
    directory. -/
theorem opening_refused {d : Nat} (hw : Sound w)
    (hentry : w.entry w.cwd testDir = some d)
    (hnot : (w.inode d).isDir = true → ¬ Clear w d testName) :
    ∃ errno, w.opening testFile anew = .error errno := by
  rw [World.opening, if_neg (opening_valid anew_updating), testFile_eq]
  by_cases hdir : (w.inode d).isDir = true
  · obtain ⟨i, hi, hisdir⟩ := holds_dir (hnot hdir)
    obtain ⟨ino, hino, rfl⟩ := holds_some hi
    rw [locate_below hw.cwd testDir_plain testName_plain hentry hdir, hino]
    dsimp only
    rw [if_neg (by decide), if_pos ⟨hisdir, by decide⟩]
    exact ⟨_, rfl⟩
  · rw [locate_below_file hw.cwd testDir_plain testName_plain hentry
      (Bool.eq_false_iff.mpr hdir)]
    exact ⟨_, rfl⟩

theorem testCreate_eq :
    testCreate = (do
      printf "mkdir/open/close...\n" []
      let rv ← tfsMkdir testDir 0o777
      let errno ← tfsErrno
      if rv = -1 ∧ errno ≠ tfsEexist then seriousError "mkdir failed"
      else createFile) := rfl

/-- A directory that is there already is as good. -/
theorem wp_mkdir_exists {Q : Int → World → Prop} {perms : BitVec 16} {d : Nat}
    (hw : Sound w) (hn : Plain name) (hentry : w.entry w.cwd name = some d)
    (hQ : Q (-1) { w with errno := tfsEexist }) :
    wp manual (fun _ _ => True) Q E (tfsMkdir name perms) w := by
  refine ⟨trivial, ?_⟩
  intro rv w' hr
  rw [manual, locate_plain hw.cwd hn, hentry] at hr
  obtain ⟨rfl, rfl⟩ := Prod.mk.inj hr
  exact hQ

end Create

/-- The names of `test_create`. -/
def Created (n : Name) : Prop := n = testDir ∨ n = testName

theorem create_only :
    Only (fun o => Within Created o ∧ Adds o) (fun _ => True) testCreate := by
  have hname : Created (lastName testFile) ∧ Plain (lastName testFile) := by
    have hlast : lastName testFile = testName := by decide
    rw [hlast]
    exact ⟨Or.inr rfl, testName_plain⟩
  have hdir : Created (lastName testDir) := by
    have hlast : lastName testDir = testDir := by decide
    rw [hlast]
    exact Or.inl rfl
  have hfree : True ∧ True := ⟨trivial, trivial⟩
  rw [testCreate_eq]
  refine only_bind (only_call hfree) (fun _ => ?_)
  refine only_bind (only_call ⟨hdir, trivial⟩) (fun _ => ?_)
  refine only_bind (only_call hfree) (fun _ => ?_)
  refine only_ite (only_call hfree) ?_
  refine only_bind (only_call ⟨hname, trivial⟩) (fun fd => ?_)
  refine only_ite (only_call hfree) ?_
  refine only_bind (only_call hfree) (fun _ => ?_)
  refine only_ite (only_call hfree) ?_
  refine only_bind (only_call hfree) (fun _ => ?_)
  refine only_bind (only_ite (only_call hfree) trivial) (fun _ => ?_)
  refine only_bind (only_call hfree) (fun _ => ?_)
  exact only_ite (only_call hfree) (only_seriousIf hfree)

/-- If `test_dir` of `home` is there, it is a directory, and `test_file` in it
    is none. -/
def CreateFit (home : Nat) (w : World) : Prop :=
  ∀ d, w.entry home testDir = some d →
    (w.inode d).isDir = true ∧ Clear w d testName

/-- There is a directory `test_dir` afterwards, and a new one has nothing but
    `test_file` in it. -/
structure Creates (home : Nat) (w w' : World) : Prop where
  there : ∃ d, w'.entry home testDir = some d
  new : w.entry home testDir = none → ∀ d, w'.entry home testDir = some d →
    ∀ m, m ≠ testName → w'.entry d m = none

/-- **`test_create`** makes its file, or finds something else in its place. -/
theorem decides_create (home : Nat) :
    Decides manual World.serious (fun w => Sound w ∧ w.cwd = home)
      (fun w => Sound w ∧ w.cwd = home) (CreateFit home)
      (fun w w' => (Creates home w w' ∧ Confined Created w w') ∧ Grown w w')
      testCreate := by
  have hwithin := only_mono (fun _ ho => ho.1) create_only
  have hadds := only_mono (fun _ ho => ho.2) create_only
  refine decides_and (decides_and ?_ (wp_confined hwithin)) (wp_grown hadds)
  rintro w ⟨hw, rfl⟩
  rw [testCreate_eq]
  refine (wp_bind _ _ _).mpr (wp_printf ?_)
  cases hentry : w.entry w.cwd testDir with
  | none =>
      refine (wp_bind _ _ _).mpr (wp_mkdir hw testDir_plain hentry ?_)
      intro ino hfree hm
      refine (wp_bind _ _ _).mpr (wp_errno ?_)
      rw [if_neg (fun h => absurd h.1 (by decide))]
      have hmade : (made w testDir 0o777 ino).entry w.cwd testDir = some ino := by
        rw [made_entry, if_pos ⟨rfl, rfl⟩]
      have hdir := made_inode w testDir 0o777 ino
      have hempty : ∀ m, (made w testDir 0o777 ino).entry ino m = none :=
        made_empty hfree
      have hx : holds (made w testDir 0o777 ino) ino testName = none := by
        rw [holds, hempty testName]
        rfl
      have hat : At testFile ino testName (session (made w testDir 0o777 ino))
          none (made w testDir 0o777 ino) := by
        refine ⟨sound_moves hw hm, rfl, ?_, hx⟩
        rw [testFile_eq]
        exact .below testDir_plain testName_plain testDir_ne hmade hdir
      refine createFile_made
        (fun i hi => absurd hi.symm (Option.some_ne_none i)) hat hmade ?_
      intro w' h'
      refine ⟨⟨h'.sound, h'.cwd⟩, .passed ?_ ?_ h'.serious ⟨⟨ino, h'.entry⟩, ?_⟩⟩
      · intro d hd
        rw [hentry] at hd
        exact absurd hd.symm (Option.some_ne_none d)
      · intro d hd
        obtain rfl := Option.some.inj (h'.entry.symm.trans hd)
        exact ⟨h'.isDir, h'.clear⟩
      · intro _ d hd m hm'
        obtain rfl := Option.some.inj (h'.entry.symm.trans hd)
        rw [h'.rest m hm']
        exact hempty m
  | some d =>
      refine (wp_bind _ _ _).mpr (wp_mkdir_exists hw testDir_plain hentry ?_)
      refine (wp_bind _ _ _).mpr (wp_errno ?_)
      rw [if_neg (fun h => h.2 rfl)]
      have hw₁ : Sound { w with errno := tfsEexist } := sound_errno hw _
      by_cases hfit : (w.inode d).isDir = true ∧ Clear w d testName
      · obtain ⟨hdir, hclear⟩ := hfit
        have hat : At testFile d testName (session { w with errno := tfsEexist })
            (holds w d testName) { w with errno := tfsEexist } := by
          refine ⟨hw₁, rfl, ?_, rfl⟩
          rw [testFile_eq]
          exact .below testDir_plain testName_plain testDir_ne hentry hdir
        refine createFile_made (clear_holds.mp hclear) hat hentry ?_
        intro w' h'
        refine ⟨⟨h'.sound, h'.cwd⟩, .passed ?_ ?_ h'.serious ⟨⟨d, h'.entry⟩, ?_⟩⟩
        · intro e he
          obtain rfl := Option.some.inj (hentry.symm.trans he)
          exact ⟨hdir, hclear⟩
        · intro e he
          obtain rfl := Option.some.inj (h'.entry.symm.trans he)
          exact ⟨h'.isDir, h'.clear⟩
        · intro hnone
          rw [hentry] at hnone
          exact absurd hnone (Option.some_ne_none d)
      · obtain ⟨errno, hopening⟩ := opening_refused hw₁ hentry
          (fun hdir hclear => hfit ⟨hdir, hclear⟩)
        refine wp_createFile_error hw₁ hopening ?_
        intro w' hw' hcwd hworse
        refine ⟨⟨hw', hcwd⟩, .failed (fun h => hfit (h d hentry)) hworse⟩

end DirectoryTestDirectories
