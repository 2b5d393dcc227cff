import Ttm50.DirectoryTestDirectories

/-! # What the tests of names and directories find

    The seven tests in the order of `main` against the manual pages: exactly
    which file systems they find no fault with (`Fit`), that they can be
    repeated on those, and what they leave alone on any other. -/

namespace DirectoryTestResults

open InteractivePrograms LinkTables TestSequences TfsHeader TfsDescriptors
open DirectoryTestDriver TfsDirectories TfsFrames TfsPlaces
open DirectoryTestFiles DirectoryTestDirectories

variable {w w' : World} {dir : Nat} {name n : Name} {S : Name → Prop}

/-! ## The names -/

/-- Two letters tell the names of the tests apart. -/
theorem created_take (h : Created n) : n.take 2 = ['t', 'e'] := by
  rcases h with rfl | rfl
  · decide
  · decide

theorem numbered_take (h : Numbered n) : n.take 2 = ['f', 'i'] := by
  obtain ⟨i, -, rfl⟩ := h
  exact fileName_take i

theorem tmp_take (h : Tmp n) : n.take 2 = ['t', 'm'] := by
  obtain ⟨k, rfl⟩ := h
  exact tmpName_take k

/-- The names of `test_rmdir`, `test_fstat` and `test_bandwidth`, -/
def LastNames (n : Name) : Prop := Tmp n ∨ n = fstatFile ∨ n = bandwidthFile

/-- with those of `test_link`, -/
def LinkNames (n : Name) : Prop := (n = linkFile ∨ n = linkFile2) ∨ LastNames n

/-- and of `test_umask`. -/
def FileNames (n : Name) : Prop := n = umaskFile ∨ LinkNames n

theorem lastNames_take (h : LastNames n) :
    n.take 2 ∈ [['t', 'm'], ['f', 's'], ['b', 'a']] := by
  rcases h with h | rfl | rfl
  · rw [tmp_take h]
    decide
  · decide
  · decide

theorem fileNames_take (h : FileNames n) :
    n.take 2 ∈ [['U', 'm'], ['l', 'i'], ['t', 'm'], ['f', 's'], ['b', 'a']] := by
  rcases h with rfl | (rfl | rfl) | h
  · decide
  · decide
  · decide
  · exact List.mem_cons_of_mem _ (List.mem_cons_of_mem _ (lastNames_take h))

/-- All names of the tests. -/
def Reserved (n : Name) : Prop := Created n ∨ Numbered n ∨ FileNames n

/-! ## What other tests do not spoil -/

/-- The free name of `test_rmdir` stays free while other names change. -/
theorem tmpFree_confined (h : Confined S w w') (hn : ∀ k, ¬ S (tmpName k)) :
    TmpFree w' dir ↔ TmpFree w dir := by
  rw [TmpFree, TmpFree]
  simp only [fun k => h.entry dir (tmpName k) (hn k)]

/-- What `test_link` asks for, before and after calls on other names. -/
theorem linkFit_kept (h : Confined S w w') (hg : Grown w w')
    (hn : ¬ S linkFile) (hn2 : ¬ S linkFile2) :
    LinkFit w' dir ↔ LinkFit w dir := by
  have hentry := h.entry dir linkFile hn
  have hentry2 := h.entry dir linkFile2 hn2
  have hlinks : ∀ i, w.entry dir linkFile = some i → w'.nlink i = w.nlink i :=
    fun i hi => hg.nlink i (Nat.pos_iff_ne_zero.mp (nlink_pos hi))
  constructor
  · rintro ⟨hclear, hfree, hsingle⟩
    refine ⟨(clear_confined h hn).mp hclear, hentry2 ▸ hfree, ?_⟩
    intro i hi
    rw [← hlinks i hi]
    exact hsingle i (hentry.trans hi)
  · rintro ⟨hclear, hfree, hsingle⟩
    refine ⟨(clear_confined h hn).mpr hclear, hentry2.trans hfree, ?_⟩
    intro i hi
    rw [hentry] at hi
    rw [hlinks i hi]
    exact hsingle i hi

theorem leaves_mono {S' : Name → Prop} (hS : ∀ n, S n → S' n)
    (h : Leaves S w w') : Leaves S' w w' := ⟨h.1, h.2.mono hS⟩

/-- One test after the other. -/
theorem leaves_trans {w₁ : World} (h : Leaves S w w₁) (h' : Leaves S w₁ w') :
    Leaves S w w' := ⟨h'.1.trans h.1, h.2.trans h'.2⟩

/-! ## From the end to the beginning -/

/-- What `test_rmdir`, `test_fstat` and `test_bandwidth` ask for. -/
def LastFit (w : World) (dir : Nat) : Prop :=
  TmpFree w dir ∧ Clear w dir fstatFile ∧ Clear w dir bandwidthFile

/-- What the last tests ask for, before and after calls on other names. -/
theorem lastFit_confined (h : Confined S w w') (hn : ∀ n, LastNames n → ¬ S n) :
    LastFit w' dir ↔ LastFit w dir := by
  rw [LastFit, LastFit, clear_confined h (hn _ (Or.inr (Or.inl rfl))),
    clear_confined h (hn _ (Or.inr (Or.inr rfl))),
    tmpFree_confined h (fun k => hn _ (Or.inl ⟨k, rfl⟩))]

/-- `test_fstat` and `test_bandwidth`. -/
theorem decides_fstat_bandwidth :
    Decides manual World.serious Sound Sound
      (fun w => Clear w w.cwd fstatFile ∧ Clear w w.cwd bandwidthFile)
      (Keeps (fun n => n = fstatFile ∨ n = bandwidthFile))
      (testFstat >>= fun _ => testBandwidth) := by
  have hne : ¬ bandwidthFile = fstatFile := by decide
  refine decides_seq decides_fstat decides_bandwidth ?_ ?_ ?_
  · intro w w' hR _ _
    rw [hR.1.1]
    exact clear_confined hR.1.2 hne
  · intro _ w w' _ hR hP hP'
    refine ⟨?_, hP'⟩
    rw [hR.1.1]
    exact (clear_confined hR.1.2 (Ne.symm hne)).mpr hP
  · intro w w₁ w₂ hR hR'
    exact ⟨leaves_trans (leaves_mono (fun _ => Or.inl) hR.1)
      (leaves_mono (fun _ => Or.inr) hR'.1), hR.2.trans hR'.2⟩

/-- The last three tests, one after the other: their names are apart. -/
theorem decides_last :
    Decides manual World.serious Sound Sound (fun w => LastFit w w.cwd)
      (Keeps LastNames)
      (testRmdir >>= fun _ => testFstat >>= fun _ => testBandwidth) := by
  have hstat : ¬ Tmp fstatFile := fun h => absurd (tmp_take h) (by decide)
  have hband : ¬ Tmp bandwidthFile :=
    fun h => absurd (tmp_take h) (by decide)
  refine decides_seq decides_rmdir decides_fstat_bandwidth ?_ ?_ ?_
  · intro w w' hR _ _
    rw [hR.1.1, clear_confined hR.1.2 hstat, clear_confined hR.1.2 hband]
  · intro _ w w' _ hR hP hP'
    refine ⟨?_, hP'⟩
    rw [hR.1.1]
    refine (tmpFree_confined hR.1.2 ?_).mpr hP
    rintro k (h | h)
    · exact hstat ⟨k, h.symm⟩
    · exact hband ⟨k, h.symm⟩
  · intro w w₁ w₂ hR hR'
    exact ⟨leaves_trans (leaves_mono (fun _ => Or.inl) hR.1)
      (leaves_mono (fun _ => Or.inr) hR'.1), hR.2.trans hR'.2⟩

/-- `test_link` before them. -/
theorem decides_link_last :
    Decides manual World.serious Sound Sound
      (fun w => LinkFit w w.cwd ∧ LastFit w w.cwd) (Leaves LinkNames)
      (testLink >>= fun _ => testRmdir >>= fun _ =>
        testFstat >>= fun _ => testBandwidth) := by
  have hlast : ∀ n, LastNames n → ¬ (n = linkFile ∨ n = linkFile2) := by
    rintro n hn (rfl | rfl)
    · exact absurd (lastNames_take hn) (by decide)
    · exact absurd (lastNames_take hn) (by decide)
  refine decides_seq decides_link decides_last ?_ ?_ ?_
  · intro w w' hR _ _
    rw [hR.1]
    exact lastFit_confined hR.2 hlast
  · intro _ w w' _ hR hP hP'
    refine ⟨?_, hP'⟩
    rw [hR.1.1]
    exact (linkFit_kept hR.1.2 hR.2 (fun h => hlast _ h (Or.inl rfl))
      (fun h => hlast _ h (Or.inr rfl))).mpr hP
  · intro w w₁ w₂ hR hR'
    have hfirst : Leaves LinkNames w w₁ := leaves_mono (fun _ => Or.inl) hR
    have hsecond : Leaves LinkNames w₁ w₂ := leaves_mono (fun _ => Or.inr) hR'.1
    exact leaves_trans hfirst hsecond

/-- What `test_link` asks for while the file of `test_umask`, which that test
    takes away, is still there. -/
structure LinkStart (w : World) (dir : Nat) : Prop where
  clear : Clear w dir linkFile
  free : w.entry dir linkFile2 = none
  single : ∀ i, w.entry dir linkFile = some i →
    w.nlink i = 1 + if w.entry dir umaskFile = some i then 1 else 0

/-- `test_umask` takes a name away, and may leave `test_link` a file with one
    link less. -/
theorem linkFit_umask (hlinks : UmaskLinks w w')
    (h : Confined (fun n => n = umaskFile) w w') :
    LinkFit w' w'.cwd ↔ LinkStart w w.cwd := by
  obtain ⟨hcwd, hnlink⟩ := hlinks
  have hne : ¬ linkFile = umaskFile := by decide
  have hne2 : ¬ linkFile2 = umaskFile := by decide
  have hentry := h.entry w.cwd linkFile hne
  -- counted without the name of `test_umask`
  have hcount : ∀ i, w.entry w.cwd linkFile = some i →
      w.nlink i = w'.nlink i + if w.entry w.cwd umaskFile = some i then 1 else 0 := by
    intro i hi
    have hother : (w.links.erase (w.cwd, umaskFile)).lookup (w.cwd, linkFile)
        = some i := by
      rw [AList.lookup_erase_ne (fun h => hne (Prod.mk.inj h).2)]
      exact hi
    rw [hnlink i (Nat.pos_iff_ne_zero.mp (refs_pos hother))]
    exact refs_rest w.links (w.cwd, umaskFile) i
  rw [hcwd]
  constructor
  · rintro ⟨hclear, hfree, hsingle⟩
    refine ⟨(clear_confined h hne).mp hclear,
      (h.entry w.cwd linkFile2 hne2).symm.trans hfree, ?_⟩
    intro i hi
    rw [hcount i hi, hsingle i (hentry.trans hi)]
  · rintro ⟨hclear, hfree, hsingle⟩
    refine ⟨(clear_confined h hne).mpr hclear,
      (h.entry w.cwd linkFile2 hne2).trans hfree, ?_⟩
    intro i hi
    rw [hentry] at hi
    have h₁ := hcount i hi
    have h₂ := hsingle i hi
    omega

/-- The only name of a file is not that of another. -/
theorem linkStart_of_fit (h : LinkFit w dir) : LinkStart w dir := by
  obtain ⟨hclear, hfree, hsingle⟩ := h
  refine ⟨hclear, hfree, ?_⟩
  intro i hi
  rw [hsingle i hi, if_neg]
  intro humask
  have heq := eq_of_refs_one (hsingle i hi) hi humask
  exact absurd (Prod.mk.inj heq).2 (by decide)

/-- What the tests behind `test_dir` ask for. -/
structure FilesFit (w : World) (dir : Nat) : Prop where
  umask : Clear w dir umaskFile
  link : LinkStart w dir
  last : LastFit w dir

/-- `test_umask` before them.  It may take a name away from the file of
    `test_link`. -/
theorem decides_files :
    Decides manual World.serious Sound Sound (fun w => FilesFit w w.cwd)
      (Leaves FileNames)
      (testUmask >>= fun _ => testLink >>= fun _ => testRmdir >>= fun _ =>
        testFstat >>= fun _ => testBandwidth) := by
  suffices h : Decides manual World.serious Sound Sound
      (fun w => Clear w w.cwd umaskFile ∧ LinkStart w w.cwd ∧ LastFit w w.cwd)
      (Leaves FileNames)
      (testUmask >>= fun _ => testLink >>= fun _ => testRmdir >>= fun _ =>
        testFstat >>= fun _ => testBandwidth) from
    decides_congr h (fun _ _ => ⟨fun h => ⟨h.1, h.2.1, h.2.2⟩,
      fun h => ⟨h.umask, h.link, h.last⟩⟩)
      (fun _ _ _ _ h => ⟨h.1, h.2.1, h.2.2⟩) (fun _ _ _ h => h)
  have hlink : ¬ LinkNames umaskFile := by
    rintro ((h | h) | h)
    · exact absurd h (by decide)
    · exact absurd h (by decide)
    · exact absurd (lastNames_take h) (by decide)
  refine decides_seq decides_umask decides_link_last ?_ ?_ ?_
  · rintro w w' ⟨hlinks, hconfined⟩ _ _
    rw [linkFit_umask hlinks hconfined, hlinks.1, lastFit_confined hconfined]
    rintro n hn rfl
    exact hlink (Or.inr hn)
  · intro _ w w' _ hR hP hP'
    refine ⟨?_, linkStart_of_fit hP'.1, hP'.2⟩
    rw [hR.1]
    exact (clear_confined hR.2 hlink).mpr hP
  · rintro w w₁ w₂ ⟨hlinks, hconfined⟩ hR'
    have hfirst : Leaves FileNames w w₁ :=
      ⟨hlinks.1, hconfined.mono (fun _ => Or.inl)⟩
    exact leaves_trans hfirst (leaves_mono (fun _ => Or.inr) hR')

/-! ## The directory -/

/-- What `test_link` asks for, before `test_umask` and before the numbered
    files. -/
theorem linkStart_kept (h : Confined S w w') (hg : Grown w w')
    (hn : ¬ S linkFile) (hn2 : ¬ S linkFile2) (humask : ¬ S umaskFile) :
    LinkStart w' dir ↔ LinkStart w dir := by
  have hentry := h.entry dir linkFile hn
  have hentry2 := h.entry dir linkFile2 hn2
  have hlinks : ∀ i, w.entry dir linkFile = some i → w'.nlink i = w.nlink i :=
    fun i hi => hg.nlink i (Nat.pos_iff_ne_zero.mp (nlink_pos hi))
  constructor
  · rintro ⟨hclear, hfree, hsingle⟩
    refine ⟨(clear_confined h hn).mp hclear, hentry2 ▸ hfree, ?_⟩
    intro i hi
    rw [← hlinks i hi, ← h.entry dir umaskFile humask]
    exact hsingle i (hentry.trans hi)
  · rintro ⟨hclear, hfree, hsingle⟩
    refine ⟨(clear_confined h hn).mpr hclear, hentry2.trans hfree, ?_⟩
    intro i hi
    rw [hentry] at hi
    rw [hlinks i hi, h.entry dir umaskFile humask]
    exact hsingle i hi

/-- What all tests of files ask for, before and after calls on other names that
    take nothing away. -/
theorem filesFit_kept (h : Confined S w w') (hg : Grown w w')
    (hn : ∀ n, FileNames n → ¬ S n) : FilesFit w' dir ↔ FilesFit w dir := by
  have humask := hn _ (Or.inl rfl)
  have hlink := hn _ (Or.inr (Or.inl (Or.inl rfl)))
  have hlink2 := hn _ (Or.inr (Or.inl (Or.inr rfl)))
  have hlast : ∀ n, LastNames n → ¬ S n := fun n h => hn n (Or.inr (Or.inr h))
  constructor
  · rintro ⟨h₁, h₂, h₃⟩
    exact ⟨(clear_confined h humask).mp h₁,
      (linkStart_kept h hg hlink hlink2 humask).mp h₂,
      (lastFit_confined h hlast).mp h₃⟩
  · rintro ⟨h₁, h₂, h₃⟩
    exact ⟨(clear_confined h humask).mpr h₁,
      (linkStart_kept h hg hlink hlink2 humask).mpr h₂,
      (lastFit_confined h hlast).mpr h₃⟩

/-- The names in the directory. -/
def InnerNames (n : Name) : Prop := Numbered n ∨ FileNames n

/-- What the tests in the directory `test_dir` of `home` ask for. -/
structure InnerFit (home : Nat) (w : World) : Prop where
  directory : DirectoryFit home w
  files : ∀ d, w.entry home testDir = some d → FilesFit w d

theorem fileNames_numbered (h : FileNames n) : ¬ Numbered n := by
  intro h'
  have hmem := fileNames_take h
  rw [numbered_take h'] at hmem
  exact absurd hmem (by decide)

/-- The tests in `test_dir`, with the numbered files first. -/
theorem decides_inner (home : Nat) :
    Decides manual World.serious (fun w => Sound w ∧ w.cwd = home) Sound
      (InnerFit home) (Confined InnerNames)
      (testDirectory >>= fun _ => testUmask >>= fun _ => testLink >>= fun _ =>
        testRmdir >>= fun _ => testFstat >>= fun _ => testBandwidth) := by
  suffices h : Decides manual World.serious
      (fun w => Sound w ∧ w.cwd = home) Sound
      (fun w => DirectoryFit home w ∧
        ∀ d, w.entry home testDir = some d → FilesFit w d)
      (Confined InnerNames)
      (testDirectory >>= fun _ => testUmask >>= fun _ => testLink >>= fun _ =>
        testRmdir >>= fun _ => testFstat >>= fun _ => testBandwidth) from
    decides_congr h (fun _ _ => ⟨fun h => ⟨h.1, h.2⟩,
      fun h => ⟨h.directory, h.files⟩⟩)
      (fun _ _ _ _ h => ⟨h.1, h.2⟩) (fun _ _ _ h => h)
  have hdir : ¬ FileNames testDir := by
    intro h
    exact absurd (fileNames_take h) (by decide)
  refine decides_seq (decides_directory home) decides_files ?_ ?_ ?_
  · rintro w w' ⟨hentry, hconfined, hgrown⟩ _ _
    have hkept : FilesFit w' w'.cwd ↔ FilesFit w w'.cwd :=
      filesFit_kept hconfined hgrown (fun n => fileNames_numbered)
    rw [hkept]
    constructor
    · intro h d hd
      rw [← Option.some.inj (hentry.symm.trans hd)]
      exact h
    · intro h
      exact h _ hentry
  · rintro w w₁ w₂ ⟨hentry, hconfined, -⟩ ⟨hcwd, hconfined'⟩ hP hP'
    have hentry₁ : w₁.entry home testDir = some w₁.cwd :=
      (hconfined.entry _ _ testDir_numbered).trans hentry
    have hentry₂ : w₂.entry home testDir = some w₁.cwd :=
      (hconfined'.entry _ _ hdir).trans hentry₁
    obtain ⟨d, hd, hisdir, hclear⟩ := hP
    obtain rfl := Option.some.inj (hd.symm.trans hentry₁)
    refine ⟨⟨w₁.cwd, hentry₂, ?_, ?_⟩, ?_⟩
    · rw [hconfined'.kind _ _ _ hdir hentry₁]
      exact hisdir
    · intro i hi
      refine (clear_confined hconfined' (fun h => ?_)).mpr (hclear i hi)
      exact fileNames_numbered h ⟨i, hi, rfl⟩
    · intro d hd
      rw [← Option.some.inj (hentry₂.symm.trans hd), ← hcwd]
      exact hP'
  · rintro w w₁ w₂ ⟨-, hconfined, -⟩ ⟨-, hconfined'⟩
    exact (hconfined.mono (fun _ => Or.inl)).trans
      (hconfined'.mono (fun _ => Or.inr))

/-! ## All tests -/

/-- What the tests ask for in the directory `dir`, which is `test_dir`. -/
structure FitIn (w : World) (dir : Nat) : Prop where
  isDir : (w.inode dir).isDir = true
  create : Clear w dir testName
  numbered : ∀ i < 300, Clear w dir (fileName i)
  files : FilesFit w dir

/-- The tests find no fault with the file system, for a logical process whose
    current directory is `home`. -/
def Fit (home : Nat) (w : World) : Prop :=
  ∀ d, w.entry home testDir = some d → FitIn w d

theorem inner_take (h : InnerNames n) :
    n.take 2 ∈ [['f', 'i'], ['U', 'm'], ['l', 'i'], ['t', 'm'], ['f', 's'],
      ['b', 'a']] := by
  rcases h with h | h
  · rw [numbered_take h]
    decide
  · exact List.mem_cons_of_mem _ (fileNames_take h)

/-- The names in the directory are not those of `test_create`. -/
theorem inner_created (h : InnerNames n) : ¬ Created n := by
  intro h'
  have hmem := inner_take h
  rw [created_take h'] at hmem
  exact absurd hmem (by decide)

/-- A directory with nothing but `test_file` in it. -/
theorem fit_of_new {d : Nat}
    (h : ∀ m, m ≠ testName → w.entry d m = none) :
    (∀ i < 300, Clear w d (fileName i)) ∧ FilesFit w d := by
  have hnone : ∀ m, InnerNames m → w.entry d m = none := by
    intro m hm
    refine h m ?_
    rintro rfl
    exact inner_created hm (Or.inr rfl)
  have hfiles : ∀ m, FileNames m → w.entry d m = none :=
    fun m hm => hnone m (Or.inr hm)
  have hclear : ∀ m, InnerNames m → Clear w d m := by
    intro m hm i hi
    rw [hnone m hm] at hi
    exact absurd hi.symm (Option.some_ne_none i)
  have hlink : FileNames linkFile := Or.inr (Or.inl (Or.inl rfl))
  have hlast : ∀ m, LastNames m → Clear w d m :=
    fun m hm => hclear m (Or.inr (Or.inr (Or.inr hm)))
  refine ⟨fun i hi => hclear _ (Or.inl ⟨i, hi, rfl⟩),
    hclear _ (Or.inr (Or.inl rfl)), ⟨hclear _ (Or.inr hlink), ?_, ?_⟩,
    ⟨0, by decide, ?_⟩, hlast _ (Or.inr (Or.inl rfl)),
    hlast _ (Or.inr (Or.inr rfl))⟩
  · exact hfiles _ (Or.inr (Or.inl (Or.inr rfl)))
  · intro i hi
    rw [hfiles _ hlink] at hi
    exact absurd hi.symm (Option.some_ne_none i)
  · exact hfiles _ (Or.inr (Or.inr (Or.inl ⟨0, rfl⟩)))

/-- What the later tests will ask for, before `test_create`. -/
theorem innerFit_create {home : Nat} (hnew : Creates home w w')
    (hconfined : Confined Created w w') (hgrown : Grown w w')
    (hP : CreateFit home w') :
    InnerFit home w' ↔ ∀ d, w.entry home testDir = some d →
      (∀ i < 300, Clear w d (fileName i)) ∧ FilesFit w d := by
  obtain ⟨d, hd⟩ := hnew.there
  have hout : ∀ n, InnerNames n → ¬ Created n := fun n => inner_created
  cases hentry : w.entry home testDir with
  | none =>
      have hfit := fit_of_new (hnew.new hentry d hd)
      constructor
      · intro _ d' hd'
        exact absurd hd'.symm (Option.some_ne_none d')
      · intro _
        refine ⟨⟨d, hd, (hP d hd).1, hfit.1⟩, ?_⟩
        intro d' hd'
        rw [← Option.some.inj (hd.symm.trans hd')]
        exact hfit.2
  | some d' =>
      obtain rfl := Option.some.inj (hd.symm.trans (hgrown.entry _ _ _ hentry))
      have hkept : FilesFit w' d ↔ FilesFit w d :=
        filesFit_kept hconfined hgrown (fun n hn => hout n (Or.inr hn))
      have hclear : ∀ i < 300, (Clear w' d (fileName i) ↔ Clear w d (fileName i)) :=
        fun i hi => clear_confined hconfined (hout _ (Or.inl ⟨i, hi, rfl⟩))
      constructor
      · rintro ⟨⟨e, he, -, hall⟩, hfiles⟩ d' hd'
        obtain rfl := Option.some.inj hd'
        obtain rfl := Option.some.inj (hd.symm.trans he)
        exact ⟨fun i hi => (hclear i hi).mp (hall i hi), hkept.mp (hfiles d hd)⟩
      · intro h
        obtain ⟨hall, hfiles⟩ := h d rfl
        refine ⟨⟨d, hd, (hP d hd).1, fun i hi => (hclear i hi).mpr (hall i hi)⟩, ?_⟩
        intro d' hd'
        rw [← Option.some.inj (hd.symm.trans hd')]
        exact hkept.mpr hfiles

/-- The tests find errors exactly where the file system is not fit for them. -/
theorem decides_tests (home : Nat) :
    Decides manual World.serious (fun w => Sound w ∧ w.cwd = home) Sound
      (Fit home) (Confined Reserved) directoryTests := by
  suffices h : Decides manual World.serious
      (fun w => Sound w ∧ w.cwd = home) Sound
      (fun w => CreateFit home w ∧ ∀ d, w.entry home testDir = some d →
        (∀ i < 300, Clear w d (fileName i)) ∧ FilesFit w d)
      (Confined Reserved) directoryTests from by
    refine decides_congr h ?_ ?_ (fun _ _ _ h => h)
    · intro w _
      constructor
      · rintro ⟨hcreate, hinner⟩ d hd
        exact ⟨(hcreate d hd).1, (hcreate d hd).2, (hinner d hd).1,
          (hinner d hd).2⟩
      · intro hfit
        exact ⟨fun d hd => ⟨(hfit d hd).isDir, (hfit d hd).create⟩,
          fun d hd => ⟨(hfit d hd).numbered, (hfit d hd).files⟩⟩
    · rintro _ w _ _ ⟨hcreate, hinner⟩ d hd
      exact ⟨(hcreate d hd).1, (hcreate d hd).2, (hinner d hd).1,
        (hinner d hd).2⟩
  have hout : ∀ n, Created n → ¬ InnerNames n :=
    fun n h h' => inner_created h' h
  refine decides_seq (decides_create home) (decides_inner home) ?_ ?_ ?_
  · rintro w w' ⟨⟨hnew, hconfined⟩, hgrown⟩ _ hP
    exact innerFit_create hnew hconfined hgrown hP
  · intro w w₁ w₂ _ hR hP hP'
    refine ⟨?_, ?_⟩
    · intro d hd
      have hd₁ : w₁.entry home testDir = some d :=
        (hR.entry _ _ (hout _ (Or.inl rfl))).symm.trans hd
      obtain ⟨hdir, hclear⟩ := hP d hd₁
      refine ⟨?_, (clear_confined hR (hout _ (Or.inr rfl))).mpr hclear⟩
      rw [hR.kind _ _ _ (hout _ (Or.inl rfl)) hd₁]
      exact hdir
    · intro d hd
      obtain ⟨e, he, -, hall⟩ := hP'.directory
      obtain rfl := Option.some.inj (hd.symm.trans he)
      exact ⟨hall, hP'.files d hd⟩
  · rintro w w₁ w₂ ⟨⟨-, hconfined⟩, -⟩ hR'
    refine (hconfined.mono (fun _ => Or.inl)).trans (hR'.mono ?_)
    rintro n (h | h)
    · exact Or.inr (Or.inl h)
    · exact Or.inr (Or.inr h)

/-- All names that the tests give to the library are reserved. -/
theorem tests_within :
    Only (Within Reserved) (fun _ => True) directoryTests := by
  have hwiden : ∀ {T : Name → Prop} {p : Dir Unit}, (∀ n, T n → Reserved n) →
      Only (Within T) (fun _ => True) p →
      Only (Within Reserved) (fun _ => True) p :=
    fun hT hp => only_mono (fun _ ho => within_mono hT ho) hp
  have hlink : ∀ n, LinkNames n → Reserved n :=
    fun n hn => Or.inr (Or.inr (Or.inr hn))
  refine only_bind (hwiden (fun n hn => Or.inl hn)
    (only_mono (fun _ ho => ho.1) create_only)) (fun _ => ?_)
  refine only_bind (hwiden (fun n hn => Or.inr (Or.inl hn)) directory_within)
    (fun _ => ?_)
  refine only_bind (hwiden (fun n hn => Or.inr (Or.inr (Or.inl hn))) umask_within)
    (fun _ => ?_)
  refine only_bind (hwiden (fun n hn => hlink n (Or.inl hn)) link_within)
    (fun _ => ?_)
  refine only_bind (hwiden (fun n hn => hlink n (Or.inr (Or.inl hn)))
    rmdir_within) (fun _ => ?_)
  refine only_bind (hwiden (fun n hn => hlink n (Or.inr (Or.inr (Or.inl hn))))
    (only_mono (fun _ ho => ho.1) fstat_only)) (fun _ => ?_)
  exact hwiden (fun n hn => hlink n (Or.inr (Or.inr (Or.inr hn))))
    (only_mono (fun _ ho => ho.1) bandwidth_only)

/-! ## Every call has an answer -/

/-- There is always a free inode. -/
theorem free_exists (w : World) : ∃ ino, w.Free ino := by
  obtain ⟨ino, hino⟩ := Infinite.exists_notMem_finset
    (w.root :: w.cwd :: w.links.entries.map (fun e => e.2)
      ++ w.links.keys.map (fun e => e.1)
      ++ w.descs.map (fun e => e.2.file)).toFinset
  simp only [List.mem_toFinset, List.mem_append, List.mem_cons, List.mem_map,
    not_or, not_exists, not_and] at hino
  obtain ⟨⟨⟨hroot, hcwd, htargets⟩, hkeys⟩, hdescs⟩ := hino
  refine ⟨ino, ?_, ?_, hroot, hcwd, hdescs⟩
  · rw [World.nlink, refs, List.countP_eq_zero]
    intro e he h
    exact htargets e he (of_decide_eq_true h)
  · intro name
    rw [World.entry, AList.lookup_eq_none, AList.mem_keys]
    intro hmem
    exact hkeys (ino, name) hmem rfl

/-- `tfs_open` has an answer: a descriptor and an inode are free. -/
theorem open_answers (w : World) (path : List Char) (oMode : Nat)
    (cPerm : BitVec 16) :
    ∃ r w', manual w (.tfsOpen path oMode cPerm) r w' := by
  obtain ⟨fd, hfd, hunused⟩ := free_desc w.descs
  cases hopening : w.opening path oMode with
  | error e =>
      refine ⟨(w.fails e).1, (w.fails e).2, ?_⟩
      rw [manual, hopening]
  | present ino =>
      refine ⟨fd, (w.cut ino oMode).opened ino oMode fd, ?_⟩
      rw [manual, hopening]
      exact ⟨hfd, hunused, rfl⟩
  | absent dir name =>
      obtain ⟨ino, hino⟩ := free_exists w
      refine ⟨fd, (w.create dir name cPerm ino).opened ino oMode fd, ?_⟩
      rw [manual, hopening]
      exact ⟨hfd, hunused, ino, hino, rfl⟩

/-- So has `tfs_mkdir`. -/
theorem mkdir_answers (w : World) (path : List Char) (perms : BitVec 16) :
    ∃ r w', manual w (.tfsMkdir path perms) r w' := by
  cases hlocate : w.locate path with
  | error e =>
      refine ⟨(w.fails e).1, (w.fails e).2, ?_⟩
      rw [manual, hlocate]
  | ok spot =>
      obtain ⟨dir, name, there⟩ := spot
      cases there with
      | some j =>
          refine ⟨(w.fails tfsEexist).1, (w.fails tfsEexist).2, ?_⟩
          rw [manual, hlocate]
      | none =>
          obtain ⟨ino, hino⟩ := free_exists w
          refine ⟨0, ((w.makeDir dir name perms ino).done 0).2, ?_⟩
          rw [manual, hlocate]
          exact ⟨ino, hino, rfl⟩

/-- There is a record of every inode. -/
theorem describes_exists (w : World) (ino : Nat) : ∃ st, w.Describes ino st :=
  ⟨⟨(if (w.inode ino).isDir then tfsIDir else tfsIReg) ||| (w.inode ino).perms,
      BitVec.ofNat 32 ino, 0, BitVec.ofNat 16 (w.nlink ino), 0, 0,
      BitVec.ofNat 32 (w.inode ino).size, 0⟩,
    rfl, rfl, fun _ => rfl, fun _ => rfl⟩

/-- So have the two calls that ask for a record. -/
theorem stat_answers (w : World) (path : List Char) :
    ∃ r w', manual w (.tfsStat path) r w' := by
  cases hfind : w.find path with
  | error e =>
      refine ⟨((w.fails e).1, ⟨0, 0, 0, 0, 0, 0, 0, 0⟩), (w.fails e).2, ?_⟩
      rw [manual, hfind]
  | ok found =>
      obtain ⟨st, hst⟩ := describes_exists w found.2
      refine ⟨(0, st), (w.done 0).2, ?_⟩
      rw [manual, hfind]
      exact ⟨rfl, hst⟩

theorem fstat_answers (w : World) (fd : Int) :
    ∃ r w', manual w (.tfsFstat fd) r w' := by
  cases hd : w.descs.lookup fd with
  | none =>
      refine ⟨((w.fails tfsEbadf).1, ⟨0, 0, 0, 0, 0, 0, 0, 0⟩),
        (w.fails tfsEbadf).2, ?_⟩
      rw [manual, hd]
  | some d =>
      obtain ⟨st, hst⟩ := describes_exists w d.file
      refine ⟨(0, st), (w.done 0).2, ?_⟩
      rw [manual, hd]
      exact ⟨rfl, hst⟩

/-- Every call has an answer. -/
theorem manual_answers (w : World) (o : DirOp) : ∃ r w', manual w o r w' := by
  cases o with
  | tfsOpen path oMode cPerm => exact open_answers w path oMode cPerm
  | tfsMkdir path perms => exact mkdir_answers w path perms
  | tfsStat path => exact stat_answers w path
  | tfsFstat fd => exact fstat_answers w fd
  | tfsClose fd => exact ⟨(w.close fd).1, _, rfl⟩
  | tfsWrite fd nbytes => exact ⟨(w.write fd nbytes).1, _, rfl⟩
  | tfsRead fd nbytes => exact ⟨(w.read fd nbytes).1, _, rfl⟩
  | tfsLseek fd offset whence => exact ⟨(w.lseek fd offset whence).1, _, rfl⟩
  | tfsUmask cmask => exact ⟨w.umask, _, rfl, rfl⟩
  | tfsChmod path perm => exact ⟨(w.chmod path perm).1, _, rfl⟩
  | tfsUnlink path => exact ⟨(w.unlink path).1, _, rfl⟩
  | tfsAccess path aperm => exact ⟨(w.access path).1, _, rfl⟩
  | tfsRmdir path => exact ⟨(w.rmdir path).1, _, rfl⟩
  | tfsChdir path => exact ⟨(w.chdir path).1, _, rfl⟩
  | tfsLink path1 path2 => exact ⟨(w.link path1 path2).1, _, rfl⟩
  | tfsErrno => exact ⟨w.errno, w, rfl, rfl⟩
  | procGetPriority | procTime => exact ⟨(0 : Int), w, rfl⟩
  | tfsSync | printf | seriousError | minorError => exact ⟨(), _, rfl⟩

/-! ## What the tests report -/

/-- **EXACTLY WHERE THEY FIND A FAULT**: a complete run of the tests comes to
    its end, the array of `test_rmdir` is never overrun, and no serious error
    is counted if and only if the directory `test_dir` of the current one is
    fit for them, or is not there yet. -/
theorem directoryTests_verdict {tr : Trace DirOp DirOp.Res}
    {out : Outcome Unit Unit} (hw : Sound w)
    (h : Run manual directoryTests w tr out w') (hend : out ≠ .running) :
    out = .returned () ∧ (w'.serious = w.serious ↔ Fit w.cwd w) := by
  obtain ⟨hret, -, hv⟩ := decides_run (decides_tests w.cwd) ⟨hw, rfl⟩ h hend
  exact ⟨hret, hv.clean_iff⟩

/-- A file system with an empty root directory. -/
def blank : World where
  links := ∅
  inode := fun i => ⟨i = 0, 0o777, 0, 0⟩
  root := 0
  cwd := 0
  umask := 0o022
  errno := 0
  descs := []
  serious := 0
  minor := 0

theorem blank_sound : Sound blank where
  cwd := rfl
  few := fun _ _ => Nat.zero_le _

/-- There is no directory `test_dir` in it, and so nothing in the way. -/
theorem blank_fit : Fit 0 blank := by
  intro d hd
  have hnone : blank.entry 0 testDir = none := rfl
  rw [hnone] at hd
  exact absurd hd.symm (Option.some_ne_none d)

/-- The same with a file `test_dir`. -/
def blocked : World := blank.enter 0 testDir 1

theorem blocked_sound : Sound blocked where
  cwd := rfl
  few := fun _ _ => List.countP_le_length.trans (by decide)

/-- The name `test_dir` is taken by something that is no directory. -/
theorem blocked_not_fit : ¬ Fit 0 blocked := by
  intro hfit
  have hentry : blocked.entry 0 testDir = some 1 := rfl
  exact absurd (hfit 1 hentry).isDir (by decide)

/-- No fault is found in the first file system, and one in the second. -/
theorem directoryTests_verdict_blank :
    (∃ tr w', Run manual directoryTests blank tr (.returned ()) w' ∧
      w'.serious = 0) ∧
    ∃ tr w', Run manual directoryTests blocked tr (.returned ()) w' ∧
      w'.serious ≠ 0 := by
  obtain ⟨tr, out, w', h, hend⟩ := run_exists manual_answers directoryTests blank
  obtain ⟨rfl, hiff⟩ := directoryTests_verdict blank_sound h hend
  obtain ⟨tr₂, out₂, w₂, h₂, hend₂⟩ :=
    run_exists manual_answers directoryTests blocked
  obtain ⟨rfl, hiff₂⟩ := directoryTests_verdict blocked_sound h₂ hend₂
  exact ⟨⟨tr, w', h, hiff.mpr blank_fit⟩,
    ⟨tr₂, w₂, h₂, fun hclean => blocked_not_fit (hiff₂.mp hclean)⟩⟩

/-- **THEY CAN BE REPEATED**: after a run without a serious error a new
    logical process, which starts in the root directory, runs them without
    one, whatever its mask and whatever files are still open. -/
theorem directoryTests_again {tr tr₂ : Trace DirOp DirOp.Res}
    {out out₂ : Outcome Unit Unit} {w₁ w₂ : World} {umask : BitVec 16}
    {descs : List (Int × Desc Nat)} (hw : Sound w) (hroot : w.cwd = w.root)
    (h : Run manual directoryTests w tr out w₁) (hend : out ≠ .running)
    (hclean : w₁.serious = w.serious)
    (h₂ : Run manual directoryTests
      { w₁ with cwd := w₁.root, umask := umask, descs := descs } tr₂ out₂ w₂)
    (hend₂ : out₂ ≠ .running) :
    out₂ = .returned () ∧ w₂.serious = w₁.serious := by
  obtain ⟨-, hsound, hv⟩ := decides_run (decides_tests w.cwd) ⟨hw, rfl⟩ h hend
  cases hv with
  | failed _ worse => omega
  | passed _ after _ kept =>
      have htop : (w₁.inode w₁.root).isDir = true := by
        rw [kept.top, ← hroot]
        exact hw.cwd
      have hw₁ : Sound { w₁ with
          cwd := w₁.root, umask := umask, descs := descs } :=
        ⟨htop, hsound.few⟩
      have hfit : Fit w₁.root { w₁ with
          cwd := w₁.root, umask := umask, descs := descs } := by
        intro d hd
        rw [kept.root, ← hroot] at hd
        obtain ⟨h₁, h₂, h₃, h₄⟩ := after d hd
        exact ⟨h₁, h₂, h₃, ⟨h₄.umask, ⟨h₄.link.clear, h₄.link.free,
          h₄.link.single⟩, h₄.last⟩⟩
      obtain ⟨hret, -, hv₂⟩ :=
        decides_run (decides_tests w₁.root) ⟨hw₁, rfl⟩ h₂ hend₂
      exact ⟨hret, hv₂.clean_iff.mpr hfit⟩

theorem directoryTests_again_blank : ∃ tr w₁ tr₂ w₂,
    Run manual directoryTests blank tr (.returned ()) w₁ ∧
      Run manual directoryTests
        { w₁ with cwd := w₁.root, umask := 0o077, descs := [] } tr₂
        (.returned ()) w₂ ∧
      w₂.serious = w₁.serious := by
  obtain ⟨tr, out, w₁, h, hend⟩ := run_exists manual_answers directoryTests blank
  obtain ⟨rfl, -, hv⟩ := decides_run (decides_tests 0) ⟨blank_sound, rfl⟩ h hend
  obtain ⟨tr₂, out₂, w₂, h₂, hend₂⟩ := run_exists manual_answers directoryTests
    { w₁ with cwd := w₁.root, umask := 0o077, descs := [] }
  obtain ⟨rfl, hclean⟩ := directoryTests_again blank_sound rfl h hend
    (hv.clean_iff.mpr blank_fit) h₂ hend₂
  exact ⟨tr, w₁, tr₂, w₂, h, h₂, hclean⟩

/-- **WHAT THEY LEAVE ALONE** in every run, complete or not, and on every file
    system: all entries under other names, and every inode in use that has no
    name of the tests and is not open. -/
theorem directoryTests_spare {tr : Trace DirOp DirOp.Res}
    {out : Outcome Unit Unit} (h : Run manual directoryTests w tr out w') :
    (∀ dir name, ¬ Reserved name → w'.entry dir name = w.entry dir name) ∧
      ∀ i, Spared Reserved w i →
        w'.inode i = w.inode i ∧ w'.nlink i = w.nlink i := by
  have hkept : Confined Reserved w w' :=
    run_only (fun _ _ _ _ hI ho hr => hI.trans (confined_step ho (manual_moves hr)))
      tests_within (Confined.refl Reserved w) h
  exact ⟨hkept.entry, fun i hi => (hkept.spared i hi).2⟩

/-- A file system with one file, `other`. -/
def keeping : World :=
  { blank.enter 0 "other".toList 1 with
    inode := fun i => ⟨i = 0, 0o644, i * 100, 0⟩ }

/-- The file has no name of the tests, and nobody has it open. -/
theorem keeping_spared : Spared Reserved keeping 1 where
  live := by
    refine Or.inr ?_
    decide
  names := by
    intro dir name hn hentry
    have hname : name = "other".toList := by
      by_contra hne
      have hnone : keeping.entry dir name = none :=
        (AList.lookup_insert_ne (fun h => hne (Prod.mk.inj h).2)).trans rfl
      rw [hnone] at hentry
      exact absurd hentry.symm (Option.some_ne_none 1)
    subst hname
    rcases hn with hn | hn | hn
    · exact absurd (created_take hn) (by decide)
    · exact absurd (numbered_take hn) (by decide)
    · exact absurd (fileNames_take hn) (by decide)
  closed := fun e he => absurd he List.not_mem_nil

theorem directoryTests_spare_other : ∃ tr out w',
    Run manual directoryTests keeping tr out w' ∧ out ≠ .running ∧
      (w'.inode 1).size = 100 := by
  obtain ⟨tr, out, w', h, hend⟩ :=
    run_exists manual_answers directoryTests keeping
  refine ⟨tr, out, w', h, hend, ?_⟩
  rw [((directoryTests_spare h).2 1 keeping_spared).1]
  rfl

end DirectoryTestResults
