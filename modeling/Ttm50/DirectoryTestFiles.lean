import Ttm50.FullTestStat
import Ttm50.TestSequences
import Ttm50.TfsPlaces

/-! # The tests of single files

    `test_umask`, `test_link`, `test_fstat` and `test_bandwidth` of
    `FULLTEST.C` against the manual pages: where each of them finds no serious
    error, and what it leaves alone. -/

namespace DirectoryTestFiles

open InteractivePrograms LinkTables TestSequences TfsHeader TfsDescriptors
open DirectoryTestDriver TfsDirectories TfsFrames TfsPlaces
open FullTestDriver (Stat statcmp printstat)
open FullTestStat (statcmp_self)

variable {A : Type} {w w' : World} {dir : Nat} {name : Name} {S : Name → Prop}
  {s : Session} {x : Option Inode} {path : List Char}

/-! ## What a test asks for -/

/-- The name is free, or names a file. -/
def Clear (w : World) (dir : Nat) (name : Name) : Prop :=
  ∀ i, w.entry dir name = some i → (w.inode i).isDir = false

theorem clear_holds :
    Clear w dir name ↔ ∀ i, holds w dir name = some i → i.isDir = false := by
  constructor
  · intro h i hi
    obtain ⟨ino, hentry, rfl⟩ := holds_some hi
    exact h ino hentry
  · intro h ino hentry
    refine h (w.inode ino) ?_
    rw [holds, hentry]
    rfl

/-- Work under other names leaves it so, or not so. -/
theorem clear_confined (h : Confined S w w') (hn : ¬ S name) :
    Clear w' dir name ↔ Clear w dir name := by
  rw [Clear, Clear, h.entry dir name hn]
  constructor
  · intro hc i hi
    rw [← h.kind dir name i hn hi]
    exact hc i hi
  · intro hc i hi
    rw [h.kind dir name i hn hi]
    exact hc i hi

/-- The current directory stays, and work is under the names `S`. -/
def Leaves (S : Name → Prop) (w w' : World) : Prop :=
  w'.cwd = w.cwd ∧ Confined S w w'

/-- And nothing is removed. -/
def Keeps (S : Name → Prop) (w w' : World) : Prop :=
  Leaves S w w' ∧ Grown w w'

/-! ## Calls under a name -/

theorem only_call {T : DirOp → Prop} {o : DirOp} (ho : T o) :
    Only T (fun _ => True) (perform o : Dir o.Res) :=
  ⟨ho, fun _ => trivial⟩

theorem only_ite {T : DirOp → Prop} {c : Prop} [Decidable c] {p q : Dir A}
    (hp : Only T (fun _ => True) p) (hq : Only T (fun _ => True) q) :
    Only T (fun _ => True) (if c then p else q) := by
  split
  · exact hp
  · exact hq

theorem only_seriousIf {T : DirOp → Prop} {c : Bool} {msg : String}
    (hT : T (.seriousError msg)) :
    Only T (fun _ => True) (seriousIf c msg) :=
  only_ite (only_call hT) trivial

/-- A serious error is counted. -/
theorem wp_complain {Q : Unit → World → Prop} {E : Unit → World → Prop}
    {msg : String} (hw : Sound w)
    (hQ : ∀ w', Sound w' → w.serious < w'.serious → Q () w') :
    wp manual (fun _ _ => True) Q E (seriousError msg) w :=
  wp_seriousError (hQ _ ⟨hw.cwd, hw.few⟩ (Nat.lt_succ_self _))

theorem wp_complain_at {Q : Unit → World → Prop} {E : Unit → World → Prop}
    {msg : String} (h : At path dir name s x w)
    (hQ : ∀ w', Sound w' → s.serious < w'.serious → Q () w') :
    wp manual (fun _ _ => True) Q E (seriousError msg) w := by
  refine wp_complain h.sound ?_
  have hserious : w.serious = s.serious := congrArg Session.serious h.session
  rw [hserious]
  exact hQ

/-- A place that holds a file is clear. -/
theorem clear_at {i : Inode} (h : At path dir name s (some i) w)
    (hi : i.isDir = false) : Clear w dir name := by
  rw [clear_holds, h.holds]
  intro j hj
  rw [← Option.some.inj hj]
  exact hi

/-- A name that is not clear names a directory. -/
theorem holds_dir (h : ¬ Clear w dir name) :
    ∃ i, holds w dir name = some i ∧ i.isDir = true := by
  rw [clear_holds] at h
  push Not at h
  obtain ⟨i, hi, hdir⟩ := h
  exact ⟨i, hi, Bool.ne_false_iff.mp hdir⟩

/-- A test that works with one file only, and finds fault with a directory of
    its name only. -/
theorem decides_file {p : Dir Unit} (hplain : Plain name)
    (honly : Only (fun o => Within (fun n => n = name) o ∧ Adds o)
      (fun _ => True) p)
    (hpass : ∀ w s x, (∀ i, x = some i → i.isDir = false) →
      At name s.cwd name s x w →
      wp manual (fun _ _ => True)
        (fun _ w' => ∃ i t, i.isDir = false ∧
          At name s.cwd name { s with links := t } (some i) w')
        (fun _ _ => False) p w)
    (hfail : ∀ w s i, i.isDir = true → At name s.cwd name s (some i) w →
      wp manual (fun _ _ => True)
        (fun _ w' => Sound w' ∧ s.serious < w'.serious) (fun _ _ => False) p w) :
    Decides manual World.serious Sound Sound (fun w => Clear w w.cwd name)
      (Keeps (fun n => n = name)) p := by
  have hwithin := only_mono (fun _ ho => ho.1) honly
  have hadds := only_mono (fun _ ho => ho.2) honly
  refine decides_and (decides_and ?_ (wp_confined hwithin)) (wp_grown hadds)
  intro w hw
  by_cases hclear : Clear w w.cwd name
  · refine wp_mono ?_ (hpass w (session w) _ (clear_holds.mp hclear)
      (at_here hw rfl hplain rfl))
    rintro _ w' ⟨i, t, hi, h'⟩
    have hcwd : w'.cwd = w.cwd := congrArg Session.cwd h'.session
    refine ⟨h'.sound, .passed hclear ?_ (congrArg Session.serious h'.session)
      hcwd⟩
    rw [hcwd]
    exact clear_at h' hi
  · obtain ⟨i, hi, hdir⟩ := holds_dir hclear
    refine wp_mono ?_ (hfail w (session w) i hdir (at_here hw rfl hplain hi))
    rintro _ w' ⟨hw', hworse⟩
    exact ⟨hw', .failed hclear hworse⟩

theorem anew_updating : Updating anew where
  access := by decide
  reads := rfl
  writes := rfl
  excl := rfl
  append := rfl

/-! ## `test_umask` -/

/-- The bits that a new file has been granted. -/
theorem granted_bits (u : BitVec 16) :
    (tfsIReg ||| (0o777 &&& ~~~u &&& tfsSPerms)) &&& permBits
      = ~~~u &&& permBits := by
  have hreg : tfsIReg &&& permBits = 0#16 := by decide
  have hall : (0o777 : BitVec 16) &&& tfsSPerms &&& permBits = permBits := by
    decide
  calc (tfsIReg ||| (0o777 &&& ~~~u &&& tfsSPerms)) &&& permBits
      = (tfsIReg &&& permBits)
          ||| (0o777 &&& ~~~u &&& tfsSPerms &&& permBits) := by
        rw [BitVec.and_comm, BitVec.and_or_distrib_left]
        ac_rfl
    _ = ~~~u &&& (0o777 &&& tfsSPerms &&& permBits) := by
        rw [hreg, BitVec.zero_or]
        ac_rfl
    _ = ~~~u &&& permBits := by rw [hall]

theorem umask_named :
    lastName umaskFile = umaskFile ∧ Plain (lastName umaskFile) := by decide

theorem umask_within :
    Only (Within (fun n => n = umaskFile)) (fun _ => True) testUmask := by
  have hname := umask_named
  refine only_bind (only_call trivial) (fun _ => ?_)
  refine only_bind (only_call hname.1) (fun _ => ?_)
  refine only_bind (only_call hname) (fun fd => ?_)
  refine only_ite (only_call trivial) ?_
  refine only_bind (only_call trivial) (fun _ => ?_)
  refine only_ite (only_call trivial) ?_
  refine only_bind (only_call trivial) (fun _ => ?_)
  refine only_bind (only_call trivial) (fun _ => ?_)
  refine only_ite (only_call trivial) ?_
  refine only_bind (only_call trivial) (fun _ => ?_)
  refine only_ite (only_call trivial) ?_
  refine only_bind ?_ (fun _ => ?_)
  · exact only_ite (only_bind (only_call trivial) (fun _ => only_call trivial))
      trivial
  refine only_bind (only_call hname) (fun _ => ?_)
  refine only_bind (only_seriousIf trivial) (fun _ => ?_)
  refine only_bind (only_call trivial) (fun _ => ?_)
  refine only_bind (only_seriousIf trivial) (fun _ => ?_)
  refine only_bind (only_seriousIf trivial) (fun _ => ?_)
  refine only_bind (only_call hname.1) (fun _ => ?_)
  refine only_bind (only_seriousIf trivial) (fun _ => ?_)
  refine only_bind (only_call trivial) (fun _ => ?_)
  refine only_bind (only_seriousIf trivial) (fun _ => ?_)
  refine only_bind (only_call hname) (fun _ => ?_)
  refine only_bind (only_seriousIf trivial) (fun _ => ?_)
  refine only_bind (only_call trivial) (fun _ => ?_)
  refine only_bind (only_seriousIf trivial) (fun _ => ?_)
  refine only_bind (only_call trivial) (fun _ => ?_)
  refine only_bind (only_seriousIf trivial) (fun _ => ?_)
  exact only_seriousIf trivial

section Umask

variable {E : Unit → World → Prop} {Q : Unit → World → Prop}

/-- The file is made anew, twice, and no error is found. -/
theorem wp_testUmask (hx : ∀ i, x = some i → i.isDir = false)
    (h : At umaskFile dir umaskFile s x w)
    (hQ : ∀ i t w', i.isDir = false →
      Linked (s.links.erase (dir, umaskFile)) (dir, umaskFile) t →
      At umaskFile dir umaskFile
        { s with umask := 7 &&& permBits, links := t } (some i) w' → Q () w') :
    wp manual (fun _ _ => True) Q E testUmask w := by
  have hnone : ∀ i, (none : Option Inode) = some i → i.isDir = false :=
    fun i hi => absurd hi.symm (Option.some_ne_none i)
  refine (wp_bind _ _ _).mpr (wp_printf ?_)
  refine (wp_bind _ _ _).mpr (wp_unlink_any hx h ?_)
  intro _ w₁ h₁
  refine (wp_bind _ _ _).mpr
    (wp_open anew_updating (fun _ => rfl) hnone h₁ ?_)
  intro fd t w₂ hfd ht h₂
  rw [if_neg (by omega)]
  refine (wp_bind _ _ _).mpr (wp_close h₂ ?_)
  intro w₃ h₃
  rw [if_neg (by decide)]
  refine (wp_bind _ _ _).mpr (wp_umask h₃ ?_)
  intro w₄ h₄ herrno
  refine (wp_bind _ _ _).mpr (wp_errno ?_)
  rw [if_neg (by rw [herrno]; decide)]
  refine (wp_bind _ _ _).mpr (wp_stat rfl h₄ ?_)
  intro st ino w₅ h₅ _ hmode _ _
  dsimp only
  rw [if_neg (by decide)]
  have hbits : st.st_mode &&& permBits = ~~~s.umask &&& permBits := by
    rw [hmode]
    exact granted_bits s.umask
  rw [if_neg (by rw [hbits]; exact fun hne => hne rfl)]
  refine (wp_pure_bind _ _ _).mpr ?_
  refine (wp_bind _ _ _).mpr (wp_chmod h₅ ?_)
  intro w₆ h₆
  refine (wp_bind _ _ _).mpr (wp_seriousIf (by decide) ?_)
  refine (wp_bind _ _ _).mpr (wp_stat rfl h₆ ?_)
  intro st' ino' w₇ h₇ _ hmode' _ _
  refine (wp_bind _ _ _).mpr (wp_seriousIf rfl ?_)
  have hbits' : st'.st_mode &&& permBits = 0o700 := by
    rw [hmode']
    show (tfsIReg ||| (0o700 &&& tfsSPerms)) &&& permBits = 0o700
    decide
  refine (wp_bind _ _ _).mpr (wp_seriousIf (by rw [hbits']; decide) ?_)
  refine (wp_bind _ _ _).mpr (wp_unlink rfl h₇ ?_)
  intro w₈ h₈
  -- the file is gone, with whatever inode it had
  have hgone : t.erase (dir, umaskFile) = s.links.erase (dir, umaskFile) :=
    ht.rest.trans (erase_erase_self _ _)
  dsimp only at h₈
  rw [hgone] at h₈
  refine (wp_bind _ _ _).mpr (wp_seriousIf (by decide) ?_)
  refine (wp_bind _ _ _).mpr (wp_access_none h₈ ?_)
  intro w₉ h₉
  refine (wp_bind _ _ _).mpr (wp_seriousIf (by decide) ?_)
  refine (wp_bind _ _ _).mpr
    (wp_open anew_updating (fun _ => rfl) hnone h₉ ?_)
  intro fd' t' w₁₀ hfd' ht' h₁₀
  refine (wp_bind _ _ _).mpr (wp_seriousIf (by simp; omega) ?_)
  refine (wp_bind _ _ _).mpr (wp_close h₁₀ ?_)
  intro w₁₁ h₁₁
  refine (wp_bind _ _ _).mpr (wp_seriousIf (by decide) ?_)
  refine (wp_bind _ _ _).mpr (wp_stat rfl h₁₁ ?_)
  intro st'' ino'' w₁₂ h₁₂ _ hmode'' _ _
  refine (wp_bind _ _ _).mpr (wp_seriousIf rfl ?_)
  have hbits'' : st''.st_mode &&& permBits = 0o770 := by
    rw [hmode'']
    show (tfsIReg ||| (0o777 &&& ~~~(7 &&& permBits) &&& tfsSPerms)) &&& permBits
      = 0o770
    decide
  exact wp_seriousIf (by rw [hbits'']; decide) (hQ _ t' w₁₂ rfl ht' h₁₂)

/-- A directory of this name is an error. -/
theorem wp_testUmask_dir {i : Inode} (hdir : i.isDir = true)
    (h : At umaskFile dir umaskFile s (some i) w)
    (hQ : ∀ w', Sound w' → s.serious < w'.serious → Q () w') :
    wp manual (fun _ _ => True) Q E testUmask w := by
  refine (wp_bind _ _ _).mpr (wp_printf ?_)
  have hrefused : ∀ j, some i = some j → j.isDir = true := by
    intro j hj
    rw [← Option.some.inj hj]
    exact hdir
  refine (wp_bind _ _ _).mpr (wp_unlink_refused hrefused h ?_)
  intro w₁ h₁
  refine (wp_bind _ _ _).mpr (wp_open_dir anew_updating hdir h₁ ?_)
  intro w₂ h₂
  rw [if_pos rfl]
  exact wp_complain_at h₂ hQ

end Umask

/-- The current directory stays, and what has another name keeps its number
    of links, one less if it had this name. -/
def UmaskLinks (w w' : World) : Prop :=
  w'.cwd = w.cwd ∧ ∀ f, refs (w.links.erase (w.cwd, umaskFile)) f ≠ 0 →
    w'.nlink f = refs (w.links.erase (w.cwd, umaskFile)) f

/-- **`test_umask`** asks that no directory has the name of its file. -/
theorem decides_umask :
    Decides manual World.serious Sound Sound
      (fun w => Clear w w.cwd umaskFile)
      (fun w w' => UmaskLinks w w' ∧ Confined (fun n => n = umaskFile) w w')
      testUmask := by
  refine decides_and ?_ (wp_confined umask_within)
  intro w hw
  have hplain : Plain umaskFile := by decide
  by_cases hclear : Clear w w.cwd umaskFile
  · refine wp_testUmask (clear_holds.mp hclear) (at_here hw rfl hplain rfl) ?_
    intro i t w' hi ht h'
    have hcwd : w'.cwd = w.cwd := congrArg Session.cwd h'.session
    refine ⟨h'.sound, .passed hclear ?_ (congrArg Session.serious h'.session)
      ⟨hcwd, ?_⟩⟩
    · rw [hcwd]
      exact clear_at h' hi
    · intro f hf
      rw [h'.nlink]
      exact ht.refs_eq hf
  · obtain ⟨i, hi, hdir⟩ := holds_dir hclear
    refine wp_testUmask_dir hdir (at_here hw rfl hplain hi) ?_
    intro w' hw' hworse
    exact ⟨hw', .failed hclear hworse⟩

/-! ## `test_link` -/

/-- The first name is a file's only one, and the second is free. -/
structure LinkFit (w : World) (dir : Nat) : Prop where
  clear : Clear w dir linkFile
  free : w.entry dir linkFile2 = none
  single : ∀ i, w.entry dir linkFile = some i → w.nlink i = 1

theorem link_plain : Plain linkFile := by decide
theorem link2_plain : Plain linkFile2 := by decide
theorem link_ne : linkFile ≠ linkFile2 := by decide

/-- `test_link` from the call of `tfs_link` on. -/
def linkTwice : Dir Unit := do
  let rv ← tfsLink linkFile linkFile2
  if rv ≠ 0 then seriousError "link"
  else do
  let (rv, st) ← tfsStat linkFile
  if rv ≠ 0 then seriousError "stat"
  else do
  seriousIf (st.st_nlink ≠ 2) "wrong number of links"
  let rv ← tfsUnlink linkFile2
  seriousIf (rv ≠ 0) "unlink"

section Link

variable {E : Unit → World → Prop} {Q : Unit → World → Prop} {i : Inode}
  {ino : Nat}

/-- The file is there, and its links are `t`. -/
theorem wp_testLink (hx : ∀ i, x = some i → i.isDir = false)
    (h : At linkFile s.cwd linkFile s x w)
    (hQ : ∀ t i ino w', i.isDir = false →
      Linked s.links (s.cwd, linkFile) t →
      t.lookup (s.cwd, linkFile) = some ino →
      At linkFile s.cwd linkFile { s with links := t } (some i) w' →
      wp manual (fun _ _ => True) Q E linkTwice w') :
    wp manual (fun _ _ => True) Q E testLink w := by
  refine (wp_bind _ _ _).mpr (wp_printf ?_)
  refine (wp_bind _ _ _).mpr (wp_open anew_updating (fun _ => rfl) hx h ?_)
  intro fd t w₁ hfd ht h₁
  rw [if_neg (by omega)]
  refine (wp_bind _ _ _).mpr (wp_close h₁ ?_)
  intro w₂ h₂
  obtain ⟨ino, hentry, -⟩ := holds_some h₂.holds
  exact hQ t _ ino w₂ h₁.file ht ((h₂.entry _ _).symm.trans hentry) h₂

/-- A directory of this name is an error. -/
theorem wp_testLink_dir (hdir : i.isDir = true)
    (h : At linkFile dir linkFile s (some i) w)
    (hQ : ∀ w', Sound w' → s.serious < w'.serious → Q () w') :
    wp manual (fun _ _ => True) Q E testLink w := by
  refine (wp_bind _ _ _).mpr (wp_printf ?_)
  refine (wp_bind _ _ _).mpr (wp_open_dir anew_updating hdir h ?_)
  intro w₁ h₁
  rw [if_pos rfl]
  exact wp_complain_at h₁ hQ

/-- One error more, or not. -/
theorem wp_seriousIf_any {c : Bool} {msg : String}
    (h : At path dir name s x w)
    (hyes : c = true → ∀ w', At path dir name
      { s with serious := s.serious + 1 } x w' → Q () w')
    (hno : c = false → Q () w) :
    wp manual (fun _ _ => True) Q E (seriousIf c msg) w := by
  cases c with
  | false => exact wp_seriousIf rfl (hno rfl)
  | true =>
      have hr : manual w (.seriousError msg) ()
          { w with serious := w.serious + 1 } := rfl
      refine wp_seriousError (hyes rfl _ (h.step hr trivial rfl ?_ h.holds))
      rw [← h.session]
      rfl

/-- The second name goes again. -/
theorem wp_linkGone (hfile : i.isDir = false)
    (hino : s.links.lookup (s.cwd, linkFile) = some ino)
    (hino₂ : s.links.lookup (s.cwd, linkFile2) = some ino)
    (h : At linkFile s.cwd linkFile s (some i) w)
    (hQ : ∀ w', At linkFile s.cwd linkFile
      { s with links := s.links.erase (s.cwd, linkFile2) } (some i) w' →
      Q () w') :
    wp manual (fun _ _ => True) Q E
      (tfsUnlink linkFile2 >>= fun rv => seriousIf (rv ≠ 0) "unlink") w := by
  refine (wp_bind _ _ _).mpr
    (wp_unlink_second link_plain link2_plain link_ne hfile h hino hino₂ ?_)
  intro w' h'
  exact wp_seriousIf (by decide) (hQ w' h')

/-- The second name comes and goes, and its number of links is looked at. -/
theorem wp_linkTwice (hfile : i.isDir = false)
    (h : At linkFile s.cwd linkFile s (some i) w)
    (hino : s.links.lookup (s.cwd, linkFile) = some ino)
    (hfree : s.links.lookup (s.cwd, linkFile2) = none)
    (hfew : refs s.links ino < tfsLinkMax)
    (hyes : refs s.links ino = 1 → ∀ w',
      At linkFile s.cwd linkFile s (some i) w' → Q () w')
    (hno : refs s.links ino ≠ 1 → ∀ w', Sound w' → s.serious < w'.serious →
      Q () w') :
    wp manual (fun _ _ => True) Q E linkTwice w := by
  have hmem : (s.cwd, linkFile2) ∉ s.links := AList.lookup_eq_none.mp hfree
  refine (wp_bind _ _ _).mpr
    (wp_link link_plain link2_plain link_ne hfile h hino hfree hfew ?_)
  intro w₁ h₁
  rw [if_neg (by decide)]
  refine (wp_bind _ _ _).mpr (wp_stat hfile h₁ ?_)
  intro st ino₁ w₂ h₂ hentry₂ _ _ hnlink
  dsimp only
  rw [if_neg (by decide)]
  have hino₂ : (s.links.insert (s.cwd, linkFile2) ino).lookup (s.cwd, linkFile)
      = some ino := by
    rw [AList.lookup_insert_ne (fun h => link_ne (Prod.mk.inj h).2)]
    exact hino
  obtain rfl : ino = ino₁ := by
    have := (h₂.entry _ _).symm.trans hentry₂
    exact Option.some.inj (hino₂.symm.trans this)
  have hcount : w₂.nlink ino = refs s.links ino + 1 := by
    rw [h₂.nlink]
    dsimp only
    rw [refs_insert hmem, if_pos rfl]
  have htwo : st.st_nlink = 2 ↔ refs s.links ino = 1 := by
    have hsmall : refs s.links ino + 1 < 2 ^ 16 := by
      simp only [tfsLinkMax] at hfew
      omega
    rw [hnlink, hcount, ← BitVec.toNat_inj, BitVec.toNat_ofNat,
      Nat.mod_eq_of_lt hsmall]
    show refs s.links ino + 1 = 2 ↔ _
    omega
  refine (wp_bind _ _ _).mpr (wp_seriousIf_any h₂ ?_ ?_)
  · intro hne w₃ h₃
    refine wp_linkGone
      (s := { s with
        serious := s.serious + 1
        links := s.links.insert (s.cwd, linkFile2) ino })
      hfile hino₂ (AList.lookup_insert _) h₃ ?_
    intro w₄ h₄
    have hserious : w₄.serious = s.serious + 1 :=
      congrArg Session.serious h₄.session
    refine hno (fun h => of_decide_eq_true hne (htwo.mpr h)) w₄ h₄.sound ?_
    omega
  · intro heq
    refine wp_linkGone
      (s := { s with links := s.links.insert (s.cwd, linkFile2) ino })
      hfile hino₂ (AList.lookup_insert _) h₂ ?_
    intro w₃ h₃
    dsimp only at h₃
    rw [erase_insert_self, erase_of_notMem hmem] at h₃
    exact hyes (htwo.mp (not_not.mp (of_decide_eq_false heq))) w₃ h₃

/-- No second name, and no error is overlooked. -/
theorem wp_linkTwice_refused (hfile : i.isDir = false)
    (h : At linkFile s.cwd linkFile s (some i) w)
    (hino : s.links.lookup (s.cwd, linkFile) = some ino)
    (hno : s.links.lookup (s.cwd, linkFile2) ≠ none ∨
      tfsLinkMax ≤ refs s.links ino)
    (hQ : ∀ w', Sound w' → s.serious < w'.serious → Q () w') :
    wp manual (fun _ _ => True) Q E linkTwice w := by
  refine (wp_bind _ _ _).mpr
    (wp_link_refused link2_plain hfile h hino hno ?_)
  intro w' h'
  rw [if_pos (by decide)]
  exact wp_complain_at h' hQ

end Link

/-- The file has one name exactly if it had at most one. -/
theorem link_single {l t : Links (Nat × Name) Nat} {k : Nat × Name} {ino : Nat}
    (ht : Linked l k t) (hino : t.lookup k = some ino) :
    refs t ino = 1 ↔ ∀ f, l.lookup k = some f → refs l f = 1 := by
  rcases ht.refs_target hino with ⟨hold, heq⟩ | ⟨hnew, hone⟩
  · rw [heq]
    constructor
    · intro h f hf
      rw [hold] at hf
      rw [← Option.some.inj hf]
      exact h
    · intro h
      exact h ino hold
  · constructor
    · intro _ f hf
      rw [hnew] at hf
      exact absurd hf.symm (Option.some_ne_none f)
    · intro _
      exact hone

theorem link_within :
    Only (Within (fun n => n = linkFile ∨ n = linkFile2)) (fun _ => True)
      testLink := by
  have hname : (lastName linkFile = linkFile ∨ lastName linkFile = linkFile2) ∧
      Plain (lastName linkFile) := by decide
  have hname2 : lastName linkFile2 = linkFile ∨
      lastName linkFile2 = linkFile2 := by decide
  refine only_bind (only_call trivial) (fun _ => ?_)
  refine only_bind (only_call hname) (fun fd => ?_)
  refine only_ite (only_call trivial) ?_
  refine only_bind (only_call trivial) (fun _ => ?_)
  refine only_bind (only_call ⟨hname, hname2⟩) (fun _ => ?_)
  refine only_ite (only_call trivial) ?_
  refine only_bind (only_call trivial) (fun _ => ?_)
  refine only_ite (only_call trivial) ?_
  refine only_bind (only_seriousIf trivial) (fun _ => ?_)
  refine only_bind (only_call hname2) (fun _ => ?_)
  exact only_seriousIf trivial

/-- **`test_link`** asks that its first name is the only one of a file, or
    free, and its second name is free. -/
theorem decides_link :
    Decides manual World.serious Sound Sound (fun w => LinkFit w w.cwd)
      (Leaves (fun n => n = linkFile ∨ n = linkFile2)) testLink := by
  refine decides_and ?_ (wp_confined link_within)
  intro w hw
  by_cases hclear : Clear w w.cwd linkFile
  · refine wp_testLink (clear_holds.mp hclear)
      (at_here hw rfl link_plain rfl) ?_
    intro t i ino w₁ hfile ht hino h₁
    have hsingle := link_single ht hino
    have hthere : t.lookup (w.cwd, linkFile2) = w.entry w.cwd linkFile2 :=
      ht.lookup_ne (fun h => link_ne (Prod.mk.inj h).2.symm)
    by_cases hfree : t.lookup (w.cwd, linkFile2) = none ∧
        refs t ino < tfsLinkMax
    · refine wp_linkTwice (s := { session w with links := t }) hfile h₁ hino
        hfree.1 hfree.2 ?_ ?_
      · intro hone w' h'
        have hcwd : w'.cwd = w.cwd := congrArg Session.cwd h'.session
        have hfit : LinkFit w w.cwd :=
          ⟨hclear, hthere.symm.trans hfree.1, hsingle.mp hone⟩
        refine ⟨h'.sound, .passed hfit ?_
          (congrArg Session.serious h'.session) hcwd⟩
        rw [hcwd]
        refine ⟨clear_at h' hfile, (h'.entry _ _).trans hfree.1, ?_⟩
        intro f hf
        have hf' : t.lookup (w.cwd, linkFile) = some f :=
          (h'.entry _ _).symm.trans hf
        obtain rfl := Option.some.inj (hino.symm.trans hf')
        rw [h'.nlink]
        exact hone
      · intro hne w' hw' hworse
        refine ⟨hw', .failed ?_ hworse⟩
        intro hfit
        exact hne (hsingle.mpr hfit.single)
    · refine wp_linkTwice_refused (s := { session w with links := t }) hfile h₁
        hino ?_ ?_
      · rcases not_and_or.mp hfree with h | h
        · exact Or.inl h
        · exact Or.inr (Nat.le_of_not_lt h)
      · intro w' hw' hworse
        refine ⟨hw', .failed ?_ hworse⟩
        intro hfit
        have hone : refs t ino = 1 := hsingle.mpr hfit.single
        exact hfree ⟨hthere.trans hfit.free, by rw [hone]; decide⟩
  · obtain ⟨i, hi, hdir⟩ := holds_dir hclear
    refine wp_testLink_dir hdir (at_here hw rfl link_plain hi) ?_
    intro w' hw' hworse
    exact ⟨hw', .failed (fun hfit => hclear hfit.clear) hworse⟩

/-! ## `test_fstat` -/

section Fstat

variable {E : Unit → World → Prop} {Q : Unit → World → Prop}

/-- No difference is found, whatever the records. -/
theorem wp_testFstat (hx : ∀ i, x = some i → i.isDir = false)
    (h : At fstatFile dir fstatFile s x w)
    (hQ : ∀ i t w', i.isDir = false →
      At fstatFile dir fstatFile { s with links := t } (some i) w' → Q () w') :
    wp manual (fun _ _ => True) Q E testFstat w := by
  refine (wp_bind _ _ _).mpr (wp_printf ?_)
  refine (wp_bind _ _ _).mpr (wp_open anew_updating (fun _ => rfl) hx h ?_)
  intro fd t w₁ hfd _ h₁
  rw [if_neg (by omega)]
  refine (wp_bind _ _ _).mpr (wp_stat_using h₁ ?_)
  intro st w₂ h₂
  show wp manual _ Q E (if (0 : Int) ≠ 0 then _ else _) _
  rw [if_neg (by decide)]
  refine (wp_bind _ _ _).mpr (wp_fstat h₂ ?_)
  intro fst w₃ h₃
  show wp manual _ Q E (if (0 : Int) ≠ 0 then _ else _) _
  rw [if_neg (by decide)]
  show wp manual _ Q E ((if statcmp st fst ≠ 0 then _ else _) >>= _) _
  rw [statcmp_self, if_neg (by decide)]
  refine (wp_pure_bind _ _ _).mpr ?_
  refine (wp_bind _ _ _).mpr (wp_close h₃ ?_)
  intro w₄ h₄
  exact hQ _ t w₄ h₁.file h₄

/-- A directory of this name is an error. -/
theorem wp_testFstat_dir {i : Inode} (hdir : i.isDir = true)
    (h : At fstatFile dir fstatFile s (some i) w)
    (hQ : ∀ w', Sound w' → s.serious < w'.serious → Q () w') :
    wp manual (fun _ _ => True) Q E testFstat w := by
  refine (wp_bind _ _ _).mpr (wp_printf ?_)
  refine (wp_bind _ _ _).mpr (wp_open_dir anew_updating hdir h ?_)
  intro w₁ h₁
  rw [if_pos rfl]
  exact wp_complain_at h₁ hQ

end Fstat

theorem printstat_only {T : DirOp → Prop}
    (hT : ∀ format args, T (.printf format args)) (st : Stat) :
    Only T (fun _ => True) (printstat statCalls st) := by
  refine only_bind (only_call (hT _ _)) (fun _ => ?_)
  refine only_bind (only_call (hT _ _)) (fun _ => ?_)
  refine only_bind (only_call (hT _ _)) (fun _ => ?_)
  refine only_bind (only_call (hT _ _)) (fun _ => ?_)
  refine only_bind (only_call (hT _ _)) (fun _ => ?_)
  refine only_bind (only_call (hT _ _)) (fun _ => ?_)
  refine only_bind (only_call (hT _ _)) (fun _ => ?_)
  exact only_call (hT _ _)

theorem fstat_only :
    Only (fun o => Within (fun n => n = fstatFile) o ∧ Adds o) (fun _ => True)
      testFstat := by
  have hname : lastName fstatFile = fstatFile ∧ Plain (lastName fstatFile) := by
    decide
  have hfree : True ∧ True := ⟨trivial, trivial⟩
  refine only_bind (only_call hfree) (fun _ => ?_)
  refine only_bind (only_call ⟨hname, trivial⟩) (fun fd => ?_)
  refine only_ite (only_call hfree) ?_
  refine only_bind (only_call hfree) (fun _ => ?_)
  refine only_ite (only_call hfree) ?_
  refine only_bind (only_call hfree) (fun _ => ?_)
  refine only_ite (only_call hfree) ?_
  refine only_bind (only_ite ?_ trivial) (fun _ => ?_)
  · refine only_bind (only_call hfree) (fun _ => ?_)
    refine only_bind (printstat_only (fun _ _ => hfree) _) (fun _ => ?_)
    refine only_bind (only_call hfree) (fun _ => ?_)
    refine only_bind (printstat_only (fun _ _ => hfree) _) (fun _ => ?_)
    exact only_call hfree
  · exact only_bind (only_call hfree) (fun _ => trivial)

/-- **`test_fstat`** asks that no directory has the name of its file. -/
theorem decides_fstat :
    Decides manual World.serious Sound Sound (fun w => Clear w w.cwd fstatFile)
      (Keeps (fun n => n = fstatFile)) testFstat := by
  refine decides_file (by decide) fstat_only ?_ ?_
  · intro w s x hx h
    exact wp_testFstat hx h (fun i t w' hi h' => ⟨i, t, hi, h'⟩)
  · intro w s i hdir h
    exact wp_testFstat_dir hdir h (fun w' hw' hworse => ⟨hw', hworse⟩)

/-! ## `test_bandwidth` -/

section Blocks

variable {E : Unit → World → Prop} {I : Nat → World → Prop} {call : Dir Int}
  {msg : String}

/-- A loop of calls that transfer a whole block each. -/
theorem wp_blocks {Q : Bool → World → Prop}
    (hcall : ∀ j w, j < cnt → I j w →
      wp manual (fun _ _ => True) (fun (rv : Int) w' => rv = blk ∧ I (j + 1) w') E call w)
    (h : I 0 w) (hQ : ∀ w', I cnt w' → Q false w') :
    wp manual (fun _ _ => True) Q E (blocks call msg) w := by
  have hbody : ∀ j w', 0 ≤ j → j < 0 + cnt → I j w' →
      wp manual (fun _ _ => True)
        (fun leave w'' => if leave then False else I (j + 1) w'') E
        (do
          let rv ← call
          if rv ≠ blk then do
            seriousError msg
            pure true
          else pure false) w' := by
    intro j w' _ hj hI
    refine wp_seq (hcall j w' (by omega) hI) ?_
    rintro rv w'' ⟨hrv, hI'⟩
    rw [if_neg (fun hne => hne hrv)]
    exact hI'
  refine wp_mono ?_ (wp_forUntil (L := fun _ => False) hbody h)
  intro leave w' hleave
  cases leave with
  | true => exact absurd hleave id
  | false =>
      refine hQ w' ?_
      rw [← Nat.zero_add cnt]
      exact hleave

end Blocks

/-- The file holds `size` bytes or more, and its pointer is behind `j` blocks. -/
def Filled (s : Session) (dir : Nat) (fd : Int) (size j : Nat) (w : World) :
    Prop :=
  ∃ i, size ≤ i.size ∧ i.isDir = false ∧
    Using bandwidthFile dir bandwidthFile s i fd (j * blk) w

section Bandwidth

variable {fd : Int} {E : Unit → World → Prop}

theorem filled_start {i : Inode}
    (h : Using bandwidthFile dir bandwidthFile s i fd 0 w) :
    Filled s dir fd (0 * blk) 0 w := by
  rw [Filled, Nat.zero_mul]
  exact ⟨i, Nat.zero_le _, h.file, h⟩

/-- Writing makes the file as long as what has been written. -/
theorem filled_write {j : Nat} (h : Filled s dir fd (j * blk) j w) :
    wp manual (fun _ _ => True)
      (fun (rv : Int) w' => rv = blk ∧ Filled s dir fd ((j + 1) * blk) (j + 1) w') E
      (tfsWrite fd blk) w := by
  obtain ⟨i, hsize, hfile, hu⟩ := h
  refine wp_write hu ?_
  intro w' hu'
  have hnext : j * blk + blk = (j + 1) * blk := by ring
  have hwritten : (j + 1) * blk ≤ (i.written (j * blk) blk).size := by
    rw [written_size _ _ (by decide), hnext]
    exact Nat.le_max_right _ _
  rw [hnext] at hu'
  exact ⟨rfl, _, hwritten, hfile, hu'⟩

/-- Reading gets whole blocks while there are any. -/
theorem filled_read {j : Nat} (hj : j < cnt)
    (h : Filled s dir fd (cnt * blk) j w) :
    wp manual (fun _ _ => True)
      (fun (rv : Int) w' => rv = blk ∧ Filled s dir fd (cnt * blk) (j + 1) w') E
      (tfsRead fd blk) w := by
  obtain ⟨i, hsize, hfile, hu⟩ := h
  have hnext : j * blk + blk = (j + 1) * blk := by ring
  have hroom : (j + 1) * blk ≤ i.size :=
    (Nat.mul_le_mul_right blk hj).trans hsize
  have hwhole : min blk (i.size - j * blk) = blk := by omega
  refine wp_read hu ?_
  intro w' hu'
  rw [hwhole, hnext] at hu'
  rw [hwhole]
  exact ⟨rfl, i, hsize, hfile, hu'⟩

theorem rdwr_updating : Updating tfsORdwr where
  access := by decide
  reads := rfl
  writes := rfl
  excl := rfl
  append := rfl

theorem wp_testBandwidth {Q : Unit → World → Prop}
    (hx : ∀ i, x = some i → i.isDir = false)
    (h : At bandwidthFile dir bandwidthFile s x w)
    (hQ : ∀ i t w', i.isDir = false →
      At bandwidthFile dir bandwidthFile { s with links := t } (some i) w' →
      Q () w') :
    wp manual (fun _ _ => True) Q E testBandwidth w := by
  refine (wp_bind _ _ _).mpr (wp_procGetPriority (fun priority => ?_))
  refine (wp_bind _ _ _).mpr (wp_printf ?_)
  refine (wp_bind _ _ _).mpr (wp_sync h ?_)
  intro w₁ h₁
  refine (wp_bind _ _ _).mpr (wp_open anew_updating (fun _ => rfl) hx h₁ ?_)
  intro fd t w₂ hfd _ h₂
  rw [if_neg (by omega)]
  refine (wp_bind _ _ _).mpr (wp_procTime (fun t₁ => ?_))
  refine (wp_bind _ _ _).mpr (wp_blocks
    (I := fun j => Filled { s with links := t } dir fd (j * blk) j)
    (fun j w' _ hI => filled_write hI) (filled_start h₂) ?_)
  rintro w₃ ⟨i₃, hsize₃, hfile₃, h₃⟩
  refine (wp_bind _ _ _).mpr (wp_procTime (fun t₂ => ?_))
  refine (wp_bind _ _ _).mpr (wp_printf ?_)
  refine (wp_bind _ _ _).mpr (wp_close h₃ ?_)
  intro w₄ h₄
  refine (wp_bind _ _ _).mpr (wp_sync h₄ ?_)
  intro w₅ h₅
  have hx₅ : ∀ i, some i₃ = some i → i.isDir = false := by
    intro i hi
    rw [← Option.some.inj hi]
    exact hfile₃
  refine (wp_bind _ _ _).mpr (wp_open rdwr_updating
    (fun hn => absurd hn (Option.some_ne_none _)) hx₅ h₅ ?_)
  intro fd' t' w₆ hfd' _ h₆
  rw [if_neg (by omega)]
  refine (wp_bind _ _ _).mpr (wp_procTime (fun t₃ => ?_))
  refine (wp_bind _ _ _).mpr (wp_blocks
    (I := fun j => Filled { s with links := t' } dir fd' (j * blk) j)
    (fun j w' _ hI => filled_write hI) (filled_start h₆) ?_)
  rintro w₇ ⟨i₇, hsize₇, hfile₇, h₇⟩
  refine (wp_bind _ _ _).mpr (wp_procTime (fun t₄ => ?_))
  refine (wp_bind _ _ _).mpr (wp_printf ?_)
  refine (wp_bind _ _ _).mpr (wp_rewind h₇ ?_)
  intro w₈ h₈
  refine (wp_bind _ _ _).mpr (wp_sync_using h₈ ?_)
  intro w₉ h₉
  refine (wp_bind _ _ _).mpr (wp_procTime (fun t₅ => ?_))
  have hread : Filled { s with links := t' } dir fd' (cnt * blk) 0 w₉ := by
    rw [Filled, Nat.zero_mul]
    exact ⟨i₇, hsize₇, hfile₇, h₉⟩
  refine (wp_bind _ _ _).mpr (wp_blocks
    (I := fun j => Filled { s with links := t' } dir fd' (cnt * blk) j)
    (fun j w' hj hI => filled_read hj hI) hread ?_)
  rintro w₁₀ ⟨i₁₀, -, hfile₁₀, h₁₀⟩
  refine (wp_bind _ _ _).mpr (wp_procTime (fun t₆ => ?_))
  refine (wp_bind _ _ _).mpr (wp_printf ?_)
  refine (wp_bind _ _ _).mpr (wp_close h₁₀ ?_)
  intro w₁₁ h₁₁
  exact hQ i₁₀ t' w₁₁ hfile₁₀ h₁₁

/-- A directory of this name is an error. -/
theorem wp_testBandwidth_dir {Q : Unit → World → Prop} {i : Inode}
    (hdir : i.isDir = true)
    (h : At bandwidthFile dir bandwidthFile s (some i) w)
    (hQ : ∀ w', Sound w' → s.serious < w'.serious → Q () w') :
    wp manual (fun _ _ => True) Q E testBandwidth w := by
  refine (wp_bind _ _ _).mpr (wp_procGetPriority (fun priority => ?_))
  refine (wp_bind _ _ _).mpr (wp_printf ?_)
  refine (wp_bind _ _ _).mpr (wp_sync h ?_)
  intro w₁ h₁
  refine (wp_bind _ _ _).mpr (wp_open_dir anew_updating hdir h₁ ?_)
  intro w₂ h₂
  rw [if_pos rfl]
  exact wp_complain_at h₂ hQ

end Bandwidth

theorem blocks_only {T : DirOp → Prop} {call : Dir Int} {msg : String}
    (hT : T (.seriousError msg)) (hcall : Only T (fun _ => True) call) :
    Only T (fun _ => True) (blocks call msg) := by
  refine only_forUntil (fun _ _ _ => ?_)
  refine only_bind hcall (fun rv => ?_)
  exact only_ite (only_bind (only_call hT) (fun _ => trivial)) trivial

theorem bandwidth_only :
    Only (fun o => Within (fun n => n = bandwidthFile) o ∧ Adds o)
      (fun _ => True) testBandwidth := by
  have hname : lastName bandwidthFile = bandwidthFile ∧
      Plain (lastName bandwidthFile) := by decide
  have hfree : True ∧ True := ⟨trivial, trivial⟩
  refine only_bind (only_call hfree) (fun _ => ?_)
  refine only_bind (only_call hfree) (fun _ => ?_)
  refine only_bind (only_call hfree) (fun _ => ?_)
  refine only_bind (only_call ⟨hname, trivial⟩) (fun fd => ?_)
  refine only_ite (only_call hfree) ?_
  refine only_bind (only_call hfree) (fun _ => ?_)
  refine only_bind (blocks_only hfree (only_call hfree)) (fun left => ?_)
  refine only_ite trivial ?_
  refine only_bind (only_call hfree) (fun _ => ?_)
  refine only_bind (only_call hfree) (fun _ => ?_)
  refine only_bind (only_call hfree) (fun _ => ?_)
  refine only_bind (only_call hfree) (fun _ => ?_)
  refine only_bind (only_call ⟨hname, trivial⟩) (fun fd => ?_)
  refine only_ite (only_call hfree) ?_
  refine only_bind (only_call hfree) (fun _ => ?_)
  refine only_bind (blocks_only hfree (only_call hfree)) (fun left => ?_)
  refine only_ite trivial ?_
  refine only_bind (only_call hfree) (fun _ => ?_)
  refine only_bind (only_call hfree) (fun _ => ?_)
  refine only_bind (only_call hfree) (fun _ => ?_)
  refine only_bind (only_call hfree) (fun _ => ?_)
  refine only_bind (only_call hfree) (fun _ => ?_)
  refine only_bind (blocks_only hfree (only_call hfree)) (fun left => ?_)
  refine only_ite trivial ?_
  refine only_bind (only_call hfree) (fun _ => ?_)
  refine only_bind (only_call hfree) (fun _ => ?_)
  exact only_bind (only_call hfree) (fun _ => trivial)

/-- **`test_bandwidth`** asks that no directory has the name of its file. -/
theorem decides_bandwidth :
    Decides manual World.serious Sound Sound
      (fun w => Clear w w.cwd bandwidthFile)
      (Keeps (fun n => n = bandwidthFile)) testBandwidth := by
  refine decides_file (by decide) bandwidth_only ?_ ?_
  · intro w s x hx h
    exact wp_testBandwidth hx h (fun i t w' hi h' => ⟨i, t, hi, h'⟩)
  · intro w s i hdir h
    exact wp_testBandwidth_dir hdir h (fun w' hw' hworse => ⟨hw', hworse⟩)

end DirectoryTestFiles
