import Ttm50.FullTestDriver

/-! # The two tests of `tfs_stat` and `tfs_fstat`

    The remote version compares the two records byte by byte, and so it says
    of every pair whether it is equal (`reports_remote_iff`).  The local
    version calls `statcmp`, which compares its first argument with itself:
    the test never finds a difference (`not_reports_local`). -/

namespace FullTestStat

open InteractivePrograms ByteBuffers TfsHeader FullTestDriver

/-! ## Records as bytes -/

theorem halfBytes_inj {v v' : BitVec 16} (h : halfBytes v = halfBytes v') :
    v = v' := by
  obtain ⟨hlow, hrest⟩ := List.cons.inj h
  have hhigh := (List.cons.inj hrest).1
  have hlow' := congrArg BitVec.toNat hlow
  have hhigh' := congrArg BitVec.toNat hhigh
  have hv := v.isLt
  have hv' := v'.isLt
  simp only [BitVec.toNat_setWidth, BitVec.toNat_ushiftRight,
    Nat.shiftRight_eq_div_pow] at hlow' hhigh'
  apply BitVec.eq_of_toNat_eq
  omega

theorem wordBytes_inj {v v' : Word} (h : wordBytes v = wordBytes v') :
    v = v' := by
  obtain ⟨h₀, h⟩ := List.cons.inj h
  obtain ⟨h₁, h⟩ := List.cons.inj h
  obtain ⟨h₂, h⟩ := List.cons.inj h
  obtain ⟨h₃, -⟩ := List.cons.inj h
  apply byteOf_inj
  intro k hk
  interval_cases k
  · exact h₀
  · exact h₁
  · exact h₂
  · exact h₃

/-- **THE BYTES ARE THE RECORD**: padding taken as equal, two records with the
    same bytes are the same. -/
theorem image_inj {s1 s2 : Stat} (h : s1.image = s2.image) : s1 = s2 := by
  obtain ⟨hmode, h⟩ := List.append_inj h rfl
  obtain ⟨-, h⟩ := List.append_inj h rfl
  obtain ⟨hino, h⟩ := List.append_inj h rfl
  obtain ⟨hdev, h⟩ := List.append_inj h rfl
  obtain ⟨hnlink, h⟩ := List.append_inj h rfl
  obtain ⟨huid, h⟩ := List.append_inj h rfl
  obtain ⟨hgid, h⟩ := List.append_inj h rfl
  obtain ⟨-, h⟩ := List.append_inj h rfl
  obtain ⟨hsize, hmtime⟩ := List.append_inj h rfl
  cases s1 with
  | mk mode ino dev nlink uid gid size mtime =>
      cases s2 with
      | mk mode' ino' dev' nlink' uid' gid' size' mtime' =>
          obtain rfl : mode = mode' := halfBytes_inj hmode
          obtain rfl : ino = ino' := wordBytes_inj hino
          obtain rfl : dev = dev' := wordBytes_inj hdev
          obtain rfl : nlink = nlink' := halfBytes_inj hnlink
          obtain rfl : uid = uid' := halfBytes_inj huid
          obtain rfl : gid = gid' := halfBytes_inj hgid
          obtain rfl : size = size' := wordBytes_inj hsize
          obtain rfl : mtime = mtime' := wordBytes_inj hmtime
          rfl

theorem memcmp_self (as : List Byte) : memcmp as as = 0 := by
  induction as with
  | nil => rfl
  | cons a as ih => exact (if_pos rfl).trans ih

theorem eq_of_memcmp {as bs : List Byte} (hlen : as.length = bs.length)
    (h : memcmp as bs = 0) : as = bs := by
  induction as generalizing bs with
  | nil => exact (List.length_eq_zero_iff.mp hlen.symm).symm
  | cons a as ih =>
      cases bs with
      | nil => exact absurd hlen (Nat.succ_ne_zero _)
      | cons b bs =>
          rw [memcmp] at h
          by_cases hab : a = b
          · rw [if_pos hab] at h
            rw [hab, ih (Nat.succ.inj hlen) h]
          · rw [if_neg hab] at h
            split at h
            · exact absurd h (by decide)
            · exact absurd h (by decide)

theorem memcmp_image_iff (s1 s2 : Stat) :
    memcmp s1.image s2.image = 0 ↔ s1 = s2 := by
  constructor
  · intro h
    exact image_inj (eq_of_memcmp rfl h)
  · rintro rfl
    exact memcmp_self _

theorem statcmp_self (s1 s2 : Stat) : statcmp s1 s2 = 0 := by
  have hself : ∀ {A : Type} (a : A), ¬ a ≠ a := fun a h => h rfl
  rw [statcmp, if_neg (hself _), if_neg (hself _), if_neg (hself _),
    if_neg (hself _), if_neg (hself _), if_neg (hself _), if_neg (hself _),
    if_neg (hself _)]

/-! ## What the tests report -/

/-- The file is opened, and `tfs_stat` and `tfs_fstat` return these records.
    The world is the list of the serious errors. -/
def returning (fd : Nat) (st fst : Stat) : Env FullOp FullOp.Res (List String)
  | errors, .tfsOpen _ _ _, r, errors' => r = fd ∧ errors' = errors
  | errors, .tfsStat _, r, errors' => r = (0, st) ∧ errors' = errors
  | errors, .tfsFstat _, r, errors' => r = (0, fst) ∧ errors' = errors
  | errors, .seriousError msg, _, errors' => errors' = errors ++ [msg]
  | errors, _, _, errors' => errors' = errors

/-- The test says in each run that there is a difference. -/
def Reports (test : Full Unit) (fd : Nat) (st fst : Stat) : Prop :=
  ∀ tr u errors, Run (returning fd st fst) test [] tr (.returned u) errors →
    difference ∈ errors

/-- What the two tests are for: `statcmp` compares all fields, and both tests
    report the records that differ. -/
def Agree (fd : Nat) (st fst : Stat) : Prop :=
  (statcmp st fst = 0 ↔ st = fst) ∧
    (Reports testFstat fd st fst ↔ st ≠ fst) ∧
    (Reports remoteTestFstat fd st fst ↔ st ≠ fst)

section Runs

variable {fd : Nat} {st fst : Stat} {expected : List String}

theorem returning_total (fd : Nat) (st fst : Stat) (errors : List String)
    (o : FullOp) :
    ∃ r errors', returning fd st fst errors o r errors' := by
  cases o with
  | tfsOpen | tfsStat | tfsFstat => exact ⟨_, _, rfl, rfl⟩
  | tfsLseek | tfsRead | tfsWrite | tfsClose => exact ⟨(0 : Int), _, rfl⟩
  | rand => exact ⟨(0 : Word), _, rfl⟩
  | load => exact ⟨(0 : Byte), _, rfl⟩
  | store | storeInt | printf | fprintf | seriousError => exact ⟨(), _, rfl⟩

/-- The test returns with these serious errors. -/
abbrev EndsWith (fd : Nat) (st fst : Stat) (expected : List String)
    (test : Full Unit) : Prop :=
  wp (returning fd st fst) (fun _ _ => True)
    (fun _ errors => errors = expected) (fun _ _ => False) test []

theorem reports_iff {test : Full Unit} (h : EndsWith fd st fst expected test) :
    Reports test fd st fst ↔ difference ∈ expected := by
  constructor
  · intro hreports
    obtain ⟨tr, out, errors, hr, hout⟩ :=
      run_exists (returning_total fd st fst) test []
    cases out with
    | running => exact absurd rfl hout
    | exited x => exact (wp_post h hr).elim
    | returned u =>
        have herrors : errors = expected := wp_post h hr
        rw [← herrors]
        exact hreports tr u errors hr
  · intro hmem tr u errors hr
    have herrors : errors = expected := wp_post h hr
    rw [herrors]
    exact hmem

/-- The test ends as its comparison does. -/
theorem endsWith_fstatTest {compare : Stat → Stat → Full Unit}
    (h : EndsWith fd st fst expected (compare st fst)) :
    EndsWith fd st fst expected (fstatTest statCalls compare) := by
  have hfd : ¬ (fd : Int) = -1 := by omega
  refine ⟨trivial, ?_⟩
  rintro _ m rfl
  refine ⟨trivial, ?_⟩
  rintro _ m ⟨rfl, rfl⟩
  dsimp only [Prog.bind]
  rw [if_neg hfd]
  refine ⟨trivial, ?_⟩
  rintro _ m ⟨rfl, rfl⟩
  dsimp only [Prog.bind]
  rw [if_neg (not_not_intro rfl)]
  refine ⟨trivial, ?_⟩
  rintro _ m ⟨rfl, rfl⟩
  dsimp only [Prog.bind]
  rw [if_neg (not_not_intro rfl)]
  refine wp_seq h ?_
  rintro _ m rfl
  refine ⟨trivial, ?_⟩
  rintro _ m' rfl
  exact rfl

/-- **NO DIFFERENCE IS FOUND** by the local version, whatever the records. -/
theorem not_reports_local : ¬ Reports testFstat fd st fst := by
  have hends : EndsWith fd st fst [] testFstat := by
    rw [testFstat, localFstatTest]
    refine endsWith_fstatTest ?_
    rw [if_neg (not_not_intro (statcmp_self st fst))]
    exact rfl
  rw [reports_iff hends]
  exact List.not_mem_nil

/-- **EVERY DIFFERENCE IS FOUND** by the remote version. -/
theorem reports_remote_iff : Reports remoteTestFstat fd st fst ↔ st ≠ fst := by
  by_cases heq : st = fst
  · have hends : EndsWith fd st fst [] remoteTestFstat := by
      apply endsWith_fstatTest
      rw [if_neg (not_not_intro ((memcmp_image_iff st fst).mpr heq))]
      exact rfl
    rw [reports_iff hends]
    exact iff_of_false List.not_mem_nil (not_not_intro heq)
  · have hends : EndsWith fd st fst [difference] remoteTestFstat := by
      apply endsWith_fstatTest
      rw [if_pos (mt (memcmp_image_iff st fst).mp heq)]
      refine ⟨trivial, ?_⟩
      rintro _ m rfl
      exact rfl
    rw [reports_iff hends]
    exact iff_of_true List.mem_cons_self heq

end Runs

/-- **EQUAL RECORDS ONLY**: the two tests agree on two records if and only if
    there is nothing to report. -/
theorem fstat_tests_agree_iff (fd : Nat) (st fst : Stat) :
    Agree fd st fst ↔ st = fst := by
  constructor
  · intro h
    exact h.1.mp (statcmp_self st fst)
  · intro heq
    refine ⟨iff_of_true (statcmp_self st fst) heq, ?_, reports_remote_iff⟩
    exact iff_of_false not_reports_local (not_not_intro heq)

/-- Records of different sizes. -/
theorem sizes_not_compared :
    ¬ Agree 3 ⟨0o100644, 17, 0, 1, 4, 10, 0, 0⟩ ⟨0o100644, 17, 0, 1, 4, 10, 512, 0⟩ := by
  intro h
  exact absurd (h.1.mp (by decide)) (by decide)

end FullTestStat
