import Ttm50.TfsManual

/-! # The full test raises no false alarm

    On a file system that behaves as the manual pages say, the three tests of
    reading and writing run to their end without a message of failure and
    without a failed `assert`, whatever random numbers they draw.

    * `overwrite_tst` keeps `buf_orig` equal to the file (`Ready`) through
      writes that overlap as they like;
    * `tst_rand_write_seq_read` marks in `buf_cmp` the bytes that it has
      written (`Marked`); the loop that fills the gaps goes over every byte,
      so after turn `i` the bytes up to `i` are written. -/

namespace FullTestResults

open InteractivePrograms ByteBuffers TfsHeader FullTestDriver TfsManual

/-! ## Alarms -/

/-- The messages of tests that go well. -/
def progress : List String :=
  ["tst_seq_write_rand_read...\n", "tst_rand_write_seq_read...\n",
    "overwrite_tst...\n", "original file written...\n",
    "block by block test complete...\n"]

/-- A message of failure. -/
def Alarm : FullOp → Prop
  | .seriousError _ => True
  | .fprintf _ _ => True
  | .printf text _ => text ∉ progress
  | _ => False

/-- The file is exactly as long as `buf_orig` and holds its bytes. -/
def Mirrors (w : World) : Prop :=
  ∃ f, w.files file = some f ∧ f.size = size ∧ ∀ i < size, f.byte i = w.orig i

/-- No alarm. -/
def Calm (_ : World) (o : FullOp) : Prop := ¬ Alarm o

/-- No alarm, and each write leaves the file equal to `buf_orig`. -/
def CalmWrites (w : World) : FullOp → Prop
  | .tfsWrite fd buf nbytes =>
      ∀ rv w', manual w (.tfsWrite fd buf nbytes) rv w' → Mirrors w'
  | o => ¬ Alarm o

/-- No alarm, and the file that is closed is equal to `buf_orig`. -/
def CalmCloses (w : World) : FullOp → Prop
  | .tfsClose _ => Mirrors w
  | o => ¬ Alarm o

/-- From this world the test ends without an alarm or a failed `assert`. -/
structure Passes (test : Full Unit) (w : World) : Prop where
  quiet : ∀ tr out w', Run manual test w tr out w' → ∀ e ∈ tr, ¬ Alarm e.1
  asserts : ∀ tr out w', Run manual test w tr out w' → out ≠ .exited ()
  completes : ∃ tr w', Run manual test w tr (.returned ()) w'

/-- What the tests need for all operations but writing, closing and
    messages. -/
structure Lenient (ok : World → FullOp → Prop) : Prop where
  tfsOpen : ∀ w path oMode cPerm, ok w (.tfsOpen path oMode cPerm)
  tfsLseek : ∀ w fd offset whence, ok w (.tfsLseek fd offset whence)
  tfsRead : ∀ w fd buf nbytes, ok w (.tfsRead fd buf nbytes)
  rand : ∀ w, ok w .rand
  load : ∀ w p, ok w (.load p)
  store : ∀ w p value, ok w (.store p value)
  storeInt : ∀ w p value, ok w (.storeInt p value)
  printf : ∀ w text args, text ∈ progress → ok w (.printf text args)

theorem lenient_calm : Lenient Calm :=
  ⟨fun _ _ _ _ h => h, fun _ _ _ _ h => h, fun _ _ _ _ h => h, fun _ h => h,
    fun _ _ h => h, fun _ _ _ h => h, fun _ _ _ h => h,
    fun _ _ _ h => not_not_intro h⟩

theorem lenient_calmWrites : Lenient CalmWrites :=
  ⟨fun _ _ _ _ h => h, fun _ _ _ _ h => h, fun _ _ _ _ h => h, fun _ h => h,
    fun _ _ h => h, fun _ _ _ h => h, fun _ _ _ h => h,
    fun _ _ _ h => not_not_intro h⟩

theorem lenient_calmCloses : Lenient CalmCloses :=
  ⟨fun _ _ _ _ h => h, fun _ _ _ _ h => h, fun _ _ _ _ h => h, fun _ h => h,
    fun _ _ h => h, fun _ _ _ h => h, fun _ _ _ h => h,
    fun _ _ _ h => not_not_intro h⟩

/-- A precondition without exits says that the test passes. -/
theorem passes_of_wp {ok : World → FullOp → Prop}
    (hok : ∀ w o, ok w o → ¬ Alarm o) {Q : Unit → World → Prop}
    {test : Full Unit} {w : World}
    (h : wp manual ok Q (fun _ _ => False) test w) : Passes test w where
  quiet := by
    intro tr out w' hr e he
    obtain ⟨tr₁, tr₂, rfl⟩ := List.append_of_mem he
    obtain ⟨m, -, hm⟩ := wp_each h hr
    exact hok m e.1 hm
  asserts := by
    rintro tr out w' hr rfl
    exact wp_post h hr
  completes := by
    obtain ⟨tr, out, w', hr, hout⟩ := run_exists manual_total test w
    cases out with
    | running => exact absurd rfl hout
    | returned u => exact ⟨tr, w', hr⟩
    | exited x => exact (wp_post h hr).elim

/-! ## Memory -/

/-- Copying one more byte. -/
theorem blit_succ (b : Buffer) (offset : Nat) (data : Buffer) (len : Nat) :
    Function.update (blit b offset data len) (offset + len) (data len)
      = blit b offset data (len + 1) := by
  funext i
  by_cases hi : i = offset + len
  · rw [hi, Function.update_self, blit, if_pos (by omega),
      Nat.add_sub_cancel_left]
  · rw [Function.update_of_ne hi, blit, blit]
    by_cases hin : offset ≤ i ∧ i < offset + len
    · rw [if_pos hin, if_pos (by omega)]
    · rw [if_neg hin, if_neg (by omega)]

theorem blit_zero (b : Buffer) (offset : Nat) (data : Buffer) :
    blit b offset data 0 = b := by
  funext i
  exact if_neg (by omega)

/-! ## Contents of a file -/

section Contents

variable {f : File} {pos nbytes : Nat} {data : Buffer}

theorem write_size (h : 0 < nbytes) :
    (f.write pos data nbytes).size = max f.size (pos + nbytes) := by
  rw [File.write, if_neg (Nat.ne_of_gt h)]

theorem write_inside {i : Nat} (hle : pos ≤ i) (hlt : i < pos + nbytes) :
    (f.write pos data nbytes).byte i = data (i - pos) := by
  rw [File.write, if_neg (by omega)]
  exact if_pos ⟨hle, hlt⟩

theorem write_outside {i : Nat} (hi : i < f.size)
    (hout : ¬ (pos ≤ i ∧ i < pos + nbytes)) :
    (f.write pos data nbytes).byte i = f.byte i := by
  rw [File.write]
  split
  · rfl
  · show (if _ then _ else _) = _
    rw [if_neg hout, if_pos hi]

end Contents

/-- The file of the view is equal to `buf_orig`. -/
def Mirror (v : View) : Prop :=
  v.contents.size = size ∧ ∀ i < size, v.contents.byte i = v.orig i

theorem mirrors_of_stored {w : World} {v : View}
    (h : Stored w v.contents v.orig v.cmp) (hv : Mirror v) : Mirrors w := by
  refine ⟨v.contents, h.file, hv.1, ?_⟩
  rw [h.orig]
  exact hv.2

theorem mirrors_of_shows {w : World} {v : View} (h : Shows w v)
    (hv : Mirror v) : Mirrors w :=
  mirrors_of_stored h.stored hv

/-- The descriptor is open, and the file is equal to `buf_orig`. -/
def Ready (fd : Int) (writable : Bool) (w : World) : Prop :=
  ∃ v, Shows w v ∧ v.fd = fd ∧ v.writable = writable ∧ Mirror v

/-! ## Comparing -/

section Rules

variable {ok : World → FullOp → Prop} {E : Unit → World → Prop} {w : World}

/-- A loop that compares `buf_cmp` with bytes of `buf_orig` equal to it. -/
theorem wp_compare (hok : Lenient ok) {v : View} (h : Shows w v)
    {check : Nat → Byte → Byte → Full Unit} (hcheck : ∀ i b, check i b b = pure ())
    (index : Nat → Nat) {count : Nat}
    (heq : ∀ i < count, v.cmp i = v.orig (index i)) :
    wp manual ok (fun _ w' => w' = w) E
      (forRange
        (fun i => do
          let found ← load (bufCmp i)
          let expected ← load (bufOrig (index i))
          check i found expected)
        count 0) w := by
  refine wp_forRange (I := fun _ w' => w' = w) ?_ rfl
  rintro i w' - hlt rfl
  refine (wp_bind _ _ _).mpr (wp_load h (hok.load _ _) ?_)
  refine (wp_bind _ _ _).mpr (wp_load h (hok.load _ _) ?_)
  have hbyte : v.array .bufCmp i = v.array .bufOrig (index i) :=
    heq i (by omega)
  show wp _ _ _ _ (check i (v.array .bufCmp i) (v.array .bufOrig (index i))) _
  rw [hbyte, hcheck]
  rfl

/-! ## Reading blocks at random -/

/-- A block read from the file is what `buf_orig` holds there. -/
theorem mirror_read {v : View} (hv : Mirror v) {pos nbytes : Nat}
    (hend : pos + nbytes ≤ size) :
    ∀ i < nbytes, ((v.seek pos).read nbytes).cmp i = v.orig (pos + i) := by
  intro i hi
  rw [show ((v.seek pos).read nbytes).cmp i = v.contents.byte (pos + (i - 0))
    from if_pos ⟨Nat.zero_le i, by omega⟩]
  exact hv.2 _ (by omega)

theorem wp_readBlock (hok : Lenient ok) {fd : Int} {writable : Bool}
    (h : Ready fd writable w) :
    wp manual ok (fun returned w' => returned = false ∧ Ready fd writable w') E
      (readBlock fd) w := by
  obtain ⟨v, hv, rfl, rfl, hm⟩ := h
  refine (wp_bind _ _ _).mpr (wp_random (hok.rand _) ?_)
  intro pos hpos
  have hend : pos + block ≤ size := by omega
  refine (wp_bind _ _ _).mpr (wp_lseek hv _ (hok.tfsLseek _ _ _ _) ?_)
  intro w₁ h₁
  rw [if_neg (not_not_intro rfl)]
  refine (wp_bind _ _ _).mpr (wp_read h₁ (hok.tfsRead _ _ _ _)
    (hend.trans hm.1.ge) ?_)
  intro w₂ h₂
  rw [if_neg (not_not_intro rfl)]
  refine wp_seq (wp_compare hok h₂ ?_ _ (mirror_read hm hend)) ?_
  · intro i b
    exact if_neg (not_not_intro rfl)
  · rintro _ w₃ rfl
    exact ⟨rfl, _, h₂, rfl, rfl, hm⟩

theorem wp_readBlockAgain (hok : Lenient ok) {fd : Int} {writable : Bool}
    (h : Ready fd writable w) :
    wp manual ok (fun _ w' => Ready fd writable w') E (readBlockAgain fd) w := by
  obtain ⟨v, hv, rfl, rfl, hm⟩ := h
  refine (wp_bind _ _ _).mpr (wp_random (hok.rand _) ?_)
  intro pos hpos
  have hend : pos + block ≤ size := by omega
  refine (wp_bind _ _ _).mpr (wp_lseek hv _ (hok.tfsLseek _ _ _ _) ?_)
  intro w₁ h₁
  refine (wp_bind _ _ _).mpr (wp_assert rfl ?_)
  refine (wp_bind _ _ _).mpr (wp_read h₁ (hok.tfsRead _ _ _ _)
    (hend.trans hm.1.ge) ?_)
  intro w₂ h₂
  rw [if_neg (not_not_intro rfl)]
  refine (wp_pure_bind _ _ _).mpr ?_
  refine wp_mono ?_ (wp_compare hok h₂ ?_ _ (mirror_read hm hend))
  · rintro _ w₃ rfl
    exact ⟨_, h₂, rfl, rfl, hm⟩
  · intro i b
    exact if_neg (not_not_intro rfl)

end Rules

/-! ## `tst_seq_write_rand_read` -/

/-- A new file after all of `buf_orig` has been written to it. -/
theorem mirror_of_write {v : View} (hnew : v.contents = File.empty) :
    Mirror ((v.seek 0).write (bufOrig 0) size) := by
  constructor
  · show (v.contents.write 0 _ size).size = size
    rw [write_size (by decide), hnew]
    rfl
  · intro i hi
    show (v.contents.write 0 (fun j => v.orig (0 + j)) size).byte i = v.orig i
    rw [write_inside (Nat.zero_le i) (by omega), Nat.zero_add, Nat.sub_zero]

theorem wp_tstSeqWriteRandRead (w : World) :
    wp manual Calm (fun _ => Mirrors) (fun _ _ => False) tstSeqWriteRandRead w := by
  have hok := lenient_calm
  refine (wp_bind _ _ _).mpr (wp_printf (hok.printf _ _ _ (by simp [progress])) ?_)
  refine (wp_bind _ _ _).mpr (wp_open_new (hok.tfsOpen _ _ _ _) ?_)
  intro fd w₁ hfd h₁
  rw [if_neg hfd]
  -- `buf_orig` is filled
  refine wp_seq (wp_forRange (I := fun _ m => ∃ v, Shows m v ∧ v.fd = fd ∧
    v.writable = true ∧ v.contents = File.empty) ?_ ⟨_, h₁, rfl, rfl, rfl⟩) ?_
  · rintro i m - - ⟨v, hv, hvfd, hwritable, hnew⟩
    refine wp_storeInt hv (hok.storeInt _ _ _) ?_
    intro m' hv'
    exact ⟨_, hv', hvfd, hwritable, hnew⟩
  rintro _ w₂ ⟨v, hv, rfl, hwritable, hnew⟩
  refine (wp_bind _ _ _).mpr (wp_lseek hv 0 (hok.tfsLseek _ _ _ _) ?_)
  intro w₃ h₃
  rw [if_neg (not_not_intro Int.natCast_zero)]
  refine (wp_bind _ _ _).mpr (wp_write h₃ hwritable (fun _ h => h) ?_)
  intro w₄ h₄
  rw [if_neg (not_not_intro rfl)]
  have hready : Ready v.fd true w₄ :=
    ⟨_, h₄, rfl, hwritable, mirror_of_write hnew⟩
  refine wp_seq (wp_forUntil (I := fun _ => Ready v.fd true)
    (L := fun _ => False) ?_ hready) ?_
  · rintro count m - - h
    refine wp_mono ?_ (wp_readBlock hok h)
    rintro returned m' ⟨rfl, h'⟩
    exact h'
  intro returned w₅ h₅
  cases returned with
  | true => exact h₅.elim
  | false =>
      obtain ⟨v₅, hv₅, hfd₅, -, hm₅⟩ := h₅
      rw [← hfd₅]
      refine (wp_bind _ _ _).mpr (wp_close hv₅ (fun h => h) ?_)
      intro w₆ hstored
      rw [if_neg (not_not_intro rfl)]
      refine (wp_pure_bind _ _ _).mpr ?_
      refine (wp_bind _ _ _).mpr (wp_open_again hstored (hok.tfsOpen _ _ _ _) ?_)
      intro fd' w₇ h₇
      have hready' : Ready fd' false w₇ := ⟨_, h₇, rfl, rfl, hm₅⟩
      refine wp_seq (wp_forRange (I := fun _ => Ready fd' false) ?_ hready') ?_
      · rintro count m - - h
        exact wp_readBlockAgain hok h
      rintro _ w₈ ⟨v₈, hv₈, rfl, -, hm₈⟩
      refine (wp_bind _ _ _).mpr (wp_close hv₈ (fun h => h) ?_)
      intro w₉ h₉
      exact wp_assert rfl (mirrors_of_stored h₉ hm₈)

/-! ## `overwrite_tst` -/

/-- The view after `count` turns of the loop that fills a window. -/
def filled (v : View) (pos : Nat) (b : Byte) (count : Nat) : View :=
  { v with
    orig := blit v.orig pos (fun _ => b) count
    cmp := blit v.cmp 0 (fun _ => b) count }

/-- A window of `buf_orig` that is filled and written keeps the two equal,
    whatever was written before. -/
theorem mirror_overwrite {v : View} (hm : Mirror v) {pos : Nat} (b : Byte)
    (hend : pos + block ≤ size) :
    Mirror (((filled v pos b block).seek pos).write (bufCmp 0) block) := by
  obtain ⟨hsize, hbyte⟩ := hm
  constructor
  · show (v.contents.write pos _ block).size = size
    rw [write_size (by decide), hsize]
    exact Nat.max_eq_left hend
  · intro i hi
    show (v.contents.write pos
      (fun j => blit v.cmp 0 (fun _ => b) block (0 + j)) block).byte i
        = blit v.orig pos (fun _ => b) block i
    by_cases hin : pos ≤ i ∧ i < pos + block
    · rw [write_inside hin.1 hin.2, blit, if_pos (by omega), blit, if_pos hin]
    · rw [write_outside (hi.trans_eq hsize.symm) hin, blit, if_neg hin]
      exact hbyte i hi

section Overwriting

variable {E : Unit → World → Prop} {w : World}

theorem wp_fill {ok : World → FullOp → Prop} (hok : Lenient ok) {v : View}
    (h : Shows w v) (pos : Nat) (b : Byte) (count : Nat) :
    wp manual ok (fun _ w' => Shows w' (filled v pos b count)) E
      (forRange
        (fun j => do
          store (bufCmp j) b
          store (bufOrig (pos + j)) b)
        count 0) w := by
  have hstart : Shows w (filled v pos b 0) := by
    rw [filled, blit_zero, blit_zero]
    exact h
  refine wp_mono ?_ (wp_forRange (I := fun j m => Shows m (filled v pos b j))
    ?_ hstart)
  · intro _ w' h'
    rw [Nat.zero_add] at h'
    exact h'
  rintro j m - - hm
  refine (wp_bind _ _ _).mpr (wp_store hm (hok.store _ _ _) ?_)
  intro m₁ h₁
  refine wp_store h₁ (hok.store _ _ _) ?_
  intro m₂ h₂
  have hcmp := blit_succ v.cmp 0 (fun _ => b) j
  rw [Nat.zero_add] at hcmp
  rw [filled, ← blit_succ, ← hcmp]
  exact h₂

theorem wp_overwriteBlock {fd : Int} (h : Ready fd true w) (count : Nat) :
    wp manual CalmWrites (fun returned w' => returned = false ∧ Ready fd true w') E
      (overwriteBlock fd count) w := by
  have hok := lenient_calmWrites
  obtain ⟨v, hv, rfl, hwritable, hm⟩ := h
  refine (wp_bind _ _ _).mpr (wp_random (hok.rand _) ?_)
  intro pos hpos
  refine wp_seq (wp_fill hok hv pos _ block) ?_
  intro _ w₁ h₁
  have hwindow : pos + block ≤ size := by omega
  have hm' := mirror_overwrite hm (BitVec.ofNat 8 count) hwindow
  refine (wp_bind _ _ _).mpr (wp_lseek h₁ _ (hok.tfsLseek _ _ _ _) ?_)
  intro w₂ h₂
  rw [if_neg (not_not_intro rfl)]
  refine (wp_bind _ _ _).mpr (wp_write h₂ hwritable ?_ ?_)
  · intro hshows rv m hrv
    exact mirrors_of_shows (hshows rv m hrv) hm'
  intro w₃ h₃
  refine (wp_bind _ _ _).mpr (wp_assert rfl ?_)
  -- the block that is read overlaps the one that was written
  refine (wp_bind _ _ _).mpr
    (wp_lseek h₃ (pos - 100) (hok.tfsLseek _ _ _ _) ?_)
  intro w₄ h₄
  have hend : pos - 100 + block ≤ size := by omega
  refine (wp_bind _ _ _).mpr (wp_assert rfl ?_)
  refine (wp_bind _ _ _).mpr (wp_read h₄ (hok.tfsRead _ _ _ _)
    (hend.trans hm'.1.ge) ?_)
  intro w₅ h₅
  rw [if_neg (not_not_intro rfl)]
  refine (wp_pure_bind _ _ _).mpr ?_
  refine (wp_bind _ _ _).mpr (wp_assert rfl ?_)
  refine wp_seq (wp_compare hok h₅ ?_ _ (mirror_read hm' hend)) ?_
  · intro i b
    exact if_neg (not_not_intro rfl)
  · rintro _ w₆ rfl
    exact ⟨rfl, _, h₅, rfl, hwritable, hm'⟩

theorem wp_overwriteTst (w : World) :
    wp manual CalmWrites (fun _ => Mirrors) (fun _ _ => False) overwriteTst w := by
  have hok := lenient_calmWrites
  refine (wp_bind _ _ _).mpr (wp_printf (hok.printf _ _ _ (by simp [progress])) ?_)
  refine (wp_bind _ _ _).mpr (wp_open_new (hok.tfsOpen _ _ _ _) ?_)
  intro fd w₁ hfd h₁
  refine (wp_bind _ _ _).mpr (wp_assert hfd ?_)
  refine wp_seq (wp_forRange (I := fun _ m => ∃ v, Shows m v ∧ v.fd = fd ∧
    v.writable = true ∧ v.contents = File.empty) ?_ ⟨_, h₁, rfl, rfl, rfl⟩) ?_
  · rintro i m - - ⟨v, hv, hvfd, hwritable, hnew⟩
    refine wp_store hv (hok.store _ _ _) ?_
    intro m' hv'
    exact ⟨_, hv', hvfd, hwritable, hnew⟩
  rintro _ w₂ ⟨v, hv, rfl, hwritable, hnew⟩
  refine (wp_bind _ _ _).mpr (wp_lseek hv 0 (hok.tfsLseek _ _ _ _) ?_)
  intro w₃ h₃
  refine (wp_bind _ _ _).mpr (wp_assert rfl ?_)
  have hm := mirror_of_write hnew
  refine (wp_bind _ _ _).mpr (wp_write h₃ hwritable ?_ ?_)
  · intro hshows rv m hrv
    exact mirrors_of_shows (hshows rv m hrv) hm
  intro w₄ h₄
  refine (wp_bind _ _ _).mpr (wp_assert rfl ?_)
  refine (wp_bind _ _ _).mpr (wp_printf (hok.printf _ _ _ (by simp [progress])) ?_)
  have hready : Ready v.fd true w₄ := ⟨_, h₄, rfl, hwritable, hm⟩
  refine wp_seq (wp_forUntil (I := fun _ => Ready v.fd true)
    (L := fun _ => False) ?_ hready) ?_
  · rintro count m - - h
    refine wp_mono ?_ (wp_overwriteBlock h count)
    rintro returned m' ⟨rfl, h'⟩
    exact h'
  intro returned w₅ h₅
  cases returned with
  | true => exact h₅.elim
  | false =>
      obtain ⟨v₅, hv₅, hfd₅, -, hm₅⟩ := h₅
      rw [← hfd₅]
      refine (wp_bind _ _ _).mpr (wp_printf (hok.printf _ _ _ (by simp [progress])) ?_)
      refine (wp_bind _ _ _).mpr
        (wp_lseek hv₅ 0 (hok.tfsLseek _ _ _ _) ?_)
      intro w₆ h₆
      refine (wp_bind _ _ _).mpr (wp_assert rfl ?_)
      refine (wp_bind _ _ _).mpr (wp_read h₆ (hok.tfsRead _ _ _ _) ?_ ?_)
      · exact (Nat.zero_add size).trans_le hm₅.1.ge
      intro w₇ h₇
      refine (wp_bind _ _ _).mpr (wp_assert rfl ?_)
      refine wp_seq (wp_compare hok h₇ ?_ (fun j => j) ?_) ?_
      · intro j b
        rw [decide_eq_true rfl]
        rfl
      · intro j hj
        exact (mirror_read hm₅ (Nat.zero_add size).le j hj).trans
          (congrArg v₅.orig (Nat.zero_add j))
      · rintro _ w₈ rfl
        refine (wp_bind _ _ _).mpr (wp_close (v := (v₅.seek 0).read size) h₇ ?_ ?_)
        · exact fun h => h
        · exact fun _ h₉ => mirrors_of_stored h₉ hm₅

end Overwriting

/-! ## `tst_rand_write_seq_read` -/

/-- Byte `i` of the file is there and is what `buf_orig` holds. -/
def Written (v : View) (i : Nat) : Prop :=
  i < v.contents.size ∧ v.contents.byte i = v.orig i

/-- The bytes that `buf_cmp` marks, and the first `n`, are written, and the
    file is not too long. -/
structure Marked (n : Nat) (v : View) : Prop where
  size_le : v.contents.size ≤ size
  marks : ∀ i < size, v.cmp i ≠ 0 → Written v i
  first : ∀ i < n, Written v i

/-- A part of `buf_orig` that is written to its own place. -/
def putBack (v : View) (pos count : Nat) : View :=
  (v.seek pos).write (bufOrig pos) count

section PutBack

variable {v : View} {pos count : Nat}

theorem written_inside {i : Nat} (hle : pos ≤ i) (hlt : i < pos + count) :
    Written (putBack v pos count) i := by
  constructor
  · show i < (v.contents.write pos _ count).size
    rw [write_size (by omega)]
    exact lt_max_of_lt_right hlt
  · show (v.contents.write pos (fun j => v.orig (pos + j)) count).byte i = v.orig i
    rw [write_inside hle hlt, Nat.add_sub_cancel' hle]

theorem written_putBack (hcount : 0 < count) {i : Nat} (h : Written v i) :
    Written (putBack v pos count) i := by
  by_cases hin : pos ≤ i ∧ i < pos + count
  · exact written_inside hin.1 hin.2
  · constructor
    · show i < (v.contents.write pos _ count).size
      rw [write_size hcount]
      exact lt_max_of_lt_left h.1
    · show (v.contents.write pos (fun j => v.orig (pos + j)) count).byte i = v.orig i
      rw [write_outside h.1 hin]
      exact h.2

theorem marked_putBack {n : Nat} (hm : Marked n v) (hcount : 0 < count)
    (hend : pos + count ≤ size) : Marked n (putBack v pos count) where
  size_le := by
    show (v.contents.write pos _ count).size ≤ size
    rw [write_size hcount]
    exact max_le hm.size_le hend
  marks := fun i hi hmark => written_putBack hcount (hm.marks i hi hmark)
  first := fun i hi => written_putBack hcount (hm.first i hi)

end PutBack

/-- **NO GAP IS LEFT**: where all bytes are written, the file is equal to
    `buf_orig` and no longer. -/
theorem mirror_of_marked {v : View} (hm : Marked size v) : Mirror v := by
  constructor
  · have hlast := (hm.first (size - 1) (by decide)).1
    have hle := hm.size_le
    omega
  · intro i hi
    exact (hm.first i hi).2

/-- The descriptor is open for writing, and its view satisfies `P`. -/
def Editing (fd : Int) (P : View → Prop) (w : World) : Prop :=
  ∃ v, Shows w v ∧ v.fd = fd ∧ v.writable = true ∧ P v

section Filling

variable {ok : World → FullOp → Prop} {E : Unit → World → Prop} {w : World}

/-- The next `count` bytes of the array, as `gapLength` counts them: none of
    them where the first one is marked. -/
theorem wp_gapLength (hok : Lenient ok) {v : View} (h : Shows w v)
    (i left count : Nat) :
    wp manual ok
      (fun n w' => w' = w ∧ n ≤ count + left ∧ count ≤ n ∧
        (0 < left → n = count → v.cmp (i + count) ≠ 0)) E
      (gapLength i left count) w := by
  induction left generalizing count with
  | zero => exact ⟨rfl, Nat.le_refl _, Nat.le_refl _, fun h => absurd h (by decide)⟩
  | succ left ih =>
      refine (wp_bind _ _ _).mpr (wp_load h (hok.load _ _) ?_)
      show wp manual ok _ E
        (if v.cmp (i + count) ≠ 0 then pure count
          else gapLength i left (count + 1)) w
      by_cases hmark : v.cmp (i + count) ≠ 0
      · rw [if_pos hmark]
        exact ⟨rfl, by omega, Nat.le_refl _, fun _ _ => hmark⟩
      · rw [if_neg hmark]
        refine wp_mono ?_ (ih (count + 1))
        rintro n w' ⟨rfl, hle, hge, -⟩
        exact ⟨rfl, by omega, by omega, fun _ heq => absurd heq (by omega)⟩

/-- Turn `i` leaves byte `i` written. -/
theorem wp_fillGap (hok : Lenient ok)
    (hwrite : ∀ w fd buf nbytes, ok w (.tfsWrite fd buf nbytes)) {fd : Int}
    {i : Nat} (hi : i < size) (h : Editing fd (Marked i) w) :
    wp manual ok (fun _ => Editing fd (Marked (i + 1))) E (fillGap fd i) w := by
  obtain ⟨v, hv, rfl, hwritable, hm⟩ := h
  refine wp_seq (wp_gapLength hok hv i (size - i) 0) ?_
  rintro count w₁ ⟨rfl, hle, -, hmark⟩
  by_cases hcount : count > 0
  · rw [if_pos hcount]
    refine (wp_bind _ _ _).mpr (wp_lseek hv _ (hok.tfsLseek _ _ _ _) ?_)
    intro w₂ h₂
    refine (wp_bind _ _ _).mpr (wp_write h₂ hwritable (fun _ => hwrite _ _ _ _) ?_)
    intro w₃ h₃
    have hgap : i + count ≤ size := by omega
    have hm' := marked_putBack hm hcount hgap
    refine ⟨_, h₃, rfl, hwritable, hm'.size_le, hm'.marks, ?_⟩
    intro k hk
    rcases Nat.lt_succ_iff_lt_or_eq.mp hk with hlt | rfl
    · exact hm'.first k hlt
    · exact written_inside (Nat.le_refl k) (by omega)
  · rw [if_neg hcount]
    refine ⟨v, hv, rfl, hwritable, hm.size_le, hm.marks, ?_⟩
    intro k hk
    rcases Nat.lt_succ_iff_lt_or_eq.mp hk with hlt | rfl
    · exact hm.first k hlt
    · exact hm.marks k hi (hmark (by omega) (by omega))

/-- A block that is written is marked after it is written. -/
theorem wp_writeBlock (hok : Lenient ok)
    (hwrite : ∀ w fd buf nbytes, ok w (.tfsWrite fd buf nbytes)) {fd : Int}
    (h : Editing fd (Marked 0) w) :
    wp manual ok (fun _ => Editing fd (Marked 0)) E (writeBlock fd) w := by
  obtain ⟨v, hv, rfl, hwritable, hm⟩ := h
  refine (wp_bind _ _ _).mpr (wp_random (hok.rand _) ?_)
  intro pos hpos
  refine (wp_bind _ _ _).mpr (wp_lseek hv _ (hok.tfsLseek _ _ _ _) ?_)
  intro w₁ h₁
  refine (wp_bind _ _ _).mpr (wp_write h₁ hwritable (fun _ => hwrite _ _ _ _) ?_)
  intro w₂ h₂
  have hwindow : pos + block ≤ size := by omega
  have hm' := marked_putBack hm (by decide) hwindow
  have hstart : Editing v.fd (fun u => Marked 0 u ∧
      ∀ k, pos ≤ k → k < pos + block → Written u k) w₂ :=
    ⟨_, h₂, rfl, hwritable, hm', fun k hle hlt => written_inside hle hlt⟩
  refine wp_mono ?_ (wp_forRange (I := fun _ => Editing v.fd (fun u => Marked 0 u ∧
    ∀ k, pos ≤ k → k < pos + block → Written u k)) ?_ hstart)
  · rintro _ m ⟨u, hu, hfd, huw, hum, -⟩
    exact ⟨u, hu, hfd, huw, hum⟩
  rintro i m - hi ⟨u, hu, hfd, huw, hum, hin⟩
  refine wp_store hu (hok.store _ _ _) ?_
  intro m' hu'
  refine ⟨_, hu', hfd, huw, ⟨hum.size_le, ?_, hum.first⟩, hin⟩
  intro k hk hmark
  by_cases hki : k = pos + i
  · exact hin k (by omega) (by omega)
  · refine hum.marks k hk ?_
    rw [← Function.update_of_ne hki (1 : Byte) u.cmp]
    exact hmark

end Filling

/-- Filling the two arrays: nothing is marked. -/
theorem wp_setUp {ok : World → FullOp → Prop} (hok : Lenient ok)
    {E : Unit → World → Prop} {w : World} {fd : Int}
    (h : Editing fd (fun v => v.contents = File.empty) w) :
    wp manual ok (fun _ => Editing fd (Marked 0)) E
      (forRange
        (fun i => do
          let r ← rand
          store (bufOrig i) (r.setWidth 8)
          store (bufCmp i) 0)
        size 0) w := by
  obtain ⟨v, hv, hfd, hwritable, hnew⟩ := h
  refine wp_mono ?_ (wp_forRange (I := fun n => Editing fd
    (fun u => u.contents = File.empty ∧ ∀ k < n, u.cmp k = 0)) ?_
    ⟨v, hv, hfd, hwritable, hnew, fun k hk => absurd hk (Nat.not_lt_zero k)⟩)
  · rintro _ m ⟨u, hu, hufd, huw, hempty, hzero⟩
    refine ⟨u, hu, hufd, huw, ?_, ?_, fun k hk => absurd hk (Nat.not_lt_zero k)⟩
    · rw [hempty]
      exact Nat.zero_le size
    · intro k hk hmark
      exact absurd (hzero k (by omega)) hmark
  rintro i m - - ⟨u, hu, hufd, huw, hempty, hzero⟩
  refine (wp_bind _ _ _).mpr (wp_rand (hok.rand _) ?_)
  intro r
  refine (wp_bind _ _ _).mpr (wp_store hu (hok.store _ _ _) ?_)
  intro m₂ h₂
  refine wp_store h₂ (hok.store _ _ _) ?_
  intro m₃ h₃
  refine ⟨_, h₃, hufd, huw, hempty, ?_⟩
  intro k hk
  show Function.update u.cmp i 0 k = 0
  by_cases hki : k = i
  · rw [hki, Function.update_self]
  · rw [Function.update_of_ne hki]
    exact hzero k (by omega)

theorem wp_tstRandWriteSeqRead (w : World) :
    wp manual CalmCloses (fun _ => Mirrors) (fun _ _ => False)
      tstRandWriteSeqRead w := by
  have hok := lenient_calmCloses
  have hwrite : ∀ w fd buf nbytes, CalmCloses w (.tfsWrite fd buf nbytes) :=
    fun _ _ _ _ h => h
  refine (wp_bind _ _ _).mpr (wp_printf (hok.printf _ _ _ (by simp [progress])) ?_)
  refine (wp_bind _ _ _).mpr (wp_open_new (hok.tfsOpen _ _ _ _) ?_)
  intro fd w₁ hfd h₁
  rw [if_neg hfd]
  refine wp_seq (wp_setUp hok ⟨_, h₁, rfl, rfl, rfl⟩) ?_
  intro _ w₂ h₂
  refine wp_seq (wp_forRange (I := fun _ => Editing fd (Marked 0)) ?_ h₂) ?_
  · rintro count m - - h
    exact wp_writeBlock hok hwrite h
  intro _ w₃ h₃
  refine wp_seq (wp_forRange (I := fun n => Editing fd (Marked n)) ?_ h₃) ?_
  · intro i m _ hi h
    exact wp_fillGap hok hwrite (by omega) h
  rintro _ w₄ ⟨v, hv, rfl, -, hmarked⟩
  rw [Nat.zero_add] at hmarked
  have hm := mirror_of_marked hmarked
  refine (wp_bind _ _ _).mpr (wp_close hv (mirrors_of_shows hv hm) ?_)
  intro w₅ hstored
  refine (wp_bind _ _ _).mpr (wp_open_again hstored (hok.tfsOpen _ _ _ _) ?_)
  intro fd' w₆ h₆
  have hm₆ : Mirror ⟨fd', false, v.contents, 0, v.orig, v.cmp⟩ := hm
  refine (wp_bind _ _ _).mpr (wp_read h₆ (hok.tfsRead _ _ _ _) ?_ ?_)
  · exact (Nat.zero_add size).trans_le hm.1.ge
  intro w₇ h₇
  rw [if_neg (not_not_intro rfl)]
  refine (wp_pure_bind _ _ _).mpr ?_
  refine wp_seq (wp_compare hok h₇ ?_ (fun i => i) ?_) ?_
  · intro i b
    exact if_neg (not_not_intro rfl)
  · intro i hi
    exact (mirror_read hm₆ (Nat.zero_add size).le i hi).trans
      (congrArg v.orig (Nat.zero_add i))
  · rintro _ w₈ rfl
    refine (wp_bind _ _ _).mpr (wp_close (v := View.read ⟨fd', false, v.contents, 0,
      v.orig, v.cmp⟩ size) h₇ (mirrors_of_shows h₇ hm) ?_)
    exact fun _ h₉ => mirrors_of_stored h₉ hm

/-! ## How often the tests write and close -/

/-- The calls that write, and those that close. -/
def isWrite : FullOp → Bool
  | .tfsWrite _ _ _ => true
  | _ => false

def isClose : FullOp → Bool
  | .tfsClose _ => true
  | _ => false

section Counting

variable {A : Type} {counted : FullOp → Bool} {n : Nat}

/-- Where the piece returns without an alarm, `Q` holds of the number of
    counted calls. -/
def Counts (counted : FullOp → Bool) (Q : A → Nat → Prop) (p : Full A)
    (n : Nat) : Prop :=
  wp (counting counted Alarm) (fun _ _ => True) Q (fun _ _ => True) p n

theorem counts_op {o : FullOp} {f : o.Res → Full A} {Q : A → Nat → Prop}
    (h : ∀ r, Counts counted Q (f r) (n + (counted o).toNat)) :
    Counts counted Q (perform o >>= f) n :=
  (wp_counting o f n).mpr ⟨trivial, fun _ => h⟩

theorem counts_alarm {o : FullOp} {f : o.Res → Full A} {Q : A → Nat → Prop}
    (ho : Alarm o) : Counts counted Q (perform o >>= f) n :=
  (wp_counting o f n).mpr ⟨trivial, fun h => absurd ho h⟩

theorem counts_assert {f : Unit → Full A} {Q : A → Nat → Prop} {b : Bool}
    (h : Counts counted Q (f ()) n) : Counts counted Q (assert b >>= f) n := by
  cases b with
  | true => exact h
  | false => trivial

/-- A piece without counted calls. -/
theorem counts_none {B : Type} {p : Full B} {f : B → Full A}
    {Q : A → Nat → Prop}
    (hp : Only (fun o => counted o = false) (fun _ => True) p)
    (h : ∀ b, Counts counted Q (f b) n) : Counts counted Q (p >>= f) n :=
  wp_seq (wp_uncounted hp (fun _ => trivial)) (fun b _ hb => hb ▸ h b)

/-- A loop with `k` counted calls in each turn that is not left. -/
theorem counts_forUntil {body : Nat → Full Bool} {f : Bool → Full A}
    {Q : A → Nat → Prop} {k left : Nat}
    (hbody : ∀ j m, Counts counted (fun leave m' => leave = false ∧ m' = m + k)
      (body j) m)
    (h : Counts counted Q (f false) (n + k * left)) :
    Counts counted Q (forUntil body left 0 >>= f) n := by
  refine wp_seq (wp_forUntil (I := fun j m => m = n + k * j)
    (L := fun _ => False) ?_ rfl) ?_
  · rintro j m - - rfl
    refine wp_mono ?_ (hbody j _)
    rintro leave m' ⟨rfl, rfl⟩
    exact (Nat.add_assoc _ _ _).trans (congrArg (n + ·) (Nat.mul_succ k j).symm)
  · intro leave m hm
    cases leave with
    | true => exact hm.elim
    | false =>
        rw [Nat.zero_add] at hm
        exact hm ▸ h

/-- The loops that compare `buf_cmp` with `buf_orig`. -/
theorem only_compare {S : FullOp → Prop} {P : Unit → Prop}
    (hload : ∀ p, S (.load p)) {check : Nat → Byte → Byte → Full Unit}
    (hcheck : ∀ i a b, Only S P (check i a b)) (index : Nat → Nat)
    (count : Nat) :
    Only S P
      (forRange
        (fun i => do
          let found ← load (bufCmp i)
          let expected ← load (bufOrig (index i))
          check i found expected)
        count 0) := by
  refine only_forRange (fun i => ?_) _ _
  exact ⟨hload _, fun _ => ⟨hload _, fun _ => hcheck i _ _⟩⟩

theorem only_assert {S : FullOp → Prop} (b : Bool) :
    Only S (fun _ => True) (assert b) := by
  cases b <;> trivial

end Counting

/-- A turn of the first reading loop that is not left. -/
theorem counts_readBlock (fd : Int) (n : Nat) :
    Counts isWrite (fun returned m => returned = false ∧ m = n + 0)
      (readBlock fd) n := by
  refine counts_none ⟨rfl, fun _ => trivial⟩ (fun pos => ?_)
  refine counts_op (o := .tfsLseek _ _ _) (fun rv => ?_)
  split
  · exact counts_alarm (o := .seriousError _) trivial
  refine counts_op (o := .tfsRead _ _ _) (fun rv' => ?_)
  split
  · exact counts_alarm (o := .seriousError _) trivial
  refine counts_none (only_compare (fun _ => rfl) ?_ _ _) (fun _ => ⟨rfl, rfl⟩)
  intro i a b
  split
  · exact ⟨rfl, fun _ => ⟨rfl, fun _ => trivial⟩⟩
  · trivial

theorem only_readBlockAgain (fd : Int) :
    Only (fun o => isWrite o = false) (fun _ => True) (readBlockAgain fd) := by
  refine only_bind ⟨rfl, fun _ => trivial⟩ (fun pos => ?_)
  refine only_bind ⟨rfl, fun _ => trivial⟩ (fun rv => ?_)
  refine only_bind (only_assert _) (fun _ => ?_)
  refine only_bind ⟨rfl, fun _ => trivial⟩ (fun rv' => ?_)
  refine only_bind ?_ (fun _ => only_compare (fun _ => rfl) ?_ _ _)
  · split
    · exact ⟨rfl, fun _ => only_assert _⟩
    · trivial
  intro i a b
  split
  · exact ⟨rfl, fun _ => trivial⟩
  · trivial

theorem counts_tstSeqWriteRandRead :
    Counts isWrite (fun _ n => n = 1) tstSeqWriteRandRead 0 := by
  refine counts_op (o := .printf _ _) (fun _ => ?_)
  refine counts_op (o := .tfsOpen _ _ _) (fun fd => ?_)
  split
  · exact counts_alarm (o := .seriousError _) trivial
  refine counts_none (only_forRange (fun i => ?_) _ _) (fun _ => ?_)
  · exact ⟨rfl, fun _ => trivial⟩
  refine counts_op (o := .tfsLseek _ _ _) (fun rv => ?_)
  split
  · exact counts_alarm (o := .seriousError _) trivial
  refine counts_op (o := .tfsWrite _ _ _) (fun rv' => ?_)
  split
  · exact counts_alarm (o := .seriousError _) trivial
  refine counts_forUntil (fun _ => counts_readBlock fd) ?_
  refine counts_op (o := .tfsClose _) (fun rv'' => ?_)
  refine counts_none ?_ (fun _ => ?_)
  · split
    · exact ⟨rfl, fun _ => trivial⟩
    · trivial
  refine counts_op (o := .tfsOpen _ _ _) (fun fd' => ?_)
  refine counts_none (only_forRange (fun _ => only_readBlockAgain fd') _ _)
    (fun _ => ?_)
  refine counts_op (o := .tfsClose _) (fun _ => ?_)
  exact wp_mono (fun _ _ h => h)
    (wp_uncounted (only_assert _) (fun _ => trivial))

theorem only_gapLength (i left count : Nat) :
    Only (fun o => isClose o = false) (fun _ => True) (gapLength i left count) := by
  induction left generalizing count with
  | zero => trivial
  | succ left ih =>
      refine ⟨rfl, fun written => ?_⟩
      show Only _ _ (if written ≠ 0 then _ else _)
      split
      · trivial
      · exact ih (count + 1)

theorem counts_tstRandWriteSeqRead :
    Counts isClose (fun _ n => n = 2) tstRandWriteSeqRead 0 := by
  refine counts_op (o := .printf _ _) (fun _ => ?_)
  refine counts_op (o := .tfsOpen _ _ _) (fun fd => ?_)
  split
  · exact counts_alarm (o := .seriousError _) trivial
  refine counts_none (only_forRange (fun i => ?_) _ _) (fun _ => ?_)
  · exact ⟨rfl, fun _ => ⟨rfl, fun _ => ⟨rfl, fun _ => trivial⟩⟩⟩
  refine counts_none (only_forRange (fun _ => ?_) _ _) (fun _ => ?_)
  · refine only_bind ⟨rfl, fun _ => trivial⟩ (fun pos => ?_)
    refine ⟨rfl, fun _ => ⟨rfl, fun _ => only_forRange (fun j => ?_) _ _⟩⟩
    exact ⟨rfl, fun _ => trivial⟩
  refine counts_none (only_forRange (fun i => ?_) _ _) (fun _ => ?_)
  · refine only_bind (only_gapLength _ _ _) (fun count => ?_)
    split
    · exact ⟨rfl, fun _ => ⟨rfl, fun _ => trivial⟩⟩
    · trivial
  refine counts_op (o := .tfsClose _) (fun _ => ?_)
  refine counts_op (o := .tfsOpen _ _ _) (fun fd' => ?_)
  refine counts_op (o := .tfsRead _ _ _) (fun rv => ?_)
  refine counts_none ?_ (fun _ => ?_)
  · split
    · exact ⟨rfl, fun _ => ⟨rfl, fun _ => trivial⟩⟩
    · trivial
  refine counts_none (only_compare (fun _ => rfl) ?_ _ _) (fun _ => ?_)
  · intro i a b
    split
    · exact ⟨rfl, fun _ => trivial⟩
    · trivial
  · exact counts_op (o := .tfsClose _) (fun _ => rfl)

/-- A turn of `overwrite_tst` writes once. -/
theorem counts_overwriteBlock (fd : Int) (count n : Nat) :
    Counts isWrite (fun returned m => returned = false ∧ m = n + 1)
      (overwriteBlock fd count) n := by
  refine counts_none ⟨rfl, fun _ => trivial⟩ (fun pos => ?_)
  refine counts_none (only_forRange (fun j => ?_) _ _) (fun _ => ?_)
  · exact ⟨rfl, fun _ => ⟨rfl, fun _ => trivial⟩⟩
  refine counts_op (o := .tfsLseek _ _ _) (fun rv => ?_)
  split
  · exact counts_alarm (o := .seriousError _) trivial
  refine counts_op (o := .tfsWrite _ _ _) (fun rv => ?_)
  refine counts_assert ?_
  refine counts_op (o := .tfsLseek _ _ _) (fun rv => ?_)
  refine counts_assert ?_
  refine counts_op (o := .tfsRead _ _ _) (fun rv => ?_)
  refine counts_none ?_ (fun _ => ?_)
  · split
    · exact ⟨rfl, fun _ => ⟨rfl, fun _ => trivial⟩⟩
    · trivial
  refine counts_assert ?_
  refine counts_none (only_compare (fun _ => rfl) ?_ _ _) (fun _ => ⟨rfl, rfl⟩)
  intro i a b
  split
  · exact ⟨rfl, fun _ => ⟨rfl, fun _ => ⟨rfl, fun _ => trivial⟩⟩⟩
  · trivial

/-- The whole file, and one block in each of 1000 turns. -/
theorem counts_overwriteTst :
    Counts isWrite (fun _ n => n = 1001) overwriteTst 0 := by
  refine counts_op (o := .printf _ _) (fun _ => ?_)
  refine counts_op (o := .tfsOpen _ _ _) (fun fd => ?_)
  refine counts_assert ?_
  refine counts_none (only_forRange (fun i => ?_) _ _) (fun _ => ?_)
  · exact ⟨rfl, fun _ => trivial⟩
  refine counts_op (o := .tfsLseek _ _ _) (fun _ => ?_)
  refine counts_assert ?_
  refine counts_op (o := .tfsWrite _ _ _) (fun _ => ?_)
  refine counts_assert ?_
  refine counts_op (o := .printf _ _) (fun _ => ?_)
  refine counts_forUntil (counts_overwriteBlock fd) ?_
  refine counts_op (o := .printf _ _) (fun _ => ?_)
  refine counts_op (o := .tfsLseek _ _ _) (fun _ => ?_)
  refine counts_assert ?_
  refine counts_op (o := .tfsRead _ _ _) (fun _ => ?_)
  refine counts_assert ?_
  refine counts_none (only_compare (fun _ => rfl) ?_ _ _) (fun _ => ?_)
  · intro j a b
    rw [assert]
    split <;> trivial
  · exact counts_op (o := .tfsClose _) (fun _ => rfl)

/-! ## The result -/

theorem calmWrites_quiet {w : World} {o : FullOp} (h : CalmWrites w o) :
    ¬ Alarm o := by
  cases o with
  | tfsWrite fd buf nbytes => exact fun h => h
  | _ => exact h

theorem calmCloses_quiet {w : World} {o : FullOp} (h : CalmCloses w o) :
    ¬ Alarm o := by
  cases o with
  | tfsClose fd => exact fun h => h
  | _ => exact h

/-- A complete run makes `k` of the counted calls, and leaves the file equal to
    `buf_orig`. -/
def Leaves (counted : FullOp → Bool) (k : Nat) (test : Full Unit) (w : World) :
    Prop :=
  ∀ tr w', Run manual test w tr (.returned ()) w' →
    tr.countP (fun e => counted e.1) = k ∧ Mirrors w'

theorem leaves_of_wp {ok : World → FullOp → Prop} {counted : FullOp → Bool}
    {k : Nat} {test : Full Unit} {w : World} (hpass : Passes test w)
    (hcount : Counts counted (fun _ n => n = k) test 0)
    (h : wp manual ok (fun _ => Mirrors) (fun _ _ => False) test w) :
    Leaves counted k test w := by
  intro tr w' hr
  have hcounted : Run (counting counted Alarm) test 0 tr _ _ :=
    run_counting hr (hpass.quiet tr _ w' hr) 0
  have hk : 0 + tr.countP (fun e => counted e.1) = k := wp_post hcount hcounted
  rw [Nat.zero_add] at hk
  exact ⟨hk, wp_post h hr⟩

/-- **NO FALSE ALARM**: all three tests pass.  In every run of `overwrite_tst`
    the file is equal to `buf_orig` after each write, and in every run of
    `tst_rand_write_seq_read` it is so where the file is closed; complete runs
    write 1001 times and close twice. -/
theorem full_test_passes (w : World) :
    Passes tstSeqWriteRandRead w ∧ Passes tstRandWriteSeqRead w ∧
      Passes overwriteTst w ∧
      (∀ tr fd buf nbytes rv out w', Run manual overwriteTst w
        (tr ++ [⟨.tfsWrite fd buf nbytes, rv⟩]) out w' → Mirrors w') ∧
      (∀ tr fd rv out w', Run manual tstRandWriteSeqRead w
        (tr ++ [⟨.tfsClose fd, rv⟩]) out w' →
          ∃ m, Run manual tstRandWriteSeqRead w tr .running m ∧ Mirrors m) ∧
      Leaves isWrite 1 tstSeqWriteRandRead w ∧
      Leaves isClose 2 tstRandWriteSeqRead w ∧
      Leaves isWrite 1001 overwriteTst w := by
  have hseq := wp_tstSeqWriteRandRead w
  have hrand := wp_tstRandWriteSeqRead w
  have hover := wp_overwriteTst w
  have hseqPass := passes_of_wp (fun _ _ h => h) hseq
  have hrandPass := passes_of_wp (fun _ _ => calmCloses_quiet) hrand
  have hoverPass := passes_of_wp (fun _ _ => calmWrites_quiet) hover
  refine ⟨hseqPass, hrandPass, hoverPass, ?_, ?_,
    leaves_of_wp hseqPass counts_tstSeqWriteRandRead hseq,
    leaves_of_wp hrandPass counts_tstRandWriteSeqRead hrand,
    leaves_of_wp hoverPass counts_overwriteTst hover⟩
  · intro tr fd buf nbytes rv out w' hr
    obtain ⟨m, hok, hw⟩ := wp_last hover hr
    exact hok rv w' hw
  · intro tr fd rv out w' hr
    exact wp_each hrand hr

end FullTestResults
