import Ttm50.FullTestDriver
import Ttm50.TfsDescriptors

/-! # The file system of the manual pages

    What the pages of `tfs_open`, `tfs_lseek`, `tfs_read`, `tfs_write` and
    `tfs_close` promise, while there is space and no error occurs: `manual` is
    the environment that gives exactly the answers they allow.  The global
    arrays that the calls read and write are part of the world.

    The tests work on one file through one descriptor at a time.  `Shows` is
    that view of the world, and there is one rule for each call on it. -/

namespace TfsManual

open InteractivePrograms ByteBuffers TfsHeader TfsDescriptors FullTestDriver

/-! ## Files -/

/-- The contents of a file; bytes behind its end do not count. -/
structure File where
  size : Nat
  byte : Nat → Byte

def File.empty : File := ⟨0, fun _ => 0⟩

/-- A write of `nbytes` bytes at a position.  Behind the old end it leaves a
    hole, which reads as zero. -/
def File.write (f : File) (pos : Nat) (data : Buffer) (nbytes : Nat) : File :=
  if nbytes = 0 then f
  else
    { size := max f.size (pos + nbytes)
      byte := fun i =>
        if pos ≤ i ∧ i < pos + nbytes then data (i - pos)
        else if i < f.size then f.byte i
        else 0 }

/-- Files, descriptors, and the two global arrays. -/
structure World where
  files : String → Option File
  descs : List (Int × Desc String)
  orig : Buffer
  cmp : Buffer

/-- The record of a descriptor. -/
def World.desc (w : World) (fd : Int) : Option (Desc String) := w.descs.lookup fd

def World.array (w : World) : Global → Buffer
  | .bufOrig => w.orig
  | .bufCmp => w.cmp

def World.setArray (w : World) (buffer : Buffer) : Global → World
  | .bufOrig => { w with orig := buffer }
  | .bufCmp => { w with cmp := buffer }

/-- Memory with the bytes `data` copied to an offset. -/
def blit (b : Buffer) (offset : Nat) (data : Buffer) (len : Nat) : Buffer :=
  fun i => if offset ≤ i ∧ i < offset + len then data (i - offset) else b i

/-! ## The calls -/

/-- The contents of a file after it is opened; `none` where this is an
    error. -/
def openedFile (files : String → Option File) (path : String) (oMode : Nat) :
    Option File :=
  if oMode &&& 3 = 0 then none
  else if has oMode tfsOTrunc ∧ ¬ has oMode tfsOWronly then none
  else
    match files path with
    | none => if has oMode tfsOCreat then some File.empty else none
    | some f =>
        if has oMode tfsOCreat ∧ has oMode tfsOExcl then none
        else if has oMode tfsOTrunc then some File.empty
        else some f

def setFile (files : String → Option File) (path : String) (f : File) :
    String → Option File :=
  fun p => if p = path then some f else files p

@[simp] theorem setFile_self (files : String → Option File) (path : String)
    (f : File) : setFile files path f path = some f := if_pos rfl

/-- The open file of a descriptor. -/
def World.opened (w : World) (fd : Int) : Option (Desc String × File) :=
  (w.desc fd).bind (fun d => (w.files d.file).map (fun f => (d, f)))

def World.setOffset (w : World) (fd : Int) (d : Desc String) (offset : Nat) : World :=
  { w with descs := (fd, { d with offset := offset }) :: w.descs }

/-- `tfs_lseek`. -/
def World.lseek (w : World) (fd offset : Int) (whence : Nat) : Int × World :=
  match w.opened fd with
  | none => (-1, w)
  | some (d, f) =>
      if seekTarget f.size d offset whence < 0 then (-1, w)
      else (seekTarget f.size d offset whence,
        w.setOffset fd d (seekTarget f.size d offset whence).toNat)

/-- `tfs_read`: fewer bytes at the end of the file only. -/
def World.read (w : World) (fd : Int) (buf : Pointer) (nbytes : Nat) :
    Int × World :=
  match w.opened fd with
  | none => (-1, w)
  | some (d, f) =>
      if d.readable then
        let count := min nbytes (f.size - d.offset)
        (count,
          (w.setOffset fd d (d.offset + count)).setArray
            (blit (w.array buf.array) buf.offset
              (fun i => f.byte (d.offset + i)) count) buf.array)
      else (-1, w)

/-- `tfs_write`: all bytes, as there is space. -/
def World.write (w : World) (fd : Int) (buf : Pointer) (nbytes : Nat) :
    Int × World :=
  match w.opened fd with
  | none => (-1, w)
  | some (d, f) =>
      if d.writable then
        let pos := if d.append then f.size else d.offset
        (nbytes,
          { w.setOffset fd d (pos + nbytes) with
            files := setFile w.files d.file (f.write pos
              (fun i => w.array buf.array (buf.offset + i)) nbytes) })
      else (-1, w)

/-- `tfs_close`. -/
def World.close (w : World) (fd : Int) : Int × World :=
  match w.desc fd with
  | none => (-1, w)
  | some _ => (0, { w with descs := w.descs.filter (fun e => e.1 ≠ fd) })

/-- The answers that the manual pages allow.  The descriptor of an opened file
    is any that is free; random numbers are any numbers. -/
def manual : Env FullOp FullOp.Res World
  | w, .tfsOpen path oMode _, fd, w' =>
      match openedFile w.files path oMode with
      | none => fd = -1 ∧ w' = w
      | some f => 0 ≤ fd ∧ w.desc fd = none ∧
          w' = { w with
            files := setFile w.files path f
            descs := (fd, openedDesc path oMode) :: w.descs }
  | w, .tfsLseek fd offset whence, rv, w' => (rv, w') = w.lseek fd offset whence
  | w, .tfsRead fd buf nbytes, rv, w' => (rv, w') = w.read fd buf nbytes
  | w, .tfsWrite fd buf nbytes, rv, w' => (rv, w') = w.write fd buf nbytes
  | w, .tfsClose fd, rv, w' => (rv, w') = w.close fd
  | w, .tfsStat _, _, w' => w' = w
  | w, .tfsFstat _, _, w' => w' = w
  | w, .rand, _, w' => w' = w
  | w, .load p, b, w' => b = w.array p.array p.offset ∧ w' = w
  | w, .store p value, _, w' =>
      w' = w.setArray (Function.update (w.array p.array) p.offset value) p.array
  | w, .storeInt p value, _, w' =>
      w' = w.setArray (storeWord (w.array p.array) p.offset value) p.array
  | w, .printf _ _, _, w' => w' = w
  | w, .fprintf _ _, _, w' => w' = w
  | w, .seriousError _, _, w' => w' = w

/-- Every call has an answer. -/
theorem manual_total (w : World) (o : FullOp) : ∃ r w', manual w o r w' := by
  cases o with
  | tfsOpen path oMode cPerm =>
      cases hopen : openedFile w.files path oMode with
      | none => exact ⟨(-1 : Int), w, by rw [manual, hopen]; exact ⟨rfl, rfl⟩⟩
      | some f =>
          obtain ⟨fd, hpos, hfree⟩ := free_desc w.descs
          refine ⟨fd,
            { w with
              files := setFile w.files path f
              descs := (fd, openedDesc path oMode) :: w.descs }, ?_⟩
          rw [manual, hopen]
          exact ⟨hpos, hfree, rfl⟩
  | tfsLseek | tfsRead | tfsWrite | tfsClose => exact ⟨_, _, rfl⟩
  | tfsStat | tfsFstat => exact ⟨(0, ⟨0, 0, 0, 0, 0, 0, 0, 0⟩), w, rfl⟩
  | rand => exact ⟨(0 : Word), w, rfl⟩
  | load p => exact ⟨_, w, rfl, rfl⟩
  | store | storeInt => exact ⟨(), _, rfl⟩
  | printf | fprintf | seriousError => exact ⟨(), w, rfl⟩

/-! ## The view of one open file -/

/-- The file of the tests and the two arrays. -/
structure Stored (w : World) (f : File) (orig cmp : Buffer) : Prop where
  file : w.files file = some f
  orig : w.orig = orig
  cmp : w.cmp = cmp

/-- A descriptor of the file, its contents and the arrays. -/
structure View where
  fd : Int
  writable : Bool
  contents : File
  offset : Nat
  orig : Buffer
  cmp : Buffer

def View.array (v : View) : Global → Buffer
  | .bufOrig => v.orig
  | .bufCmp => v.cmp

def View.setArray (v : View) (buffer : Buffer) : Global → View
  | .bufOrig => { v with orig := buffer }
  | .bufCmp => { v with cmp := buffer }

/-- The record of the descriptor. -/
def View.desc (v : View) : Desc String := ⟨file, true, v.writable, false, v.offset⟩

/-- The view after a seek. -/
def View.seek (v : View) (pos : Nat) : View := { v with offset := pos }

/-- The view after a read of `nbytes` bytes into `buf_cmp`. -/
def View.read (v : View) (nbytes : Nat) : View :=
  { v with
    offset := v.offset + nbytes
    cmp := blit v.cmp 0 (fun i => v.contents.byte (v.offset + i)) nbytes }

/-- The view after a write. -/
def View.write (v : View) (buf : Pointer) (nbytes : Nat) : View :=
  { v with
    offset := v.offset + nbytes
    contents := v.contents.write v.offset
      (fun i => v.array buf.array (buf.offset + i)) nbytes }

/-- The world is as the view says. -/
structure Shows (w : World) (v : View) : Prop where
  desc : w.desc v.fd = some v.desc
  stored : Stored w v.contents v.orig v.cmp

section Calls

variable {w : World} {v : View}

theorem shows_array (h : Shows w v) (g : Global) : w.array g = v.array g := by
  cases g with
  | bufOrig => exact h.stored.orig
  | bufCmp => exact h.stored.cmp

theorem shows_setArray (h : Shows w v) (buffer : Buffer) (g : Global) :
    Shows (w.setArray buffer g) (v.setArray buffer g) := by
  obtain ⟨hdesc, hfile, horig, hcmp⟩ := h
  cases g with
  | bufOrig => exact ⟨hdesc, hfile, rfl, hcmp⟩
  | bufCmp => exact ⟨hdesc, hfile, horig, rfl⟩

theorem shows_opened (h : Shows w v) :
    w.opened v.fd = some (v.desc, v.contents) := by
  rw [World.opened, h.desc]
  show (w.files file).map _ = _
  rw [h.stored.file]
  rfl

theorem shows_setOffset (h : Shows w v) (offset : Nat) :
    Shows (w.setOffset v.fd v.desc offset) (v.seek offset) := by
  obtain ⟨-, hfile, horig, hcmp⟩ := h
  exact ⟨List.lookup_cons_self, hfile, horig, hcmp⟩

theorem lseek_shows (h : Shows w v) (pos : Nat) :
    ∃ w', w.lseek v.fd pos tfsSeekSet = ((pos : Int), w') ∧
      Shows w' (v.seek pos) := by
  refine ⟨w.setOffset v.fd v.desc pos, ?_, shows_setOffset h pos⟩
  rw [World.lseek, shows_opened h]
  rfl

/-- A read that does not come to the end of the file. -/
theorem read_shows (h : Shows w v) {nbytes : Nat}
    (hsize : v.offset + nbytes ≤ v.contents.size) :
    ∃ w', w.read v.fd (bufCmp 0) nbytes = ((nbytes : Int), w') ∧
      Shows w' (v.read nbytes) := by
  have hmin : min nbytes (v.contents.size - v.offset) = nbytes := by omega
  have hshows : Shows ((w.setOffset v.fd v.desc (v.offset + nbytes)).setArray
      (blit v.cmp 0 (fun i => v.contents.byte (v.offset + i)) nbytes) .bufCmp)
      (v.read nbytes) :=
    shows_setArray (shows_setOffset h _) _ .bufCmp
  refine ⟨_, ?_, hshows⟩
  rw [World.read, shows_opened h]
  show (let count := min nbytes (v.contents.size - v.offset)
    ((count : Int), (w.setOffset v.fd v.desc (v.offset + count)).setArray
      (blit (w.array .bufCmp) 0 (fun i => v.contents.byte (v.offset + i))
        count) .bufCmp)) = _
  rw [hmin, shows_array h]
  rfl

theorem write_shows (h : Shows w v) (hwritable : v.writable = true)
    (buf : Pointer) (nbytes : Nat) :
    ∃ w', w.write v.fd buf nbytes = ((nbytes : Int), w') ∧
      Shows w' (v.write buf nbytes) := by
  obtain ⟨hdesc, -, horig, hcmp⟩ := shows_setOffset h (v.offset + nbytes)
  refine ⟨{ w.setOffset v.fd v.desc (v.offset + nbytes) with
    files := setFile w.files file (v.write buf nbytes).contents }, ?_,
    hdesc, setFile_self w.files file _, horig, hcmp⟩
  have hdwritable : v.desc.writable = true := hwritable
  rw [World.write, shows_opened h]
  show (if v.desc.writable then _ else _) = _
  rw [if_pos hdwritable, shows_array h]
  rfl

theorem close_shows (h : Shows w v) :
    ∃ w', w.close v.fd = ((0 : Int), w') ∧
      Stored w' v.contents v.orig v.cmp := by
  obtain ⟨hdesc, hfile, horig, hcmp⟩ := h
  refine ⟨{ w with descs := w.descs.filter (fun e => e.1 ≠ v.fd) }, ?_,
    hfile, horig, hcmp⟩
  rw [World.close, hdesc]

end Calls

/-! ## The rules of the operations -/

section Rules

variable {ok : World → FullOp → Prop} {E : Unit → World → Prop} {w : World}
  {v : View}

theorem wp_lseek {Q : Int → World → Prop} (h : Shows w v) (pos : Nat)
    (hok : ok w (.tfsLseek v.fd pos tfsSeekSet))
    (hQ : ∀ w', Shows w' (v.seek pos) → Q pos w') :
    wp manual ok Q E (tfsLseek v.fd pos tfsSeekSet) w := by
  obtain ⟨w', hseek, hshows⟩ := lseek_shows h pos
  refine ⟨hok, ?_⟩
  intro rv m hm
  obtain ⟨rfl, rfl⟩ := Prod.mk.inj (hm.trans hseek)
  exact hQ _ hshows

theorem wp_read {Q : Int → World → Prop} (h : Shows w v) {nbytes : Nat}
    (hok : ok w (.tfsRead v.fd (bufCmp 0) nbytes))
    (hsize : v.offset + nbytes ≤ v.contents.size)
    (hQ : ∀ w', Shows w' (v.read nbytes) → Q nbytes w') :
    wp manual ok Q E (tfsRead v.fd (bufCmp 0) nbytes) w := by
  obtain ⟨w', hread, hshows⟩ := read_shows h hsize
  refine ⟨hok, ?_⟩
  intro rv m hm
  obtain ⟨rfl, rfl⟩ := Prod.mk.inj (hm.trans hread)
  exact hQ _ hshows

/-- The condition on a write may speak of what it leaves. -/
theorem wp_write {Q : Int → World → Prop} (h : Shows w v)
    (hwritable : v.writable = true) {buf : Pointer} {nbytes : Nat}
    (hok : (∀ rv w', manual w (.tfsWrite v.fd buf nbytes) rv w' →
      Shows w' (v.write buf nbytes)) → ok w (.tfsWrite v.fd buf nbytes))
    (hQ : ∀ w', Shows w' (v.write buf nbytes) → Q nbytes w') :
    wp manual ok Q E (tfsWrite v.fd buf nbytes) w := by
  obtain ⟨w', hwrite, hshows⟩ := write_shows h hwritable buf nbytes
  refine ⟨hok ?_, ?_⟩
  · intro rv m hm
    obtain ⟨-, rfl⟩ := Prod.mk.inj (hm.trans hwrite)
    exact hshows
  · intro rv m hm
    obtain ⟨rfl, rfl⟩ := Prod.mk.inj (hm.trans hwrite)
    exact hQ _ hshows

theorem wp_close {Q : Int → World → Prop} (h : Shows w v)
    (hok : ok w (.tfsClose v.fd))
    (hQ : ∀ w', Stored w' v.contents v.orig v.cmp → Q 0 w') :
    wp manual ok Q E (tfsClose v.fd) w := by
  obtain ⟨w', hclose, hstored⟩ := close_shows h
  refine ⟨hok, ?_⟩
  intro rv m hm
  obtain ⟨rfl, rfl⟩ := Prod.mk.inj (hm.trans hclose)
  exact hQ _ hstored

/-- Opening the file for a new test. -/
theorem wp_open_new {Q : Int → World → Prop}
    (hok : ok w (.tfsOpen file (tfsORdwr ||| tfsOTrunc ||| tfsOCreat) 0o777))
    (hQ : ∀ fd w', fd ≠ -1 →
      Shows w' ⟨fd, true, File.empty, 0, w.orig, w.cmp⟩ → Q fd w') :
    wp manual ok Q E
      (tfsOpen file (tfsORdwr ||| tfsOTrunc ||| tfsOCreat) 0o777) w := by
  have hopen : openedFile w.files file (tfsORdwr ||| tfsOTrunc ||| tfsOCreat)
      = some File.empty := by
    rw [openedFile, if_neg (by decide), if_neg (by decide)]
    cases w.files file with
    | none => rfl
    | some f => rfl
  refine ⟨hok, ?_⟩
  intro fd w' hw
  rw [manual, hopen] at hw
  obtain ⟨hpos, -, rfl⟩ := hw
  have hfd : fd ≠ -1 := by
    rintro rfl
    exact absurd hpos (by decide)
  exact hQ fd _ hfd ⟨List.lookup_cons_self, setFile_self w.files file _, rfl, rfl⟩

/-- Opening the file once more to read it. -/
theorem wp_open_again {Q : Int → World → Prop} {f : File} {orig cmp : Buffer}
    (h : Stored w f orig cmp) (hok : ok w (.tfsOpen file tfsORdonly 0))
    (hQ : ∀ fd w', Shows w' ⟨fd, false, f, 0, orig, cmp⟩ → Q fd w') :
    wp manual ok Q E (tfsOpen file tfsORdonly 0) w := by
  obtain ⟨hfile, horig, hcmp⟩ := h
  have hopen : openedFile w.files file tfsORdonly = some f := by
    rw [openedFile, if_neg (by decide), if_neg (by decide), hfile]
    rfl
  refine ⟨hok, ?_⟩
  intro fd w' hw
  rw [manual, hopen] at hw
  obtain ⟨hpos, -, rfl⟩ := hw
  exact hQ fd _ ⟨List.lookup_cons_self, setFile_self w.files file _, horig, hcmp⟩

theorem wp_load {Q : Byte → World → Prop} (h : Shows w v) {p : Pointer}
    (hok : ok w (.load p)) (hQ : Q (v.array p.array p.offset) w) :
    wp manual ok Q E (load p) w := by
  refine ⟨hok, ?_⟩
  rintro r m ⟨rfl, rfl⟩
  rw [shows_array h]
  exact hQ

theorem wp_store {Q : Unit → World → Prop} (h : Shows w v) {p : Pointer}
    {value : Byte} (hok : ok w (.store p value))
    (hQ : ∀ w', Shows w' (v.setArray
      (Function.update (v.array p.array) p.offset value) p.array) → Q () w') :
    wp manual ok Q E (store p value) w := by
  refine ⟨hok, ?_⟩
  rintro r m rfl
  rw [shows_array h]
  exact hQ _ (shows_setArray h _ _)

theorem wp_storeInt {Q : Unit → World → Prop} (h : Shows w v) {p : Pointer}
    {value : Word} (hok : ok w (.storeInt p value))
    (hQ : ∀ w', Shows w' (v.setArray
      (storeWord (v.array p.array) p.offset value) p.array) → Q () w') :
    wp manual ok Q E (storeInt p value) w := by
  refine ⟨hok, ?_⟩
  rintro r m rfl
  rw [shows_array h]
  exact hQ _ (shows_setArray h _ _)

theorem wp_printf {Q : Unit → World → Prop} {text : String}
    {args : List TfshDriver.Arg} (hok : ok w (.printf text args))
    (hQ : Q () w) : wp manual ok Q E (printf text args) w := by
  refine ⟨hok, ?_⟩
  rintro r m rfl
  exact hQ

theorem wp_assert {Q : Unit → World → Prop} {p : Prop} [Decidable p] (hp : p)
    (hQ : Q () w) : wp manual ok Q E (assert (decide p)) w := by
  rw [assert, decide_eq_true hp]
  exact hQ

theorem wp_rand {Q : Word → World → Prop} (hok : ok w .rand)
    (hQ : ∀ r, Q r w) : wp manual ok Q E rand w := by
  refine ⟨hok, ?_⟩
  rintro r m rfl
  exact hQ r

/-- A random position leaves room for a block behind it. -/
theorem wp_random {Q : Nat → World → Prop} (hok : ok w .rand)
    (hQ : ∀ pos, pos + block < size → Q pos w) :
    wp manual ok Q E (random (size - block)) w := by
  refine (wp_bind _ _ _).mpr (wp_rand hok ?_)
  intro r
  refine hQ _ ?_
  have hlt : (r &&& 0x000fffff).toNat % (size - block) < size - block :=
    Nat.mod_lt _ (by decide)
  omega

end Rules

end TfsManual
