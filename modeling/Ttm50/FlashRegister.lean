import Ttm50.FlashLines

/-! # The command register of the flash

    The mode of the flash device is left behind by one function and relied on
    by the next.  `Mode` tracks the command register as the last command
    written to the flash: a write to an address outside the window does not
    reach the device, and `prog_ep` makes such writes for a line that lies
    there.  What the device answers to a read is arbitrary.

    `Watch` observes, beside the mode, whether all identifier reads have been
    right, whether all reads of `check_value( 0 )` have been zero, whether all
    reads have been made in the mode they need, and which values `prog_ep` has
    read back for which file.  There is one rule for each function of the
    utility. -/

namespace FlashRegister

open CStdio InteractivePrograms FlashDriver FlashLines

/-! ## The flash window -/

/-- The word of the array at an address: aligned, and inside the window. -/
def cellOf (address : Word) : Option Nat :=
  let offset := address.toNat - flashBaseAddress.toNat
  if flashBaseAddress.toNat ≤ address.toNat ∧ offset % 4 = 0 ∧
      offset / 4 < flashWordSize then
    some (offset / 4)
  else none

/-- The address is one of the flash. -/
def inFlash (address : Word) : Bool := (cellOf address).isSome

theorem cellOf_offset {address : Word} {j : Nat}
    (ha : address.toNat = flashBaseAddress.toNat + 4 * j)
    (h : j < flashWordSize) : cellOf address = some j := by
  have hoff : address.toNat - flashBaseAddress.toNat = 4 * j := by omega
  have hdiv : 4 * j / 4 = j := Nat.mul_div_cancel_left j (by decide)
  have hmod : 4 * j % 4 = 0 := Nat.mul_mod_right 4 j
  rw [cellOf]
  simp only [hoff, hdiv, hmod]
  rw [if_pos ⟨by omega, trivial, h⟩]

theorem cellOf_flEprom {j : Nat} (h : j < flashWordSize) :
    cellOf (flEprom j) = some j := by
  refine cellOf_offset ?_ h
  have hbase : flashBaseAddress.toNat = 0x40000000 := rfl
  have hsize : flashWordSize = 0x20000 := rfl
  rw [flEprom, index, BitVec.toNat_add, BitVec.toNat_ofNat]
  omega

theorem inFlash_of_cell {address : Word} {i : Nat} (h : cellOf address = some i) :
    inFlash address = true := by
  rw [inFlash, h]
  rfl

theorem inFlash_flEprom {j : Nat} (h : j < flashWordSize) :
    inFlash (flEprom j) = true :=
  inFlash_of_cell (cellOf_flEprom h)

@[simp] theorem inFlash_first : inFlash (flEprom 0) = true :=
  inFlash_flEprom (by decide)

/-- The window in numbers. -/
theorem inFlash_iff (address : Word) :
    inFlash address = true ↔ 0x40000000 ≤ address.toNat ∧
      address.toNat % 4 = 0 ∧ address.toNat < 0x40080000 := by
  have hbase : flashBaseAddress.toNat = 0x40000000 := rfl
  have hsize : flashWordSize = 0x20000 := rfl
  rw [inFlash, cellOf]
  simp only [hbase, hsize]
  split
  · simp only [Option.isSome_some, true_iff]
    omega
  · simp only [Option.isSome_none, Bool.false_eq_true, false_iff]
    omega

@[simp] theorem index_zero (fl : Word) : index fl 0 = fl := BitVec.add_zero fl

/-- Behind an address outside the flash no word of a line is inside: the
    address is not below the base. -/
theorem index_outside {fl : Word} {i : Nat} (hbase : 0x40000000 ≤ fl.toNat)
    (hi : i < 4) (h : inFlash fl = false) : inFlash (index fl i) = false := by
  have hindex : (index fl i).toNat = (fl.toNat + 4 * i) % 2 ^ 32 := by
    rw [index, BitVec.toNat_add, BitVec.toNat_ofNat]
    omega
  have hlt := fl.isLt
  rw [← Bool.not_eq_true, inFlash_iff] at h ⊢
  rw [hindex]
  omega

/-! ## The command register -/

/-- The command register: the last command written. -/
inductive Mode where
  | readMode
  | resetOnce
  | idMode
  | programSetup
  | program
  | programVerify
  | eraseSetup
  | erase
  | eraseVerify
  | other
  deriving DecidableEq, Repr

/-- The mode a command starts. -/
def Mode.command (value : Word) : Mode :=
  if value = flashReadMemory then .readMode
  else if value = flashEraseSetup then .eraseSetup
  else if value = flashProgramSetup then .programSetup
  else if value = flashReadIdCodes then .idMode
  else if value = flashEraseVerify then .eraseVerify
  else if value = flashProgramVerify then .programVerify
  else if value = flashReset then .resetOnce
  else .other

/-- The mode after a write: the word after a program setup is data, an erase
    has two writes, and so has a reset. -/
def Mode.write (mode : Mode) (value : Word) : Mode :=
  match mode with
  | .programSetup => .program
  | .eraseSetup => if value = flashErase then .erase else .command value
  | .resetOnce => if value = flashReset then .readMode else .command value
  | _ => .command value

@[simp] theorem command_readMemory :
    Mode.command flashReadMemory = .readMode := rfl
@[simp] theorem command_eraseSetup :
    Mode.command flashEraseSetup = .eraseSetup := rfl
@[simp] theorem command_programSetup :
    Mode.command flashProgramSetup = .programSetup := rfl
@[simp] theorem command_readIdCodes :
    Mode.command flashReadIdCodes = .idMode := rfl
@[simp] theorem command_eraseVerify :
    Mode.command flashEraseVerify = .eraseVerify := rfl
@[simp] theorem command_programVerify :
    Mode.command flashProgramVerify = .programVerify := rfl
@[simp] theorem command_reset : Mode.command flashReset = .resetOnce := rfl

@[simp] theorem write_programSetup (v : Word) :
    Mode.programSetup.write v = .program := rfl
@[simp] theorem write_program (v : Word) :
    Mode.program.write v = .command v := rfl
@[simp] theorem write_eraseSetup :
    Mode.eraseSetup.write flashErase = .erase := rfl
@[simp] theorem write_resetOnce :
    Mode.resetOnce.write flashReset = .readMode := rfl

/-- The register after an operation: only what is written to the flash
    reaches it. -/
def Mode.next (mode : Mode) : (o : FlashOp) → o.Res → Mode
  | .write address value, _ =>
      if inFlash address then mode.write value else mode
  | _, _ => mode

/-- A write inside the flash reaches the register, one outside does not. -/
theorem next_inside {a : Word} (h : inFlash a = true) (m : Mode) (v : Word) :
    m.next (.write a v) () = m.write v := if_pos h

theorem next_outside {a : Word} (h : inFlash a = false) (m : Mode) (v : Word) :
    m.next (.write a v) () = m := if_neg (by rw [h]; exact Bool.false_ne_true)

@[simp] theorem next_first (m : Mode) (v : Word) :
    m.next (.write (flEprom 0) v) () = m.write v := next_inside inFlash_first m v

/-- The mode that a read needs. -/
def needs : Site → Mode
  | .readII => .idMode
  | .progTo0 => .programVerify
  | .checkValue _ => .readMode
  | .erase => .eraseVerify
  | .progEp => .programVerify
  | .checkEp => .readMode

/-- The identifier a device answers at the first word or at the second. -/
def idCode (address : Word) : Word :=
  if address = flEprom 0 then manufacturerCode else deviceCode

/-! ## A failure outside the window -/

/-- The words of a line, each with the address of the line. -/
def lineEntries (line : HexData × Nat) : List (Word × Word) :=
  (lineWords line.1 line.2 1).map (fun data => (lineAddress line.1, data))

/-- The words of a file in the order in which `prog_ep` programs them. -/
def fileWords (text : List Char) : List (Word × Word) :=
  (decoded text).flatMap lineEntries

/-- Some of the words belong to a line inside the flash. -/
def anyInside (words : List (Word × Word)) : Bool :=
  words.any (fun word => inFlash word.1)

/-- Programming fails at a word of a line outside the flash, after a line
    inside it.  `words` are to be programmed, `left` attempts remain at the
    first of them, and `answers` are the device's answers to the reads of
    `prog_ep`; `inside` says that a word of a line inside has been
    programmed. -/
def strayFails : (inside : Bool) → (left : Nat) → (words : List (Word × Word)) →
    (answers : List Word) → Bool
  | _, _, [], _ => false
  | inside, 0, (fl, _) :: _, _ => inside && !inFlash fl
  | _, _ + 1, _ :: _, [] => false
  | inside, left + 1, (fl, data) :: words, r :: answers =>
      if r = data then strayFails (inside || inFlash fl) 3 words answers
      else strayFails inside left ((fl, data) :: words) answers

/-- Nothing fails without an answer. -/
theorem strayFails_nil (inside : Bool) (left : Nat)
    (words : List (Word × Word)) :
    strayFails inside (left + 1) words [] = false := by
  cases words <;> rfl

/-- Without attempts left the address of the line decides. -/
theorem strayFails_spent (inside : Bool) (fl data : Word)
    (words : List (Word × Word)) (answers : List Word) :
    strayFails inside 0 ((fl, data) :: words) answers
      = (inside && !inFlash fl) := by
  cases answers <;> rfl

/-- For the file that has been opened, if any, programming does not fail
    outside the flash after a line inside. -/
def NoStray (file : Option (List Char)) (answers : List Word) : Prop :=
  ∀ text, file = some text → strayFails false 3 (fileWords text) answers = false

theorem noStray_none (answers : List Word) : NoStray none answers :=
  fun _ h => nomatch h

theorem noStray_some {text : List Char} {answers : List Word} :
    NoStray (some text) answers ↔
      strayFails false 3 (fileWords text) answers = false :=
  ⟨fun h => h text rfl, fun h _ htext => Option.some.inj htext ▸ h⟩

/-! ## The observer -/

/-- The command register and what has been observed so far. -/
structure Watch where
  mode : Mode
  identOk : Bool
  zeroOk : Bool
  modesOk : Bool
  file : Option (List Char)
  answers : List Word
  deriving DecidableEq, Repr

/-- The observer at the start. -/
def Watch.start (mode : Mode) : Watch :=
  { mode := mode, identOk := true, zeroOk := true, modesOk := true,
    file := none, answers := [] }

/-- The observer in another mode. -/
def Watch.at (w : Watch) (mode : Mode) : Watch := { w with mode := mode }

/-- The observer with another finding about the identification. -/
def Watch.withIdent (w : Watch) (ok : Bool) : Watch := { w with identOk := ok }

/-- The observer after a read in a wrong mode. -/
def Watch.spoiled (w : Watch) : Watch := { w with modesOk := false }

/-- The observer with another finding about the zeros. -/
def Watch.withZero (w : Watch) (ok : Bool) : Watch := { w with zeroOk := ok }

/-- The observer after answers to the reads of `prog_ep`. -/
def Watch.heard (w : Watch) (answers : List Word) : Watch :=
  { w with answers := w.answers ++ answers }

/-- The observer after a file has been opened, or not. -/
def Watch.opened (w : Watch) (file : Option (List Char)) : Watch :=
  { w with file := w.file.or file }

@[simp] theorem Watch.at_mode (w : Watch) (m : Mode) : (w.at m).mode = m := rfl
@[simp] theorem Watch.at_at (w : Watch) (m m' : Mode) :
    (w.at m).at m' = w.at m' := rfl
@[simp] theorem Watch.heard_mode (w : Watch) (rs : List Word) :
    (w.heard rs).mode = w.mode := rfl
@[simp] theorem Watch.heard_at (w : Watch) (rs : List Word) (m : Mode) :
    (w.heard rs).at m = (w.at m).heard rs := rfl

theorem Watch.at_self {w : Watch} {m : Mode} (h : w.mode = m) : w.at m = w := by
  subst h
  rfl

/-- In its own mode the observer is as it is. -/
theorem Watch.of_at {P : Watch → Prop} {w : Watch} {m : Mode}
    (hmode : w.mode = m) (h : P (w.at m)) : P w := by
  rw [Watch.at_self hmode] at h
  exact h

@[simp] theorem Watch.heard_nil (w : Watch) : w.heard [] = w := by
  rw [Watch.heard, List.append_nil]

@[simp] theorem Watch.heard_heard (w : Watch) (rs rs' : List Word) :
    (w.heard rs).heard rs' = w.heard (rs ++ rs') := by
  rw [Watch.heard, Watch.heard, Watch.heard, List.append_assoc]

theorem Watch.opened_none (w : Watch) : w.opened none = w := by
  rw [Watch.opened, Option.or_none]

/-- What an answer adds to the answers to `prog_ep`. -/
def programAnswer : Site → Word → List Word
  | .progEp, r => [r]
  | _, _ => []

/-- The observer after an operation. -/
def Watch.next (w : Watch) : (o : FlashOp) → o.Res → Watch
  | .read site address, r =>
      { w with
        identOk := w.identOk &&
          (decide (site ≠ .readII) || decide (r = idCode address))
        zeroOk := w.zeroOk &&
          (decide (site ≠ .checkValue 0) || decide (r = 0))
        modesOk := w.modesOk && decide (w.mode = needs site)
        answers := w.answers ++ programAnswer site r }
  | .write address value, r => w.at (w.mode.next (.write address value) r)
  | .procWait _, _ => w
  | .printf _ _, _ => w
  | .fopen, text => w.opened text
  | .fclose, _ => w

/-- Any answer may come; the world watches. -/
abbrev watcher : Env FlashOp FlashOp.Res Watch := watching Watch.next

/-- The reads of `check_value( 0 )`, and those of `prog_ep` outside the flash,
    are not expected to be made in their mode. -/
def Expected (site : Site) (address : Word) : Prop :=
  site ≠ .checkValue 0 ∧ (site = .progEp → inFlash address = true)

/-- An expected read is made in its mode. -/
def Right (w : Watch) (o : FlashOp) : Prop :=
  ∀ site address, o = .read site address → Expected site address →
    w.mode = needs site

/-! ## The rules of single operations -/

section Rules

variable {A : Type} {E : Nat → Watch → Prop}

/-- The rule of an operation: any answer may come. -/
theorem wp_operation {o : FlashOp} {Q : o.Res → Watch → Prop} {w : Watch}
    (hok : Right w o) :
    wp watcher Right Q E (perform o) w ↔ ∀ r, Q r (w.next o r) := by
  constructor
  · rintro ⟨-, h⟩ r
    exact h r _ rfl
  · intro h
    refine ⟨hok, ?_⟩
    rintro r w' rfl
    exact h r

theorem wp_write {Q : Unit → Watch → Prop} (a v : Word) (w : Watch) :
    wp watcher Right Q E (write a v) w ↔
      Q () (w.at (w.mode.next (.write a v) ())) :=
  (wp_operation (by intro _ _ h; exact nomatch h)).trans
    ⟨fun h => h (), fun h _ => h⟩

@[simp] theorem wp_write_first {Q : Unit → Watch → Prop} (v : Word)
    (w : Watch) :
    wp watcher Right Q E (write (flEprom 0) v) w ↔ Q () (w.at (w.mode.write v)) := by
  rw [wp_write, next_first]

theorem wp_write_word {Q : Unit → Watch → Prop} {j : Nat}
    (hj : j < flashWordSize) (v : Word) (w : Watch) :
    wp watcher Right Q E (write (flEprom j) v) w ↔ Q () (w.at (w.mode.write v)) := by
  rw [wp_write, next_inside (inFlash_flEprom hj)]

@[simp] theorem wp_procWait {Q : Unit → Watch → Prop} (us : Nat) (w : Watch) :
    wp watcher Right Q E (procWait us) w ↔ Q () w :=
  (wp_operation (by intro _ _ h; exact nomatch h)).trans
    ⟨fun h => h (), fun h _ => h⟩

@[simp] theorem wp_printf {Q : Unit → Watch → Prop} (text : String)
    (args : List Word) (w : Watch) :
    wp watcher Right Q E (printf text args) w ↔ Q () w :=
  (wp_operation (by intro _ _ h; exact nomatch h)).trans
    ⟨fun h => h (), fun h _ => h⟩

@[simp] theorem wp_fclose {Q : Unit → Watch → Prop} (w : Watch) :
    wp watcher Right Q E fclose w ↔ Q () w :=
  (wp_operation (by intro _ _ h; exact nomatch h)).trans
    ⟨fun h => h (), fun h _ => h⟩

theorem wp_fopen {Q : Option (List Char) → Watch → Prop} (w : Watch) :
    wp watcher Right Q E fopen w ↔ ∀ text, Q text (w.opened text) :=
  wp_operation (by intro _ _ h; exact nomatch h)

theorem wp_read {Q : Word → Watch → Prop} {site : Site} {a : Word} {w : Watch}
    (hok : Expected site a → w.mode = needs site) :
    wp watcher Right Q E (read site a) w ↔ ∀ r : Word, Q r (w.next (.read site a) r) := by
  refine wp_operation ?_
  intro site' a' heq hexpected
  obtain ⟨rfl, rfl⟩ := FlashOp.read.inj heq
  exact hok hexpected

/-- A read that neither identifies nor checks for zero nor belongs to
    `prog_ep`, in its mode, leaves the observer as it is. -/
theorem wp_read_quiet {Q : Word → Watch → Prop} {site : Site} {a : Word}
    {w : Watch} (hid : site ≠ .readII) (hzero : site ≠ .checkValue 0)
    (hprog : site ≠ .progEp) (hmode : w.mode = needs site)
    (h : ∀ r : Word, Q r w) :
    wp watcher Right Q E (read site a) w := by
  rw [wp_read (fun _ => hmode)]
  intro r
  have hanswer : programAnswer site r = [] := by
    cases site with
    | progEp => exact absurd rfl hprog
    | _ => rfl
  have hnext : w.next (.read site a) r = w := by
    show Watch.mk w.mode (w.identOk && (decide (site ≠ .readII) || _))
      (w.zeroOk && (decide (site ≠ .checkValue 0) || _))
      (w.modesOk && decide (w.mode = needs site)) w.file
      (w.answers ++ programAnswer site r) = w
    rw [decide_eq_true hid, decide_eq_true hzero, decide_eq_true hmode,
      Bool.true_or, Bool.true_or, Bool.and_true, Bool.and_true, Bool.and_true,
      hanswer, List.append_nil]
  rw [hnext]
  exact h r

/-- A read of `prog_ep`, once the modes are spoiled. -/
theorem wp_read_progEp {Q : Word → Watch → Prop} {a : Word} {w : Watch}
    (hspoiled : w.modesOk = false)
    (hmode : inFlash a = true → w.mode = .programVerify)
    (h : ∀ r : Word, Q r (w.heard [r])) :
    wp watcher Right Q E (read .progEp a) w := by
  rw [wp_read (fun hexpected => hmode (hexpected.2 rfl))]
  intro r
  have hnext : w.next (.read .progEp a) r = w.heard [r] := by
    show Watch.mk w.mode (w.identOk && true) (w.zeroOk && true)
      (w.modesOk && _) w.file (w.answers ++ [r]) = w.heard [r]
    rw [Bool.and_true, Bool.and_true, hspoiled, Bool.false_and, Watch.heard,
      ← hspoiled]
  rw [hnext]
  exact h r

/-! ## What each function does to the register -/

/-- Two resets: read mode, except after one reset already. -/
def Mode.afterReset (mode : Mode) : Mode :=
  (mode.write flashReset).write flashReset

theorem wp_resetFe {Q : Unit → Watch → Prop} (w : Watch) :
    wp watcher Right Q E resetFe w ↔ Q () (w.at w.mode.afterReset) := by
  simp [resetFe, Mode.afterReset]

theorem afterReset_id (m : Mode) :
    m.afterReset.write flashReadIdCodes = .idMode := by
  cases m <;> decide

/-- `read_i_i` leaves the device in ID mode, whether it returns or exits. -/
theorem wp_readII {Q : Unit → Watch → Prop} {w : Watch}
    (hret : Q () (w.at .idMode))
    (hexit : E exitFailure ((w.at .idMode).withIdent false)) :
    wp watcher Right Q E readII w := by
  have hid : ∀ (v : Watch) (a r : Word), v.mode = .idMode →
      v.next (.read .readII a) r
        = v.withIdent (v.identOk && decide (r = idCode a)) := by
    intro v a r hv
    show Watch.mk v.mode (v.identOk && decide (r = idCode a))
      (v.zeroOk && true) (v.modesOk && decide (v.mode = .idMode)) v.file
      (v.answers ++ []) = _
    rw [decide_eq_true hv, Bool.and_true, Bool.and_true, List.append_nil]
    rfl
  rw [readII]
  simp only [wp_bind, wp_write_first, wp_procWait, Watch.at_mode, Watch.at_at]
  -- the reset pair gives read mode or, after a stray first reset, one more
  -- reset; the command after it starts ID mode in either case
  rw [show (w.mode.write flashReset).write flashReset = w.mode.afterReset
    from rfl, afterReset_id, wp_read (fun _ => rfl)]
  intro manufacturer
  rw [hid _ _ _ rfl, wp_bind, wp_read (fun _ => rfl)]
  intro device
  rw [hid _ _ _ rfl]
  by_cases hbad : manufacturer ≠ manufacturerCode ∨ device ≠ deviceCode
  · have hident : (w.identOk && decide (manufacturer = manufacturerCode)
        && decide (device = deviceCode)) = false := by
      rcases hbad with h | h
      · rw [decide_eq_false h, Bool.and_false, Bool.false_and]
      · rw [decide_eq_false h, Bool.and_false]
    rw [if_pos hbad]
    simp only [wp_bind, wp_printf, wp_exit]
    show E exitFailure ((w.at .idMode).withIdent (w.identOk
      && decide (manufacturer = manufacturerCode)
      && decide (device = deviceCode)))
    rw [hident]
    exact hexit
  · obtain ⟨hm, hd⟩ := not_or.mp hbad
    have hident : (w.identOk && decide (manufacturer = manufacturerCode)
        && decide (device = deviceCode)) = w.identOk := by
      rw [decide_eq_true (Decidable.not_not.mp hm),
        decide_eq_true (Decidable.not_not.mp hd), Bool.and_true, Bool.and_true]
    rw [if_neg hbad]
    show Q () ((w.at .idMode).withIdent (w.identOk
      && decide (manufacturer = manufacturerCode)
      && decide (device = deviceCode)))
    rw [hident]
    exact hret

/-- One word of `prog_to_0`: the first attempt is always made. -/
theorem wp_zeroWord {Q : Unit → Watch → Prop} {j left : Nat} {epData : Word}
    {w : Watch} (hj : j < flashWordSize)
    (hmode : w.mode = .readMode ∨ w.mode = .programVerify)
    (hret : Q () (w.at .programVerify))
    (hnone : w.mode = .programVerify ∨ 0 < left ∧ epData ≠ 0) :
    wp watcher Right Q E (zeroWord j left epData) w := by
  induction left generalizing epData w with
  | zero =>
      rcases hnone with hpv | ⟨h, -⟩
      · exact Watch.of_at hpv hret
      · exact absurd h (Nat.lt_irrefl 0)
  | succ left ih =>
      rw [zeroWord]
      split
      · have hset : ∀ v v', (((w.mode.write flashProgramSetup).write v).write v')
            = Mode.command v' := by
          intro v v'
          rcases hmode with h | h <;> rw [h] <;> rfl
        simp only [wp_bind, wp_write_first, wp_write_word hj, wp_procWait,
          Watch.at_mode, Watch.at_at]
        rw [hset]
        refine wp_read_quiet (by simp) (by simp) (by simp) rfl ?_
        intro r
        exact ih (Or.inr rfl) hret (Or.inl rfl)
      -- the loop ends here only after an attempt: the first data is all ones
      · rcases hnone with hpv | ⟨-, h⟩
        · exact Watch.of_at hpv hret
        · exact absurd h ‹¬ epData ≠ 0x00000000›

/-- `prog_to_0` leaves the device in program-verify mode. -/
theorem wp_progTo0 {Q : Unit → Watch → Prop} {w : Watch}
    (hmode : w.mode = .readMode) (hret : Q () (w.at .programVerify)) :
    wp watcher Right Q E progTo0 w := by
  have hloop : wp watcher Right
      (fun _ w' => w' = w.at .programVerify) E progTo0 w := by
    refine wp_mono ?_ (wp_forRange (I := fun j w' =>
      w' = w.at (if j = 0 then .readMode else .programVerify)) ?_ ?_)
    · rintro _ w' rfl
      rfl
    · rintro j w' - hj rfl
      rw [Nat.zero_add] at hj
      refine wp_zeroWord hj ?_ rfl (Or.inr ⟨by decide, by decide⟩)
      by_cases hj : j = 0
      · exact Or.inl (if_pos hj)
      · exact Or.inr (if_neg hj)
    · exact (Watch.at_self hmode).symm
  refine wp_mono ?_ hloop
  rintro _ w' rfl
  exact hret

/-- `check_value( 0 )` finds the device in program-verify mode: its first
    read is made in the wrong mode. -/
theorem wp_checkZero {Q : Unit → Watch → Prop} {w : Watch}
    (hmode : w.mode = .programVerify) (hret : Q () w.spoiled)
    (hexit : E exitFailure (w.spoiled.withZero false)) :
    wp watcher Right Q E (checkValue 0) w := by
  refine wp_mono ?_ (wp_forRange (I := fun j w' =>
    w' = if j = 0 then w else w.spoiled) ?_ rfl)
  · rintro _ w' rfl
    exact hret
  -- this read needs read mode and finds program-verify mode
  · rintro j w' - - hw
    have hnext : ∀ epData : Word,
        w'.next (.read (.checkValue 0) (flEprom j)) epData
          = w.spoiled.withZero (w.zeroOk && decide (epData = 0)) := by
      intro epData
      obtain ⟨b, hb⟩ : ∃ b, w' = { w with modesOk := b } := by
        rw [hw]
        split
        · exact ⟨w.modesOk, rfl⟩
        · exact ⟨false, rfl⟩
      subst hb
      have hwrong : decide (w.mode = .readMode) = false := by
        rw [hmode]
        rfl
      show Watch.mk w.mode (w.identOk && true)
        (w.zeroOk && (false || decide (epData = 0)))
        (b && decide (w.mode = .readMode)) w.file (w.answers ++ []) = _
      rw [hwrong, Bool.and_true, Bool.false_or, Bool.and_false, List.append_nil]
      rfl
    rw [wp_bind, wp_read (fun h => absurd rfl h.1)]
    intro epData
    rw [hnext]
    by_cases hzero : epData = 0
    · rw [if_neg (not_not_intro hzero), decide_eq_true hzero, Bool.and_true]
      rfl
    · rw [if_pos hzero, decide_eq_false hzero, Bool.and_false]
      simp only [wp_bind, wp_printf, wp_exit]
      exact hexit

/-- `check_value` of another value reads in read mode. -/
theorem wp_checkValue {Q : Unit → Watch → Prop} {value : Word} {w : Watch}
    (hvalue : value ≠ 0) (hmode : w.mode = .readMode) (hret : Q () w)
    (hexit : E exitFailure w) :
    wp watcher Right Q E (checkValue value) w := by
  refine wp_mono ?_ (wp_forRange (I := fun _ w' => w' = w) ?_ rfl)
  · rintro _ w' rfl
    exact hret
  · rintro j w' - - rfl
    rw [wp_bind]
    refine wp_read_quiet (by simp) ?_ (by simp) hmode ?_
    · intro h
      exact hvalue (Site.checkValue.inj h)
    · intro epData
      split
      · simp only [wp_bind, wp_printf, wp_exit]
        exact hexit
      · rfl

/-- The verify loop of `erase`, after at least one word. -/
theorem wp_eraseVerify {Q : Nat × Nat → Watch → Prop} {left j : Nat}
    {w : Watch} (hend : j + left ≤ flashWordSize)
    (hmode : w.mode = .erase ∨ w.mode = .eraseVerify)
    (hsome : w.mode = .eraseVerify ∨ 0 < left)
    (hret : ∀ r, Q r (w.at .eraseVerify)) :
    wp watcher Right Q E (eraseVerify left j) w := by
  induction left generalizing j w with
  | zero =>
      rcases hsome with h | h
      · exact Watch.of_at h (hret (0, j))
      · exact absurd h (Nat.lt_irrefl 0)
  | succ left ih =>
      have hset : w.mode.write flashEraseVerify = .eraseVerify := by
        rcases hmode with h | h <;> rw [h] <;> rfl
      rw [eraseVerify]
      have hj : j < flashWordSize := by omega
      simp only [wp_bind, wp_write_word hj, wp_procWait]
      rw [hset]
      refine wp_read_quiet (by simp) (by simp) (by simp) rfl ?_
      intro epData
      split
      · exact hret (1, j)
      · exact ih (by omega) (Or.inr rfl) (Or.inl rfl) hret

/-- The attempts of `erase` end in erase-verify mode, however many there are.
    -/
theorem wp_eraseLoop {Q : Nat → Watch → Prop} {left failure j : Nat}
    {w : Watch} (hmode : w.mode = .readMode ∨ w.mode = .eraseVerify)
    (hsome : w.mode = .eraseVerify ∨ 0 < left ∧ failure ≠ 0)
    (hret : ∀ j, Q j (w.at .eraseVerify)) :
    wp watcher Right Q E (eraseLoop left failure j) w := by
  induction left generalizing failure j w with
  | zero =>
      rcases hsome with h | ⟨h, -⟩
      · exact Watch.of_at h (hret j)
      · exact absurd h (Nat.lt_irrefl 0)
  | succ left ih =>
      have hset : (w.mode.write flashEraseSetup).write flashErase
          = .erase := by
        rcases hmode with h | h <;> rw [h] <;> rfl
      rw [eraseLoop]
      split
      · simp only [wp_bind, wp_write_first, wp_procWait, Watch.at_mode,
          Watch.at_at]
        rw [hset]
        refine wp_eraseVerify (Nat.le_of_eq (Nat.zero_add _)) (Or.inl rfl)
          (Or.inr (by decide)) ?_
        rintro ⟨failure', j'⟩
        exact ih (Or.inr rfl) (Or.inl rfl) hret
      · rename_i hfailure
        rcases hsome with h | ⟨-, h⟩
        · exact Watch.of_at h (hret j)
        · exact absurd h hfailure

/-- `erase` goes back to read mode, also when it fails. -/
theorem wp_erase {Q : Unit → Watch → Prop} {w : Watch}
    (hmode : w.mode = .readMode) (hret : Q () w) (hexit : E exitFailure w) :
    wp watcher Right Q E erase w := by
  rw [erase, wp_bind]
  refine wp_eraseLoop (Or.inl hmode) (Or.inr ⟨by decide, by decide⟩) ?_
  intro j
  have hback : (w.at .eraseVerify).at ((w.at .eraseVerify).mode.write
      flashReadMemory) = w := Watch.at_self hmode
  rw [wp_bind, wp_write_first, hback]
  split
  · exact hret
  · simp only [wp_bind, wp_printf, wp_exit]
    exact hexit

/-! ## The hex file -/

/-- The modes between two words of `prog_hf`; the last one is left behind by a
    word outside the flash in a line that starts inside. -/
def Programming (m : Mode) : Prop :=
  m = .readMode ∨ m = .programVerify ∨ m = .program

/-- A reset pair ends every mode between two words. -/
theorem programming_reset {m : Mode} (h : Programming m) :
    m.afterReset = .readMode := by
  rcases h with h | h | h <;> rw [h] <;> rfl

/-- What the attempts at a word do to the register: nothing, when the line at
    `fl` lies outside the flash. -/
def Tried (fl : Word) (m m' : Mode) : Prop :=
  if inFlash fl then m' = .programVerify ∨ m' = .program else m' = m

theorem tried_inside {fl : Word} (h : inFlash fl = true) {m m' : Mode} :
    Tried fl m m' ↔ m' = .programVerify ∨ m' = .program := by
  rw [Tried, if_pos h]

theorem tried_outside {fl : Word} (h : inFlash fl = false) {m m' : Mode} :
    Tried fl m m' ↔ m' = m := by
  rw [Tried, h]
  rfl

theorem tried_trans {fl : Word} {m m' m'' : Mode} (h : Tried fl m m')
    (h' : Tried fl m' m'') : Tried fl m m'' := by
  cases hin : inFlash fl with
  | true => exact (tried_inside hin).mpr ((tried_inside hin).mp h')
  | false =>
      rw [(tried_outside hin).mp h'] at *
      exact h

theorem tried_programming {fl : Word} {m m' : Mode} (hm : Programming m)
    (h : Tried fl m m') : Programming m' := by
  cases hin : inFlash fl with
  | true => exact Or.inr ((tried_inside hin).mp h)
  | false => exact (tried_outside hin).mp h ▸ hm

/-- The register after one attempt at the word `a` of the line at `fl`. -/
def Mode.attempt (m : Mode) (fl a data : Word) : Mode :=
  ((m.next (.write fl flashProgramSetup) ()).next (.write a data) ()).next
    (.write fl flashProgramVerify) ()

/-- What an attempt does: where the data of a line inside go outside the flash,
    the verify command is taken for them. -/
theorem attempt_tried {m : Mode} {fl a : Word} (hm : Programming m)
    (hnear : inFlash fl = false → inFlash a = false) (data : Word) :
    Tried fl m (m.attempt fl a data) := by
  cases hin : inFlash fl with
  | true =>
      have hsetup : m.write flashProgramSetup = .programSetup := by
        rcases hm with h | h | h <;> rw [h] <;> rfl
      rw [tried_inside hin, Mode.attempt, next_inside hin m, hsetup,
        next_inside hin]
      -- the verify command is taken for the data where these went elsewhere
      cases ha : inFlash a with
      | true =>
          rw [next_inside ha]
          exact Or.inl rfl
      | false =>
          rw [next_outside ha]
          exact Or.inr rfl
  | false =>
      rw [tried_outside hin, Mode.attempt, next_outside hin,
        next_outside (hnear hin), next_outside hin]

/-- Where line and word are inside, the read follows in program-verify mode. -/
theorem attempt_verify {m : Mode} {fl a : Word} (hm : Programming m)
    (hfl : inFlash fl = true) (ha : inFlash a = true) (data : Word) :
    m.attempt fl a data = .programVerify := by
  have hsetup : m.write flashProgramSetup = .programSetup := by
    rcases hm with h | h | h <;> rw [h] <;> rfl
  rw [Mode.attempt, next_inside hfl m, hsetup, next_inside ha, next_inside hfl]
  rfl

/-- The loop over the attempts at a word: what it leaves of the register, and
    what its answers decide. -/
theorem wp_progWord {Q : Bool × Word → Watch → Prop} {fl data epData : Word}
    {j left : Nat} {n : Mode} {w : Watch} (hspoiled : w.modesOk = false)
    (hnear : inFlash fl = false → inFlash (index fl (j - 1)) = false)
    (hmode : Programming w.mode)
    (htried : Tried fl n w.mode ∨ w.mode = n ∧ 0 < left)
    (hret : ∀ failure epData m rs, Tried fl n m →
      (∀ inside words future,
        strayFails inside left ((fl, data) :: words) (rs ++ future)
          = if failure then inside && !inFlash fl
            else strayFails (inside || inFlash fl) 3 words future) →
      Q (failure, epData) ((w.at m).heard rs)) :
    wp watcher Right Q E (progWord fl j data left true epData) w := by
  induction left generalizing epData w with
  | zero =>
      rcases htried with h | ⟨-, h⟩
      · have hret' := hret true epData w.mode [] h
          (fun _ _ _ => strayFails_spent _ _ _ _ _)
        rw [Watch.at_self rfl, Watch.heard_nil] at hret'
        exact hret'
      · exact absurd h (Nat.lt_irrefl 0)
  | succ left ih =>
      have htried' : Tried fl n (w.mode.attempt fl (index fl (j - 1)) data) := by
        rcases htried with h | ⟨h, -⟩
        · exact tried_trans h (attempt_tried hmode hnear data)
        · exact h ▸ attempt_tried hmode hnear data
      rw [progWord, if_pos rfl]
      simp only [wp_bind, wp_write, wp_procWait, Watch.at_mode, Watch.at_at,
        index_zero]
      show wp watcher Right _ E _ (w.at (w.mode.attempt fl (index fl (j - 1)) data))
      refine wp_read_progEp hspoiled ?_ ?_
      · intro ha
        refine attempt_verify hmode ?_ ha data
        refine Bool.of_not_eq_false (fun hfl => ?_)
        exact Bool.false_ne_true ((hnear hfl).symm.trans ha)
      intro r
      by_cases hr : r = data
      -- the word reads back: no further attempt
      · rw [decide_eq_false (not_not_intro hr), progWord_verified]
        refine hret false r _ [r] htried' ?_
        intro inside words future
        rw [List.singleton_append, strayFails, if_pos hr]
        rfl
      · rw [decide_eq_true hr]
        refine ih hspoiled (tried_programming hmode
          (attempt_tried hmode hnear data)) (Or.inl htried') ?_
        intro failure epData m rs hm hrs
        rw [Watch.heard_at, Watch.at_at, Watch.heard_heard]
        refine hret failure epData m _ hm ?_
        intro inside words future
        rw [List.append_assoc, List.singleton_append, strayFails, if_neg hr]
        exact hrs inside words future

/-- From `w` on the words have been programmed: the register is still in read
    mode exactly when all of them lie outside the flash, and the answers so
    far decide no failure. -/
def Hexed (w : Watch) (words : List (Word × Word)) (w' : Watch) : Prop :=
  ∃ m past, w' = (w.at m).heard past ∧ Programming m ∧
    (m = .readMode ↔ anyInside words = false) ∧
    ∀ rest future, strayFails false 3 (words ++ rest) (past ++ future)
      = strayFails (anyInside words) 3 rest future

theorem hexed_nil {w : Watch} (hmode : w.mode = .readMode) : Hexed w [] w := by
  refine ⟨.readMode, [], ?_, Or.inl rfl, ?_, fun _ _ => rfl⟩
  · rw [Watch.heard_nil, Watch.at_self hmode]
  · exact ⟨fun _ => rfl, fun _ => rfl⟩

/-- Where no word fails, the answers decide no failure. -/
theorem hexed_answers {w w' : Watch} {words : List (Word × Word)}
    (h : Hexed w words w') (rest : List (Word × Word)) :
    ∃ m past, w' = (w.at m).heard past ∧ Programming m ∧
      strayFails false 3 (words ++ rest) past = false := by
  obtain ⟨m, past, hw', hm, -, hstray⟩ := h
  have hend := hstray rest []
  rw [List.append_nil, strayFails_nil] at hend
  exact ⟨m, past, hw', hm, hend⟩

/-- The exits of `prog_hf`, when `words` are those of the file. -/
def ExitsFrom (w : Watch) (words : List (Word × Word))
    (E : Nat → Watch → Prop) : Prop :=
  ∀ m past, (m = .readMode ↔ strayFails false 3 words past = false) →
    E exitFailure ((w.at m).heard past)

theorem anyInside_snoc (words : List (Word × Word)) (fl data : Word) :
    anyInside (words ++ [(fl, data)]) = (anyInside words || inFlash fl) := by
  rw [anyInside, List.any_append, List.any_cons, List.any_nil, Bool.or_false]
  rfl

/-- One word of `prog_ep`. -/
theorem wp_epWord {words rest : List (Word × Word)} {hexData : HexData}
    {j : Nat} {w w' : Watch} (hspoiled : w.modesOk = false)
    (hnear : inFlash (lineAddress hexData) = false →
      inFlash (index (lineAddress hexData) (j - 1)) = false)
    (hexit : ExitsFrom w
      (words ++ (lineAddress hexData, hexData.getD j 0) :: rest) E)
    (h : Hexed w words w') :
    wp watcher Right (fun _ => Hexed w
      (words ++ [(lineAddress hexData, hexData.getD j 0)])) E
      (epWord hexData j) w' := by
  obtain ⟨m₀, past, rfl, hm₀, hmode, hstray⟩ := h
  rw [epWord, wp_bind]
  refine wp_progWord (n := m₀) hspoiled hnear hm₀
    (Or.inr ⟨rfl, by decide⟩) ?_
  intro failure epData m rs hm hrs
  rw [Watch.heard_at, Watch.at_at, Watch.heard_heard]
  cases failure with
  | false =>
      refine ⟨m, past ++ rs, rfl, tried_programming hm₀ hm, ?_, ?_⟩
      · rw [anyInside_snoc]
        cases hin : inFlash (lineAddress hexData) with
        | true =>
            rw [Bool.or_true]
            rcases (tried_inside hin).mp hm with rfl | rfl <;> simp
        | false =>
            rw [Bool.or_false, (tried_outside hin).mp hm]
            exact hmode
      · intro rest' future
        rw [List.append_assoc, List.singleton_append, List.append_assoc, hstray,
          anyInside_snoc]
        exact hrs _ _ _
  | true =>
      simp only [if_true, wp_bind, wp_printf, wp_write, wp_exit,
        Watch.heard_mode, Watch.heard_at, Watch.at_mode, Watch.at_at, index_zero]
      refine hexit _ _ ?_
      have hfails := hrs (anyInside words) rest []
      rw [List.append_nil] at hfails
      rw [hstray, hfails]
      -- outside the flash the resets do not reach the register
      cases hin : inFlash (lineAddress hexData) with
      | true =>
          rw [next_inside hin, next_inside hin]
          rcases (tried_inside hin).mp hm with rfl | rfl <;>
            simp [Mode.write]
      | false =>
          rw [next_outside hin, next_outside hin, (tried_outside hin).mp hm]
          simpa using hmode

/-- The address of a decoded line is not below the base, and it has at most
    four words. -/
theorem decoded_line {text : List Char} {line : HexData × Nat}
    (h : line ∈ decoded text) :
    0x40000000 ≤ (lineAddress line.1).toNat ∧ line.2 ≤ 4 := by
  obtain ⟨piece, -, hdec⟩ := List.mem_filterMap.mp h
  obtain ⟨count, hcount, rfl⟩ := Option.map_eq_some_iff.mp hdec
  refine ⟨?_, wordCount_le hcount⟩
  show 0x40000000 ≤ (_ ||| flashBaseAddress).toNat
  rw [BitVec.toNat_or]
  exact Nat.right_le_or

/-- The first `j` words of a line are the first `j - 1` and one more. -/
theorem lineEntries_snoc (hexData : HexData) {j : Nat} (hj : 1 ≤ j) :
    lineEntries (hexData, j) = lineEntries (hexData, j - 1)
      ++ [(lineAddress hexData, hexData.getD j 0)] := by
  obtain ⟨i, rfl⟩ : ∃ i, j = i + 1 := ⟨j - 1, by omega⟩
  rw [Nat.add_sub_cancel, lineEntries, lineWords_add, List.map_append,
    Nat.add_comm 1 i]
  rfl

/-- The words of a line from the `j`th one on. -/
theorem lineEntries_split {line : HexData × Nat} {j : Nat} (hj : 1 ≤ j)
    (hle : j ≤ line.2) :
    ∃ tail, lineEntries line = lineEntries (line.1, j - 1)
      ++ (lineAddress line.1, line.1.getD j 0) :: tail := by
  obtain ⟨i, hi⟩ := Nat.exists_eq_add_of_le hle
  refine ⟨(lineWords line.1 i (1 + j)).map
    (fun data => (lineAddress line.1, data)), ?_⟩
  have hline : lineEntries line = lineEntries (line.1, j)
      ++ (lineWords line.1 i (1 + j)).map
        (fun data => (lineAddress line.1, data)) := by
    rw [lineEntries, hi, lineWords_add, List.map_append]
    rfl
  rw [hline, lineEntries_snoc _ hj, List.append_assoc]
  rfl

/-- A line of `prog_ep`: its words come one after the other. -/
theorem wp_progEp {words rest : List (Word × Word)} {line : HexData × Nat}
    {w w' : Watch} (hspoiled : w.modesOk = false)
    (hline : 0x40000000 ≤ (lineAddress line.1).toNat ∧ line.2 ≤ 4)
    (hexit : ExitsFrom w (words ++ lineEntries line ++ rest) E)
    (h : Hexed w words w') :
    wp watcher Right (fun _ => Hexed w (words ++ lineEntries line)) E
      (progEp line.1 line.2) w' := by
  rw [progEp_words]
  refine wp_mono ?_ (wp_forRange (I := fun j =>
    Hexed w (words ++ lineEntries (line.1, j - 1))) ?_ ?_)
  · intro _ w'' h''
    rw [Nat.add_sub_cancel_left] at h''
    exact h''
  · intro j w'' hj hlt h''
    obtain ⟨tail, htail⟩ := lineEntries_split hj (show j ≤ line.2 by omega)
    rw [htail, ← List.append_assoc words, List.append_assoc, List.cons_append]
      at hexit
    have hword := wp_epWord hspoiled
      (index_outside hline.1 (show j - 1 < 4 by omega)) hexit h''
    rw [List.append_assoc, ← lineEntries_snoc line.1 hj] at hword
    exact hword
  · show Hexed w (words ++ []) w'
    rw [List.append_nil]
    exact h

theorem wp_checkEp {hexData : HexData} {wordCt : Nat} {w : Watch}
    (hmode : w.mode = .readMode) (hexit : E exitFailure w) :
    wp watcher Right (fun _ w' => w' = w) E (checkEp hexData wordCt) w := by
  refine wp_forRange (I := fun _ w' => w' = w) ?_ rfl
  rintro j w' - - rfl
  rw [wp_bind]
  refine wp_read_quiet (by simp) (by simp) (by simp) hmode ?_
  intro epData
  split
  · simp only [wp_bind, wp_printf, wp_exit]
    exact hexit
  · rfl

/-- A pass over the file: `K` says what the lines so far have left. -/
theorem wp_hexFile {ep : HexData → Nat → Flash Unit}
    {K : List Char → List (HexData × Nat) → Watch → Prop}
    {Q : Unit → Watch → Prop} {hexData : HexData} {w : Watch}
    (hnone : E exitFailure (w.opened none))
    (hep : ∀ text done line rest v, decoded text = done ++ line :: rest →
      K text done v →
      wp watcher Right (fun _ => K text (done ++ [line])) E (ep line.1 line.2) v)
    (hbad : ∀ text done rest v, decoded text = done ++ rest → K text done v →
      E exitFailure (v.at v.mode.afterReset))
    (hK : ∀ text, K text [] (w.opened (some text)))
    (hret : ∀ text v, K text (decoded text) v → Q () v) :
    wp watcher Right Q E (hexFile ep hexData) w := by
  rw [hexFile, wp_bind, wp_fopen]
  intro text
  cases text with
  | none =>
      simp only [wp_bind, wp_printf, wp_exit]
      exact hnone
  | some text =>
      show wp watcher Right Q E (hexText ep text hexData) (w.opened (some text))
      rw [hexText]
      refine wp_seq (wp_lines (K := K text) (hep text) (fgetsAll 256 text) ?_ []
        hexData _ rfl (hK text)) ?_
      · intro _ _ _ _ done rest v htotal hv
        rw [invalidLine]
        simp only [wp_bind, wp_printf, wp_resetFe, wp_exit]
        exact hbad text done rest v htotal hv
      · intro _ v hv
        rw [wp_fclose]
        exact hret text v hv

/-- `prog_hf`, when no file has been opened before. -/
theorem wp_progHf {Q : Unit → Watch → Prop} {hexData : HexData} {w : Watch}
    (hmode : w.mode = .readMode) (hspoiled : w.modesOk = false)
    (hexit : ∀ file m past, (m = .readMode ↔ NoStray file past) →
      E exitFailure (((w.opened file).at m).heard past))
    (hret : ∀ text m past, Programming m → NoStray (some text) past →
      Q () (((w.opened (some text)).at m).heard past)) :
    wp watcher Right Q E (progHf hexData) w := by
  refine wp_hexFile (K := fun text done =>
    Hexed (w.opened (some text)) (done.flatMap lineEntries)) ?_ ?_ ?_ ?_ ?_
  · have hnone := hexit none .readMode []
      ⟨fun _ => noStray_none [], fun _ => rfl⟩
    rw [Watch.heard_nil, Watch.opened_none, Watch.at_self hmode] at hnone
    rw [Watch.opened_none]
    exact hnone
  · intro text done line rest v htotal hv
    have hwords : fileWords text = done.flatMap lineEntries ++ lineEntries line
        ++ rest.flatMap lineEntries := by
      rw [fileWords, htotal, List.flatMap_append, List.flatMap_cons,
        List.append_assoc]
    have hexits : ExitsFrom (w.opened (some text)) (done.flatMap lineEntries
        ++ lineEntries line ++ rest.flatMap lineEntries) E := by
      intro m past hm
      refine hexit (some text) m past ?_
      rw [noStray_some, hwords]
      exact hm
    rw [List.flatMap_append, List.flatMap_singleton]
    exact wp_progEp hspoiled (decoded_line (decoded_mem htotal)) hexits hv
  -- a line that is not legal is reset inside the flash
  · intro text done rest v htotal hv
    obtain ⟨m, past, rfl, hm, hstray⟩ :=
      hexed_answers hv (rest.flatMap lineEntries)
    rw [← List.flatMap_append, ← htotal] at hstray
    rw [Watch.heard_mode, Watch.heard_at, Watch.at_at, Watch.at_mode,
      programming_reset hm]
    exact hexit (some text) .readMode past
      ⟨fun _ => noStray_some.mpr hstray, fun _ => rfl⟩
  · intro text
    exact hexed_nil hmode
  · intro text v hv
    obtain ⟨m, past, rfl, hm, hstray⟩ := hexed_answers hv []
    rw [List.append_nil] at hstray
    exact hret text m past hm (noStray_some.mpr hstray)

/-- `check_hf`, after another file has been opened. -/
theorem wp_checkHf {Q : Unit → Watch → Prop} {hexData : HexData} {w : Watch}
    (hmode : w.mode = .readMode) (hfile : w.file ≠ none)
    (hexit : E exitFailure w) (hret : Q () w) :
    wp watcher Right Q E (checkHf hexData) w := by
  have hopened : ∀ text, w.opened text = w := by
    intro text
    obtain ⟨first, hfirst⟩ := Option.ne_none_iff_exists'.mp hfile
    rw [Watch.opened, hfirst, Option.some_or, ← hfirst]
  refine wp_hexFile (K := fun _ _ v => v = w) ?_ ?_ ?_ ?_ ?_
  · rw [hopened]
    exact hexit
  · rintro text done line rest v - rfl
    exact wp_checkEp hmode hexit
  · rintro text done rest v - rfl
    have hself : v.at v.mode.afterReset = v := by
      refine Watch.at_self ?_
      rw [hmode]
      rfl
    rw [hself]
    exact hexit
  · intro text
    exact hopened (some text)
  · rintro text v rfl
    exact hret

end Rules

end FlashRegister
