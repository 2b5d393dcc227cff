import Ttm50.FlashModes
import Ttm50.FlashOperations

/-! # Programming a device that may fail partially

    The device has an array of words and the command register of `Mode`.  A
    setup/program pair clears some of the bits that are 0 in its data, an
    erase sets some bits, and no other command changes a word; reads outside
    ID mode return the array.  Which bits follow is not determined.

    * `dev_programAndCheck`: when `high_pr` comes to its success message, the
      array holds the hex file and is erased elsewhere, for every such device
      and every file with aligned addresses inside the window.
    * `dev_highPr`: the message is printed at no other point.

    The argument does not depend on the programming loops: it uses that
    nothing but the named words is programmed, and the two passes that read
    the array back. -/

namespace FlashDevice

open CStdio InteractivePrograms FlashDriver FlashLines FlashRegister
open FlashModes FlashOperations

/-! ## The device -/

/-- The command register and the array. -/
structure Device where
  mode : Mode
  array : Nat → Word

/-- Programming `data` over `old` gives `new`: it clears only bits that are 0
    in the data, perhaps not all of them. -/
def Programmed (old data new : Word) : Prop :=
  new &&& old = new ∧ old &&& data &&& new = old &&& data

/-- Erasing gives `new`: bits are set only, perhaps not all of them. -/
def Erased (old new : Word) : Prop := old &&& new = old

/-- What writing `value` at word `i` may leave in the array. -/
def Stored (d : Device) (i : Nat) (value : Word) (array : Nat → Word) : Prop :=
  if d.mode = .programSetup then
    Programmed (d.array i) value (array i) ∧ ∀ k, k ≠ i → array k = d.array k
  else if d.mode = .eraseSetup ∧ value = flashErase then
    ∀ k, Erased (d.array k) (array k)
  else array = d.array

/-- The device and a file with the given text.  An access outside the window
    or to an address that is not aligned may do anything to the array. -/
def device (text : List Char) : Env FlashOp FlashOp.Res Device
  | d, .read _ a, r, d' => d'.mode = d.mode ∧
      ∀ i, cellOf a = some i →
        d'.array = d.array ∧ (d.mode ≠ .idMode → r = d.array i)
  | d, .write a v, _, d' => d'.mode = d.mode.next (.write a v) () ∧
      ∀ i, cellOf a = some i → Stored d i v d'.array
  | d, .procWait _, _, d' => d' = d
  | d, .printf _ _, _, d' => d' = d
  | d, .fopen, r, d' => d' = d ∧ (r = none ∨ r = some text)
  | d, .fclose, _, d' => d' = d

/-! ## The lines of the file -/

/-- A line gives the word `i` of the array the value `v`. -/
def LineNames (line : HexData × Nat) (i : Nat) (v : Word) : Prop :=
  ∃ j, 1 ≤ j ∧ j ≤ line.2 ∧
    cellOf (index (lineAddress line.1) (j - 1)) = some i ∧ line.1.getD j 0 = v

/-- Some line of the text gives the word `i` the value `v`. -/
def Names (text : List Char) (i : Nat) (v : Word) : Prop :=
  ∃ line ∈ decoded text, LineNames line i v

/-- All words of a line are aligned and inside the window. -/
def LineInWindow (line : HexData × Nat) : Prop :=
  ∀ j, 1 ≤ j → j ≤ line.2 → ∃ i, cellOf (index (lineAddress line.1) (j - 1)) = some i

/-- The array holds the file and is erased elsewhere. -/
def HoldsFile (text : List Char) (array : Nat → Word) : Prop :=
  (∀ i v, Names text i v → array i = v) ∧
    ∀ i, i < flashWordSize → (∀ v, ¬ Names text i v) → array i = 0xffffffff

/-! ## The rules of single operations -/

/-- No condition on the operations. -/
def anything (_ : Device) (_ : FlashOp) : Prop := True

section Rules

variable {A : Type} {text : List Char} {E : Nat → Device → Prop}

/-- A command that neither programs nor erases. -/
theorem dev_command {Q : Unit → Device → Prop} {a v : Word} {d : Device}
    {i : Nat} (hi : cellOf a = some i) (hp : d.mode ≠ .programSetup)
    (he : d.mode ≠ .eraseSetup) (hQ : Q () ⟨d.mode.write v, d.array⟩) :
    wp (device text) anything Q E (write a v) d := by
  refine ⟨trivial, ?_⟩
  rintro r ⟨mode, array⟩ ⟨hmode, hstored⟩
  have harray := hstored i hi
  rw [Stored, if_neg hp, if_neg (fun h => he h.1)] at harray
  rw [next_inside (inFlash_of_cell hi)] at hmode
  obtain rfl : mode = d.mode.write v := hmode
  obtain rfl : array = d.array := harray
  exact hQ

/-- The data after a program setup. -/
theorem dev_program {Q : Unit → Device → Prop} {a v : Word} {d : Device}
    {i : Nat} (hi : cellOf a = some i) (hp : d.mode = .programSetup)
    (hQ : ∀ array, (∀ k, k ≠ i → array k = d.array k) → Q () ⟨.program, array⟩) :
    wp (device text) anything Q E (write a v) d := by
  refine ⟨trivial, ?_⟩
  rintro r ⟨mode, array⟩ ⟨hmode, hstored⟩
  have harray := hstored i hi
  rw [Stored, if_pos hp] at harray
  rw [next_inside (inFlash_of_cell hi), hp] at hmode
  obtain rfl : mode = .program := hmode
  exact hQ array harray.2

/-- A read outside ID mode. -/
theorem dev_read {Q : Word → Device → Prop} {site : Site} {a : Word}
    {d : Device} {i : Nat} (hi : cellOf a = some i) (hm : d.mode ≠ .idMode)
    (hQ : Q (d.array i) d) :
    wp (device text) anything Q E (read site a) d := by
  refine ⟨trivial, ?_⟩
  rintro r ⟨mode, array⟩ ⟨hmode, hread⟩
  obtain ⟨harray, hr⟩ := hread i hi
  obtain rfl : mode = d.mode := hmode
  obtain rfl : array = d.array := harray
  rw [hr hm]
  exact hQ

@[simp] theorem dev_procWait {Q : Unit → Device → Prop} (us : Nat)
    (d : Device) :
    wp (device text) anything Q E (procWait us) d ↔ Q () d := by
  constructor
  · rintro ⟨-, h⟩
    exact h () d rfl
  · intro h
    refine ⟨trivial, ?_⟩
    rintro r d' rfl
    exact h

@[simp] theorem dev_printf {Q : Unit → Device → Prop} (message : String)
    (args : List Word) (d : Device) :
    wp (device text) anything Q E (printf message args) d ↔ Q () d := by
  constructor
  · rintro ⟨-, h⟩
    exact h () d rfl
  · intro h
    refine ⟨trivial, ?_⟩
    rintro r d' rfl
    exact h

@[simp] theorem dev_fclose {Q : Unit → Device → Prop} (d : Device) :
    wp (device text) anything Q E fclose d ↔ Q () d := by
  constructor
  · rintro ⟨-, h⟩
    exact h () d rfl
  · intro h
    refine ⟨trivial, ?_⟩
    rintro r d' rfl
    exact h

theorem dev_fopen {Q : Option (List Char) → Device → Prop} {d : Device}
    (hnone : Q none d) (hsome : Q (some text) d) :
    wp (device text) anything Q E fopen d := by
  refine ⟨trivial, ?_⟩
  rintro r d' ⟨rfl, rfl | rfl⟩
  · exact hnone
  · exact hsome

/-- A mode in which the next write is a command of its own. -/
def Settled (m : Mode) : Prop :=
  m ≠ .programSetup ∧ m ≠ .eraseSetup ∧ m ≠ .resetOnce

theorem settled_write {m : Mode} (h : Settled m) (v : Word) :
    m.write v = .command v := by
  cases m with
  | programSetup => exact absurd rfl h.1
  | eraseSetup => exact absurd rfl h.2.1
  | resetOnce => exact absurd rfl h.2.2
  | _ => rfl

theorem settled_programming {m : Mode} (h : Programming m) : Settled m := by
  rcases h with h | h | h <;> simp [h, Settled]

theorem dev_resetFe {Q : Unit → Device → Prop} {d : Device}
    (hmode : Settled d.mode) (hQ : Q () ⟨.readMode, d.array⟩) :
    wp (device text) anything Q E resetFe d := by
  have hcell : cellOf (flEprom 0) = some 0 := cellOf_flEprom (by decide)
  rw [resetFe, wp_bind]
  refine dev_command hcell hmode.1 hmode.2.1 ?_
  rw [settled_write hmode, wp_bind]
  refine dev_command hcell (by simp) (by simp) ?_
  rw [dev_procWait]
  exact hQ

/-- The device follows the register. -/
theorem device_next {d d' : Device} {o : FlashOp} {r : o.Res}
    (h : device text d o r d') : d'.mode = d.mode.next o r := by
  cases o with
  | read | write => exact h.1
  | fopen => exact congrArg Device.mode h.1
  | procWait | printf | fclose => exact congrArg Device.mode h

/-- What holds of the register for every answer holds for the device. -/
theorem dev_of_watcher {p : Flash A} {Q : A → Mode → Prop} {d : Device}
    {w : Watch} (hw : d.mode = w.mode)
    (h : wp watcher Right (fun a w => Q a w.mode) (fun x _ => x = exitFailure)
      p w) (hfail : ∀ d, E exitFailure d) :
    wp (device text) anything (fun a d => Q a d.mode) E p d := by
  have hstep : ∀ (d : Device) (w : Watch) o r d', d.mode = w.mode →
      device text d o r d' → ∃ w', watcher w o r w' ∧ d'.mode = w'.mode := by
    intro d w o r d' hR hd
    refine ⟨w.next o r, rfl, ?_⟩
    rw [next_mode, ← hR]
    exact device_next hd
  refine wp_consequence (fun _ _ _ => trivial) ?_ ?_ (wp_simulate hstep hw h)
  · rintro a d' ⟨w', hR, hQ⟩
    show Q a d'.mode
    rw [hR]
    exact hQ
  · rintro x d' ⟨w', -, rfl⟩
    exact hfail d'

/-! ## Erasing -/

/-- `high_pr` up to the reset before `erase`. -/
def zeroAll : Flash Unit := do
  resetFe
  readII
  resetFe
  readII
  resetFe
  progTo0
  checkValue 0x00000000
  resetFe

/-- `high_pr` after `prog_hf`. -/
def checkAll (stack' : HexData) : Flash Unit := do
  resetFe
  resetFe
  checkHf stack'
  printf successMessage []
  Prog.exit exitSuccess

/-- `high_pr` up to the end of `erase`. -/
def eraseAll : Flash Unit := do
  resetFe
  readII
  resetFe
  readII
  resetFe
  progTo0
  checkValue 0x00000000
  resetFe
  erase

theorem eraseAll_split : eraseAll = zeroAll >>= fun _ => erase := by
  simp only [eraseAll, zeroAll, prog_bind_assoc]

theorem wp_eraseAll (mode : Mode) :
    wp watcher Right (fun _ w => w.mode = .readMode) (fun x _ => x = exitFailure)
      eraseAll (Watch.start mode) := by
  rw [eraseAll, wp_bind, wp_resetFe, wp_bind]
  refine wp_readII ?_ rfl
  rw [wp_bind, wp_resetFe, wp_bind]
  refine wp_readII ?_ rfl
  rw [wp_bind, wp_resetFe, wp_bind]
  refine wp_progTo0 rfl ?_
  rw [wp_bind]
  refine wp_checkZero rfl ?_ rfl
  rw [wp_bind, wp_resetFe]
  exact wp_erase rfl rfl rfl

/-- `check_value` returns only if all words have the value. -/
theorem dev_checkValue {Q : Unit → Device → Prop} {value : Word} {d : Device}
    (hm : d.mode ≠ .idMode)
    (hQ : (∀ k, k < flashWordSize → d.array k = value) → Q () d)
    (hE : ∀ k, k < flashWordSize → d.array k ≠ value → E exitFailure d) :
    wp (device text) anything Q E (checkValue value) d := by
  refine wp_mono ?_ (wp_forRange (I := fun j d' =>
    d' = d ∧ ∀ k, k < j → d.array k = value) ?_ ?_)
  · rintro _ d' ⟨rfl, hall⟩
    refine hQ (fun k hk => hall k ?_)
    rw [Nat.zero_add]
    exact hk
  · rintro j d' - hlt ⟨rfl, hall⟩
    rw [Nat.zero_add] at hlt
    rw [wp_bind]
    refine dev_read (cellOf_flEprom hlt) hm ?_
    split
    · rename_i hne
      simp only [wp_bind, dev_printf, wp_exit]
      exact hE j hlt hne
    · rename_i heq
      refine ⟨rfl, ?_⟩
      intro k hk
      rcases Nat.lt_succ_iff_lt_or_eq.mp hk with hk | rfl
      · exact hall k hk
      · exact Decidable.not_not.mp heq
  · exact ⟨rfl, fun k hk => absurd hk (Nat.not_lt_zero k)⟩

/-! ## Programming and checking the file -/

theorem dev_anyWrite {Q : Unit → Device → Prop} {a v : Word} {d : Device}
    (hQ : ∀ d', Q () d') : wp (device text) anything Q E (write a v) d :=
  ⟨trivial, fun _ d' _ => hQ d'⟩

theorem dev_invalidLine {Q : A → Device → Prop} {d : Device}
    (hfail : ∀ d, E exitFailure d) :
    wp (device text) anything Q E invalidLine d := by
  rw [invalidLine, wp_bind, dev_printf, wp_bind, resetFe, wp_bind]
  refine dev_anyWrite (fun d' => ?_)
  rw [wp_bind]
  refine dev_anyWrite (fun d'' => ?_)
  rw [dev_procWait]
  exact hfail d''

/-- A pass over the file. -/
theorem dev_hexFile {ep : HexData → Nat → Flash Unit}
    {K : List (HexData × Nat) → Device → Prop} {P : HexData × Nat → Prop}
    {Q : Unit → Device → Prop} {hexData : HexData} {d : Device}
    (hep : ∀ done line d, P line → K done d →
      wp (device text) anything (fun _ d' => K (done ++ [line]) d') E
        (ep line.1 line.2) d)
    (hfail : ∀ d, E exitFailure d) (hP : ∀ line ∈ decoded text, P line)
    (hK : K [] d) (hQ : ∀ d', K (decoded text) d' → Q () d') :
    wp (device text) anything Q E (hexFile ep hexData) d := by
  rw [hexFile, wp_bind]
  refine dev_fopen ?_ ?_
  · simp only [wp_bind, dev_printf, wp_exit]
    exact hfail d
  · show wp (device text) anything Q E (hexText ep text hexData) d
    rw [hexText]
    refine wp_seq (wp_lines (fun done line _ d' htotal =>
      hep done line d' (hP line (decoded_mem htotal))) (fgetsAll 256 text)
      (fun _ _ _ _ _ _ _ _ _ => dev_invalidLine hfail) [] hexData d rfl hK) ?_
    intro _ d' hK'
    rw [dev_fclose]
    exact hQ d' hK'

/-- Programming one word changes no word but its own. -/
theorem dev_progWord {Q : Bool × Word → Device → Prop} {fl data epData : Word}
    {j left i₀ i : Nat} {failure : Bool} {d : Device}
    (hfirst : cellOf (index fl 0) = some i₀)
    (hcell : cellOf (index fl (j - 1)) = some i)
    (hmode : Programming d.mode)
    (hQ : ∀ r d', Programming d'.mode →
      (∀ k, k ≠ i → d'.array k = d.array k) → Q r d') :
    wp (device text) anything Q E
      (progWord fl j data left failure epData) d := by
  induction left generalizing failure epData d with
  | zero => exact hQ _ _ hmode (fun _ _ => rfl)
  | succ left ih =>
      have hset := settled_programming hmode
      rw [progWord]
      split
      · rw [wp_bind]
        refine dev_command hfirst hset.1 hset.2.1 ?_
        rw [settled_write hset, wp_bind]
        refine dev_program hcell rfl ?_
        intro array hother
        rw [wp_bind, dev_procWait, wp_bind]
        refine dev_command hfirst (by simp) (by simp) ?_
        rw [wp_bind, dev_procWait, wp_bind]
        refine dev_read hcell (by simp) ?_
        refine ih (Or.inr (Or.inl rfl)) ?_
        intro r d' hm hframe
        refine hQ r d' hm ?_
        intro k hk
        rw [hframe k hk]
        exact hother k hk
      · exact hQ _ _ hmode (fun _ _ => rfl)

/-- `prog_ep` programs only words that its line names. -/
theorem dev_progEp {line : HexData × Nat} {d : Device}
    (hwindow : LineInWindow line) (hmode : Programming d.mode)
    (hfail : ∀ d, E exitFailure d) :
    wp (device text) anything
      (fun _ (d' : Device) => Programming d'.mode ∧
        ∀ k, (∀ v, ¬ LineNames line k v) → d'.array k = d.array k) E
      (progEp line.1 line.2) d := by
  refine wp_forRange (I := fun _ (d' : Device) => Programming d'.mode ∧
    ∀ k, (∀ v, ¬ LineNames line k v) → d'.array k = d.array k) ?_
    ⟨hmode, fun _ _ => rfl⟩
  rintro j d' hj hlt ⟨hm, hframe⟩
  have hle : j ≤ line.2 := by omega
  obtain ⟨i₀, hfirst⟩ := hwindow 1 (Nat.le_refl 1) (by omega)
  obtain ⟨i, hcell⟩ := hwindow j hj hle
  have hnamed : LineNames line i (line.1.getD j 0) := ⟨j, hj, hle, hcell, rfl⟩
  rw [wp_bind]
  refine dev_progWord hfirst hcell hm ?_
  rintro ⟨failure, epData⟩ d'' hm' hother
  cases failure with
  | false =>
      refine ⟨hm', ?_⟩
      intro k hk
      have hki : k ≠ i := fun h => hk _ (h ▸ hnamed)
      rw [hother k hki, hframe k hk]
  | true =>
      -- the utility ends with a failure: what the resets do does not matter
      simp only [if_true, wp_bind, dev_printf]
      refine dev_anyWrite (fun d₁ => ?_)
      rw [wp_bind]
      refine dev_anyWrite (fun d₂ => ?_)
      exact hfail d₂

/-- `check_ep` returns only if the array holds the line. -/
theorem dev_checkEp {line : HexData × Nat} {d : Device}
    (hwindow : LineInWindow line) (hmode : d.mode = .readMode)
    (hfail : ∀ d, E exitFailure d) :
    wp (device text) anything
      (fun _ d' => d' = d ∧ ∀ i v, LineNames line i v → d.array i = v) E
      (checkEp line.1 line.2) d := by
  refine wp_mono ?_ (wp_forRange (I := fun j d' => d' = d ∧
    ∀ k, 1 ≤ k → k < j → ∀ i, cellOf (index (lineAddress line.1) (k - 1)) = some i →
      d.array i = line.1.getD k 0) ?_ ?_)
  -- checking changes nothing, so the words compared first still hold
  · rintro _ d' ⟨rfl, hall⟩
    refine ⟨rfl, ?_⟩
    rintro i v ⟨k, hk, hle, hcell, rfl⟩
    exact hall k hk (by omega) i hcell
  · rintro j d' hj hlt ⟨rfl, hall⟩
    obtain ⟨i, hcell⟩ := hwindow j hj (by omega)
    rw [wp_bind]
    refine dev_read hcell ?_ ?_
    · rw [hmode]
      simp
    split
    · simp only [wp_bind, dev_printf, wp_exit]
      exact hfail _
    · rename_i heq
      refine ⟨rfl, ?_⟩
      intro k hk hkj i' hcell'
      rcases Nat.lt_succ_iff_lt_or_eq.mp hkj with hkj | rfl
      · exact hall k hk hkj i' hcell'
      · obtain rfl := Option.some.inj (hcell.symm.trans hcell')
        exact Decidable.not_not.mp heq
  · exact ⟨rfl, fun k hk hk1 => absurd hk (by omega)⟩

/-- `prog_hf` programs only words that the file names. -/
theorem dev_progHf {Q : Unit → Device → Prop} {hexData : HexData} {d : Device}
    (hwindow : ∀ line ∈ decoded text, LineInWindow line)
    (hmode : d.mode = .readMode) (hfail : ∀ d, E exitFailure d)
    (hQ : ∀ d' : Device, Programming d'.mode →
      (∀ i, (∀ v, ¬ Names text i v) → d'.array i = d.array i) → Q () d') :
    wp (device text) anything Q E (progHf hexData) d := by
  refine dev_hexFile
    (K := fun _ (d' : Device) => Programming d'.mode ∧
      ∀ i, (∀ v, ¬ Names text i v) → d'.array i = d.array i)
    (P := fun line => line ∈ decoded text) ?_ hfail (fun _ h => h)
    ⟨Or.inl hmode, fun _ _ => rfl⟩ ?_
  · rintro done line d' hline ⟨hm, hframe⟩
    refine wp_mono ?_ (dev_progEp (hwindow line hline) hm hfail)
    rintro _ d'' ⟨hm', hframe'⟩
    refine ⟨hm', ?_⟩
    intro i hi
    rw [hframe' i (fun v hv => hi v ⟨line, hline, hv⟩), hframe i hi]
  · rintro d' ⟨hm, hframe⟩
    exact hQ d' hm hframe

/-- `check_hf` returns only if the array holds the file. -/
theorem dev_checkHf {Q : Unit → Device → Prop} {hexData : HexData} {d : Device}
    (hwindow : ∀ line ∈ decoded text, LineInWindow line)
    (hmode : d.mode = .readMode) (hfail : ∀ d, E exitFailure d)
    (hQ : (∀ i v, Names text i v → d.array i = v) → Q () d) :
    wp (device text) anything Q E (checkHf hexData) d := by
  refine dev_hexFile
    (K := fun done d' => d' = d ∧
      ∀ line ∈ done, ∀ i v, LineNames line i v → d.array i = v)
    (P := LineInWindow) ?_ hfail hwindow
    ⟨rfl, fun _ h => nomatch h⟩ ?_
  · rintro done line d' hline ⟨rfl, hall⟩
    refine wp_mono ?_ (dev_checkEp hline hmode hfail)
    rintro _ d'' ⟨rfl, hthis⟩
    refine ⟨rfl, ?_⟩
    intro line' hline'
    rcases List.mem_append.mp hline' with h | h
    · exact hall line' h
    · rw [List.mem_singleton.mp h]
      exact hthis
  · rintro d' ⟨rfl, hall⟩
    refine hQ ?_
    rintro i v ⟨line, hline, hv⟩
    exact hall line hline i v hv

end Rules

/-! ## The success message -/

/-- The operation that prints the success message. -/
def successMark : FlashOp := .printf successMessage []

/-- The program never prints the success message. -/
def Quiet {A : Type} (p : Flash A) : Prop := Avoids (· = successMark) p

/-- All the operations but that one. -/
theorem tolerant_quiet : Tolerant (· ≠ successMark) where
  read _ _ := nofun
  procWait _ := nofun
  printf _ _ hne hmark := hne (FlashOp.printf.inj hmark).1
  fclose := nofun

/-! ## `high_pr` -/

/-- `high_pr` up to its success message. -/
def programAndCheck (stack stack' : HexData) : Flash Unit := do
  eraseAll
  checkValue 0xffffffff
  resetFe
  progHf stack
  resetFe
  resetFe
  checkHf stack'

theorem highPr_split (stack stack' : HexData) :
    highPr stack stack' = programAndCheck stack stack' >>= fun _ =>
      (do printf successMessage []; Prog.exit exitSuccess : Flash Unit) := by
  simp only [programAndCheck, eraseAll, prog_bind_assoc]
  rfl

theorem quiet_programAndCheck (stack stack' : HexData) :
    Quiet (programAndCheck stack stack') := by
  have hS := tolerant_quiet
  have hwrite : ∀ a v, FlashOp.write a v ≠ successMark := fun _ _ => nofun
  have hreset := only_resetFe hS (fun a => hwrite a _)
  have hid := only_readII hS (fun a => hwrite a _) (fun a => hwrite a _)
  have hfile : ∀ {ep : HexData → Nat → Flash Unit},
      (∀ hexData wordCt, Only (· ≠ successMark) Fails (ep hexData wordCt)) →
      ∀ hexData, Only (· ≠ successMark) Fails (hexFile ep hexData) :=
    only_hexFile hS (fun a => hwrite a _) nofun
  refine avoids_of_only (fun _ h => h) (P := Fails) ?_
  refine only_bind ?_ (fun _ => ?_)
  · refine only_bind hreset (fun _ => ?_)
    refine only_bind hid (fun _ => ?_)
    refine only_bind hreset (fun _ => ?_)
    refine only_bind hid (fun _ => ?_)
    refine only_bind hreset (fun _ => ?_)
    refine only_bind (only_progTo0 hS (fun a => hwrite a _)
      (fun a => hwrite a _) (fun a => hwrite a _)) (fun _ => ?_)
    refine only_bind (only_checkValue hS 0) (fun _ => ?_)
    refine only_bind hreset (fun _ => ?_)
    exact only_erase hS (fun a => hwrite a _) (fun a => hwrite a _)
      (fun a => hwrite a _)
  · refine only_bind (only_checkValue hS _) (fun _ => ?_)
    refine only_bind hreset (fun _ => ?_)
    refine only_bind (hfile (only_progEp hS hwrite) stack) (fun _ => ?_)
    refine only_bind hreset (fun _ => ?_)
    refine only_bind hreset (fun _ => ?_)
    exact hfile (only_checkEp hS) stack'

/-- When `high_pr` comes to its success message, the array holds the file. -/
theorem dev_programAndCheck {text : List Char}
    (hwindow : ∀ line ∈ decoded text, LineInWindow line)
    (stack stack' : HexData) (d : Device) :
    wp (device text) anything (fun _ d' => HoldsFile text d'.array)
      (fun _ _ => True) (programAndCheck stack stack') d := by
  have hfail : ∀ _ : Device, True := fun _ => trivial
  rw [programAndCheck]
  refine wp_seq (dev_of_watcher (Q := fun _ m => m = .readMode)
    (w := Watch.start d.mode) rfl (wp_eraseAll d.mode) hfail) ?_
  -- nothing is known of the array here; the sweep for ones settles it
  intro _ d₀ hm₀
  rw [wp_bind]
  refine dev_checkValue ?_ ?_ (fun _ _ _ => trivial)
  · rw [hm₀]
    simp
  intro hones
  rw [wp_bind]
  refine dev_resetFe (settled_programming (Or.inl hm₀)) ?_
  rw [wp_bind]
  refine dev_progHf hwindow rfl hfail ?_
  -- only the named words may have changed, and some may have failed
  intro d₁ hm₁ hframe
  rw [wp_bind]
  refine dev_resetFe (settled_programming hm₁) ?_
  rw [wp_bind]
  refine dev_resetFe (settled_programming (Or.inl rfl)) ?_
  refine dev_checkHf hwindow rfl hfail ?_
  intro hnamed
  -- the second pass reads the named words; the frame gives the others
  refine ⟨hnamed, ?_⟩
  intro i hi hno
  rw [hframe i hno]
  exact hones i hi

/-- The success message is printed only when the array holds the file. -/
def Announces (text : List Char) (d : Device) (o : FlashOp) : Prop :=
  o = successMark → HoldsFile text d.array

theorem dev_highPr {text : List Char}
    (hwindow : ∀ line ∈ decoded text, LineInWindow line)
    (stack stack' : HexData) (d : Device) :
    wp (device text) (Announces text) (fun _ _ => False) (fun _ _ => True)
      (highPr stack stack') d := by
  rw [highPr_split, wp_bind]
  refine wp_avoids (quiet_programAndCheck stack stack') ?_
  refine wp_consequence ?_ ?_ (fun _ _ h => h)
    (dev_programAndCheck hwindow stack stack' d)
  · intro _ _ _ hquiet hmark
    exact absurd hmark hquiet
  · intro _ d' hholds
    exact ⟨fun _ => hholds, fun _ _ _ => trivial⟩

end FlashDevice
