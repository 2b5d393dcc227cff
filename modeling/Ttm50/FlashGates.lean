import Ttm50.FlashSuccess

/-! # The gates before the destructive steps

    `high_pr` erases the device only after a sweep that has read zeros
    everywhere, and programs the hex file only after two sweeps that have read
    ones everywhere.  The device may answer anything, so the gates speak of
    the trace alone: `Swept mark site value mode n tr` says that the first `n`
    words have been read as `value` after the last operation of `tr` that is
    marked.

    The rules below run the utility in the environment that records the
    trace.  What a function may do (`FlashOperations`) keeps the gates open,
    what its loops return has opened them; `wp_and` puts the two together. -/

namespace FlashGates

open CStdio InteractivePrograms FlashDriver FlashLines FlashRegister
open FlashModes FlashOperations FlashDevice FlashSuccess

/-! ## Marks and sweeps -/

/-- The second write of an erase command. -/
def EraseCommand (m : Mode) (o : FlashOp) : Prop :=
  m = .eraseSetup ∧ ∃ a, o = .write a flashErase

/-- The write of a word after a program setup. -/
def ProgramWrite (m : Mode) (o : FlashOp) : Prop :=
  m = .programSetup ∧ ∃ a v, o = .write a v

/-- A write, inside the flash or not. -/
def Writes (o : FlashOp) : Prop := ∃ a v, o = .write a v

/-- No operation of the trace is marked. -/
def Free (mark : Mode → FlashOp → Prop) (mode : Mode) (tr : FlashTrace) :
    Prop :=
  ∀ tr₁ o (r : o.Res) tr₂, tr = tr₁ ++ ⟨o, r⟩ :: tr₂ →
    ¬ mark (watched Mode.next mode tr₁) o

/-- After its last marked operation the trace has read `value` at `site` from
    each of the first `n` words. -/
def Swept (mark : Mode → FlashOp → Prop) (site : Site) (value : Word)
    (mode : Mode) (n : Nat) (tr : FlashTrace) : Prop :=
  ∃ before after, tr = before ++ after ∧
    Free mark (watched Mode.next mode before) after ∧
    ∀ j < n, ⟨.read site (flEprom j), value⟩ ∈ after

/-- The gate before an erase command. -/
def EraseGate (mode : Mode) (tr : FlashTrace) : Prop :=
  Swept ProgramWrite (.checkValue 0) 0 mode flashWordSize tr

/-- The gate before the words of the hex file. -/
def ProgramGate (mode : Mode) (tr : FlashTrace) : Prop :=
  Swept EraseCommand .erase 0xffffffff mode flashWordSize tr ∧
    Swept EraseCommand (.checkValue 0xffffffff) 0xffffffff mode flashWordSize tr

/-- The hex file has been opened. -/
def Opened (tr : FlashTrace) : Prop := ∃ r, ⟨.fopen, r⟩ ∈ tr

/-- A gate has been passed on the way. -/
def Once (gate : FlashTrace → Prop) (tr : FlashTrace) : Prop :=
  ∃ before after, tr = before ++ after ∧ gate before

theorem watched_snoc (m : Mode) (tr : FlashTrace) (o : FlashOp) (r : o.Res) :
    watched Mode.next m (tr ++ [⟨o, r⟩]) = (watched Mode.next m tr).next o r :=
  List.foldl_append

theorem watched_append (m : Mode) (tr tr' : FlashTrace) :
    watched Mode.next m (tr ++ tr')
      = watched Mode.next (watched Mode.next m tr) tr' :=
  List.foldl_append

section Sweeps

variable {mark : Mode → FlashOp → Prop} {mode : Mode} {tr : FlashTrace}
  {site : Site} {value : Word} {n : Nat}

theorem free_nil : Free mark mode [] := by
  intro tr₁ o r tr₂ heq
  exact absurd heq (by simp)

theorem free_snoc (h : Free mark mode tr) {o : FlashOp} (r : o.Res)
    (ho : ¬ mark (watched Mode.next mode tr) o) :
    Free mark mode (tr ++ [⟨o, r⟩]) := by
  intro tr₁ o' r' tr₂ heq
  rcases List.eq_nil_or_concat tr₂ with rfl | ⟨tr₂, e, rfl⟩
  · obtain ⟨rfl, hlast⟩ := List.append_inj' heq rfl
    obtain ⟨rfl, -⟩ := Sigma.mk.inj (List.cons.inj hlast).1
    exact ho
  · have hsplit : tr ++ [⟨o, r⟩] = (tr₁ ++ ⟨o', r'⟩ :: tr₂) ++ [e] := by
      rw [heq, List.concat_eq_append, List.append_assoc, List.cons_append]
    obtain ⟨rfl, -⟩ := List.append_inj' hsplit rfl
    exact h tr₁ o' r' tr₂ rfl

theorem swept_zero : Swept mark site value mode 0 tr :=
  ⟨tr, [], (List.append_nil tr).symm, free_nil, fun j hj => absurd hj (by omega)⟩

/-- An operation that is not marked keeps the sweep. -/
theorem swept_snoc (h : Swept mark site value mode n tr) {o : FlashOp}
    (r : o.Res) (ho : ¬ mark (watched Mode.next mode tr) o) :
    Swept mark site value mode n (tr ++ [⟨o, r⟩]) := by
  obtain ⟨before, after, rfl, hfree, hall⟩ := h
  rw [watched_append] at ho
  refine ⟨before, after ++ [⟨o, r⟩], List.append_assoc _ _ _,
    free_snoc hfree r ho, ?_⟩
  intro j hj
  exact List.mem_append_left _ (hall j hj)

/-- A read of the next word goes on with the sweep. -/
theorem swept_read (h : Swept mark site value mode n tr)
    (hread : ¬ mark (watched Mode.next mode tr) (.read site (flEprom n))) :
    Swept mark site value mode (n + 1)
      (tr ++ [⟨.read site (flEprom n), value⟩]) := by
  obtain ⟨before, after, rfl, hfree, hall⟩ := h
  rw [watched_append] at hread
  refine ⟨before, after ++ [⟨.read site (flEprom n), value⟩],
    List.append_assoc _ _ _, free_snoc (o := .read site (flEprom n)) hfree value
      hread, ?_⟩
  intro j hj
  by_cases hlt : j < n
  · exact List.mem_append_left _ (hall j hlt)
  · obtain rfl : j = n := by omega
    exact List.mem_append_right _ (List.mem_singleton.mpr rfl)

theorem once_snoc {gate : FlashTrace → Prop} (h : Once gate tr)
    (e : (o : FlashOp) × o.Res) : Once gate (tr ++ [e]) := by
  obtain ⟨before, after, rfl, hgate⟩ := h
  exact ⟨before, after ++ [e], List.append_assoc _ _ _, hgate⟩

end Sweeps

/-! ## Operations that are not marked -/

theorem not_erase {m : Mode} {o : FlashOp}
    (h : ∀ a, o ≠ .write a flashErase) : ¬ EraseCommand m o := by
  rintro ⟨-, a, rfl⟩
  exact h a rfl

theorem not_erase_of_mode {m : Mode} {o : FlashOp} (h : m ≠ .eraseSetup) :
    ¬ EraseCommand m o :=
  fun he => h he.1

theorem not_program_of_mode {m : Mode} {o : FlashOp} (h : m ≠ .programSetup) :
    ¬ ProgramWrite m o :=
  fun hw => h hw.1

theorem not_program_of_op {m : Mode} {o : FlashOp}
    (h : ∀ a v, o ≠ .write a v) : ¬ ProgramWrite m o := by
  rintro ⟨-, a, v, rfl⟩
  exact h a v rfl

theorem command_programSetup_inv {v : Word}
    (h : Mode.command v = .programSetup) : v = flashProgramSetup := by
  rw [Mode.command] at h
  split_ifs at h
  assumption

/-- Only the setup command leads to program setup. -/
theorem write_ne_programSetup (m : Mode) {v : Word}
    (h : v ≠ flashProgramSetup) : m.write v ≠ .programSetup := by
  intro hw
  refine h (command_programSetup_inv ?_)
  cases m with
  | programSetup => exact nomatch hw
  | eraseSetup | resetOnce =>
      rw [Mode.write] at hw
      split_ifs at hw
      exact hw
  | _ => exact hw

theorem next_ne_programSetup {m : Mode} (hm : m ≠ .programSetup) {o : FlashOp}
    (h : ∀ a, o ≠ .write a flashProgramSetup) (r : o.Res) :
    m.next o r ≠ .programSetup := by
  cases o with
  | write a v =>
      have hv : v ≠ flashProgramSetup := by
        rintro rfl
        exact h a rfl
      rw [Mode.next]
      split
      · exact write_ne_programSetup m hv
      · exact hm
  | _ => exact hm

theorem command_eraseSetup_inv {v : Word}
    (h : Mode.command v = .eraseSetup) : v = flashEraseSetup := by
  rw [Mode.command] at h
  split_ifs at h
  assumption

theorem write_ne_eraseSetup (m : Mode) {v : Word} (h : v ≠ flashEraseSetup) :
    m.write v ≠ .eraseSetup := by
  intro hw
  refine h (command_eraseSetup_inv ?_)
  cases m with
  | programSetup => exact nomatch hw
  | eraseSetup | resetOnce =>
      rw [Mode.write] at hw
      split_ifs at hw
      exact hw
  | _ => exact hw

/-- Neither the data of a word nor the second half of an erase command comes
    next. -/
structure Calm (m : Mode) : Prop where
  program : m ≠ .programSetup
  erase : m ≠ .eraseSetup

theorem write_setup {m : Mode} (h : m ≠ .programSetup) :
    m.write flashProgramSetup = .programSetup := by
  cases m with
  | programSetup => exact absurd rfl h
  | _ => rfl

/-! ## The stages of `high_pr` -/

/-- Each destructive operation finds its gate passed. -/
def Gated (mode : Mode) (tr : FlashTrace) (o : FlashOp) : Prop :=
  (EraseCommand (watched Mode.next mode tr) o → EraseGate mode tr) ∧
    (Opened tr → Writes o → ProgramGate mode tr)

/-- Success is reported only after both gates. -/
def Ends (mode : Mode) (x : Nat) (tr : FlashTrace) : Prop :=
  x = exitFailure ∨ Once (EraseGate mode) tr ∧ Once (ProgramGate mode) tr

/-- The array has been swept for zeros, and no file has been opened. -/
structure Zeroed (mode : Mode) (tr : FlashTrace) : Prop where
  unopened : ¬ Opened tr
  gate : EraseGate mode tr
  setup : watched Mode.next mode tr ≠ .programSetup

/-- The array has been swept for ones, twice, and the register is `m`. -/
structure BlankAt (mode m : Mode) (tr : FlashTrace) : Prop where
  erased : Once (EraseGate mode) tr
  gate : ProgramGate mode tr
  register : watched Mode.next mode tr = m

/-- The array has been swept for ones, twice, and a command comes next. -/
def Blank (mode : Mode) (tr : FlashTrace) : Prop :=
  ∃ m, Calm m ∧ BlankAt mode m tr

/-- Neither the file is opened nor an erase command written. -/
def Harmless (o : FlashOp) : Prop :=
  o ≠ .fopen ∧ ∀ a, o ≠ .write a flashErase

/-- Neither the file is opened nor a program setup written. -/
def NoProgram (o : FlashOp) : Prop :=
  o ≠ .fopen ∧ ∀ a, o ≠ .write a flashProgramSetup

/-- The file is not opened and nothing is written. -/
def Inert (o : FlashOp) : Prop := o ≠ .fopen ∧ ∀ a v, o ≠ .write a v

/-- Neither an erase command nor a program setup is written. -/
def NoCommand (o : FlashOp) : Prop :=
  ∀ a, o ≠ .write a flashErase ∧ o ≠ .write a flashProgramSetup

theorem tolerant_harmless : Tolerant Harmless where
  read _ _ := ⟨by simp, by simp⟩
  procWait _ := ⟨by simp, by simp⟩
  printf _ _ _ := ⟨by simp, by simp⟩
  fclose := ⟨by simp, by simp⟩

theorem tolerant_noProgram : Tolerant NoProgram where
  read _ _ := ⟨by simp, by simp⟩
  procWait _ := ⟨by simp, by simp⟩
  printf _ _ _ := ⟨by simp, by simp⟩
  fclose := ⟨by simp, by simp⟩

theorem tolerant_inert : Tolerant Inert where
  read _ _ := ⟨by simp, by simp⟩
  procWait _ := ⟨by simp, by simp⟩
  printf _ _ _ := ⟨by simp, by simp⟩
  fclose := ⟨by simp, by simp⟩

theorem tolerant_noCommand : Tolerant NoCommand where
  read _ _ _ := ⟨by simp, by simp⟩
  procWait _ _ := ⟨by simp, by simp⟩
  printf _ _ _ _ := ⟨by simp, by simp⟩
  fclose _ := ⟨by simp, by simp⟩

section Stages

variable {mode : Mode} {tr : FlashTrace} {o : FlashOp}

theorem opened_snoc (hne : o ≠ .fopen) (r : o.Res)
    (h : Opened (tr ++ [⟨o, r⟩])) : Opened tr := by
  obtain ⟨text, hmem⟩ := h
  rcases List.mem_append.mp hmem with hmem | hmem
  · exact ⟨text, hmem⟩
  · have heq := List.mem_singleton.mp hmem
    exact absurd (Sigma.mk.inj heq).1.symm hne

/-- Before the file is opened, operations other than erase commands are
    gated. -/
theorem unopened_step (h : ¬ Opened tr) (ho : Harmless o) :
    Gated mode tr o ∧ ∀ r : o.Res, ¬ Opened (tr ++ [⟨o, r⟩]) :=
  ⟨⟨fun he => absurd he (not_erase ho.2), fun hopen => absurd hopen h⟩,
    fun r hopen => h (opened_snoc ho.1 r hopen)⟩

/-- After the sweep for zeros erase commands are gated, as long as no word is
    programmed. -/
theorem zeroed_step (h : Zeroed mode tr) (ho : NoProgram o) :
    Gated mode tr o ∧ ∀ r : o.Res, Zeroed mode (tr ++ [⟨o, r⟩]) := by
  refine ⟨⟨fun _ => h.gate, fun hopen => absurd hopen h.unopened⟩, ?_⟩
  intro r
  refine ⟨?_, ?_, ?_⟩
  · exact fun hopen => h.unopened (opened_snoc ho.1 r hopen)
  · exact swept_snoc h.gate r (not_program_of_mode h.setup)
  · rw [watched_snoc]
    exact next_ne_programSetup h.setup ho.2 r

/-- After the sweeps for ones every write is gated, as long as nothing is
    erased. -/
theorem blankAt_step {m m' : Mode} (h : BlankAt mode m tr)
    (ho : ¬ EraseCommand m o) (hnext : ∀ r : o.Res, m.next o r = m') :
    Gated mode tr o ∧ ∀ r : o.Res, BlankAt mode m' (tr ++ [⟨o, r⟩]) := by
  obtain ⟨herased, hgate, hm⟩ := h
  have ho' : ¬ EraseCommand (watched Mode.next mode tr) o := by
    rw [hm]
    exact ho
  refine ⟨⟨fun he => absurd he ho', fun _ _ => hgate⟩, fun r => ⟨?_, ?_, ?_⟩⟩
  · exact once_snoc herased _
  · exact ⟨swept_snoc hgate.1 r ho', swept_snoc hgate.2 r ho'⟩
  · rw [watched_snoc, hm, hnext]

theorem inert_next (m : Mode) (ho : Inert o) (r : o.Res) : m.next o r = m := by
  cases o with
  | write a v => exact absurd rfl (ho.2 a v)
  | _ => rfl

theorem calm_next {m : Mode} (hm : Calm m) (ho : NoCommand o) (r : o.Res) :
    Calm (m.next o r) := by
  refine ⟨next_ne_programSetup hm.program (fun a => (ho a).2) r, ?_⟩
  cases o with
  | write a v =>
      have hv : v ≠ flashEraseSetup := by
        rintro rfl
        exact (ho a).1 rfl
      rw [Mode.next]
      split
      · exact write_ne_eraseSetup m hv
      · exact hm.erase
  | _ => exact hm.erase

theorem blank_step (h : Blank mode tr) (ho : NoCommand o) :
    Gated mode tr o ∧ ∀ r : o.Res, Blank mode (tr ++ [⟨o, r⟩]) := by
  obtain ⟨m, hm, hat⟩ := h
  have hsame : ∀ r r' : o.Res, m.next o r' = m.next o r := by
    intro r r'
    cases o <;> rfl
  have hstep := fun r => blankAt_step hat (not_erase (fun a => (ho a).1)) (hsame r)
  refine ⟨⟨fun he => absurd he ?_, fun _ _ => hat.gate⟩,
    fun r => ⟨_, calm_next hm ho r, (hstep r).2 r⟩⟩
  exact not_erase (fun a => (ho a).1)

end Stages

section Rules

variable {A : Type} {mode : Mode} {E : Nat → FlashTrace → Prop}
  {tr : FlashTrace} {p : Flash A}

/-- A stage is kept by the operations that its step lemma is about. -/
theorem wp_stage {I : FlashTrace → Prop} {S : FlashOp → Prop}
    (hstep : ∀ {tr : FlashTrace} {o : FlashOp}, I tr → S o →
      Gated mode tr o ∧ ∀ r : o.Res, I (tr ++ [⟨o, r⟩]))
    (hexit : ∀ tr, E exitFailure tr) (hp : Only S Fails p) (h : I tr) :
    wp recording (Gated mode) (fun _ => I) E p tr := by
  refine wp_only (fun w o hI hS => (hstep hI hS).1) ?_ ?_ hp h
  · rintro w o r w' hI hS rfl
    exact (hstep hI hS).2 r
  · rintro x w - rfl
    exact hexit w

/-! ## What the loops have read -/

/-- No condition on the operations. -/
def anyway (_ : FlashTrace) (_ : FlashOp) : Prop := True

theorem rec_op {o : FlashOp} {f : o.Res → Flash A}
    {Q : A → FlashTrace → Prop} :
    wp recording anyway Q E (perform o >>= f) tr ↔
      ∀ r, wp recording anyway Q E (f r) (tr ++ [⟨o, r⟩]) := by
  constructor
  · rintro ⟨-, h⟩ r
    exact h r _ rfl
  · intro h
    refine ⟨trivial, ?_⟩
    rintro r _ rfl
    exact h r

theorem rec_write (a v : Word) (f : Unit → Flash A)
    {Q : A → FlashTrace → Prop} :
    wp recording anyway Q E (write a v >>= f) tr ↔
      wp recording anyway Q E (f ()) (tr ++ [⟨.write a v, ()⟩]) :=
  rec_op.trans ⟨fun h => h (), fun h _ => h⟩

theorem rec_procWait (us : Nat) (f : Unit → Flash A)
    {Q : A → FlashTrace → Prop} :
    wp recording anyway Q E (procWait us >>= f) tr ↔
      wp recording anyway Q E (f ()) (tr ++ [⟨.procWait us, ()⟩]) :=
  rec_op.trans ⟨fun h => h (), fun h _ => h⟩

theorem rec_read (site : Site) (a : Word) (f : Word → Flash A)
    {Q : A → FlashTrace → Prop} :
    wp recording anyway Q E (FlashDriver.read site a >>= f) tr ↔
      ∀ r : Word, wp recording anyway Q E (f r) (tr ++ [⟨.read site a, r⟩]) :=
  rec_op

/-- The last steps of a failure say nothing. -/
theorem rec_failure (text : String) (args : List Word)
    {Q : A → FlashTrace → Prop} :
    wp recording anyway Q (fun _ _ => True)
      (do printf text args; Prog.exit exitFailure : Flash A) tr :=
  rec_op.mpr (fun _ => trivial)

/-- `prog_to_0` does not end on a program setup. -/
theorem rec_zeroWord {j left : Nat} {epData : Word}
    (h : watched Mode.next mode tr ≠ .programSetup) :
    wp recording anyway
      (fun _ tr' => watched Mode.next mode tr' ≠ .programSetup)
      (fun _ _ => True) (zeroWord j left epData) tr := by
  induction left generalizing epData tr with
  | zero => exact h
  | succ left ih =>
      rw [zeroWord]
      split
      · simp only [rec_write, rec_procWait, rec_read]
        intro r
        refine ih ?_
        simp only [watched_snoc]
        show (Mode.next _ (.write (flEprom 0) flashProgramVerify) ()) ≠ _
        rw [next_first]
        exact write_ne_programSetup _ (by simp [flashProgramVerify, flashProgramSetup])
      · exact h

theorem rec_progTo0 (h : watched Mode.next mode tr ≠ .programSetup) :
    wp recording anyway
      (fun _ tr' => watched Mode.next mode tr' ≠ .programSetup)
      (fun _ _ => True) progTo0 tr :=
  wp_forRange (I := fun _ tr' => watched Mode.next mode tr' ≠ .programSetup)
    (fun _ _ _ _ h => rec_zeroWord h) h

variable (mode) in
/-- `check_value` returns only after a sweep. -/
theorem rec_checkValue {mark : Mode → FlashOp → Prop}
    (hmark : ∀ m site a, ¬ mark m (.read site a)) (value : Word) :
    wp recording anyway
      (fun _ => Swept mark (.checkValue value) value mode flashWordSize)
      (fun _ _ => True) (checkValue value) tr := by
  refine wp_mono ?_ (wp_forRange
    (I := fun j => Swept mark (.checkValue value) value mode j) ?_ swept_zero)
  · intro _ tr' h
    rwa [Nat.zero_add] at h
  · intro j tr' _ _ h
    rw [rec_read]
    intro epData
    split
    · exact rec_failure _ _
    · rename_i heq
      obtain rfl := not_not.mp heq
      exact swept_read h (hmark _ _ _)

variable (mode) in
/-- The verify loop of `erase` stops at the first word that is not erased, or
    sweeps the array. -/
theorem rec_eraseVerify {left j : Nat} (hlen : j + left = flashWordSize)
    (h : Swept EraseCommand .erase 0xffffffff mode j tr) :
    wp recording anyway
      (fun found tr' => (found.1 ≠ 0 ∧ found.2 ≠ flashWordSize) ∨
        Swept EraseCommand .erase 0xffffffff mode flashWordSize tr')
      (fun _ _ => True) (eraseVerify left j) tr := by
  induction left generalizing j tr with
  | zero =>
      obtain rfl : j = flashWordSize := hlen
      exact Or.inr h
  | succ left ih =>
      rw [eraseVerify]
      simp only [rec_write, rec_procWait, rec_read]
      intro epData
      have hverify : Swept EraseCommand .erase 0xffffffff mode j
          (tr ++ [⟨.write (flEprom j) flashEraseVerify, ()⟩]
            ++ [⟨.procWait 6, ()⟩]) := by
        refine swept_snoc (o := .procWait 6) (swept_snoc
          (o := .write (flEprom j) flashEraseVerify) h () ?_) () ?_
        · exact not_erase (by simp [flashEraseVerify, flashErase])
        · exact not_erase (by simp)
      split
      · exact Or.inl ⟨by simp, by show j ≠ flashWordSize; omega⟩
      · rename_i heq
        obtain rfl := not_not.mp heq
        exact ih (by omega) (swept_read hverify (not_erase (by simp)))

variable (mode) in
/-- The loop of `erase` ends at the last word only after a sweep. -/
theorem rec_eraseLoop {left failure j : Nat}
    (h : (failure ≠ 0 ∧ j ≠ flashWordSize) ∨
      Swept EraseCommand .erase 0xffffffff mode flashWordSize tr) :
    wp recording anyway
      (fun j' tr' => j' = flashWordSize →
        Swept EraseCommand .erase 0xffffffff mode flashWordSize tr')
      (fun _ _ => True) (eraseLoop left failure j) tr := by
  induction left generalizing failure j tr with
  | zero =>
      intro hj
      exact h.resolve_left (fun hf => hf.2 hj)
  | succ left ih =>
      rw [eraseLoop]
      split
      · rw [rec_write, rec_write, rec_procWait]
        refine wp_seq (rec_eraseVerify mode (Nat.zero_add _) swept_zero) ?_
        intro found tr' hfound
        exact ih hfound
      · rename_i hfailure
        intro _
        exact h.resolve_left (fun hf => hfailure hf.1)

variable (mode) in
theorem rec_erase :
    wp recording anyway
      (fun _ tr' => Swept EraseCommand .erase 0xffffffff mode flashWordSize tr' ∧
        watched Mode.next mode tr' ≠ .eraseSetup)
      (fun _ _ => True) erase tr := by
  rw [erase]
  refine wp_seq (rec_eraseLoop mode
    (Or.inl ⟨by simp, by simp [flashWordSize]⟩)) ?_
  intro j tr' hj
  rw [rec_write]
  split
  · rename_i hlast
    refine ⟨swept_snoc (o := .write (flEprom 0) flashReadMemory) (hj hlast) ()
      (not_erase (by simp [flashReadMemory, flashErase])), ?_⟩
    rw [watched_snoc, next_first]
    exact write_ne_eraseSetup _ (by simp [flashReadMemory, flashEraseSetup])
  · exact rec_failure _ _

/-! ## The hex file -/

/-- One operation of the recorded run. -/
theorem gated_op {I : FlashTrace → Prop} {o : FlashOp} {f : o.Res → Flash A}
    {Q : A → FlashTrace → Prop}
    (ho : Gated mode tr o ∧ ∀ r : o.Res, I (tr ++ [⟨o, r⟩]))
    (h : ∀ (r : o.Res) tr', I tr' → wp recording (Gated mode) Q E (f r) tr') :
    wp recording (Gated mode) Q E (perform o >>= f) tr := by
  refine ⟨ho.1, ?_⟩
  rintro r _ rfl
  exact h r _ (ho.2 r)

/-- One attempt at a word leaves a register at which a command comes next. -/
theorem calm_attempt {m : Mode} {fl a : Word} (hm : Calm m)
    (hnear : inFlash fl = false → inFlash a = false) (data : Word) :
    Calm (m.attempt fl a data) := by
  cases hin : inFlash fl with
  | true =>
      rw [Mode.attempt, next_inside hin m, write_setup hm.program, next_inside hin]
      cases ha : inFlash a with
      | true =>
          rw [next_inside ha]
          exact ⟨by simp, by simp⟩
      | false =>
          rw [next_outside ha]
          exact ⟨by simp, by simp⟩
  | false =>
      rw [Mode.attempt, next_outside hin, next_outside (hnear hin),
        next_outside hin]
      exact hm

/-- The register in which the data of a word are written. -/
theorem setup_ne_eraseSetup {m : Mode} (hm : Calm m) (fl : Word) :
    m.next (.write fl flashProgramSetup) () ≠ .eraseSetup := by
  rw [Mode.next]
  split
  · rw [write_setup hm.program]
    simp
  · exact hm.erase

/-- The programming loop of one word: its data are written after a setup
    command, or the register is calm, so they are no command that erases. -/
theorem blank_progWord {fl data epData : Word} {j left : Nat} {failure : Bool}
    (hnear : inFlash fl = false → inFlash (index fl (j - 1)) = false)
    (h : Blank mode tr) :
    wp recording (Gated mode) (fun _ => Blank mode) E
      (progWord fl j data left failure epData) tr := by
  induction left generalizing failure epData tr with
  | zero => exact h
  | succ left ih =>
      obtain ⟨m, hm, hat⟩ := h
      have hsetup : ¬ EraseCommand m (.write fl flashProgramSetup) :=
        not_erase (by simp [flashProgramSetup, flashErase])
      have hverify : ∀ m', ¬ EraseCommand m' (.write fl flashProgramVerify) :=
        fun m' => not_erase (by simp [flashProgramVerify, flashErase])
      rw [progWord, index_zero]
      split
      · refine gated_op (blankAt_step hat hsetup (fun _ => rfl)) ?_
        intro _ tr₁ h₁
        refine gated_op (blankAt_step h₁
          (not_erase_of_mode (setup_ne_eraseSetup hm fl)) (fun _ => rfl)) ?_
        intro _ tr₂ h₂
        refine gated_op (blankAt_step h₂ (not_erase (by simp))
          (fun _ => rfl)) ?_
        intro _ tr₃ h₃
        refine gated_op (blankAt_step h₃ (hverify _) (fun _ => rfl)) ?_
        intro _ tr₄ h₄
        have hblank : Blank mode tr₄ := ⟨_, calm_attempt hm hnear data, h₄⟩
        refine gated_op (blank_step hblank (tolerant_noCommand.procWait 6)) ?_
        intro _ tr₅ h₅
        refine gated_op (blank_step h₅ (tolerant_noCommand.read _ _)) ?_
        intro r tr₆ h₆
        exact ih h₆
      · exact ⟨m, hm, hat⟩

theorem blank_progEp {line : HexData × Nat}
    (hline : 0x40000000 ≤ (lineAddress line.1).toNat ∧ line.2 ≤ 4)
    (hexit : ∀ tr, E exitFailure tr) (h : Blank mode tr) :
    wp recording (Gated mode) (fun _ => Blank mode) E (progEp line.1 line.2)
      tr := by
  refine wp_forRange (I := fun _ => Blank mode) ?_ h
  intro j tr' _ hlt h'
  refine wp_seq (blank_progWord
    (index_outside hline.1 (show j - 1 < 4 by omega)) h') ?_
  rintro ⟨failure, epData⟩ tr₁ h₁
  cases failure with
  | false => exact h₁
  | true =>
      have hreset : NoCommand (.write (index (lineAddress line.1) 0) flashReset) := by
        simp [NoCommand, flashReset, flashErase, flashProgramSetup]
      refine gated_op (blank_step h₁ (tolerant_noCommand.printf _ _
        (by simp [successMessage]))) ?_
      intro _ tr₂ h₂
      refine gated_op (blank_step h₂ hreset) ?_
      intro _ tr₃ h₃
      refine gated_op (blank_step h₃ hreset) ?_
      intro _ tr₄ _
      exact hexit tr₄

theorem noCommand_reset (a : Word) : NoCommand (.write a flashReset) := by
  simp [NoCommand, flashReset, flashErase, flashProgramSetup]

theorem blank_invalidLine {Q : A → FlashTrace → Prop}
    (hexit : ∀ tr, E exitFailure tr) (h : Blank mode tr) :
    wp recording (Gated mode) Q E (invalidLine : Flash A) tr := by
  rw [invalidLine]
  refine gated_op (blank_step h (tolerant_noCommand.printf _ _
    (by simp [successMessage]))) ?_
  intro _ tr₁ h₁
  refine wp_seq (wp_stage blank_step hexit
    (only_resetFe tolerant_noCommand noCommand_reset) h₁) ?_
  exact fun _ tr _ => hexit tr

theorem blank_progHf {hexData : HexData} (hexit : ∀ tr, E exitFailure tr)
    (h : Blank mode tr) :
    wp recording (Gated mode) (fun _ => Blank mode) E (progHf hexData) tr := by
  rw [progHf, hexFile]
  refine gated_op (blank_step h (by simp [NoCommand])) ?_
  intro fp tr₁ h₁
  cases fp with
  | none =>
      refine gated_op (blank_step h₁ (tolerant_noCommand.printf _ _
        (by simp [successMessage]))) ?_
      intro _ tr₂ _
      exact hexit tr₂
  | some text =>
      show wp recording (Gated mode) _ E (hexText progEp text hexData) tr₁
      rw [hexText]
      refine wp_seq (wp_lines (K := fun _ => Blank mode)
        (fun _ _ _ _ htotal => blank_progEp
          (decoded_line (decoded_mem htotal)) hexit)
        (fgetsAll 256 text) (fun _ _ _ _ _ _ _ _ => blank_invalidLine hexit) []
        hexData tr₁ rfl h₁) ?_
      intro _ tr₂ h₂
      refine gated_op (blank_step h₂ tolerant_noCommand.fclose) ?_
      intro _ tr₃ h₃
      exact h₃

/-! ## `high_pr` -/

theorem harmless_write {v : Word} (h : v ≠ flashErase) (a : Word) :
    Harmless (.write a v) :=
  ⟨by simp, fun _ heq => h (FlashOp.write.inj heq).2⟩

theorem noProgram_write {v : Word} (h : v ≠ flashProgramSetup) (a : Word) :
    NoProgram (.write a v) :=
  ⟨by simp, fun _ heq => h (FlashOp.write.inj heq).2⟩

/-- Up to the first check the file is not opened and nothing is erased. -/
theorem unopened_resetFe (hexit : ∀ tr, E exitFailure tr) (h : ¬ Opened tr) :
    wp recording (Gated mode) (fun _ tr => ¬ Opened tr) E resetFe tr :=
  wp_stage unopened_step hexit (only_resetFe tolerant_harmless
    (harmless_write (by simp [flashReset, flashErase]))) h

theorem unopened_readII (hexit : ∀ tr, E exitFailure tr) (h : ¬ Opened tr) :
    wp recording (Gated mode) (fun _ tr => ¬ Opened tr) E readII tr :=
  wp_stage unopened_step hexit (only_readII tolerant_harmless
    (harmless_write (by simp [flashReset, flashErase]))
    (harmless_write (by simp [flashReadIdCodes, flashErase]))) h

variable (mode) in
/-- A reset leaves no program setup behind. -/
theorem rec_resetFe :
    wp recording anyway
      (fun _ tr' => watched Mode.next mode tr' ≠ .programSetup)
      (fun _ _ => True) resetFe tr := by
  rw [resetFe, rec_write, rec_write]
  refine ⟨trivial, ?_⟩
  rintro r _ rfl
  show watched Mode.next mode (_ ++ [⟨.procWait 10, r⟩]) ≠ .programSetup
  rw [watched_snoc, Mode.next, watched_snoc]
  · exact write_ne_programSetup _ (by simp [flashReset, flashProgramSetup])
  · simp

/-- After `prog_to_0` and the check for zeros the erase gate is passed. -/
theorem zeroed_sweep (hexit : ∀ tr, E exitFailure tr) (h : ¬ Opened tr)
    (hsetup : watched Mode.next mode tr ≠ .programSetup) :
    wp recording (Gated mode) (fun _ => wp recording (Gated mode)
      (fun _ => Zeroed mode) E (checkValue 0x00000000)) E progTo0 tr := by
  have hkeep : wp recording (Gated mode) (fun _ tr => ¬ Opened tr) E
      progTo0 tr :=
    wp_stage unopened_step hexit (only_progTo0 tolerant_harmless
      (harmless_write (by simp [flashProgramSetup, flashErase]))
      (harmless_write (by simp [flashErase]))
      (harmless_write (by simp [flashProgramVerify, flashErase]))) h
  refine wp_consequence (fun _ _ h => h.1) ?_ (fun _ _ h => h.1)
    (wp_and hkeep (rec_progTo0 hsetup))
  rintro _ tr₁ ⟨hunopened, hsetup₁⟩
  -- the check only reads and prints: it keeps the mode, and it sweeps
  have hcheck : wp recording (Gated mode) (fun _ tr => ¬ Opened tr ∧
      watched Mode.next mode tr ≠ .programSetup) E (checkValue 0) tr₁ := by
    refine wp_stage ?_ hexit (only_checkValue tolerant_inert 0)
      ⟨hunopened, hsetup₁⟩
    rintro tr o ⟨hunopened, hsetup⟩ ho
    obtain ⟨hgated, hstill⟩ : Gated mode tr o ∧
        ∀ r : o.Res, ¬ Opened (tr ++ [⟨o, r⟩]) :=
      unopened_step hunopened ⟨ho.1, fun a => ho.2 a _⟩
    refine ⟨hgated, fun r => ⟨hstill r, ?_⟩⟩
    rw [watched_snoc]
    exact next_ne_programSetup hsetup (fun a => ho.2 a _) r
  have hmark : ∀ m site a, ¬ ProgramWrite m (.read site a) :=
    fun _ _ _ => not_program_of_op (by simp)
  refine wp_consequence (fun _ _ h => h.1) ?_ (fun _ _ h => h.1)
    (wp_and hcheck (rec_checkValue mode hmark 0))
  rintro _ tr₂ ⟨⟨hunopened₂, hsetup₂⟩, hswept⟩
  exact ⟨hunopened₂, hswept, hsetup₂⟩

/-- After `erase` and the check for ones both gates are passed. -/
theorem blank_sweep (hexit : ∀ tr, E exitFailure tr) (h : Zeroed mode tr) :
    wp recording (Gated mode) (fun _ => wp recording (Gated mode)
      (fun _ => Blank mode) E (checkValue 0xffffffff)) E erase tr := by
  have hkeep : wp recording (Gated mode) (fun _ => Zeroed mode) E erase tr :=
    wp_stage zeroed_step hexit (only_erase tolerant_noProgram
      (noProgram_write (by simp [flashErase, flashProgramSetup]))
      (noProgram_write (by simp [flashEraseVerify, flashProgramSetup]))
      (noProgram_write (by simp [flashReadMemory, flashProgramSetup]))) h
  refine wp_consequence (fun _ _ h => h.1) ?_ (fun _ _ h => h.1)
    (wp_and hkeep (rec_erase mode))
  rintro _ tr₁ ⟨hzeroed, hverified, hregister⟩
  have hcheck : wp recording (Gated mode) (fun _ tr => Zeroed mode tr ∧
      Swept EraseCommand .erase 0xffffffff mode flashWordSize tr ∧
      watched Mode.next mode tr ≠ .eraseSetup) E
      (checkValue 0xffffffff) tr₁ := by
    refine wp_stage ?_ hexit (only_checkValue tolerant_inert _)
      ⟨hzeroed, hverified, hregister⟩
    rintro tr o ⟨hzeroed, hverified, hregister⟩ ho
    obtain ⟨hgated, hstill⟩ := zeroed_step hzeroed ⟨ho.1, fun a => ho.2 a _⟩
    refine ⟨hgated, fun r => ⟨hstill r,
      swept_snoc hverified r (not_erase (fun a => ho.2 a _)), ?_⟩⟩
    rw [watched_snoc, inert_next _ ho]
    exact hregister
  have hmark : ∀ m site a, ¬ EraseCommand m (.read site a) :=
    fun _ _ _ => not_erase (by simp)
  refine wp_consequence (fun _ _ h => h.1) ?_ (fun _ _ h => h.1)
    (wp_and hcheck (rec_checkValue mode hmark 0xffffffff))
  rintro _ tr₂ ⟨⟨hzeroed₂, hverified₂, hregister₂⟩, hswept⟩
  exact ⟨_, ⟨hzeroed₂.setup, hregister₂⟩,
    ⟨⟨tr₂, [], (List.append_nil tr₂).symm, hzeroed₂.gate⟩,
      ⟨hverified₂, hswept⟩, rfl⟩⟩

theorem blank_resetFe (hexit : ∀ tr, E exitFailure tr) (h : Blank mode tr) :
    wp recording (Gated mode) (fun _ => Blank mode) E resetFe tr :=
  wp_stage blank_step hexit (only_resetFe tolerant_noCommand noCommand_reset) h

end Rules

theorem gated_highPr (stack stack' : HexData) (mode : Mode) :
    wp recording (Gated mode) (fun _ _ => False) (Ends mode)
      (highPr stack stack') [] := by
  have hexit : ∀ tr, Ends mode exitFailure tr := fun _ => Or.inl rfl
  have hstart : ¬ Opened [] := fun ⟨_, h⟩ => nomatch h
  rw [highPr]
  refine wp_seq (unopened_resetFe hexit hstart) ?_
  intro _ tr₁ h₁
  refine wp_seq (unopened_readII hexit h₁) ?_
  intro _ tr₂ h₂
  refine wp_seq (unopened_resetFe hexit h₂) ?_
  intro _ tr₃ h₃
  refine wp_seq (unopened_readII hexit h₃) ?_
  intro _ tr₄ h₄
  rw [wp_bind]
  refine wp_consequence (fun _ _ h => h.1) ?_ (fun _ _ h => h.1)
    (wp_and (unopened_resetFe hexit h₄) (rec_resetFe mode))
  rintro _ tr₅ ⟨h₅, hsetup⟩
  -- the sweep for zeros, then the erase and the sweeps for ones
  refine wp_seq (zeroed_sweep hexit h₅ hsetup) ?_
  intro _ tr₆ hcheck
  refine wp_seq hcheck ?_
  intro _ tr₇ hzeroed
  refine wp_seq (wp_stage zeroed_step hexit (only_resetFe tolerant_noProgram
    (noProgram_write (by simp [flashReset, flashProgramSetup]))) hzeroed) ?_
  intro _ tr₈ h₈
  refine wp_seq (blank_sweep hexit h₈) ?_
  intro _ tr₉ hcheck'
  refine wp_seq hcheck' ?_
  intro _ tr₁₀ h₁₀
  -- the hex file
  refine wp_seq (blank_resetFe hexit h₁₀) ?_
  intro _ tr₁₁ h₁₁
  refine wp_seq (blank_progHf hexit h₁₁) ?_
  intro _ tr₁₂ h₁₂
  refine wp_seq (blank_resetFe hexit h₁₂) ?_
  intro _ tr₁₃ h₁₃
  refine wp_seq (blank_resetFe hexit h₁₃) ?_
  intro _ tr₁₄ h₁₄
  refine wp_seq (wp_stage blank_step hexit (only_hexFile tolerant_noCommand
    noCommand_reset (by simp [NoCommand]) (only_checkEp tolerant_noCommand) _)
    h₁₄) ?_
  intro _ tr₁₅ h₁₅
  refine gated_op (blank_step h₁₅ (by simp [NoCommand])) ?_
  intro _ tr₁₆ h₁₆
  obtain ⟨_, -, hat⟩ := h₁₆
  exact Or.inr ⟨hat.erased, tr₁₆, [], (List.append_nil _).symm, hat.gate⟩

/-! ## The gates along a run -/

/-- Something is written after the hex file has been opened, as every word of
    it is. -/
def HexProgrammed (tr : FlashTrace) : Prop :=
  ∃ tr₁ o, ∃ r : o.Res, ∃ tr₂, tr = tr₁ ++ ⟨o, r⟩ :: tr₂ ∧ Opened tr₁ ∧
    Writes o

theorem gated_of_run {stack stack' : HexData} {mode mode' : Mode}
    {tr₁ tr₂ : FlashTrace} {o : FlashOp} {r : o.Res} {out : Outcome Nat Unit}
    (hr : HighPrRun stack stack' mode (tr₁ ++ ⟨o, r⟩ :: tr₂) out mode') :
    Gated mode tr₁ o := by
  have hrec := watching_swap record hr []
  obtain ⟨tr, hrun, hgated⟩ := wp_each (gated_highPr stack stack' mode) hrec
  rw [watching_run hrun, watched_recording] at hgated
  exact hgated

theorem ends_of_run {stack stack' : HexData} {mode mode' : Mode}
    {tr : FlashTrace} {x : Nat}
    (hr : HighPrRun stack stack' mode tr (.exited x) mode') : Ends mode x tr := by
  have hrec := watching_swap record hr []
  have hpost := wp_post (gated_highPr stack stack' mode) hrec
  rw [watched_recording] at hpost
  exact hpost

/-- **THE DESTRUCTIVE STEPS ARE GATED**: in every run, whatever the device
    answers, an erase command comes only after a sweep for zeros that no
    programming write has followed, and once the hex file is open there is no
    write at all, inside the flash or not, except after two sweeps for ones
    that no erase command has followed; a complete run without such a sweep
    has failed without the step. -/
theorem destructive_gated {stack stack' : HexData} {mode mode' : Mode}
    {tr : FlashTrace} {out : Outcome Nat Unit}
    (hr : HighPrRun stack stack' mode tr out mode') :
    (∀ tr₁ o (r : o.Res) tr₂, tr = tr₁ ++ ⟨o, r⟩ :: tr₂ →
      (EraseCommand (watched Mode.next mode tr₁) o → EraseGate mode tr₁) ∧
      (Opened tr₁ → Writes o → ProgramGate mode tr₁)) ∧
    ∀ x, out = .exited x →
      (¬ Once (EraseGate mode) tr →
        x = exitFailure ∧ Free EraseCommand mode tr) ∧
      (¬ Once (ProgramGate mode) tr →
        x = exitFailure ∧ ¬ HexProgrammed tr) := by
  have hgated : ∀ tr₁ o (r : o.Res) tr₂, tr = tr₁ ++ ⟨o, r⟩ :: tr₂ →
      Gated mode tr₁ o := by
    rintro tr₁ o r tr₂ rfl
    exact gated_of_run hr
  refine ⟨hgated, ?_⟩
  rintro x rfl
  have hends := ends_of_run hr
  constructor
  · intro hnone
    refine ⟨hends.resolve_right (fun h => hnone h.1), ?_⟩
    intro tr₁ o r tr₂ heq herase
    exact hnone ⟨tr₁, _, heq, (hgated tr₁ o r tr₂ heq).1 herase⟩
  · intro hnone
    refine ⟨hends.resolve_right (fun h => hnone h.2), ?_⟩
    rintro ⟨tr₁, o, r, tr₂, heq, hopened, hwrite⟩
    exact hnone ⟨tr₁, _, heq, (hgated tr₁ o r tr₂ heq).2 hopened hwrite⟩

/-- The first word of the file is written after a program setup. -/
theorem oneWord_starts (f : Unit → Flash Unit) :
    ∃ d', Run (perfect oneWord) (progHf blankHexData >>= f)
      ⟨.readMode, fun _ => 0xffffffff⟩ [⟨.fopen, some oneWord⟩,
        ⟨.write flashBaseAddress flashProgramSetup, ()⟩,
        ⟨.write flashBaseAddress 0x04030201, ()⟩] .running d' := by
  have hlines : fgetsAll 256 oneWord = [oneWord] := by decide
  have hget : getLine (some oneWord) blankHexData
      = pure (false, #v[flashBaseAddress, 0x04030201, 0, 0, 0], 1) := rfl
  obtain ⟨k, hk⟩ : ∃ k, hexText progEp oneWord blankHexData
      = .op (.write flashBaseAddress flashProgramSetup) (fun _ =>
          .op (.write flashBaseAddress 0x04030201) k) := by
    rw [hexText, hlines, readLines_cons, hget]
    exact ⟨_, rfl⟩
  have htext : ∀ d, ∃ d', Run (perfect oneWord)
      (hexText progEp oneWord blankHexData >>= f) d
      [⟨.write flashBaseAddress flashProgramSetup, ()⟩,
        ⟨.write flashBaseAddress 0x04030201, ()⟩] .running d' := by
    intro d
    rw [hk]
    exact ⟨_, .op rfl (.op rfl (.stop _ _))⟩
  obtain ⟨d', hd'⟩ := htext ⟨.readMode, fun _ => 0xffffffff⟩
  exact ⟨d', .op ⟨rfl, rfl⟩ hd'⟩

/-- A file with one word on a perfect device: the array is erased after the
    sweep for zeros, and the word is written after the sweeps for ones. -/
theorem destructive_gated_oneWord :
    ∃ tr₁ tr₂ mode', HighPrRun blankHexData blankHexData .readMode
        (tr₁ ++ ⟨.write (flEprom 0) flashErase, ()⟩ ::
          (tr₂ ++ [⟨.write flashBaseAddress 0x04030201, ()⟩])) .running mode' ∧
      EraseCommand (watched Mode.next .readMode tr₁)
        (.write (flEprom 0) flashErase) ∧
      EraseGate .readMode tr₁ ∧
      Opened (tr₁ ++ ⟨.write (flEprom 0) flashErase, ()⟩ :: tr₂) ∧
      ProgramGate .readMode
        (tr₁ ++ ⟨.write (flEprom 0) flashErase, ()⟩ :: tr₂) := by
  obtain ⟨tr, array, tr', hzero, hrun⟩ := perfect_to_file oneWord blankHexData
    blankHexData (d := ⟨.readMode, fun _ => 0⟩) (by simp [Settled])
  obtain ⟨d', hfile⟩ := oneWord_starts _
  have hr := watching_swap Mode.next (hrun _ _ _ hfile) .readMode
  have hregister : watched Mode.next .readMode tr = .readMode :=
    watched_image (f := Device.mode)
      (fun _ _ _ _ h => device_next (perfect_device oneWord _ _ _ _ h)) hzero
  have herase : EraseCommand (watched Mode.next .readMode
      (tr ++ [⟨.write (flEprom 0) flashEraseSetup, ()⟩]))
      (.write (flEprom 0) flashErase) := by
    refine ⟨?_, flEprom 0, rfl⟩
    rw [watched_snoc, next_first, hregister]
    rfl
  have hcut : ∀ tail : FlashTrace,
      tr ++ ⟨.write (flEprom 0) flashEraseSetup, ()⟩ :: tail
        = (tr ++ [⟨.write (flEprom 0) flashEraseSetup, ()⟩]) ++ tail := by
    intro tail
    rw [List.append_assoc, List.singleton_append]
  let opening : FlashTrace := [⟨.fopen, some oneWord⟩,
    ⟨.write flashBaseAddress flashProgramSetup, ()⟩]
  have hsplit : tr' ++ [⟨.fopen, some oneWord⟩,
      ⟨.write flashBaseAddress flashProgramSetup, ()⟩,
      ⟨.write flashBaseAddress 0x04030201, ()⟩]
      = (tr' ++ opening) ++ [⟨.write flashBaseAddress 0x04030201, ()⟩] := by
    rw [List.append_assoc]
    rfl
  rw [hcut, hsplit] at hr
  have hopened : Opened ((tr ++ [⟨.write (flEprom 0) flashEraseSetup, ()⟩])
      ++ ⟨.write (flEprom 0) flashErase, ()⟩ :: (tr' ++ opening)) := by
    refine ⟨some oneWord, ?_⟩
    refine List.mem_append_right _ (List.mem_cons_of_mem _ ?_)
    exact List.mem_append_right _ List.mem_cons_self
  refine ⟨_, _, _, hr, herase, ?_, hopened, ?_⟩
  · exact ((destructive_gated hr).1 _ _ _ _ rfl).1 herase
  · refine ((destructive_gated hr).1 _ (.write flashBaseAddress 0x04030201) () []
      ?_).2 hopened ⟨_, _, rfl⟩
    simp only [List.append_assoc, List.cons_append]

end FlashGates
