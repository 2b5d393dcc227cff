import Ttm50.FlashRegister

/-! # The command register along a run

    One weakest precondition of `high_pr` over the observer `Watch` says what
    has been observed at every exit (`verdict_of_run`).  `modes_iff`: a
    complete run makes all its reads in the mode they need if and only if it
    fails the identification. -/

namespace FlashModes

open CStdio InteractivePrograms FlashDriver FlashLines FlashRegister

/-! ## `high_pr` -/

/-- What the observer has seen when `high_pr` exits. -/
def Verdict (_ : Nat) (w : Watch) : Prop :=
  (w.modesOk = true ↔ w.identOk = false) ∧
    (w.mode = .readMode ↔
      w.identOk = true ∧ w.zeroOk = true ∧ NoStray w.file w.answers) ∧
    (w.file ≠ none → w.identOk = true ∧ w.zeroOk = true)

/-- The observer after `check_value( 0 )` has found zeros: its reads have been
    made in the wrong mode. -/
structure Checked (w : Watch) : Prop where
  ident : w.identOk = true
  zero : w.zeroOk = true
  spoiled : w.modesOk = false
  file : w.file = none
  answers : w.answers = []

theorem Checked.at {w : Watch} (h : Checked w) (m : Mode) : Checked (w.at m) :=
  ⟨h.ident, h.zero, h.spoiled, h.file, h.answers⟩

/-- With the identification and the zeros right, the answers to `prog_ep`
    decide the mode at the exit. -/
theorem Checked.verdict {w : Watch} (h : Checked w) (x : Nat)
    {file : Option (List Char)} {m : Mode} {past : List Word}
    (hm : m = .readMode ↔ NoStray file past) :
    Verdict x (((w.opened file).at m).heard past) := by
  refine ⟨?_, ?_, fun _ => ⟨h.ident, h.zero⟩⟩
  · show w.modesOk = true ↔ w.identOk = false
    rw [h.spoiled, h.ident]
    simp
  · show m = .readMode ↔ w.identOk = true ∧ w.zeroOk = true ∧
      NoStray (w.file.or file) (w.answers ++ past)
    rw [h.ident, h.zero, h.file, h.answers, Option.none_or, List.nil_append]
    simpa using hm

theorem Checked.verdict_read {w : Watch} (h : Checked w) (x : Nat) :
    Verdict x (w.at .readMode) := by
  have hverdict := h.verdict x (m := .readMode)
    ⟨fun _ => noStray_none [], fun _ => rfl⟩
  rw [Watch.opened_none, Watch.heard_nil] at hverdict
  exact hverdict

/-- From `erase` on an exit is not in read mode only when `prog_ep` fails
    outside the flash after a line inside. -/
theorem wp_afterZero {w : Watch} (stack stack' : HexData)
    (hmode : w.mode = .programVerify) (hchecked : Checked w) :
    wp watcher Right (fun _ _ => False) Verdict
      (do
        resetFe
        erase
        checkValue 0xffffffff
        resetFe
        progHf stack
        resetFe
        resetFe
        checkHf stack'
        printf successMessage []
        Prog.exit exitSuccess : Flash Unit) w := by
  simp only [wp_bind, wp_resetFe, hmode]
  refine wp_erase rfl ?_ (hchecked.verdict_read _)
  have hones : (0xffffffff : Word) ≠ 0 := by decide
  rw [wp_bind]
  refine wp_checkValue hones rfl ?_ (hchecked.verdict_read _)
  rw [wp_bind, wp_resetFe, wp_bind]
  refine wp_progHf rfl hchecked.spoiled ?_ ?_
  · intro file m past hm
    exact (hchecked.at .readMode).verdict _ hm
  intro text m past hm hstray
  -- both resets after `prog_hf` reach the device
  have hverdict : ∀ x,
      Verdict x (((w.opened (some text)).at .readMode).heard past) :=
    fun x => hchecked.verdict x ⟨fun _ => hstray, fun _ => rfl⟩
  simp only [wp_bind, wp_resetFe, Watch.at_mode, Watch.at_at, Watch.heard_mode,
    Watch.heard_at, programming_reset hm]
  refine wp_checkHf rfl ?_ (hverdict _) ?_
  · show w.file.or (some text) ≠ none
    rw [hchecked.file]
    simp
  rw [wp_bind, wp_printf]
  exact hverdict _

theorem wp_highPr (stack stack' : HexData) (mode : Mode) :
    wp watcher Right (fun _ _ => False) Verdict (highPr stack stack')
      (Watch.start mode) := by
  -- an identifier mismatch exits in ID mode
  have hid : ∀ x, Verdict x (((Watch.start mode).at .idMode).withIdent false) := by
    intro x
    refine ⟨⟨fun _ => rfl, fun _ => rfl⟩, ?_, fun h => absurd rfl h⟩
    constructor
    · intro h
      exact absurd h (by simp [Watch.withIdent, Watch.at])
    · rintro ⟨h, -⟩
      exact absurd h (by simp [Watch.withIdent])
  rw [highPr]
  simp only [wp_bind, wp_resetFe]
  refine wp_readII ?_ (by exact hid _)
  rw [wp_bind, wp_resetFe, wp_bind]
  refine wp_readII ?_ (by exact hid _)
  rw [wp_bind, wp_resetFe, wp_bind]
  refine wp_progTo0 rfl ?_
  rw [wp_bind]
  refine wp_checkZero rfl ?_ ?_
  · exact wp_afterZero stack stack' rfl ⟨rfl, rfl, rfl, rfl, rfl⟩
  -- a word that is not zero: the exit is in program-verify mode
  · refine ⟨⟨fun h => absurd h Bool.false_ne_true,
      fun h => absurd h.symm Bool.false_ne_true⟩, ?_, fun h => absurd rfl h⟩
    have hmode : Mode.programVerify ≠ .readMode := by decide
    constructor
    · intro h
      exact absurd h hmode
    · rintro ⟨-, h, -⟩
      exact absurd h Bool.false_ne_true

/-! ## What the observer's findings say about the trace -/

/-- The operations of a run of the utility, with the answers. -/
abbrev FlashTrace := Trace FlashOp FlashOp.Res

/-- The identification succeeds: all identifier reads are right. -/
def IdentOk (tr : FlashTrace) : Prop :=
  ∀ (address r : Word), ⟨.read .readII address, r⟩ ∈ tr → r = idCode address

/-- All reads of `check_value( 0 )` are zero. -/
def ZeroOk (tr : FlashTrace) : Prop :=
  ∀ (address r : Word), ⟨.read (.checkValue 0) address, r⟩ ∈ tr → r = 0

/-- The text of the hex file, as the first `fopen` that succeeds gives it. -/
def openedFile : FlashTrace → Option (List Char)
  | [] => none
  | ⟨.fopen, text⟩ :: tr => text.or (openedFile tr)
  | _ :: tr => openedFile tr

theorem openedFile_mem {text : List Char} {tr : FlashTrace}
    (h : ⟨.fopen, some text⟩ ∈ tr) : openedFile tr ≠ none := by
  induction tr with
  | nil => exact nomatch h
  | cons e tr ih =>
      rcases List.mem_cons.mp h with rfl | hmem
      · exact nofun
      · obtain ⟨o, r⟩ := e
        cases o with
        | fopen =>
            cases r with
            | none => exact ih hmem
            | some text => exact nofun
        | _ => exact ih hmem

/-- The answers to the reads of `prog_ep`. -/
def programAnswers : FlashTrace → List Word
  | [] => []
  | ⟨.read site _, r⟩ :: tr => programAnswer site r ++ programAnswers tr
  | _ :: tr => programAnswers tr

/-- On the file and the answers of the trace programming does not fail at a
    line outside the flash after a line inside. -/
def StrayOk (tr : FlashTrace) : Prop :=
  NoStray (openedFile tr) (programAnswers tr)

/-- All reads with `p` are made in the mode they need, when the register is in
    `mode` before the trace. -/
def ReadsIn (p : Site → Word → Prop) (mode : Mode) (tr : FlashTrace) : Prop :=
  ∀ tr₁ site address (r : Word) tr₂,
    tr = tr₁ ++ ⟨.read site address, r⟩ :: tr₂ → p site address →
    watched Mode.next mode tr₁ = needs site

/-- All reads are made in the mode they need. -/
def ModesOk (mode : Mode) (tr : FlashTrace) : Prop :=
  ReadsIn (fun _ _ => True) mode tr

theorem next_mode (w : Watch) (o : FlashOp) (r : o.Res) :
    (w.next o r).mode = w.mode.next o r := by
  cases o <;> rfl

theorem watched_file (w : Watch) (tr : FlashTrace) :
    (watched Watch.next w tr).file = w.file.or (openedFile tr) := by
  induction tr generalizing w with
  | nil => exact (Option.or_none).symm
  | cons e tr ih =>
      obtain ⟨o, r⟩ := e
      show (watched Watch.next (w.next o r) tr).file = _
      rw [ih]
      cases o with
      | fopen => exact Option.or_assoc
      | _ => rfl

theorem watched_answers (w : Watch) (tr : FlashTrace) :
    (watched Watch.next w tr).answers = w.answers ++ programAnswers tr := by
  induction tr generalizing w with
  | nil => exact (List.append_nil _).symm
  | cons e tr ih =>
      obtain ⟨o, r⟩ := e
      show (watched Watch.next (w.next o r) tr).answers = _
      rw [ih]
      cases o with
      | read site a => exact List.append_assoc _ _ _
      | _ => rfl

theorem watched_mode (w : Watch) (tr : FlashTrace) :
    (watched Watch.next w tr).mode = watched Mode.next w.mode tr := by
  induction tr generalizing w with
  | nil => rfl
  | cons e tr ih =>
      show (watched Watch.next (w.next e.1 e.2) tr).mode
        = watched Mode.next (w.mode.next e.1 e.2) tr
      rw [ih, next_mode]

section Finding

variable {field : Watch → Bool} {s : Site} {right : Word → Word → Bool}
  (hread : ∀ (w : Watch) site a (r : Word),
    field (w.next (.read site a) r)
      = (field w && (decide (site ≠ s) || right a r)))
  (hother : ∀ (w : Watch) (o : FlashOp) (r : o.Res),
    (∀ site a, o ≠ .read site a) → field (w.next o r) = field w)

include hread hother

/-- Only a read at site `s` can spoil the finding. -/
theorem next_finding (w : Watch) (o : FlashOp) (r : o.Res) :
    field (w.next o r) = true ↔ field w = true ∧
      ∀ (a r' : Word), (⟨o, r⟩ : (o : FlashOp) × o.Res) = ⟨.read s a, r'⟩ →
        right a r' = true := by
  cases o with
  | read site a =>
      rw [hread, Bool.and_eq_true, Bool.or_eq_true, decide_eq_true_iff]
      refine and_congr_right (fun _ => ?_)
      constructor
      · rintro h a' r' heq
        obtain ⟨hop, hr⟩ := Sigma.mk.inj heq
        obtain ⟨rfl, rfl⟩ := FlashOp.read.inj hop
        obtain rfl := eq_of_heq hr
        exact h.resolve_left (fun h' => h' rfl)
      · intro h
        by_cases hs : site = s
        · subst hs
          exact Or.inr (h a r rfl)
        · exact Or.inl hs
  | write | procWait | printf | fopen | fclose =>
      rw [hother w _ r (fun _ _ h => nomatch h)]
      refine ⟨fun h => ⟨h, ?_⟩, fun h => h.1⟩
      intro a' r' heq
      exact nomatch (Sigma.mk.inj heq).1

/-- A finding that each read at site `s` may spoil. -/
theorem watched_finding (w : Watch) (tr : FlashTrace) :
    field (watched Watch.next w tr) = true ↔
      field w = true ∧
        ∀ (a r : Word), ⟨.read s a, r⟩ ∈ tr → right a r = true := by
  induction tr generalizing w with
  | nil => exact ⟨fun h => ⟨h, fun _ _ h' => nomatch h'⟩, fun h => h.1⟩
  | cons e tr ih =>
      obtain ⟨o, r⟩ := e
      show field (watched Watch.next (w.next o r) tr) = true ↔ _
      rw [ih, next_finding hread hother, and_assoc]
      refine and_congr_right (fun _ => ?_)
      constructor
      · rintro ⟨h₀, h₁⟩ a r' hmem
        rcases List.mem_cons.mp hmem with heq | hmem
        · exact h₀ a r' heq.symm
        · exact h₁ a r' hmem
      · intro h
        constructor
        · intro a r' heq
          exact h a r' (List.mem_cons.mpr (Or.inl heq.symm))
        · intro a r' hmem
          exact h a r' (List.mem_cons_of_mem _ hmem)

end Finding

theorem watched_ident (w : Watch) (tr : FlashTrace) :
    (watched Watch.next w tr).identOk = true ↔
      w.identOk = true ∧ IdentOk tr := by
  rw [@watched_finding Watch.identOk .readII
    (fun a r => decide (r = idCode a)) (fun _ _ _ _ => rfl) ?_ w tr]
  · exact and_congr_right (fun _ => forall₂_congr (fun _ _ =>
      imp_congr_right (fun _ => decide_eq_true_iff)))
  · intro w o r h
    cases o with
    | read site a => exact absurd rfl (h site a)
    | _ => rfl

theorem watched_zero (w : Watch) (tr : FlashTrace) :
    (watched Watch.next w tr).zeroOk = true ↔
      w.zeroOk = true ∧ ZeroOk tr := by
  rw [@watched_finding Watch.zeroOk (.checkValue 0)
    (fun _ r => decide (r = 0)) (fun _ _ _ _ => rfl) ?_ w tr]
  · exact and_congr_right (fun _ => forall₂_congr (fun _ _ =>
      imp_congr_right (fun _ => decide_eq_true_iff)))
  · intro w o r h
    cases o with
    | read site a => exact absurd rfl (h site a)
    | _ => rfl

theorem modesOk_cons {mode : Mode} {o : FlashOp} {r : o.Res}
    {tr : FlashTrace} :
    ModesOk mode (⟨o, r⟩ :: tr) ↔
      (∀ site a, o = .read site a → mode = needs site) ∧
        ModesOk (mode.next o r) tr := by
  constructor
  · intro h
    constructor
    · rintro site a rfl
      exact h [] site a r tr rfl trivial
    · intro tr₁ site a r' tr₂ heq _
      exact h (⟨o, r⟩ :: tr₁) site a r' tr₂ (by rw [heq]; rfl) trivial
  · rintro ⟨h₀, h⟩ tr₁ site a r' tr₂ heq -
    cases tr₁ with
    | nil => exact h₀ site a (Sigma.mk.inj (List.cons.inj heq).1).1
    | cons e tr₁ =>
        obtain ⟨rfl, heq'⟩ := List.cons.inj heq
        exact h tr₁ site a r' tr₂ heq' trivial

theorem watched_modes (w : Watch) (tr : FlashTrace) :
    (watched Watch.next w tr).modesOk = true ↔
      w.modesOk = true ∧ ModesOk w.mode tr := by
  induction tr generalizing w with
  | nil =>
      refine ⟨fun h => ⟨h, ?_⟩, fun h => h.1⟩
      intro tr₁ site a r tr₂ heq
      cases tr₁ <;> exact nomatch heq
  | cons e tr ih =>
      obtain ⟨o, r⟩ := e
      show (watched Watch.next (w.next o r) tr).modesOk = true ↔ _
      rw [ih, modesOk_cons, next_mode]
      have hstep : (w.next o r).modesOk = true ↔ w.modesOk = true ∧
          ∀ site a, o = .read site a → w.mode = needs site := by
        cases o with
        | read site a =>
            show (w.modesOk && decide (w.mode = needs site)) = true ↔ _
            rw [Bool.and_eq_true, decide_eq_true_iff]
            refine and_congr_right (fun _ => ⟨?_, fun h => h site a rfl⟩)
            rintro h site' a' heq
            obtain ⟨rfl, -⟩ := FlashOp.read.inj heq
            exact h
        | write | procWait | printf | fopen | fclose =>
            exact ⟨fun h => ⟨h, fun _ _ h' => nomatch h'⟩, fun h => h.1⟩
      rw [hstep, and_assoc]

/-! ## The command-mode protocol and the exits -/

/-- The runs of `high_pr`, whatever the device and the file system answer,
    with the command register as the world. -/
abbrev HighPrRun (stack stack' : HexData) (mode : Mode) (tr : FlashTrace)
    (out : Outcome Nat Unit) (mode' : Mode) : Prop :=
  Run (watching Mode.next) (highPr stack stack') mode tr out mode'

/-- The findings at the exit of a complete run. -/
theorem verdict_of_run {stack stack' : HexData} {mode mode' : Mode}
    {tr : FlashTrace} {x : Nat}
    (hr : HighPrRun stack stack' mode tr (.exited x) mode') :
    (ModesOk mode tr ↔ ¬ IdentOk tr) ∧
      (mode' = .readMode ↔ IdentOk tr ∧ ZeroOk tr ∧ StrayOk tr) ∧
      (openedFile tr ≠ none → IdentOk tr ∧ ZeroOk tr) := by
  have hwatch := watching_swap Watch.next hr (Watch.start mode)
  obtain ⟨hmodes, hend, hopened⟩ := wp_post (wp_highPr stack stack' mode) hwatch
  have hmode' : (watched Watch.next (Watch.start mode) tr).mode = mode' := by
    rw [watched_mode, watching_run hr]
    rfl
  have hident := watched_ident (Watch.start mode) tr
  have hzero := watched_zero (Watch.start mode) tr
  have hall := watched_modes (Watch.start mode) tr
  have hfile := watched_file (Watch.start mode) tr
  have hanswers := watched_answers (Watch.start mode) tr
  simp only [Watch.start, true_and] at hident hzero hall
  rw [show (Watch.start mode).file = none from rfl, Option.none_or] at hfile
  rw [show (Watch.start mode).answers = [] from rfl, List.nil_append]
    at hanswers
  refine ⟨?_, ?_, ?_⟩
  · rw [← hall, ← hident, Bool.not_eq_true]
    exact hmodes
  · rw [StrayOk, ← hident, ← hzero, ← hmode', ← hfile, ← hanswers]
    exact hend
  · rw [← hident, ← hzero, ← hfile]
    exact hopened

/-- The answers of a device without power: every word is zero. -/
def deadDevice : (o : FlashOp) → o.Res
  | .read _ _ => (0 : Word)
  | .write _ _ => ()
  | .procWait _ => ()
  | .printf _ _ => ()
  | .fopen => none
  | .fclose => ()

/-- The answers of a device that is identified and reads zero otherwise. -/
def zeroDevice : (o : FlashOp) → o.Res
  | .read .readII address => idCode address
  | .read _ _ => (0 : Word)
  | .write _ _ => ()
  | .procWait _ => ()
  | .printf _ _ => ()
  | .fopen => none
  | .fclose => ()

/-- An array on the stack. -/
def blankHexData : HexData := #v[0, 0, 0, 0, 0]

/-- The run of `high_pr` with these answers. -/
def runWith (answer : (o : FlashOp) → o.Res) : FlashTrace × Outcome Nat Unit :=
  answered answer (highPr blankHexData blankHexData)

/-- It is a run, and it ends in an exit. -/
theorem runWith_run (answer : (o : FlashOp) → o.Res) :
    ∃ x mode', HighPrRun blankHexData blankHexData .readMode
      (runWith answer).1 (.exited x) mode' := by
  have hr := answered_run Mode.next answer
    (highPr blankHexData blankHexData) .readMode
  have hwatch := watching_swap Watch.next hr (Watch.start .readMode)
  have hpost := wp_post (wp_highPr blankHexData blankHexData .readMode) hwatch
  have hcomplete := answered_complete answer
    (highPr blankHexData blankHexData)
  cases hout : (answered answer (highPr blankHexData blankHexData)).2 with
  | running => exact absurd hout hcomplete
  | returned a =>
      rw [hout] at hpost
      exact hpost.elim
  | exited x =>
      rw [hout] at hr
      exact ⟨x, _, hr⟩

/-- **THE COMMAND-MODE PROTOCOL, EXACTLY**: in every run of `high_pr` all
    reads but those of `check_value( 0 )`, and of `prog_ep` outside the flash,
    are made in the mode they need; and a complete run makes all its reads so
    if and only if an identifier read is wrong, since otherwise
    `check_value( 0 )` reads in program-verify mode. -/
theorem modes_iff {stack stack' : HexData} {mode mode' : Mode}
    {tr : FlashTrace} {out : Outcome Nat Unit}
    (hr : HighPrRun stack stack' mode tr out mode') :
    ReadsIn Expected mode tr ∧
      ∀ x, out = .exited x → (ModesOk mode tr ↔ ¬ IdentOk tr) := by
  constructor
  · intro tr₁ site address r tr₂ heq hexpected
    subst heq
    have hwatch := watching_swap Watch.next hr (Watch.start mode)
    obtain ⟨w, hw, hright⟩ := wp_each (wp_highPr stack stack' mode) hwatch
    have hmode := hright site address rfl hexpected
    rw [watching_run hw, watched_mode] at hmode
    exact hmode
  · rintro x rfl
    exact (verdict_of_run hr).1

/-- Without power the first identification fails, and all reads have been
    right. -/
theorem modes_iff_dead :
    ∃ mode', HighPrRun blankHexData blankHexData .readMode
        (runWith deadDevice).1 (.exited exitFailure) mode' ∧
      (ModesOk .readMode (runWith deadDevice).1 ↔
        ¬ IdentOk (runWith deadDevice).1) := by
  have hr := answered_run Mode.next deadDevice
    (highPr blankHexData blankHexData) .readMode
  exact ⟨_, hr, (modes_iff hr).2 exitFailure rfl⟩

/-- **READS IN PROGRAM-VERIFY MODE**: with a device that is identified and
    reads zero otherwise, some read is not made in the mode it needs. -/
theorem modes_broken :
    ∃ tr x mode', HighPrRun blankHexData blankHexData .readMode tr (.exited x)
      mode' ∧ IdentOk tr ∧ ¬ ModesOk .readMode tr := by
  obtain ⟨x, mode', hr⟩ := runWith_run zeroDevice
  have hident : IdentOk (runWith zeroDevice).1 := fun _ _ h => answered_mem h
  refine ⟨_, x, mode', hr, hident, ?_⟩
  intro hmodes
  exact (verdict_of_run hr).1.mp hmodes hident

end FlashModes
