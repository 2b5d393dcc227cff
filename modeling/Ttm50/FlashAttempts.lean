import Ttm50.FlashLines

/-! # How often `prog_ep` tries a word

    The device is a sequence of values, one for each read, and the surroundings
    keep the accesses in order.  `Retries limit` is the law of a utility that
    tries each word at most `limit` times: `prog_ep_retries` shows that the
    code obeys it with three attempts, its counter starting at 1.
    `four_attempts_iff` says when this cannot be told from the four attempts
    that the source announces. -/

namespace FlashAttempts

open CStdio InteractivePrograms FlashDriver FlashLines

/-! ## A device that returns a given sequence of values -/

/-- An access to the device; a read with what it returned. -/
inductive Access where
  | write (address value : Word)
  | read (address value : Word)
  deriving DecidableEq, Repr

/-- The number of values returned so far, and the accesses. -/
structure Session where
  reads : Nat
  accesses : List Access

/-- Nothing has been accessed. -/
def Session.start : Session := ⟨0, []⟩

/-- The read number `n` returns `vals n`. -/
def feed (vals : Nat → Word) : Session → (o : FlashOp) → o.Res × Session
  | s, .read _ a => (vals s.reads,
      ⟨s.reads + 1, s.accesses ++ [.read a (vals s.reads)]⟩)
  | s, .write a v => ((), ⟨s.reads, s.accesses ++ [.write a v]⟩)
  | s, .procWait _ => ((), s)
  | s, .printf _ _ => ((), s)
  | s, .fopen => (none, s)
  | s, .fclose => ((), s)

/-- How a program ends on a device that returns these values. -/
abbrev Serves (vals : Nat → Word) {A : Type} (Q : A → Session → Prop)
    (E : Nat → Session → Prop) (p : Flash A) (s : Session) : Prop :=
  wp (playing (feed vals)) (fun _ _ => True) Q E p s

section Rules

variable {vals : Nat → Word} {E : Nat → Session → Prop}

@[simp] theorem serves_write {Q : Unit → Session → Prop} (a v : Word)
    (s : Session) :
    Serves vals Q E (write a v) s ↔
      Q () ⟨s.reads, s.accesses ++ [.write a v]⟩ :=
  (wp_playing _ _ _).trans (and_iff_right trivial)

@[simp] theorem serves_read {Q : Word → Session → Prop} (site : Site)
    (a : Word) (s : Session) :
    Serves vals Q E (read site a) s ↔
      Q (vals s.reads)
        ⟨s.reads + 1, s.accesses ++ [.read a (vals s.reads)]⟩ :=
  (wp_playing _ _ _).trans (and_iff_right trivial)

@[simp] theorem serves_procWait {Q : Unit → Session → Prop} (us : Nat)
    (s : Session) : Serves vals Q E (procWait us) s ↔ Q () s :=
  (wp_playing _ _ _).trans (and_iff_right trivial)

@[simp] theorem serves_printf {Q : Unit → Session → Prop} (text : String)
    (args : List Word) (s : Session) :
    Serves vals Q E (printf text args) s ↔ Q () s :=
  (wp_playing _ _ _).trans (and_iff_right trivial)

end Rules

/-! ## The law of at most `limit` attempts -/

/-- An attempt at word `j`: program setup, the data, verify, read back. -/
def attempt (fl : Word) (j : Nat) (data value : Word) : List Access :=
  [.write (index fl 0) flashProgramSetup, .write (index fl (j - 1)) data,
    .write (index fl 0) flashProgramVerify, .read (index fl (j - 1)) value]

/-- The attempts at word `j` that read the values from number `n` on. -/
def attempts (fl : Word) (j : Nat) (data : Word) (vals : Nat → Word) :
    (count n : Nat) → List Access
  | 0, _ => []
  | count + 1, n =>
      attempt fl j data (vals n) ++ attempts fl j data vals count (n + 1)

/-- The words in order, from word `j` on with value number `n`: each is tried
    until it reads back, at most `limit` times; a word that never does is the
    last one, and the device is reset. -/
inductive Retries (limit : Nat) (fl : Word) (vals : Nat → Word) :
    (j n : Nat) → List Word → List Access → Outcome Nat Unit → Prop where
  | done (j n : Nat) : Retries limit fl vals j n [] [] (.returned ())
  | verified {j n k : Nat} {data : Word} {words : List Word}
      {accesses : List Access} {out : Outcome Nat Unit} :
      k < limit → (∀ i < k, vals (n + i) ≠ data) → vals (n + k) = data →
      Retries limit fl vals (j + 1) (n + (k + 1)) words accesses out →
      Retries limit fl vals j n (data :: words)
        (attempts fl j data vals (k + 1) n ++ accesses) out
  | failed {j n : Nat} {data : Word} {words : List Word} :
      (∀ i < limit, vals (n + i) ≠ data) →
      Retries limit fl vals j n (data :: words)
        (attempts fl j data vals limit n
          ++ [.write (index fl 0) flashReset, .write (index fl 0) flashReset])
        (.exited exitFailure)

/-- Every word reads back within `limit` attempts, the values being taken from
    number `n` on. -/
def VerifiesWithin (limit : Nat) (vals : Nat → Word) : Nat → List Word → Prop
  | _, [] => True
  | n, data :: words => ∃ k < limit, (∀ i < k, vals (n + i) ≠ data) ∧
      vals (n + k) = data ∧ VerifiesWithin limit vals (n + (k + 1)) words

/-- How `prog_ep` ends, and what it has accessed. -/
def progEpRun (vals : Nat → Word) (hexData : HexData) (wordCt : Nat) :
    Outcome Nat Unit × Session :=
  play (feed vals) (progEp hexData wordCt) Session.start

/-- `prog_ep` tries each word of the line at most `limit` times, and returns
    exactly when each word reads back within them. -/
structure RetryLaw (limit : Nat) (vals : Nat → Word) (hexData : HexData)
    (wordCt : Nat) : Prop where
  order : Retries limit (lineAddress hexData) vals 1 0
    (lineWords hexData wordCt 1) (progEpRun vals hexData wordCt).2.accesses
    (progEpRun vals hexData wordCt).1
  returns : (progEpRun vals hexData wordCt).1 = .returned () ↔
    VerifiesWithin limit vals 0 (lineWords hexData wordCt 1)

/-! ## The code and the law -/

section Code

variable {vals : Nat → Word} {E : Nat → Session → Prop}

/-- The loop over the attempts at one word. -/
theorem serves_progWord {Q : Bool × Word → Session → Prop} {fl data : Word}
    {j left : Nat} {epData : Word} {s : Session}
    (hverified : ∀ k < left, (∀ i < k, vals (s.reads + i) ≠ data) →
      vals (s.reads + k) = data →
      Q (false, data) ⟨s.reads + (k + 1),
        s.accesses ++ attempts fl j data vals (k + 1) s.reads⟩)
    (hfailed : (∀ i < left, vals (s.reads + i) ≠ data) → ∀ epData,
      Q (true, epData) ⟨s.reads + left,
        s.accesses ++ attempts fl j data vals left s.reads⟩) :
    Serves vals Q E (progWord fl j data left true epData) s := by
  induction left generalizing epData s with
  | zero =>
      have h := hfailed (fun i hi => absurd hi (Nat.not_lt_zero i)) epData
      rw [attempts, List.append_nil] at h
      exact h
  | succ left ih =>
      have hacc : ∀ (more : List Access),
          s.accesses ++ [.write (index fl 0) flashProgramSetup]
            ++ [.write (index fl (j - 1)) data]
            ++ [.write (index fl 0) flashProgramVerify]
            ++ [.read (index fl (j - 1)) (vals s.reads)] ++ more
          = s.accesses ++ (attempt fl j data (vals s.reads) ++ more) := by
        intro more
        simp [attempt]
      rw [progWord, if_pos rfl]
      simp only [wp_bind, serves_write, serves_procWait, serves_read]
      by_cases hv : vals s.reads = data
      -- the word reads back: no further attempt
      · rw [decide_eq_false (not_not_intro hv), progWord_verified]
        have h := hverified 0 (Nat.succ_pos left)
          (fun i hi => absurd hi (Nat.not_lt_zero i)) hv
        rw [attempts, attempts, ← hacc, List.append_nil] at h
        rw [hv] at h ⊢
        exact h
      · rw [decide_eq_true hv]
        have hshift : ∀ i, s.reads + 1 + i = s.reads + (i + 1) := by omega
        have hsofar : ∀ k, (∀ i < k, vals (s.reads + 1 + i) ≠ data) →
            ∀ i < k + 1, vals (s.reads + i) ≠ data := by
          intro k h i hi
          cases i with
          | zero => exact hv
          | succ i =>
              rw [← hshift]
              exact h i (by omega)
        refine ih ?_ ?_
        · intro k hk hwrong hright
          rw [hshift] at hright
          have h := hverified (k + 1) (by omega) (hsofar k hwrong) hright
          rw [attempts, ← hacc, ← hshift] at h
          exact h
        · intro hwrong epData
          have h := hfailed (hsofar left hwrong) epData
          rw [attempts, ← hacc, ← hshift] at h
          exact h

/-- From `s` on, the words from `j` on are programmed by the law of three
    attempts. -/
def Added (vals : Nat → Word) (hexData : HexData) (left j : Nat) (s : Session)
    (out : Outcome Nat Unit) (s' : Session) : Prop :=
  ∃ accesses, s'.accesses = s.accesses ++ accesses ∧
    Retries 3 (lineAddress hexData) vals j s.reads (lineWords hexData left j)
      accesses out

theorem serves_progEp (hexData : HexData) (left j : Nat) (s : Session) :
    Serves vals (fun _ => Added vals hexData left j s (.returned ()))
      (fun x => Added vals hexData left j s (.exited x))
      (forRange (epWord hexData) left j) s := by
  induction left generalizing j s with
  | zero => exact ⟨[], (List.append_nil _).symm, .done j s.reads⟩
  | succ left ih =>
      show Serves vals _ _ (epWord hexData j >>= fun _ =>
        forRange (epWord hexData) left (j + 1)) s
      rw [epWord, prog_bind_assoc]
      refine (wp_bind _ _ s).mpr (serves_progWord ?_ ?_)
      · intro k hk hwrong hright
        refine wp_consequence (fun _ _ h => h) ?_ ?_ (ih (j + 1) _)
        all_goals
          rintro _ s' ⟨accesses, hacc, hlaw⟩
          refine ⟨_, ?_, .verified hk hwrong hright hlaw⟩
          rw [hacc, List.append_assoc]
      · intro hwrong epData
        simp only [if_true, wp_bind, serves_printf, serves_write, wp_exit]
        refine ⟨_, ?_, .failed hwrong⟩
        simp

/-- **THREE ATTEMPTS**: `prog_ep` obeys the law with `limit = 3`. -/
theorem progEp_retries (vals : Nat → Word) (hexData : HexData) (wordCt : Nat) :
    Retries 3 (lineAddress hexData) vals 1 0 (lineWords hexData wordCt 1)
      (progEpRun vals hexData wordCt).2.accesses
      (progEpRun vals hexData wordCt).1 := by
  have hserves : Serves vals _ _ _ _ :=
    serves_progEp hexData wordCt 1 Session.start
  have hmeets := play_meets hserves
  have hcomplete := play_complete (feed vals)
    (forRange (epWord hexData) wordCt 1) Session.start
  rw [progEpRun, progEp_words]
  cases hout : (play (feed vals) (forRange (epWord hexData) wordCt 1)
      Session.start).1 with
  | running => exact absurd hout hcomplete
  | returned | exited =>
      rw [hout] at hmeets
      obtain ⟨accesses, hacc, hlaw⟩ := hmeets
      rw [hacc]
      exact hlaw

end Code

/-! ## Three attempts and four -/

section Laws

variable {limit : Nat} {fl : Word} {vals : Nat → Word} {j n : Nat}
  {words : List Word} {accesses : List Access} {out : Outcome Nat Unit}

/-- The first value that is right decides the number of attempts. -/
theorem first_right {data : Word} {k k' : Nat}
    (hwrong : ∀ i < k, vals (n + i) ≠ data) (hright : vals (n + k) = data)
    (hwrong' : ∀ i < k', vals (n + i) ≠ data)
    (hright' : vals (n + k') = data) : k = k' := by
  rcases Nat.lt_trichotomy k k' with hlt | heq | hgt
  · exact absurd hright (hwrong' k hlt)
  · exact heq
  · exact absurd hright' (hwrong k' hgt)

/-- A law with a higher limit asks the same when the lower one suffices. -/
theorem retries_raise {limit' : Nat} (hle : limit ≤ limit')
    (h : Retries limit fl vals j n words accesses out)
    (hwithin : VerifiesWithin limit vals n words) :
    Retries limit' fl vals j n words accesses out := by
  induction h with
  | done j n => exact .done j n
  | verified hk hwrong hright _ ih =>
      obtain ⟨k', -, hwrong', hright', hrest⟩ := hwithin
      obtain rfl := first_right hwrong hright hwrong' hright'
      exact .verified (by omega) hwrong hright (ih hrest)
  | failed hwrong =>
      obtain ⟨k, hk, -, hright, -⟩ := hwithin
      exact absurd hright (hwrong k hk)

/-- The law says when the line is programmed to its end. -/
theorem retries_returns (h : Retries limit fl vals j n words accesses out) :
    out = .returned () ↔ VerifiesWithin limit vals n words := by
  induction h with
  | done j n => exact ⟨fun _ => trivial, fun _ => rfl⟩
  | @verified j n k data words accesses out hk hwrong hright _ ih =>
      rw [ih]
      constructor
      · intro hrest
        exact ⟨k, hk, hwrong, hright, hrest⟩
      · rintro ⟨k', -, hwrong', hright', hrest⟩
        obtain rfl := first_right hwrong hright hwrong' hright'
        exact hrest
  | failed hwrong =>
      constructor
      · intro hout
        exact nomatch hout
      · rintro ⟨k, hk, -, hright, -⟩
        exact absurd hright (hwrong k hk)

theorem attempts_add (fl : Word) (j : Nat) (data : Word) (vals : Nat → Word)
    (count more n : Nat) :
    attempts fl j data vals (count + more) n
      = attempts fl j data vals count n
          ++ attempts fl j data vals more (n + count) := by
  induction count generalizing n with
  | zero => rw [Nat.zero_add]; rfl
  | succ count ih =>
      rw [Nat.succ_add, attempts, attempts, ih, List.append_assoc,
        Nat.add_right_comm, Nat.add_assoc]

/-- Where a word fails, no law with a higher limit allows the same accesses:
    it asks for one more program setup where the device is reset. -/
theorem retries_differ {extra : Nat}
    (h : Retries limit fl vals j n words accesses out)
    (h' : Retries (limit + (extra + 1)) fl vals j n words accesses out) :
    VerifiesWithin limit vals n words := by
  induction h with
  | done j n => trivial
  | @verified j n k data words accesses out hk hwrong hright _ ih =>
      refine ⟨k, hk, hwrong, hright, ih ?_⟩
      generalize hacc : attempts fl j data vals (k + 1) n ++ accesses = acc at h'
      cases h' with
      | verified hk' hwrong' hright' hrest' =>
          obtain rfl := first_right hwrong hright hwrong' hright'
          rw [List.append_cancel_left hacc]
          exact hrest'
      | failed hwrong' => exact absurd hright (hwrong' k (by omega))
  | @failed j n data words hwrong =>
      exfalso
      generalize hacc : attempts fl j data vals limit n
        ++ [.write (index fl 0) flashReset, .write (index fl 0) flashReset]
        = acc at h'
      -- the next attempt would start where the reset is
      have hclash : ∀ count rest, limit < count →
          attempts fl j data vals limit n
            ++ [.write (index fl 0) flashReset, .write (index fl 0) flashReset]
          ≠ attempts fl j data vals count n ++ rest := by
        intro count rest hlt heq
        obtain ⟨more, rfl⟩ : ∃ more, count = limit + (more + 1) :=
          ⟨count - limit - 1, by omega⟩
        rw [attempts_add, List.append_assoc] at heq
        have hhead := (List.cons.inj (List.append_cancel_left heq)).1
        exact absurd (Access.write.inj hhead).2 (by decide)
      generalize hout : Outcome.exited exitFailure = out at h'
      cases h' with
      | @verified _ _ k _ _ accesses _ hk' hwrong' hright' hrest' =>
          rcases Nat.lt_or_ge k limit with hlt | hge
          · exact absurd hright' (hwrong k hlt)
          · exact hclash (k + 1) accesses (by omega) hacc
      | failed hwrong' => exact hclash _ _ (by omega) hacc

end Laws

/-- **FOUR ATTEMPTS, EXACTLY**: `prog_ep` follows the law of four attempts if
    and only if every word reads back within its first three. -/
theorem four_attempts_iff (vals : Nat → Word) (hexData : HexData)
    (wordCt : Nat) :
    RetryLaw 4 vals hexData wordCt ↔
      VerifiesWithin 3 vals 0 (lineWords hexData wordCt 1) := by
  have hcode := progEp_retries vals hexData wordCt
  constructor
  · intro h
    have horder : Retries (3 + (0 + 1)) _ _ _ _ _ _ _ := h.order
    exact retries_differ hcode horder
  · intro h
    have horder : Retries 4 _ _ _ _ _ _ _ := retries_raise (by decide) hcode h
    exact ⟨horder, retries_returns horder⟩

/-- A device that needs a fourth attempt. -/
def slowDevice (n : Nat) : Word := if n < 3 then 0xffffffff else 1

/-- **THE FOURTH ATTEMPT IS MISSING**: the word would read back in it, and the
    utility has exited with failure. -/
theorem slowDevice_given_up :
    VerifiesWithin 4 slowDevice 0 (lineWords #v[0x40000000, 1, 0, 0, 0] 1 1) ∧
      (progEpRun slowDevice #v[0x40000000, 1, 0, 0, 0] 1).1
        = .exited exitFailure ∧
      ¬ RetryLaw 4 slowDevice #v[0x40000000, 1, 0, 0, 0] 1 := by
  have hwithin : VerifiesWithin 4 slowDevice 0
      (lineWords #v[0x40000000, 1, 0, 0, 0] 1 1) :=
    ⟨3, by decide, by decide, by decide, trivial⟩
  have hexit : (progEpRun slowDevice #v[0x40000000, 1, 0, 0, 0] 1).1
      = .exited exitFailure := rfl
  refine ⟨hwithin, hexit, ?_⟩
  intro h
  exact nomatch hexit.symm.trans (h.returns.mpr hwithin)

end FlashAttempts
