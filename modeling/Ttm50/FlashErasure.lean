import Ttm50.FlashAttempts

/-! # The verdict of `erase`

    For every sequence of values that the device returns, the accesses of
    `erase` are attempts followed by the read command.  An attempt is an erase
    pulse and a sweep: erase verify and read, word after word, up to the first
    word that is not erased.  All attempts but the last have failed, and the
    utility goes on after the last one if and only if its sweep went over all
    words. -/

namespace FlashErasure

open CStdio InteractivePrograms FlashDriver FlashAttempts

/-! ## Attempts -/

/-- What an erased word reads. -/
def erasedWord : Word := 0xffffffff

/-- The accesses of a sweep from word `j` on that reads these values. -/
def sweepAccesses : Nat → List Word → List Access
  | _, [] => []
  | j, value :: values =>
      .write (flEprom j) flashEraseVerify :: .read (flEprom j) value ::
        sweepAccesses (j + 1) values

/-- The accesses of an attempt whose sweep reads these values. -/
def attemptAccesses (values : List Word) : List Access :=
  .write (flEprom 0) flashEraseSetup :: .write (flEprom 0) flashErase ::
    sweepAccesses 0 values

/-- All words read as erased. -/
def SweepComplete (values : List Word) : Prop :=
  values = List.replicate flashWordSize erasedWord

/-- The last value is of a word that is not erased, those before are. -/
def SweepFailed (values : List Word) : Prop :=
  ∃ good bad, good < flashWordSize ∧ bad ≠ erasedWord ∧
    values = List.replicate good erasedWord ++ [bad]

/-- The `count` values of the device from number `n` on. -/
def valuesFrom (vals : Nat → Word) : (count n : Nat) → List Word
  | 0, _ => []
  | count + 1, n => vals n :: valuesFrom vals count (n + 1)

theorem valuesFrom_add (vals : Nat → Word) (count more n : Nat) :
    valuesFrom vals (count + more) n
      = valuesFrom vals count n ++ valuesFrom vals more (n + count) := by
  induction count generalizing n with
  | zero => rw [Nat.zero_add]; rfl
  | succ count ih =>
      rw [Nat.succ_add, valuesFrom, valuesFrom, ih, Nat.add_right_comm,
        Nat.add_assoc]
      rfl

/-- How `erase` ends, and what it has accessed. -/
def eraseRun (vals : Nat → Word) : Outcome Nat Unit × Session :=
  play (feed vals) erase Session.start

/-- The run of `erase` consists of the attempts `failed` and the `last`. -/
structure EraseVerdict (vals : Nat → Word) (failed : List (List Word))
    (last : List Word) : Prop where
  pulses : failed.length + 1 ≤ 999
  before : ∀ values ∈ failed, SweepFailed values
  ending : SweepComplete last ∨ SweepFailed last
  accesses : (eraseRun vals).2.accesses
    = (failed ++ [last]).flatMap attemptAccesses
        ++ [.write (flEprom 0) flashReadMemory]
  values : (failed ++ [last]).flatten = valuesFrom vals (eraseRun vals).2.reads 0
  returns : (eraseRun vals).1 = .returned () ↔ SweepComplete last
  exits : (eraseRun vals).1 = .exited exitFailure ↔ ¬ SweepComplete last

/-! ## A sweep -/

section Code

variable {vals : Nat → Word} {E : Nat → Session → Prop}

/-- What a sweep from word `j` on, with `left` words to go, returns when it
    reads these values. -/
def SweepResult (left j : Nat) (values : List Word) (found : Nat × Nat) :
    Prop :=
  (found = (0, j + left) ∧ values = List.replicate left erasedWord) ∨
    ∃ good bad, good < left ∧ bad ≠ erasedWord ∧ found = (1, j + good) ∧
      values = List.replicate good erasedWord ++ [bad]

theorem serves_eraseVerify {Q : Nat × Nat → Session → Prop} {left j : Nat}
    {s : Session}
    (hQ : ∀ found values, SweepResult left j values found →
      values = valuesFrom vals values.length s.reads →
      Q found ⟨s.reads + values.length, s.accesses ++ sweepAccesses j values⟩) :
    Serves vals Q E (eraseVerify left j) s := by
  induction left generalizing j s with
  | zero =>
      have h := hQ (0, j) [] (Or.inl ⟨rfl, rfl⟩) rfl
      rw [sweepAccesses, List.append_nil] at h
      exact h
  | succ left ih =>
      have hacc : ∀ values, s.accesses ++ [.write (flEprom j) flashEraseVerify]
            ++ [.read (flEprom j) (vals s.reads)] ++ sweepAccesses (j + 1) values
          = s.accesses ++ sweepAccesses j (vals s.reads :: values) := by
        intro values
        simp [sweepAccesses]
      rw [eraseVerify]
      simp only [wp_bind, serves_write, serves_procWait, serves_read]
      split
      · rename_i hbad
        -- the first word that is not erased ends the sweep
        have h := hQ (1, j) [vals s.reads]
          (Or.inr ⟨0, vals s.reads, Nat.succ_pos left, hbad, rfl, rfl⟩) rfl
        rw [← hacc, sweepAccesses, List.append_nil] at h
        exact h
      · rename_i hgood
        have hvalue : vals s.reads = erasedWord := Decidable.not_not.mp hgood
        refine ih ?_
        intro found values hfound hvalues
        have hreads : s.reads + 1 + values.length
            = s.reads + (vals s.reads :: values).length := by
          rw [List.length_cons]
          omega
        rw [hacc, hreads]
        refine hQ found (vals s.reads :: values) ?_ ?_
        · rw [hvalue]
          rcases hfound with ⟨rfl, rfl⟩ | ⟨good, bad, hlt, hbad, rfl, rfl⟩
          · refine Or.inl ⟨?_, rfl⟩
            rw [Nat.add_right_comm, Nat.add_assoc]
          · refine Or.inr ⟨good + 1, bad, by omega, hbad, ?_, rfl⟩
            rw [Nat.add_right_comm, Nat.add_assoc]
        · exact congrArg (vals s.reads :: ·) hvalues

/-! ## The attempts -/

/-- A row of failed attempts and a last one that `erase` can come to with
    `limit` attempts, and the word it has stopped at. -/
structure Attempted (limit : Nat) (failed : List (List Word))
    (last : List Word) (j : Nat) : Prop where
  pulses : failed.length + 1 ≤ limit
  before : ∀ values ∈ failed, SweepFailed values
  ending : (j = flashWordSize ∧ SweepComplete last) ∨
    (j < flashWordSize ∧ SweepFailed last)

/-- Once nothing has failed, the loop over the attempts ends. -/
theorem eraseLoop_verified (left j : Nat) : eraseLoop left 0 j = pure j := by
  cases left <;> rfl

/-- One attempt, and what the loop does after it. -/
theorem serves_attempt {Q : Nat → Session → Prop} {left j : Nat} {s : Session}
    (hQ : ∀ found values, SweepResult flashWordSize 0 values found →
      values = valuesFrom vals values.length s.reads →
      Serves vals Q E (eraseLoop left found.1 found.2)
        ⟨s.reads + values.length, s.accesses ++ attemptAccesses values⟩) :
    Serves vals Q E (eraseLoop (left + 1) 1 j) s := by
  rw [eraseLoop, if_pos (by decide)]
  simp only [wp_bind, serves_write, serves_procWait]
  refine serves_eraseVerify ?_
  intro found values hfound hvalues
  have h := hQ found values hfound hvalues
  have hacc : s.accesses ++ [.write (flEprom 0) flashEraseSetup]
        ++ [.write (flEprom 0) flashErase] ++ sweepAccesses 0 values
      = s.accesses ++ attemptAccesses values := by
    simp [attemptAccesses]
  rw [hacc]
  exact h

theorem attempted_complete {limit : Nat} {values : List Word}
    (h : SweepComplete values) :
    Attempted (limit + 1) [] values (0 + flashWordSize) where
  pulses := Nat.succ_pos limit
  before := fun _ h => absurd h List.not_mem_nil
  ending := Or.inl ⟨Nat.zero_add _, h⟩

theorem attempted_failed {limit good : Nat} {values : List Word}
    (hgood : good < flashWordSize) (h : SweepFailed values) :
    Attempted (limit + 1) [] values (0 + good) where
  pulses := Nat.succ_pos limit
  before := fun _ h => absurd h List.not_mem_nil
  ending := Or.inr ⟨by rw [Nat.zero_add]; exact hgood, h⟩

theorem attempted_cons {limit j : Nat} {values last : List Word}
    {failed : List (List Word)} (hvalues : SweepFailed values)
    (h : Attempted limit failed last j) :
    Attempted (limit + 1) (values :: failed) last j where
  pulses := Nat.succ_le_succ h.pulses
  before := List.forall_mem_cons.mpr ⟨hvalues, h.before⟩
  ending := h.ending

/-- The loop over the attempts, at most `left + 1` of them. -/
theorem serves_eraseLoop {Q : Nat → Session → Prop} {left j : Nat}
    {s : Session}
    (hQ : ∀ failed last j', Attempted (left + 1) failed last j' →
      (failed ++ [last]).flatten
        = valuesFrom vals (failed ++ [last]).flatten.length s.reads →
      Q j' ⟨s.reads + (failed ++ [last]).flatten.length,
        s.accesses ++ (failed ++ [last]).flatMap attemptAccesses⟩) :
    Serves vals Q E (eraseLoop (left + 1) 1 j) s := by
  have hsingle : ∀ values : List Word, ([] ++ [values]).flatten = values :=
    fun values => List.append_nil values
  have haccess : ∀ values : List Word,
      ([] ++ [values]).flatMap attemptAccesses = attemptAccesses values :=
    fun values => List.append_nil _
  induction left generalizing j s with
  | zero =>
      refine serves_attempt ?_
      intro found values hfound hvalues
      have h : ∀ j', Attempted 1 [] values j' → Q j' _ := fun j' hj =>
        hQ [] values j' hj (by rw [hsingle]; exact hvalues)
      rw [hsingle, haccess] at h
      rcases hfound with ⟨rfl, hcomplete⟩ | ⟨good, bad, hlt, hbad, rfl, hfailed⟩
      · exact h _ (attempted_complete hcomplete)
      · exact h _ (attempted_failed hlt ⟨good, bad, hlt, hbad, hfailed⟩)
  | succ left ih =>
      refine serves_attempt ?_
      intro found values hfound hvalues
      rcases hfound with ⟨rfl, hcomplete⟩ | ⟨good, bad, hlt, hbad, rfl, hfailed⟩
      -- a complete sweep leaves no failure, and the loop ends
      · have h := hQ [] values _ (attempted_complete hcomplete)
          (by rw [hsingle]; exact hvalues)
        rw [hsingle, haccess] at h
        rw [eraseLoop_verified]
        exact h
      · refine ih ?_
        intro failed last j' hrest hreads
        have h := hQ (values :: failed) last j'
          (attempted_cons ⟨good, bad, hlt, hbad, hfailed⟩ hrest)
        rw [List.cons_append, List.flatten_cons, List.flatMap_cons,
          List.length_append, valuesFrom_add, ← hvalues, ← hreads,
          ← List.append_assoc, ← Nat.add_assoc] at h
        exact h rfl

/-! ## The whole of `erase` -/

/-- `erase`, started in `s`, has ended in `s'` after these attempts. -/
structure Ended (vals : Nat → Word) (s : Session) (failed : List (List Word))
    (last : List Word) (out : Outcome Nat Unit) (s' : Session) : Prop where
  pulses : failed.length + 1 ≤ 999
  before : ∀ values ∈ failed, SweepFailed values
  values : (failed ++ [last]).flatten
    = valuesFrom vals (failed ++ [last]).flatten.length s.reads
  session : s' = ⟨s.reads + (failed ++ [last]).flatten.length,
    s.accesses ++ (failed ++ [last]).flatMap attemptAccesses
      ++ [.write (flEprom 0) flashReadMemory]⟩
  verdict : (out = .returned () ∧ SweepComplete last) ∨
    (out = .exited exitFailure ∧ SweepFailed last)

theorem serves_erase (s : Session) :
    Serves vals
      (fun _ s' => ∃ failed last, Ended vals s failed last (.returned ()) s')
      (fun x s' => ∃ failed last, Ended vals s failed last (.exited x) s')
      erase s := by
  rw [erase]
  refine (wp_bind _ _ s).mpr (serves_eraseLoop ?_)
  intro failed last j h hvalues
  refine (wp_bind _ _ _).mpr ((serves_write _ _ _).mpr ?_)
  -- `j` tells whether the last sweep was complete
  split
  · rename_i hj
    rcases h.ending with ⟨-, hcomplete⟩ | ⟨hlt, -⟩
    · exact ⟨failed, last, h.pulses, h.before, hvalues, rfl,
        Or.inl ⟨rfl, hcomplete⟩⟩
    · exact absurd hj (Nat.ne_of_lt hlt)
  · rename_i hj
    simp only [wp_bind, serves_printf, wp_exit]
    rcases h.ending with ⟨heq, -⟩ | ⟨-, hfailed⟩
    · exact absurd heq hj
    · exact ⟨failed, last, h.pulses, h.before, hvalues, rfl,
        Or.inr ⟨rfl, hfailed⟩⟩

end Code

/-- A failed sweep is not complete. -/
theorem sweepFailed_not_complete {values : List Word} (h : SweepFailed values) :
    ¬ SweepComplete values := by
  obtain ⟨good, bad, -, hbad, rfl⟩ := h
  intro hcomplete
  have hmem : bad ∈ List.replicate flashWordSize erasedWord := by
    rw [← hcomplete]
    exact List.mem_append_right _ List.mem_cons_self
  exact hbad (List.eq_of_mem_replicate hmem)

theorem erase_ended (vals : Nat → Word) :
    ∃ failed last, Ended vals Session.start failed last (eraseRun vals).1
      (eraseRun vals).2 := by
  have hserves : Serves vals _ _ erase Session.start := serves_erase _
  have hmeets := play_meets hserves
  rw [eraseRun]
  cases hout : (play (feed vals) erase Session.start).1 with
  | running => exact absurd hout (play_complete _ _ _)
  | returned | exited =>
      rw [hout] at hmeets
      exact hmeets

/-- **THE VERDICT OF ERASE**: whatever values the device returns, `erase` ends
    after at most 999 attempts, all failed but perhaps the last; it returns
    exactly when the last sweep went over all words, exits with failure
    otherwise, and has put the device back to reading. -/
theorem erase_verdict (vals : Nat → Word) :
    ∃ failed last, EraseVerdict vals failed last := by
  obtain ⟨failed, last, h⟩ := erase_ended vals
  refine ⟨failed, last, ?_⟩
  have haccesses := congrArg Session.accesses h.session
  have hreads : (failed ++ [last]).flatten
      = valuesFrom vals (eraseRun vals).2.reads 0 := by
    have hcount := congrArg Session.reads h.session
    rw [show Session.start.reads = 0 from rfl, Nat.zero_add] at hcount
    rw [hcount]
    exact h.values
  rcases h.verdict with ⟨hout, hcomplete⟩ | ⟨hout, hfailed⟩
  · refine ⟨h.pulses, h.before, Or.inl hcomplete, haccesses, hreads, ?_, ?_⟩
    · exact iff_of_true hout hcomplete
    · rw [hout]
      exact iff_of_false (fun h => nomatch h) (not_not_intro hcomplete)
  · have hnot := sweepFailed_not_complete hfailed
    refine ⟨h.pulses, h.before, Or.inr hfailed, haccesses, hreads, ?_, ?_⟩
    · rw [hout]
      exact iff_of_false (fun h => nomatch h) hnot
    · exact iff_of_true hout hnot

end FlashErasure
