import Ttm50.FlashSuccess

/-! # The mode of the flash at the exits

    `readable_iff`: a run of `high_pr` ends with the device in read mode if
    and only if the identification succeeds, `check_value( 0 )` finds zeros
    only, and programming does not fail outside the flash after a line inside.
    In the last case `prog_ep` resets through the address of its line, which
    the device does not see; `strayLine` is a file on which that happens. -/

namespace FlashExits

open CStdio InteractivePrograms FlashDriver FlashLines FlashRegister
open FlashModes FlashDevice FlashSuccess

/-! ## A file that leaves the flash -/

/-- One word at the base of the flash, and one behind its end. -/
def strayLine : List Char := "0 1 2 3 4\n80000 1 2 3 4\n".toList

example : fileWords strayLine
    = [(0x40000000, 0x04030201), (0x40080000, 0x04030201)] := by decide

/-- The first word reads back at once, the second one never. -/
example : strayFails false 3 (fileWords strayLine) [0x04030201, 0, 0, 0]
    = true := by decide

section Rules

variable {A : Type} {text : List Char} {E : Nat → Device → Prop}

/-- Outside the flash a perfect device takes no write. -/
theorem perf_write_outside {Q : Unit → Device → Prop} {a v : Word} {d : Device}
    (ha : cellOf a = none) :
    wp (perfect text) anything Q E (write a v) d ↔ Q () d := by
  have hin : inFlash a = false := by
    rw [inFlash, ha]
    rfl
  rw [perf_write, next_outside hin, storePerfect, ha]

/-- Outside the flash no attempt at a word succeeds. -/
theorem perf_progWord_outside {Q : Bool × Word → Device → Prop}
    {fl data epData : Word} {j left : Nat} {d : Device}
    (hfl : cellOf fl = none) (ha : cellOf (index fl (j - 1)) = none)
    (hmode : d.mode ≠ .idMode) (hdata : data ≠ 0)
    (hQ : ∀ epData, Q (true, epData) d) :
    wp (perfect text) anything Q E (progWord fl j data left true epData) d := by
  induction left generalizing epData with
  | zero => exact hQ epData
  | succ left ih =>
      have hread : readPerfect d (index fl (j - 1)) = 0 := by
        rw [readPerfect, if_neg hmode, ha]
      rw [progWord, if_pos rfl, index_zero]
      simp only [wp_bind, perf_write_outside hfl, perf_write_outside ha,
        perf_procWait, perf_read, hread]
      rw [decide_eq_true (Ne.symm hdata)]
      exact ih

end Rules

theorem strayLine_text (hexData : HexData) :
    hexText progEp strayLine hexData
      = progEp #v[0x40000000, 0x04030201, 0, 0, 0] 1 >>= fun _ =>
          progEp #v[0x40080000, 0x04030201, 0, 0, 0] 1 >>= fun _ => fclose := by
  have hlines : fgetsAll 256 strayLine
      = ["0 1 2 3 4\n".toList, "80000 1 2 3 4\n".toList] := by decide
  have hfirst : getLine (some "0 1 2 3 4\n".toList) hexData
      = pure (false, #v[0x40000000, 0x04030201, 0, 0, 0], 1) := rfl
  have hsecond : ∀ hexData, getLine (some "80000 1 2 3 4\n".toList) hexData
      = pure (false, #v[0x40080000, 0x04030201, 0, 0, 0], 1) := fun _ => rfl
  rw [hexText, hlines, readLines_cons, hfirst]
  show ((progEp _ 1 >>= fun _ => readLines progEp [_] _) >>= fun _ => fclose) = _
  rw [readLines_cons, hsecond, prog_bind_assoc]
  show (progEp _ 1 >>= fun _ => (progEp _ 1 >>= fun _ => pure ()) >>= fun _ =>
    fclose) = _
  simp only [prog_bind_assoc]
  rfl

/-- The first word is programmed; the second one fails, and the resets do not
    reach the device. -/
theorem perf_strayLine (f : Unit → Flash Unit) :
    wp (perfect strayLine) anything (fun _ _ => False)
      (fun x d => x = exitFailure ∧ d.mode = .programVerify)
      (progHf blankHexData >>= f) ⟨.readMode, fun _ => 0xffffffff⟩ := by
  rw [progHf, hexFile, prog_bind_assoc]
  refine ⟨trivial, ?_⟩
  rintro r d ⟨rfl, rfl⟩
  show wp _ _ _ _ (hexText progEp strayLine blankHexData >>= f) _
  rw [strayLine_text, prog_bind_assoc, wp_bind, progEp_words]
  -- the word inside
  show wp _ _ _ _ (epWord _ 1 >>= fun _ => pure ()) _
  rw [wp_bind, epWord, wp_bind]
  have hcell : cellOf 0x40000000 = some 0 := by decide
  refine perf_progWord (hcell) (hcell) (Or.inl rfl) (by decide) ?_
  -- the word outside
  show wp _ _ _ _ ((progEp _ 1 >>= fun _ => fclose) >>= f) _
  rw [prog_bind_assoc, wp_bind, progEp_words]
  show wp _ _ _ _ (epWord _ 1 >>= fun _ => pure ()) _
  have hout : cellOf 0x40080000 = none := by decide
  rw [wp_bind, epWord, wp_bind]
  refine perf_progWord_outside hout hout (by simp) (by decide) ?_
  intro epData
  simp only [if_true, wp_bind]
  refine perf_of_dev ((dev_printf _ _ _).mpr ?_)
  have hreset : cellOf (index (lineAddress
      #v[0x40080000, 0x04030201, 0, 0, 0]) 0) = none := by decide
  rw [wp_bind, perf_write_outside hreset, wp_bind, perf_write_outside hreset]
  exact ⟨rfl, rfl⟩

/-! ## The exits -/

/-- **THE MODE AT THE EXIT, EXACTLY**: a run of `high_pr` ends with the device
    in read mode if and only if all its identifier reads are right, all its
    reads of `check_value( 0 )` are zero, and programming does not fail at a
    line outside the flash after a line inside. -/
theorem readable_iff {stack stack' : HexData} {mode mode' : Mode}
    {tr : FlashTrace} {x : Nat}
    (hr : HighPrRun stack stack' mode tr (.exited x) mode') :
    mode' = .readMode ↔ IdentOk tr ∧ ZeroOk tr ∧ StrayOk tr :=
  (verdict_of_run hr).2.1

/-- On a perfect device the file `strayLine` leaves program-verify mode
    behind, and only the third condition fails. -/
theorem readable_iff_strayLine :
    ∃ tr, HighPrRun blankHexData blankHexData .readMode tr
        (.exited exitFailure) .programVerify ∧
      IdentOk tr ∧ ZeroOk tr ∧ ¬ StrayOk tr := by
  obtain ⟨tr₁, array, tr₂, -, hrun⟩ := perfect_to_file strayLine blankHexData
    blankHexData (d := ⟨.readMode, fun _ => 0⟩) (by simp [Settled])
  obtain ⟨tr, out, d, hfile, hout⟩ := run_exists (perfect_total strayLine)
    (progHf blankHexData >>= fun _ => checkAll blankHexData)
    ⟨.readMode, fun _ => 0xffffffff⟩
  have hmeets := wp_post (perf_strayLine _) hfile
  have hopened : (⟨.fopen, some strayLine⟩ : (o : FlashOp) × o.Res) ∈ tr := by
    cases hfile with
    | stop => exact absurd rfl hout
    | op he _ => exact he.2 ▸ List.mem_cons_self
  cases out with
  | running => exact absurd rfl hout
  | returned a => exact hmeets.elim
  | exited x =>
      obtain ⟨rfl, hmode⟩ := hmeets
      have hdevice := hrun _ _ _ hfile
      have hregister : watched Mode.next .readMode _ = d.mode :=
        watched_image (f := Device.mode)
          (fun _ _ _ _ h => device_next (perfect_device strayLine _ _ _ _ h))
          hdevice
      have hr := watching_swap Mode.next hdevice .readMode
      rw [hregister, hmode] at hr
      obtain ⟨hident, hzero⟩ := (verdict_of_run hr).2.2 (openedFile_mem
        (List.mem_append_right _ (List.mem_cons_of_mem _ (List.mem_cons_of_mem _
          (List.mem_append_right _ hopened)))))
      refine ⟨_, hr, hident, hzero, ?_⟩
      intro hstray
      have hmode : Mode.programVerify ≠ .readMode := by decide
      exact hmode ((readable_iff hr).mpr ⟨hident, hzero, hstray⟩)

/-- **AN EXIT IN ID MODE**: without power the utility ends with the device in
    ID mode. -/
theorem left_in_id_mode :
    ∃ tr, HighPrRun blankHexData blankHexData .readMode tr
      (.exited exitFailure) .idMode :=
  ⟨_, answered_run Mode.next deadDevice
    (highPr blankHexData blankHexData) .readMode⟩

end FlashExits
