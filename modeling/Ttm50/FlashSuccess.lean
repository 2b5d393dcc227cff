import Ttm50.FlashDevice

/-! # When the utility succeeds

    `programmed_file`: on any device that follows the device model the success
    message means that the array holds the file.

    Success is possible (`legal_succeeds`): a PERFECT device, on which every
    pair clears all the zero bits of its data and every erase sets all bits,
    is programmed by every legal file.  A file is legal when its lines are
    accepted or blank, lie inside the window and agree with each other. -/

namespace FlashSuccess

open CStdio InteractivePrograms FlashDriver FlashLines FlashRegister
open FlashModes FlashDevice

/-! ## The perfect device -/

/-- What a write leaves in the array of a perfect device. -/
def storePerfect (d : Device) (a v : Word) : Nat → Word :=
  match cellOf a with
  | none => d.array
  | some i =>
      if d.mode = .programSetup then
        Function.update d.array i (d.array i &&& v)
      else if d.mode = .eraseSetup ∧ v = flashErase then fun _ => 0xffffffff
      else d.array

/-- What a perfect device answers to a read. -/
def readPerfect (d : Device) (a : Word) : Word :=
  if d.mode = .idMode then idCode a
  else match cellOf a with
    | none => 0
    | some i => d.array i

/-- A perfect device, with a file that can be opened. -/
def perfect (text : List Char) : Env FlashOp FlashOp.Res Device
  | d, .read _ a, r, d' => d' = d ∧ r = readPerfect d a
  | d, .write a v, _, d' =>
      d' = ⟨d.mode.next (.write a v) (), storePerfect d a v⟩
  | d, .procWait _, _, d' => d' = d
  | d, .printf _ _, _, d' => d' = d
  | d, .fopen, r, d' => d' = d ∧ r = some text
  | d, .fclose, _, d' => d' = d

theorem storePerfect_stored {d : Device} {a : Word} {i : Nat}
    (hi : cellOf a = some i) (v : Word) : Stored d i v (storePerfect d a v) := by
  rw [Stored, storePerfect, hi]
  by_cases hp : d.mode = .programSetup
  · simp only [if_pos hp]
    refine ⟨⟨?_, ?_⟩, ?_⟩
    · rw [Function.update_self, BitVec.and_assoc, BitVec.and_comm v,
        ← BitVec.and_assoc, BitVec.and_self]
    · rw [Function.update_self, BitVec.and_self]
    · intro k hk
      exact Function.update_of_ne hk _ _
  · simp only [if_neg hp]
    by_cases he : d.mode = .eraseSetup ∧ v = flashErase
    · simp only [if_pos he]
      intro k
      show d.array k &&& 0xffffffff = d.array k
      exact BitVec.and_allOnes
    · simp only [if_neg he]

/-- A perfect device follows the device model. -/
theorem perfect_device (text : List Char) (d : Device) (o : FlashOp)
    (r : o.Res) (d' : Device) (h : perfect text d o r d') :
    device text d o r d' := by
  cases o with
  | read site a =>
      obtain ⟨rfl, rfl⟩ := h
      refine ⟨rfl, fun i hi => ⟨rfl, fun hm => ?_⟩⟩
      rw [readPerfect, if_neg hm, hi]
  | write a v =>
      obtain rfl : d' = ⟨d.mode.next (.write a v) (), storePerfect d a v⟩ := h
      exact ⟨rfl, fun i hi => storePerfect_stored hi v⟩
  | fopen => exact ⟨h.1, Or.inr h.2⟩
  | procWait | printf | fclose => exact h

theorem perfect_total (text : List Char) (d : Device) (o : FlashOp) :
    ∃ r d', perfect text d o r d' := by
  cases o with
  | read site a => exact ⟨_, d, rfl, rfl⟩
  | fopen => exact ⟨_, d, rfl, rfl⟩
  | write | procWait | printf | fclose => exact ⟨(), _, rfl⟩

section Rules

variable {A : Type} {text : List Char} {E : Nat → Device → Prop}

/-- What holds for every device holds for a perfect one. -/
theorem perf_of_dev {Q : A → Device → Prop} {p : Flash A} {d : Device}
    (h : wp (device text) anything Q E p d) :
    wp (perfect text) anything Q E p d :=
  wp_env_mono (perfect_device text) h

theorem perf_write {Q : Unit → Device → Prop} (a v : Word) (d : Device) :
    wp (perfect text) anything Q E (write a v) d ↔
      Q () ⟨d.mode.next (.write a v) (), storePerfect d a v⟩ := by
  constructor
  · rintro ⟨-, h⟩
    exact h () _ rfl
  · intro h
    refine ⟨trivial, ?_⟩
    rintro r d' rfl
    exact h

@[simp] theorem perf_read {Q : Word → Device → Prop} (site : Site) (a : Word)
    (d : Device) :
    wp (perfect text) anything Q E (read site a) d ↔ Q (readPerfect d a) d := by
  constructor
  · rintro ⟨-, h⟩
    exact h _ d ⟨rfl, rfl⟩
  · intro h
    refine ⟨trivial, ?_⟩
    rintro r d' ⟨rfl, rfl⟩
    exact h

@[simp] theorem perf_procWait {Q : Unit → Device → Prop} (us : Nat)
    (d : Device) :
    wp (perfect text) anything Q E (procWait us) d ↔ Q () d := by
  constructor
  · rintro ⟨-, h⟩
    exact h () d rfl
  · intro h
    exact perf_of_dev ((dev_procWait us d).mpr h)

theorem storePerfect_command {d : Device} {a v : Word}
    (hp : d.mode ≠ .programSetup) (he : d.mode ≠ .eraseSetup) :
    storePerfect d a v = d.array := by
  rw [storePerfect]
  split
  · rfl
  · rw [if_neg hp, if_neg (fun h => he h.1)]

theorem storePerfect_data {d : Device} {a v : Word} {i : Nat}
    (hi : cellOf a = some i) (hp : d.mode = .programSetup) :
    storePerfect d a v = Function.update d.array i (d.array i &&& v) := by
  rw [storePerfect, hi]
  simp only [if_pos hp]

theorem readPerfect_cell {d : Device} {a : Word} {i : Nat}
    (hi : cellOf a = some i) (hm : d.mode ≠ .idMode) :
    readPerfect d a = d.array i := by
  rw [readPerfect, if_neg hm, hi]

/-- A write to a word of the array. -/
theorem perf_write_cell {Q : Unit → Device → Prop} {a v : Word} {d : Device}
    {i : Nat} (hi : cellOf a = some i) :
    wp (perfect text) anything Q E (write a v) d ↔
      Q () ⟨d.mode.write v, storePerfect d a v⟩ := by
  rw [perf_write, next_inside (inFlash_of_cell hi)]

/-- A command that neither programs nor erases. -/
theorem perf_command {Q : Unit → Device → Prop} {a v : Word} {d : Device}
    {i : Nat} (hi : cellOf a = some i)
    (hp : d.mode ≠ .programSetup) (he : d.mode ≠ .eraseSetup)
    (hQ : Q () ⟨d.mode.write v, d.array⟩) :
    wp (perfect text) anything Q E (write a v) d := by
  rw [perf_write_cell hi, storePerfect_command hp he]
  exact hQ

/-- A perfect device is identified. -/
theorem perf_readII {Q : Unit → Device → Prop} {d : Device}
    (hmode : Settled d.mode) (hQ : Q () ⟨.idMode, d.array⟩) :
    wp (perfect text) anything Q E readII d := by
  have hfirst : cellOf (flEprom 0) = some 0 := cellOf_flEprom (by decide)
  rw [readII, wp_bind]
  refine perf_command hfirst hmode.1 hmode.2.1 ?_
  rw [settled_write hmode, wp_bind]
  refine perf_command hfirst (by simp) (by simp) ?_
  rw [wp_bind, perf_procWait, wp_bind]
  refine perf_command hfirst (by simp) (by simp) ?_
  rw [wp_bind, perf_procWait, wp_bind, perf_read, wp_bind, perf_read]
  exact hQ

/-- One attempt clears a word. -/
theorem perf_zeroWord {Q : Unit → Device → Prop} {j : Nat} {d : Device}
    (hj : j < flashWordSize) (hmode : Programming d.mode)
    (hQ : Q () ⟨.programVerify, Function.update d.array j 0⟩) :
    wp (perfect text) anything Q E (zeroWord j 3 0xffffffff) d := by
  have hset := settled_programming hmode
  have hcell := cellOf_flEprom hj
  have hfirst : cellOf (flEprom 0) = some 0 := cellOf_flEprom (by decide)
  rw [zeroWord, if_pos (by decide), wp_bind]
  refine perf_command hfirst hset.1 hset.2.1 ?_
  have hstore : storePerfect ⟨.programSetup, d.array⟩ (flEprom j) 0
      = Function.update d.array j 0 := by
    rw [storePerfect_data hcell rfl]
    exact congrArg _ BitVec.and_zero
  have hread : readPerfect ⟨.programVerify, Function.update d.array j 0⟩
      (flEprom j) = 0 := by
    rw [readPerfect_cell hcell (by simp)]
    exact Function.update_self ..
  rw [settled_write hset, wp_bind, perf_write_cell hcell]
  show wp _ _ _ _ _ (Device.mk _ (storePerfect ⟨.programSetup, _⟩ _ _))
  rw [hstore, wp_bind, perf_procWait, wp_bind]
  refine perf_command hfirst (by simp) (by simp) ?_
  rw [wp_bind, perf_procWait, wp_bind, perf_read]
  show wp _ _ _ _ (zeroWord j 2 (readPerfect ⟨.programVerify, _⟩ _)) _
  rw [hread]
  exact hQ

theorem perf_progTo0 {Q : Unit → Device → Prop} {d : Device}
    (hmode : Programming d.mode)
    (hQ : ∀ d' : Device, Programming d'.mode →
      (∀ k, k < flashWordSize → d'.array k = 0) → Q () d') :
    wp (perfect text) anything Q E progTo0 d := by
  refine wp_mono ?_ (wp_forRange (I := fun j (d' : Device) =>
    Programming d'.mode ∧ ∀ k, k < j → d'.array k = 0) ?_ ?_)
  · rintro _ d' ⟨hm, hall⟩
    refine hQ d' hm (fun k hk => hall k ?_)
    rw [Nat.zero_add]
    exact hk
  · rintro j d' - hlt ⟨hm, hall⟩
    rw [Nat.zero_add] at hlt
    refine perf_zeroWord hlt hm ⟨Or.inr (Or.inl rfl), ?_⟩
    intro k hk
    show Function.update d'.array j 0 k = 0
    by_cases hkj : k = j
    · rw [hkj, Function.update_self]
    · rw [Function.update_of_ne hkj]
      exact hall k (by omega)
  · exact ⟨hmode, fun k hk => absurd hk (Nat.not_lt_zero k)⟩

/-- The verify loop passes over erased words. -/
theorem perf_eraseVerify {Q : Nat × Nat → Device → Prop} {left j : Nat}
    {d : Device} (hend : j + left = flashWordSize)
    (hmode : d.mode = .erase ∨ d.mode = .eraseVerify)
    (hones : ∀ k, d.array k = 0xffffffff)
    (hQ : ∀ mode, mode = .erase ∨ mode = .eraseVerify →
      Q (0, flashWordSize) ⟨mode, d.array⟩) :
    wp (perfect text) anything Q E (eraseVerify left j) d := by
  induction left generalizing j d with
  | zero =>
      obtain rfl : j = flashWordSize := hend
      exact hQ d.mode hmode
  | succ left ih =>
      have hcell : cellOf (flEprom j) = some j := cellOf_flEprom (by omega)
      have hset : d.mode.write flashEraseVerify = .eraseVerify := by
        rcases hmode with h | h <;> rw [h] <;> rfl
      rw [eraseVerify, wp_bind]
      refine perf_command hcell ?_ ?_ ?_
      · rcases hmode with h | h <;> simp [h]
      · rcases hmode with h | h <;> simp [h]
      have hread : readPerfect ⟨.eraseVerify, d.array⟩ (flEprom j)
          = 0xffffffff := by
        rw [readPerfect_cell hcell (by simp)]
        exact hones j
      rw [hset, wp_bind, perf_procWait, wp_bind, perf_read, hread,
        if_neg (not_not_intro rfl)]
      exact ih (by omega) (Or.inr rfl) hones hQ

/-- One erase is enough. -/
theorem perf_erase {Q : Unit → Device → Prop} {d : Device}
    (hmode : d.mode = .readMode)
    (hQ : Q () ⟨.readMode, fun _ => 0xffffffff⟩) :
    wp (perfect text) anything Q E erase d := by
  have hcell : cellOf (flEprom 0) = some 0 := cellOf_flEprom (by decide)
  rw [erase, wp_bind, eraseLoop, if_pos (by decide), wp_bind]
  refine perf_command hcell ?_ ?_ ?_
  · rw [hmode]
    simp
  · rw [hmode]
    simp
  have herase : storePerfect ⟨.eraseSetup, d.array⟩ (flEprom 0) flashErase
      = fun _ => 0xffffffff := by
    rw [storePerfect, hcell]
    rfl
  rw [hmode, wp_bind, perf_write_cell hcell]
  show wp _ _ _ _ _ (Device.mk _ (storePerfect ⟨.eraseSetup, _⟩ _ _))
  rw [herase, wp_bind, perf_procWait, wp_bind]
  refine perf_eraseVerify (Nat.zero_add _) (Or.inl rfl) (fun _ => rfl) ?_
  intro mode hm
  have hp : mode ≠ .programSetup := by
    rcases hm with h | h <;> simp [h]
  have he : mode ≠ .eraseSetup := by
    rcases hm with h | h <;> simp [h]
  have hback : mode.write flashReadMemory = .readMode := by
    rcases hm with h | h <;> rw [h] <;> rfl
  -- the first attempt has succeeded: the loop ends
  show wp _ _ _ _ (eraseLoop 998 0 flashWordSize) _
  rw [eraseLoop, if_neg (by decide)]
  show wp _ _ _ _ (write _ _ >>= fun _ => _) _
  rw [wp_bind]
  refine perf_command hcell hp he ?_
  rw [hback, if_pos rfl]
  exact hQ

/-! ## Legal files on a perfect device -/

/-- The lines are accepted or blank, lie inside the window, and agree on the
    words that several of them name. -/
structure Legal (text : List Char) : Prop where
  lines : ∀ line ∈ fgetsAll 256 text,
    (∃ l, decodeLine line = some l) ∨ allSpace line = true
  window : ∀ line ∈ decoded text, LineInWindow line
  agree : ∀ i v v', Names text i v → Names text i v' → v = v'

/-- The array holds the values `N` and is erased elsewhere. -/
def Held (N : Nat → Word → Prop) (array : Nat → Word) : Prop :=
  ∀ i, (∀ v, N i v → array i = v) ∧ ((∀ v, ¬ N i v) → array i = 0xffffffff)

/-- Programming one more value: no bit has to be set for it. -/
theorem held_program {N : Nat → Word → Prop} {array : Nat → Word} {i₀ : Nat}
    {v₀ : Word} (h : Held N array) (hagree : ∀ v, N i₀ v → v = v₀) :
    array i₀ &&& v₀ = v₀ ∧
      Held (fun i v => N i v ∨ i = i₀ ∧ v = v₀)
        (Function.update array i₀ v₀) := by
  constructor
  -- a word named before holds the same value; another one is erased
  · by_cases hN : ∃ v, N i₀ v
    · obtain ⟨v, hv⟩ := hN
      rw [(h i₀).1 v hv, hagree v hv, BitVec.and_self]
    · rw [(h i₀).2 (fun v hv => hN ⟨v, hv⟩)]
      exact BitVec.allOnes_and
  · intro i
    by_cases hi : i = i₀
    · subst hi
      rw [Function.update_self]
      constructor
      · rintro v (hv | ⟨-, hv⟩)
        · exact (hagree v hv).symm
        · exact hv.symm
      · intro hno
        exact absurd (Or.inr ⟨rfl, rfl⟩) (hno v₀)
    · rw [Function.update_of_ne hi]
      constructor
      · rintro v (hv | ⟨hv, -⟩)
        · exact (h i).1 v hv
        · exact absurd hv hi
      · intro hno
        exact (h i).2 (fun v hv => hno v (Or.inl hv))

theorem held_congr {N N' : Nat → Word → Prop} {array : Nat → Word}
    (hN : ∀ i v, N i v ↔ N' i v) (h : Held N array) : Held N' array := by
  intro i
  constructor
  · intro v hv
    exact (h i).1 v ((hN i v).mpr hv)
  · intro hno
    exact (h i).2 (fun v hv => hno v ((hN i v).mp hv))

/-- What the lines `done` name. -/
def NamesIn (done : List (HexData × Nat)) (i : Nat) (v : Word) : Prop :=
  ∃ line ∈ done, LineNames line i v

/-- What the words of a line before word `j` name. -/
def NamesBefore (line : HexData × Nat) (j i : Nat) (v : Word) : Prop :=
  ∃ k, 1 ≤ k ∧ k < j ∧ cellOf (index (lineAddress line.1) (k - 1)) = some i ∧
    line.1.getD k 0 = v

theorem namesIn_append (done : List (HexData × Nat)) (line : HexData × Nat)
    (i : Nat) (v : Word) :
    NamesIn (done ++ [line]) i v ↔ NamesIn done i v ∨ LineNames line i v := by
  constructor
  · rintro ⟨l, hl, hv⟩
    rcases List.mem_append.mp hl with hl | hl
    · exact Or.inl ⟨l, hl, hv⟩
    · obtain rfl := List.mem_singleton.mp hl
      exact Or.inr hv
  · rintro (⟨l, hl, hv⟩ | hv)
    · exact ⟨l, List.mem_append_left _ hl, hv⟩
    · exact ⟨line, List.mem_append_right _ List.mem_cons_self, hv⟩

theorem not_namesBefore_first (line : HexData × Nat) (i : Nat) (v : Word) :
    ¬ NamesBefore line 1 i v := by
  rintro ⟨k, hk, hlt, -⟩
  omega

theorem namesBefore_succ {line : HexData × Nat} {j i₀ : Nat} (hj : 1 ≤ j)
    (hcell : cellOf (index (lineAddress line.1) (j - 1)) = some i₀) (i : Nat)
    (v : Word) :
    NamesBefore line (j + 1) i v ↔
      NamesBefore line j i v ∨ i = i₀ ∧ v = line.1.getD j 0 := by
  constructor
  · rintro ⟨k, hk, hlt, hcell', hv⟩
    rcases Nat.lt_succ_iff_lt_or_eq.mp hlt with hkj | rfl
    · exact Or.inl ⟨k, hk, hkj, hcell', hv⟩
    · exact Or.inr ⟨Option.some.inj (hcell'.symm.trans hcell), hv.symm⟩
  · rintro (⟨k, hk, hkj, hv⟩ | ⟨rfl, rfl⟩)
    · exact ⟨k, hk, by omega, hv⟩
    · exact ⟨j, hj, by omega, hcell, rfl⟩

/-- All words of a line. -/
theorem namesBefore_end (line : HexData × Nat) (i : Nat) (v : Word) :
    NamesBefore line (1 + line.2) i v ↔ LineNames line i v := by
  constructor
  · rintro ⟨k, hk, hlt, hv⟩
    exact ⟨k, hk, by omega, hv⟩
  · rintro ⟨k, hk, hle, hv⟩
    exact ⟨k, hk, by omega, hv⟩

/-- A pass over a legal text: no line is refused. -/
theorem perf_hexFile {ep : HexData → Nat → Flash Unit}
    {K : List (HexData × Nat) → Device → Prop} {P : HexData × Nat → Prop}
    {Q : Unit → Device → Prop} {hexData : HexData} {d : Device}
    (hep : ∀ done line d, P line → K done d →
      wp (perfect text) anything (fun _ d' => K (done ++ [line]) d') E
        (ep line.1 line.2) d)
    (hlegal : Legal text) (hP : ∀ line ∈ decoded text, P line)
    (hK : K [] d) (hQ : ∀ d', K (decoded text) d' → Q () d') :
    wp (perfect text) anything Q E (hexFile ep hexData) d := by
  rw [hexFile, wp_bind]
  refine ⟨trivial, ?_⟩
  rintro r d₁ ⟨rfl, rfl⟩
  show wp (perfect text) anything Q E (hexText ep text hexData) d₁
  rw [hexText, wp_bind]
  have hbad : ∀ line ∈ fgetsAll 256 text, decodeLine line = none →
      allSpace line = false → ∀ done rest w, decoded text = done ++ rest →
      K done w → wp (perfect text) anything
        (fun _ _ => False) E (invalidLine : Flash (Bool × HexData × Nat)) w := by
    intro line hline hdec hs done rest w _ _
    rcases hlegal.lines line hline with ⟨l, hl⟩ | hspace
    · simp [hdec] at hl
    · simp [hs] at hspace
  refine wp_mono ?_ (wp_lines (fun done line _ d htotal =>
    hep done line d (hP line (decoded_mem htotal))) (fgetsAll 256 text) hbad []
    hexData d₁ rfl hK)
  intro _ d₂ hK'
  exact perf_of_dev ((dev_fclose d₂).mpr (hQ d₂ hK'))

/-- One attempt programs a word, if no bit has to be set. -/
theorem perf_progWord {Q : Bool × Word → Device → Prop} {fl data : Word}
    {j i i₀ : Nat} {d : Device} (hfirst : cellOf (index fl 0) = some i₀)
    (hcell : cellOf (index fl (j - 1)) = some i) (hmode : Programming d.mode)
    (hand : d.array i &&& data = data)
    (hQ : Q (false, data) ⟨.programVerify, Function.update d.array i data⟩) :
    wp (perfect text) anything Q E (progWord fl j data 3 true 0) d := by
  have hset := settled_programming hmode
  have hstore : storePerfect ⟨.programSetup, d.array⟩ (index fl (j - 1)) data
      = Function.update d.array i data := by
    rw [storePerfect_data hcell rfl, hand]
  have hread : readPerfect ⟨.programVerify, Function.update d.array i data⟩
      (index fl (j - 1)) = data := by
    rw [readPerfect_cell hcell (by simp)]
    exact Function.update_self ..
  rw [progWord, if_pos rfl, wp_bind]
  refine perf_command hfirst hset.1 hset.2.1 ?_
  rw [settled_write hset, wp_bind, perf_write_cell hcell]
  show wp _ _ _ _ _ (Device.mk _ (storePerfect ⟨.programSetup, _⟩ _ _))
  rw [hstore, wp_bind, perf_procWait, wp_bind]
  refine perf_command hfirst (by simp) (by simp) ?_
  rw [wp_bind, perf_procWait, wp_bind, perf_read]
  show wp _ _ _ _ (progWord fl j data 2
    (decide (readPerfect ⟨.programVerify, _⟩ _ ≠ data))
    (readPerfect ⟨.programVerify, _⟩ _)) _
  rw [hread, decide_eq_false (not_not_intro rfl), progWord,
    if_neg Bool.false_ne_true]
  exact hQ

/-- A line that agrees with the lines before it is programmed. -/
theorem perf_progEp {done : List (HexData × Nat)} {line : HexData × Nat}
    {d : Device} (hwindow : LineInWindow line) (hmode : Programming d.mode)
    (hheld : Held (NamesIn done) d.array)
    (hagree : ∀ i v v', NamesIn done i v ∨ LineNames line i v →
      LineNames line i v' → v = v') :
    wp (perfect text) anything
      (fun _ (d' : Device) => Programming d'.mode ∧
        Held (NamesIn (done ++ [line])) d'.array) E
      (progEp line.1 line.2) d := by
  refine wp_mono ?_ (wp_forRange (I := fun j (d' : Device) =>
    Programming d'.mode ∧
      Held (fun i v => NamesIn done i v ∨ NamesBefore line j i v) d'.array)
    ?_ ?_)
  · rintro _ d' ⟨hm, hh⟩
    refine ⟨hm, held_congr ?_ hh⟩
    intro i v
    rw [namesIn_append, namesBefore_end]
  · rintro j d' hj hlt ⟨hm, hh⟩
    have hle : j ≤ line.2 := by omega
    obtain ⟨i₀, hfirst⟩ := hwindow 1 (Nat.le_refl 1) (by omega)
    obtain ⟨i, hcell⟩ := hwindow j hj hle
    have hthis : LineNames line i (line.1.getD j 0) := ⟨j, hj, hle, hcell, rfl⟩
    -- a line may name a word that earlier lines, or its own earlier words, name
    have hsame : ∀ v, NamesIn done i v ∨ NamesBefore line j i v →
        v = line.1.getD j 0 := by
      rintro v (hv | ⟨k, hk, hkj, hv⟩)
      · exact hagree i v _ (Or.inl hv) hthis
      · exact hagree i v _ (Or.inr ⟨k, hk, by omega, hv⟩) hthis
    obtain ⟨hand, hnext⟩ := held_program hh hsame
    rw [wp_bind]
    refine perf_progWord hfirst hcell hm hand
      ⟨Or.inr (Or.inl rfl), held_congr ?_ hnext⟩
    intro i' v
    rw [namesBefore_succ hj hcell, or_assoc]
  · refine ⟨hmode, held_congr ?_ hheld⟩
    intro i v
    rw [or_iff_left (not_namesBefore_first line i v)]

/-- A line that the array holds is checked. -/
theorem perf_checkEp {line : HexData × Nat} {d : Device}
    (hwindow : LineInWindow line) (hmode : d.mode = .readMode)
    (hheld : ∀ i v, LineNames line i v → d.array i = v) :
    wp (perfect text) anything (fun _ d' => d' = d) E
      (checkEp line.1 line.2) d := by
  refine wp_forRange (I := fun _ d' => d' = d) ?_ rfl
  rintro j d' hj hlt rfl
  have hle : j ≤ line.2 := by omega
  obtain ⟨i, hcell⟩ := hwindow j hj hle
  have hnot : d'.mode ≠ .idMode := by
    rw [hmode]
    simp
  have hread : readPerfect d' (index (lineAddress line.1) (j - 1)) = line.1.getD j 0 :=
    (readPerfect_cell hcell hnot).trans
      (hheld i _ ⟨j, hj, hle, hcell, rfl⟩)
  rw [wp_bind, perf_read, hread, if_neg (not_not_intro rfl)]
  rfl

theorem perf_progHf {Q : Unit → Device → Prop} {hexData : HexData}
    {d : Device} (hlegal : Legal text) (hmode : d.mode = .readMode)
    (hones : ∀ k, d.array k = 0xffffffff)
    (hQ : ∀ d' : Device, Programming d'.mode →
      (∀ i v, Names text i v → d'.array i = v) → Q () d') :
    wp (perfect text) anything Q E (progHf hexData) d := by
  refine perf_hexFile
    (K := fun done (d' : Device) => (∀ line ∈ done, line ∈ decoded text) ∧
      Programming d'.mode ∧ Held (NamesIn done) d'.array)
    (P := fun line => line ∈ decoded text) ?_ hlegal (fun _ h => h) ?_ ?_
  · rintro done line d' hline ⟨hdone, hm, hheld⟩
    have hdone' : ∀ l ∈ done ++ [line], l ∈ decoded text := by
      intro l hl
      rcases List.mem_append.mp hl with hl | hl
      · exact hdone l hl
      · rw [List.mem_singleton.mp hl]
        exact hline
    have hagree : ∀ i v v', NamesIn done i v ∨ LineNames line i v →
        LineNames line i v' → v = v' := by
      rintro i v v' (⟨l, hl, hv⟩ | hv) hv'
      · exact hlegal.agree i v v' ⟨l, hdone l hl, hv⟩ ⟨line, hline, hv'⟩
      · exact hlegal.agree i v v' ⟨line, hline, hv⟩ ⟨line, hline, hv'⟩
    refine wp_mono ?_ (perf_progEp (hlegal.window line hline) hm hheld hagree)
    rintro _ d'' ⟨hm', hheld'⟩
    exact ⟨hdone', hm', hheld'⟩
  · refine ⟨nofun, Or.inl hmode, ?_⟩
    intro i
    constructor
    · rintro v ⟨l, hl, -⟩
      exact nomatch hl
    · intro _
      exact hones i
  · rintro d' ⟨-, hm, hheld⟩
    exact hQ d' hm (fun i v hv => (hheld i).1 v hv)

theorem perf_checkHf {Q : Unit → Device → Prop} {hexData : HexData}
    {d : Device} (hlegal : Legal text) (hmode : d.mode = .readMode)
    (hheld : ∀ i v, Names text i v → d.array i = v) (hQ : Q () d) :
    wp (perfect text) anything Q E (checkHf hexData) d := by
  refine perf_hexFile (K := fun _ d' => d' = d)
    (P := fun line => line ∈ decoded text) ?_ hlegal (fun _ h => h) rfl ?_
  · rintro done line d' hline rfl
    exact perf_checkEp (hlegal.window line hline) hmode
      (fun i v hv => hheld i v ⟨line, hline, hv⟩)
  · rintro d' rfl
    exact hQ

/-- A perfect device that is reset. -/
theorem perf_resetFe {Q : Unit → Device → Prop} {d : Device}
    (hmode : Settled d.mode) (hQ : Q () ⟨.readMode, d.array⟩) :
    wp (perfect text) anything Q E resetFe d :=
  perf_of_dev (dev_resetFe hmode hQ)

theorem perf_checkValue {Q : Unit → Device → Prop} {value : Word} {d : Device}
    (hm : d.mode ≠ .idMode)
    (hall : ∀ k, k < flashWordSize → d.array k = value) (hQ : Q () d) :
    wp (perfect text) anything Q E (checkValue value) d :=
  perf_of_dev (dev_checkValue hm (fun _ => hQ)
    (fun k hk hne => absurd (hall k hk) hne))

end Rules

/-! ## Success -/

section Phases

variable {text : List Char} {E : Nat → Device → Prop}

/-- The zeros are programmed and found. -/
theorem perf_zeroAll {Q : Unit → Device → Prop} {d : Device}
    (hmode : Settled d.mode) (hQ : ∀ array, Q () ⟨.readMode, array⟩) :
    wp (perfect text) anything Q E zeroAll d := by
  have hsettled : Settled .idMode := by simp [Settled]
  have hread : Settled .readMode := by simp [Settled]
  rw [zeroAll, wp_bind]
  refine perf_resetFe hmode ?_
  rw [wp_bind]
  refine perf_readII hread ?_
  rw [wp_bind]
  refine perf_resetFe hsettled ?_
  rw [wp_bind]
  refine perf_readII hread ?_
  rw [wp_bind]
  refine perf_resetFe hsettled ?_
  rw [wp_bind]
  refine perf_progTo0 (Or.inl rfl) ?_
  intro d₁ hm₁ hzero
  rw [wp_bind]
  refine perf_checkValue ?_ hzero ?_
  · rcases hm₁ with h | h | h <;> simp [h]
  refine perf_resetFe (settled_programming hm₁) ?_
  exact hQ d₁.array

/-- The array is erased, and the ones are found. -/
theorem perf_eraseAndCheck {Q : Unit → Device → Prop} {d : Device}
    (hmode : d.mode = .readMode)
    (hQ : Q () ⟨.readMode, fun _ => 0xffffffff⟩) :
    wp (perfect text) anything Q E
      (do erase; checkValue 0xffffffff; resetFe) d := by
  rw [wp_bind]
  refine perf_erase hmode ?_
  rw [wp_bind]
  refine perf_checkValue (by simp) (fun _ _ => rfl) ?_
  exact perf_resetFe (by simp [Settled]) hQ

end Phases

/-- `high_pr` in its phases. -/
theorem highPr_phases (stack stack' : HexData) :
    highPr stack stack' = zeroAll >>= fun _ =>
      (do erase; checkValue 0xffffffff; resetFe : Flash Unit) >>= fun _ =>
        progHf stack >>= fun _ => checkAll stack' := by
  simp only [highPr, zeroAll, checkAll, prog_bind_assoc]

/-- A perfect device takes `high_pr` to the hex file; the erase command is
    written on the way. -/
theorem perfect_to_file (text : List Char) (stack stack' : HexData) {d : Device}
    (hmode : Settled d.mode) :
    ∃ tr₁ array tr₂,
      Run (perfect text) zeroAll d tr₁ (.returned ()) ⟨.readMode, array⟩ ∧
      ∀ tr out d', Run (perfect text)
          (progHf stack >>= fun _ => checkAll stack')
          ⟨.readMode, fun _ => 0xffffffff⟩ tr out d' →
        Run (perfect text) (highPr stack stack') d
          (tr₁ ++ ⟨.write (flEprom 0) flashEraseSetup, ()⟩ ::
            ⟨.write (flEprom 0) flashErase, ()⟩ :: (tr₂ ++ tr)) out d' := by
  obtain ⟨tr₁, _, d₁, hzero, array, rfl⟩ := run_returns (perfect_total text)
    (perf_zeroAll (Q := fun _ d => ∃ array, d = ⟨.readMode, array⟩) hmode
      (fun array => ⟨array, rfl⟩))
  obtain ⟨tr', _, d₂, herase, rfl⟩ := run_returns (perfect_total text)
    (perf_eraseAndCheck (Q := fun _ d => d = ⟨.readMode, fun _ => 0xffffffff⟩)
      (d := ⟨.readMode, array⟩) rfl rfl)
  -- the erase loop starts with the two writes
  obtain ⟨tr₂, rfl⟩ : ∃ tr₂ : FlashTrace, tr' =
      ⟨.write (flEprom 0) flashEraseSetup, ()⟩ ::
        ⟨.write (flEprom 0) flashErase, ()⟩ :: tr₂ := by
    rw [erase, eraseLoop, if_pos (by decide)] at herase
    cases herase with
    | op _ h => cases h with
      | op _ h => exact ⟨_, rfl⟩
  refine ⟨tr₁, array, tr₂, hzero, ?_⟩
  intro tr out d' hr
  rw [highPr_phases]
  exact run_bind hzero (run_bind herase hr)

/-- A legal file is programmed and checked without a failure. -/
theorem perf_programAndCheck {text : List Char} (hlegal : Legal text)
    (stack stack' : HexData) {d : Device} (hmode : Settled d.mode) :
    wp (perfect text) anything (fun _ _ => True) (fun _ _ => False)
      (programAndCheck stack stack') d := by
  have hread : Settled .readMode := by simp [Settled]
  have hsplit : programAndCheck stack stack' = zeroAll >>= fun _ =>
      (do erase; checkValue 0xffffffff; resetFe : Flash Unit) >>= fun _ =>
        (do progHf stack; resetFe; resetFe; checkHf stack' : Flash Unit) := by
    simp only [programAndCheck, eraseAll_split, prog_bind_assoc]
  rw [hsplit, wp_bind]
  refine perf_zeroAll hmode ?_
  intro array
  rw [wp_bind]
  refine perf_eraseAndCheck rfl ?_
  rw [wp_bind]
  refine perf_progHf hlegal rfl (fun _ => rfl) ?_
  intro d₂ hm₂ hheld
  rw [wp_bind]
  refine perf_resetFe (settled_programming hm₂) ?_
  rw [wp_bind]
  refine perf_resetFe hread ?_
  exact perf_checkHf hlegal rfl hheld trivial

/-- **SUCCESS IS POSSIBLE**: on some device every legal file is programmed
    with success. -/
theorem legal_succeeds {text : List Char} (hlegal : Legal text)
    (stack stack' : HexData) {d : Device} (hmode : Settled d.mode) :
    ∃ tr d', Run (device text) (highPr stack stack') d
      (tr ++ [⟨successMark, ()⟩]) (.exited exitSuccess) d' := by
  obtain ⟨tr, _, d', hrun, -⟩ := run_returns (perfect_total text)
    (perf_programAndCheck hlegal stack stack' hmode)
  refine ⟨tr, d', ?_⟩
  rw [highPr_split]
  refine run_bind (run_env_mono (perfect_device text) hrun) ?_
  exact .op rfl (.exit exitSuccess d')

/-- **A SUCCESS MEANS THAT THE FILE IS IN THE FLASH**: for every device that
    follows the model, whatever it does and whatever it held, and every file
    with aligned addresses inside the window: when `high_pr` prints its
    success message, every word of every line is in the array at its place and
    every word that no line names is erased; and no two lines disagree on a
    word. -/
theorem programmed_file {text : List Char}
    (hwindow : ∀ line ∈ decoded text, LineInWindow line)
    {stack stack' : HexData} {d d' : Device} {tr : FlashTrace}
    {out : Outcome Nat Unit}
    (hr : Run (device text) (highPr stack stack') d
      (tr ++ [⟨successMark, ()⟩]) out d') :
    HoldsFile text d'.array ∧
      ∀ i v v', Names text i v → Names text i v' → v = v' := by
  obtain ⟨m, hann, rfl⟩ := wp_last (dev_highPr hwindow stack stack' d) hr
  have hholds : HoldsFile text d'.array := hann rfl
  refine ⟨hholds, ?_⟩
  intro i v v' hv hv'
  exact (hholds.1 i v hv).symm.trans (hholds.1 i v' hv')

/-- A file with one word. -/
def oneWord : List Char := "0 1 2 3 4\n".toList

theorem oneWord_decoded :
    decoded oneWord = [(#v[flashBaseAddress, 0x04030201, 0, 0, 0], 1)] := by
  decide

theorem oneWord_names {i : Nat} {v : Word} (h : Names oneWord i v) :
    v = 0x04030201 := by
  obtain ⟨line, hline, j, hj, hle, -, rfl⟩ := h
  rw [oneWord_decoded, List.mem_singleton] at hline
  subst hline
  obtain rfl : j = 1 := Nat.le_antisymm hle hj
  rfl

theorem oneWord_legal : Legal oneWord where
  lines := by
    intro line hline
    refine Or.inl ⟨(#v[flashBaseAddress, 0x04030201, 0, 0, 0], 1), ?_⟩
    obtain rfl : line = oneWord :=
      List.mem_singleton.mp ((by decide : fgetsAll 256 oneWord = [oneWord]) ▸ hline)
    decide
  window := by
    intro line hline
    rw [oneWord_decoded, List.mem_singleton] at hline
    subst hline
    intro j hj hle
    obtain rfl : j = 1 := Nat.le_antisymm hle hj
    exact ⟨0, by decide⟩
  agree := by
    intro i v v' hv hv'
    rw [oneWord_names hv, oneWord_names hv']

theorem programmed_file_oneWord :
    ∃ tr d', Run (device oneWord) (highPr blankHexData blankHexData)
        ⟨.readMode, fun _ => 0⟩ (tr ++ [⟨successMark, ()⟩])
        (.exited exitSuccess) d' ∧
      HoldsFile oneWord d'.array ∧
      ∀ i v v', Names oneWord i v → Names oneWord i v' → v = v' := by
  obtain ⟨tr, d', hr⟩ := legal_succeeds oneWord_legal blankHexData blankHexData
    (d := ⟨.readMode, fun _ => 0⟩) (by simp [Settled])
  exact ⟨tr, d', hr, programmed_file oneWord_legal.window hr⟩

end FlashSuccess
