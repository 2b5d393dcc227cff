import Ttm50.FlashDevice

/-! # Which files keep `prog_ep` inside the flash window

    `get_line` joins the number at the start of a line to the base address by
    a bitwise OR and compares it with nothing; up to four words follow.
    `inside_iff` says exactly for which files every write stays word aligned
    and inside the window: in each accepted line that is reached, the address
    is a multiple of 4 and, as an offset or as an address, leaves room for the
    words of the line. -/

namespace FlashWindow

open CStdio InteractivePrograms FlashDriver FlashLines FlashDevice

/-! ## What the program may write to -/

/-- Word aligned, and one of the bytes that `prog_to_0`, `erase` and
    `check_value` go over. -/
def InWindow (address : Word) : Prop :=
  address.toNat % 4 = 0 ∧ flashBaseAddress.toNat ≤ address.toNat ∧
    address.toNat ≤ flashBaseAddress.toNat + 4 * flashWordSize - 1

instance (address : Word) : Decidable (InWindow address) :=
  inferInstanceAs (Decidable (_ ∧ _ ∧ _))

/-- Writes go to the window. -/
def Inside : FlashOp → Prop
  | .write address _ => InWindow address
  | _ => True

/-- A line whose words are not all in the window. -/
def Elsewhere (line : List Char) : Prop :=
  ∃ l, decodeLine line = some l ∧
    ∃ j, 1 ≤ j ∧ j ≤ l.2 ∧ ¬ InWindow (index (lineAddress l.1) (j - 1))

/-- `get_line` comes to the line: it refuses none of the lines before. -/
def Reached (lines : List (List Char)) (line : List Char) : Prop :=
  ∃ done rest, lines = done ++ line :: rest ∧ ∀ piece ∈ done, Passes piece

/-- Whatever the device answers, `prog_hf` on this text writes to the window
    only, and a line that names another location is refused. -/
structure StaysInside (text : List Char) (stack : HexData) : Prop where
  writes : ∀ tr out,
    Run anyAnswer (progHf stack) () (⟨.fopen, some text⟩ :: tr) out () →
    ∀ e ∈ tr, Inside e.1
  refuses : ∀ line, Reached (fgetsAll 256 text) line → Elsewhere line →
    ∀ hexData, getLine (some line) hexData = invalidLine

/-! ## The condition on a line -/

/-- The number at the start of a line. -/
def addressNumber (line : List Char) : Word :=
  (sscanfHex 17 (cString line)).getD 0 0

/-- `count` words at the number `a`, an offset or an address, end inside the
    window. -/
def AddressFits (a : Word) (count : Nat) : Prop :=
  a.toNat % 4 = 0 ∧
    (a.toNat + 4 * count ≤ 0x80000 ∨
      0x40000000 ≤ a.toNat ∧ a.toNat + 4 * count ≤ 0x40080000)

/-- What a line must say to be harmless, if it is accepted. -/
def Fits (line : List Char) : Prop :=
  ∀ count, wordCount (sscanfHex 17 (cString line)).length = some count →
    AddressFits (addressNumber line) count

instance (a : Word) (count : Nat) : Decidable (AddressFits a count) :=
  inferInstanceAs (Decidable (_ ∧ (_ ∨ _ ∧ _)))

/-! ## The address of a line -/

theorem toNat_or_base (a : Word) :
    (a ||| flashBaseAddress).toNat = a.toNat ||| 2 ^ 30 := by
  rw [BitVec.toNat_or]
  rfl

/-- An offset goes behind the base address. -/
theorem offset_or_base {a : Word} (h : a.toNat < 2 ^ 30) :
    (a ||| flashBaseAddress).toNat = a.toNat + 2 ^ 30 := by
  have hor := Nat.two_pow_add_eq_or_of_lt h 1
  rw [Nat.mul_one] at hor
  rw [toNat_or_base, Nat.or_comm, ← hor, Nat.add_comm]

/-- An address with the bit of the base stays as it is. -/
theorem address_or_base {a : Word} (hle : 2 ^ 30 ≤ a.toNat)
    (hlt : a.toNat < 2 ^ 31) :
    (a ||| flashBaseAddress).toNat = a.toNat := by
  obtain ⟨low, ha⟩ : ∃ low, a.toNat = 2 ^ 30 + low :=
    ⟨a.toNat - 2 ^ 30, by omega⟩
  have hor := Nat.two_pow_add_eq_or_of_lt (show low < 2 ^ 30 by omega) 1
  rw [Nat.mul_one] at hor
  rw [toNat_or_base, ha, hor, Nat.or_comm, ← Nat.or_assoc, Nat.or_self]

theorem le_or_base (a : Word) : a.toNat ≤ (a ||| flashBaseAddress).toNat := by
  rw [toNat_or_base]
  exact Nat.left_le_or

theorem inWindow_index {b : Word} (hb : b.toNat < 2 ^ 31) {i : Nat}
    (hi : i ≤ 3) :
    InWindow (index b i) ↔ b.toNat % 4 = 0 ∧ 0x40000000 ≤ b.toNat + 4 * i ∧
      b.toNat + 4 * i < 0x40080000 := by
  have hbase : flashBaseAddress.toNat = 0x40000000 := rfl
  have hsize : flashWordSize = 0x20000 := rfl
  have hindex : (index b i).toNat = b.toNat + 4 * i := by
    rw [index, BitVec.toNat_add, BitVec.toNat_ofNat]
    omega
  rw [InWindow, hindex, hbase, hsize]
  omega

theorem words_inside_iff (a : Word) {count : Nat} (hpos : 0 < count)
    (hle : count ≤ 4) :
    (∀ j, 1 ≤ j → j ≤ count →
      InWindow (index (a ||| flashBaseAddress) (j - 1))) ↔
      AddressFits a count := by
  rw [AddressFits]
  by_cases hbig : 2 ^ 31 ≤ a.toNat
  -- a large number stays large, and its first word is outside
  · constructor
    · intro h
      have hfirst := (h 1 (Nat.le_refl 1) hpos).2.2
      have hindex : index (a ||| flashBaseAddress) (1 - 1)
          = a ||| flashBaseAddress := BitVec.add_zero _
      have hor := le_or_base a
      have hbase : flashBaseAddress.toNat = 0x40000000 := rfl
      have hsize : flashWordSize = 0x20000 := rfl
      rw [hindex] at hfirst
      omega
    · omega
  · obtain ⟨b, hb⟩ : ∃ b, b = (a ||| flashBaseAddress).toNat := ⟨_, rfl⟩
    have hb31 : b < 2 ^ 31 ∧ 2 ^ 30 ≤ b ∧
        (b = a.toNat + 2 ^ 30 ∨ b = a.toNat ∧ 2 ^ 30 ≤ a.toNat) := by
      rcases Nat.lt_or_ge a.toNat (2 ^ 30) with hlt | hge
      · have hor := offset_or_base hlt
        omega
      · have hor := address_or_base hge (by omega)
        omega
    constructor
    -- the first word gives the alignment and the last one the end
    · intro h
      have hfirst := (inWindow_index (hb ▸ hb31.1) (by omega)).mp
        (h 1 (Nat.le_refl 1) hpos)
      have hlast := (inWindow_index (hb ▸ hb31.1) (by omega)).mp
        (h count hpos (Nat.le_refl _))
      omega
    · intro h j hj hjc
      refine (inWindow_index (hb ▸ hb31.1) (by omega)).mpr ?_
      omega

/-! ## The writes of the program -/

/-- Any exit is allowed here. -/
abbrev AnyExit (_ : Nat) : Prop := True

/-- All words of a decoded line are in the window. -/
def WordsInside (line : HexData × Nat) : Prop :=
  ∀ j, 1 ≤ j → j ≤ line.2 → InWindow (index (lineAddress line.1) (j - 1))

theorem inside_invalidLine {A : Type} :
    Only Inside AnyExit (invalidLine : Flash A) := by
  have hbase : InWindow (flEprom 0) := by decide
  exact ⟨trivial, fun _ => ⟨hbase, fun _ => ⟨hbase, fun _ =>
    ⟨trivial, fun _ => trivial⟩⟩⟩⟩

theorem inside_progWord {fl : Word} {j : Nat} (hfirst : InWindow (index fl 0))
    (hword : InWindow (index fl (j - 1))) (data : Word) (left : Nat)
    (failure : Bool) (epData : Word) :
    Only Inside AnyExit (progWord fl j data left failure epData) := by
  induction left generalizing failure epData with
  | zero => trivial
  | succ left ih =>
      rw [progWord]
      split
      · exact ⟨hfirst, fun _ => ⟨hword, fun _ => ⟨trivial, fun _ =>
          ⟨hfirst, fun _ => ⟨trivial, fun _ => ⟨trivial, fun epData =>
            ih _ epData⟩⟩⟩⟩⟩⟩
      · trivial

/-- `prog_ep` writes to every word of its line, for some device. -/
theorem inside_progEp (line : HexData × Nat) :
    Only Inside AnyExit (progEp line.1 line.2) ↔ WordsInside line := by
  rw [progEp, only_forRange_iff (fun j => word_returns _ j _ (fun _ => .ret ()))]
  constructor
  · intro h j hj hle
    -- the data of the first attempt go to the word
    exact ((h j hj (by omega)).2 ()).1
  · intro h j hj hlt
    have hfirst := h 1 (Nat.le_refl 1) (by omega)
    refine only_bind
      (inside_progWord hfirst (h j hj (by omega)) _ _ _ _) ?_
    rintro ⟨failure, epData⟩
    cases failure with
    | false => trivial
    | true => exact ⟨trivial, fun _ => ⟨hfirst, fun _ => ⟨hfirst, fun _ => trivial⟩⟩⟩

/-! ## The lines that are reached -/

theorem reached_cons {line₀ line : List Char} {lines : List (List Char)} :
    Reached (line₀ :: lines) line ↔
      line = line₀ ∨ Passes line₀ ∧ Reached lines line := by
  constructor
  · rintro ⟨done, rest, hcut, hdone⟩
    cases done with
    | nil => exact Or.inl (List.cons.inj hcut).1.symm
    | cons piece done =>
        obtain ⟨rfl, rfl⟩ := List.cons.inj hcut
        obtain ⟨hpass, hdone⟩ := List.forall_mem_cons.mp hdone
        exact Or.inr ⟨hpass, done, rest, rfl, hdone⟩
  · rintro (rfl | ⟨hpass, done, rest, rfl, hdone⟩)
    · exact ⟨[], lines, rfl, fun _ h => absurd h List.not_mem_nil⟩
    · exact ⟨line₀ :: done, rest, rfl, List.forall_mem_cons.mpr ⟨hpass, hdone⟩⟩

theorem not_reached_nil (line : List Char) : ¬ Reached [] line := by
  rintro ⟨done, rest, hcut, -⟩
  exact absurd hcut.symm (List.append_ne_nil_of_right_ne_nil _ (List.cons_ne_nil _ _))

/-- A line passes when it is blank or decoded. -/
theorem passes_iff (line : List Char) :
    Passes line ↔ allSpace line = true ∨ decodeLine line ≠ none := by
  rw [Passes, decodeLine, ne_eq, Option.map_eq_none_iff, sscanfHex_count,
    wordCount_none]

/-- The writes for the lines of a file, exactly. -/
theorem inside_readLines (lines : List (List Char)) (hexData : HexData) :
    Only Inside AnyExit (readLines progEp lines hexData) ↔
      ∀ line, Reached lines line → ∀ l, decodeLine line = some l →
        WordsInside l := by
  induction lines generalizing hexData with
  | nil =>
      constructor
      · intro _ line hline
        exact absurd hline (not_reached_nil line)
      · intro _
        trivial
  | cons line lines ih =>
      have hpass := passes_iff line
      simp only [reached_cons, forall_eq_or_imp]
      rw [readLines_cons]
      rcases getLine_decodes line hexData with
        ⟨l, hdec, hpos, hget⟩ | ⟨hdec, hs, hget⟩ | ⟨hdec, hs, hget⟩
      · have hthis : Passes line := hpass.mpr (Or.inr (by simp [hdec]))
        rw [hget, prog_pure_bind, if_pos hpos,
          only_bind_iff (progEp_returns l.1 l.2), inside_progEp]
        simp only [hdec, hthis, true_and, Option.some.injEq, forall_eq']
        exact and_congr_right (fun _ => ih l.1)
      · have hthis : Passes line := hpass.mpr (Or.inl hs)
        rw [hget, prog_pure_bind]
        simp only [hdec, hthis, true_and, reduceCtorEq, false_implies,
          implies_true]
        exact ih hexData
      · -- the utility ends here, and no further line is reached
        have hthis : ¬ Passes line := by
          rw [hpass, hs, hdec]
          simp
        rw [hget]
        simp only [hdec, hthis, false_and, reduceCtorEq, false_implies,
          implies_true, and_self, iff_true]
        exact (inside_invalidLine : Only Inside AnyExit (invalidLine : Flash Unit))

/-! ## The files that keep the program inside -/

theorem fits_iff (line : List Char) :
    Fits line ↔ ∀ l, decodeLine line = some l → WordsInside l := by
  have hline : ∀ count,
      wordCount (sscanfHex 17 (cString line)).length = some count →
      (WordsInside (hexDataOf (sscanfHex 17 (cString line)), count) ↔
        AddressFits (addressNumber line) count) :=
    fun count h => words_inside_iff _ (wordCount_pos h) (wordCount_le h)
  rw [Fits, decodeLine]
  constructor
  · intro h l hl
    obtain ⟨count, hcount, rfl⟩ := Option.map_eq_some_iff.mp hl
    exact (hline count hcount).mpr (h count hcount)
  · intro h count hcount
    exact (hline count hcount).mp
      (h _ (Option.map_eq_some_iff.mpr ⟨count, hcount, rfl⟩))

instance (o : FlashOp) : Nonempty o.Res := by
  cases o with
  | read => exact ⟨(0 : Word)⟩
  | fopen => exact ⟨none⟩
  | write | procWait | printf | fclose => exact ⟨()⟩

/-- The runs on a text are those of the program on its lines. -/
theorem writes_iff (text : List Char) (stack : HexData) :
    (∀ tr out,
      Run anyAnswer (progHf stack) () (⟨.fopen, some text⟩ :: tr) out () →
      ∀ e ∈ tr, Inside e.1) ↔
    Only Inside AnyExit (readLines progEp (fgetsAll 256 text) stack) := by
  constructor
  · intro h
    have htext : Only Inside AnyExit (hexText progEp text stack) :=
      only_of_runs (fun tr out hr => h tr out (.op trivial hr))
    exact only_first htext
  · intro h tr out hr
    have htext : Only Inside AnyExit (hexText progEp text stack) :=
      only_bind h (fun _ => ⟨trivial, fun _ => trivial⟩)
    cases hr with
    | op _ hr => exact only_each htext hr

/-- **THE WINDOW, EXACTLY**: whatever the device answers, every write for the
    file is word aligned and inside the window, and lines with other locations
    are refused, if and only if each accepted line that is reached fits. -/
theorem inside_iff (text : List Char) (stack : HexData) :
    StaysInside text stack ↔
      ∀ line, Reached (fgetsAll 256 text) line → Fits line := by
  have hlines := inside_readLines (fgetsAll 256 text) stack
  simp only [← fits_iff] at hlines
  constructor
  · intro h
    exact hlines.mp ((writes_iff text stack).mp h.writes)
  · intro h
    refine ⟨(writes_iff text stack).mpr (hlines.mpr h), ?_⟩
    -- no line that is reached names another location
    rintro line hline ⟨l, hdec, j, hj, hle, hout⟩
    exact absurd ((fits_iff line).mp (h line hline) l hdec j hj hle) hout

/-- One word at the first offset behind the window. -/
def behindWindow : List Char := "80000 1 2 3 4\n".toList

/-- **THE WINDOW IS LEFT**: the line is not refused, and the command and the
    data of its word go to `0x40080000`. -/
theorem behindWindow_written : ¬ StaysInside behindWindow (hexDataOf []) := by
  intro h
  have hlines : fgetsAll 256 behindWindow = [behindWindow] := by decide
  have hget : getLine (some behindWindow) (hexDataOf [])
      = pure (false, #v[0x40080000, 0x04030201, 0, 0, 0], 1) := rfl
  have htext : ∃ k, hexText progEp behindWindow (hexDataOf [])
      = .op (.write (index 0x40080000 0) flashProgramSetup) k := by
    rw [hexText, hlines, readLines_cons, hget]
    exact ⟨_, rfl⟩
  obtain ⟨k, hk⟩ := htext
  have hrun : Run anyAnswer (hexText progEp behindWindow (hexDataOf [])) ()
      [⟨.write (index 0x40080000 0) flashProgramSetup, ()⟩] .running () := by
    rw [hk]
    exact .op trivial (.stop _ _)
  have hin : InWindow (index 0x40080000 0) :=
    h.writes _ _ (.op trivial hrun) _ List.mem_cons_self
  exact absurd hin (by decide)

end FlashWindow
