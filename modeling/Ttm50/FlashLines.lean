import Ttm50.FlashDriver

/-! # Which lines of the hex file are refused

    `get_line` decides by the number of conversions of one `sscanf` on the at
    most 255 characters of one `fgets`.  `rejected_iff` says exactly for which
    lines the utility ends with `Invalid line in file.` before a word of the
    line is programmed: the first piece of the line that is not white space
    must start with a number of hexadecimal numbers that is not 5, 9, 13 or at
    least 17.  What follows these numbers, their size and the rest of the line
    do not count. -/

namespace FlashLines

open CStdio InteractivePrograms FlashDriver

/-! ## Well-formed lines -/

/-- The maximal runs of characters that are not white space, when `token` has
    been read of the current one. -/
def tokensFrom : (token : List Char) → List Char → List (List Char)
  | [], [] => []
  | token, [] => [token]
  | token, c :: text =>
      if isSpace c then
        (if token = [] then [] else [token]) ++ tokensFrom [] text
      else tokensFrom (token ++ [c]) text

/-- The tokens of a line. -/
def tokens (line : List Char) : List (List Char) := tokensFrom [] line

/-- A hexadecimal number below `bound`, with or without `0x`. -/
def HexBelow (bound : Nat) (token : List Char) : Prop :=
  skipPrefix token ≠ [] ∧ (skipPrefix token).all isXDigit = true ∧
    hexNumber (skipPrefix token) < bound

instance (bound : Nat) (token : List Char) :
    Decidable (HexBelow bound token) :=
  inferInstanceAs (Decidable (_ ∧ _ ∧ _))

/-- An address, and 4, 8, 12 or 16 byte values. -/
def AddressAndBytes : List (List Char) → Prop
  | [] => False
  | address :: bytes => HexBelow 0x100000000 address ∧
      bytes.length ∈ [4, 8, 12, 16] ∧ ∀ byte ∈ bytes, HexBelow 256 byte

instance (ts : List (List Char)) : Decidable (AddressAndBytes ts) :=
  match ts with
  | [] => inferInstanceAs (Decidable False)
  | _ :: _ => inferInstanceAs (Decidable (_ ∧ _ ∧ _))

/-- All white space, or an address with its bytes. -/
def WellFormed (line : List Char) : Prop :=
  tokens line = [] ∨ AddressAndBytes (tokens line)

instance (line : List Char) : Decidable (WellFormed line) :=
  inferInstanceAs (Decidable (_ ∨ _))

/-- What the `fgets` calls return for a line. -/
def pieces (line : List Char) : List (List Char) :=
  fgetsAll 256 (line ++ ['\n'])

/-- The line is not well formed, or `fgets` returns it in more than one piece
    that is not white space. -/
def Malformed (line : List Char) : Prop :=
  ¬ WellFormed line ∨
    2 ≤ ((pieces line).filter (fun piece => !allSpace piece)).length

/-! ## Lines that stop the utility -/

/-- A number of leading hexadecimal numbers that `get_line` refuses. -/
def Refused (n : Nat) : Prop := n ≠ 5 ∧ n ≠ 9 ∧ n ≠ 13 ∧ n < 17

/-- The first piece of the line that is not white space is refused. -/
def StopsAt (line : List Char) : Prop :=
  ∃ piece, (pieces line).find? (fun piece => !allSpace piece) = some piece ∧
    Refused (leadingNumbers (cString piece))

theorem wordCount_none {n : Nat} :
    wordCount (min 17 n) = none ↔ Refused n := by
  rw [Refused]
  rcases Nat.lt_or_ge n 17 with h | h
  · rw [Nat.min_eq_right (Nat.le_of_lt h)]
    constructor
    · intro hnone
      refine ⟨?_, ?_, ?_, h⟩ <;> rintro rfl <;> exact nomatch hnone
    · rintro ⟨h₅, h₉, h₁₃, -⟩
      rw [wordCount]
      · exact h₅
      · exact h₉
      · exact h₁₃
      · omega
  · rw [Nat.min_eq_left h]
    exact ⟨(fun h' => nomatch h'), (fun h' => by omega)⟩

theorem wordCount_pos {n ct : Nat} (h : wordCount n = some ct) : 0 < ct := by
  rw [wordCount.eq_def] at h
  split at h <;> simp at h <;> omega

theorem wordCount_le {n count : Nat} (h : wordCount n = some count) :
    count ≤ 4 := by
  rw [wordCount.eq_def] at h
  split at h <;> simp at h <;> omega

/-- White space holds no number. -/
theorem sscanfHex_allSpace {line : List Char} (h : allSpace line = true)
    (n : Nat) : sscanfHex n (cString line) = [] := by
  have hlen : ((cString line).takeWhile isSpace).length
      = (cString line).length := of_decide_eq_true h
  have hdrop : (cString line).dropWhile isSpace = [] := by
    have hsplit := List.takeWhile_append_dropWhile (p := isSpace)
      (l := cString line)
    have hsum := congrArg List.length hsplit
    rw [List.length_append, hlen] at hsum
    exact List.length_eq_zero_iff.mp (by omega)
  cases n with
  | zero => rfl
  | succ n =>
      have hnone : scanHex (cString line) = none := by
        rw [scanHex, hdrop]
        rfl
      rw [sscanfHex, hnone]

theorem getLine_space {line : List Char} (h : allSpace line = true)
    (hexData : HexData) :
    getLine (some line) hexData = pure (false, hexData, 0) := by
  rw [getLine, sscanfHex_allSpace h, if_pos h]
  rfl

theorem getLine_refused {line : List Char} (h : allSpace line = false)
    (hn : Refused (leadingNumbers (cString line))) (hexData : HexData) :
    getLine (some line) hexData = invalidLine := by
  have hnone : wordCount (sscanfHex 17 (cString line)).length = none := by
    rw [sscanfHex_count]
    exact wordCount_none.mpr hn
  rw [getLine, hnone, h]
  rfl

theorem getLine_accepted {line : List Char}
    (hn : ¬ Refused (leadingNumbers (cString line))) (hexData : HexData) :
    ∃ wordCt, 0 < wordCt ∧ getLine (some line) hexData
      = pure (false, hexDataOf (sscanfHex 17 (cString line)), wordCt) := by
  have hcount := sscanfHex_count 17 (cString line)
  cases hwc : wordCount (sscanfHex 17 (cString line)).length with
  | none =>
      rw [hcount] at hwc
      exact absurd (wordCount_none.mp hwc) hn
  | some wordCt =>
      refine ⟨wordCt, wordCount_pos hwc, ?_⟩
      rw [getLine, hwc]

/-! ## What a line says -/

/-- A line as `get_line` decodes it: `hex_data` and `word_ct`; `none` where it
    yields no words. -/
def decodeLine (line : List Char) : Option (HexData × Nat) :=
  let values := sscanfHex 17 (cString line)
  (wordCount values.length).map (fun wordCt => (hexDataOf values, wordCt))

/-- The lines of a text with words. -/
def decoded (text : List Char) : List (HexData × Nat) :=
  (fgetsAll 256 text).filterMap decodeLine

theorem decoded_mem {text : List Char} {done rest : List (HexData × Nat)}
    {line : HexData × Nat} (h : decoded text = done ++ line :: rest) :
    line ∈ decoded text := by
  rw [h]
  exact List.mem_append_right _ List.mem_cons_self

/-- `get_line` yields the words of `decodeLine`; none for a blank line, and
    the failure for any other. -/
theorem getLine_decodes (line : List Char) (hexData : HexData) :
    (∃ l, decodeLine line = some l ∧ 0 < l.2 ∧
      getLine (some line) hexData = pure (false, l.1, l.2)) ∨
    (decodeLine line = none ∧ allSpace line = true ∧
      getLine (some line) hexData = pure (false, hexData, 0)) ∨
    (decodeLine line = none ∧ allSpace line = false ∧
      getLine (some line) hexData = invalidLine) := by
  rw [getLine, decodeLine]
  cases hwc : wordCount (sscanfHex 17 (cString line)).length with
  | some wordCt => exact Or.inl ⟨_, rfl, wordCount_pos hwc, rfl⟩
  | none =>
      refine Or.inr ?_
      cases hs : allSpace line with
      | true => exact Or.inl ⟨rfl, rfl, rfl⟩
      | false => exact Or.inr ⟨rfl, rfl, rfl⟩

/-! ## The words of a line -/

/-- The words of a line from word `j` on. -/
def lineWords (hexData : HexData) : (left j : Nat) → List Word
  | 0, _ => []
  | left + 1, j => hexData.getD j 0 :: lineWords hexData left (j + 1)

theorem lineWords_add (hexData : HexData) (left more j : Nat) :
    lineWords hexData (left + more) j
      = lineWords hexData left j ++ lineWords hexData more (j + left) := by
  induction left generalizing j with
  | zero => rw [Nat.zero_add]; rfl
  | succ left ih =>
      rw [Nat.succ_add, lineWords, ih (j + 1), lineWords, List.cons_append,
        Nat.add_right_comm, Nat.add_assoc]

/-- A word that has read back is not tried again. -/
theorem progWord_verified (fl : Word) (j : Nat) (data epData : Word)
    (left : Nat) :
    progWord fl j data left false epData = pure (false, epData) := by
  cases left <;> rfl

/-- The body of the loop of `prog_ep`. -/
def epWord (hexData : HexData) (j : Nat) : Flash Unit := do
  let fl := lineAddress hexData
  let data := hexData.getD j 0
  let (failure, epData) ← progWord fl j data 3 true 0
  if failure then do
    printf "0x%08p: expected 0x%08lx found 0x%08lx.\n"
      [index fl (j - 1), data, epData]
    write (index fl 0) flashReset
    write (index fl 0) flashReset
    .exit exitFailure
  else pure ()

theorem progEp_words (hexData : HexData) (wordCt : Nat) :
    progEp hexData wordCt = forRange (epWord hexData) wordCt 1 := rfl

/-! ## The loop over the lines -/

/-- The `while` loop on lines that the file holds before its end. -/
def handleLines (ep : HexData → Nat → Flash Unit) :
    List (List Char) → HexData → Flash HexData
  | [], hexData => pure hexData
  | line :: fp, hexData => do
      let (_, hexData, wordCt) ← getLine (some line) hexData
      (if wordCt > 0 then ep hexData wordCt else pure ())
      handleLines ep fp hexData

theorem readLines_cons (ep : HexData → Nat → Flash Unit) (line : List Char)
    (fp : List (List Char)) (hexData : HexData) :
    readLines ep (line :: fp) hexData
      = getLine (some line) hexData >>= fun r =>
          (if r.2.2 > 0 then ep r.2.1 r.2.2 else pure ()) >>= fun _ =>
            if r.1 then pure () else readLines ep fp r.2.1 := rfl

/-- The lines of a text one after the other, over any environment: `ep` adds
    its line to what `K` says of the lines before, and a line that is not
    legal ends the utility.  `total` are all the lines with words. -/
theorem wp_lines {W : Type} {env : Env FlashOp FlashOp.Res W}
    {ok : W → FlashOp → Prop} {E : Nat → W → Prop}
    {ep : HexData → Nat → Flash Unit} {K : List (HexData × Nat) → W → Prop}
    {total : List (HexData × Nat)}
    (hep : ∀ done line rest w, total = done ++ line :: rest → K done w →
      wp env ok (fun _ w' => K (done ++ [line]) w') E (ep line.1 line.2) w)
    (lines : List (List Char))
    (hbad : ∀ line ∈ lines, decodeLine line = none → allSpace line = false →
      ∀ done rest w, total = done ++ rest → K done w →
      wp env ok (fun _ _ => False) E
        (invalidLine : Flash (Bool × HexData × Nat)) w)
    (done : List (HexData × Nat)) (hexData : HexData) (w : W)
    (htotal : total = done ++ lines.filterMap decodeLine) (hK : K done w) :
    wp env ok (fun _ w' => K total w') E (readLines ep lines hexData) w := by
  induction lines generalizing done hexData w with
  | nil =>
      rw [List.filterMap_nil, List.append_nil] at htotal
      subst htotal
      exact hK
  | cons line lines ih =>
      have hbad' := fun l hl => hbad l (List.mem_cons_of_mem line hl)
      rw [readLines_cons]
      rcases getLine_decodes line hexData with
        ⟨l, hdec, hpos, hget⟩ | ⟨hdec, -, hget⟩ | ⟨hdec, hs, hget⟩
      · rw [List.filterMap_cons_some hdec] at htotal
        rw [hget, prog_pure_bind, if_pos hpos]
        refine wp_seq (hep done l _ w htotal hK) ?_
        intro _ w' hK'
        refine ih hbad' (done ++ [l]) l.1 w' ?_ hK'
        rw [htotal, List.append_assoc]
        rfl
      · rw [List.filterMap_cons_none hdec] at htotal
        rw [hget, prog_pure_bind]
        exact ih hbad' done hexData w htotal hK
      · rw [hget, wp_bind]
        exact wp_mono (fun _ _ h => h.elim)
          (hbad line List.mem_cons_self hdec hs done _ w htotal hK)

/-- `get_line` reports the end of the file only at the end of the file. -/
theorem getLine_some (line : List Char) (hexData : HexData) :
    (∃ hexData' wordCt,
      getLine (some line) hexData = pure (false, hexData', wordCt)) ∨
    getLine (some line) hexData = invalidLine := by
  rw [getLine]
  split
  · exact Or.inl ⟨_, _, rfl⟩
  · split
    · exact Or.inl ⟨_, _, rfl⟩
    · exact Or.inr rfl

/-- The lines of a file are handled one after the other. -/
theorem readLines_append (ep : HexData → Nat → Flash Unit)
    (lines rest : List (List Char)) (hexData : HexData) :
    readLines ep (lines ++ rest) hexData
      = handleLines ep lines hexData >>= fun hexData =>
          readLines ep rest hexData := by
  induction lines generalizing hexData with
  | nil => rfl
  | cons line lines ih =>
      rw [List.cons_append, readLines_cons, handleLines]
      rcases getLine_some line hexData with ⟨hexData', wordCt, h⟩ | h
      -- an exit in `get_line` absorbs the rest, a return passes its words on
      · rw [h, prog_pure_bind, prog_pure_bind, prog_bind_assoc]
        congr 1
        funext _
        exact ih hexData'
      · rw [h]
        rfl

/-- Pieces up to a refused one, which follows white space only, end the
    utility. -/
theorem handleLines_stops {lines : List (List Char)} {piece : List Char}
    (hfind : lines.find? (fun piece => !allSpace piece) = some piece)
    (hn : Refused (leadingNumbers (cString piece)))
    (ep : HexData → Nat → Flash Unit) (hexData : HexData) :
    handleLines ep lines hexData = invalidLine := by
  induction lines with
  | nil => exact nomatch hfind
  | cons line lines ih =>
      rw [handleLines]
      cases hs : allSpace line with
      | true =>
          rw [List.find?_cons_of_neg (by rw [hs]; exact Bool.false_ne_true)]
            at hfind
          rw [getLine_space hs]
          exact ih hfind
      | false =>
          rw [List.find?_cons_of_pos (by rw [hs]; rfl)] at hfind
          obtain rfl := Option.some.inj hfind
          rw [getLine_refused hs hn]
          rfl

/-- Other pieces do not start with the failure: they are white space, or the
    first words go to `prog_ep`. -/
theorem handleLines_goes_on {lines : List (List Char)}
    (h : ∀ piece, lines.find? (fun piece => !allSpace piece) = some piece →
      ¬ Refused (leadingNumbers (cString piece)))
    (hexData : HexData) :
    (∃ hexData', handleLines progEp lines hexData = pure hexData') ∨
      ∃ a v k, handleLines progEp lines hexData = .op (.write a v) k := by
  induction lines with
  | nil => exact Or.inl ⟨hexData, rfl⟩
  | cons line lines ih =>
      rw [handleLines]
      cases hs : allSpace line with
      | true =>
          rw [getLine_space hs]
          refine ih ?_
          intro piece hfind
          refine h piece ?_
          rw [List.find?_cons_of_neg (by rw [hs]; exact Bool.false_ne_true)]
          exact hfind
      | false =>
          have hline := h line (List.find?_cons_of_pos (by rw [hs]; rfl))
          obtain ⟨wordCt, hpos, hget⟩ := getLine_accepted hline hexData
          -- an accepted piece has a word, and `prog_ep` starts with a write
          rw [hget]
          obtain ⟨n, rfl⟩ : ∃ n, wordCt = n + 1 := ⟨wordCt - 1, by omega⟩
          exact Or.inr ⟨_, _, _, rfl⟩

/-- The file is handled as the lines before, the pieces of the line and the
    text after it. -/
theorem hexText_split {pre : List Char} (hpre : WholeLines pre)
    (line post : List Char) (hexData : HexData) :
    hexText progEp (pre ++ (line ++ '\n' :: post)) hexData
      = handleLines progEp (fgetsAll 256 pre) hexData >>= fun hexData =>
          handleLines progEp (pieces line) hexData >>= fun hexData =>
            hexText progEp post hexData := by
  have hline : WholeLines (line ++ ['\n']) := Or.inr ⟨line, rfl⟩
  have hcut : fgetsAll 256 (pre ++ (line ++ '\n' :: post))
      = fgetsAll 256 pre ++ (pieces line ++ fgetsAll 256 post) := by
    rw [fgetsAll_append 256 hpre, pieces, ← fgetsAll_append 256 hline,
      List.append_assoc]
    rfl
  rw [hexText, hcut, readLines_append, prog_bind_assoc]
  congr 1
  funext hexData'
  rw [readLines_append, prog_bind_assoc]
  rfl

/-- A line that does not stop the utility does not start with the failure,
    when the file ends after it. -/
theorem tail_ne_invalidLine {line : List Char} (h : ¬ StopsAt line)
    (hexData : HexData) :
    (handleLines progEp (pieces line) hexData >>= fun hexData =>
      hexText progEp [] hexData) ≠ invalidLine := by
  have hpiece : ∀ piece,
      (pieces line).find? (fun piece => !allSpace piece) = some piece →
      ¬ Refused (leadingNumbers (cString piece)) := by
    intro piece hfind hn
    exact h ⟨piece, hfind, hn⟩
  rcases handleLines_goes_on hpiece hexData with ⟨hexData', hp⟩ | ⟨a, v, k, hp⟩
  · rw [hp]
    intro heq
    exact nomatch (Prog.op.inj heq).1
  · rw [hp]
    intro heq
    exact nomatch (Prog.op.inj heq).1

/-! ## The lines before -/

/-- `get_line` does not refuse the piece. -/
def Passes (piece : List Char) : Prop :=
  allSpace piece = true ∨ ¬ Refused (leadingNumbers (cString piece))

theorem invalidLine_ends {A : Type} : ¬ Returns (invalidLine : Flash A) := by
  intro h
  cases h with
  | op _ h =>
    cases h with
    | op _ h =>
      cases h with
      | op _ h =>
        cases h with
        | op _ h => exact nomatch h

/-- The device may accept a word at once. -/
theorem word_returns (fl : Word) (j : Nat) (data : Word)
    {rest : Bool × Word → Flash Unit}
    (hrest : ∀ epData, Returns (rest (false, epData))) :
    Returns (progWord fl j data 3 true 0 >>= rest) := by
  refine .op () (.op () (.op () (.op () (.op () (.op data ?_)))))
  show Returns (progWord fl j data 2 (decide (_ ≠ _)) data >>= rest)
  rw [decide_eq_false (not_not_intro rfl)]
  exact hrest data

/-- `prog_ep` can return. -/
theorem progEp_returns (hexData : HexData) (wordCt : Nat) :
    Returns (progEp hexData wordCt) :=
  returns_forRange
    (fun j => word_returns _ j _ (fun _ => .ret ())) wordCt 1

/-- The lines before can be got over exactly when none of them is refused. -/
theorem handleLines_returns {lines : List (List Char)} {hexData : HexData} :
    Returns (handleLines progEp lines hexData) ↔
      ∀ piece ∈ lines, Passes piece := by
  induction lines generalizing hexData with
  | nil =>
      constructor
      · simp
      · intro _
        exact .ret hexData
  | cons line lines ih =>
      rw [List.forall_mem_cons, handleLines]
      cases hs : allSpace line with
      | true =>
          rw [getLine_space hs]
          exact ih.trans (and_iff_right (Or.inl hs)).symm
      | false =>
          by_cases hn : Refused (leadingNumbers (cString line))
          · rw [getLine_refused hs hn]
            constructor
            · intro h
              exact absurd h invalidLine_ends
            · rintro ⟨hpass | hpass, -⟩
              · exact nomatch hs.symm.trans hpass
              · exact absurd hn hpass
          · obtain ⟨wordCt, hpos, hget⟩ := getLine_accepted hn hexData
            rw [hget, prog_pure_bind]
            constructor
            · intro h
              obtain ⟨_, h⟩ := returns_second h
              exact ⟨Or.inr hn, ih.mp h⟩
            · rintro ⟨-, h⟩
              refine returns_bind ?_ (fun _ => ih.mpr h)
              rw [if_pos hpos]
              exact progEp_returns _ _

/-- **THE REFUSED LINES, EXACTLY**: take a line of a file, the whole lines
    `pre` before it and any text after it.  If the line is malformed, the
    program ends with the failure right after the lines before, without a
    further access, if and only if a piece of the lines before is refused
    already or the first piece of the line that is not white space starts with
    a refused number of hexadecimal numbers. -/
theorem rejected_iff {pre : List Char} (hpre : WholeLines pre)
    (line : List Char) (hexData : HexData) :
    (Malformed line → ∀ post,
      hexText progEp (pre ++ (line ++ '\n' :: post)) hexData
        = handleLines progEp (fgetsAll 256 pre) hexData >>= fun _ =>
            invalidLine) ↔
    (Malformed line → (∀ piece ∈ fgetsAll 256 pre, Passes piece) →
      StopsAt line) := by
  rw [← @handleLines_returns _ hexData]
  refine imp_congr_right (fun _ => ?_)
  constructor
  · intro h hret
    -- it is enough to look at a file that ends after the line
    have heq := h []
    rw [hexText_split hpre] at heq
    refine Classical.byContradiction (fun hstop => ?_)
    exact bind_ne hret (tail_ne_invalidLine hstop) heq
  · intro h post
    rw [hexText_split hpre]
    by_cases hret : Returns (handleLines progEp (fgetsAll 256 pre) hexData)
    · obtain ⟨piece, hfind, hn⟩ := h hret
      congr 1
      funext hexData'
      rw [handleLines_stops hfind hn]
      rfl
    · exact bind_of_not_returns hret _ _

/-- A legal number of values, then junk. -/
def junkLine : List Char := "0 1 2 3 4 zz".toList

/-- The first line of a file, with junk after four bytes. -/
theorem rejected_iff_junk :
    (Malformed junkLine → ∀ post,
      hexText progEp ([] ++ (junkLine ++ '\n' :: post)) (hexDataOf [])
        = handleLines progEp (fgetsAll 256 []) (hexDataOf []) >>= fun _ =>
            invalidLine) ↔
    (Malformed junkLine → (∀ piece ∈ fgetsAll 256 [], Passes piece) →
      StopsAt junkLine) :=
  rejected_iff (Or.inl rfl) junkLine (hexDataOf [])

/-- **JUNK IS DROPPED**: the line is malformed, and its first word is
    programmed. -/
theorem junk_programmed :
    '\n' ∉ junkLine ∧ ¬ WellFormed junkLine ∧
      hexText progEp (junkLine ++ ['\n']) (hexDataOf [])
        = (progEp #v[0x40000000, 0x04030201, 0, 0, 0] 1 >>= fun _ => fclose) ∧
      hexText progEp (junkLine ++ ['\n']) (hexDataOf []) ≠ invalidLine := by
  have hprog : hexText progEp (junkLine ++ ['\n']) (hexDataOf [])
      = (progEp #v[0x40000000, 0x04030201, 0, 0, 0] 1 >>= fun _ => fclose) := by
    have hlines : fgetsAll 256 (junkLine ++ ['\n']) = [junkLine ++ ['\n']] := by
      decide
    have hget : getLine (some (junkLine ++ ['\n'])) (hexDataOf [])
        = pure (false, #v[0x40000000, 0x04030201, 0, 0, 0], 1) := by
      rfl
    rw [hexText, hlines, readLines_cons, hget]
    show ((progEp _ 1 >>= fun _ => pure ()) >>= fun _ => fclose) = _
    rw [prog_bind_assoc]
    rfl
  refine ⟨by decide, by decide, hprog, ?_⟩
  rw [hprog]
  intro heq
  exact nomatch (Prog.op.inj heq).1

end FlashLines
