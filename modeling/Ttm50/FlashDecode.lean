import Ttm50.FlashLines

/-! # What the legal lines of the hex file mean

    A legal line holds an address and 4, 8, 12 or 16 byte values, separated by
    white space.  `sscanf` converts its tokens one by one
    (`sscanfHex_tokens`), and `get_line` makes words of the bytes, the first
    byte being the least significant one (`littleEndian_toNat`), whatever
    `hex_data` held before.

    A text of legal and of blank lines is handed to `prog_ep` or `check_ep`
    line by line (`lines_decoded`). -/

namespace FlashDecode

open CStdio InteractivePrograms FlashDriver FlashLines

/-! ## Tokens -/

/-- The characters of a token. -/
def inToken (c : Char) : Bool := !isSpace c

/-- A token that has begun goes on to the next white space. -/
theorem tokensFrom_begun {token : List Char} (h : token ≠ [])
    (text : List Char) :
    tokensFrom token text
      = (token ++ text.takeWhile inToken)
        :: tokens (text.dropWhile inToken) := by
  induction text generalizing token with
  | nil =>
      cases token with
      | nil => exact absurd rfl h
      | cons c token => simp [tokensFrom, tokens]
  | cons c text ih =>
      obtain ⟨d, token, rfl⟩ := List.exists_cons_of_ne_nil h
      rw [tokensFrom]
      by_cases hc : isSpace c = true
      · rw [if_pos hc, if_neg h, List.takeWhile_cons_of_neg (by simp [inToken, hc]),
          List.dropWhile_cons_of_neg (by simp [inToken, hc]), tokens,
          List.append_nil]
        cases text with
        | nil => simp [tokensFrom, hc]
        | cons e text => simp [tokensFrom, hc]
      · rw [if_neg hc, ih (by simp), List.takeWhile_cons_of_pos (by simp [inToken, hc]),
          List.dropWhile_cons_of_pos (by simp [inToken, hc]), List.append_assoc]
        rfl

/-- White space before a token is skipped. -/
theorem tokens_skip (text : List Char) :
    tokens text = tokens (text.dropWhile isSpace) := by
  induction text with
  | nil => rfl
  | cons c text ih =>
      by_cases hc : isSpace c = true
      · rw [List.dropWhile_cons_of_pos hc, ← ih]
        simp [tokens, tokensFrom, hc]
      · rw [List.dropWhile_cons_of_neg hc]

theorem tokens_nil {text : List Char} (h : text.dropWhile isSpace = []) :
    tokens text = [] := by
  rw [tokens_skip, h]
  rfl

theorem tokens_cons {text rest : List Char} {c : Char}
    (h : text.dropWhile isSpace = c :: rest) :
    tokens text = (c :: rest.takeWhile inToken)
      :: tokens (rest.dropWhile inToken) := by
  have hc : ¬ isSpace c = true := by
    have hhead := List.head?_dropWhile_not isSpace text
    rw [h] at hhead
    simpa using hhead
  rw [tokens_skip, h]
  show tokensFrom [] (c :: rest) = _
  rw [tokensFrom, if_neg hc]
  exact tokensFrom_begun (by simp) rest

/-! ## Conversions -/

/-- The number that a token spells. -/
def tokenValue (token : List Char) : Nat := hexNumber (skipPrefix token)

theorem space_not_xDigit {c : Char} (h : isSpace c = true) :
    isXDigit c = false := by
  have hc := of_decide_eq_true h
  rcases hc with rfl | rfl | rfl | rfl | rfl | rfl <;> decide

/-- A hexadecimal digit is none of the other characters that count. -/
theorem xDigit_ne {c d : Char} (h : isXDigit c = true)
    (hd : isXDigit d = false) : c ≠ d := by
  rintro rfl
  exact nomatch h.symm.trans hd

theorem xDigit_inToken {c : Char} (h : isXDigit c = true) :
    inToken c = true := by
  cases hs : isSpace c with
  | false => simp [inToken, hs]
  | true => exact absurd h (by simp [space_not_xDigit hs])

theorem scanSign_none {c : Char} (hminus : c ≠ '-') (hplus : c ≠ '+')
    (text : List Char) : scanSign (c :: text) = (false, c :: text) := by
  unfold scanSign
  split
  · rename_i heq
    exact absurd (List.cons.inj heq).1 hminus
  · rename_i heq
    exact absurd (List.cons.inj heq).1 hplus
  · rfl

theorem skipPrefix_none {c : Char} {text : List Char}
    (h : ∀ d r, text = d :: r → d ≠ 'x' ∧ d ≠ 'X') :
    skipPrefix (c :: text) = c :: text := by
  unfold skipPrefix
  split
  · rename_i heq
    exact absurd rfl (h _ _ (List.cons.inj heq).2).1
  · rename_i heq
    exact absurd rfl (h _ _ (List.cons.inj heq).2).2
  · rfl

/-- What follows a token: the end, or white space. -/
def Ends (rest : List Char) : Prop :=
  ∀ c r, rest = c :: r → isSpace c = true

/-- The digits of a token are its characters after an optional `0x`. -/
theorem digits_of_token {digits rest : List Char}
    (hdigits : digits.all isXDigit = true) (hrest : Ends rest) :
    (digits ++ rest).takeWhile isXDigit = digits ∧
      (digits ++ rest).dropWhile isXDigit = rest := by
  have hall : ∀ c ∈ digits, isXDigit c = true := List.all_eq_true.mp hdigits
  rw [List.takeWhile_append_of_pos hall, List.dropWhile_append_of_pos hall]
  cases rest with
  | nil => simp
  | cons c r =>
      have hc : isXDigit c = false := space_not_xDigit (hrest c r rfl)
      rw [List.takeWhile_cons_of_neg (by simp [hc]),
        List.dropWhile_cons_of_neg (by simp [hc]), List.append_nil]
      exact ⟨rfl, rfl⟩

/-- Sign and prefix of a token do not depend on what follows it. -/
theorem token_front {token rest : List Char}
    (hne : skipPrefix token ≠ [])
    (hdigits : (skipPrefix token).all isXDigit = true) (hrest : Ends rest) :
    (token ++ rest).dropWhile isSpace = token ++ rest ∧
    scanSign (token ++ rest) = (false, token ++ rest) ∧
    skipPrefix (token ++ rest) = skipPrefix token ++ rest := by
  revert hne hdigits
  fun_cases skipPrefix token
  · rename_i text
    intro _ _
    exact ⟨rfl, rfl, rfl⟩
  · rename_i text
    intro _ _
    exact ⟨rfl, rfl, rfl⟩
  · intro hne hdigits
    cases token with
    | nil => exact absurd rfl hne
    | cons c text =>
        obtain ⟨hc, htext⟩ : isXDigit c = true ∧ ∀ d ∈ text, isXDigit d = true := by
          simpa using hdigits
        have hspace : ¬ isSpace c = true := by
          have hin := xDigit_inToken hc
          simpa [inToken] using hin
        refine ⟨List.dropWhile_cons_of_neg hspace,
          scanSign_none (xDigit_ne hc (by decide)) (xDigit_ne hc (by decide)) _,
          skipPrefix_none ?_⟩
        intro d r heq
        cases text with
        | nil =>
            have hd := space_not_xDigit (hrest d r heq)
            have hspace := hrest d r heq
            constructor
            · rintro rfl
              exact absurd hspace (by decide)
            · rintro rfl
              exact absurd hspace (by decide)
        | cons e text =>
            obtain rfl : e = d := (List.cons.inj heq).1
            have he := htext e List.mem_cons_self
            exact ⟨xDigit_ne he (by decide), xDigit_ne he (by decide)⟩

/-- **ONE CONVERSION** takes one token. -/
theorem scanHex_token {token rest : List Char}
    (htoken : HexBelow 0x100000000 token) (hrest : Ends rest) :
    scanHex (token ++ rest)
      = some (BitVec.ofNat 32 (tokenValue token), rest) := by
  obtain ⟨hne, hdigits, hlt⟩ := htoken
  obtain ⟨hspace, hsign, hfront⟩ := token_front hne hdigits hrest
  obtain ⟨htake, hdrop⟩ := digits_of_token hdigits hrest
  have hfit : ¬ hexNumber (skipPrefix token) ≥ 2 ^ 32 := by
    rw [show (2 : Nat) ^ 32 = 0x100000000 by norm_num]
    exact Nat.not_le.mpr hlt
  rw [scanHex, hspace, hsign]
  dsimp only
  rw [hfront, htake, hdrop, if_neg hne, strtoulValue, if_neg hfit]
  rfl

/-- White space before a number is skipped. -/
theorem scanHex_skip (text : List Char) :
    scanHex text = scanHex (text.dropWhile isSpace) := by
  rw [scanHex, scanHex, List.dropWhile_idempotent]

theorem ends_dropWhile (text : List Char) : Ends (text.dropWhile inToken) := by
  intro c r heq
  have hhead := List.head?_dropWhile_not inToken text
  rw [heq] at hhead
  simpa [inToken] using hhead

/-- The words that tokens are converted to. -/
def conversions (ts : List (List Char)) : List Word :=
  ts.map (fun t => BitVec.ofNat 32 (tokenValue t))

/-- **ALL CONVERSIONS** take the tokens in their order. -/
theorem sscanfHex_tokens {text : List Char} {ts : List (List Char)}
    (hts : tokens text = ts) (hhex : ∀ t ∈ ts, HexBelow 0x100000000 t)
    {n : Nat} (hn : ts.length ≤ n) :
    sscanfHex n text = conversions ts := by
  induction ts generalizing text n with
  | nil =>
      cases n with
      | zero => rfl
      | succ n =>
          have hnone : scanHex text = none := by
            cases hdrop : text.dropWhile isSpace with
            | nil =>
                rw [scanHex_skip, hdrop]
                rfl
            | cons c r =>
                rw [tokens_cons hdrop] at hts
                exact absurd hts (List.cons_ne_nil _ _)
          rw [sscanfHex, hnone]
          rfl
  | cons t ts ih =>
      obtain ⟨n, rfl⟩ : ∃ m, n = m + 1 := ⟨n - 1, by
        rw [List.length_cons] at hn
        omega⟩
      obtain ⟨ht, hrest⟩ := List.forall_mem_cons.mp hhex
      cases hdrop : text.dropWhile isSpace with
      | nil =>
          rw [tokens_nil hdrop] at hts
          exact absurd hts.symm (List.cons_ne_nil t ts)
      | cons c r =>
          rw [tokens_cons hdrop] at hts
          obtain ⟨rfl, hts'⟩ := List.cons.inj hts
          -- the rest of the token is what `sscanf` goes on with
          have hsplit : c :: r
              = (c :: r.takeWhile inToken) ++ r.dropWhile inToken := by
            rw [List.cons_append, List.takeWhile_append_dropWhile]
          have hscan := scanHex_token ht (ends_dropWhile r)
          rw [← hsplit, ← hdrop, ← scanHex_skip] at hscan
          rw [sscanfHex, hscan]
          dsimp only
          rw [ih hts' hrest (Nat.le_of_succ_le_succ hn)]
          rfl

/-! ## The end of the string -/

theorem tokensFrom_cons (token : List Char) (c : Char) (text : List Char) :
    tokensFrom token (c :: text)
      = if isSpace c then
          (if token = [] then [] else [token]) ++ tokensFrom [] text
        else tokensFrom (token ++ [c]) text := by
  cases token with
  | nil => rfl
  | cons d token => rfl

/-- A character of a text is white space or in a token. -/
theorem mem_tokensFrom {token text : List Char} {c : Char}
    (h : c ∈ token ++ text) :
    isSpace c = true ∨ ∃ t ∈ tokensFrom token text, c ∈ t := by
  induction text generalizing token with
  | nil =>
      rw [List.append_nil] at h
      cases token with
      | nil => exact nomatch h
      | cons d token => exact .inr ⟨_, List.mem_cons_self, h⟩
  | cons d text ih =>
      rw [tokensFrom_cons]
      by_cases hd : isSpace d = true
      · rw [if_pos hd]
        rcases List.mem_append.mp h with htoken | htext
        · refine .inr ⟨token, List.mem_append_left _ ?_, htoken⟩
          rw [if_neg (List.ne_nil_of_mem htoken)]
          exact List.mem_cons_self
        · rcases List.mem_cons.mp htext with rfl | htext
          · exact .inl hd
          · rcases ih (List.mem_append_right [] htext) with hc | ⟨t, ht, hc⟩
            · exact .inl hc
            · exact .inr ⟨t, List.mem_append_right _ ht, hc⟩
      · rw [if_neg hd]
        refine ih ?_
        rw [List.append_assoc]
        exact h

/-- A hexadecimal number holds no NUL. -/
theorem token_no_nul {bound : Nat} {token : List Char}
    (h : HexBelow bound token) : '\x00' ∉ token := by
  obtain ⟨-, hdigits, -⟩ := h
  revert hdigits
  have hnone : ∀ digits : List Char, digits.all isXDigit = true →
      '\x00' ∉ digits := by
    intro digits hdigits hmem
    exact absurd (List.all_eq_true.mp hdigits _ hmem) (by decide)
  fun_cases skipPrefix token
  · rename_i text
    intro hdigits
    simpa using hnone text hdigits
  · rename_i text
    intro hdigits
    simpa using hnone text hdigits
  · exact hnone token

/-- A line of hexadecimal numbers is a C string as it stands. -/
theorem cString_line {line : List Char}
    (hhex : ∀ t ∈ tokens line, HexBelow 0x100000000 t) :
    cString line = line := by
  rw [cString, List.takeWhile_eq_self_iff]
  intro c hc
  refine decide_eq_true ?_
  rintro rfl
  rcases @mem_tokensFrom [] line _ hc with hspace | ⟨t, ht, hmem⟩
  · exact absurd hspace (by decide)
  · exact token_no_nul (hhex t ht) hmem

/-! ## Words -/

/-- A byte shifted to the left of smaller numbers. -/
theorem or_shift {low b n : Nat} (hlow : low < 2 ^ n) :
    low ||| b <<< n = low + 2 ^ n * b := by
  rw [Nat.or_comm, ← Nat.shiftLeft_add_eq_or_of_lt hlow, Nat.shiftLeft_eq]
  ring

/-- **LITTLE ENDIAN**: the word that four bytes make. -/
theorem littleEndian_toNat {b₀ b₁ b₂ b₃ : Nat} (h₀ : b₀ < 256) (h₁ : b₁ < 256)
    (h₂ : b₂ < 256) (h₃ : b₃ < 256) :
    (littleEndian (BitVec.ofNat 32 b₀) (BitVec.ofNat 32 b₁)
      (BitVec.ofNat 32 b₂) (BitVec.ofNat 32 b₃)).toNat
      = b₀ + 2 ^ 8 * b₁ + 2 ^ 16 * b₂ + 2 ^ 24 * b₃ := by
  have hbyte : ∀ b : Nat, b < 256 → (BitVec.ofNat 32 b &&& 255).toNat = b := by
    intro b hb
    rw [BitVec.toNat_and, BitVec.toNat_ofNat,
      show (255 : BitVec 32).toNat = 2 ^ 8 - 1 from rfl,
      Nat.and_two_pow_sub_one_eq_mod]
    omega
  have hshift : ∀ b n : Nat, b < 256 → n ≤ 24 →
      ((BitVec.ofNat 32 b &&& 255) <<< n).toNat = b <<< n := by
    intro b n hb hn
    rw [BitVec.toNat_shiftLeft, hbyte b hb, Nat.shiftLeft_eq]
    refine Nat.mod_eq_of_lt ?_
    calc b * 2 ^ n
        < 2 ^ 8 * 2 ^ n := Nat.mul_lt_mul_of_pos_right hb (Nat.two_pow_pos n)
      _ = 2 ^ (8 + n) := (Nat.pow_add 2 8 n).symm
      _ ≤ 2 ^ 32 := Nat.pow_le_pow_right (by omega) (by omega)
  have e₁ := @or_shift b₀ b₁ 8 (by omega)
  have e₂ := @or_shift (b₀ + 2 ^ 8 * b₁) b₂ 16 (by omega)
  have e₃ := @or_shift (b₀ + 2 ^ 8 * b₁ + 2 ^ 16 * b₂) b₃ 24 (by omega)
  rw [littleEndian, BitVec.toNat_or, BitVec.toNat_or, BitVec.toNat_or,
    hshift b₁ 8 h₁ (by omega), hshift b₂ 16 h₂ (by omega),
    hshift b₃ 24 h₃ (by omega)]
  show (BitVec.ofNat 32 b₀ &&& (255 : Word)).toNat ||| b₁ <<< 8 ||| b₂ <<< 16
    ||| b₃ <<< 24 = _
  rw [hbyte b₀ h₀, e₁, e₂, e₃]

/-- The word that bytes make from the byte `4 * i` on; missing ones are 0. -/
def wordAt (bytes : List (List Char)) (i : Nat) : Nat :=
  let b (j : Nat) : Nat := tokenValue (bytes.getD (4 * i + j) [])
  b 0 + 2 ^ 8 * b 1 + 2 ^ 16 * b 2 + 2 ^ 24 * b 3

theorem wordAt_missing {bytes : List (List Char)} {i : Nat}
    (h : bytes.length ≤ 4 * i) : wordAt bytes i = 0 := by
  have hnil : ∀ j, bytes.getD (4 * i + j) [] = [] :=
    fun j => List.getD_eq_default _ _ (by omega)
  simp only [wordAt, hnil]
  rfl

/-- The four words of a line. -/
theorem hexDataOf_word {address : List Char} {bytes : List (List Char)}
    (hbytes : ∀ byte ∈ bytes, HexBelow 256 byte) {i : Nat} (hi : i < 4) :
    ((hexDataOf (conversions (address :: bytes))).getD (i + 1) 0).toNat
      = wordAt bytes i := by
  have hlt : ∀ j, tokenValue (bytes.getD j []) < 256 := by
    intro j
    by_cases hj : j < bytes.length
    · rw [List.getD_eq_getElem _ _ hj]
      exact (hbytes _ (List.getElem_mem hj)).2.2
    · rw [List.getD_eq_default _ _ (by omega)]
      decide
  have hbyte : ∀ j, ((conversions (address :: bytes)).drop 1).getD j 0
      = BitVec.ofNat 32 (tokenValue (bytes.getD j [])) := by
    intro j
    have hmap := List.getD_map bytes []
      (fun t => BitVec.ofNat 32 (tokenValue t)) (n := j)
    exact hmap
  have hword : ∀ j, (littleEndian
      (((conversions (address :: bytes)).drop 1).getD j 0)
      (((conversions (address :: bytes)).drop 1).getD (j + 1) 0)
      (((conversions (address :: bytes)).drop 1).getD (j + 2) 0)
      (((conversions (address :: bytes)).drop 1).getD (j + 3) 0)).toNat
      = tokenValue (bytes.getD j []) + 2 ^ 8 * tokenValue (bytes.getD (j + 1) [])
        + 2 ^ 16 * tokenValue (bytes.getD (j + 2) [])
        + 2 ^ 24 * tokenValue (bytes.getD (j + 3) []) := by
    intro j
    rw [hbyte, hbyte, hbyte, hbyte,
      littleEndian_toNat (hlt _) (hlt _) (hlt _) (hlt _)]
  have hcases : i = 0 ∨ i = 1 ∨ i = 2 ∨ i = 3 := by omega
  rcases hcases with rfl | rfl | rfl | rfl
  · exact hword 0
  · exact hword 4
  · exact hword 8
  · exact hword 12

/-! ## One line -/

/-- What a legal line means: the address in the flash window, its words, and
    zero in the rest of `hex_data`. -/
def Decodes (line : List Char) (hexData : HexData) (wordCt : Nat) : Prop :=
  ∃ address bytes, tokens line = address :: bytes ∧
    bytes.length = 4 * wordCt ∧
    lineAddress hexData
      = BitVec.ofNat 32 (tokenValue address) ||| flashBaseAddress ∧
    (∀ i < wordCt, (hexData.getD (i + 1) 0).toNat = wordAt bytes i) ∧
    ∀ i, wordCt ≤ i → i < 4 → hexData.getD (i + 1) 0 = 0

/-- The four numbers of bytes that are legal. -/
theorem wordCount_bytes {n : Nat} (h : n ∈ [4, 8, 12, 16]) :
    ∃ wordCt, n = 4 * wordCt ∧ wordCt ≤ 4 ∧
      wordCount (n + 1) = some wordCt := by
  have hcases : n = 4 ∨ n = 8 ∨ n = 12 ∨ n = 16 := by simpa using h
  rcases hcases with rfl | rfl | rfl | rfl
  · exact ⟨1, rfl, by omega, rfl⟩
  · exact ⟨2, rfl, by omega, rfl⟩
  · exact ⟨3, rfl, by omega, rfl⟩
  · exact ⟨4, rfl, by omega, rfl⟩

/-- **ONE LINE**: whatever `hex_data` held, it holds the words of the line,
    and `file_end` is not set. -/
theorem getLine_legal {line : List Char} (h : AddressAndBytes (tokens line)) :
    ∃ hexData' wordCt, 0 < wordCt ∧ Decodes line hexData' wordCt ∧
      ∀ hexData, getLine (some line) hexData = pure (false, hexData', wordCt) := by
  cases hts : tokens line with
  | nil =>
      rw [hts] at h
      exact h.elim
  | cons address bytes =>
      rw [hts] at h
      obtain ⟨haddress, hlen, hbytes⟩ := h
      have hhex : ∀ t ∈ tokens line, HexBelow 0x100000000 t := by
        rw [hts]
        refine List.forall_mem_cons.mpr ⟨haddress, ?_⟩
        intro byte hbyte
        obtain ⟨hne, hdigits, hlt⟩ := hbytes byte hbyte
        exact ⟨hne, hdigits, by omega⟩
      obtain ⟨wordCt, hct, hle, hk⟩ := wordCount_bytes hlen
      have hvalues : sscanfHex 17 (cString line)
          = conversions (address :: bytes) := by
        rw [cString_line hhex]
        refine sscanfHex_tokens hts (by rwa [hts] at hhex) ?_
        rw [List.length_cons]
        omega
      refine ⟨hexDataOf (conversions (address :: bytes)), wordCt,
        wordCount_pos hk, ⟨address, bytes, hts, hct, rfl, ?_, ?_⟩, ?_⟩
      · intro i hi
        exact hexDataOf_word hbytes (by omega)
      · intro i hi hi4
        refine BitVec.eq_of_toNat_eq ?_
        rw [hexDataOf_word hbytes hi4, wordAt_missing (by omega)]
        rfl
      · intro hexData
        have hcount : wordCount (conversions (address :: bytes)).length
            = some wordCt := by
          rw [conversions, List.length_map]
          exact hk
        rw [getLine, hvalues, hcount]

/-! ## The lines of a file -/

/-- A line as `fgets` may return it whole: legal, in at most 255 characters. -/
def LegalLine (line : List Char) : Prop :=
  AddressAndBytes (tokens line) ∧ line.length ≤ 255

/-- White space, of any length. -/
def BlankLine (line : List Char) : Prop := line.all isSpace = true

/-- A newline only at the end, if at all. -/
def OneLine (line : List Char) : Prop := '\n' ∉ line.dropLast

instance (line : List Char) : Decidable (LegalLine line) :=
  inferInstanceAs (Decidable (_ ∧ _))

instance (line : List Char) : Decidable (BlankLine line) :=
  inferInstanceAs (Decidable (_ = _))

instance (line : List Char) : Decidable (OneLine line) :=
  inferInstanceAs (Decidable (¬ _))

/-- A short line is one piece. -/
theorem linesFrom_short {room : Nat} {line text : List Char}
    (hroom : line.length + text.length ≤ room) (htext : OneLine text)
    (hne : line ++ text ≠ []) : linesFrom room line text = [line ++ text] := by
  induction text generalizing line with
  | nil =>
      rw [List.append_nil] at hne ⊢
      exact linesFrom_nil room hne
  | cons c text ih =>
      rw [List.length_cons] at hroom
      rw [linesFrom_cons]
      cases text with
      | nil =>
          by_cases hc : c = '\n' ∨ line.length + 1 = room
          · rw [if_pos hc]
            rfl
          · rw [if_neg hc, linesFrom_nil _ (by simp)]
      | cons d text =>
          unfold OneLine at htext
          rw [List.dropLast_cons_of_ne_nil (List.cons_ne_nil d text)] at htext
          obtain ⟨hc, htail⟩ := not_or.mp (fun h => htext (List.mem_cons.mpr h))
          have hfull : ¬ (c = '\n' ∨ line.length + 1 = room) := by
            rw [List.length_cons] at hroom
            rintro (h | h)
            · exact hc h.symm
            · omega
          rw [if_neg hfull, ih _ htail (by simp), List.append_assoc]
          · rfl
          · rw [List.length_append, List.length_singleton]
            omega

theorem fgetsAll_short {line : List Char} (hlen : line.length ≤ 255)
    (hline : OneLine line) (hne : line ≠ []) : fgetsAll 256 line = [line] :=
  linesFrom_short (by simpa using hlen) hline hne

/-- No character is lost by `fgets`. -/
theorem linesFrom_flatten (room : Nat) (line text : List Char) :
    (linesFrom room line text).flatten = line ++ text := by
  induction text generalizing line with
  | nil =>
      cases line with
      | nil => rfl
      | cons c line => simp [linesFrom]
  | cons c text ih =>
      rw [linesFrom_cons]
      split
      · rw [List.flatten_cons, ih, List.nil_append, List.append_assoc]
        rfl
      · rw [ih, List.append_assoc]
        rfl

/-- The pieces of a blank line are blank. -/
theorem fgetsAll_blank {line piece : List Char} (hline : BlankLine line)
    (hpiece : piece ∈ fgetsAll 256 line) : allSpace piece = true := by
  have hall : ∀ c ∈ piece, isSpace c = true := by
    intro c hc
    refine List.all_eq_true.mp hline c ?_
    have hmem := List.mem_flatten.mpr ⟨piece, hpiece, hc⟩
    rw [fgetsAll, linesFrom_flatten] at hmem
    exact hmem
  have hstring : cString piece = piece := by
    rw [cString, List.takeWhile_eq_self_iff]
    intro c hc
    refine decide_eq_true ?_
    rintro rfl
    exact absurd (hall _ hc) (by decide)
  rw [allSpace, hstring, List.takeWhile_eq_self_iff.mpr hall]
  exact decide_eq_true rfl

/-- Each line is handed over once, in order. -/
def deliver (ep : HexData → Nat → Flash Unit) :
    List (HexData × Nat) → Flash Unit
  | [] => pure ()
  | (hexData, wordCt) :: rest => do
      ep hexData wordCt
      deliver ep rest

theorem deliver_append (ep : HexData → Nat → Flash Unit)
    (records records' : List (HexData × Nat)) :
    deliver ep (records ++ records')
      = deliver ep records >>= fun _ => deliver ep records' := by
  induction records with
  | nil => rfl
  | cons r records ih =>
      rw [List.cons_append, deliver, deliver, ih, prog_bind_assoc]

/-- Pieces of white space are skipped. -/
theorem handleLines_spaces (ep : HexData → Nat → Flash Unit)
    {pieces : List (List Char)} (h : ∀ piece ∈ pieces, allSpace piece = true)
    (hexData : HexData) : handleLines ep pieces hexData = pure hexData := by
  induction pieces with
  | nil => rfl
  | cons piece pieces ih =>
      obtain ⟨hpiece, hpieces⟩ := List.forall_mem_cons.mp h
      rw [handleLines, getLine_space hpiece]
      exact ih hpieces

/-- A legal line is handed over. -/
theorem handleLines_legal (ep : HexData → Nat → Flash Unit) {line : List Char}
    {hexData' : HexData} {wordCt : Nat} (hpos : 0 < wordCt)
    (h : ∀ hexData, getLine (some line) hexData = pure (false, hexData', wordCt))
    (hexData : HexData) :
    handleLines ep [line] hexData
      = ep hexData' wordCt >>= fun _ => pure hexData' := by
  rw [handleLines, h hexData, prog_pure_bind]
  dsimp only
  rw [if_pos hpos]
  rfl

/-- The lines of a file that are not blank. -/
def written (lines : List (List Char)) : List (List Char) :=
  lines.filter (fun line => !line.all isSpace)

theorem written_blank {line : List Char} (h : BlankLine line)
    (lines : List (List Char)) : written (line :: lines) = written lines :=
  List.filter_cons_of_neg (by simp [BlankLine] at h; simpa using h)

/-- A legal line holds more than white space. -/
theorem legal_not_blank {line : List Char} (h : LegalLine line) :
    line.all isSpace = false ∧ line ≠ [] := by
  have hne : line.dropWhile isSpace ≠ [] := by
    intro hnil
    have hlegal := h.1
    rw [tokens_nil hnil] at hlegal
    exact hlegal
  constructor
  · refine Bool.eq_false_iff.mpr ?_
    intro hall
    exact hne (List.dropWhile_eq_nil_iff.mpr (List.all_eq_true.mp hall))
  · rintro rfl
    exact hne rfl

theorem written_legal {line : List Char} (h : LegalLine line)
    (lines : List (List Char)) :
    written (line :: lines) = line :: written lines :=
  List.filter_cons_of_pos (by simp [(legal_not_blank h).1])

/-- What is handed over of a file: a record for each line that is not blank,
    in their order. -/
def Delivered (lines : List (List Char)) (records : List (HexData × Nat)) :
    Prop :=
  List.Forall₂ (fun line r => Decodes line r.1 r.2) (written lines) records

theorem delivered_cons {line : List Char} {lines : List (List Char)}
    {records records' : List (HexData × Nat)} (h : Delivered [line] records)
    (h' : Delivered lines records') :
    Delivered (line :: lines) (records ++ records') := by
  have hwritten : written (line :: lines) = written [line] ++ written lines :=
    List.filter_append [line] lines
  rw [Delivered, hwritten]
  exact List.rel_append h h'

/-- The pieces of one line: its record is handed over, or nothing. -/
theorem handleLines_line {line : List Char} (hone : OneLine line)
    (hline : LegalLine line ∨ BlankLine line) :
    ∃ records, Delivered [line] records ∧ ∀ ep hexData, ∃ hexData',
      handleLines ep (fgetsAll 256 line) hexData
        = deliver ep records >>= fun _ => pure hexData' := by
  rcases hline with hlegal | hblank
  · obtain ⟨hexData', wordCt, hpos, hdecodes, hget⟩ := getLine_legal hlegal.1
    refine ⟨[(hexData', wordCt)], ?_, ?_⟩
    · rw [Delivered, written_legal hlegal]
      exact .cons hdecodes .nil
    · intro ep hexData
      refine ⟨hexData', ?_⟩
      rw [fgetsAll_short hlegal.2 hone (legal_not_blank hlegal).2,
        handleLines_legal ep hpos hget, deliver, prog_bind_assoc]
      rfl
  · refine ⟨[], ?_, ?_⟩
    · rw [Delivered, written_blank hblank]
      exact .nil
    · intro ep hexData
      exact ⟨hexData, handleLines_spaces ep
        (fun piece hpiece => fgetsAll_blank hblank hpiece) hexData⟩

/-- The loop over legal and blank lines; the last one may lack its newline. -/
theorem readLines_file {lines : List (List Char)} {last : List Char}
    (hwhole : ∀ line ∈ lines, WholeLines line)
    (hone : ∀ line ∈ lines ++ [last], OneLine line)
    (hlines : ∀ line ∈ lines ++ [last], LegalLine line ∨ BlankLine line) :
    ∃ records, Delivered (lines ++ [last]) records ∧ ∀ ep hexData,
      readLines ep (fgetsAll 256 (lines.flatten ++ last)) hexData
        = deliver ep records := by
  induction lines with
  | nil =>
      obtain ⟨records, hrecords, hline⟩ := handleLines_line
        (hone last List.mem_cons_self) (hlines last List.mem_cons_self)
      refine ⟨records, hrecords, ?_⟩
      intro ep hexData
      obtain ⟨hexData', hhandle⟩ := hline ep hexData
      rw [List.flatten_nil, List.nil_append, ← List.append_nil (fgetsAll 256 last),
        readLines_append, hhandle, prog_bind_assoc]
      -- at the end of the file nothing is handed over
      exact (deliver_append ep records []).symm.trans (by rw [List.append_nil])
  | cons line lines ih =>
      obtain ⟨hwhole, hwholes⟩ := List.forall_mem_cons.mp hwhole
      obtain ⟨hone, hones⟩ := List.forall_mem_cons.mp hone
      obtain ⟨hline, hlines⟩ := List.forall_mem_cons.mp hlines
      obtain ⟨records, hrecords, hline⟩ := handleLines_line hone hline
      obtain ⟨records', hrecords', hread⟩ := ih hwholes hones hlines
      refine ⟨records ++ records', delivered_cons hrecords hrecords', ?_⟩
      intro ep hexData
      obtain ⟨hexData', hhandle⟩ := hline ep hexData
      rw [List.flatten_cons, List.append_assoc, fgetsAll_append 256 hwhole,
        readLines_append, hhandle, prog_bind_assoc, deliver_append]
      congr 1
      funext _
      exact hread ep hexData'

/-- A file of legal and of blank lines. -/
structure HexFile where
  lines : List (List Char)
  last : List Char
  whole : ∀ line ∈ lines, WholeLines line
  one : ∀ line ∈ lines ++ [last], OneLine line
  legal : ∀ line ∈ lines ++ [last], LegalLine line ∨ BlankLine line

def HexFile.text (f : HexFile) : List Char := f.lines.flatten ++ f.last

/-- What `prog_hf` and `check_hf` do once `fopen` has returned the file. -/
def Opens (p : Flash Unit) (f : HexFile) (q : Flash Unit) : Prop :=
  ∃ k, p = .op .fopen k ∧ k (some f.text) = q

/-- **THE LEGAL LINES**: `get_line` decodes each of them exactly, whatever
    `hex_data` held before; `prog_hf` and `check_hf` hand over the lines of a
    file in their order, each once, until its end. -/
theorem lines_decoded :
    (∀ line, LegalLine line → ∃ hexData' wordCt,
      Decodes line hexData' wordCt ∧ ∀ hexData,
        getLine (some line) hexData = pure (false, hexData', wordCt)) ∧
    ∀ f : HexFile, ∃ records, Delivered (f.lines ++ [f.last]) records ∧
      ∀ hexData,
        Opens (progHf hexData) f (deliver progEp records >>= fun _ => fclose) ∧
        Opens (checkHf hexData) f
          (deliver checkEp records >>= fun _ => fclose) := by
  constructor
  · intro line hline
    obtain ⟨hexData', wordCt, -, hdecodes, hget⟩ := getLine_legal hline.1
    exact ⟨hexData', wordCt, hdecodes, hget⟩
  · intro f
    obtain ⟨records, hrecords, hread⟩ := readLines_file f.whole f.one f.legal
    have htext : ∀ ep hexData, hexText ep f.text hexData
        = (deliver ep records >>= fun _ => fclose) := by
      intro ep hexData
      rw [hexText, HexFile.text, hread]
    refine ⟨records, hrecords, ?_⟩
    intro hexData
    exact ⟨⟨_, rfl, htext progEp hexData⟩, ⟨_, rfl, htext checkEp hexData⟩⟩

example : getLine (some "1C 01 02 03 04\n".toList) (hexDataOf [9, 9, 9])
    = pure (false, #v[0x4000001c, 0x04030201, 0, 0, 0], 1) := by rfl

/-- Two legal lines with a blank one between them, in different notations. -/
def demoFile : HexFile where
  lines := ["1C 01 02 03 04\n".toList, " \t\n".toList]
  last := "0x20\t0xaa 0XBB cc DD 1 2 3 4".toList
  whole := by
    intro line hline
    rcases List.mem_cons.mp hline with rfl | hline
    · exact .inr ⟨"1C 01 02 03 04".toList, rfl⟩
    · obtain rfl := List.mem_singleton.mp hline
      exact .inr ⟨" \t".toList, rfl⟩
  one := by
    intro line hline
    fin_cases hline <;> decide
  legal := by
    intro line hline
    fin_cases hline
    · exact .inl (by decide)
    · exact .inr (by decide)
    · exact .inl (by decide)

theorem lines_decoded_demo :
    (∃ hexData' wordCt, Decodes demoFile.last hexData' wordCt ∧ ∀ hexData,
      getLine (some demoFile.last) hexData
        = pure (false, hexData', wordCt)) ∧
    ∃ records, Delivered (demoFile.lines ++ [demoFile.last]) records ∧
      ∀ hexData,
        Opens (progHf hexData) demoFile
          (deliver progEp records >>= fun _ => fclose) ∧
        Opens (checkHf hexData) demoFile
          (deliver checkEp records >>= fun _ => fclose) :=
  ⟨lines_decoded.1 demoFile.last (by decide), lines_decoded.2 demoFile⟩

end FlashDecode
