import Mathlib

/-! # The C library's text functions

    `fgets`, `atoi`, `strspn`, `strlen` and the `%x` conversion of `sscanf`, as
    the C standard describes them, over lists of characters.  A C string ends
    at its first NUL.

    An input stream is the list of the lines that its successive `fgets` calls
    will return; `fgetsAll` cuts a text into these lines, and `fgetsAll_step`
    says that its first line is what one `fgets` reads. -/

namespace CStdio

/-- A 32-bit `unsigned long`. -/
abbrev Word := BitVec 32

/-! ## Characters -/

/-- `isspace`: blank, tab, newline, vertical tab, form feed, return. -/
def isSpace (c : Char) : Bool :=
  c = ' ' ∨ c = '\t' ∨ c = '\n' ∨ c = '\x0b' ∨ c = '\x0c' ∨ c = '\r'

/-- The value of a hexadecimal digit. -/
def hexValue (c : Char) : Option Nat :=
  if '0' ≤ c ∧ c ≤ '9' then some (c.toNat - '0'.toNat)
  else if 'a' ≤ c ∧ c ≤ 'f' then some (c.toNat - 'a'.toNat + 10)
  else if 'A' ≤ c ∧ c ≤ 'F' then some (c.toNat - 'A'.toNat + 10)
  else none

/-- `isxdigit`. -/
def isXDigit (c : Char) : Bool := (hexValue c).isSome

/-- The characters of a C string: those before the first NUL. -/
def cString (line : List Char) : List Char :=
  line.takeWhile (fun c => c ≠ '\x00')

/-- `strspn( line, " \t\n\r\f\v" ) == strlen( line )`. -/
def allSpace (line : List Char) : Bool :=
  ((cString line).takeWhile isSpace).length = (cString line).length

/-! ## `atoi` -/

/-- The number that decimal digits spell. -/
def decimalNumber (digits : List Char) : Nat :=
  digits.foldl (fun v c => 10 * v + (c.toNat - '0'.toNat)) 0

/-- `atoi`: white space is skipped, then an optional sign and digits are
    read; no digits give zero. -/
def atoi (text : String) : Int :=
  match text.toList.dropWhile isSpace with
  | '-' :: rest => -(decimalNumber (rest.takeWhile Char.isDigit) : Int)
  | '+' :: rest => decimalNumber (rest.takeWhile Char.isDigit)
  | rest => decimalNumber (rest.takeWhile Char.isDigit)

/-! ## `fgets` -/

/-- The characters one `fgets` reads when it has room for `room` more: up to
    and including the first newline.  With them, the text left. -/
def readLine : (room : Nat) → List Char → List Char × List Char
  | 0, text => ([], text)
  | _ + 1, [] => ([], [])
  | room + 1, c :: text =>
      if c = '\n' then ([c], text)
      else
        let (line, rest) := readLine room text
        (c :: line, rest)

/-- `fgets( line, size, fp )` on the text left in the file: `none` at its
    end, else the line and the text left. -/
def fgets (size : Nat) (text : List Char) : Option (List Char × List Char) :=
  if text = [] then none else some (readLine (size - 1) text)

/-- The lines of a text, when `line` has been read of the current one and a
    line holds at most `room` characters. -/
def linesFrom (room : Nat) : (line : List Char) → List Char → List (List Char)
  | [], [] => []
  | line, [] => [line]
  | line, c :: text =>
      if c = '\n' ∨ line.length + 1 = room then
        (line ++ [c]) :: linesFrom room [] text
      else linesFrom room (line ++ [c]) text

/-- What the successive calls of `fgets` with this size return. -/
def fgetsAll (size : Nat) (text : List Char) : List (List Char) :=
  linesFrom (size - 1) [] text

theorem linesFrom_cons (room : Nat) (line : List Char) (c : Char)
    (text : List Char) :
    linesFrom room line (c :: text)
      = if c = '\n' ∨ line.length + 1 = room then
          (line ++ [c]) :: linesFrom room [] text
        else linesFrom room (line ++ [c]) text := by
  cases line <;> rfl

theorem linesFrom_nil (room : Nat) {line : List Char} (h : line ≠ []) :
    linesFrom room line [] = [line] := by
  cases line with
  | nil => exact absurd rfl h
  | cons c line => rfl

/-- The first line is the one read so far with the rest of it. -/
theorem linesFrom_readLine {room : Nat} (text : List Char) {line : List Char}
    (hroom : line.length < room) (hne : line ≠ [] ∨ text ≠ []) :
    linesFrom room line text
      = (line ++ (readLine (room - line.length) text).1)
        :: linesFrom room [] (readLine (room - line.length) text).2 := by
  induction text generalizing line with
  | nil =>
      have hline : line ≠ [] := by
        rcases hne with h | h
        · exact h
        · exact absurd rfl h
      rw [linesFrom_nil room hline]
      cases room - line.length with
      | zero => simp [readLine, linesFrom]
      | succ n => simp [readLine, linesFrom]
  | cons c text ih =>
      -- the line read so far is not full yet
      obtain ⟨n, hn⟩ : ∃ n, room - line.length = n + 1 :=
        ⟨room - line.length - 1, by omega⟩
      rw [linesFrom_cons, hn, readLine]
      by_cases hc : c = '\n'
      · rw [if_pos (Or.inl hc), if_pos hc]
      · rw [if_neg hc]
        by_cases hfull : line.length + 1 = room
        · -- the line is full: nothing more is read of it
          obtain rfl : n = 0 := by omega
          rw [if_pos (Or.inr hfull)]
          rfl
        · have hlen : (line ++ [c]).length = line.length + 1 :=
            List.length_append
          rw [if_neg (not_or.mpr ⟨hc, hfull⟩),
            ih (by omega) (Or.inl (List.append_ne_nil_of_right_ne_nil _ (List.cons_ne_nil _ _))),
            hlen, show room - (line.length + 1) = n by omega,
            List.append_assoc]
          rfl

/-- **THE STREAM**: the first of the lines is what one `fgets` reads, the
    others are the lines of the text it leaves. -/
theorem fgetsAll_step {size : Nat} (hsize : 1 < size) (text : List Char) :
    fgetsAll size text
      = match fgets size text with
        | none => []
        | some (line, rest) => line :: fgetsAll size rest := by
  rw [fgets]
  by_cases h : text = []
  · subst h
    rfl
  · rw [if_neg h, fgetsAll,
      linesFrom_readLine text (by rw [List.length_nil]; omega) (Or.inr h)]
    rfl

theorem linesFrom_append (room : Nat) (line pre rest : List Char) :
    linesFrom room line (pre ++ '\n' :: rest)
      = linesFrom room line (pre ++ ['\n']) ++ linesFrom room [] rest := by
  induction pre generalizing line with
  | nil =>
      rw [List.nil_append, List.nil_append, linesFrom_cons, linesFrom_cons,
        if_pos (Or.inl rfl), if_pos (Or.inl rfl)]
      rfl
  | cons c pre ih =>
      rw [List.cons_append, List.cons_append, linesFrom_cons, linesFrom_cons]
      split
      · rw [ih, List.cons_append]
      · exact ih _

/-- A text of whole lines: empty, or with a newline at its end. -/
def WholeLines (text : List Char) : Prop :=
  text = [] ∨ ∃ pre, text = pre ++ ['\n']

/-- Whole lines are read apart from what follows them. -/
theorem fgetsAll_append (size : Nat) {pre : List Char} (h : WholeLines pre)
    (rest : List Char) :
    fgetsAll size (pre ++ rest) = fgetsAll size pre ++ fgetsAll size rest := by
  rcases h with rfl | ⟨pre, rfl⟩
  · rfl
  · rw [List.append_assoc]
    exact linesFrom_append (size - 1) [] pre rest

/-! ## `sscanf` with `%x` -/

/-- An optional sign: whether it is a minus, and the rest. -/
def scanSign : List Char → Bool × List Char
  | '-' :: text => (true, text)
  | '+' :: text => (false, text)
  | text => (false, text)

/-- The rest after an optional `0x`. -/
def skipPrefix : List Char → List Char
  | '0' :: 'x' :: text => text
  | '0' :: 'X' :: text => text
  | text => text

/-- The number that hexadecimal digits spell. -/
def hexNumber (digits : List Char) : Nat :=
  digits.foldl (fun v c => 16 * v + (hexValue c).getD 0) 0

/-- The value `strtoul` gives to a number: the largest one when it does not
    fit, negated in 32 bits after a minus. -/
def strtoulValue (negative : Bool) (number : Nat) : Word :=
  if number ≥ 2 ^ 32 then 0xffffffff
  else if negative then -(BitVec.ofNat 32 number)
  else BitVec.ofNat 32 number

/-- One `%x`: skip white space, then an optional sign, an optional `0x` and
    at least one hexadecimal digit; `none` when the input does not match. -/
def scanHex (text : List Char) : Option (Word × List Char) :=
  let (negative, text) := scanSign (text.dropWhile isSpace)
  let digits := (skipPrefix text).takeWhile isXDigit
  let rest := (skipPrefix text).dropWhile isXDigit
  if digits = [] then none
  else some (strtoulValue negative (hexNumber digits), rest)

/-- `sscanf` with `n` conversions `%x`, separated by blanks: the values
    converted before the input ends or does not match.  Its return value is
    their number (or `EOF`, when there is none). -/
def sscanfHex : (n : Nat) → List Char → List Word
  | 0, _ => []
  | n + 1, text =>
      match scanHex text with
      | none => []
      | some (value, rest) => value :: sscanfHex n rest

theorem dropWhile_length_le (p : Char → Bool) (text : List Char) :
    (text.dropWhile p).length ≤ text.length :=
  (List.dropWhile_suffix p).length_le

theorem scanSign_length (text : List Char) :
    (scanSign text).2.length ≤ text.length := by
  fun_cases scanSign text
  · exact Nat.le_succ _
  · exact Nat.le_succ _
  · exact Nat.le_refl _

theorem skipPrefix_length (text : List Char) :
    (skipPrefix text).length ≤ text.length := by
  fun_cases skipPrefix text
  · exact Nat.le_add_right _ 2
  · exact Nat.le_add_right _ 2
  · exact Nat.le_refl _

/-- A conversion consumes at least one character. -/
theorem scanHex_length {text rest : List Char} {value : Word}
    (h : scanHex text = some (value, rest)) : rest.length < text.length := by
  have h₁ := dropWhile_length_le isSpace text
  have h₂ := scanSign_length (text.dropWhile isSpace)
  have h₃ := skipPrefix_length (scanSign (text.dropWhile isSpace)).2
  rw [scanHex] at h
  generalize hs : scanSign (text.dropWhile isSpace) = sign at *
  obtain ⟨negative, text'⟩ := sign
  simp only at h h₂ h₃
  split at h
  · exact nomatch h
  · rename_i hdigits
    obtain ⟨-, rfl⟩ := Prod.mk.inj (Option.some.inj h)
    have hsplit : ((skipPrefix text').takeWhile isXDigit).length
        + ((skipPrefix text').dropWhile isXDigit).length
        = (skipPrefix text').length := by
      rw [← List.length_append, List.takeWhile_append_dropWhile]
    have hpos := List.length_pos_iff.mpr hdigits
    omega

/-- How many hexadecimal numbers a text starts with. -/
def leadingNumbers (text : List Char) : Nat :=
  (sscanfHex text.length text).length

/-- The numbers a text starts with do not depend on the bound, once it is
    large enough. -/
theorem sscanfHex_stable {n m : Nat} {text : List Char}
    (hn : text.length ≤ n) (hm : text.length ≤ m) :
    sscanfHex n text = sscanfHex m text := by
  induction n generalizing m text with
  | zero =>
      obtain rfl : text = [] := List.length_eq_zero_iff.mp (by omega)
      cases m with
      | zero => rfl
      | succ m => rfl
  | succ n ih =>
      cases m with
      | zero =>
          obtain rfl : text = [] := List.length_eq_zero_iff.mp (by omega)
          rfl
      | succ m =>
          rw [sscanfHex, sscanfHex]
          cases hx : scanHex text with
          | none => rfl
          | some vr =>
              obtain ⟨value, rest⟩ := vr
              have hlt := scanHex_length hx
              have hrest : sscanfHex n rest = sscanfHex m rest :=
                ih (by omega) (by omega)
              show value :: sscanfHex n rest = value :: sscanfHex m rest
              rw [hrest]

/-- `sscanf` converts all the leading numbers, or as many as it is asked
    for. -/
theorem sscanfHex_count (n : Nat) (text : List Char) :
    (sscanfHex n text).length = min n (leadingNumbers text) := by
  rw [leadingNumbers]
  induction n generalizing text with
  | zero => rw [Nat.zero_min]; rfl
  | succ n ih =>
      rw [sscanfHex]
      cases hx : scanHex text with
      | none =>
          have hnone : sscanfHex text.length text = [] := by
            cases text.length with
            | zero => rfl
            | succ m => rw [sscanfHex, hx]
          rw [hnone]
          rfl
      | some vr =>
          obtain ⟨value, rest⟩ := vr
          have hlt := scanHex_length hx
          obtain ⟨m, hm⟩ : ∃ m, text.length = m + 1 :=
            ⟨text.length - 1, by omega⟩
          -- the rest is shorter, so it is converted alike with either bound
          have hall : sscanfHex text.length text
              = value :: sscanfHex rest.length rest := by
            rw [hm, sscanfHex, hx]
            show value :: sscanfHex m rest = _
            rw [sscanfHex_stable (n := m) (m := rest.length) (by omega)
              (Nat.le_refl _)]
          rw [hall, List.length_cons, List.length_cons, ih]
          omega

end CStdio
