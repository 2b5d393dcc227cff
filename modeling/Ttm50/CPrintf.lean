import Mathlib

/-! # The C library's `printf`

    The text that `printf` writes for a format with the conversions `%d`,
    `%x`, `%s` and `%%`, with the flags `-`, `0` and blank and with a minimum
    field width, as the C standard describes it.  The blank flag concerns
    signed numbers only. -/

namespace CPrintf

/-- An argument of `printf`. -/
inductive Value where
  | int (n : Int)
  | str (text : List Char)
  deriving DecidableEq, Repr

/-- What precedes the conversion character. -/
structure Spec where
  left : Bool
  blank : Bool
  zero : Bool
  width : Nat
  deriving DecidableEq, Repr

def Spec.plain : Spec := ⟨false, false, false, 0⟩

/-- A text filled up to the field width. -/
def padded (spec : Spec) (text : List Char) : List Char :=
  let fill := spec.width - text.length
  if spec.left then text ++ List.replicate fill ' '
  else List.replicate fill ' ' ++ text

/-- A number filled up to the field width; zeros follow the sign. -/
def paddedNumber (spec : Spec) (sign digits : List Char) : List Char :=
  if spec.zero ∧ !spec.left then
    sign ++ List.replicate (spec.width - (sign ++ digits).length) '0' ++ digits
  else padded spec (sign ++ digits)

/-- `%d`. -/
def signed (spec : Spec) (n : Int) : List Char :=
  let sign := if n < 0 then ['-'] else if spec.blank then [' '] else []
  paddedNumber spec sign (Nat.toDigits 10 n.natAbs)

/-- `%x` of a 32-bit word. -/
def hex (spec : Spec) (n : Int) : List Char :=
  paddedNumber spec [] (Nat.toDigits 16 (n % 2 ^ 32).toNat)

/-- The text for one conversion, and the arguments left. -/
def converted (spec : Spec) (conversion : Char) :
    List Value → List Char × List Value
  | .int n :: args =>
      if conversion = 'd' then (signed spec n, args)
      else if conversion = 'x' then (hex spec n, args)
      else ([], args)
  | .str text :: args =>
      if conversion = 's' then (padded spec text, args) else ([], args)
  | [] => ([], [])

/-- The text for the rest of a format; `some spec` within a conversion. -/
def formatFrom : Option Spec → List Char → List Value → List Char
  | _, [], _ => []
  | none, c :: format, args =>
      if c = '%' then formatFrom (some .plain) format args
      else c :: formatFrom none format args
  | some spec, c :: format, args =>
      if c = '-' then formatFrom (some { spec with left := true }) format args
      else if c = ' ' then
        formatFrom (some { spec with blank := true }) format args
      else if c = '0' ∧ spec.width = 0 then
        formatFrom (some { spec with zero := true }) format args
      else if c.isDigit then
        formatFrom
          (some { spec with width := 10 * spec.width + (c.toNat - '0'.toNat) })
          format args
      else if c = '%' then '%' :: formatFrom none format args
      else (converted spec c args).1
        ++ formatFrom none format (converted spec c args).2

/-- What `printf( format, args )` writes. -/
def formatted (format : String) (args : List Value) : List Char :=
  formatFrom none format.toList args

example : formatted "% 2s|%- 5s|%02x|%d%%\n" [.str ['I'], .str ['a'], .int 9, .int (-12)]
    = " I|a    |09|-12%\n".toList := by decide

/-! ## Fields of one width -/

/-- Texts of one length are read off their concatenation. -/
theorem flatMap_inj {A B : Type} {f : A → List B} {n : Nat} (hn : 0 < n)
    {xs ys : List A} (hx : ∀ x ∈ xs, (f x).length = n)
    (hy : ∀ y ∈ ys, (f y).length = n)
    (hf : ∀ x ∈ xs, ∀ y ∈ ys, f x = f y → x = y)
    (h : xs.flatMap f = ys.flatMap f) : xs = ys := by
  induction xs generalizing ys with
  | nil =>
      cases ys with
      | nil => rfl
      | cons y ys =>
          have hlen := congrArg List.length h
          rw [List.flatMap_nil, List.flatMap_cons, List.length_append,
            hy y List.mem_cons_self, List.length_nil] at hlen
          omega
  | cons x xs ih =>
      have hxlen := hx x List.mem_cons_self
      cases ys with
      | nil =>
          have hlen := congrArg List.length h
          rw [List.flatMap_nil, List.flatMap_cons, List.length_append, hxlen,
            List.length_nil] at hlen
          omega
      | cons y ys =>
          rw [List.flatMap_cons, List.flatMap_cons] at h
          obtain ⟨hfirst, hrest⟩ :=
            List.append_inj h (hxlen.trans (hy y List.mem_cons_self).symm)
          rw [hf x List.mem_cons_self y List.mem_cons_self hfirst,
            ih (fun x hx' => hx x (List.mem_cons_of_mem _ hx'))
              (fun y hy' => hy y (List.mem_cons_of_mem _ hy'))
              (fun x hx' y hy' =>
                hf x (List.mem_cons_of_mem _ hx') y (List.mem_cons_of_mem _ hy'))
              hrest]

/-! ## Numbers in decimal -/

/-- A plain `%d` of a number that is not negative. -/
theorem signed_plain {n : Int} (h : ¬ n < 0) :
    signed .plain n = Nat.toDigits 10 n.natAbs := by
  rw [signed]
  simp [h, paddedNumber, padded, Spec.plain]

theorem digits_inj {n m : Nat} (h : Nat.toDigits 10 n = Nat.toDigits 10 m) :
    n = m := by
  rw [← Nat.ofDigitChars_ten_toDigits (n := n), h, Nat.ofDigitChars_ten_toDigits]

/-- A number is read up to a character that is no digit. -/
theorem number_inj {n m : Nat} {c : Char} (hc : c.isDigit = false)
    {rest rest' : List Char}
    (h : Nat.toDigits 10 n ++ c :: rest = Nat.toDigits 10 m ++ c :: rest') :
    n = m ∧ rest = rest' := by
  have htake : ∀ k rest,
      (Nat.toDigits 10 k ++ c :: rest).takeWhile Char.isDigit
        = Nat.toDigits 10 k := by
    intro k rest
    have hall : ∀ d ∈ Nat.toDigits 10 k, d.isDigit = true :=
      fun d hd => Nat.isDigit_of_mem_toDigits (by decide) (by decide) hd
    rw [List.takeWhile_append_of_pos hall, List.takeWhile_cons_of_neg (by simp [hc]),
      List.append_nil]
  have hnumber : n = m := by
    apply digits_inj
    rw [← htake n rest, h, htake]
  rw [hnumber] at h
  exact ⟨hnumber, (List.cons.inj (List.append_cancel_left h)).2⟩

end CPrintf
