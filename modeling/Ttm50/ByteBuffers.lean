import Mathlib

/-! # Byte buffers and words

    Memory from a pointer on is a function from offsets to bytes.  A 32-bit
    word lies in four bytes, the least significant one first.

    * `loadWord_eq_iff`: a word in memory has a value if and only if its four
      bytes are the bytes of that value;
    * `term_inj`: a progression of words modulo 2^32 does not come back
      before its period, although its increment may be even;
    * `term_ne_zero`: an odd first term and an even increment avoid zero. -/

namespace ByteBuffers

abbrev Byte := BitVec 8
abbrev Word := BitVec 32

/-- Memory from a pointer on. -/
abbrev Buffer := Nat → Byte

/-! ## Words in memory -/

/-- Byte `k` of a word, the least significant one first. -/
def byteOf (v : Word) (k : Nat) : Byte := BitVec.ofNat 8 (v.toNat / 256 ^ k)

/-- The word at an offset. -/
def loadWord (b : Buffer) (i : Nat) : Word :=
  BitVec.ofNat 32 ((b i).toNat + 256 * (b (i + 1)).toNat
    + 65536 * (b (i + 2)).toNat + 16777216 * (b (i + 3)).toNat)

/-- Memory with a word stored at an offset. -/
def storeWord (b : Buffer) (i : Nat) (v : Word) : Buffer :=
  fun j => if i ≤ j ∧ j < i + 4 then byteOf v (j - i) else b j

theorem byteOf_toNat (v : Word) (k : Nat) :
    (byteOf v k).toNat = v.toNat / 256 ^ k % 256 := BitVec.toNat_ofNat _ _

/-- **A WORD AND ITS BYTES**. -/
theorem loadWord_eq_iff (b : Buffer) (i : Nat) (v : Word) :
    loadWord b i = v ↔ ∀ k < 4, b (i + k) = byteOf v k := by
  have h₀ := (b i).isLt
  have h₁ := (b (i + 1)).isLt
  have h₂ := (b (i + 2)).isLt
  have h₃ := (b (i + 3)).isLt
  have hload : (loadWord b i).toNat = (b i).toNat + 256 * (b (i + 1)).toNat
      + 65536 * (b (i + 2)).toNat + 16777216 * (b (i + 3)).toNat := by
    rw [loadWord, BitVec.toNat_ofNat]
    omega
  have hbyte : ∀ k, b (i + k) = byteOf v k ↔
      (b (i + k)).toNat = v.toNat / 256 ^ k % 256 := by
    intro k
    rw [← BitVec.toNat_inj, byteOf_toNat]
  have hv := v.isLt
  rw [← BitVec.toNat_inj, hload]
  constructor
  · intro h k hk
    rw [hbyte]
    interval_cases k <;> norm_num <;> omega
  · intro h
    have e₀ := (hbyte 0).mp (h 0 (by omega))
    have e₁ := (hbyte 1).mp (h 1 (by omega))
    have e₂ := (hbyte 2).mp (h 2 (by omega))
    have e₃ := (hbyte 3).mp (h 3 (by omega))
    norm_num at e₀ e₁ e₂ e₃
    omega

theorem byteOf_inj {v w : Word} (h : ∀ k < 4, byteOf v k = byteOf w k) :
    v = w := by
  have hv : loadWord (byteOf v) 0 = v :=
    (loadWord_eq_iff _ 0 v).mpr (fun k _ => by rw [Nat.zero_add])
  have hw : loadWord (byteOf v) 0 = w :=
    (loadWord_eq_iff _ 0 w).mpr (fun k hk => by rw [Nat.zero_add, h k hk])
  exact hv.symm.trans hw

@[simp] theorem byteOf_zero (k : Nat) : byteOf 0 k = 0 := by
  simp [byteOf]

theorem storeWord_at (b : Buffer) (i : Nat) (v : Word) {k : Nat} (h : k < 4) :
    storeWord b i v (i + k) = byteOf v k := by
  rw [storeWord, if_pos (by omega), Nat.add_sub_cancel_left]

theorem storeWord_other (b : Buffer) {i j : Nat} (v : Word)
    (h : ¬ (i ≤ j ∧ j < i + 4)) : storeWord b i v j = b j := if_neg h

/-! ## Ranges of bytes -/

/-- The first `len` bytes. -/
def bytes (b : Buffer) (len : Nat) : List Byte := (List.range len).map b

/-- `memset( b, value, len )`. -/
def memset (b : Buffer) (value : Byte) (len : Nat) : Buffer :=
  fun j => if j < len then value else b j

/-- Memory with the bytes of a list copied to its start. -/
def copyIn (b : Buffer) (data : List Byte) : Buffer :=
  fun j => data.getD j (b j)

/-- A list of bytes as memory; there are zeros after it. -/
def ofBytes (data : List Byte) : Buffer := copyIn (fun _ => 0) data

@[simp] theorem bytes_length (b : Buffer) (len : Nat) :
    (bytes b len).length = len := by
  simp [bytes]

theorem bytes_getD (b : Buffer) {len j : Nat} (h : j < len) (d : Byte) :
    (bytes b len).getD j d = b j := by
  simp [bytes, List.getD_eq_getElem?_getD, h]

theorem ofBytes_bytes (b : Buffer) {len j : Nat} (h : j < len) :
    ofBytes (bytes b len) j = b j := bytes_getD b h 0

theorem copyIn_other (b : Buffer) {data : List Byte} {j : Nat}
    (h : data.length ≤ j) : copyIn b data j = b j := by
  rw [copyIn, List.getD_eq_getElem?_getD, List.getElem?_eq_none h]
  rfl

/-! ## Progressions of words -/

/-- Term `k` of the progression `first, first + inc, ...` modulo 2^32. -/
def term (first inc : Word) (k : Nat) : Word := first + BitVec.ofNat 32 k * inc

/-- The memory that holds a progression word by word. -/
def termByte (first inc : Word) : Buffer :=
  fun j => byteOf (term first inc (j / 4)) (j % 4)

@[simp] theorem term_zero (first inc : Word) : term first inc 0 = first := by
  simp [term]

theorem term_succ (first inc : Word) (k : Nat) :
    term (first + inc) inc k = term first inc (k + 1) := by
  rw [term, term, BitVec.ofNat_add, BitVec.add_mul, BitVec.add_comm (BitVec.ofNat 32 k * inc),
    BitVec.one_mul, BitVec.add_assoc]

theorem term_toNat (first inc : Word) (k : Nat) :
    (term first inc k).toNat = (first.toNat + k * inc.toNat) % 2 ^ 32 := by
  rw [term, BitVec.toNat_add, BitVec.toNat_mul, BitVec.toNat_ofNat]
  exact Nat.ModEq.add_left _ ((Nat.mod_modEq _ _).trans
    (Nat.ModEq.mul_right _ (Nat.mod_modEq _ _)))

/-- **NO TERM COMES TWICE** within the period, which is `2^(32 - t)` for an
    increment with `t` factors 2. -/
theorem term_inj {first inc : Word} {t m : Nat} (hinc : inc.toNat = 2 ^ t * m)
    (hodd : Odd m) (ht : t ≤ 32) {j k : Nat} (hj : j < 2 ^ (32 - t))
    (hk : k < 2 ^ (32 - t)) (h : term first inc j = term first inc k) :
    j = k := by
  have hsum : first.toNat + j * inc.toNat ≡ first.toNat + k * inc.toNat
      [MOD 2 ^ 32] := by
    have h' := congrArg BitVec.toNat h
    rwa [term_toNat, term_toNat] at h'
  have hmul : j * inc.toNat ≡ k * inc.toNat [MOD 2 ^ 32] :=
    Nat.ModEq.add_left_cancel' _ hsum
  -- the odd factor is invertible, the factors 2 shorten the modulus
  have hcop : Nat.Coprime (2 ^ 32) m :=
    Nat.Coprime.pow_left 32 (Nat.coprime_two_left.mpr hodd)
  have hpow : 2 ^ t * j ≡ 2 ^ t * k [MOD 2 ^ t * 2 ^ (32 - t)] := by
    rw [← pow_add, Nat.add_sub_cancel' ht]
    refine Nat.ModEq.cancel_right_of_coprime hcop ?_
    rw [hinc] at hmul
    calc 2 ^ t * j * m = j * (2 ^ t * m) := by ring
      _ ≡ k * (2 ^ t * m) [MOD 2 ^ 32] := hmul
      _ = 2 ^ t * k * m := by ring
  have hjk : j ≡ k [MOD 2 ^ (32 - t)] :=
    Nat.ModEq.mul_left_cancel' (by positivity) hpow
  exact Nat.ModEq.eq_of_lt_of_lt hjk hj hk

theorem term_ne_zero {first inc : Word} (hfirst : first.toNat % 2 = 1)
    (hinc : inc.toNat % 2 = 0) (k : Nat) : term first inc k ≠ 0 := by
  intro h
  have h' := congrArg BitVec.toNat h
  rw [term_toNat] at h'
  have hterm : k * inc.toNat % 2 = 0 := by
    rw [Nat.mul_mod, hinc, Nat.mul_zero, Nat.zero_mod]
  have hzero : (0 : Word).toNat = 0 := rfl
  omega

/-- The four bytes of one word of the progression. -/
theorem termByte_at (first inc : Word) (k : Nat) {i : Nat} (h : i < 4) :
    termByte first inc (4 * k + i) = byteOf (term first inc k) i := by
  rw [termByte, show (4 * k + i) / 4 = k by omega,
    show (4 * k + i) % 4 = i by omega]

/-- The memory of a progression from its second term on. -/
theorem termByte_succ (first inc : Word) (j : Nat) :
    termByte (first + inc) inc j = termByte first inc (j + 4) := by
  rw [termByte, termByte, term_succ, show (j + 4) / 4 = j / 4 + 1 by omega,
    show (j + 4) % 4 = j % 4 by omega]

end ByteBuffers
