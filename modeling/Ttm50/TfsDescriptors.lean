import Ttm50.TfsHeader

/-! # File pointers

    What the pages of `tfs_open` and `tfs_lseek` say of the open mode and of
    the file pointer, for files that are named in any way `F`.  Both models of
    the manual pages have these descriptors. -/

namespace TfsDescriptors

open TfsHeader

variable {F : Type}

/-- `oMode` names a value. -/
def has (oMode flag : Nat) : Bool := oMode &&& flag ≠ 0

/-- A file pointer, and what its file was opened for. -/
structure Desc (F : Type) where
  file : F
  readable : Bool
  writable : Bool
  append : Bool
  offset : Nat

/-- The descriptor of a file that is opened. -/
def openedDesc (file : F) (oMode : Nat) : Desc F :=
  { file := file
    readable := has oMode tfsORdonly
    writable := has oMode tfsOWronly
    append := has oMode tfsOAppend
    offset := 0 }

/-- The position that `tfs_lseek` is asked for, in a file of `size` bytes. -/
def seekTarget (size : Nat) (d : Desc F) (offset : Int) (whence : Nat) : Int :=
  if whence = tfsSeekSet then offset
  else if whence = tfsSeekCur then d.offset + offset
  else size + offset

/-- There is always a free descriptor. -/
theorem free_desc (descs : List (Int × Desc F)) :
    ∃ fd : Int, 0 ≤ fd ∧ descs.lookup fd = none := by
  have hbound : ∃ fd : Int, 0 ≤ fd ∧ ∀ e ∈ descs, e.1 < fd := by
    induction descs with
    | nil => exact ⟨0, Int.le_refl 0, fun e he => absurd he List.not_mem_nil⟩
    | cons e descs ih =>
        obtain ⟨fd, hpos, hall⟩ := ih
        refine ⟨max fd (e.1 + 1), by omega, ?_⟩
        intro e' he'
        rcases List.mem_cons.mp he' with rfl | he'
        · omega
        · have hlt := hall e' he'
          omega
  obtain ⟨fd, hpos, hall⟩ := hbound
  refine ⟨fd, hpos, List.lookup_eq_none_iff.mpr ?_⟩
  intro e he
  exact bne_iff_ne.mpr (Int.ne_of_gt (hall e he))

end TfsDescriptors
