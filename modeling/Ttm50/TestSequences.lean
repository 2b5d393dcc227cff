import Ttm50.InteractivePrograms

/-! # Tests in sequence

    A test is a program that counts the errors it finds.  `Decides` says that
    every run of it is over without an exit, that it has found none exactly if
    `P` held of the world before, and that `P` then still holds, so that it can
    be repeated.  `R` is what a test without errors does to the world.

    * `decides_seq`: tests in sequence, where none spoils what the other asks
      for, decide the conjunction.
    * `decides_run`: what this says of a run. -/

namespace TestSequences

open InteractivePrograms

variable {Op : Type} {Res : Op → Type} {X W : Type} {env : Env Op Res W}
  {errors : W → Nat} {I J K P P' P'' : W → Prop} {R R' R'' : W → W → Prop}
  {p q : Prog Op Res X Unit} {w w' : W}

/-- How a test may end. -/
inductive Verdict (errors : W → Nat) (P : W → Prop) (R : W → W → Prop)
    (w w' : W) : Prop where
  | passed (before : P w) (after : P w') (clean : errors w' = errors w)
      (kept : R w w')
  | failed (before : ¬ P w) (worse : errors w < errors w')

/-- The test finds errors exactly where `P` does not hold. -/
def Decides (env : Env Op Res W) (errors : W → Nat) (I J P : W → Prop)
    (R : W → W → Prop) (p : Prog Op Res X Unit) : Prop :=
  ∀ w, I w → wp env (fun _ _ => True)
    (fun _ w' => J w' ∧ Verdict errors P R w w') (fun _ _ => False) p w

theorem Verdict.errors_le (h : Verdict errors P R w w') :
    errors w ≤ errors w' := by
  cases h with
  | passed _ _ clean _ => exact Nat.le_of_eq clean.symm
  | failed _ worse => exact Nat.le_of_lt worse

theorem Verdict.clean_iff (h : Verdict errors P R w w') :
    errors w' = errors w ↔ P w := by
  cases h with
  | passed before _ clean _ => exact ⟨fun _ => before, fun _ => clean⟩
  | failed before worse =>
      constructor
      · intro heq
        omega
      · intro hP
        exact absurd hP before

/-- The same condition in other words, and less about what the test does. -/
theorem decides_congr (hp : Decides env errors I J P R p)
    (hI : ∀ w, I w → (P w ↔ P' w))
    (hback : ∀ w w', I w → R w w' → P w' → P' w')
    (hR : ∀ w w', I w → R w w' → R' w w') : Decides env errors I J P' R' p := by
  intro w hw
  refine wp_mono ?_ (hp w hw)
  rintro _ w' ⟨hJ, hv⟩
  refine ⟨hJ, ?_⟩
  cases hv with
  | passed before after clean kept =>
      exact .passed ((hI w hw).mp before) (hback w w' hw kept after) clean
        (hR w w' hw kept)
  | failed before worse =>
      exact .failed (fun h => before ((hI w hw).mpr h)) worse

/-- More about what the test does, known from all its runs. -/
theorem decides_and {E : W → X → W → Prop} (hp : Decides env errors I J P R p)
    (hR' : ∀ w, wp env (fun _ _ => True) (fun _ => R' w) (E w) p w) :
    Decides env errors I J P (fun w w' => R w w' ∧ R' w w') p := by
  intro w hw
  refine wp_consequence (fun _ _ _ => trivial) ?_ (fun _ _ h => h.1)
    (wp_and (hp w hw) (hR' w))
  rintro _ w' ⟨⟨hJ, hv⟩, hR⟩
  refine ⟨hJ, ?_⟩
  cases hv with
  | passed before after clean kept =>
      exact .passed before after clean ⟨kept, hR⟩
  | failed before worse => exact .failed before worse

/-- **TESTS IN SEQUENCE**: the second asks for `P'` when it starts, which is
    `P''` when the first starts. -/
theorem decides_seq (hp : Decides env errors I J P R p)
    (hq : Decides env errors J K P' R' q)
    (hstart : ∀ w w', R w w' → P w → P w' → (P' w' ↔ P'' w))
    (hback : ∀ w w' w'', R w w' → R' w' w'' → P w' → P' w'' → P w'' ∧ P'' w'')
    (hR : ∀ w w' w'', R w w' → R' w' w'' → R'' w w'') :
    Decides env errors I K (fun w => P w ∧ P'' w) R'' (p >>= fun _ => q) := by
  intro w hw
  refine wp_seq (hp w hw) ?_
  rintro _ w₁ ⟨h₁, hv⟩
  refine wp_mono ?_ (hq w₁ h₁)
  rintro _ w₂ ⟨h₂, hv'⟩
  refine ⟨h₂, ?_⟩
  cases hv with
  | failed before worse =>
      exact .failed (fun h => before h.1)
        (Nat.lt_of_lt_of_le worse hv'.errors_le)
  | passed before after clean kept =>
      have hiff := hstart w w₁ kept before after
      cases hv' with
      | failed before' worse =>
          refine .failed (fun h => before' (hiff.mpr h.2)) ?_
          rw [← clean]
          exact worse
      | passed before' after' clean' kept' =>
          exact .passed ⟨before, hiff.mp before'⟩
            (hback w w₁ w₂ kept kept' after after') (clean'.trans clean)
            (hR w w₁ w₂ kept kept')

/-- **EVERY COMPLETE RUN** returns, and has found errors exactly where the
    condition does not hold. -/
theorem decides_run (hp : Decides env errors I J P R p) (hw : I w)
    {tr : Trace Op Res} {out : Outcome X Unit} (hr : Run env p w tr out w')
    (hend : out ≠ .running) :
    out = .returned () ∧ J w' ∧ Verdict errors P R w w' := by
  have hpost := wp_post (hp w hw) hr
  cases out with
  | running => exact absurd rfl hend
  | returned a => exact ⟨rfl, hpost⟩
  | exited x => exact absurd hpost id

end TestSequences
