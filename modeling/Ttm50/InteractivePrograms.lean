import Mathlib

/-! # Interactive programs — runs and weakest preconditions

    A program performs operations `o : Op`, each answered with a result of
    type `Res o`, and ends by returning or by exiting from the whole program.
    An ENVIRONMENT says which results an operation may have in a world, and
    which worlds may follow; it need not be deterministic.

    * `Run env p w tr out w'`: the program, started in `w`, has performed the
      operations of `tr` and is in `w'`; a run may stop anywhere (`running`).
    * `wp env ok Q E p w`: in every run from `w` each operation is performed
      in a world where `ok` holds, a return satisfies `Q` and an exit `E`
      (`wp_post`, `wp_each`).
    * `watching next` is the environment that gives any answer and whose
      world is an observer of the trace. -/

namespace InteractivePrograms

/-- A program over the operations `Op`. -/
inductive Prog (Op : Type) (Res : Op → Type) (X A : Type) : Type where
  | ret (a : A)
  | exit (x : X)
  | op (o : Op) (k : Res o → Prog Op Res X A)

variable {Op : Type} {Res : Op → Type} {X A B C W : Type}

/-- Sequencing: an exit skips the rest. -/
def Prog.bind : Prog Op Res X A → (A → Prog Op Res X B) → Prog Op Res X B
  | .ret a, f => f a
  | .exit x, _ => .exit x
  | .op o k, f => .op o (fun r => (k r).bind f)

instance : Monad (Prog Op Res X) where
  pure := .ret
  bind := Prog.bind

/-- One operation. -/
def perform (o : Op) : Prog Op Res X (Res o) := .op o .ret

@[simp] theorem ret_bind (a : A) (f : A → Prog Op Res X B) :
    (Prog.ret a >>= f) = f a := rfl

@[simp] theorem prog_pure_bind (a : A) (f : A → Prog Op Res X B) :
    ((pure a : Prog Op Res X A) >>= f) = f a := rfl

@[simp] theorem exit_bind (x : X) (f : A → Prog Op Res X B) :
    (Prog.exit x >>= f) = .exit x := rfl

@[simp] theorem op_bind (o : Op) (k : Res o → Prog Op Res X A)
    (f : A → Prog Op Res X B) :
    (Prog.op o k >>= f) = .op o (fun r => k r >>= f) := rfl

@[simp] theorem perform_bind (o : Op) (f : Res o → Prog Op Res X B) :
    (perform o >>= f) = .op o f := rfl

theorem prog_bind_assoc (p : Prog Op Res X A) (f : A → Prog Op Res X B)
    (g : B → Prog Op Res X C) :
    ((p >>= f) >>= g) = (p >>= fun a => f a >>= g) := by
  induction p with
  | ret a => rfl
  | exit x => rfl
  | op o k ih =>
      show Prog.op o (fun r => (k r >>= f) >>= g)
        = .op o (fun r => k r >>= fun a => f a >>= g)
      congr 1
      funext r
      exact ih r

/-- Some run of the program returns. -/
inductive Returns : Prog Op Res X A → Prop where
  | ret (a : A) : Returns (.ret a)
  | op {o : Op} {k : Res o → Prog Op Res X A} (r : Res o) :
      Returns (k r) → Returns (.op o k)

theorem returns_bind {p : Prog Op Res X A} {f : A → Prog Op Res X B}
    (hp : Returns p) (hf : ∀ a, Returns (f a)) : Returns (p >>= f) := by
  induction hp with
  | ret a => exact hf a
  | op r _ ih => exact .op r ih

/-- A sequence that returns has come to its second part. -/
theorem returns_second {p : Prog Op Res X A} {f : A → Prog Op Res X B}
    (h : Returns (p >>= f)) : ∃ a, Returns (f a) := by
  induction p with
  | ret a => exact ⟨a, h⟩
  | exit x => exact nomatch h
  | op o k ih =>
      cases h with
      | op r h => exact ih r h

/-- A program that never returns absorbs what follows. -/
theorem bind_of_not_returns {p : Prog Op Res X A} (h : ¬ Returns p)
    (f g : A → Prog Op Res X B) : (p >>= f) = (p >>= g) := by
  induction p with
  | ret a => exact absurd (.ret a) h
  | exit x => rfl
  | op o k ih =>
      show Prog.op o (fun r => k r >>= f) = .op o (fun r => k r >>= g)
      congr 1
      funext r
      exact ih r (fun hr => h (.op r hr))

/-- After a program that can return, different continuations differ. -/
theorem bind_ne {p : Prog Op Res X A} (h : Returns p)
    {f g : A → Prog Op Res X B} (hne : ∀ a, f a ≠ g a) :
    (p >>= f) ≠ (p >>= g) := by
  induction h with
  | ret a => exact hne a
  | @op o k r _ ih =>
      intro heq
      have heq' : Prog.op o (fun r => k r >>= f) = .op o (fun r => k r >>= g) :=
        heq
      exact ih (congrFun (eq_of_heq (Prog.op.inj heq').2) r)

/-! ## Loops -/

/-- `for (j = first; j < first + left; j++) body( j );` -/
def forRange (body : Nat → Prog Op Res X Unit) :
    (left first : Nat) → Prog Op Res X Unit
  | 0, _ => pure ()
  | left + 1, j => do
      body j
      forRange body left (j + 1)

theorem returns_forRange {body : Nat → Prog Op Res X Unit}
    (hbody : ∀ j, Returns (body j)) (left first : Nat) :
    Returns (forRange body left first) := by
  induction left generalizing first with
  | zero => exact .ret ()
  | succ left ih => exact returns_bind (hbody first) (fun _ => ih (first + 1))

/-- A loop that its body may leave: the loop and the body say whether it has
    been left. -/
def forUntil (body : Nat → Prog Op Res X Bool) :
    (left first : Nat) → Prog Op Res X Bool
  | 0, _ => pure false
  | left + 1, j => do
      let leave ← body j
      if leave then pure true else forUntil body left (j + 1)

/-! ## Environments and runs -/

/-- The results an operation may have in a world, and the worlds that may
    follow. -/
abbrev Env (Op : Type) (Res : Op → Type) (W : Type) :=
  W → (o : Op) → Res o → W → Prop

/-- Any answer at all, and nothing is kept of it. -/
abbrev anyAnswer : Env Op Res Unit := fun _ _ _ _ => True

/-- The operations of a run with their results. -/
abbrev Trace (Op : Type) (Res : Op → Type) := List ((o : Op) × Res o)

/-- Where a run has got to. -/
inductive Outcome (X A : Type) where
  | running
  | returned (a : A)
  | exited (x : X)

/-- The runs of a program, complete or not. -/
inductive Run (env : Env Op Res W) :
    Prog Op Res X A → W → Trace Op Res → Outcome X A → W → Prop where
  | stop (p : Prog Op Res X A) (w : W) : Run env p w [] .running w
  | ret (a : A) (w : W) : Run env (.ret a) w [] (.returned a) w
  | exit (x : X) (w : W) : Run env (.exit x) w [] (.exited x) w
  | op {o : Op} {k : Res o → Prog Op Res X A} {r : Res o} {w m w' : W}
      {tr : Trace Op Res} {out : Outcome X A} :
      env w o r m → Run env (k r) m tr out w' →
      Run env (.op o k) w (⟨o, r⟩ :: tr) out w'

/-- A run without operations stays in its world. -/
theorem run_nil {env : Env Op Res W} {p : Prog Op Res X A} {w w' : W}
    {out : Outcome X A} (h : Run env p w [] out w') : w' = w := by
  generalize htr : ([] : Trace Op Res) = tr at h
  cases h with
  | stop | ret | exit => rfl
  | op => exact nomatch htr

/-! ## Weakest preconditions -/

/-- Every operation finds `ok`, a return satisfies `Q`, an exit `E`. -/
def wp (env : Env Op Res W) (ok : W → Op → Prop) (Q : A → W → Prop)
    (E : X → W → Prop) : Prog Op Res X A → W → Prop
  | .ret a, w => Q a w
  | .exit x, w => E x w
  | .op o k, w => ok w o ∧ ∀ r w', env w o r w' → wp env ok Q E (k r) w'

variable {env : Env Op Res W} {ok : W → Op → Prop} {E : X → W → Prop}

@[simp] theorem wp_ret {Q : A → W → Prop} (a : A) (w : W) :
    wp env ok Q E (.ret a) w ↔ Q a w := Iff.rfl

@[simp] theorem wp_pure {Q : A → W → Prop} (a : A) (w : W) :
    wp env ok Q E (pure a) w ↔ Q a w := Iff.rfl

@[simp] theorem wp_exit {Q : A → W → Prop} (x : X) (w : W) :
    wp env ok Q E (.exit x) w ↔ E x w := Iff.rfl

@[simp] theorem wp_op {Q : A → W → Prop} (o : Op)
    (k : Res o → Prog Op Res X A) (w : W) :
    wp env ok Q E (.op o k) w ↔
      ok w o ∧ ∀ r w', env w o r w' → wp env ok Q E (k r) w' := Iff.rfl

@[simp] theorem wp_perform {o : Op} {Q : Res o → W → Prop} (w : W) :
    wp env ok Q E (perform o) w ↔ ok w o ∧ ∀ r w', env w o r w' → Q r w' :=
  Iff.rfl

/-- **THE CONSEQUENCE RULE**. -/
theorem wp_consequence {ok' : W → Op → Prop} {Q Q' : A → W → Prop}
    {E' : X → W → Prop} (hok : ∀ w o, ok w o → ok' w o)
    (hQ : ∀ a w, Q a w → Q' a w) (hE : ∀ x w, E x w → E' x w)
    {p : Prog Op Res X A} {w : W} (h : wp env ok Q E p w) :
    wp env ok' Q' E' p w := by
  induction p generalizing w with
  | ret a => exact hQ a w h
  | exit x => exact hE x w h
  | op o k ih =>
      obtain ⟨h₀, h⟩ := h
      refine ⟨hok w o h₀, ?_⟩
      intro r w' hr
      exact ih r (h r w' hr)

theorem wp_mono {Q Q' : A → W → Prop} (hQ : ∀ a w, Q a w → Q' a w)
    {p : Prog Op Res X A} {w : W} (h : wp env ok Q E p w) :
    wp env ok Q' E p w :=
  wp_consequence (fun _ _ h => h) hQ (fun _ _ h => h) h

/-- **THE SEQUENCE RULE**. -/
@[simp] theorem wp_bind {Q : B → W → Prop} (p : Prog Op Res X A)
    (f : A → Prog Op Res X B) (w : W) :
    wp env ok Q E (p >>= f) w ↔
      wp env ok (fun a => wp env ok Q E (f a)) E p w := by
  induction p generalizing w with
  | ret a => exact Iff.rfl
  | exit x => exact Iff.rfl
  | op o k ih =>
      constructor
      · rintro ⟨hok, h⟩
        exact ⟨hok, fun r w' hr => (ih r w').mp (h r w' hr)⟩
      · rintro ⟨hok, h⟩
        exact ⟨hok, fun r w' hr => (ih r w').mpr (h r w' hr)⟩

theorem wp_pure_bind {Q : B → W → Prop} (a : A) (f : A → Prog Op Res X B)
    (w : W) : wp env ok Q E (pure a >>= f) w ↔ wp env ok Q E (f a) w := Iff.rfl

/-- The sequence rule with an assertion between the two programs. -/
theorem wp_seq {I : A → W → Prop} {Q : B → W → Prop} {p : Prog Op Res X A}
    {f : A → Prog Op Res X B} {w : W} (hp : wp env ok I E p w)
    (hf : ∀ a w', I a w' → wp env ok Q E (f a) w') :
    wp env ok Q E (p >>= f) w :=
  (wp_bind p f w).mpr (wp_mono hf hp)

/-- **THE CONJUNCTION RULE**. -/
theorem wp_and {ok' : W → Op → Prop} {Q Q' : A → W → Prop}
    {E' : X → W → Prop} {p : Prog Op Res X A} {w : W}
    (h : wp env ok Q E p w) (h' : wp env ok' Q' E' p w) :
    wp env (fun w o => ok w o ∧ ok' w o) (fun a w => Q a w ∧ Q' a w)
      (fun x w => E x w ∧ E' x w) p w := by
  induction p generalizing w with
  | ret a => exact ⟨h, h'⟩
  | exit x => exact ⟨h, h'⟩
  | op o k ih =>
      refine ⟨⟨h.1, h'.1⟩, ?_⟩
      intro r w' hr
      exact ih r (h.2 r w' hr) (h'.2 r w' hr)

/-- **THE LOOP RULE**: an invariant indexed by the loop counter. -/
theorem wp_forRange {I : Nat → W → Prop} {body : Nat → Prog Op Res X Unit}
    {left first : Nat}
    (hbody : ∀ j w, first ≤ j → j < first + left → I j w →
      wp env ok (fun _ => I (j + 1)) E (body j) w)
    {w : W} (h : I first w) :
    wp env ok (fun _ => I (first + left)) E (forRange body left first) w := by
  induction left generalizing first w with
  | zero => exact h
  | succ left ih =>
      show wp env ok _ E (body first >>= fun _ =>
        forRange body left (first + 1)) w
      refine wp_seq (hbody first w (Nat.le_refl _) (by omega) h) ?_
      intro _ w' h'
      -- the rest of the loop is a loop from the next counter
      rw [show first + (left + 1) = first + 1 + left by omega]
      refine ih ?_ h'
      intro j w'' hle hlt
      exact hbody j w'' (by omega) (by omega)

/-- **THE RULE OF A LOOP THAT MAY BE LEFT**: `L` holds where it is left. -/
theorem wp_forUntil {I : Nat → W → Prop} {L : W → Prop}
    {body : Nat → Prog Op Res X Bool} {left first : Nat}
    (hbody : ∀ j w, first ≤ j → j < first + left → I j w →
      wp env ok (fun leave w' => if leave then L w' else I (j + 1) w') E
        (body j) w)
    {w : W} (h : I first w) :
    wp env ok (fun leave w' => if leave then L w' else I (first + left) w') E
      (forUntil body left first) w := by
  induction left generalizing first w with
  | zero => exact h
  | succ left ih =>
      refine wp_seq (hbody first w (Nat.le_refl _) (by omega) h) ?_
      intro leave w' h'
      cases leave with
      | true => exact h'
      | false =>
          show wp env ok _ E (forUntil body left (first + 1)) w'
          rw [show first + (left + 1) = first + 1 + left by omega]
          refine ih ?_ h'
          intro j w'' hle hlt
          exact hbody j w'' (by omega) (by omega)

/-! ## Soundness -/

/-- What an outcome has to satisfy. -/
def Outcome.Meets (Q : A → W → Prop) (E : X → W → Prop) (w : W) :
    Outcome X A → Prop
  | .running => True
  | .returned a => Q a w
  | .exited x => E x w

/-- **SOUNDNESS**, at the end of a run. -/
theorem wp_post {Q : A → W → Prop} {p : Prog Op Res X A} {w w' : W}
    {tr : Trace Op Res} {out : Outcome X A} (h : wp env ok Q E p w)
    (hr : Run env p w tr out w') : out.Meets Q E w' := by
  induction hr with
  | stop p w => trivial
  | ret a w => exact h
  | exit x w => exact h
  | op he _ ih => exact ih (h.2 _ _ he)

/-- **SOUNDNESS**, at every operation of a run. -/
theorem wp_each {Q : A → W → Prop} {p : Prog Op Res X A} {w w' : W}
    {tr₁ tr₂ : Trace Op Res} {o : Op} {r : Res o} {out : Outcome X A}
    (h : wp env ok Q E p w)
    (hr : Run env p w (tr₁ ++ ⟨o, r⟩ :: tr₂) out w') :
    ∃ m, Run env p w tr₁ .running m ∧ ok m o := by
  induction tr₁ generalizing p w with
  | nil =>
      cases hr with
      | op he hr' => exact ⟨w, .stop _ w, h.1⟩
  | cons e tr₁ ih =>
      cases hr with
      | op he hr' =>
          obtain ⟨m, hm, hok⟩ := ih (h.2 _ _ he) hr'
          exact ⟨m, .op he hm, hok⟩

/-- **SOUNDNESS**, at the last operation of a run. -/
theorem wp_last {Q : A → W → Prop} {p : Prog Op Res X A} {w w' : W}
    {tr : Trace Op Res} {o : Op} {r : Res o} {out : Outcome X A}
    (h : wp env ok Q E p w) (hr : Run env p w (tr ++ [⟨o, r⟩]) out w') :
    ∃ m, ok m o ∧ env m o r w' := by
  induction tr generalizing p w with
  | nil =>
      cases hr with
      | op he hr' =>
          obtain rfl := run_nil hr'
          exact ⟨w, h.1, he⟩
  | cons e tr ih =>
      cases hr with
      | op he hr' => exact ih (h.2 _ _ he) hr'

/-- A run that returns goes on with what follows. -/
theorem run_bind {p : Prog Op Res X A} {f : A → Prog Op Res X B} {w m w' : W}
    {tr tr' : Trace Op Res} {a : A} {out : Outcome X B}
    (h : Run env p w tr (.returned a) m) (h' : Run env (f a) m tr' out w') :
    Run env (p >>= f) w (tr ++ tr') out w' := by
  generalize hout : Outcome.returned a = out' at h
  induction h with
  | stop p w => exact nomatch hout
  | ret b w =>
      obtain rfl := Outcome.returned.inj hout
      exact h'
  | exit x w => exact nomatch hout
  | op he _ ih => exact .op he (ih h' hout)

/-! ## Operations that are never performed -/

/-- No operation of the program is `bad`, whatever the answers. -/
def Avoids (bad : Op → Prop) : Prog Op Res X A → Prop
  | .ret _ => True
  | .exit _ => True
  | .op o k => ¬ bad o ∧ ∀ r, Avoids bad (k r)

/-- Conditions on the bad operations come for free. -/
theorem wp_avoids {bad : Op → Prop} {Q : A → W → Prop}
    {p : Prog Op Res X A} {w : W} (hp : Avoids bad p)
    (h : wp env (fun w o => ¬ bad o → ok w o) Q E p w) : wp env ok Q E p w := by
  induction p generalizing w with
  | ret a => exact h
  | exit x => exact h
  | op o k ih => exact ⟨h.1 hp.1, fun r w' hr => ih r (hp.2 r) (h.2 r w' hr)⟩

/-! ## The operations and exits that a program may come to -/

/-- Every operation is in `S` and every exit in `P`, whatever the answers. -/
def Only (S : Op → Prop) (P : X → Prop) : Prog Op Res X A → Prop
  | .ret _ => True
  | .exit x => P x
  | .op o k => S o ∧ ∀ r, Only S P (k r)

section Only

variable {S : Op → Prop} {P : X → Prop}

@[simp] theorem only_pure (a : A) :
    Only S P (pure a : Prog Op Res X A) := trivial

@[simp] theorem only_exit (x : X) :
    Only S P (.exit x : Prog Op Res X A) ↔ P x := Iff.rfl

@[simp] theorem only_op (o : Op) (k : Res o → Prog Op Res X A) :
    Only S P (.op o k) ↔ S o ∧ ∀ r, Only S P (k r) := Iff.rfl

theorem only_mono {S' : Op → Prop} (hS : ∀ o, S o → S' o)
    {p : Prog Op Res X A} (h : Only S P p) : Only S' P p := by
  induction p with
  | ret a => trivial
  | exit x => exact h
  | op o k ih => exact ⟨hS o h.1, fun r => ih r (h.2 r)⟩

theorem only_bind {p : Prog Op Res X A} {f : A → Prog Op Res X B}
    (hp : Only S P p) (hf : ∀ a, Only S P (f a)) : Only S P (p >>= f) := by
  induction p with
  | ret a => exact hf a
  | exit x => exact hp
  | op o k ih => exact ⟨hp.1, fun r => ih r (hp.2 r)⟩

theorem only_first {p : Prog Op Res X A} {f : A → Prog Op Res X B}
    (h : Only S P (p >>= f)) : Only S P p := by
  induction p with
  | ret a => trivial
  | exit x => exact h
  | op o k ih => exact ⟨h.1, fun r => ih r (h.2 r)⟩

theorem only_forRange {body : Nat → Prog Op Res X Unit}
    (hbody : ∀ j, Only S P (body j)) (left first : Nat) :
    Only S P (forRange body left first) := by
  induction left generalizing first with
  | zero => trivial
  | succ left ih => exact only_bind (hbody first) (fun _ => ih (first + 1))

theorem only_forUntil {body : Nat → Prog Op Res X Bool} {left first : Nat}
    (hbody : ∀ j, first ≤ j → j < first + left → Only S P (body j)) :
    Only S P (forUntil body left first) := by
  induction left generalizing first with
  | zero => trivial
  | succ left ih =>
      refine only_bind (hbody first (Nat.le_refl _) (by omega)) (fun leave => ?_)
      cases leave with
      | true => trivial
      | false =>
          refine ih (fun j hle hlt => ?_)
          exact hbody j (by omega) (by omega)

/-- After a program that can return, both parts of a sequence are bound. -/
theorem only_bind_iff {p : Prog Op Res X A} (hret : Returns p)
    {q : Prog Op Res X B} :
    Only S P (p >>= fun _ => q) ↔ Only S P p ∧ Only S P q := by
  constructor
  · intro h
    induction hret with
    | ret a => exact ⟨trivial, h⟩
    | @op o k r _ ih =>
        have hrest : ∀ r, Only S P (k r >>= fun _ => q) := h.2
        refine ⟨⟨h.1, fun r' => only_first (hrest r')⟩, (ih (hrest r)).2⟩
  · rintro ⟨hp, hq⟩
    exact only_bind hp (fun _ => hq)

theorem only_forRange_iff {body : Nat → Prog Op Res X Unit}
    (hret : ∀ j, Returns (body j)) {left first : Nat} :
    Only S P (forRange body left first) ↔
      ∀ j, first ≤ j → j < first + left → Only S P (body j) := by
  induction left generalizing first with
  | zero => exact ⟨fun _ j hle hlt => absurd hlt (by omega), fun _ => trivial⟩
  | succ left ih =>
      show Only S P (body first >>= fun _ => forRange body left (first + 1)) ↔ _
      rw [only_bind_iff (hret first), ih]
      constructor
      · rintro ⟨hfirst, hrest⟩ j hle hlt
        by_cases hj : j = first
        · rw [hj]
          exact hfirst
        · exact hrest j (by omega) (by omega)
      · intro h
        exact ⟨h first (Nat.le_refl _) (by omega),
          fun j hle hlt => h j (by omega) (by omega)⟩

theorem avoids_of_only {bad : Op → Prop} (hbad : ∀ o, S o → ¬ bad o)
    {p : Prog Op Res X A} (h : Only S P p) : Avoids bad p := by
  induction p with
  | ret a => trivial
  | exit x => trivial
  | op o k ih => exact ⟨hbad o h.1, fun r => ih r (h.2 r)⟩

/-- **THE INVARIANT RULE**: what the operations in `S` preserve. -/
theorem wp_only {I : W → Prop}
    (hok : ∀ w o, I w → S o → ok w o)
    (hstep : ∀ w o r w', I w → S o → env w o r w' → I w')
    (hexit : ∀ x w, I w → P x → E x w)
    {p : Prog Op Res X A} (hp : Only S P p) {w : W} (h : I w) :
    wp env ok (fun _ => I) E p w := by
  induction p generalizing w with
  | ret a => exact h
  | exit x => exact hexit x w h hp
  | op o k ih =>
      refine ⟨hok w o h hp.1, ?_⟩
      intro r w' hr
      exact ih r (hp.2 r) (hstep w o r w' h hp.1 hr)

/-- The operations of a run are among those that the program may come to. -/
theorem only_each {env : Env Op Res W} {p : Prog Op Res X A} {w w' : W}
    {tr : Trace Op Res} {out : Outcome X A} (hp : Only S P p)
    (hr : Run env p w tr out w') : ∀ e ∈ tr, S e.1 := by
  induction hr with
  | stop | ret | exit => exact fun e he => absurd he List.not_mem_nil
  | op _ _ ih =>
      intro e he
      rcases List.mem_cons.mp he with rfl | he
      · exact hp.1
      · exact ih (hp.2 _) e he

/-- **THE INVARIANT RULE** for runs, complete or not. -/
theorem run_only {I : W → Prop} {env : Env Op Res W}
    (hstep : ∀ w o r w', I w → S o → env w o r w' → I w')
    {p : Prog Op Res X A} (hp : Only S P p) {w w' : W} (h : I w)
    {tr : Trace Op Res} {out : Outcome X A} (hr : Run env p w tr out w') :
    I w' := by
  induction hr with
  | stop | ret | exit => exact h
  | op he _ ih => exact ih (hp.2 _) (hstep _ _ _ _ h hp.1 he)

/-- Where an operation may have any answer, a program comes to nothing but
    the operations of its runs. -/
theorem only_of_runs [∀ o, Nonempty (Res o)] {p : Prog Op Res X A}
    (h : ∀ tr out, Run anyAnswer p () tr out () →
      ∀ e ∈ tr, S e.1) : Only S (fun _ => True) p := by
  induction p with
  | ret a => trivial
  | exit x => trivial
  | op o k ih =>
      constructor
      · obtain ⟨r⟩ : Nonempty (Res o) := inferInstance
        exact h [⟨o, r⟩] .running (.op trivial (.stop _ _)) _ List.mem_cons_self
      · intro r
        refine ih r (fun tr out hr e he => ?_)
        exact h (⟨o, r⟩ :: tr) out (.op trivial hr) e (List.mem_cons_of_mem _ he)

end Only

/-! ## Comparing environments -/

/-- **THE SIMULATION RULE**: when every step of `env` is matched by one of
    `env'` between related worlds, preconditions over `env'` hold over
    `env`. -/
theorem wp_simulate {V : Type} {env' : Env Op Res V} {R : W → V → Prop}
    {ok' : V → Op → Prop} {Q' : A → V → Prop} {E' : X → V → Prop}
    (hstep : ∀ w v o r w', R w v → env w o r w' →
      ∃ v', env' v o r v' ∧ R w' v')
    {p : Prog Op Res X A} {w : W} {v : V} (hR : R w v)
    (h : wp env' ok' Q' E' p v) :
    wp env (fun w o => ∃ v, R w v ∧ ok' v o) (fun a w => ∃ v, R w v ∧ Q' a v)
      (fun x w => ∃ v, R w v ∧ E' x v) p w := by
  induction p generalizing w v with
  | ret a => exact ⟨v, hR, h⟩
  | exit x => exact ⟨v, hR, h⟩
  | op o k ih =>
      refine ⟨⟨v, hR, h.1⟩, ?_⟩
      intro r w' hr
      obtain ⟨v', hr', hR'⟩ := hstep w v o r w' hR hr
      exact ih r hR' (h.2 r v' hr')

/-- An environment with fewer answers. -/
theorem wp_env_mono {env' : Env Op Res W} {Q : A → W → Prop}
    (henv : ∀ w o r w', env' w o r w' → env w o r w')
    {p : Prog Op Res X A} {w : W} (h : wp env ok Q E p w) :
    wp env' ok Q E p w := by
  induction p generalizing w with
  | ret a => exact h
  | exit x => exact h
  | op o k ih =>
      refine ⟨h.1, ?_⟩
      intro r w' hr
      exact ih r (h.2 r w' (henv w o r w' hr))

theorem run_env_mono {env' : Env Op Res W}
    (henv : ∀ w o r w', env' w o r w' → env w o r w')
    {p : Prog Op Res X A} {w w' : W} {tr : Trace Op Res} {out : Outcome X A}
    (h : Run env' p w tr out w') : Run env p w tr out w' := by
  induction h with
  | stop p w => exact .stop p w
  | ret a w => exact .ret a w
  | exit x w => exact .exit x w
  | op he _ ih => exact .op (henv _ _ _ _ he) ih

/-- Where every operation has an answer, every program runs to an end. -/
theorem run_exists (htotal : ∀ w o, ∃ r w', env w o r w')
    (p : Prog Op Res X A) (w : W) :
    ∃ tr out w', Run env p w tr out w' ∧ out ≠ .running := by
  induction p generalizing w with
  | ret a => exact ⟨[], _, w, .ret a w, fun h => nomatch h⟩
  | exit x => exact ⟨[], _, w, .exit x w, fun h => nomatch h⟩
  | op o k ih =>
      obtain ⟨r, m, hr⟩ := htotal w o
      obtain ⟨tr, out, w', hrun, hout⟩ := ih r m
      exact ⟨_, out, w', .op hr hrun, hout⟩

/-- A program that cannot exit returns, where every operation has an answer. -/
theorem run_returns (htotal : ∀ w o, ∃ r w', env w o r w')
    {Q : A → W → Prop} {p : Prog Op Res X A} {w : W}
    (h : wp env ok Q (fun _ _ => False) p w) :
    ∃ tr a w', Run env p w tr (.returned a) w' ∧ Q a w' := by
  obtain ⟨tr, out, w', hrun, hout⟩ := run_exists htotal p w
  have hmeets := wp_post h hrun
  cases out with
  | running => exact absurd rfl hout
  | returned a => exact ⟨tr, a, w', hrun, hmeets⟩
  | exited x => exact hmeets.elim

/-! ## Observers -/

/-- The environment that gives any answer; the world watches. -/
def watching (next : W → (o : Op) → Res o → W) : Env Op Res W :=
  fun w o r w' => w' = next w o r

/-- What the observer has seen after a trace. -/
def watched (next : W → (o : Op) → Res o → W) (w : W) (tr : Trace Op Res) : W :=
  tr.foldl (fun w e => next w e.1 e.2) w

theorem watching_run {next : W → (o : Op) → Res o → W} {p : Prog Op Res X A}
    {w w' : W} {tr : Trace Op Res} {out : Outcome X A}
    (h : Run (watching next) p w tr out w') : w' = watched next w tr := by
  induction h with
  | stop p w => rfl
  | ret a w => rfl
  | exit x w => rfl
  | op he _ ih =>
      rw [ih, show _ = next _ _ _ from he]
      rfl

/-- What an observer sees of a world that follows it. -/
theorem watched_image {V : Type} {env : Env Op Res V}
    {next : W → (o : Op) → Res o → W} {f : V → W}
    (hstep : ∀ v o r v', env v o r v' → f v' = next (f v) o r)
    {p : Prog Op Res X A} {v v' : V} {tr : Trace Op Res} {out : Outcome X A}
    (h : Run env p v tr out v') : watched next (f v) tr = f v' := by
  induction h with
  | stop p v => rfl
  | ret a v => rfl
  | exit x v => rfl
  | op he _ ih =>
      rw [← ih, hstep _ _ _ _ he]
      rfl

/-- A run is a run for every observer. -/
theorem watching_swap {V : Type} {env : Env Op Res W}
    (next' : V → (o : Op) → Res o → V) {p : Prog Op Res X A} {w w' : W}
    {tr : Trace Op Res} {out : Outcome X A} (h : Run env p w tr out w')
    (v : V) : Run (watching next') p v tr out (watched next' v tr) := by
  induction h generalizing v with
  | stop p w => exact .stop p v
  | ret a w => exact .ret a v
  | exit x w => exact .exit x v
  | op he _ ih => exact .op rfl (ih _)

/-- For an observer an operation may have any answer. -/
theorem wp_watching {next : W → (o : Op) → Res o → W} {Q : A → W → Prop}
    (o : Op) (k : Res o → Prog Op Res X A) (w : W) :
    wp (watching next) ok Q E (.op o k) w ↔
      ok w o ∧ ∀ r, wp (watching next) ok Q E (k r) (next w o r) := by
  constructor
  · rintro ⟨hok, h⟩
    exact ⟨hok, fun r => h r _ rfl⟩
  · rintro ⟨hok, h⟩
    refine ⟨hok, ?_⟩
    rintro r w' rfl
    exact h r

theorem wp_watching_perform {next : W → (o : Op) → Res o → W}
    {Q : A → W → Prop} (o : Op) (f : Res o → Prog Op Res X A) (w : W) :
    wp (watching next) ok Q E (perform o >>= f) w ↔
      ok w o ∧ ∀ r, wp (watching next) ok Q E (f r) (next w o r) :=
  wp_watching o f w

/-- The observer that records the operations. -/
abbrev record (tr : Trace Op Res) (o : Op) (r : Res o) : Trace Op Res :=
  tr ++ [⟨o, r⟩]

/-- The environment that gives any answer and records the operations. -/
abbrev recording : Env Op Res (Trace Op Res) := watching record

theorem watched_recording (tr tr' : Trace Op Res) :
    watched record tr tr' = tr ++ tr' := by
  induction tr' generalizing tr with
  | nil => exact (List.append_nil tr).symm
  | cons e tr' ih =>
      rw [← List.singleton_append, ← List.append_assoc]
      exact ih (tr ++ [e])

/-! ## Counting operations -/

section Counting

variable {counted : Op → Bool} {cut : Op → Prop}

/-- The environment that counts the operations in `counted`.  Any answer may
    come, but none to an operation in `cut`. -/
def counting (counted : Op → Bool) (cut : Op → Prop) : Env Op Res Nat :=
  fun n o _ n' => ¬ cut o ∧ n' = n + (counted o).toNat

/-- A run without operations in `cut` is counted. -/
theorem run_counting {p : Prog Op Res X A} {w w' : W} {tr : Trace Op Res}
    {out : Outcome X A} (h : Run env p w tr out w')
    (hcut : ∀ e ∈ tr, ¬ cut e.1) (n : Nat) :
    Run (counting counted cut) p n tr out
      (n + tr.countP (fun e => counted e.1)) := by
  induction h generalizing n with
  | stop p w => exact .stop p n
  | ret a w => exact .ret a n
  | exit x w => exact .exit x n
  | @op o k r w m w' tr out he _ ih =>
      obtain ⟨ho, htr⟩ := List.forall_mem_cons.mp hcut
      have hcount : n + (⟨o, r⟩ :: tr : Trace Op Res).countP (fun e => counted e.1)
          = n + (counted o).toNat + tr.countP (fun e => counted e.1) := by
        rw [List.countP_cons]
        cases counted o <;> simp +arith
      rw [hcount]
      exact .op ⟨ho, rfl⟩ (ih htr _)

theorem wp_counting {ok : Nat → Op → Prop} {Q : A → Nat → Prop}
    {E : X → Nat → Prop} (o : Op) (k : Res o → Prog Op Res X A) (n : Nat) :
    wp (counting counted cut) ok Q E (.op o k) n ↔
      ok n o ∧ (¬ cut o → ∀ r,
        wp (counting counted cut) ok Q E (k r) (n + (counted o).toNat)) := by
  constructor
  · rintro ⟨hok, h⟩
    exact ⟨hok, fun ho r => h r _ ⟨ho, rfl⟩⟩
  · rintro ⟨hok, h⟩
    refine ⟨hok, ?_⟩
    rintro r n' ⟨ho, rfl⟩
    exact h ho r

/-- A program without counted operations. -/
theorem wp_uncounted {E : X → Nat → Prop} {p : Prog Op Res X A}
    (hp : Only (fun o => counted o = false) (fun _ => True) p) {n : Nat}
    (hE : ∀ x, E x n) :
    wp (counting counted cut) (fun _ _ => True) (fun _ n' => n' = n) E p n := by
  refine wp_only (fun _ _ _ _ => trivial) ?_ ?_ hp rfl
  · rintro n' o r n'' rfl ho ⟨-, rfl⟩
    rw [ho]
    rfl
  · rintro x n' rfl -
    exact hE x

end Counting

/-! ## Scripts -/

/-- The complete run in which every operation `o` is answered `answer o`. -/
def answered (answer : (o : Op) → Res o) :
    Prog Op Res X A → Trace Op Res × Outcome X A
  | .ret a => ([], .returned a)
  | .exit x => ([], .exited x)
  | .op o k =>
      (⟨o, answer o⟩ :: (answered answer (k (answer o))).1,
        (answered answer (k (answer o))).2)

theorem answered_run (next : W → (o : Op) → Res o → W)
    (answer : (o : Op) → Res o) (p : Prog Op Res X A) (w : W) :
    Run (watching next) p w (answered answer p).1 (answered answer p).2
      (watched next w (answered answer p).1) := by
  induction p generalizing w with
  | ret a => exact .ret a w
  | exit x => exact .exit x w
  | op o k ih => exact .op rfl (ih (answer o) _)

theorem answered_mem {answer : (o : Op) → Res o} {p : Prog Op Res X A}
    {o : Op} {r : Res o} (h : ⟨o, r⟩ ∈ (answered answer p).1) :
    r = answer o := by
  induction p with
  | ret a => exact nomatch h
  | exit x => exact nomatch h
  | op o' k ih =>
      rcases List.mem_cons.mp h with h | h
      · obtain ⟨rfl, hr⟩ := Sigma.mk.inj h
        exact eq_of_heq hr
      · exact ih _ h

theorem answered_complete (answer : (o : Op) → Res o)
    (p : Prog Op Res X A) : (answered answer p).2 ≠ .running := by
  induction p with
  | ret a => exact fun h => nomatch h
  | exit x => exact fun h => nomatch h
  | op o k ih => exact ih (answer o)

/-- The environment of the answers `answer`, as far as `law` allows them. -/
def scripted (law : W → (o : Op) → Res o → Bool)
    (next : W → (o : Op) → Res o → W) (answer : (o : Op) → Res o) :
    Env Op Res W :=
  fun w o r w' => r = answer o ∧ law w o r = true ∧ w' = next w o r

theorem wp_scripted {law : W → (o : Op) → Res o → Bool}
    {next : W → (o : Op) → Res o → W} {answer : (o : Op) → Res o}
    {Q : A → W → Prop} (o : Op) (f : Res o → Prog Op Res X A) (w : W) :
    wp (scripted law next answer) ok Q E (perform o >>= f) w ↔
      ok w o ∧ (law w o (answer o) = true →
        wp (scripted law next answer) ok Q E (f (answer o))
          (next w o (answer o))) := by
  constructor
  · rintro ⟨hok, h⟩
    exact ⟨hok, fun hlaw => h _ _ ⟨rfl, hlaw, rfl⟩⟩
  · rintro ⟨hok, h⟩
    refine ⟨hok, ?_⟩
    rintro _ _ ⟨rfl, hlaw, rfl⟩
    exact h hlaw

/-- The run of a program that returns with the answers `answer`, if `law`
    allows all of them. -/
def conduct (law : W → (o : Op) → Res o → Bool)
    (next : W → (o : Op) → Res o → W) (answer : (o : Op) → Res o) :
    Prog Op Res X A → W → Option (Trace Op Res × A × W)
  | .ret a, w => some ([], a, w)
  | .exit _, _ => none
  | .op o k, w =>
      if law w o (answer o) then
        (conduct law next answer (k (answer o)) (next w o (answer o))).map
          (fun r => (⟨o, answer o⟩ :: r.1, r.2))
      else none

theorem conduct_run {law : W → (o : Op) → Res o → Bool}
    {next : W → (o : Op) → Res o → W} {answer : (o : Op) → Res o}
    {p : Prog Op Res X A} {w w' : W} {tr : Trace Op Res} {a : A}
    (h : conduct law next answer p w = some (tr, a, w')) :
    Run (scripted law next answer) p w tr (.returned a) w' := by
  induction p generalizing w tr with
  | ret b =>
      obtain ⟨rfl, rfl, rfl⟩ : [] = tr ∧ b = a ∧ w = w' := by
        simpa [conduct] using h
      exact .ret b w
  | exit x => exact nomatch h
  | op o k ih =>
      by_cases hlaw : law w o (answer o) = true
      · rw [conduct, if_pos hlaw, Option.map_eq_some_iff] at h
        obtain ⟨⟨tr', a', m⟩, h', heq⟩ := h
        obtain ⟨rfl, rfl, rfl⟩ : ⟨o, answer o⟩ :: tr' = tr ∧ a' = a ∧ m = w' := by
          simpa using heq
        exact .op ⟨rfl, hlaw, rfl⟩ (ih _ h')
      · rw [conduct, if_neg hlaw] at h
        exact nomatch h

/-- A precondition over the scripted environment says what is returned. -/
theorem conduct_post {law : W → (o : Op) → Res o → Bool}
    {next : W → (o : Op) → Res o → W} {answer : (o : Op) → Res o}
    {p : Prog Op Res X A} {w w' : W} {tr : Trace Op Res} {a : A}
    {ok : W → Op → Prop} {Q : A → W → Prop} {E : X → W → Prop}
    (hp : wp (scripted law next answer) ok Q E p w)
    (h : conduct law next answer p w = some (tr, a, w')) : Q a w' :=
  wp_post hp (conduct_run h)

/-! ## Interpretation -/

section Interpretation

variable {Op' : Type} {Res' : Op' → Type}
  {h : W → (o : Op) → Prog Op' Res' X (Res o × W)}

/-- The program with its operations carried out by programs over other
    operations, from one state to the next. -/
def Prog.handle (h : W → (o : Op) → Prog Op' Res' X (Res o × W)) :
    Prog Op Res X A → W → Prog Op' Res' X (A × W)
  | .ret a, w => .ret (a, w)
  | .exit x, _ => .exit x
  | .op o k, w => h w o >>= fun r => (k r.1).handle h r.2

@[simp] theorem handle_pure (a : A) (w : W) :
    (pure a : Prog Op Res X A).handle h w = pure (a, w) := rfl

@[simp] theorem handle_exit (x : X) (w : W) :
    (.exit x : Prog Op Res X A).handle h w = .exit x := rfl

@[simp] theorem handle_op (o : Op) (k : Res o → Prog Op Res X A) (w : W) :
    (Prog.op o k).handle h w = h w o >>= fun r => (k r.1).handle h r.2 := rfl

@[simp] theorem handle_perform (o : Op) (f : Res o → Prog Op Res X A) (w : W) :
    (perform o >>= f).handle h w = h w o >>= fun r => (f r.1).handle h r.2 :=
  rfl

/-- A sequence is carried out one part after the other. -/
theorem handle_bind (p : Prog Op Res X A) (f : A → Prog Op Res X B) (w : W) :
    (p >>= f).handle h w = p.handle h w >>= fun r => (f r.1).handle h r.2 := by
  induction p generalizing w with
  | ret a => rfl
  | exit x => rfl
  | op o k ih =>
      show (h w o >>= fun r => (k r.1 >>= f).handle h r.2)
        = (h w o >>= fun r => (k r.1).handle h r.2) >>= _
      rw [prog_bind_assoc]
      congr 1
      funext r
      exact ih r.1 r.2

end Interpretation

/-! ## Surroundings that determine every answer -/

/-- The complete run of a program where the world determines the answers. -/
def play (next : W → (o : Op) → Res o × W) :
    Prog Op Res X A → W → Outcome X A × W
  | .ret a, w => (.returned a, w)
  | .exit x, w => (.exited x, w)
  | .op o k, w => play next (k (next w o).1) (next w o).2

/-- The same as an environment. -/
def playing (next : W → (o : Op) → Res o × W) : Env Op Res W :=
  fun w o r w' => next w o = (r, w')

theorem play_run (next : W → (o : Op) → Res o × W) (p : Prog Op Res X A)
    (w : W) :
    ∃ tr, Run (playing next) p w tr (play next p w).1 (play next p w).2 := by
  induction p generalizing w with
  | ret a => exact ⟨[], .ret a w⟩
  | exit x => exact ⟨[], .exit x w⟩
  | op o k ih =>
      obtain ⟨tr, hr⟩ := ih (next w o).1 (next w o).2
      exact ⟨_, .op rfl hr⟩

theorem play_complete (next : W → (o : Op) → Res o × W)
    (p : Prog Op Res X A) (w : W) : (play next p w).1 ≠ .running := by
  induction p generalizing w with
  | ret a => exact fun h => nomatch h
  | exit x => exact fun h => nomatch h
  | op o k ih => exact ih _ _

theorem wp_playing {next : W → (o : Op) → Res o × W} {Q : A → W → Prop}
    (o : Op) (k : Res o → Prog Op Res X A) (w : W) :
    wp (playing next) ok Q E (.op o k) w ↔
      ok w o ∧ wp (playing next) ok Q E (k (next w o).1) (next w o).2 := by
  constructor
  · rintro ⟨hok, h⟩
    exact ⟨hok, h _ _ rfl⟩
  · rintro ⟨hok, h⟩
    refine ⟨hok, ?_⟩
    intro r w' hr
    obtain ⟨rfl, rfl⟩ := Prod.mk.inj hr
    exact h

/-- A precondition says how the complete run ends. -/
theorem play_meets {next : W → (o : Op) → Res o × W} {Q : A → W → Prop}
    {p : Prog Op Res X A} {w : W} (h : wp (playing next) ok Q E p w) :
    (play next p w).1.Meets Q E (play next p w).2 := by
  obtain ⟨tr, hr⟩ := play_run next p w
  exact wp_post h hr

/-- The surroundings whose every answer may depend on all that has been
    performed and answered before. -/
def consult (answer : Trace Op Res → (o : Op) → Res o) :
    Trace Op Res → (o : Op) → Res o × Trace Op Res :=
  fun tr o => (answer tr o, tr ++ [⟨o, answer tr o⟩])

theorem consult_trace {answer : Trace Op Res → (o : Op) → Res o}
    {p : Prog Op Res X A} {tr tr' m : Trace Op Res} {out : Outcome X A}
    (h : Run (playing (consult answer)) p m tr out tr') : tr' = m ++ tr := by
  induction h with
  | stop | ret | exit => exact (List.append_nil _).symm
  | op he _ ih =>
      obtain ⟨rfl, rfl⟩ := Prod.mk.inj he
      rw [ih, List.append_assoc]
      rfl

/-- The run with these answers, for every observer. -/
theorem consult_run (answer : Trace Op Res → (o : Op) → Res o)
    (next : W → (o : Op) → Res o → W) (p : Prog Op Res X A) (w : W) :
    Run (watching next) p w (play (consult answer) p []).2
      (play (consult answer) p []).1
      (watched next w (play (consult answer) p []).2) := by
  obtain ⟨tr, hr⟩ := play_run (consult answer) p []
  have htr := consult_trace hr
  rw [List.nil_append] at htr
  rw [htr] at hr ⊢
  exact watching_swap next hr w

end InteractivePrograms
