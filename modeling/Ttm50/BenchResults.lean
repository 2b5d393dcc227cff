import Ttm50.BenchDriver

/-! # `benchmark` releases what it takes

    A ledger is kept beside a run: the descriptors that a `tfs_open` has
    returned and no `tfs_close` has been given, and the memory that is
    allocated.  `benchmark_releases` is about every pattern of results, each
    depending on all that has happened before: only what is held is used or
    given back, and at the end nothing is held. -/

namespace BenchResults

open InteractivePrograms TfshDriver BenchDriver

/-! ## The ledger -/

/-- What is held, and how often it has been taken and given back. -/
structure Ledger where
  held : List Int
  memory : List Nat
  opened : Nat
  closed : Nat
  allocated : Nat
  freed : Nat
  deriving DecidableEq, Repr

/-- Nothing is held. -/
def Ledger.empty : Ledger := ⟨[], [], 0, 0, 0, 0⟩

/-- The ledger after an operation. -/
def Ledger.next : Ledger → (o : BenchOp) → o.Res → Ledger
  | l, .calloc _ _, some buffer =>
      { l with memory := buffer :: l.memory, allocated := l.allocated + 1 }
  | l, .free buffer, _ =>
      { l with memory := l.memory.erase buffer, freed := l.freed + 1 }
  | l, .tfsOpen _ _ _ _, fd =>
      if fd < 0 then l
      else { l with held := fd :: l.held, opened := l.opened + 1 }
  | l, .tfsClose _ fd, _ =>
      { l with held := l.held.erase fd, closed := l.closed + 1 }
  | l, _, _ => l

/-- Descriptors are used and closed while they are held, memory is freed while
    it is allocated. -/
def Proper (l : Ledger) : BenchOp → Prop
  | .tfsWrite _ fd _ _ => fd ∈ l.held
  | .tfsRead _ fd _ _ => fd ∈ l.held
  | .tfsClose _ fd => fd ∈ l.held
  | .free buffer => buffer ∈ l.memory
  | _ => True

/-- Everything taken has been given back once, nothing else has. -/
structure Settled (l : Ledger) : Prop where
  held : l.held = []
  memory : l.memory = []
  closed : l.closed = l.opened
  freed : l.freed = l.allocated
  once : l.allocated ≤ 1

/-- The ledger after a trace. -/
def ledger (tr : Trace BenchOp BenchOp.Res) : Ledger :=
  watched Ledger.next Ledger.empty tr

/-- The complete run of `benchmark` with these results. -/
def benchmarkRun
    (answer : Trace BenchOp BenchOp.Res → (o : BenchOp) → o.Res) (pid : Int)
    (command : Command) (argv : List String) :
    Outcome Empty Unit × Trace BenchOp BenchOp.Res :=
  play (consult answer) (benchmark pid command argv) []

/-- What a complete run has to satisfy. -/
structure Releases (run : Outcome Empty Unit × Trace BenchOp BenchOp.Res) :
    Prop where
  returns : run.1 = .returned ()
  proper : ∀ before o r after, run.2 = before ++ ⟨o, r⟩ :: after →
    Proper (ledger before) o
  settled : Settled (ledger run.2)

/-! ## The rules -/

/-- The precondition that the rest of `benchmark` needs. -/
abbrev Safe {A : Type} (Q : A → Ledger → Prop) (p : Bench A) (l : Ledger) :
    Prop :=
  wp (watching Ledger.next) Proper Q (fun _ _ => False) p l

section Rules

variable {Q : Unit → Ledger → Prop} {l : Ledger}

theorem safe_printf {text : String} {args : List Arg} (h : Q () l) :
    Safe Q (printf text args) l :=
  (wp_watching _ _ l).mpr ⟨trivial, fun _ => h⟩

theorem safe_complain {text : String} (h : Q () l) :
    Safe Q (complain text) l := by
  refine (wp_watching _ _ l).mpr ⟨trivial, fun errno => ?_⟩
  exact safe_printf h

theorem safe_report {text : String} {interval second kb size : Int}
    (h : Q () l) : Safe Q (report text interval second kb size) l := by
  rw [report]
  exact (wp_bind _ _ l).mpr (safe_printf (safe_printf h))

theorem safe_usage {command : Command} (h : Q () l) :
    Safe Q (usage printf command) l := by
  rw [usage]
  split
  · exact safe_printf h
  · exact safe_printf h

end Rules

/-! ## The pieces of `benchmark` -/

/-- The buffer is allocated, and each of the `n` descriptors closed. -/
def idle (buffer n : Nat) : Ledger := ⟨[], [buffer], n, n, 1, 0⟩

/-- The buffer is allocated, and one more descriptor is held. -/
def busy (buffer n : Nat) (fd : Int) : Ledger :=
  ⟨[fd], [buffer], n + 1, n, 1, 0⟩

section Pieces

variable {pid fd size times second : Int} {buffer n : Nat}

theorem safe_errExit :
    Safe (fun _ l => Settled l) (errExit buffer) (idle buffer n) := by
  refine (wp_watching _ _ _).mpr ⟨List.mem_singleton.mpr rfl, fun _ => ?_⟩
  have hmemory : [buffer].erase buffer = [] := List.erase_cons_head buffer []
  exact ⟨rfl, hmemory, rfl, rfl, Nat.le_refl 1⟩

/-- Closing the descriptor leaves the buffer. -/
theorem busy_close (r : Int) :
    (busy buffer n fd).next (.tfsClose pid fd) r = idle buffer (n + 1) := by
  simp [Ledger.next, busy, idle]

/-- Opening a descriptor, or failing to. -/
theorem idle_open {path : String} {oMode : Int} {cPerm : Nat} :
    (idle buffer n).next (.tfsOpen pid path oMode cPerm) fd
      = if fd < 0 then idle buffer n else busy buffer n fd := rfl

theorem safe_errClose :
    Safe (fun _ l => Settled l) (errClose pid fd buffer) (busy buffer n fd) := by
  refine (wp_watching_perform _ _ _).mpr ⟨List.mem_singleton.mpr rfl, fun failed => ?_⟩
  rw [busy_close]
  refine wp_seq (I := fun _ l => l = idle buffer (n + 1)) ?_ ?_
  · show Safe _ (if failed ≠ 0 then _ else _) _
    split
    · exact safe_complain rfl
    · rfl
  · rintro _ l rfl
    exact safe_errExit

/-- Both loops use the descriptor that is held, and take nothing. -/
theorem safe_loop {body : Nat → Bench Bool}
    (hbody : ∀ j, Safe (fun _ l => l = busy buffer n fd) (body j)
      (busy buffer n fd)) :
    Safe (fun _ l => l = busy buffer n fd) (forUntil body times.toNat 0)
      (busy buffer n fd) := by
  refine wp_mono ?_ (wp_forUntil (L := fun l => l = busy buffer n fd)
    (I := fun _ l => l = busy buffer n fd) ?_ rfl)
  · intro leave l h
    cases leave <;> exact h
  · rintro j l - - rfl
    refine wp_mono ?_ (hbody j)
    intro leave l h
    cases leave <;> exact h

theorem safe_writeLoop :
    Safe (fun _ l => l = busy buffer n fd)
      (writeLoop pid fd buffer size times) (busy buffer n fd) := by
  refine safe_loop (fun j => ?_)
  refine (wp_watching_perform _ _ _).mpr ⟨List.mem_singleton.mpr rfl, fun count => ?_⟩
  show Safe _ (if count ≠ size then _ else _) (busy buffer n fd)
  split
  · exact (wp_bind _ _ _).mpr (safe_complain rfl)
  · rfl

theorem safe_readLoop :
    Safe (fun _ l => l = busy buffer n fd)
      (readLoop pid fd buffer size times) (busy buffer n fd) := by
  refine safe_loop (fun j => ?_)
  refine (wp_watching_perform _ _ _).mpr ⟨List.mem_singleton.mpr rfl, fun count => ?_⟩
  show Safe _ (if count ≠ size then _ else _) (busy buffer n fd)
  split
  · exact (wp_bind _ _ _).mpr (safe_complain rfl)
  · rfl

theorem safe_readHalf :
    Safe (fun _ l => Settled l) (readHalf pid buffer size times second)
      (idle buffer n) := by
  refine (wp_watching_perform _ _ _).mpr ⟨trivial, fun fd => ?_⟩
  rw [idle_open]
  show Safe _ (if fd < 0 then _ else _) _
  split
  · exact (wp_bind _ _ _).mpr (safe_complain safe_errExit)
  · refine (wp_watching_perform _ _ _).mpr ⟨trivial, fun start => ?_⟩
    refine wp_seq safe_readLoop ?_
    rintro failed l rfl
    cases failed with
    | true => exact safe_errClose
    | false =>
        refine (wp_watching_perform _ _ _).mpr ⟨trivial, fun finish => ?_⟩
        exact (wp_bind _ _ _).mpr (safe_report safe_errClose)

theorem safe_writeHalf :
    Safe (fun _ l => Settled l) (writeHalf pid buffer size times second)
      (idle buffer n) := by
  refine (wp_watching_perform _ _ _).mpr ⟨trivial, fun fd => ?_⟩
  rw [idle_open]
  show Safe _ (if fd < 0 then _ else _) _
  split
  · exact (wp_bind _ _ _).mpr (safe_complain safe_errExit)
  · refine (wp_watching_perform _ _ _).mpr ⟨trivial, fun start => ?_⟩
    refine wp_seq safe_writeLoop ?_
    rintro failed l rfl
    cases failed with
    | true => exact safe_errClose
    | false =>
        refine (wp_watching_perform _ _ _).mpr ⟨trivial, fun finish => ?_⟩
        refine (wp_bind _ _ _).mpr (safe_report ?_)
        refine (wp_watching_perform _ _ _).mpr
          ⟨List.mem_singleton.mpr rfl, fun failed => ?_⟩
        have hidle : ((busy buffer n fd).next .procTime finish).next
            (.tfsClose pid fd) failed = idle buffer (n + 1) := busy_close failed
        rw [hidle]
        -- a close that fails has given the descriptor back as well
        show Safe _ (if failed ≠ 0 then _ else _) _
        split
        · exact (wp_bind _ _ _).mpr (safe_complain safe_errExit)
        · exact (wp_watching_perform _ _ _).mpr ⟨trivial, fun _ => safe_readHalf⟩

end Pieces

theorem safe_benchmark (pid : Int) (command : Command) (argv : List String) :
    Safe (fun _ l => Settled l) (benchmark pid command argv) Ledger.empty := by
  have hempty : Settled Ledger.empty := ⟨rfl, rfl, rfl, rfl, Nat.zero_le 1⟩
  rw [benchmark.eq_def]
  split
  · dsimp only
    split
    · exact (wp_bind _ _ _).mpr (safe_printf (safe_usage hempty))
    · refine (wp_watching_perform _ _ _).mpr ⟨trivial, fun buffer => ?_⟩
      cases buffer with
      | none => exact safe_printf hempty
      | some buffer =>
          refine (wp_watching_perform _ _ _).mpr ⟨trivial, fun priority => ?_⟩
          exact safe_writeHalf (n := 0)
  · exact safe_usage hempty

/-- **BENCHMARK RELEASES WHAT IT TAKES**: for all arguments and every pattern
    of results it returns, every descriptor that a `tfs_open` has returned is
    closed once and not used afterwards, and the buffer is freed once if it
    has been allocated. -/
theorem benchmark_releases
    (answer : Trace BenchOp BenchOp.Res → (o : BenchOp) → o.Res) (pid : Int)
    (command : Command) (argv : List String) :
    Releases (benchmarkRun answer pid command argv) := by
  have hrun := consult_run answer Ledger.next (benchmark pid command argv)
    Ledger.empty
  have hsafe := safe_benchmark pid command argv
  have hmeets := wp_post hsafe hrun
  have hproper : ∀ before o r after,
      (benchmarkRun answer pid command argv).2 = before ++ ⟨o, r⟩ :: after →
      Proper (ledger before) o := by
    intro before o r after hcut
    rw [show (play (consult answer) _ _).2 = _ from hcut] at hrun
    obtain ⟨l, hbefore, hok⟩ := wp_each hsafe hrun
    rw [watching_run hbefore] at hok
    exact hok
  cases hout : (play (consult answer) (benchmark pid command argv) []).1 with
  | running => exact absurd hout (play_complete _ _ _)
  | returned u =>
      rw [hout] at hmeets
      exact ⟨hout, hproper, hmeets⟩
  | exited x => exact x.elim

end BenchResults
