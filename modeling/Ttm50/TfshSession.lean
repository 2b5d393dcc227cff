import Ttm50.LabelledRuns
import Ttm50.TfshDriver

/-! # Sessions of the file system shell

    A session goes on with the commands `mount`, `logon` and `logoff`, given
    at the prompt after `tfsh` has started.  Beside the shell's `pid` and `cwd`
    stands the state of the library: whether the file system is mounted, and
    the logical processes it has allocated to the shell.

    A LAW says which results the library may give.  Under `mounting` the
    prompt is right as long as no `logon` fails for a shell that is logged on
    and no `logoff` comes before the mount (`truthful_iff`).  Under
    `allocating` no process is lost as long as no `logon` comes from a shell
    that is logged on and no `logoff` fails (`accounted_iff`). -/

namespace TfshSession

open CStdio InteractivePrograms LabelledRuns TfshDriver

/-! ## The library -/

/-- The library as the shell has used it. -/
structure Library where
  mounted : Bool
  procs : List Int
  deriving DecidableEq, Repr

/-- The library before its first call. -/
def Library.fresh : Library := ⟨false, []⟩

/-- A mount that succeeds mounts the file system. -/
def Library.mount (l : Library) (rv : Int) : Library :=
  if rv = 0 then { l with mounted := true } else l

/-- A logon that succeeds allocates a process. -/
def Library.logon (l : Library) (pid : Int) : Library :=
  if 0 ≤ pid then { l with procs := pid :: l.procs } else l

/-- A logoff that succeeds de-allocates the process. -/
def Library.logoff (l : Library) (pid rv : Int) : Library :=
  if rv = 0 then { l with procs := l.procs.filter (· ≠ pid) } else l

def Library.next (l : Library) : (o : TfsOp) → o.Res → Library
  | .tfsMount _, rv => l.mount rv
  | .tfsLogon _ _, pid => l.logon pid
  | .tfsLogoff pid, rv => l.logoff pid rv
  | _, _ => l

/-- Which results the library may give. -/
abbrev Law := Library → (o : TfsOp) → o.Res → Bool

/-- A directory path. -/
def isPath (dir : String) : Bool := dir.toList.head? = some '/'

/-- A mount succeeds only once, a logon only when mounted, and `getcwd`
    writes a path. -/
def mounting : Law
  | l, .tfsMount _, r =>
      let rv : Int := r
      rv ≠ 0 || !l.mounted
  | l, .tfsLogon _ _, r =>
      let pid : Int := r
      pid = -1 || (0 ≤ pid && l.mounted)
  | _, .getcwd, r =>
      let dir : String := r
      isPath dir
  | _, _, _ => true

/-- A logon yields a process ID that is not in use. -/
def allocating : Law
  | l, .tfsLogon _ _, r =>
      let pid : Int := r
      pid = -1 || (0 ≤ pid && !l.procs.contains pid)
  | _, _, _ => true

/-! ## Commands in a session -/

/-- What the calls of a command return; none of them but `getenv` is made
    twice. -/
structure Answers where
  mount : Int
  logon : Int
  logoff : Int
  chdir : Int
  dir : String
  errno : Int
  env : String → Option String

def Answers.script (a : Answers) : (o : TfsOp) → o.Res
  | .getenv name => a.env name
  | .tfsMount _ => a.mount
  | .tfsLogon _ _ => a.logon
  | .tfsLogoff _ => a.logoff
  | .tfsChdir _ _ => a.chdir
  | .getcwd => a.dir
  | .tfsErrno => a.errno
  | .tfsPerror _ _ => ()
  | .printf _ _ => ()

/-- A line given at the prompt. -/
inductive Line where
  | mount (argv : List String)
  | logon (argv : List String)
  | logoff (argv : List String)
  deriving DecidableEq, Repr

def execute (line : Line) (sh : Shell) : Tfsh Shell :=
  match line with
  | .mount argv => mount mountCommand argv sh
  | .logon argv => logon logonCommand argv sh
  | .logoff _ => logoff sh

structure Session where
  shell : Shell
  library : Library
  deriving DecidableEq, Repr

/-- A line with the answers of its calls. -/
structure Event where
  line : Line
  answers : Answers

/-- One line of a session; answers against the law are refused. -/
def step (law : Law) (s : Session) (e : Event) :
    Option (Trace TfsOp TfsOp.Res × Session) :=
  (conduct law Library.next e.answers.script (execute e.line s.shell)
    s.library).map (fun r => (r.1, ⟨r.2.1, r.2.2⟩))

/-- The shell that `tfsh` has set up. -/
def shellOf : Start → Option Shell
  | .failed => none
  | .commandLine _ sh => some sh
  | .interactive sh => some sh

/-- A session whose start is done, with the shell about to execute commands. -/
def Started (law : Law) (s : Session) : Prop :=
  ∃ argv answers tr start, conduct law Library.next (Answers.script answers)
    (tfsh argv Shell.initial) Library.fresh = some (tr, start, s.library) ∧
      shellOf start = some s.shell

theorem started_of {law : Law} {s : Session} (argv : List String) (a : Answers)
    (h : (conduct law Library.next a.script (tfsh argv Shell.initial)
      Library.fresh).map (fun r => (shellOf r.2.1, r.2.2))
        = some (some s.shell, s.library)) : Started law s := by
  obtain ⟨⟨tr, start, l⟩, hrun, heq⟩ := Option.map_eq_some_iff.mp h
  obtain ⟨hshell, rfl⟩ : shellOf start = some s.shell ∧ l = s.library := by
    simpa using heq
  exact ⟨argv, a, tr, start, hrun, hshell⟩

/-! ## What a command can do -/

variable {law : Law}

/-- The environment in which a command runs. -/
abbrev around (law : Law) (a : Answers) : Env TfsOp TfsOp.Res Library :=
  scripted law Library.next a.script

/-- What one line does to the session. -/
inductive Moves (law : Law) (a : Answers) (s : Session) :
    Line → Session → Prop where
  /-- a usage message, or a mount that fails -/
  | stays (line : Line) (hlogon : ∀ argv, line = .logon argv → argv.length ≠ 3)
      (hlogoff : ∀ argv, line ≠ .logoff argv) : Moves law a s line s
  | mounts (argv : List String) (doFsck : Int)
      (hlaw : law s.library (.tfsMount doFsck) (0 : Int) = true) :
      Moves law a s (.mount argv)
        ⟨{ s.shell with cwd := "not logged on" },
          { s.library with mounted := true }⟩
  | logonFails (argv : List String) (hargc : argv.length = 3) (uid gid : Nat)
      (hneg : a.logon < 0)
      (hlaw : law s.library (.tfsLogon uid gid) a.logon = true) :
      Moves law a s (.logon argv)
        ⟨{ s.shell with pid := a.logon }, s.library⟩
  | logsOn (argv : List String) (hargc : argv.length = 3) (uid gid : Nat)
      (hpos : 0 ≤ a.logon)
      (hlaw : law s.library (.tfsLogon uid gid) a.logon = true)
      (hdir : law (s.library.logon a.logon) .getcwd a.dir = true) :
      Moves law a s (.logon argv)
        ⟨⟨a.logon, a.dir⟩, s.library.logon a.logon⟩
  | logsOff (argv : List String) :
      Moves law a s (.logoff argv)
        ⟨⟨-1, "not logged on"⟩,
          s.library.logoff s.shell.pid a.logoff⟩

section Commands

variable {a : Answers} {s : Session} {A : Type} {Q : A → Library → Prop}

/-- The condition that a piece of the shell ends with `Q`. -/
abbrev ends (law : Law) (a : Answers) (Q : A → Library → Prop)
    (p : Tfsh A) (l : Library) : Prop :=
  wp (around law a) (fun _ _ => True) Q (fun _ _ => False) p l

theorem ends_call (o : TfsOp) (f : o.Res → Tfsh A) (l : Library)
    (h : law l o (a.script o) = true →
      ends law a Q (f (a.script o)) (l.next o (a.script o))) :
    ends law a Q (perform o >>= f) l :=
  (wp_scripted o f l).mpr ⟨trivial, h⟩

theorem ends_tfsMount (doFsck : Int) (f : Int → Tfsh A) (l : Library)
    (h : law l (.tfsMount doFsck) a.mount = true →
      ends law a Q (f a.mount) (l.mount a.mount)) :
    ends law a Q (tfsMount doFsck >>= f) l :=
  ends_call (.tfsMount doFsck) f l h

theorem ends_tfsLogon (uid gid : Nat) (f : Int → Tfsh A) (l : Library)
    (h : law l (.tfsLogon uid gid) a.logon = true →
      ends law a Q (f a.logon) (l.logon a.logon)) :
    ends law a Q (tfsLogon uid gid >>= f) l :=
  ends_call (.tfsLogon uid gid) f l h

theorem ends_tfsLogoff (pid : Int) (f : Int → Tfsh A) (l : Library)
    (h : ends law a Q (f a.logoff) (l.logoff pid a.logoff)) :
    ends law a Q (tfsLogoff pid >>= f) l :=
  ends_call (.tfsLogoff pid) f l (fun _ => h)

theorem ends_getcwd (f : String → Tfsh A) (l : Library)
    (h : law l .getcwd a.dir = true → ends law a Q (f a.dir) l) :
    ends law a Q (getcwd >>= f) l :=
  ends_call .getcwd f l h

/-- A call that leaves the library as it is, whatever it returns. -/
theorem ends_other {o : TfsOp} (hnext : ∀ l r, Library.next l o r = l)
    (f : o.Res → Tfsh A) (l : Library) (h : ∀ r, ends law a Q (f r) l) :
    ends law a Q (perform o >>= f) l := by
  refine ends_call o f l ?_
  intro _
  rw [hnext]
  exact h _

/-- The session after `tfsh`. -/
inductive Starts (law : Law) (a : Answers) : Session → Prop where
  | unmounted : Starts law a ⟨Shell.initial, Library.fresh⟩
  | refused : Starts law a ⟨⟨-1, "not logged on"⟩, ⟨true, []⟩⟩
  | loggedOn (uid gid : Nat) (hne : a.logon ≠ -1)
      (hlaw : law ⟨true, []⟩ (.tfsLogon uid gid) a.logon = true)
      (hdir : law (Library.logon ⟨true, []⟩ a.logon) .getcwd a.dir = true) :
      Starts law a ⟨⟨a.logon, a.dir⟩, Library.logon ⟨true, []⟩ a.logon⟩

/-- What the start of the shell comes to. -/
abbrev Begun (law : Law) (a : Answers) (start : Start) (l : Library) : Prop :=
  ∀ sh, shellOf start = some sh → Starts law a ⟨sh, l⟩

theorem begun_pure {start : Start} {sh : Shell} {l : Library}
    (hshell : shellOf start = some sh) (h : Starts law a ⟨sh, l⟩) :
    ends law a (Begun law a) (pure start) l := by
  intro sh' hsh'
  obtain rfl : sh = sh' := Option.some.inj (hshell.symm.trans hsh')
  exact h

theorem ends_tfsh (argv : List String) :
    ends law a (Begun law a) (tfsh argv Shell.initial) Library.fresh := by
  unfold tfsh
  refine ends_other (fun _ _ => rfl) _ _ ?_
  intro uid
  refine ends_other (fun _ _ => rfl) _ _ ?_
  intro gid
  split
  · refine ends_tfsMount _ _ _ ?_
    intro _
    by_cases hrv : a.mount = 0
    · rw [if_neg (not_not_intro hrv), Library.mount, if_pos hrv]
      refine ends_tfsLogon _ _ _ _ ?_
      intro hlaw
      refine (wp_bind _ _ _).mpr ?_
      by_cases hpid : a.logon = -1
      · rw [if_pos hpid, hpid, Library.logon, if_neg (by decide)]
        refine ends_other (fun _ _ => rfl) _ _ ?_
        intro _
        split
        · exact begun_pure rfl .refused
        · exact begun_pure rfl .refused
      · rw [if_neg hpid]
        refine ends_other (fun _ _ => rfl) _ _ ?_
        intro home
        refine ends_other (fun _ _ => rfl) _ _ ?_
        intro _
        refine ends_getcwd _ _ ?_
        intro hdir
        have hstarts := Starts.loggedOn _ _ hpid hlaw hdir
        show ends law a _ _ _
        split
        · exact begun_pure rfl hstarts
        · exact begun_pure rfl hstarts
    · rw [if_pos hrv]
      refine ends_other (fun _ _ => rfl) _ _ ?_
      intro _ sh hsh
      exact nomatch hsh
  · split
    · exact begun_pure rfl .unmounted
    · exact begun_pure rfl .unmounted

theorem ends_mount (argv : List String) :
    ends law a (fun sh l => Moves law a s (.mount argv) ⟨sh, l⟩)
      (mount mountCommand argv s.shell) s.library := by
  have hstays : Moves law a s (.mount argv) s :=
    .stays _ (fun _ h => nomatch h) (fun _ h => nomatch h)
  unfold mount
  cases hflag : fsckFlag argv with
  | none =>
      refine ends_other (fun _ _ => rfl) _ _ ?_
      intro _
      exact hstays
  | some doFsck =>
      refine ends_tfsMount _ _ _ ?_
      intro hlaw
      by_cases hrv : a.mount = 0
      · rw [if_neg (not_not_intro hrv), hrv]
        rw [hrv] at hlaw
        exact .mounts argv doFsck hlaw
      · rw [if_pos hrv, Library.mount, if_neg hrv]
        refine ends_other (fun _ _ => rfl) _ _ ?_
        intro _
        exact hstays

theorem ends_logon (argv : List String) :
    ends law a (fun sh l => Moves law a s (.logon argv) ⟨sh, l⟩)
      (logon logonCommand argv s.shell) s.library := by
  unfold logon
  split
  · rename_i name uid gid
    refine ends_tfsLogon _ _ _ _ ?_
    intro hlaw
    by_cases hneg : a.logon < 0
    · rw [if_pos hneg, Library.logon, if_neg (by omega)]
      refine ends_other (fun _ _ => rfl) _ _ ?_
      intro _
      refine ends_other (fun _ _ => rfl) _ _ ?_
      intro _
      exact .logonFails _ rfl _ _ hneg hlaw
    · rw [if_neg hneg]
      refine ends_getcwd _ _ ?_
      intro hdir
      exact .logsOn _ rfl _ _ (by omega) hlaw hdir
  · rename_i hargc
    refine ends_other (fun _ _ => rfl) _ _ ?_
    intro _
    refine .stays _ ?_ (fun _ h => nomatch h)
    intro argv' heq hlen
    obtain rfl : argv = argv' := Line.logon.inj heq
    obtain ⟨name, uid, gid, rfl⟩ := List.length_eq_three.mp hlen
    exact hargc _ _ _ rfl

theorem ends_logoff (argv : List String) :
    ends law a (fun sh l => Moves law a s (.logoff argv) ⟨sh, l⟩)
      (logoff s.shell) s.library := by
  unfold logoff
  refine ends_tfsLogoff _ _ _ ?_
  refine (wp_bind _ _ _).mpr ?_
  by_cases hrv : a.logoff ≠ 0
  · rw [if_pos hrv]
    refine ends_other (fun _ _ => rfl) _ _ ?_
    intro _
    refine ends_other (fun _ _ => rfl) _ _ ?_
    intro _
    exact .logsOff argv
  · rw [if_neg hrv]
    exact .logsOff argv

end Commands

/-- **WHAT A LINE DOES**. -/
theorem step_moves {s s' : Session} {e : Event} {tr : Trace TfsOp TfsOp.Res}
    (h : step law s e = some (tr, s')) : Moves law e.answers s e.line s' := by
  obtain ⟨line, a⟩ := e
  obtain ⟨⟨tr', sh, l⟩, hrun, heq⟩ := Option.map_eq_some_iff.mp h
  obtain ⟨rfl, rfl⟩ : tr' = tr ∧ ⟨sh, l⟩ = s' := by simpa using heq
  cases line with
  | mount argv =>
      have hpost := conduct_post (ends_mount argv) hrun
      exact hpost
  | logon argv =>
      have hpost := conduct_post (ends_logon argv) hrun
      exact hpost
  | logoff argv =>
      have hpost := conduct_post (ends_logoff argv) hrun
      exact hpost

/-- **WHAT THE START DOES**. -/
theorem started_starts {s : Session} (h : Started law s) :
    ∃ a, Starts law a s := by
  obtain ⟨argv, a, tr, start, hrun, hshell⟩ := h
  have hpost := conduct_post (ends_tfsh argv) hrun
  exact ⟨a, hpost _ hshell⟩

/-! ## Concrete sessions -/

/-- The calls succeed as often as they may, and the first process is 0. -/
def smooth : Answers := ⟨0, 0, 0, 0, "/", 0, fun _ => none⟩

/-- The session that `tfsh` starts when its calls succeed. -/
def atRoot : Session := ⟨⟨0, "/"⟩, ⟨true, [0]⟩⟩

/-- The session that `tfsh -n` starts. -/
def unmounted : Session := ⟨Shell.initial, Library.fresh⟩

theorem atRoot_mounting : Started mounting atRoot :=
  started_of ["tfsh"] smooth (by decide)

theorem unmounted_mounting : Started mounting unmounted :=
  started_of ["tfsh", "-n"] smooth (by decide)

theorem atRoot_allocating : Started allocating atRoot :=
  started_of ["tfsh"] smooth (by decide)

/-- `logoff`, with the result of the call. -/
def logoffLine (rv : Int) : Event :=
  ⟨.logoff ["logoff"], { smooth with logoff := rv }⟩

/-- `logon 1 1`, with the result of the call. -/
def logonLine (pid : Int) : Event :=
  ⟨.logon ["logon", "1", "1"], { smooth with logon := pid }⟩

/-! ## The prompt -/

/-- The prompt tells the state of the file system and of the process. -/
def Truthful (s : Session) : Prop :=
  (s.shell.cwd = "not mounted" ↔ s.library.mounted = false) ∧
  (s.shell.cwd = "not logged on" ↔
    s.library.mounted = true ∧ s.shell.pid = -1) ∧
  (isPath s.shell.cwd = true ↔ s.shell.pid ∈ s.library.procs)

instance (s : Session) : Decidable (Truthful s) :=
  inferInstanceAs (Decidable (_ ∧ _ ∧ _))

/-- No `logon` fails for a shell that is logged on, no `logoff` comes before
    the mount. -/
def Orderly (s : Session) (e : Event) : Prop :=
  match e.line with
  | .mount _ => True
  | .logon argv => argv.length = 3 → e.answers.logon < 0 → s.shell.pid = -1
  | .logoff _ => s.library.mounted = true

/-- The three states with a right prompt. -/
inductive Prompted : Session → Prop where
  | unmounted : Prompted ⟨⟨-1, "not mounted"⟩, ⟨false, []⟩⟩
  | loggedOff (procs : List Int) (hprocs : ∀ p ∈ procs, 0 ≤ p) :
      Prompted ⟨⟨-1, "not logged on"⟩, ⟨true, procs⟩⟩
  | loggedOn (pid : Int) (dir : String) (procs : List Int)
      (hdir : isPath dir = true) (hpid : pid ∈ procs)
      (hprocs : ∀ p ∈ procs, 0 ≤ p) :
      Prompted ⟨⟨pid, dir⟩, ⟨true, procs⟩⟩

theorem not_isPath_notMounted : isPath "not mounted" = false := by decide

theorem not_isPath_notLoggedOn : isPath "not logged on" = false := by decide

/-- Process IDs are not -1. -/
theorem pid_ne {pid : Int} {procs : List Int} (hpid : pid ∈ procs)
    (hprocs : ∀ p ∈ procs, 0 ≤ p) : pid ≠ -1 := by
  have h := hprocs pid hpid
  omega

theorem prompted_truthful {s : Session} (h : Prompted s) : Truthful s := by
  cases h with
  | unmounted => simp [Truthful, not_isPath_notMounted]
  | loggedOff procs hprocs =>
      have hnone : (-1 : Int) ∉ procs := fun h => pid_ne h hprocs rfl
      simp [Truthful, not_isPath_notLoggedOn, hnone]
  | loggedOn pid dir procs hdir hpid hprocs =>
      have h₁ : dir ≠ "not mounted" := by
        rintro rfl
        rw [not_isPath_notMounted] at hdir
        exact nomatch hdir
      have h₂ : dir ≠ "not logged on" := by
        rintro rfl
        rw [not_isPath_notLoggedOn] at hdir
        exact nomatch hdir
      simp [Truthful, h₁, h₂, hdir, hpid, pid_ne hpid hprocs]

theorem prompted_procs {s : Session} (h : Prompted s) :
    ∀ p ∈ s.library.procs, 0 ≤ p := by
  cases h with
  | unmounted => exact fun _ h => nomatch h
  | loggedOff procs hprocs => exact hprocs
  | loggedOn pid dir procs hdir hpid hprocs => exact hprocs

theorem logon_prompted {l : Library} {pid : Int} {dir : String}
    (hm : l.mounted = true) (hprocs : ∀ p ∈ l.procs, 0 ≤ p) (hpos : 0 ≤ pid)
    (hdir : isPath dir = true) : Prompted ⟨⟨pid, dir⟩, l.logon pid⟩ := by
  rw [Library.logon, if_pos hpos, hm]
  refine .loggedOn _ _ _ hdir List.mem_cons_self ?_
  intro p hp
  obtain rfl | hp := List.mem_cons.mp hp
  · exact hpos
  · exact hprocs p hp

theorem logoff_prompted {l : Library} (hm : l.mounted = true)
    (hprocs : ∀ p ∈ l.procs, 0 ≤ p) (pid rv : Int) :
    Prompted ⟨⟨-1, "not logged on"⟩, l.logoff pid rv⟩ := by
  obtain ⟨mounted, procs⟩ := l
  obtain rfl : mounted = true := hm
  unfold Library.logoff
  split
  · refine .loggedOff _ ?_
    intro p hp
    exact hprocs p (List.mem_of_mem_filter hp)
  · exact .loggedOff _ hprocs

/-- What `mounting` says of a logon. -/
theorem mounting_logon {l : Library} {uid gid : Nat} {pid : Int}
    (h : mounting l (.tfsLogon uid gid) pid = true) :
    pid = -1 ∨ 0 ≤ pid ∧ l.mounted = true := by
  simpa [mounting] using h

theorem starts_prompted {a : Answers} {s : Session}
    (h : Starts mounting a s) : Prompted s := by
  cases h with
  | unmounted => exact .unmounted
  | refused => exact .loggedOff [] (fun _ h => nomatch h)
  | loggedOn uid gid hne hlaw hdir =>
      obtain heq | ⟨hpos, -⟩ := mounting_logon hlaw
      · exact absurd heq hne
      · exact logon_prompted rfl (fun _ h => nomatch h) hpos hdir

/-- An orderly line leads from a right prompt to a right prompt. -/
theorem moves_prompted {a : Answers} {line : Line} {s s' : Session}
    (hs : Prompted s) (ho : Orderly s ⟨line, a⟩)
    (h : Moves mounting a s line s') : Prompted s' := by
  cases h with
  | stays => exact hs
  | mounts argv doFsck hlaw =>
      have hun : s.library.mounted = false := by
        simpa [mounting] using hlaw
      cases hs with
      | unmounted => exact .loggedOff [] (fun _ h => nomatch h)
      | loggedOff => exact nomatch hun
      | loggedOn => exact nomatch hun
  | logonFails argv hargc uid gid hneg hlaw =>
      obtain heq | ⟨hpos, -⟩ := mounting_logon hlaw
      · rw [heq, ← ho hargc hneg]
        exact hs
      · omega
  | logsOn argv hargc uid gid hpos hlaw hdir =>
      obtain heq | ⟨-, hm⟩ := mounting_logon hlaw
      · omega
      · exact logon_prompted hm (prompted_procs hs) hpos hdir
  | logsOff argv => exact logoff_prompted ho (prompted_procs hs) _ _

/-- Any other line leads to a wrong prompt. -/
theorem moves_not_truthful {a : Answers} {line : Line} {s s' : Session}
    (hs : Prompted s) (ho : ¬ Orderly s ⟨line, a⟩)
    (h : Moves mounting a s line s') : ¬ Truthful s' := by
  cases h with
  | stays _ hlogon hlogoff =>
      cases line with
      | mount argv => exact absurd trivial ho
      | logon argv => exact absurd (fun h _ => absurd h (hlogon argv rfl)) ho
      | logoff argv => exact absurd rfl (hlogoff argv)
  | mounts => exact absurd trivial ho
  | logonFails argv hargc uid gid hneg hlaw =>
      obtain heq | ⟨hpos, -⟩ := mounting_logon hlaw
      · have hpid : s.shell.pid ≠ -1 := fun h => ho (fun _ _ => h)
        -- the shell keeps the directory of the process it has given up
        cases hs with
        | unmounted => exact absurd rfl hpid
        | loggedOff => exact absurd rfl hpid
        | loggedOn pid dir procs hdir hmem hprocs =>
            rintro ⟨-, -, h⟩
            rw [heq] at h
            exact pid_ne (h.mp hdir) hprocs rfl
      · omega
  | logsOn argv hargc uid gid hpos hlaw hdir =>
      exact absurd (fun _ hneg => absurd hneg (Int.not_lt.mpr hpos)) ho
  | logsOff argv =>
      have hm : s.library.mounted ≠ true := ho
      rintro ⟨-, h, -⟩
      have hm' : (s.library.logoff s.shell.pid a.logoff).mounted = true :=
        (h.mp rfl).1
      unfold Library.logoff at hm'
      split at hm'
      · exact hm hm'
      · exact hm hm'

/-- **THE PROMPT**: it is right in a whole session exactly when every line
    is orderly. -/
theorem truthful_iff {s₀ s : Session}
    {tr : List (Event × Trace TfsOp TfsOp.Res)} (h₀ : Started mounting s₀)
    (hr : Run (step mounting) s₀ tr s) :
    Each (step mounting) Orderly s₀ tr ↔
      Always (step mounting) Truthful s₀ tr := by
  obtain ⟨a, hstarts⟩ := started_starts h₀
  refine @exact_guard _ _ _ _ Prompted Truthful Orderly (fun _ => True) ?_
    (fun _ => prompted_truthful) ?_ _ _ _ hr (fun _ _ => trivial)
    (starts_prompted hstarts)
  · intro s e o s' hs _ ho hstep
    exact moves_prompted hs ho (step_moves hstep)
  · intro s e o s' hs _ ho hstep
    exact moves_not_truthful hs ho (step_moves hstep)

/-- A session with one orderly line. -/
theorem truthful_iff_logoff :
    ∃ tr s, Run (step mounting) atRoot tr s ∧
      tr.map Prod.fst = [logoffLine 0] ∧
      Always (step mounting) Truthful atRoot tr := by
  have h : (step mounting atRoot (logoffLine 0)).isSome = true := by decide
  have hs := (Option.some_get h).symm
  have hr := Run.cons hs (.nil _)
  exact ⟨_, _, hr, rfl, (truthful_iff atRoot_mounting hr).mp
    ((each_cons hs).mpr ⟨rfl, each_nil⟩)⟩

/-- A `logoff` before the mount makes the prompt "not logged on"; a `logon`
    that fails leaves it at the old directory. -/
theorem prompt_wrong :
    (Started mounting unmounted ∧
      ∃ tr s, Run (step mounting) unmounted tr s ∧
        tr.map Prod.fst = [logoffLine (-1)] ∧ ¬ Truthful s) ∧
    (Started mounting atRoot ∧
      ∃ tr s, Run (step mounting) atRoot tr s ∧
        tr.map Prod.fst = [logonLine (-1)] ∧ ¬ Truthful s) := by
  refine ⟨⟨unmounted_mounting, ?_⟩, ⟨atRoot_mounting, ?_⟩⟩
  · obtain ⟨tr, s, hr, htr, hp⟩ :=
      @exec_reaches _ _ _ (step mounting) (fun s => !decide (Truthful s))
        unmounted [logoffLine (-1)] (by decide)
    exact ⟨tr, s, hr, htr, by simpa using hp⟩
  · obtain ⟨tr, s, hr, htr, hp⟩ :=
      @exec_reaches _ _ _ (step mounting) (fun s => !decide (Truthful s))
        atRoot [logonLine (-1)] (by decide)
    exact ⟨tr, s, hr, htr, by simpa using hp⟩

/-! ## The processes -/

/-- The processes allocated to the shell are the one it runs as, or none. -/
def Accounted (s : Session) : Prop :=
  s.library.procs = if s.shell.pid = -1 then [] else [s.shell.pid]

instance (s : Session) : Decidable (Accounted s) :=
  inferInstanceAs (Decidable (_ = _))

/-- No `logon` comes from a shell that is logged on, no `logoff` fails for
    one. -/
def Balanced (s : Session) (e : Event) : Prop :=
  match e.line with
  | .mount _ => True
  | .logon argv => argv.length = 3 → s.shell.pid = -1
  | .logoff _ => e.answers.logoff = 0 ∨ s.shell.pid = -1

/-- What `allocating` says of a logon. -/
theorem allocating_logon {l : Library} {uid gid : Nat} {pid : Int}
    (h : allocating l (.tfsLogon uid gid) pid = true) :
    pid = -1 ∨ 0 ≤ pid ∧ pid ∉ l.procs := by
  simpa [allocating] using h

theorem starts_accounted {a : Answers} {s : Session}
    (h : Starts allocating a s) : Accounted s := by
  cases h with
  | unmounted => rfl
  | refused => rfl
  | loggedOn uid gid hne hlaw hdir =>
      obtain heq | ⟨hpos, -⟩ := allocating_logon hlaw
      · exact absurd heq hne
      · simp [Accounted, Library.logon, hpos, hne]

/-- A balanced line loses no process. -/
theorem moves_accounted {a : Answers} {line : Line} {s s' : Session}
    (hs : Accounted s) (hb : Balanced s ⟨line, a⟩)
    (h : Moves allocating a s line s') : Accounted s' := by
  unfold Accounted at hs
  cases h with
  | stays => exact hs
  | mounts => exact hs
  | logonFails argv hargc uid gid hneg hlaw =>
      obtain heq | ⟨hpos, -⟩ := allocating_logon hlaw
      · rw [if_pos (hb hargc)] at hs
        simp [Accounted, heq, hs]
      · omega
  | logsOn argv hargc uid gid hpos hlaw hdir =>
      rw [if_pos (hb hargc)] at hs
      have hne : a.logon ≠ -1 := by omega
      simp [Accounted, Library.logon, hpos, hne, hs]
  | logsOff argv =>
      show (s.library.logoff s.shell.pid a.logoff).procs = []
      unfold Library.logoff
      by_cases hpid : s.shell.pid = -1
      · rw [if_pos hpid] at hs
        split
        · simp [hs]
        · exact hs
      · rw [if_neg hpid] at hs
        rw [if_pos (hb.resolve_right hpid)]
        simp [hs]

/-- Any other line loses one. -/
theorem moves_not_accounted {a : Answers} {line : Line} {s s' : Session}
    (hs : Accounted s) (hb : ¬ Balanced s ⟨line, a⟩)
    (h : Moves allocating a s line s') : ¬ Accounted s' := by
  unfold Accounted at hs
  cases h with
  | stays _ hlogon hlogoff =>
      cases line with
      | mount argv => exact absurd trivial hb
      | logon argv => exact absurd (fun h => absurd h (hlogon argv rfl)) hb
      | logoff argv => exact absurd rfl (hlogoff argv)
  | mounts => exact absurd trivial hb
  | logonFails argv hargc uid gid hneg hlaw =>
      obtain heq | ⟨hpos, -⟩ := allocating_logon hlaw
      · have hpid : s.shell.pid ≠ -1 := fun h => hb (fun _ => h)
        rw [if_neg hpid] at hs
        simp [Accounted, heq, hs]
      · omega
  | logsOn argv hargc uid gid hpos hlaw hdir =>
      -- the old process stays allocated beside the new one
      have hpid : s.shell.pid ≠ -1 := fun h => hb (fun _ => h)
      have hne : a.logon ≠ -1 := by omega
      rw [if_neg hpid] at hs
      simp [Accounted, Library.logon, hpos, hne, hs]
  | logsOff argv =>
      obtain ⟨hrv, hpid⟩ := not_or.mp hb
      change a.logoff ≠ 0 at hrv
      rw [if_neg hpid] at hs
      simp [Accounted, Library.logoff, hrv, hs]

/-- **THE PROCESSES**: none is lost in a whole session exactly when every
    line is balanced. -/
theorem accounted_iff {s₀ s : Session}
    {tr : List (Event × Trace TfsOp TfsOp.Res)} (h₀ : Started allocating s₀)
    (hr : Run (step allocating) s₀ tr s) :
    Each (step allocating) Balanced s₀ tr ↔
      Always (step allocating) Accounted s₀ tr := by
  obtain ⟨a, hstarts⟩ := started_starts h₀
  refine @exact_guard _ _ _ _ Accounted Accounted Balanced (fun _ => True) ?_
    (fun _ h => h) ?_ _ _ _ hr (fun _ _ => trivial) (starts_accounted hstarts)
  · intro s e o s' hs _ hb hstep
    exact moves_accounted hs hb (step_moves hstep)
  · intro s e o s' hs _ hb hstep
    exact moves_not_accounted hs hb (step_moves hstep)

/-- A session with one balanced line. -/
theorem accounted_iff_logoff :
    ∃ tr s, Run (step allocating) atRoot tr s ∧
      tr.map Prod.fst = [logoffLine 0] ∧
      Always (step allocating) Accounted atRoot tr := by
  have h : (step allocating atRoot (logoffLine 0)).isSome = true := by decide
  have hs := (Option.some_get h).symm
  have hr := Run.cons hs (.nil _)
  exact ⟨_, _, hr, rfl, (accounted_iff atRoot_allocating hr).mp
    ((each_cons hs).mpr ⟨Or.inl rfl, each_nil⟩)⟩

/-- After a second `logon` both processes are allocated; after a `logoff`
    that fails the old one still is. -/
theorem process_lost :
    Started allocating atRoot ∧
    (∃ tr s, Run (step allocating) atRoot tr s ∧
      tr.map Prod.fst = [logonLine 1] ∧ ¬ Accounted s) ∧
    (∃ tr s, Run (step allocating) atRoot tr s ∧
      tr.map Prod.fst = [logoffLine (-1)] ∧ ¬ Accounted s) := by
  refine ⟨atRoot_allocating, ?_, ?_⟩
  · obtain ⟨tr, s, hr, htr, hp⟩ :=
      @exec_reaches _ _ _ (step allocating) (fun s => !decide (Accounted s))
        atRoot [logonLine 1] (by decide)
    exact ⟨tr, s, hr, htr, by simpa using hp⟩
  · obtain ⟨tr, s, hr, htr, hp⟩ :=
      @exec_reaches _ _ _ (step allocating) (fun s => !decide (Accounted s))
        atRoot [logoffLine (-1)] (by decide)
    exact ⟨tr, s, hr, htr, by simpa using hp⟩

end TfshSession
