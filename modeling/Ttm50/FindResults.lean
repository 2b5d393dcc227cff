import Ttm50.FindTraversal

/-! # Results about `find`

    What a run of the command has written and done when it has ended, read
    off the notes of the world:

    * `find_preorder`: the list that is printed, the failures that are
      reported, and the descriptors;
    * `find_refused_iff`: when a directory is refused for lack of
      descriptors;
    * `find_fits_iff`: when all paths fit their buffer;
    * `find_explained_iff`: when everything missing has been reported. -/

namespace FindResults

open InteractivePrograms DirectoryTrees TfshDriver FindDriver FindLibrary
open FindTraversal
open TfsHeader (tfsPathMax tfsOpenMax)

/-! ## Reading the notes -/

/-- The lines written to the output. -/
def outputs (notes : List Note) : List (String × List Arg) :=
  notes.filterMap (fun note =>
    match note with
    | .printed text args => some (text, args)
    | _ => none)

/-- The diagnostics, each with the path it names. -/
def diagnostics (notes : List Note) : List (String × Option Arg) :=
  notes.filterMap (fun note =>
    match note with
    | .reported text arg => some (text, arg)
    | _ => none)

/-- The paths refused for lack of descriptors. -/
def refusals (notes : List Note) : List String :=
  notes.filterMap (fun note =>
    match note with
    | .refused path => some path
    | _ => none)

/-- The paths built in the buffer. -/
def buffers (notes : List Note) : List String :=
  notes.filterMap (fun note =>
    match note with
    | .built path => some path
    | _ => none)

/-- The entries that `find` comes to below a start path. -/
def comesBelow (t : Setting) (held : Nat) (path : String) : List Entry :=
  let start := t.fs.start path
  if start.isDir && descends t held path [] then
    start.slots.arrive (descends t held path) (stops t path) 0
  else []

/-- The entries that `find` comes to from a start path. -/
def comesTo (t : Setting) (held : Nat) (path : String) : List Entry :=
  ⟨[], t.fs.start path⟩ :: comesBelow t held path

theorem comesTo_eq (t : Setting) (held : Nat) (path : String) :
    comesTo t held path
      = (t.fs.start path).arrive (descends t held path) (stops t path) :=
  rfl

/-- The notes made at one entry. -/
def notesAt (t : Setting) (g : Globals) (held : Nat) (path : String)
    (v : Entry) : List Note :=
  entered t g (held + v.names.length) (pathOf path v.names) v.node

theorem startNotes_eq (t : Setting) (g : Globals) (held : Nat)
    (path : String) :
    startNotes t g held path
      = entered t g held path (t.fs.start path) ++
        (comesBelow t held path).flatMap (noted t g held path) := by
  unfold startNotes comesBelow Fs.start
  cases hnode : t.fs.node path with
  | none => simp [entered, Setting.statFails, hnode, Node.isDir]
  | some i =>
      show nodeNotes t g held path i = _
      rw [nodeNotes]
      congr 1
      dsimp only [Option.getD_some]
      split
      · rfl
      · rfl

section Reading

variable (t : Setting) (g : Globals) (held : Nat) (path : String)

/-- What is read off the notes of a start path, entry by entry. -/
theorem startNotes_filterMap {B : Type} {f : Note → Option B}
    (hbuilt : ∀ q, f (.built q) = none) :
    (startNotes t g held path).filterMap f
      = (comesTo t held path).flatMap (fun v =>
          (notesAt t g held path v).filterMap f) := by
  rw [startNotes_eq, comesTo, List.flatMap_cons, List.filterMap_append,
    List.filterMap_flatMap]
  congr 2
  funext v
  rw [noted, List.filterMap_cons, hbuilt]
  rfl

theorem flatMap_ite {A B : Type} (p : A → Bool) (f : A → B) (as : List A) :
    as.flatMap (fun a => if p a then [f a] else []) = (as.filter p).map f := by
  induction as with
  | nil => rfl
  | cons a as ih =>
      rw [List.flatMap_cons, ih, List.filter_cons]
      by_cases hp : p a = true
      · rw [if_pos hp, if_pos hp]
        rfl
      · rw [if_neg hp, if_neg hp]
        rfl

/-- The entry has been stat'ed and its type is selected. -/
def shown (mask : Nat) (v : Entry) : Bool :=
  !t.statFails (pathOf path v.names) && selects mask v.node

/-- The line printed for an entry. -/
def line (v : Entry) : String × List Arg :=
  ("%s\n", [.s (pathOf path v.names)])

theorem startNotes_outputs (hprint : g.print = true) :
    outputs (startNotes t g held path)
      = ((comesTo t held path).filter (shown t path g.typeMask)).map
          (line path) := by
  rw [outputs, startNotes_filterMap t g held path (fun _ => rfl),
    ← flatMap_ite]
  congr 1
  funext v
  unfold notesAt entered shown
  by_cases hstat : t.statFails (pathOf path v.names) = true
  · simp [hstat, complaint]
  · have hok : (!t.statFails (pathOf path v.names)) = true := by simp [hstat]
    rw [if_neg hstat, hok, hprint, Bool.true_and]
    cases selects g.typeMask v.node
    · split_ifs <;> rfl
    · split_ifs <;> rfl

/-- The diagnostic for an entry, if a call fails there. -/
def failure (v : Entry) : Option (String × Option Arg) :=
  let q := pathOf path v.names
  if t.statFails q then some (statFailed, some (.s q))
  else if v.node.isDir &&
      (!t.free (held + v.names.length) || t.faults.opens q) then
    some (openFailed, some (.s q))
  else none

theorem startNotes_diagnostics :
    diagnostics (startNotes t g held path)
      = (comesTo t held path).filterMap (failure t held path) := by
  rw [diagnostics, startNotes_filterMap t g held path (fun _ => rfl),
    List.filterMap_eq_flatMap_toList]
  congr 1
  funext v
  unfold notesAt entered failure
  split_ifs <;> simp_all [complaint]

/-- `tfs_open` is refused at the entry for lack of descriptors. -/
def refusedAt (v : Entry) : Bool :=
  v.node.isDir && !t.statFails (pathOf path v.names) &&
    !t.free (held + v.names.length)

theorem startNotes_refusals :
    refusals (startNotes t g held path)
      = ((comesTo t held path).filter (refusedAt t held path)).map
          (fun v => pathOf path v.names) := by
  rw [refusals, startNotes_filterMap t g held path (fun _ => rfl),
    ← flatMap_ite]
  congr 1
  funext v
  unfold notesAt entered refusedAt
  split_ifs <;> simp_all [complaint]

theorem startNotes_buffers :
    buffers (startNotes t g held path)
      = (comesBelow t held path).map (fun v => pathOf path v.names) := by
  have hnone : ∀ h q i, buffers (entered t g h q i) = [] := by
    intro h q i
    unfold entered
    split_ifs <;> rfl
  rw [startNotes_eq, buffers, List.filterMap_append, List.filterMap_flatMap,
    ← buffers, hnone, List.nil_append, List.map_eq_flatMap]
  congr 1
  funext v
  rw [noted, List.filterMap_cons]
  exact congrArg (_ :: ·) (hnone _ _ _)

/-- What is read off the notes of all start paths, path by path. -/
theorem starts_filterMap {B : Type} {f : Note → Option B}
    {found : String → List B}
    (h : ∀ path, (startNotes t g held path).filterMap f = found path)
    (paths : List String) :
    (paths.flatMap (startNotes t g held)).filterMap f = paths.flatMap found := by
  rw [List.filterMap_flatMap]
  congr 1
  funext path
  exact h path

end Reading

/-! ## Whole runs -/

/-- The piece can be run to its end, and every run that has ended has returned
    in a world with `P`. -/
def Ends (t : Setting) (p : Find Unit) (w : World) (P : World → Prop) : Prop :=
  (∃ tr w', Run (library t) p w tr (.returned ()) w') ∧
  ∀ tr out w', Run (library t) p w tr out w' → out ≠ .running →
    out = .returned () ∧ P w'

/-- The command with its arguments, and fuel for its start paths. -/
structure Call (t : Setting) where
  pid : Int
  command : Command
  argv : List String
  fuel : Nat
  enough : ∀ path ∈ startPaths argv, fuelFor t.fs path < fuel

def Call.run {t : Setting} (c : Call t) : Find Unit :=
  find c.pid c.fuel c.command c.argv

/-- The arguments select `mask` and ask for the list. -/
def Call.Prints {t : Setting} (c : Call t) (mask : Nat) : Prop :=
  options (c.argv.drop 2) (tfsIDir ||| tfsIReg, false) = some (mask, true)

instance {t : Setting} (c : Call t) (mask : Nat) : Decidable (c.Prints mask) :=
  inferInstanceAs (Decidable (_ = _))

/-- The start paths that the command goes to: none after a wrong use. -/
def Call.starts {t : Setting} (c : Call t) : List String :=
  match options (c.argv.drop 2) (tfsIDir ||| tfsIReg, false) with
  | none => []
  | some _ => startPaths c.argv

/-- What the command notes. -/
def Call.notes {t : Setting} (c : Call t) (held : Nat) : List Note :=
  findNotes t c.pid c.command c.argv held

variable {t : Setting} {c : Call t} {mask : Nat} {w : World}

theorem notes_of_prints (hprints : c.Prints mask) (held : Nat) :
    c.notes held
      = (startPaths c.argv).flatMap (startNotes t ⟨c.pid, mask, true⟩ held) := by
  rw [Call.notes, findNotes, hprints]

/-- What is read off the notes of the command, when the output does not count:
    it is the same for all options. -/
theorem notes_filterMap {B : Type} {f : Note → Option B} {held : Nat}
    {found : String → List B} (hprinted : ∀ text args, f (.printed text args) = none)
    (h : ∀ g path, (startNotes t g held path).filterMap f = found path) :
    (c.notes held).filterMap f = c.starts.flatMap found := by
  rw [Call.notes, findNotes, Call.starts]
  cases options (c.argv.drop 2) (tfsIDir ||| tfsIReg, false) with
  | none =>
      show List.filterMap f (usage _ c.command) = []
      cases hcommand : c.command.usage <;>
        simp [usage, hcommand, hprinted]
  | some o => exact starts_filterMap t _ held (h _) _

theorem ends_of_notes {P : World → Prop}
    (hP : P (World.after w (c.notes w.fds.length))) : Ends t c.run w P := by
  have hdoes : Does t c.run w (c.notes w.fds.length) := does_find c.enough w
  obtain ⟨tr, u, w', hrun, -⟩ := run_returns (library_total t) hdoes
  refine ⟨⟨tr, w', hrun⟩, ?_⟩
  intro tr' out m hrun' hout
  have hpost := wp_post hdoes hrun'
  cases out with
  | running => exact absurd rfl hout
  | returned u =>
      obtain rfl := hpost
      exact ⟨rfl, hP⟩
  | exited x => exact hpost.elim

theorem Ends.mono {p : Find Unit} {P P' : World → Prop} (h : Ends t p w P)
    (himp : ∀ w', P w' → P' w') : Ends t p w P' := by
  refine ⟨h.1, ?_⟩
  intro tr out w' hrun hout
  obtain ⟨hret, hP⟩ := h.2 tr out w' hrun hout
  exact ⟨hret, himp w' hP⟩

/-! Names for concrete trees. -/

def nameA : LiveSlot := ⟨⟨2, "a"⟩, by decide, by decide, by decide⟩

def nameB : LiveSlot := ⟨⟨3, "b"⟩, by decide, by decide, by decide⟩

def dotSlot : DeadSlot := ⟨⟨1, "."⟩, by decide⟩

def deletedSlot : DeadSlot := ⟨⟨0, "old"⟩, by decide⟩

theorem outputs_append (notes notes' : List Note) :
    outputs (notes ++ notes') = outputs notes ++ outputs notes' :=
  List.filterMap_append

theorem diagnostics_append (notes notes' : List Note) :
    diagnostics (notes ++ notes') = diagnostics notes ++ diagnostics notes' :=
  List.filterMap_append

/-- Neither call fails at the directory that `names` lead to. -/
def unbarred (t : Setting) (path : String) (names : List LiveSlot) : Bool :=
  !t.statFails (pathOf path names) && !t.faults.opens (pathOf path names)

/-- No call fails at a directory above the entry. -/
def reached (t : Setting) (path : String) (v : Entry) : Bool :=
  (above v.names).all (unbarred t path)

theorem comesTo_eq_filter (hroom : t.room = none)
    (hreads : ∀ path k, t.faults.reads path k = false) (held : Nat)
    (path : String) :
    comesTo t held path
      = (t.fs.start path).visits.filter (reached t path) := by
  have hgo : descends t held path = unbarred t path := by
    funext names
    simp [descends, unbarred, Setting.free, hroom]
  rw [comesTo_eq, hgo]
  exact node_arrive_eq_filter (fun names k => hreads _ k) _

/-- **THE LIST**: with reads that succeed and descriptors to spare, the
    entries are printed in pre-order, but for those that cannot be stat'ed and
    those below a failure; each failure is reported; the descriptors are as
    before.  No path comes twice for a start path. -/
theorem find_preorder (hroom : t.room = none)
    (hreads : ∀ path k, t.faults.reads path k = false)
    (hprints : c.Prints mask) :
    Ends t c.run w (fun w' =>
      w'.fds = w.fds ∧
      outputs w'.notes = outputs w.notes ++
        (startPaths c.argv).flatMap (fun path =>
          ((t.fs.start path).visits.filter (fun v =>
            reached t path v && shown t path mask v)).map (line path)) ∧
      diagnostics w'.notes = diagnostics w.notes ++
        (startPaths c.argv).flatMap (fun path =>
          ((t.fs.start path).visits.filter (reached t path)).filterMap
            (failure t w.fds.length path)) ∧
      ∀ path ∈ startPaths c.argv,
        (t.fs.start path).slots.Distinct LiveSlot.name →
        ((t.fs.start path).visits.map (fun v => pathOf path v.names)).Nodup) := by
  refine ends_of_notes ⟨rfl, ?_, ?_, fun path _ h => paths_nodup h⟩
  all_goals rw [notes_of_prints hprints]
  · show outputs (w.notes ++ _) = _
    rw [outputs_append]
    congr 1
    refine starts_filterMap t _ _ ?_ _
    intro path
    rw [← outputs, startNotes_outputs _ _ _ _ rfl,
      comesTo_eq_filter hroom hreads, List.filter_filter]
    congr 2
    funext v
    exact Bool.and_comm _ _
  · show diagnostics (w.notes ++ _) = _
    rw [diagnostics_append]
    congr 1
    refine starts_filterMap t _ _ ?_ _
    intro path
    rw [← diagnostics, startNotes_diagnostics, comesTo_eq_filter hroom hreads]

/-- A directory with a file, and a directory with a file of the same name. -/
def demoTree : Tree :=
  .dead dotSlot (.file nameA (.dead deletedSlot
    (.dir nameB (.file nameA .nil) .nil)))

theorem demoTree_distinct : demoTree.Distinct LiveSlot.name := by
  have hne : nameB.name ≠ nameA.name := by decide
  refine ⟨?_, ?_⟩
  · intro c hc
    obtain rfl : c = (nameB, .dir (.file nameA .nil)) := List.mem_singleton.mp hc
    exact hne
  · exact ⟨(fun _ h => nomatch h), ⟨(fun _ h => nomatch h), trivial⟩, trivial⟩

/-- `d/a` cannot be stat'ed. -/
def demo : Setting :=
  ⟨Fs.ofTree "d" (.dir demoTree) demoTree_distinct,
    { Faults.none with stat := fun path => path = "d/a" }, none⟩

def demoCall : Call demo :=
  ⟨0, findCommand, ["find", "d", "-print"], 9, by decide +kernel⟩

theorem find_preorder_demo :
    Ends demo demoCall.run ⟨[], []⟩ (fun w' =>
      w'.fds = [] ∧
      outputs w'.notes = ["d", "d/b", "d/b/a"].map (fun path =>
        ("%s\n", [.s path])) ∧
      diagnostics w'.notes = [(statFailed, some (.s "d/a"))]) := by
  have hprints : demoCall.Prints (tfsIDir ||| tfsIReg) := by decide
  refine (find_preorder rfl (fun _ _ => rfl) hprints).mono ?_
  rintro w' ⟨hfds, hout, hdiag, -⟩
  exact ⟨hfds, hout.trans (by decide +kernel), hdiag.trans (by decide +kernel)⟩

/-! ## Descriptors -/

/-- The entries come to with descriptors to spare. -/
def comesFreely (t : Setting) (path : String) : List Entry :=
  (t.fs.start path).arrive (unbarred t path) (stops t path)

/-- A directory that `tfs_open` is called at, with `names` that lead to it. -/
def opensAt (t : Setting) (path : String) (v : Entry) : Bool :=
  v.node.isDir && !t.statFails (pathOf path v.names)

theorem refusedAt_iff (hroom : t.room = some tfsOpenMax) (path : String)
    (v : Entry) :
    ¬ refusedAt t 0 path v = true ↔
      (opensAt t path v = true → v.names.length < tfsOpenMax) := by
  have hsplit : refusedAt t 0 path v
      = (opensAt t path v && !t.free v.names.length) := by
    rw [refusedAt, opensAt, Nat.zero_add]
  have hfree : t.free v.names.length = decide (v.names.length < tfsOpenMax) := by
    simp [Setting.free, hroom]
  rw [hsplit, hfree]
  cases opensAt t path v <;> simp

/-- Above the limit the table makes no difference. -/
theorem descends_unbarred (hroom : t.room = some tfsOpenMax) {path : String}
    {v : Entry} (hdir : v.node.isDir = true)
    (h : opensAt t path v = true → v.names.length < tfsOpenMax) :
    descends t 0 path v.names = unbarred t path v.names := by
  unfold descends unbarred
  by_cases hstat : t.statFails (pathOf path v.names) = true
  · simp [hstat]
  · have hlen := h (by simp [opensAt, hdir, hstat])
    simp [Setting.free, hroom, hlen]

/-- No directory come to is refused when none is that would be come to with
    descriptors to spare, and the other way round. -/
theorem comesTo_refused_iff (hroom : t.room = some tfsOpenMax)
    (path : String) :
    (∀ v ∈ comesTo t 0 path, ¬ refusedAt t 0 path v = true) ↔
      ∀ v ∈ comesFreely t path,
        opensAt t path v = true → v.names.length < tfsOpenMax := by
  constructor
  · intro h
    have hspare := fun v hv => (refusedAt_iff hroom path v).mp (h v hv)
    have heq : comesTo t 0 path = comesFreely t path :=
      node_arrive_congr (fun v hv hdir =>
        descends_unbarred hroom hdir (hspare v hv))
    rw [← heq]
    exact hspare
  · intro h
    have heq : comesFreely t path = comesTo t 0 path :=
      node_arrive_congr (fun v hv hdir =>
        (descends_unbarred hroom hdir (h v hv)).symm)
    rw [← heq]
    exact fun v hv => (refusedAt_iff hroom path v).mpr (h v hv)

/-- **DEPTH**: with no descriptor open at the start, `tfs_open` is never
    refused for lack of descriptors exactly when every directory that can be
    come to is less than 16 levels below its start path. -/
theorem find_refused_iff (hroom : t.room = some tfsOpenMax) :
    Ends t c.run ⟨[], []⟩ (fun w' => refusals w'.notes = [] ↔
      ∀ path ∈ c.starts, ∀ v ∈ comesFreely t path,
        opensAt t path v = true → v.names.length < tfsOpenMax) := by
  refine ends_of_notes ?_
  have hnotes : refusals (c.notes 0) = c.starts.flatMap (fun path =>
      ((comesTo t 0 path).filter (refusedAt t 0 path)).map
        (fun v => pathOf path v.names)) :=
    notes_filterMap (fun _ _ => rfl) (fun g => startNotes_refusals t g 0)
  show refusals ([] ++ c.notes 0) = [] ↔ _
  rw [List.nil_append, hnotes, List.flatMap_eq_nil_iff]
  refine forall₂_congr ?_
  intro path _
  rw [List.map_eq_nil_iff, List.filter_eq_nil_iff]
  exact comesTo_refused_iff hroom path

/-- Directories nested in one another. -/
def chain : Nat → Tree
  | 0 => .nil
  | n + 1 => .dir nameA (chain n) .nil

theorem chain_distinct (n : Nat) : (chain n).Distinct LiveSlot.name := by
  induction n with
  | zero => trivial
  | succ n ih => exact ⟨(fun _ h => nomatch h), ih, trivial⟩

/-- The directory `a` with `n` more nested in it, and 16 descriptors. -/
def nested (n : Nat) : Setting :=
  ⟨Fs.ofTree "a" (.dir (chain n)) (chain_distinct n), Faults.none,
    some tfsOpenMax⟩

def shallowCall : Call (nested 15) :=
  ⟨0, findCommand, ["find", "a", "-print"], 20, by decide +kernel⟩

def deepCall : Call (nested 16) :=
  ⟨0, findCommand, ["find", "a", "-print"], 20, by decide +kernel⟩

/-- 16 nested directories are no problem. -/
theorem find_refused_iff_shallow :
    Ends (nested 15) shallowCall.run ⟨[], []⟩ (fun w' =>
      refusals w'.notes = []) := by
  refine (find_refused_iff rfl).mono ?_
  intro w' hiff
  exact hiff.mpr (by decide +kernel)

/-- The 17th is refused, with paths far from the limit. -/
theorem deep_refused :
    (∀ v ∈ ((nested 16).fs.start "a").visits,
      (pathOf "a" v.names).length ≤ tfsPathMax) ∧
    Ends (nested 16) deepCall.run ⟨[], []⟩ (fun w' =>
      refusals w'.notes ≠ []) := by
  exact ⟨by decide +kernel, ends_of_notes (by decide +kernel)⟩

/-! ## The buffer -/

/-- **THE BUFFER**: every path built fits exactly when no directory that is
    gone into has an entry of a longer path. -/
theorem find_fits_iff {fds : List (Int × Handle)} :
    Ends t c.run ⟨fds, []⟩ (fun w' =>
      (∀ q ∈ buffers w'.notes, q.length + 1 ≤ tfsPathMax + 1) ↔
      ∀ path ∈ c.starts, ∀ v ∈ comesBelow t fds.length path,
        (pathOf path v.names).length ≤ tfsPathMax) := by
  refine ends_of_notes ?_
  have hnotes : buffers (c.notes fds.length) = c.starts.flatMap (fun path =>
      (comesBelow t fds.length path).map (fun v => pathOf path v.names)) :=
    notes_filterMap (fun _ _ => rfl)
      (fun g => startNotes_buffers t g fds.length)
  show (∀ q ∈ buffers ([] ++ c.notes fds.length), _) ↔ _
  rw [List.nil_append, hnotes]
  constructor
  · intro h path hpath v hv
    exact Nat.le_of_succ_le_succ (h _ (List.mem_flatMap.mpr
      ⟨path, hpath, List.mem_map_of_mem hv⟩))
  · intro h q hq
    obtain ⟨path, hpath, hq⟩ := List.mem_flatMap.mp hq
    obtain ⟨v, hv, rfl⟩ := List.mem_map.mp hq
    exact Nat.succ_le_succ (h path hpath v hv)

/-- A path of one letter, `n` times. -/
def repeated (n : Nat) : String := String.ofList (List.replicate n 'd')

theorem repeated_length (n : Nat) : (repeated n).length = n := by
  simp [repeated]

theorem repeated_start {n : Nat} (hn : n ≠ 0) :
    startPaths ["find", repeated n, "-print"] = [repeated n] := by
  have hhead : (repeated n).toList.head? = some 'd' := by
    simp [repeated, List.head?_replicate, hn]
  simp [startPaths, hhead]

/-- The path of a directory, near the limit. -/
def longPath : String := repeated 250

theorem longPath_length : longPath.length = 250 := repeated_length 250

theorem longPath_start :
    startPaths ["find", longPath, "-print"] = [longPath] :=
  repeated_start (by decide)

/-- A library that takes paths up to the limit. -/
def limitFaults : Faults :=
  { Faults.none with
    stat := fun path => tfsPathMax < path.length
    opens := fun path => tfsPathMax < path.length }

def nameLong : LiveSlot :=
  ⟨⟨2, "chapter.txt"⟩, by decide, by decide, by decide⟩

/-- One file in a directory of the given path. -/
def oneFile (path : String) (l : LiveSlot) : Setting :=
  ⟨Fs.ofTree path (.dir (.file l .nil)) ⟨(fun _ h => nomatch h), trivial⟩,
    limitFaults, none⟩

theorem oneFile_limited (path : String) (l : LiveSlot) :
    (oneFile path l).Limited := by
  intro q hq
  constructor
  · simp [Setting.statFails, oneFile, limitFaults, hq]
  · simp [oneFile, limitFaults, hq]

theorem oneFile_node (path : String) (l : LiveSlot) :
    (oneFile path l).fs.node path = some (.dir (.file l .nil)) := by
  simp [oneFile, Fs.ofTree, Node.visits, pathOf]

def oneFileCall (l : LiveSlot) : Call (oneFile longPath l) where
  pid := 0
  command := findCommand
  argv := ["find", longPath, "-print"]
  fuel := 9
  enough := by
    intro path hpath
    rw [longPath_start, List.mem_singleton] at hpath
    rw [hpath, fuelFor, oneFile_node]
    show 2 < 9
    decide

theorem oneFileCall_prints (l : LiveSlot) :
    (oneFileCall l).Prints (tfsIDir ||| tfsIReg) := by
  simp [Call.Prints, oneFileCall, options.eq_def]

/-- `find` comes to the file. -/
theorem oneFile_below (l : LiveSlot) :
    comesBelow (oneFile longPath l) 0 longPath = [⟨[l], .file⟩] := by
  have hstart : (oneFile longPath l).fs.start longPath
      = .dir (.file l .nil) := by
    rw [Fs.start, oneFile_node]
    rfl
  have hgo : descends (oneFile longPath l) 0 longPath [] = true := by
    simp [descends, Setting.statFails, Setting.free, pathOf, oneFile_node]
    simp [oneFile, limitFaults, longPath_length, tfsPathMax]
  rw [comesBelow, hstart, hgo]
  rfl

theorem oneFile_length (l : LiveSlot) :
    (pathOf longPath [l]).length = 251 + l.name.length := by
  simp [pathOf, longPath_length]
  rfl

theorem find_fits_iff_short :
    Ends (oneFile longPath nameA) (oneFileCall nameA).run ⟨[], []⟩ (fun w' =>
      ∀ q ∈ buffers w'.notes, q.length + 1 ≤ tfsPathMax + 1) := by
  refine find_fits_iff.mono ?_
  intro w' hiff
  refine hiff.mpr ?_
  intro path hpath v hv
  obtain rfl : path = longPath := by
    simpa [Call.starts, oneFileCall, options.eq_def, longPath_start] using hpath
  rw [List.length_nil, oneFile_below, List.mem_singleton] at hv
  rw [hv, oneFile_length]
  decide

/-- A file with a name of 11 characters in a directory with a path of 250. -/
theorem long_overflows :
    (oneFile longPath nameLong).Limited ∧
    Ends (oneFile longPath nameLong) (oneFileCall nameLong).run ⟨[], []⟩
      (fun w' => ¬ ∀ q ∈ buffers w'.notes, q.length + 1 ≤ tfsPathMax + 1) := by
  refine ⟨oneFile_limited _ _, ends_of_notes ?_⟩
  rw [notes_of_prints (oneFileCall_prints _)]
  intro hfits
  have hbuilt : pathOf longPath [nameLong] ∈ buffers (startNotes
      (oneFile longPath nameLong) ⟨0, tfsIDir ||| tfsIReg, true⟩ 0 longPath) := by
    rw [startNotes_buffers, oneFile_below]
    exact List.mem_singleton.mpr rfl
  have hlong := hfits (pathOf longPath [nameLong]) (by
    show _ ∈ buffers ([] ++ (startPaths ["find", longPath, "-print"]).flatMap _)
    rw [longPath_start, List.flatMap_singleton, List.nil_append]
    exact hbuilt)
  rw [oneFile_length] at hlong
  exact absurd hlong (by decide)

/-! ## Silence -/

/-- Every selected entry is printed or has a diagnostic at it or above it. -/
def Explained (t : Setting) (mask : Nat) (path : String) (notes : List Note) :
    Prop :=
  ∀ v ∈ (t.fs.start path).visits, selects mask v.node = true →
    line path v ∈ outputs notes ∨
    ∃ names text, names <+: v.names ∧
      (text, some (.s (pathOf path names))) ∈ diagnostics notes

/-- Without a diagnostic all selected entries are printed. -/
def Complete (t : Setting) (mask : Nat) (path : String) (notes : List Note) :
    Prop :=
  diagnostics notes = [] →
    outputs notes = ((t.fs.start path).visits.filter
      (fun v => selects mask v.node)).map (line path)

/-- The entries below a start path that reads hide. -/
def hidden (t : Setting) (held : Nat) (path : String) : List Entry :=
  (t.fs.start path).lost (descends t held path) (stops t path)

section Silence

variable {held : Nat} {path : String} {g : Globals}

theorem failure_none_iff {v : Entry} :
    failure t held path v = none ↔
      t.statFails (pathOf path v.names) = false ∧
      (v.node.isDir = true → descends t held path v.names = true) := by
  unfold failure descends
  by_cases hstat : t.statFails (pathOf path v.names) = true
  · simp [hstat]
  · cases v.node.isDir
    · simp [hstat]
    · simp [hstat, and_comm]

/-- A diagnostic names the path of its entry. -/
theorem failure_path {v : Entry} {d : String × Option Arg}
    (h : failure t held path v = some d) :
    d.2 = some (.s (pathOf path v.names)) := by
  unfold failure at h
  dsimp only at h
  split_ifs at h
  · rw [← Option.some.inj h]
  · rw [← Option.some.inj h]

theorem reported_of_failure {v : Entry} (hv : v ∈ comesTo t held path)
    (h : failure t held path v ≠ none) :
    ∃ text, (text, some (.s (pathOf path v.names)))
      ∈ diagnostics (startNotes t g held path) := by
  obtain ⟨⟨text, arg⟩, hd⟩ := Option.ne_none_iff_exists'.mp h
  obtain rfl : arg = some (.s (pathOf path v.names)) := failure_path hd
  rw [startNotes_diagnostics]
  exact ⟨text, List.mem_filterMap.mpr ⟨v, hv, hd⟩⟩

/-- Where reads hide no selected entry, all that is missing is explained. -/
theorem explained_of_hidden (hprint : g.print = true)
    (h : ∀ v ∈ hidden t held path, selects g.typeMask v.node = false) :
    Explained t g.typeMask path (startNotes t g held path) := by
  intro v hv hsel
  rcases node_visits_cases (descends t held path) (stops t path) hv with
    harr | ⟨u, hu, hdir, hgo, l, r, hr⟩ | hlost
  · by_cases hstat : t.statFails (pathOf path v.names) = true
    · have hfail : failure t held path v ≠ none := by
        intro hnone
        exact absurd (failure_none_iff.mp hnone).1 (by simp [hstat])
      obtain ⟨text, htext⟩ := reported_of_failure (g := g) harr hfail
      exact .inr ⟨v.names, text, List.prefix_rfl, htext⟩
    · rw [startNotes_outputs _ _ _ _ hprint]
      refine .inl (List.mem_map_of_mem (List.mem_filter.mpr ⟨harr, ?_⟩))
      simp [shown, hstat, hsel]
  · have hfail : failure t held path u ≠ none := by
      intro hnone
      exact absurd ((failure_none_iff.mp hnone).2 hdir) (by simp [hgo])
    obtain ⟨text, htext⟩ := reported_of_failure (g := g) hu hfail
    exact .inr ⟨u.names, text, ⟨l :: r, hr.symm⟩, htext⟩
  · exact absurd hsel (by simp [h v hlost])

/-- And where there is no diagnostic at all, the list is complete. -/
theorem complete_of_hidden (hprint : g.print = true)
    (h : ∀ v ∈ hidden t held path, selects g.typeMask v.node = false) :
    Complete t g.typeMask path (startNotes t g held path) := by
  intro hnone
  rw [startNotes_diagnostics, List.filterMap_eq_nil_iff] at hnone
  have hgo : ∀ v ∈ comesTo t held path, v.node.isDir = true →
      descends t held path v.names = true :=
    fun v hv => (failure_none_iff.mp (hnone v hv)).2
  have hshown : (comesTo t held path).filter (shown t path g.typeMask)
      = (comesTo t held path).filter (fun v => selects g.typeMask v.node) := by
    refine List.filter_congr ?_
    intro v hv
    simp [shown, (failure_none_iff.mp (hnone v hv)).1]
  rw [startNotes_outputs _ _ _ _ hprint, hshown, comesTo_eq,
    node_filter_arrive hgo h]

/-- A selected entry that reads hide is neither printed nor explained. -/
theorem not_explained {v : Entry} (hprint : g.print = true)
    (hdistinct : (t.fs.start path).slots.Distinct LiveSlot.name)
    (hv : v ∈ hidden t held path) (hsel : selects g.typeMask v.node = true) :
    ¬ Explained t g.typeMask path (startNotes t g held path) := by
  intro hexpl
  -- an entry come to on the way is a directory gone into, and not `v`
  have hway : ∀ u ∈ comesTo t held path, ∀ names, names <+: v.names →
      pathOf path u.names = pathOf path names →
      u.node.isDir = true ∧ descends t held path u.names = true ∧
        u.keys LiveSlot.name ≠ v.keys LiveSlot.name := by
    intro u hu names hpre hpath
    refine node_lost_unreached hdistinct hv hu ?_
    show u.names.map LiveSlot.name <+: v.names.map LiveSlot.name
    rw [pathOf_names hpath]
    exact hpre.map _
  rcases hexpl v (node_lost_subset hv) hsel with hout | ⟨names, text, hpre, hd⟩
  · rw [startNotes_outputs _ _ _ _ hprint] at hout
    obtain ⟨u, hu, hline⟩ := List.mem_map.mp hout
    have hpath : pathOf path u.names = pathOf path v.names := by
      simpa [line] using hline
    have hu' := List.mem_of_mem_filter hu
    exact (hway u hu' v.names List.prefix_rfl hpath).2.2 (pathOf_names hpath)
  · rw [startNotes_diagnostics] at hd
    obtain ⟨u, hu, hfail⟩ := List.mem_filterMap.mp hd
    have hpath : pathOf path u.names = pathOf path names := by
      have harg := failure_path hfail
      simpa using harg.symm
    obtain ⟨hdir, hgo, -⟩ := hway u hu names hpre hpath
    have hstat : t.statFails (pathOf path u.names) = false := by
      unfold descends at hgo
      simp_all
    rw [failure_none_iff.mpr ⟨hstat, fun _ => hgo⟩] at hfail
    exact nomatch hfail

end Silence

/-- **SILENCE**: all that is missing is explained, and the list complete when
    there is no diagnostic, exactly when no selected entry is among those that
    failed reads hide. -/
theorem find_explained_iff {path : String} {fds : List (Int × Handle)}
    (hpath : startPaths c.argv = [path]) (hprints : c.Prints mask)
    (hdistinct : (t.fs.start path).slots.Distinct LiveSlot.name) :
    Ends t c.run ⟨fds, []⟩ (fun w' =>
      (Complete t mask path w'.notes ∧ Explained t mask path w'.notes) ↔
      ∀ v ∈ hidden t fds.length path, selects mask v.node = false) := by
  refine ends_of_notes ?_
  rw [notes_of_prints hprints, hpath, List.flatMap_singleton]
  show (Complete t mask path ([] ++ _) ∧ Explained t mask path ([] ++ _)) ↔ _
  rw [List.nil_append]
  constructor
  · rintro ⟨-, hexpl⟩ v hv
    by_contra hsel
    exact not_explained (g := ⟨c.pid, mask, true⟩) rfl hdistinct hv
      (by simpa using hsel) hexpl
  · intro h
    exact ⟨complete_of_hidden (g := ⟨c.pid, mask, true⟩) rfl h,
      explained_of_hidden (g := ⟨c.pid, mask, true⟩) rfl h⟩

/-- The first read in `d` fails; `d` holds one file. -/
def broken : Setting :=
  ⟨Fs.ofTree "d" (.dir (.file nameA .nil)) ⟨(fun _ h => nomatch h), trivial⟩,
    { Faults.none with reads := fun path k => path = "d" && k = 0 }, none⟩

def brokenCall : Call broken :=
  ⟨0, findCommand, ["find", "d", "-print"], 9, by decide +kernel⟩

def brokenDirsCall : Call broken :=
  ⟨0, findCommand, ["find", "d", "-type", "d", "-print"], 9,
    by decide +kernel⟩

/-- The list of directories does not miss the file. -/
theorem find_explained_iff_dirs :
    Ends broken brokenDirsCall.run ⟨[], []⟩ (fun w' =>
      Complete broken tfsIDir "d" w'.notes ∧
        Explained broken tfsIDir "d" w'.notes) := by
  have hprints : brokenDirsCall.Prints tfsIDir := by decide
  have hpath : startPaths brokenDirsCall.argv = ["d"] := by decide
  refine (find_explained_iff hpath hprints ?_).mono ?_
  · exact ⟨(fun _ h => nomatch h), trivial⟩
  · intro w' hiff
    exact hiff.mpr (by decide +kernel)

/-- The list of all entries does, without a diagnostic. -/
theorem broken_silent :
    Ends broken brokenCall.run ⟨[], []⟩ (fun w' =>
      diagnostics w'.notes = [] ∧
        ¬ (Complete broken (tfsIDir ||| tfsIReg) "d" w'.notes ∧
          Explained broken (tfsIDir ||| tfsIReg) "d" w'.notes)) := by
  refine ends_of_notes ⟨by decide +kernel, ?_⟩
  rintro ⟨hcomplete, -⟩
  exact absurd (hcomplete (by decide +kernel)) (by decide +kernel)

end FindResults
