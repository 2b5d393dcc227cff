import Ttm50.DirectoryTrees
import Ttm50.FindDriver

/-! # The file system under `find`

    A file system `Fs` resolves paths to files and directories; in a
    directory that a path resolves to, the path of an entry resolves to that
    entry.  The calls of the library answer from it, unless they fail:
    `Faults` says at which paths `tfs_stat` and `tfs_open` fail, and at which
    slot of which directory `tfs_read` does.  Further a table of limited size
    may be out of descriptors.

    The `World` keeps the descriptor table and notes what `find` writes, the
    paths it builds and the calls refused for lack of descriptors. -/

namespace FindLibrary

open InteractivePrograms DirectoryTrees TfshDriver FindDriver
open TfsHeader (tfsNameMax tfsPathMax)

/-! ## Directories -/

/-- A slot that `find` passes over. -/
abbrev DeadSlot := { d : Dirent // isEntry d = false }

/-- A slot with an entry; its name fits its field and holds no slash. -/
structure LiveSlot where
  dirent : Dirent
  live : isEntry dirent = true
  plain : dirent.name.toList.all (· ≠ '/') = true
  short : dirent.name.length ≤ tfsNameMax

abbrev Tree := Slots DeadSlot LiveSlot

abbrev Inode := Node DeadSlot LiveSlot

abbrev Entry := Visit DeadSlot LiveSlot

def LiveSlot.name (l : LiveSlot) : String := l.dirent.name

/-- The path that `names` lead to from `path`. -/
def pathOf (path : String) : List LiveSlot → String
  | [] => path
  | l :: names => pathOf (path ++ "/" ++ l.name) names

/-- The next slot of a directory, as `tfs_read` writes it, and the rest. -/
def nextSlot : Tree → Option (Dirent × Tree)
  | .nil => none
  | .dead d rest => some (d.val, rest)
  | .file l rest => some (l.dirent, rest)
  | .dir l _ rest => some (l.dirent, rest)

/-- The inode type field. -/
def typeBits (node : Inode) : Nat := if node.isDir then tfsIDir else tfsIReg

/-- A file system: what paths resolve to, with the mode that `tfs_stat`
    reports. -/
structure Fs where
  node : String → Option Inode
  mode : String → Nat
  closed : ∀ path i, node path = some i → ∀ c ∈ i.slots.children,
    node (path ++ "/" ++ c.1.name) = some c.2
  typed : ∀ path i, node path = some i → mode path &&& tfsIType = typeBits i

/-- What is at a start path; where nothing is, `tfs_stat` fails. -/
def Fs.start (fs : Fs) (path : String) : Inode := (fs.node path).getD .file

/-- Which calls fail. -/
structure Faults where
  stat : String → Bool
  opens : String → Bool
  reads : String → Nat → Bool

/-- No call fails but for a path that does not resolve. -/
def Faults.none : Faults := ⟨fun _ => false, fun _ => false, fun _ _ => false⟩

/-! ## Paths -/

theorem pathOf_toList (path : String) (names : List LiveSlot) :
    (pathOf path names).toList
      = path.toList ++ joined '/' (names.map (fun l => l.name.toList)) := by
  induction names generalizing path with
  | nil => simp [pathOf, joined]
  | cons l names ih =>
      rw [pathOf, ih]
      simp [joined]

theorem name_plain (l : LiveSlot) : '/' ∉ l.name.toList := by
  intro h
  have hplain := List.all_eq_true.mp l.plain '/' h
  simp at hplain

/-- A path tells the names that lead to it. -/
theorem pathOf_names {path : String} {names names' : List LiveSlot}
    (h : pathOf path names = pathOf path names') :
    names.map LiveSlot.name = names'.map LiveSlot.name := by
  have hplain : ∀ ns : List LiveSlot, ∀ n ∈ ns.map (fun l => l.name.toList),
      '/' ∉ n := by
    intro ns n hn
    obtain ⟨l, -, rfl⟩ := List.mem_map.mp hn
    exact name_plain l
  have heq := congrArg String.toList h
  rw [pathOf_toList, pathOf_toList] at heq
  have hlists := joined_inj (hplain names) (hplain names')
    (List.append_cancel_left heq)
  have hinj : Function.Injective (List.map String.toList) :=
    List.map_injective_iff.mpr (fun _ _ h => String.toList_inj.mp h)
  refine hinj ?_
  rw [List.map_map, List.map_map]
  exact hlists

theorem pathOf_append (path : String) (names : List LiveSlot) (l : LiveSlot) :
    pathOf path (names ++ [l]) = pathOf path names ++ "/" ++ l.name := by
  induction names generalizing path with
  | nil => rfl
  | cons l' names ih => exact ih _

/-- Where names are distinct, the entries have different paths. -/
theorem paths_nodup {path : String} {i : Inode}
    (hi : i.slots.Distinct LiveSlot.name) :
    (i.visits.map (fun v => pathOf path v.names)).Nodup := by
  have hkeys := node_visits_nodup hi
  rw [List.Nodup, List.pairwise_map] at hkeys ⊢
  exact hkeys.imp (fun hne heq => hne (pathOf_names heq))

/-- The file system that holds one tree. -/
def Fs.ofTree (path : String) (i : Inode)
    (hi : i.slots.Distinct LiveSlot.name) : Fs where
  node q := (i.visits.find? (fun v => pathOf path v.names = q)).map Visit.node
  mode q := ((i.visits.find? (fun v => pathOf path v.names = q)).map
    (fun v => typeBits v.node)).getD 0
  closed := by
    intro q j hj c hc
    obtain ⟨v, hv, rfl⟩ := Option.map_eq_some_iff.mp hj
    have hq : pathOf path v.names = q := by simpa using List.find?_some hv
    have hchild := node_visits_child (List.mem_of_find?_eq_some hv) hc
    rw [← hq, ← pathOf_append, Option.map_eq_some_iff]
    cases hfind : i.visits.find?
        (fun u => pathOf path u.names = pathOf path (v.names ++ [c.1])) with
    | none =>
        have hnot := List.find?_eq_none.mp hfind _ hchild
        simp at hnot
    | some u =>
        have hu : pathOf path u.names = pathOf path (v.names ++ [c.1]) := by
          simpa using List.find?_some hfind
        have heq := List.inj_on_of_nodup_map (paths_nodup hi)
          (List.mem_of_find?_eq_some hfind) hchild hu
        exact ⟨u, rfl, by rw [heq]⟩
  typed := by
    intro q j hj
    obtain ⟨v, hv, rfl⟩ := Option.map_eq_some_iff.mp hj
    rw [hv]
    show typeBits v.node &&& tfsIType = typeBits v.node
    cases v.node with
    | file => simp [typeBits, Node.isDir, tfsIReg, tfsIType]
    | dir contents => simp [typeBits, Node.isDir, tfsIDir, tfsIType]

/-! ## The calls -/

/-- An open directory: its path, the slots not yet read, and their position. -/
structure Handle where
  path : String
  rest : Tree
  pos : Nat

/-- What is noted: the output, the diagnostics (without the error's text),
    a call of `tfs_open` refused with `TFS_EMFILE`, a path built. -/
inductive Note where
  | printed (text : String) (args : List Arg)
  | reported (text : String) (arg : Option Arg)
  | refused (path : String)
  | built (path : String)
  deriving DecidableEq, Repr

/-- The descriptor table of the process, and the notes. -/
structure World where
  fds : List (Int × Handle)
  notes : List Note

def World.noting (w : World) (note : Note) : World :=
  { w with notes := w.notes ++ [note] }

/-- The descriptor `fd`. -/
def World.handle (w : World) (fd : Int) : Option Handle :=
  (w.fds.find? (fun e => e.1 = fd)).map Prod.snd

def World.setHandle (w : World) (fd : Int) (h : Handle) : World :=
  { w with fds := w.fds.map (fun e => if e.1 = fd then (fd, h) else e) }

/-- The file system with its faults and the size of the table. -/
structure Setting where
  fs : Fs
  faults : Faults
  room : Option Nat

/-- `tfs_stat` fails. -/
def Setting.statFails (t : Setting) (path : String) : Bool :=
  t.faults.stat path || (t.fs.node path).isNone

/-- The library takes paths of at most `TFS_PATH_MAX` characters. -/
def Setting.Limited (t : Setting) : Prop :=
  ∀ path, tfsPathMax < path.length →
    t.statFails path = true ∧ t.faults.opens path = true

/-- One more descriptor may be opened beside `held`. -/
def Setting.free (t : Setting) (held : Nat) : Bool :=
  t.room.all (fun room => held < room)

/-- What the calls return and do. -/
def library (t : Setting) : Env FindOp FindOp.Res World
  | w, .tfsStat _ path, r, w' =>
      let st : Int × Nat := r
      w' = w ∧ if t.statFails path then st.1 = -1
        else st = (0, t.fs.mode path)
  | w, .tfsOpen _ path _ _, r, w' =>
      let fd : Int := r
      if t.free w.fds.length = false then
        fd = -1 ∧ w' = w.noting (.refused path)
      else if t.faults.opens path then fd = -1 ∧ w' = w
      else match t.fs.node path with
        | none => fd = -1 ∧ w' = w
        | some i =>
            0 ≤ fd ∧ w.handle fd = none ∧
              w' = { w with fds := (fd, ⟨path, i.slots, 0⟩) :: w.fds }
  | w, .tfsRead _ fd _, r, w' =>
      let read : Int × Dirent := r
      match w.handle fd with
      | none => read.1 = -1 ∧ w' = w
      | some h =>
          if t.faults.reads h.path h.pos then read.1 ≠ direntSize ∧ w' = w
          else match nextSlot h.rest with
            | none => read.1 = 0 ∧ w' = w
            | some (d, rest) =>
                read = (direntSize, d) ∧
                  w' = w.setHandle fd ⟨h.path, rest, h.pos + 1⟩
  | w, .tfsClose _ fd, _, w' =>
      w' = { w with fds := w.fds.filter (fun e => e.1 ≠ fd) }
  | w, .tfsGeterr _, _, w' => w' = w
  | w, .tfsErrlist _, _, w' => w' = w
  | w, .entryPath path, _, w' => w' = w.noting (.built path)
  | w, .printf text args, _, w' => w' = w.noting (.printed text args)
  | w, .fprintf text args, _, w' => w' = w.noting (.reported text args.head?)

/-- A read from a directory that is open. -/
theorem library_read {t : Setting} {w w' : World} {pid fd nbytes : Int}
    {h : Handle} (hh : w.handle fd = some h) (read : Int × Dirent) :
    library t w (.tfsRead pid fd nbytes) read w' ↔
      if t.faults.reads h.path h.pos then read.1 ≠ direntSize ∧ w' = w
      else match nextSlot h.rest with
        | none => read.1 = 0 ∧ w' = w
        | some (d, rest) =>
            read = (direntSize, d) ∧
              w' = w.setHandle fd ⟨h.path, rest, h.pos + 1⟩ := by
  rw [library, hh]

/-- Some descriptor is not in use. -/
theorem fresh_descriptor (w : World) : ∃ fd : Int, 0 ≤ fd ∧ w.handle fd = none := by
  obtain ⟨n, hn⟩ :=
    Infinite.exists_notMem_finset (w.fds.map (fun e => e.1.toNat)).toFinset
  refine ⟨n, by omega, ?_⟩
  rw [World.handle, Option.map_eq_none_iff, List.find?_eq_none]
  intro e he heq
  have hfd : e.1 = n := by simpa using heq
  exact hn (List.mem_toFinset.mpr (List.mem_map.mpr ⟨e, he, by omega⟩))

/-- `tfs_open` has an answer. -/
theorem library_answers_open (t : Setting) (w : World) (pid : Int) (path : String)
    (oMode : Int) (cPerm : Nat) :
    ∃ r w', library t w (.tfsOpen pid path oMode cPerm) r w' := by
  by_cases hfree : t.free w.fds.length = false
  · refine ⟨-1, w.noting (.refused path), ?_⟩
    rw [library, if_pos hfree]
    exact ⟨rfl, rfl⟩
  · by_cases hopens : t.faults.opens path = true
    · refine ⟨-1, w, ?_⟩
      rw [library, if_neg hfree, if_pos hopens]
      exact ⟨rfl, rfl⟩
    · obtain ⟨fd, hpos, hfd⟩ := fresh_descriptor w
      cases hnode : t.fs.node path with
      | none =>
          refine ⟨-1, w, ?_⟩
          rw [library, if_neg hfree, if_neg hopens, hnode]
          exact ⟨rfl, rfl⟩
      | some i =>
          refine ⟨fd, { w with fds := (fd, ⟨path, i.slots, 0⟩) :: w.fds }, ?_⟩
          rw [library, if_neg hfree, if_neg hopens, hnode]
          exact ⟨hpos, hfd, rfl⟩

/-- So has `tfs_read`. -/
theorem library_answers_read (t : Setting) (w : World) (pid fd nbytes : Int) :
    ∃ r w', library t w (.tfsRead pid fd nbytes) r w' := by
  cases hh : w.handle fd with
  | none =>
      refine ⟨(-1, ⟨0, ""⟩), w, ?_⟩
      rw [library, hh]
      exact ⟨rfl, rfl⟩
  | some h =>
      by_cases hr : t.faults.reads h.path h.pos = true
      · refine ⟨(-1, ⟨0, ""⟩), w, (library_read hh _).mpr ?_⟩
        rw [if_pos hr]
        exact ⟨by decide, rfl⟩
      · cases hn : nextSlot h.rest with
        | none =>
            refine ⟨(0, ⟨0, ""⟩), w, (library_read hh _).mpr ?_⟩
            rw [if_neg hr, hn]
            exact ⟨rfl, rfl⟩
        | some x =>
            refine ⟨(direntSize, x.1), w.setHandle fd ⟨h.path, x.2, h.pos + 1⟩,
              (library_read hh _).mpr ?_⟩
            rw [if_neg hr, hn]
            exact ⟨rfl, rfl⟩

/-- Every call has an answer. -/
theorem library_total (t : Setting) (w : World) (o : FindOp) :
    ∃ r w', library t w o r w' := by
  cases o with
  | tfsStat pid path =>
      by_cases h : t.statFails path = true
      · exact ⟨(-1, 0), w, rfl, by rw [if_pos h]⟩
      · exact ⟨(0, t.fs.mode path), w, rfl, by rw [if_neg h]⟩
  | tfsOpen pid path oMode cPerm => exact library_answers_open t w pid path oMode cPerm
  | tfsRead pid fd nbytes => exact library_answers_read t w pid fd nbytes
  | tfsGeterr pid => exact ⟨(0 : Int), w, rfl⟩
  | tfsErrlist error => exact ⟨"", w, rfl⟩
  | tfsClose | entryPath | printf | fprintf => exact ⟨(), _, rfl⟩

end FindLibrary
