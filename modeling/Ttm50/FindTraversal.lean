import Ttm50.FindLibrary

/-! # What `find` does to the world

    The notes of a start path are those of the entries that the traversal
    comes to, in pre-order (`does_find_`): the recursion of the program is the
    recursion of `Slots.arrive`.  The descriptor table is afterwards as it
    was, and the fuel lasts when it exceeds the size of the tree. -/

namespace FindTraversal

open InteractivePrograms DirectoryTrees TfshDriver FindDriver FindLibrary

/-! ## The notes -/

/-- A diagnostic. -/
def complaint (text path : String) : Note := .reported text (some (.s path))

/-- The type of the entry is selected. -/
def selects (mask : Nat) (i : Inode) : Bool := typeBits i &&& mask ≠ 0

/-- What `_find` notes at one entry, with `held` descriptors open. -/
def entered (t : Setting) (g : Globals) (held : Nat) (path : String)
    (i : Inode) : List Note :=
  if t.statFails path then [complaint statFailed path]
  else (if g.print && selects g.typeMask i then
      [.printed "%s\n" [.s path]] else []) ++
    (if i.isDir then
      if t.free held = false then [.refused path, complaint openFailed path]
      else if t.faults.opens path then [complaint openFailed path]
      else []
    else [])

/-- The directories that are gone into. -/
def descends (t : Setting) (held : Nat) (path : String)
    (names : List LiveSlot) : Bool :=
  !t.statFails (pathOf path names) && !t.faults.opens (pathOf path names) &&
    t.free (held + names.length)

/-- The slots where a directory is given up. -/
def stops (t : Setting) (path : String) (names : List LiveSlot) (k : Nat) :
    Bool :=
  t.faults.reads (pathOf path names) k

/-- What `find_dir` and `_find` note at an entry of a directory. -/
def noted (t : Setting) (g : Globals) (held : Nat) (path : String)
    (v : Entry) : List Note :=
  .built (pathOf path v.names) ::
    entered t g (held + v.names.length) (pathOf path v.names) v.node

/-- What is noted in a directory, from slot `k` on. -/
def slotNotes (t : Setting) (g : Globals) (held : Nat) (path : String)
    (s : Tree) (k : Nat) : List Note :=
  (s.arrive (descends t held path) (stops t path) k).flatMap
    (noted t g held path)

/-- What is noted at an entry and below it. -/
def nodeNotes (t : Setting) (g : Globals) (held : Nat) (path : String)
    (i : Inode) : List Note :=
  entered t g held path i ++
    (if i.isDir && descends t held path [] then
      slotNotes t g held path i.slots 0 else [])

/-- What is noted for a start path. -/
def startNotes (t : Setting) (g : Globals) (held : Nat) (path : String) :
    List Note :=
  match t.fs.node path with
  | none => [complaint statFailed path]
  | some i => nodeNotes t g held path i

section Notes

variable (t : Setting) (g : Globals) (held : Nat) (path : String)

theorem descends_below (l : LiveSlot) :
    (fun names => descends t held path (l :: names))
      = descends t (held + 1) (path ++ "/" ++ l.name) := by
  funext names
  have h : held + (l :: names).length = held + 1 + names.length := by
    rw [List.length_cons]
    omega
  rw [descends, descends, h]
  rfl

theorem noted_below (l : LiveSlot) (v : Entry) :
    noted t g held path (v.below l)
      = noted t g (held + 1) (path ++ "/" ++ l.name) v := by
  have h : held + (v.below l).names.length = held + 1 + v.names.length := by
    rw [below_names, List.length_cons]
    omega
  rw [noted, noted, h]
  rfl

/-- Nothing is noted after a read that fails. -/
theorem slotNotes_stop (s : Tree) {k : Nat}
    (hk : t.faults.reads path k = true) : slotNotes t g held path s k = [] := by
  have hstop : stops t path [] k = true := hk
  rw [slotNotes, arrive_stopped hstop]
  rfl

variable {k : Nat} (hk : t.faults.reads path k = false)

include hk

theorem slotNotes_dead (d : DeadSlot) (rest : Tree) :
    slotNotes t g held path (.dead d rest) k
      = slotNotes t g held path rest (k + 1) := by
  have hstop : stops t path [] k = false := hk
  rw [slotNotes, arrive_dead hstop]
  rfl

theorem slotNotes_file (l : LiveSlot) (rest : Tree) :
    slotNotes t g held path (.file l rest) k
      = .built (path ++ "/" ++ l.name) ::
        (nodeNotes t g (held + 1) (path ++ "/" ++ l.name) .file ++
          slotNotes t g held path rest (k + 1)) := by
  have hstop : stops t path [] k = false := hk
  rw [slotNotes, arrive_file hstop, nodeNotes, if_neg (by simp [Node.isDir]),
    List.append_nil]
  rfl

theorem slotNotes_dir (l : LiveSlot) (contents rest : Tree) :
    slotNotes t g held path (.dir l contents rest) k
      = .built (path ++ "/" ++ l.name) ::
        (nodeNotes t g (held + 1) (path ++ "/" ++ l.name) (.dir contents) ++
          slotNotes t g held path rest (k + 1)) := by
  have hstop : stops t path [] k = false := hk
  have hgo : descends t held path [l]
      = descends t (held + 1) (path ++ "/" ++ l.name) [] :=
    congrFun (descends_below t held path l) []
  rw [nodeNotes]
  cases hl : descends t held path [l] with
  | true =>
      have hmap : ∀ vs : List Entry,
          (vs.map (Visit.below l)).flatMap (noted t g held path)
            = vs.flatMap (noted t g (held + 1) (path ++ "/" ++ l.name)) := by
        intro vs
        rw [List.flatMap_map]
        congr 1
        funext v
        exact noted_below t g held path l v
      rw [slotNotes, arrive_inside hstop hl, List.flatMap_cons,
        List.flatMap_append, hmap, descends_below, ← hgo,
        if_pos (by simp [Node.isDir, hl]), List.append_assoc]
      rfl
  | false =>
      rw [slotNotes, arrive_outside hstop hl, List.flatMap_cons, ← hgo,
        if_neg (by simp [hl]), List.append_nil]
      rfl

end Notes

/-! ## Masks and modes -/

/-- A mask of inode types. -/
def TypeMask (mask : Nat) : Prop := tfsIType &&& mask = mask

theorem typeMask_reg : TypeMask tfsIReg := by
  unfold TypeMask
  rfl

theorem typeMask_dir : TypeMask tfsIDir := by
  unfold TypeMask
  rfl

theorem typeMask_both : TypeMask (tfsIDir ||| tfsIReg) := by
  unfold TypeMask
  rfl

theorem options_typeMask {args : List String} {o o' : Nat × Bool}
    (ho : TypeMask o.1) (h : options args o = some o') : TypeMask o'.1 := by
  induction args generalizing o with
  | nil =>
      obtain rfl : o = o' := Option.some.inj h
      exact ho
  | cons arg rest ih =>
      obtain ⟨mask, print⟩ := o
      rw [options.eq_def] at h
      dsimp only at h
      split at h
      · cases rest with
        | nil => exact nomatch h
        | cons kind rest =>
            dsimp only at h
            split at h
            · exact @ih (tfsIReg, print) typeMask_reg h
            · split at h
              · exact @ih (tfsIDir, print) typeMask_dir h
              · exact nomatch h
      · split at h
        · exact @ih (mask, true) ho h
        · exact @ih (mask, print) ho h

/-- The mode has a bit of the mask when the type has. -/
theorem mode_and (fs : Fs) {path : String} {i : Inode} {mask : Nat}
    (hnode : fs.node path = some i) (hmask : TypeMask mask) :
    fs.mode path &&& mask = typeBits i &&& mask := by
  calc fs.mode path &&& mask
      = fs.mode path &&& (tfsIType &&& mask) := by rw [hmask]
    _ = fs.mode path &&& tfsIType &&& mask := (Nat.and_assoc _ _ _).symm
    _ = typeBits i &&& mask := by rw [fs.typed path i hnode]

theorem mode_isDir (fs : Fs) {path : String} {i : Inode}
    (hnode : fs.node path = some i) :
    fs.mode path &&& tfsIDir ≠ 0 ↔ i.isDir = true := by
  rw [mode_and fs hnode typeMask_dir]
  cases i with
  | file => simp [typeBits, Node.isDir, tfsIReg, tfsIDir]
  | dir contents => simp [typeBits, Node.isDir, tfsIDir]

/-! ## Pieces of the program -/

/-- The world with more notes. -/
def World.after (w : World) (notes : List Note) : World :=
  { w with notes := w.notes ++ notes }

@[simp] theorem after_nil (w : World) : World.after w [] = w := by
  simp [World.after]

@[simp] theorem after_after (w : World) (notes notes' : List Note) :
    World.after (World.after w notes) notes' = World.after w (notes ++ notes') := by
  simp [World.after]

/-- The piece returns, adds the notes and leaves the descriptors. -/
abbrev Does (t : Setting) (p : Find Unit) (w : World) (notes : List Note) :
    Prop :=
  wp (library t) (fun _ _ => True) (fun _ w' => w' = World.after w notes)
    (fun _ _ => False) p w

section Pieces

variable {t : Setting} {g : Globals} {w : World}

theorem does_pure : Does t (pure ()) w [] := (after_nil w).symm

theorem does_bind {p : Find Unit} {f : Unit → Find Unit}
    {notes notes' : List Note} (hp : Does t p w notes)
    (hf : Does t (f ()) (World.after w notes) notes') :
    Does t (p >>= f) w (notes ++ notes') := by
  refine wp_seq hp ?_
  rintro _ _ rfl
  refine wp_mono ?_ hf
  rintro _ _ rfl
  exact after_after w notes notes'

theorem does_complain (text path : String) :
    Does t (complain g text path) w [complaint text path] := by
  refine ⟨trivial, ?_⟩
  rintro error _ rfl
  refine ⟨trivial, ?_⟩
  rintro message _ rfl
  refine ⟨trivial, ?_⟩
  rintro _ _ rfl
  rfl

theorem does_printf (text : String) (args : List Arg) :
    Does t (printf text args) w [.printed text args] := by
  refine ⟨trivial, ?_⟩
  rintro _ _ rfl
  rfl

theorem does_entryPath (path : String) :
    Does t (entryPath path) w [.built path] := by
  refine ⟨trivial, ?_⟩
  rintro _ _ rfl
  rfl

/-- The `printf` of `_find`. -/
theorem does_print (path : String) {i : Inode}
    (hnode : t.fs.node path = some i) (hmask : TypeMask g.typeMask) :
    Does t (if t.fs.mode path &&& g.typeMask ≠ 0 then
        if g.print then printf "%s\n" [.s path] else pure ()
      else pure ()) w
      (if g.print && selects g.typeMask i then [.printed "%s\n" [.s path]]
        else []) := by
  rw [mode_and t.fs hnode hmask]
  by_cases hs : typeBits i &&& g.typeMask ≠ 0
  · rw [if_pos hs]
    by_cases hp : g.print = true
    · rw [if_pos hp, if_pos (by simp [hp, selects, hs])]
      exact does_printf _ _
    · rw [if_neg hp, if_neg (by simp [hp])]
      exact does_pure
  · rw [if_neg hs, if_neg (by simp [selects, hs])]
    exact does_pure

end Pieces

/-! ## The recursion -/

/-- The number of slots in and below a start path. -/
def nodeSize (i : Inode) : Nat :=
  match i with
  | .file => 0
  | .dir contents => contents.size + 1

/-- `find_dir` reads the slots `s` of an open directory and notes what they
    hold, with the fuel of the loop and that of `_find` above their size. -/
def ReadsWell (t : Setting) (g : Globals) (s : Tree) : Prop :=
  ∀ (path : String) (k : Nat) (w : World) (fd : Int)
    (base : List (Int × Handle)) (n fuel : Nat),
    w.fds = (fd, ⟨path, s, k⟩) :: base → (∀ e ∈ base, e.1 ≠ fd) →
    (∀ c ∈ s.children, t.fs.node (path ++ "/" ++ c.1.name) = some c.2) →
    s.size < n → s.size < fuel →
    wp (library t) (fun _ _ => True)
      (fun _ w' => (∃ h, w'.fds = (fd, h) :: base) ∧
        w'.notes = w.notes ++ slotNotes t g base.length path s k)
      (fun _ _ => False) (readLoop (find_ g fuel) g fd path n) w

section Recursion

variable {t : Setting} {g : Globals}

/-- `find_dir`, at a directory that has been reached. -/
theorem does_findDir {s : Tree} (hs : ReadsWell t g s) {path : String}
    (hnode : t.fs.node path = some (.dir s)) (hstat : t.statFails path = false)
    {fuel : Nat} (hfuel : s.size < fuel) (w : World) :
    Does t (findDir (find_ g fuel) g fuel path) w
      ((if t.free w.fds.length = false then
          [.refused path, complaint openFailed path]
        else if t.faults.opens path then [complaint openFailed path]
        else []) ++
      (if descends t w.fds.length path [] then
        slotNotes t g w.fds.length path s 0 else [])) := by
  have hgo : descends t w.fds.length path []
      = (!t.faults.opens path && t.free w.fds.length) := by
    simp [descends, pathOf, hstat]
  rw [hgo]
  refine ⟨trivial, ?_⟩
  intro r w' hr
  change Int at r
  by_cases hfree : t.free w.fds.length = false
  · obtain ⟨rfl, rfl⟩ : r = -1 ∧ w' = w.noting (.refused path) := by
      simpa [library, hfree] using hr
    rw [if_pos hfree, if_neg (by simp [hfree]), List.append_nil]
    show wp _ _ _ _ (complain g openFailed path) _
    refine wp_mono ?_ (does_complain openFailed path)
    rintro _ _ rfl
    exact after_after w [.refused path] [complaint openFailed path]
  · by_cases hopens : t.faults.opens path = true
    · obtain ⟨rfl, rfl⟩ : r = -1 ∧ w' = w := by
        simpa [library, hfree, hopens] using hr
      rw [if_neg hfree, if_pos hopens, if_neg (by simp [hopens]),
        List.append_nil]
      exact does_complain openFailed path
    · obtain ⟨hpos, hfresh, rfl⟩ : 0 ≤ r ∧ w.handle r = none ∧
          w' = { w with fds := (r, ⟨path, s, 0⟩) :: w.fds } := by
        simpa [library, hfree, hopens, hnode, Node.slots] using hr
      rw [if_neg hfree, if_neg hopens, if_pos (by simp [hopens, hfree])]
      have hkeys : ∀ e ∈ w.fds, e.1 ≠ r := by
        simpa [World.handle, List.find?_eq_none] using hfresh
      have hloop := hs path 0 { w with fds := (r, ⟨path, s, 0⟩) :: w.fds } r
        w.fds fuel fuel rfl hkeys
        (t.fs.closed path _ hnode) hfuel hfuel
      show wp _ _ _ _ (if r = -1 then _ else _) _
      rw [if_neg (by omega)]
      refine wp_seq hloop ?_
      rintro _ m ⟨⟨h, hfds⟩, hnotes⟩
      refine ⟨trivial, ?_⟩
      rintro _ _ rfl
      -- the descriptor closed is the one opened, at the head of the table
      have hclose : ((r, h) :: w.fds).filter (fun e => e.1 ≠ r) = w.fds := by
        rw [List.filter_cons_of_neg (by simp), List.filter_eq_self]
        intro e he
        simpa using hkeys e he
      show World.mk _ _ = _
      rw [hfds, hclose, hnotes]
      rfl

/-- `_find`, at an entry whose slots are read well. -/
theorem does_find_node {i : Inode} (hs : ReadsWell t g i.slots)
    (hmask : TypeMask g.typeMask) {path : String}
    (hnode : t.fs.node path = some i) {fuel : Nat} (hfuel : nodeSize i < fuel)
    (w : World) :
    Does t (find_ g fuel path) w (nodeNotes t g w.fds.length path i) := by
  obtain ⟨fuel, rfl⟩ : ∃ f, fuel = f + 1 := ⟨fuel - 1, by omega⟩
  refine ⟨trivial, ?_⟩
  rintro ⟨rv, mode⟩ w' hr
  by_cases hstat : t.statFails path = true
  · obtain ⟨rfl, rfl⟩ : w' = w ∧ rv = -1 := by
      simpa [library, hstat] using hr
    have hnotes : nodeNotes t g w'.fds.length path i
        = [complaint statFailed path] := by
      simp [nodeNotes, entered, descends, pathOf, hstat]
    rw [hnotes]
    exact does_complain statFailed path
  · obtain ⟨rfl, rfl, rfl⟩ : w' = w ∧ rv = 0 ∧ mode = t.fs.mode path := by
      simpa [library, hstat] using hr
    rw [nodeNotes, entered, if_neg hstat, List.append_assoc]
    show wp _ _ _ _ (_ >>= fun _ => _) _
    refine does_bind (does_print path hnode hmask) ?_
    cases i with
    | file =>
        rw [if_neg (by rw [mode_isDir t.fs hnode]; simp [Node.isDir])]
        exact does_pure
    | dir contents =>
        rw [if_pos ((mode_isDir t.fs hnode).mpr rfl)]
        have hsize : contents.size < fuel := by
          rw [nodeSize] at hfuel
          omega
        exact does_findDir hs hnode (Bool.eq_false_iff.mpr hstat) hsize _

/-! The rules of the loop: `fd` is at the head of the table. -/

section Loop

variable {path : String} {s rest : Tree} {k n fuel : Nat} {w : World}
  {fd : Int} {base : List (Int × Handle)} {Q : Unit → World → Prop}
  {visit : String → Find Unit}

theorem handle_head (hfds : w.fds = (fd, ⟨path, s, k⟩) :: base) :
    w.handle fd = some ⟨path, s, k⟩ := by
  simp [World.handle, hfds]

/-- The loop ends where a read fails or no slot is left. -/
theorem wp_readLoop_end (hfds : w.fds = (fd, ⟨path, s, k⟩) :: base)
    (hend : t.faults.reads path k = true ∨ nextSlot s = none) (hQ : Q () w) :
    wp (library t) (fun _ _ => True) Q (fun _ _ => False)
      (readLoop visit g fd path (n + 1)) w := by
  refine ⟨trivial, ?_⟩
  rintro ⟨count, d⟩ w' hr
  have hread := (library_read (handle_head hfds) (count, d)).mp hr
  obtain ⟨hcount, rfl⟩ : count ≠ direntSize ∧ w' = w := by
    by_cases hk : t.faults.reads path k = true
    · rw [if_pos hk] at hread
      exact hread
    · rw [if_neg hk, hend.resolve_left hk] at hread
      obtain ⟨h0, hw⟩ := hread
      change count = 0 at h0
      exact ⟨by rw [h0]; decide, hw⟩
  show wp _ _ _ _ (if count = direntSize then _ else _) _
  rw [if_neg hcount]
  exact hQ

/-- Otherwise the next slot is in the buffer. -/
theorem wp_readLoop_slot (hfds : w.fds = (fd, ⟨path, s, k⟩) :: base)
    (hbase : ∀ e ∈ base, e.1 ≠ fd) (hk : t.faults.reads path k = false)
    {d : Dirent} (hnext : nextSlot s = some (d, rest))
    (h : wp (library t) (fun _ _ => True) Q (fun _ _ => False)
      ((if isEntry d then do
          entryPath (path ++ "/" ++ d.name)
          visit (path ++ "/" ++ d.name)
        else pure ()) >>= fun _ => readLoop visit g fd path n)
      { w with fds := (fd, ⟨path, rest, k + 1⟩) :: base }) :
    wp (library t) (fun _ _ => True) Q (fun _ _ => False)
      (readLoop visit g fd path (n + 1)) w := by
  refine ⟨trivial, ?_⟩
  rintro ⟨count, e⟩ w' hr
  have hread := (library_read (handle_head hfds) (count, e)).mp hr
  rw [if_neg (by simp [hk]), hnext] at hread
  obtain ⟨heq, rfl⟩ := hread
  obtain ⟨rfl, rfl⟩ := Prod.mk.inj heq
  have hset : w.setHandle fd ⟨path, rest, k + 1⟩
      = { w with fds := (fd, ⟨path, rest, k + 1⟩) :: base } := by
    rw [World.setHandle, hfds, List.map_cons, if_pos rfl]
    congr 2
    have hmap : ∀ e ∈ base,
        (if e.1 = fd then (fd, Handle.mk path rest (k + 1)) else e) = e :=
      fun e he => if_neg (hbase e he)
    rw [List.map_congr_left hmap, List.map_id']
  rw [hset]
  exact h

end Loop

/-- A dead slot is passed over. -/
theorem readsWell_dead {d : DeadSlot} {rest : Tree} (ih : ReadsWell t g rest) :
    ReadsWell t g (.dead d rest) := by
  intro path k w fd base n fuel hfds hbase hnode hn hfuel
  obtain ⟨n, rfl⟩ : ∃ m, n = m + 1 := ⟨n - 1, by omega⟩
  rw [Slots.size] at hn hfuel
  by_cases hk : t.faults.reads path k = true
  · refine wp_readLoop_end hfds (.inl hk) ⟨⟨_, hfds⟩, ?_⟩
    rw [slotNotes_stop _ _ _ _ _ hk, List.append_nil]
  · have hk' : t.faults.reads path k = false := Bool.eq_false_iff.mpr hk
    refine wp_readLoop_slot hfds hbase hk' rfl ?_
    rw [if_neg (by simp [d.property]), slotNotes_dead _ _ _ _ hk']
    exact ih path (k + 1) { w with fds := (fd, ⟨path, rest, k + 1⟩) :: base } fd
      base n fuel rfl hbase hnode (by omega) (by omega)

/-- An entry is built, visited, and the loop goes on. -/
theorem readsWell_live (hmask : TypeMask g.typeMask) {s rest : Tree}
    {l : LiveSlot} {i : Inode} (hnext : nextSlot s = some (l.dirent, rest))
    (hchildren : s.children = (l, i) :: rest.children)
    (hsize : s.size = i.slots.size + rest.size + 1)
    (hnotes : ∀ held path k, t.faults.reads path k = false →
      slotNotes t g held path s k = .built (path ++ "/" ++ l.name) ::
        (nodeNotes t g (held + 1) (path ++ "/" ++ l.name) i ++
          slotNotes t g held path rest (k + 1)))
    (ihi : ReadsWell t g i.slots) (ihr : ReadsWell t g rest) :
    ReadsWell t g s := by
  intro path k w fd base n fuel hfds hbase hnode hn hfuel
  obtain ⟨n, rfl⟩ : ∃ m, n = m + 1 := ⟨n - 1, by omega⟩
  by_cases hk : t.faults.reads path k = true
  · refine wp_readLoop_end hfds (.inl hk) ⟨⟨_, hfds⟩, ?_⟩
    rw [slotNotes_stop _ _ _ _ _ hk, List.append_nil]
  · have hk' : t.faults.reads path k = false := Bool.eq_false_iff.mpr hk
    rw [hchildren] at hnode
    obtain ⟨hchild, hrest⟩ := List.forall_mem_cons.mp hnode
    have hfuel' : nodeSize i < fuel := by
      cases i with
      | file => simp [nodeSize]; omega
      | dir contents =>
          rw [nodeSize]
          change s.size = contents.size + rest.size + 1 at hsize
          omega
    refine wp_readLoop_slot hfds hbase hk' hnext ?_
    rw [if_pos l.live, hnotes _ _ _ hk']
    -- first the entry, with one more descriptor open, then the other slots
    refine wp_seq (does_bind (does_entryPath _)
      (does_find_node ihi hmask hchild hfuel' _)) ?_
    rintro _ _ rfl
    refine wp_mono ?_ (ihr path (k + 1) _ fd base n fuel rfl hbase hrest
      (by omega) (by omega))
    rintro _ m ⟨hm, hnotes'⟩
    refine ⟨hm, ?_⟩
    rw [hnotes']
    simp [World.after, LiveSlot.name]

/-- **THE READ LOOP**, by induction on the slots: the loop invariant is the
    handle at the head of the descriptor table. -/
theorem readsWell (hmask : TypeMask g.typeMask) (s : Tree) :
    ReadsWell t g s := by
  have hnil : ReadsWell t g .nil := by
    intro path k w fd base n fuel hfds hbase hnode hn hfuel
    obtain ⟨n, rfl⟩ : ∃ m, n = m + 1 := ⟨n - 1, by omega⟩
    refine wp_readLoop_end hfds (.inr rfl) ⟨⟨_, hfds⟩, ?_⟩
    rw [slotNotes, Slots.arrive, List.flatMap_nil, List.append_nil]
  induction s with
  | nil => exact hnil
  | dead d rest ih => exact readsWell_dead ih
  | file l rest ih =>
      refine readsWell_live hmask rfl rfl ?_ ?_ hnil ih
      · simp [Slots.size, Node.slots]
      · intro held path k hk
        exact slotNotes_file t g held path hk l rest
  | dir l contents rest ihc ihr =>
      refine readsWell_live hmask rfl rfl rfl ?_ ihc ihr
      intro held path k hk
      exact slotNotes_dir t g held path hk l contents rest

/-- Enough fuel for a start path. -/
def fuelFor (fs : Fs) (path : String) : Nat :=
  ((fs.node path).map nodeSize).getD 0

/-- **ONE START PATH**. -/
theorem does_find_ (hmask : TypeMask g.typeMask) {path : String} {fuel : Nat}
    (hfuel : fuelFor t.fs path < fuel) (w : World) :
    Does t (find_ g fuel path) w (startNotes t g w.fds.length path) := by
  unfold startNotes
  cases hnode : t.fs.node path with
  | none =>
      obtain ⟨fuel, rfl⟩ : ∃ f, fuel = f + 1 := ⟨fuel - 1, by omega⟩
      refine ⟨trivial, ?_⟩
      rintro ⟨rv, mode⟩ w' hr
      obtain ⟨rfl, rfl⟩ : w' = w ∧ rv = -1 := by
        simpa [library, Setting.statFails, hnode] using hr
      exact does_complain statFailed path
  | some i =>
      rw [fuelFor, hnode] at hfuel
      exact does_find_node (readsWell hmask i.slots) hmask hnode hfuel w

theorem does_forEach (hmask : TypeMask g.typeMask) {paths : List String}
    {fuel : Nat} (hfuel : ∀ path ∈ paths, fuelFor t.fs path < fuel)
    (w : World) :
    Does t (forEach (find_ g fuel) paths) w
      (paths.flatMap (startNotes t g w.fds.length)) := by
  induction paths generalizing w with
  | nil => exact does_pure
  | cons path paths ih =>
      obtain ⟨hpath, hpaths⟩ := List.forall_mem_cons.mp hfuel
      exact does_bind (does_find_ hmask hpath w) (ih hpaths _)

end Recursion

/-- The notes of the whole command: those of the start paths in their order, or
    the usage. -/
def findNotes (t : Setting) (pid : Int) (command : Command)
    (argv : List String) (held : Nat) : List Note :=
  match options (argv.drop 2) (tfsIDir ||| tfsIReg, false) with
  | none => usage (fun text args => [.printed text args]) command
  | some (mask, print) =>
      (startPaths argv).flatMap (startNotes t ⟨pid, mask, print⟩ held)

/-- **THE WHOLE COMMAND**: it returns with these notes and the old
    descriptors. -/
theorem does_find {t : Setting} {pid : Int} {fuel : Nat} {command : Command}
    {argv : List String}
    (hfuel : ∀ path ∈ startPaths argv, fuelFor t.fs path < fuel) (w : World) :
    Does t (find pid fuel command argv) w
      (findNotes t pid command argv w.fds.length) := by
  rw [find, findNotes]
  cases hoptions : options (argv.drop 2) (tfsIDir ||| tfsIReg, false) with
  | none =>
      show Does t (usage printf command) w _
      cases hcommand : command.usage <;>
        · simp only [usage, hcommand]
          exact does_printf _ _
  | some o =>
      exact does_forEach (options_typeMask typeMask_both hoptions) hfuel w

end FindTraversal
