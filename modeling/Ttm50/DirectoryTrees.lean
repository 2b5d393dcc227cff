import Mathlib

/-! # Directory trees — listings in pre-order

    A directory is a sequence of SLOTS: dead ones, files and directories.
    `visits` lists its entries in pre-order, each with the names that lead to
    it.  A traversal may be kept from going below a directory (`go`) and may
    lose the rest of a directory from some slot on (`stop`):

    * `arrive go stop` lists the entries that it comes to; without losses it
      is a filter of `visits` (`arrive_eq_filter`);
    * `lost go stop` lists the entries that the losses hide; every entry is
      arrived at, lost, or below a directory that is not gone into
      (`visits_cases`), and never two of these (`lost_unreached`). -/

namespace DirectoryTrees

/-- The slots of a directory, in their order. -/
inductive Slots (D L : Type) where
  | nil
  | dead (d : D) (rest : Slots D L)
  | file (l : L) (rest : Slots D L)
  | dir (l : L) (contents rest : Slots D L)
  deriving Repr

/-- A file, or a directory with its slots. -/
inductive Node (D L : Type) where
  | file
  | dir (contents : Slots D L)
  deriving Repr

/-- An entry, and the names that lead to it. -/
structure Visit (D L : Type) where
  names : List L
  node : Node D L
  deriving Repr

variable {D L K : Type}

def Node.isDir : Node D L → Bool
  | .file => false
  | .dir _ => true

/-- The slots of a directory; a file has none. -/
def Node.slots : Node D L → Slots D L
  | .file => .nil
  | .dir contents => contents

/-- The entry as seen from above. -/
def Visit.below (l : L) (v : Visit D L) : Visit D L := ⟨l :: v.names, v.node⟩

@[simp] theorem below_names (l : L) (v : Visit D L) :
    (v.below l).names = l :: v.names := rfl

/-- The entries below a directory, in pre-order. -/
def Slots.visits : Slots D L → List (Visit D L)
  | .nil => []
  | .dead _ rest => rest.visits
  | .file l rest => ⟨[l], .file⟩ :: rest.visits
  | .dir l contents rest =>
      ⟨[l], .dir contents⟩ ::
        (contents.visits.map (Visit.below l) ++ rest.visits)

/-- An entry with all entries below it. -/
def Node.visits (node : Node D L) : List (Visit D L) :=
  ⟨[], node⟩ :: node.slots.visits

/-- The number of slots, at all levels. -/
def Slots.size : Slots D L → Nat
  | .nil => 0
  | .dead _ rest => rest.size + 1
  | .file _ rest => rest.size + 1
  | .dir _ contents rest => contents.size + rest.size + 1

/-- The entries of one directory. -/
def Slots.children : Slots D L → List (L × Node D L)
  | .nil => []
  | .dead _ rest => rest.children
  | .file l rest => (l, .file) :: rest.children
  | .dir l contents rest => (l, .dir contents) :: rest.children

/-- No key occurs twice in a directory. -/
def Slots.Distinct (key : L → K) : Slots D L → Prop
  | .nil => True
  | .dead _ rest => rest.Distinct key
  | .file l rest =>
      (∀ c ∈ rest.children, key c.1 ≠ key l) ∧ rest.Distinct key
  | .dir l contents rest =>
      (∀ c ∈ rest.children, key c.1 ≠ key l) ∧ contents.Distinct key ∧
        rest.Distinct key

/-! ## Names -/

/-- The proper beginnings of a list of names: the directories above. -/
def above : List L → List (List L)
  | [] => []
  | l :: w => [] :: (above w).map (l :: ·)

theorem above_all_cons (go : List L → Bool) (l : L) (w : List L) :
    (above (l :: w)).all go
      = (go [] && (above w).all (fun u => go (l :: u))) := by
  simp [above, List.all_map, Function.comp_def]

/-- An entry below a directory begins with the name of a slot. -/
theorem visits_head {s : Slots D L} {v : Visit D L} (h : v ∈ s.visits) :
    ∃ c ∈ s.children, ∃ w, v.names = c.1 :: w := by
  induction s with
  | nil => exact nomatch h
  | dead d rest ih => exact ih h
  | file l rest ih =>
      obtain rfl | h := List.mem_cons.mp h
      · exact ⟨_, List.mem_cons_self, [], rfl⟩
      · obtain ⟨c, hc, hw⟩ := ih h
        exact ⟨c, List.mem_cons_of_mem _ hc, hw⟩
  | dir l contents rest _ ih =>
      obtain rfl | h := List.mem_cons.mp h
      · exact ⟨_, List.mem_cons_self, [], rfl⟩
      · obtain h | h := List.mem_append.mp h
        · obtain ⟨u, -, rfl⟩ := List.mem_map.mp h
          exact ⟨_, List.mem_cons_self, u.names, rfl⟩
        · obtain ⟨c, hc, hw⟩ := ih h
          exact ⟨c, List.mem_cons_of_mem _ hc, hw⟩

/-- The keys that lead to an entry. -/
def Visit.keys (key : L → K) (v : Visit D L) : List K := v.names.map key

/-- Where keys are distinct, an entry of the other slots differs in its first
    key. -/
theorem keys_head_ne {key : L → K} {s : Slots D L} {l : L}
    (hne : ∀ c ∈ s.children, key c.1 ≠ key l) {v : Visit D L}
    (h : v ∈ s.visits) : ∃ k w, v.keys key = k :: w ∧ k ≠ key l := by
  obtain ⟨c, hc, w, hw⟩ := visits_head h
  exact ⟨key c.1, w.map key, by rw [Visit.keys, hw]; rfl, hne c hc⟩

/-- Nor is either list of keys a beginning of the other. -/
theorem keys_clash {key : L → K} {s : Slots D L} {l : L}
    (hne : ∀ c ∈ s.children, key c.1 ≠ key l) {v : Visit D L}
    (h : v ∈ s.visits) {w : List K} :
    ¬ (key l :: w <+: v.keys key ∨ v.keys key <+: key l :: w) := by
  obtain ⟨k, r, hk, hkl⟩ := keys_head_ne hne h
  rw [hk]
  rintro (hpre | hpre)
  · exact hkl (List.cons_prefix_cons.mp hpre).1.symm
  · exact hkl (List.cons_prefix_cons.mp hpre).1

/-- **EACH ENTRY ONCE**. -/
theorem visits_nodup {key : L → K} {s : Slots D L} (hs : s.Distinct key) :
    (s.visits.map (Visit.keys key)).Nodup := by
  have hcons : ∀ (l : L) (t : Slots D L), (∀ c ∈ t.children, key c.1 ≠ key l) →
      ∀ w, key l :: w ∉ t.visits.map (Visit.keys key) := by
    intro l t hne w hmem
    obtain ⟨v, hv, heq⟩ := List.mem_map.mp hmem
    obtain ⟨k, w', hk, hkl⟩ := keys_head_ne hne hv
    exact hkl (List.cons.inj (hk.symm.trans heq)).1
  induction s with
  | nil => exact .nil
  | dead d rest ih => exact ih hs
  | file l rest ih =>
      obtain ⟨hne, hrest⟩ := hs
      exact List.nodup_cons.mpr ⟨hcons l rest hne [], ih hrest⟩
  | dir l contents rest ihc ihr =>
      obtain ⟨hne, hcontents, hrest⟩ := hs
      have hmap : (contents.visits.map (Visit.below l)).map (Visit.keys key)
          = (contents.visits.map (Visit.keys key)).map (key l :: ·) := by
        rw [List.map_map, List.map_map]
        rfl
      rw [Slots.visits, List.map_cons, List.map_append, hmap, List.nodup_cons]
      refine ⟨?_, List.nodup_append'.mpr ⟨?_, ihr hrest, ?_⟩⟩
      · intro hmem
        obtain hmem | hmem := List.mem_append.mp hmem
        · obtain ⟨w, hw, heq⟩ := List.mem_map.mp hmem
          obtain rfl : w = [] := (List.cons.inj heq).2
          obtain ⟨v, hv, hnil⟩ := List.mem_map.mp hw
          obtain ⟨c, -, u, hu⟩ := visits_head hv
          rw [Visit.keys, hu] at hnil
          exact nomatch hnil
        · exact hcons l rest hne [] hmem
      · exact (ihc hcontents).map (fun _ _ h => (List.cons.inj h).2)
      · intro w hw hw'
        obtain ⟨u, -, rfl⟩ := List.mem_map.mp hw
        exact hcons l rest hne u hw'

/-! ## The entries that a traversal comes to -/

/-- The entries come to when only the directories in `go` are gone into, and
    the slots of a directory `w` from the first `k` with `stop w k` on are
    lost. -/
def Slots.arrive (go : List L → Bool) (stop : List L → Nat → Bool) :
    Slots D L → Nat → List (Visit D L)
  | .nil, _ => []
  | .dead _ rest, k => if stop [] k then [] else rest.arrive go stop (k + 1)
  | .file l rest, k =>
      if stop [] k then []
      else ⟨[l], .file⟩ :: rest.arrive go stop (k + 1)
  | .dir l contents rest, k =>
      if stop [] k then []
      else ⟨[l], .dir contents⟩ ::
        ((if go [l] then
            (contents.arrive (fun w => go (l :: w)) (fun w => stop (l :: w))
              0).map (Visit.below l)
          else []) ++ rest.arrive go stop (k + 1))

/-- The entries that are lost with the slots. -/
def Slots.lost (go : List L → Bool) (stop : List L → Nat → Bool) :
    Slots D L → Nat → List (Visit D L)
  | .nil, _ => []
  | .dead _ rest, k =>
      if stop [] k then rest.visits else rest.lost go stop (k + 1)
  | .file l rest, k =>
      if stop [] k then ⟨[l], .file⟩ :: rest.visits
      else rest.lost go stop (k + 1)
  | .dir l contents rest, k =>
      if stop [] k then
        ⟨[l], .dir contents⟩ ::
          (contents.visits.map (Visit.below l) ++ rest.visits)
      else
        (if go [l] then
          (contents.lost (fun w => go (l :: w)) (fun w => stop (l :: w))
            0).map (Visit.below l)
        else []) ++ rest.lost go stop (k + 1)

/-- The entries come to from a start. -/
def Node.arrive (go : List L → Bool) (stop : List L → Nat → Bool)
    (node : Node D L) : List (Visit D L) :=
  ⟨[], node⟩ :: (if node.isDir && go [] then node.slots.arrive go stop 0 else [])

def Node.lost (go : List L → Bool) (stop : List L → Nat → Bool)
    (node : Node D L) : List (Visit D L) :=
  if node.isDir && go [] then node.slots.lost go stop 0 else []

/-! One slot of a traversal: the rest is lost (`stopped`), the slot is a dead
    one or a file, or a directory that is gone into (`inside`) or not
    (`outside`). -/

section Slot

variable {go : List L → Bool} {stop : List L → Nat → Bool} {s contents rest : Slots D L}
  {k : Nat} {d : D} {l : L}

theorem arrive_stopped (hk : stop [] k = true) : s.arrive go stop k = [] := by
  cases s <;> simp [Slots.arrive, hk]

theorem lost_stopped (hk : stop [] k = true) :
    s.lost go stop k = s.visits := by
  cases s <;> simp [Slots.lost, Slots.visits, hk]

theorem arrive_dead (hk : stop [] k = false) :
    (Slots.dead d rest).arrive go stop k = rest.arrive go stop (k + 1) := by
  simp [Slots.arrive, hk]

theorem lost_dead (hk : stop [] k = false) :
    (Slots.dead d rest).lost go stop k = rest.lost go stop (k + 1) := by
  simp [Slots.lost, hk]

theorem arrive_file (hk : stop [] k = false) :
    (Slots.file l rest).arrive go stop k
      = ⟨[l], .file⟩ :: rest.arrive go stop (k + 1) := by
  simp [Slots.arrive, hk]

theorem lost_file (hk : stop [] k = false) :
    (Slots.file l rest).lost go stop k = rest.lost go stop (k + 1) := by
  simp [Slots.lost, hk]

theorem arrive_inside (hk : stop [] k = false) (hl : go [l] = true) :
    (Slots.dir l contents rest).arrive go stop k
      = ⟨[l], .dir contents⟩ ::
        ((contents.arrive (fun w => go (l :: w)) (fun w => stop (l :: w))
          0).map (Visit.below l) ++ rest.arrive go stop (k + 1)) := by
  simp [Slots.arrive, hk, hl]

theorem lost_inside (hk : stop [] k = false) (hl : go [l] = true) :
    (Slots.dir l contents rest).lost go stop k
      = (contents.lost (fun w => go (l :: w)) (fun w => stop (l :: w))
          0).map (Visit.below l) ++ rest.lost go stop (k + 1) := by
  simp [Slots.lost, hk, hl]

theorem arrive_outside (hk : stop [] k = false) (hl : go [l] = false) :
    (Slots.dir l contents rest).arrive go stop k
      = ⟨[l], .dir contents⟩ :: rest.arrive go stop (k + 1) := by
  simp [Slots.arrive, hk, hl]

theorem lost_outside (hk : stop [] k = false) (hl : go [l] = false) :
    (Slots.dir l contents rest).lost go stop k
      = rest.lost go stop (k + 1) := by
  simp [Slots.lost, hk, hl]

end Slot

/-- **INDUCTION** along a traversal, slot by slot; below a directory `go` and
    `stop` are what they say of the names that begin with its own. -/
@[elab_as_elim]
theorem traversal_induction
    {motive : (List L → Bool) → (List L → Nat → Bool) → Slots D L → Nat → Prop}
    (stopped : ∀ go stop s k, stop [] k = true → motive go stop s k)
    (nil : ∀ go stop k, motive go stop .nil k)
    (dead : ∀ go stop d rest k, stop [] k = false →
      motive go stop rest (k + 1) → motive go stop (.dead d rest) k)
    (file : ∀ go stop l rest k, stop [] k = false →
      motive go stop rest (k + 1) → motive go stop (.file l rest) k)
    (inside : ∀ go stop l contents rest k, stop [] k = false →
      go [l] = true →
      motive (fun w => go (l :: w)) (fun w => stop (l :: w)) contents 0 →
      motive go stop rest (k + 1) → motive go stop (.dir l contents rest) k)
    (outside : ∀ go stop l contents rest k, stop [] k = false →
      go [l] = false →
      motive go stop rest (k + 1) → motive go stop (.dir l contents rest) k)
    (go : List L → Bool) (stop : List L → Nat → Bool) (s : Slots D L)
    (k : Nat) : motive go stop s k := by
  induction s generalizing go stop k with
  | nil => exact nil go stop k
  | dead d rest ih =>
      cases hk : stop [] k with
      | true => exact stopped go stop _ k hk
      | false => exact dead go stop d rest k hk (ih go stop (k + 1))
  | file l rest ih =>
      cases hk : stop [] k with
      | true => exact stopped go stop _ k hk
      | false => exact file go stop l rest k hk (ih go stop (k + 1))
  | dir l contents rest ihc ihr =>
      cases hk : stop [] k with
      | true => exact stopped go stop _ k hk
      | false =>
          cases hl : go [l] with
          | true =>
              exact inside go stop l contents rest k hk hl (ihc _ _ 0)
                (ihr go stop (k + 1))
          | false =>
              exact outside go stop l contents rest k hk hl
                (ihr go stop (k + 1))

/-- **WITHOUT LOSSES** the entries come to are those with nothing but
    directories in `go` above. -/
theorem arrive_eq_filter {go : List L → Bool} {stop : List L → Nat → Bool}
    (hstop : ∀ w k, stop w k = false) (hgo : go [] = true) (s : Slots D L)
    (k : Nat) :
    s.arrive go stop k = s.visits.filter (fun v => (above v.names).all go) := by
  induction go, stop, s, k using traversal_induction with
  | stopped go stop s k hk => exact absurd hk (by simp [hstop])
  | nil => rfl
  | dead go stop d rest k hk ih =>
      rw [arrive_dead hk]
      exact ih hstop hgo
  | file go stop l rest k hk ih =>
      rw [arrive_file hk, ih hstop hgo, Slots.visits,
        List.filter_cons_of_pos (by simp [above, hgo])]
  | inside go stop l contents rest k hk hl ihc ihr =>
      rw [arrive_inside hk hl, ihr hstop hgo, ihc (fun w => hstop (l :: w)) hl,
        Slots.visits, List.filter_cons_of_pos (by simp [above, hgo]),
        List.filter_append, List.filter_map]
      congr 3
      apply List.filter_congr
      intro v _
      simp [above_all_cons, hgo]
  | outside go stop l contents rest k hk hl ih =>
      have hbelow : (contents.visits.map (Visit.below l)).filter
          (fun v => (above v.names).all go) = [] := by
        rw [List.filter_map, List.map_eq_nil_iff, List.filter_eq_nil_iff]
        intro v hv
        obtain ⟨c, -, w, hw⟩ := visits_head hv
        simp [hw, above, hl]
      rw [arrive_outside hk hl, ih hstop hgo, Slots.visits,
        List.filter_cons_of_pos (by simp [above, hgo]), List.filter_append,
        hbelow, List.nil_append]

theorem node_arrive_eq_filter {go : List L → Bool}
    {stop : List L → Nat → Bool} (hstop : ∀ w k, stop w k = false)
    (node : Node D L) :
    node.arrive go stop
      = node.visits.filter (fun v => (above v.names).all go) := by
  rw [Node.arrive, Node.visits, List.filter_cons_of_pos rfl]
  congr 1
  by_cases hgo : go [] = true
  · cases node with
    | file => rfl
    | dir contents =>
        rw [if_pos (by simp [Node.isDir, hgo])]
        exact arrive_eq_filter hstop hgo _ _
  · rw [if_neg (by simp [hgo]), eq_comm, List.filter_eq_nil_iff]
    intro v hv
    obtain ⟨c, -, w, hw⟩ := visits_head hv
    simp [hw, above, hgo]

/-- A traversal comes to entries of the directory only. -/
theorem arrive_subset {go : List L → Bool} {stop : List L → Nat → Bool}
    {s : Slots D L} {k : Nat} {v : Visit D L} (h : v ∈ s.arrive go stop k) :
    v ∈ s.visits := by
  induction go, stop, s, k using traversal_induction generalizing v with
  | stopped go stop s k hk =>
      rw [arrive_stopped hk] at h
      exact absurd h List.not_mem_nil
  | nil => exact h
  | dead go stop d rest k hk ih =>
      rw [arrive_dead hk] at h
      exact ih h
  | file go stop l rest k hk ih =>
      rw [arrive_file hk] at h
      obtain rfl | h := List.mem_cons.mp h
      · exact List.mem_cons_self
      · exact List.mem_cons_of_mem _ (ih h)
  | inside go stop l contents rest k hk hl ihc ihr =>
      rw [arrive_inside hk hl] at h
      obtain rfl | h := List.mem_cons.mp h
      · exact List.mem_cons_self
      · refine List.mem_cons_of_mem _ (List.mem_append.mpr ?_)
        obtain h | h := List.mem_append.mp h
        · obtain ⟨u, hu, rfl⟩ := List.mem_map.mp h
          exact .inl (List.mem_map_of_mem (ihc hu))
        · exact .inr (ihr h)
  | outside go stop l contents rest k hk hl ih =>
      rw [arrive_outside hk hl] at h
      obtain rfl | h := List.mem_cons.mp h
      · exact List.mem_cons_self
      · exact List.mem_cons_of_mem _ (List.mem_append_right _ (ih h))

/-- Only entries of the directory are lost. -/
theorem lost_subset {go : List L → Bool} {stop : List L → Nat → Bool}
    {s : Slots D L} {k : Nat} {v : Visit D L} (h : v ∈ s.lost go stop k) :
    v ∈ s.visits := by
  induction go, stop, s, k using traversal_induction generalizing v with
  | stopped go stop s k hk =>
      rw [lost_stopped hk] at h
      exact h
  | nil => exact h
  | dead go stop d rest k hk ih =>
      rw [lost_dead hk] at h
      exact ih h
  | file go stop l rest k hk ih =>
      rw [lost_file hk] at h
      exact List.mem_cons_of_mem _ (ih h)
  | inside go stop l contents rest k hk hl ihc ihr =>
      rw [lost_inside hk hl] at h
      refine List.mem_cons_of_mem _ (List.mem_append.mpr ?_)
      obtain h | h := List.mem_append.mp h
      · obtain ⟨u, hu, rfl⟩ := List.mem_map.mp h
        exact .inl (List.mem_map_of_mem (ihc hu))
      · exact .inr (ihr h)
  | outside go stop l contents rest k hk hl ih =>
      rw [lost_outside hk hl] at h
      exact List.mem_cons_of_mem _ (List.mem_append_right _ (ih h))

/-- An entry is come to, or below a directory that is not gone into, or
    lost. -/
def Accounted (go : List L → Bool) (arrived lost : List (Visit D L))
    (v : Visit D L) : Prop :=
  v ∈ arrived ∨
  (∃ u ∈ arrived, u.node.isDir = true ∧ go u.names = false ∧
    ∃ l r, v.names = u.names ++ l :: r) ∨
  v ∈ lost

theorem accounted_mono {go : List L → Bool}
    {arrived arrived' lost lost' : List (Visit D L)} {v : Visit D L}
    (ha : arrived ⊆ arrived') (hl : lost ⊆ lost')
    (h : Accounted go arrived lost v) : Accounted go arrived' lost' v := by
  obtain h | ⟨u, hu, hdir, hgo, hr⟩ | h := h
  · exact .inl (ha h)
  · exact .inr (.inl ⟨u, ha hu, hdir, hgo, hr⟩)
  · exact .inr (.inr (hl h))

/-- What is accounted for in a directory is so from above. -/
theorem accounted_below {go : List L → Bool} {arrived lost : List (Visit D L)}
    {l : L} {v : Visit D L}
    (h : Accounted (fun w => go (l :: w)) arrived lost v) :
    Accounted go (arrived.map (Visit.below l)) (lost.map (Visit.below l))
      (v.below l) := by
  obtain h | ⟨t, ht, hdir, hgo, l', r, hr⟩ | h := h
  · exact .inl (List.mem_map_of_mem h)
  · exact .inr (.inl ⟨t.below l, List.mem_map_of_mem ht, hdir, hgo, l', r,
      by simp [hr]⟩)
  · exact .inr (.inr (List.mem_map_of_mem h))

/-- **EVERY ENTRY** is accounted for. -/
theorem visits_cases (go : List L → Bool) (stop : List L → Nat → Bool)
    {s : Slots D L} (k : Nat) {v : Visit D L} (h : v ∈ s.visits) :
    Accounted go (s.arrive go stop k) (s.lost go stop k) v := by
  induction go, stop, s, k using traversal_induction generalizing v with
  | stopped go stop s k hk =>
      rw [lost_stopped hk]
      exact .inr (.inr h)
  | nil => exact absurd h List.not_mem_nil
  | dead go stop d rest k hk ih =>
      rw [arrive_dead hk, lost_dead hk]
      exact ih h
  | file go stop l rest k hk ih =>
      rw [arrive_file hk, lost_file hk]
      obtain rfl | h := List.mem_cons.mp h
      · exact .inl List.mem_cons_self
      · exact accounted_mono (List.subset_cons_self _ _) (List.Subset.refl _)
          (ih h)
  | inside go stop l contents rest k hk hl ihc ihr =>
      rw [arrive_inside hk hl, lost_inside hk hl]
      obtain rfl | h := List.mem_cons.mp h
      · exact .inl List.mem_cons_self
      · refine accounted_mono (List.subset_cons_self _ _) (List.Subset.refl _) ?_
        obtain h | h := List.mem_append.mp h
        · obtain ⟨u, hu, rfl⟩ := List.mem_map.mp h
          exact accounted_mono (List.subset_append_left _ _)
            (List.subset_append_left _ _) (accounted_below (ihc hu))
        · exact accounted_mono (List.subset_append_right _ _)
            (List.subset_append_right _ _) (ihr h)
  | outside go stop l contents rest k hk hl ih =>
      rw [arrive_outside hk hl, lost_outside hk hl]
      obtain rfl | h := List.mem_cons.mp h
      · exact .inl List.mem_cons_self
      · obtain h | h := List.mem_append.mp h
        · obtain ⟨u, hu, rfl⟩ := List.mem_map.mp h
          obtain ⟨c, -, w, hw⟩ := visits_head hu
          exact .inr (.inl ⟨_, List.mem_cons_self, rfl, hl, c.1, w,
            by simp [hw]⟩)
        · exact accounted_mono (List.subset_cons_self _ _)
            (List.Subset.refl _) (ih h)

/-- **NEVER TWO OF THEM**: above a lost entry all directories come to are
    gone into, and it is not come to itself. -/
theorem lost_unreached {key : L → K} {go : List L → Bool}
    {stop : List L → Nat → Bool} {s : Slots D L} (hs : s.Distinct key)
    {k : Nat} {u v : Visit D L} (hv : v ∈ s.lost go stop k)
    (hu : u ∈ s.arrive go stop k) (hpre : u.keys key <+: v.keys key) :
    u.node.isDir = true ∧ go u.names = true ∧ u.keys key ≠ v.keys key := by
  induction go, stop, s, k using traversal_induction generalizing u v with
  | stopped go stop s k hk =>
      rw [arrive_stopped hk] at hu
      exact absurd hu List.not_mem_nil
  | nil => exact absurd hv List.not_mem_nil
  | dead go stop d rest k hk ih =>
      rw [arrive_dead hk] at hu
      rw [lost_dead hk] at hv
      exact ih hs hv hu hpre
  | file go stop l rest k hk ih =>
      obtain ⟨hne, hrest⟩ := hs
      rw [arrive_file hk] at hu
      rw [lost_file hk] at hv
      obtain rfl | hu := List.mem_cons.mp hu
      · exact absurd (.inl hpre) (keys_clash hne (lost_subset hv))
      · exact ih hrest hv hu hpre
  | inside go stop l contents rest k hk hl ihc ihr =>
      obtain ⟨hne, hcontents, hrest⟩ := hs
      rw [arrive_inside hk hl] at hu
      rw [lost_inside hk hl] at hv
      obtain hv | hv := List.mem_append.mp hv
      · -- lost below `l`
        obtain ⟨v', hv', rfl⟩ := List.mem_map.mp hv
        obtain rfl | hu := List.mem_cons.mp hu
        · obtain ⟨c, -, w, hw⟩ := visits_head (lost_subset hv')
          exact ⟨rfl, hl, by simp [Visit.keys, hw]⟩
        · obtain hu | hu := List.mem_append.mp hu
          · obtain ⟨u', hu', rfl⟩ := List.mem_map.mp hu
            obtain ⟨hdir, hgo, hkeys⟩ := ihc hcontents hv' hu'
              (List.cons_prefix_cons.mp hpre).2
            exact ⟨hdir, hgo, fun h => hkeys (List.cons.inj h).2⟩
          · exact absurd (.inr hpre) (keys_clash hne (arrive_subset hu))
      · -- lost after `l`
        have hv' := lost_subset hv
        obtain rfl | hu := List.mem_cons.mp hu
        · exact absurd (.inl hpre) (keys_clash hne hv')
        · obtain hu | hu := List.mem_append.mp hu
          · obtain ⟨u', -, rfl⟩ := List.mem_map.mp hu
            exact absurd (.inl hpre) (keys_clash hne hv')
          · exact ihr hrest hv hu hpre
  | outside go stop l contents rest k hk hl ih =>
      obtain ⟨hne, -, hrest⟩ := hs
      rw [arrive_outside hk hl] at hu
      rw [lost_outside hk hl] at hv
      obtain rfl | hu := List.mem_cons.mp hu
      · exact absurd (.inl hpre) (keys_clash hne (lost_subset hv))
      · exact ih hrest hv hu hpre

/-- What is come to depends on `go` at the directories come to only. -/
theorem arrive_congr {go go' : List L → Bool} {stop : List L → Nat → Bool}
    {s : Slots D L} {k : Nat} (h : ∀ v ∈ s.arrive go stop k,
      v.node.isDir = true → go v.names = go' v.names) :
    s.arrive go stop k = s.arrive go' stop k := by
  induction go, stop, s, k using traversal_induction generalizing go' with
  | stopped go stop s k hk => rw [arrive_stopped hk, arrive_stopped hk]
  | nil => rfl
  | dead go stop d rest k hk ih =>
      rw [arrive_dead hk] at h
      rw [arrive_dead hk, arrive_dead hk, ih h]
  | file go stop l rest k hk ih =>
      rw [arrive_file hk] at h
      rw [arrive_file hk, arrive_file hk, ih (List.forall_mem_cons.mp h).2]
  | inside go stop l contents rest k hk hl ihc ihr =>
      rw [arrive_inside hk hl] at h
      obtain ⟨hhere, hbelow, hrest⟩ := (List.forall_mem_cons.mp h).imp_right
        List.forall_mem_append.mp
      have hl' : go' [l] = true := (hhere rfl).symm.trans hl
      rw [arrive_inside hk hl, arrive_inside hk hl', ihr hrest, ihc ?_]
      intro v hv
      exact hbelow (v.below l) (List.mem_map_of_mem hv)
  | outside go stop l contents rest k hk hl ih =>
      rw [arrive_outside hk hl] at h
      obtain ⟨hhere, hrest⟩ := List.forall_mem_cons.mp h
      have hl' : go' [l] = false := (hhere rfl).symm.trans hl
      rw [arrive_outside hk hl, arrive_outside hk hl', ih hrest]

theorem visits_child_start {s : Slots D L} {c : L × Node D L}
    (hc : c ∈ s.children) : ⟨[c.1], c.2⟩ ∈ s.visits := by
  induction s with
  | nil => exact nomatch hc
  | dead d rest ih => exact ih hc
  | file l rest ih =>
      obtain rfl | hc := List.mem_cons.mp hc
      · exact List.mem_cons_self
      · exact List.mem_cons_of_mem _ (ih hc)
  | dir l contents rest _ ih =>
      obtain rfl | hc := List.mem_cons.mp hc
      · exact List.mem_cons_self
      · exact List.mem_cons_of_mem _ (List.mem_append_right _ (ih hc))

/-- The entries of a directory that is visited are visited. -/
theorem visits_child {s : Slots D L} {v : Visit D L} (hv : v ∈ s.visits)
    {c : L × Node D L} (hc : c ∈ v.node.slots.children) :
    ⟨v.names ++ [c.1], c.2⟩ ∈ s.visits := by
  induction s generalizing v with
  | nil => exact nomatch hv
  | dead d rest ih => exact ih hv hc
  | file l rest ih =>
      obtain rfl | hv := List.mem_cons.mp hv
      · exact nomatch hc
      · exact List.mem_cons_of_mem _ (ih hv hc)
  | dir l contents rest ihc ihr =>
      refine List.mem_cons_of_mem _ (List.mem_append.mpr ?_)
      obtain rfl | hv := List.mem_cons.mp hv
      · exact .inl (List.mem_map_of_mem (visits_child_start hc))
      · obtain hv | hv := List.mem_append.mp hv
        · obtain ⟨u, hu, rfl⟩ := List.mem_map.mp hv
          exact .inl (List.mem_map_of_mem (ihc hu hc))
        · exact .inr (ihr hv hc)

theorem filter_none {p : Visit D L → Bool} {vs : List (Visit D L)}
    (h : ∀ v ∈ vs, p v = false) : vs.filter p = [] :=
  List.filter_eq_nil_iff.mpr (fun v hv => by simp [h v hv])

/-- **NOTHING LOST THAT COUNTS**: where all directories come to are gone into,
    a test that fails on what is lost selects the same entries. -/
theorem filter_arrive {p : Visit D L → Bool} {go : List L → Bool}
    {stop : List L → Nat → Bool} {s : Slots D L} {k : Nat}
    (hgo : ∀ v ∈ s.arrive go stop k, v.node.isDir = true → go v.names = true)
    (hlost : ∀ v ∈ s.lost go stop k, p v = false) :
    (s.arrive go stop k).filter p = s.visits.filter p := by
  induction go, stop, s, k using traversal_induction generalizing p with
  | stopped go stop s k hk =>
      rw [lost_stopped hk] at hlost
      rw [arrive_stopped hk, filter_none hlost]
      rfl
  | nil => rfl
  | dead go stop d rest k hk ih =>
      rw [arrive_dead hk] at hgo ⊢
      rw [lost_dead hk] at hlost
      exact ih hgo hlost
  | file go stop l rest k hk ih =>
      rw [arrive_file hk] at hgo ⊢
      rw [lost_file hk] at hlost
      rw [Slots.visits, List.filter_cons, List.filter_cons,
        ih (List.forall_mem_cons.mp hgo).2 hlost]
  | inside go stop l contents rest k hk hl ihc ihr =>
      rw [arrive_inside hk hl] at hgo ⊢
      rw [lost_inside hk hl] at hlost
      obtain ⟨-, hgoc, hgor⟩ := (List.forall_mem_cons.mp hgo).imp_right
        List.forall_mem_append.mp
      obtain ⟨hlostc, hlostr⟩ := List.forall_mem_append.mp hlost
      rw [Slots.visits, List.filter_cons, List.filter_cons,
        List.filter_append, List.filter_append, ihr hgor hlostr,
        List.filter_map, List.filter_map, ihc ?_ ?_]
      · intro v hv
        exact hgoc _ (List.mem_map_of_mem hv)
      · intro v hv
        exact hlostc _ (List.mem_map_of_mem hv)
  | outside go stop l contents rest k hk hl ih =>
      rw [arrive_outside hk hl] at hgo
      have hin := (List.forall_mem_cons.mp hgo).1 rfl
      exact absurd (hin.symm.trans hl) (by decide)

/-! ## From a start -/

section Start

variable {go go' : List L → Bool} {stop : List L → Nat → Bool}
  {node : Node D L}

theorem node_visits_nodup {key : L → K} (hs : node.slots.Distinct key) :
    (node.visits.map (Visit.keys key)).Nodup := by
  refine List.nodup_cons.mpr ⟨?_, visits_nodup hs⟩
  intro hmem
  obtain ⟨v, hv, heq⟩ := List.mem_map.mp hmem
  obtain ⟨c, -, w, hw⟩ := visits_head hv
  rw [Visit.keys, hw] at heq
  exact nomatch heq

/-- A node with entries is a directory. -/
theorem isDir_of_visits {v : Visit D L} (h : v ∈ node.slots.visits) :
    node.isDir = true := by
  cases node with
  | file => exact nomatch h
  | dir contents => rfl

theorem node_lost_subset {v : Visit D L} (h : v ∈ node.lost go stop) :
    v ∈ node.visits := by
  unfold Node.lost at h
  split at h
  · exact List.mem_cons_of_mem _ (lost_subset h)
  · exact nomatch h

theorem node_visits_cases (go : List L → Bool) (stop : List L → Nat → Bool)
    {v : Visit D L} (h : v ∈ node.visits) :
    Accounted go (node.arrive go stop) (node.lost go stop) v := by
  obtain rfl | h := List.mem_cons.mp h
  · exact .inl List.mem_cons_self
  · have hdir := isDir_of_visits h
    rw [Node.arrive, Node.lost]
    by_cases hgo : go [] = true
    · rw [if_pos (by simp [hdir, hgo]), if_pos (by simp [hdir, hgo])]
      exact accounted_mono (List.subset_cons_self _ _) (List.Subset.refl _)
        (visits_cases go stop 0 h)
    · obtain ⟨c, -, w, hw⟩ := visits_head h
      exact .inr (.inl ⟨_, List.mem_cons_self, hdir,
        Bool.eq_false_iff.mpr hgo, c.1, w, hw⟩)

theorem node_lost_unreached {key : L → K} (hs : node.slots.Distinct key)
    {u v : Visit D L} (hv : v ∈ node.lost go stop)
    (hu : u ∈ node.arrive go stop) (hpre : u.keys key <+: v.keys key) :
    u.node.isDir = true ∧ go u.names = true ∧ u.keys key ≠ v.keys key := by
  unfold Node.lost at hv
  by_cases h : (node.isDir && go []) = true
  · obtain ⟨hdir, hgo⟩ := Bool.and_eq_true_iff.mp h
    rw [if_pos h] at hv
    obtain rfl | hu := List.mem_cons.mp hu
    · obtain ⟨c, -, w, hw⟩ := visits_head (lost_subset hv)
      exact ⟨hdir, hgo, by simp [Visit.keys, hw]⟩
    · rw [if_pos h] at hu
      exact lost_unreached hs hv hu hpre
  · rw [if_neg h] at hv
    exact nomatch hv

theorem node_arrive_congr (h : ∀ v ∈ node.arrive go stop,
      v.node.isDir = true → go v.names = go' v.names) :
    node.arrive go stop = node.arrive go' stop := by
  obtain ⟨hstart, hrest⟩ := List.forall_mem_cons.mp h
  rw [Node.arrive, Node.arrive]
  congr 1
  cases node with
  | file => rfl
  | dir contents =>
      have hgo : go [] = go' [] := hstart rfl
      by_cases hnil : go [] = true
      · rw [if_pos (by simp [Node.isDir, hnil])] at hrest
        rw [if_pos (by simp [Node.isDir, hnil]),
          if_pos (by simp [Node.isDir, ← hgo, hnil])]
        exact arrive_congr hrest
      · rw [if_neg (by simp [hnil]), if_neg (by simp [← hgo, hnil])]

theorem node_filter_arrive {p : Visit D L → Bool}
    (hgo : ∀ v ∈ node.arrive go stop, v.node.isDir = true →
      go v.names = true)
    (hlost : ∀ v ∈ node.lost go stop, p v = false) :
    (node.arrive go stop).filter p = node.visits.filter p := by
  obtain ⟨hstart, hrest⟩ := List.forall_mem_cons.mp hgo
  rw [Node.arrive, Node.visits, List.filter_cons, List.filter_cons]
  cases node with
  | file => rfl
  | dir contents =>
      have hdir : ((Node.dir contents).isDir && go []) = true := hstart rfl
      rw [if_pos hdir] at hrest ⊢
      rw [Node.lost, if_pos hdir] at hlost
      rw [filter_arrive hrest hlost]

theorem node_visits_child {v : Visit D L} (hv : v ∈ node.visits)
    {c : L × Node D L} (hc : c ∈ v.node.slots.children) :
    ⟨v.names ++ [c.1], c.2⟩ ∈ node.visits := by
  obtain rfl | hv := List.mem_cons.mp hv
  · exact List.mem_cons_of_mem _ (visits_child_start hc)
  · exact List.mem_cons_of_mem _ (visits_child hv hc)

end Start

/-! ## Paths -/

section Paths

variable {C : Type} {sep : C}

/-- Names written one after the other, each after a separator. -/
def joined (sep : C) (names : List (List C)) : List C :=
  names.flatMap (fun name => sep :: name)

/-- The first name ends where the separator comes again. -/
theorem joined_first [DecidableEq C] {name : List C} (hname : sep ∉ name)
    (names : List (List C)) :
    (name ++ joined sep names).takeWhile (· ≠ sep) = name := by
  have htake : (joined sep names).takeWhile (· ≠ sep) = [] := by
    cases names with
    | nil => rfl
    | cons name' names => simp [joined]
  have hall : ∀ c ∈ name, decide (c ≠ sep) = true := by
    intro c hc
    exact decide_eq_true (fun h => hname (h ▸ hc))
  rw [List.takeWhile_append_of_pos hall, htake, List.append_nil]

/-- Names without separator can be told from what is written. -/
theorem joined_inj [DecidableEq C] {names names' : List (List C)}
    (h : ∀ name ∈ names, sep ∉ name) (h' : ∀ name ∈ names', sep ∉ name)
    (heq : joined sep names = joined sep names') : names = names' := by
  induction names generalizing names' with
  | nil =>
      cases names' with
      | nil => rfl
      | cons name' names' => exact nomatch heq
  | cons name names ih =>
      cases names' with
      | nil => exact nomatch heq
      | cons name' names' =>
          obtain ⟨hname, hnames⟩ := List.forall_mem_cons.mp h
          obtain ⟨hname', hnames'⟩ := List.forall_mem_cons.mp h'
          have htail : name ++ joined sep names = name' ++ joined sep names' :=
            (List.cons.inj heq).2
          have hfirst : name = name' := by
            rw [← joined_first hname names, htail, joined_first hname' names']
          subst hfirst
          rw [ih hnames hnames' (List.append_cancel_left htail)]

end Paths

end DirectoryTrees
