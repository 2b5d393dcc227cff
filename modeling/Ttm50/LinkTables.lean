import Mathlib

/-! # Tables of links

    A table gives each name at most one target; several names may have the
    same target.  `refs` counts the names of a target.  Since it is computed
    from the table it cannot be wrong, and the rules here say how it changes:
    a new name adds one to its target, a name that goes takes one away, and
    the other targets keep their count.  `t.erase k` is the table without the
    name `k`; what is done under this name does not change it. -/

namespace LinkTables

variable {K V : Type} [DecidableEq K]

/-- Names of type `K` for targets of type `V`. -/
abbrev Links (K V : Type) := AList (fun _ : K => V)

section Counting

variable [DecidableEq V]

/-- The number of names of a target. -/
def refs (t : Links K V) (v : V) : Nat := t.entries.countP (fun e => e.2 = v)

theorem refs_insert {t : Links K V} {k : K} (h : k ∉ t) (v u : V) :
    refs (t.insert k v) u = refs t u + if v = u then 1 else 0 := by
  rw [refs, AList.entries_insert_of_notMem h, List.countP_cons, refs]
  simp only [decide_eq_true_eq]

theorem refs_erase {t : Links K V} {k : K} {v : V} (h : t.lookup k = some v)
    (u : V) : refs t u = refs (t.erase k) u + if v = u then 1 else 0 := by
  have hmem : k ∈ t.entries.keys := by
    rw [← AList.keys, ← AList.mem_keys, ← AList.lookup_isSome, h]
    rfl
  obtain ⟨v', front, back, -, hsplit, herase⟩ := List.exists_of_kerase hmem
  have hentry : (⟨k, v⟩ : Sigma fun _ : K => V) ∈ t.entries :=
    List.of_mem_dlookup h
  have hentry' : (⟨k, v'⟩ : Sigma fun _ : K => V) ∈ t.entries := by
    rw [hsplit]
    exact List.mem_append_right _ List.mem_cons_self
  obtain rfl : v = v' := t.nodupKeys.eq_of_mk_mem hentry hentry'
  rw [refs, refs, AList.erase]
  dsimp only
  rw [herase, hsplit, List.countP_append, List.countP_append, List.countP_cons]
  simp only [decide_eq_true_eq]
  omega

theorem refs_pos {t : Links K V} {k : K} {v : V} (h : t.lookup k = some v) :
    0 < refs t v := by
  rw [refs_erase h v, if_pos rfl]
  omega

end Counting

/-! ## The rest of a table -/

theorem erase_of_notMem {t : Links K V} {k : K} (h : k ∉ t) : t.erase k = t := by
  apply AList.ext
  exact List.kerase_of_notMem_keys h

/-- A new name does not change the rest. -/
theorem erase_insert_self (t : Links K V) (k : K) (v : V) :
    (t.insert k v).erase k = t.erase k := by
  apply AList.ext
  show List.kerase k (List.kinsert k v t.entries) = List.kerase k t.entries
  rw [List.kinsert_def]
  exact List.kerase_cons_eq rfl

theorem erase_erase_self (t : Links K V) (k : K) :
    (t.erase k).erase k = t.erase k := by
  apply erase_of_notMem
  rw [AList.mem_erase]
  exact fun h => h.1 rfl

/-- The names of a target, counted in the rest. -/
theorem refs_rest [DecidableEq V] (t : Links K V) (k : K) (v : V) :
    refs t v = refs (t.erase k) v + if t.lookup k = some v then 1 else 0 := by
  cases hk : t.lookup k with
  | none =>
      rw [erase_of_notMem (AList.lookup_eq_none.mp hk), if_neg]
      · rfl
      · exact (Option.some_ne_none v).symm
  | some u =>
      rw [refs_erase hk v]
      simp only [Option.some.injEq]

/-- A target with one name has no other. -/
theorem eq_of_refs_one [DecidableEq V] {t : Links K V} {k k' : K} {v : V}
    (h : refs t v = 1) (hk : t.lookup k = some v) (hk' : t.lookup k' = some v) :
    k' = k := by
  by_contra hne
  have hcount := refs_rest t k v
  rw [if_pos hk, h] at hcount
  have hother : (t.erase k).lookup k' = some v := by
    rw [AList.lookup_erase_ne hne]
    exact hk'
  have hpos := refs_pos hother
  omega

/-! ## A name that is there afterwards -/

/-- The name is there already, or gets a target that has none. -/
inductive Linked [DecidableEq V] (t : Links K V) (k : K) : Links K V → Prop where
  | old (h : k ∈ t) : Linked t k t
  | new {v : V} (h : k ∉ t) (hv : refs t v = 0) : Linked t k (t.insert k v)

section Linked

variable [DecidableEq V] {t t' : Links K V} {k : K} {v : V}

theorem Linked.rest (h : Linked t k t') : t'.erase k = t.erase k := by
  cases h with
  | old _ => rfl
  | new _ _ => exact erase_insert_self t k _

theorem Linked.lookup_ne {k' : K} (h : Linked t k t') (hne : k' ≠ k) :
    t'.lookup k' = t.lookup k' := by
  cases h with
  | old _ => rfl
  | new _ _ => exact AList.lookup_insert_ne hne

/-- What has a name keeps its number of names. -/
theorem Linked.refs_eq (h : Linked t k t') (hv : refs t v ≠ 0) :
    refs t' v = refs t v := by
  cases h with
  | old _ => rfl
  | @new u hk hu =>
      have hne : u ≠ v := by
        rintro rfl
        exact hv hu
      rw [refs_insert hk, if_neg hne]
      rfl

/-- The names of its target: those it had, or this one. -/
theorem Linked.refs_target (h : Linked t k t') (hv : t'.lookup k = some v) :
    (t.lookup k = some v ∧ refs t' v = refs t v) ∨
      (t.lookup k = none ∧ refs t' v = 1) := by
  cases h with
  | old _ => exact Or.inl ⟨hv, rfl⟩
  | @new u hk hu =>
      rw [AList.lookup_insert] at hv
      obtain rfl := Option.some.inj hv
      refine Or.inr ⟨AList.lookup_eq_none.mpr hk, ?_⟩
      rw [refs_insert hk, hu, if_pos rfl]

end Linked

end LinkTables
