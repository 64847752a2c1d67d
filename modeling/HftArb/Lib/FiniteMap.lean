import Mathlib.Tactic
import Mathlib.Algebra.BigOperators.Group.List.Basic

/-!
# Finite maps: totals and the first entry

General facts about `Std.ExtTreeMap`, the ordered finite map of the standard library.

* `total m f` is the sum of `f k v` over the entries of `m`.  `total_insert`, `total_erase` and
  `total_update` say how it moves when one entry is written or removed; `total_eq_sum` computes it
  over any finite set that contains the keys.
* `front m` is the entry an iteration meets first; `front_eq_some_iff` characterizes it by
  lookups alone.
* `Image f m M` says that `M` is `m` with `f` applied to every value; updates and iterations of
  the two keep step.
-/

namespace FiniteMap

open Std

variable {κ ν M : Type*} {cmp : κ → κ → Ordering} [TransCmp cmp] [LawfulEqCmp cmp]

theorem toList_nodup (m : ExtTreeMap κ ν cmp) : m.toList.Nodup := by
  refine m.distinct_keys_toList.imp ?_
  rintro a b hab rfl
  exact hab ReflCmp.compare_self

/-- Maps with the same entries in some order have the same entries. -/
theorem toList_perm_of_mem {m : ExtTreeMap κ ν cmp} {l : List (κ × ν)} (hl : l.Nodup)
    (h : ∀ k v, (k, v) ∈ l ↔ m[k]? = some v) : m.toList.Perm l := by
  rw [List.perm_ext_iff_of_nodup (toList_nodup m) hl]
  rintro ⟨k, v⟩
  rw [h, ExtTreeMap.mem_toList_iff_getElem?_eq_some]

theorem toList_perm_cons_erase {m : ExtTreeMap κ ν cmp} {k : κ} {v : ν} (h : m[k]? = some v) :
    m.toList.Perm ((k, v) :: (m.erase k).toList) := by
  refine toList_perm_of_mem (List.nodup_cons.2 ⟨?_, toList_nodup _⟩) fun k' v' => ?_
  · simp [ExtTreeMap.mem_toList_iff_getElem?_eq_some]
  · rw [List.mem_cons, ExtTreeMap.mem_toList_iff_getElem?_eq_some, ExtTreeMap.getElem?_erase]
    by_cases hk : k = k'
    · subst hk
      simp [h, eq_comm]
    · simp [hk, Ne.symm hk]

theorem toList_insert_perm (m : ExtTreeMap κ ν cmp) (k : κ) (v : ν) :
    (m.insert k v).toList.Perm ((k, v) :: (m.erase k).toList) := by
  have h : (m.insert k v)[k]? = some v := by simp
  have herase : (m.insert k v).erase k = m.erase k := by
    refine ExtTreeMap.ext_getElem? fun a => ?_
    rw [ExtTreeMap.getElem?_erase, ExtTreeMap.getElem?_erase, ExtTreeMap.getElem?_insert]
    split_ifs <;> rfl
  simpa only [herase] using toList_perm_cons_erase h

theorem insert_erase (m : ExtTreeMap κ ν cmp) (k : κ) (v : ν) :
    (m.erase k).insert k v = m.insert k v := by
  refine ExtTreeMap.ext_getElem? fun a => ?_
  rw [ExtTreeMap.getElem?_insert, ExtTreeMap.getElem?_insert, ExtTreeMap.getElem?_erase]
  split_ifs <;> rfl

/-! ### Totals -/

section Total

variable [AddCommMonoid M]

/-- The sum of `f k v` over the entries of `m`. -/
def total (m : ExtTreeMap κ ν cmp) (f : κ → ν → M) : M :=
  (m.toList.map fun e => f e.1 e.2).sum

@[simp] theorem total_empty (f : κ → ν → M) : total (∅ : ExtTreeMap κ ν cmp) f = 0 := by
  have h : (∅ : ExtTreeMap κ ν cmp).toList = [] := by
    simp [List.eq_nil_iff_forall_not_mem, ExtTreeMap.mem_toList_iff_getElem?_eq_some]
  simp [total, h]

theorem total_eq_add_erase {m : ExtTreeMap κ ν cmp} {k : κ} {v : ν} (f : κ → ν → M)
    (h : m[k]? = some v) : total m f = f k v + total (m.erase k) f := by
  unfold total
  rw [((toList_perm_cons_erase h).map _).sum_eq, List.map_cons, List.sum_cons]

theorem total_insert (m : ExtTreeMap κ ν cmp) (k : κ) (v : ν) (f : κ → ν → M) :
    total (m.insert k v) f = f k v + total (m.erase k) f := by
  unfold total
  rw [((toList_insert_perm m k v).map _).sum_eq, List.map_cons, List.sum_cons]

theorem total_erase_of_none {m : ExtTreeMap κ ν cmp} {k : κ} (f : κ → ν → M)
    (h : m[k]? = none) : total (m.erase k) f = total m f := by
  have he : m.erase k = m := by
    refine ExtTreeMap.ext_getElem? fun a => ?_
    rw [ExtTreeMap.getElem?_erase]
    split_ifs with hk
    · rw [← LawfulEqCmp.eq_of_compare hk, h]
    · rfl
  rw [he]

theorem total_congr {m : ExtTreeMap κ ν cmp} {f g : κ → ν → M}
    (h : ∀ k v, m[k]? = some v → f k v = g k v) : total m f = total m g := by
  unfold total
  congr 1
  refine List.map_congr_left fun e he => ?_
  exact h e.1 e.2 (ExtTreeMap.mem_toList_iff_getElem?_eq_some.1 he)

theorem total_eq_zero {m : ExtTreeMap κ ν cmp} {f : κ → ν → M}
    (h : ∀ k v, m[k]? = some v → f k v = 0) : total m f = 0 := by
  rw [total_congr h]
  simp [total]

/-- Only the entry at `k` counts. -/
theorem total_eq_single {m : ExtTreeMap κ ν cmp} {k : κ} {v : ν} {f : κ → ν → M}
    (hk : m[k]? = some v) (h : ∀ k' v', m[k']? = some v' → k' ≠ k → f k' v' = 0) :
    total m f = f k v := by
  have hrest : total (m.erase k) f = 0 := by
    refine total_eq_zero fun k' v' hk' => ?_
    rw [ExtTreeMap.getElem?_erase] at hk'
    split_ifs at hk' with hc
    exact h k' v' hk' fun he => hc (by rw [he]; exact ReflCmp.compare_self)
  rw [total_eq_add_erase f hk, hrest, add_zero]

omit [LawfulEqCmp cmp] in
/-- Totals over two maps can be taken in either order. -/
theorem total_comm {κ' ν' : Type*} {cmp' : κ' → κ' → Ordering} [TransCmp cmp']
    (m : ExtTreeMap κ ν cmp) (m' : ExtTreeMap κ' ν' cmp') (f : κ → ν → κ' → ν' → M) :
    total m (fun k v => total m' fun k' v' => f k v k' v') =
      total m' fun k' v' => total m fun k v => f k v k' v' :=
  Multiset.sum_map_sum_map (m.toList : Multiset (κ × ν)) (m'.toList : Multiset (κ' × ν'))
    (f := fun e e' => f e.1 e.2 e'.1 e'.2)

omit [LawfulEqCmp cmp] in
/-- A sum over finitely many indices can be taken before or after the total. -/
theorem total_sum_comm {ι : Type*} (m : ExtTreeMap κ ν cmp) (S : Finset ι) (f : κ → ν → ι → M) :
    total m (fun k v => ∑ i ∈ S, f k v i) = ∑ i ∈ S, total m fun k v => f k v i :=
  Multiset.sum_map_sum_map (m.toList : Multiset (κ × ν)) S.val (f := fun e i => f e.1 e.2 i)

/-- A total is the sum over any finite set that contains all keys. -/
theorem total_eq_sum {m : ExtTreeMap κ ν cmp} {S : Finset κ}
    (hS : ∀ (k : κ) v, m[k]? = some v → k ∈ S) (f : κ → ν → M) :
    total m f = ∑ k ∈ S, (m[k]?).elim 0 (f k) := by
  classical
  have hentry : ∀ (k : κ) v, m[k]? = some v → f k v = ∑ i ∈ S, if i = k then f k v else 0 := by
    intro k v hk
    rw [Finset.sum_ite_eq' S k, if_pos (hS k v hk)]
  rw [total_congr hentry, total_sum_comm]
  refine Finset.sum_congr rfl fun k _ => ?_
  cases hk : m[k]? with
  | none =>
    refine total_eq_zero fun k' v' hk' => if_neg ?_
    rintro rfl
    rw [hk] at hk'
    cases hk'
  | some v =>
    rw [total_eq_single hk fun k' v' _ hne => if_neg (Ne.symm hne), if_pos rfl]
    rfl

end Total

section OrderedTotal

variable [AddCommGroup M]

/-- Overwriting an entry moves the total by the difference. -/
theorem total_update {m : ExtTreeMap κ ν cmp} {k : κ} {v : ν} (w : ν) (f : κ → ν → M)
    (h : m[k]? = some v) : total (m.insert k w) f = total m f + (f k w - f k v) := by
  rw [total_insert, total_eq_add_erase f h]
  abel

theorem total_erase {m : ExtTreeMap κ ν cmp} {k : κ} {v : ν} (f : κ → ν → M)
    (h : m[k]? = some v) : total (m.erase k) f = total m f - f k v := by
  rw [total_eq_add_erase f h]
  abel

theorem total_insert_new {m : ExtTreeMap κ ν cmp} {k : κ} (v : ν) (f : κ → ν → M)
    (h : m[k]? = none) : total (m.insert k v) f = total m f + f k v := by
  rw [total_insert, total_erase_of_none f h, add_comm]

variable [PartialOrder M] [IsOrderedAddMonoid M]

theorem total_nonneg {m : ExtTreeMap κ ν cmp} {f : κ → ν → M}
    (h : ∀ k v, m[k]? = some v → 0 ≤ f k v) : 0 ≤ total m f := by
  refine List.sum_nonneg fun x hx => ?_
  obtain ⟨e, he, rfl⟩ := List.mem_map.1 hx
  exact h e.1 e.2 (ExtTreeMap.mem_toList_iff_getElem?_eq_some.1 he)

/-- A single entry is at most the total of a nonnegative function. -/
theorem le_total {m : ExtTreeMap κ ν cmp} {f : κ → ν → M}
    (h : ∀ k v, m[k]? = some v → 0 ≤ f k v) {k : κ} {v : ν} (hk : m[k]? = some v) :
    f k v ≤ total m f := by
  rw [total_eq_add_erase f hk]
  refine le_add_of_nonneg_right (total_nonneg fun k' v' hk' => h k' v' ?_)
  rw [ExtTreeMap.getElem?_erase] at hk'
  split_ifs at hk'
  exact hk'

end OrderedTotal

/-! ### The first entry -/

/-- The entry an iteration of the map meets first. -/
def front (m : ExtTreeMap κ ν cmp) : Option (κ × ν) := m.toList.head?

theorem front_eq_none_iff {m : ExtTreeMap κ ν cmp} : front m = none ↔ ∀ k : κ, m[k]? = none := by
  rw [front, List.head?_eq_none_iff, List.eq_nil_iff_forall_not_mem]
  constructor
  · intro h k
    refine Option.eq_none_iff_forall_ne_some.2 fun v hv => ?_
    exact h (k, v) (ExtTreeMap.mem_toList_iff_getElem?_eq_some.2 hv)
  · rintro h ⟨k, v⟩ hkv
    rw [ExtTreeMap.mem_toList_iff_getElem?_eq_some, h k] at hkv
    cases hkv

/-- The first entry is the one whose key is below every key. -/
theorem front_eq_some_iff {m : ExtTreeMap κ ν cmp} {k : κ} {v : ν} :
    front m = some (k, v) ↔
      m[k]? = some v ∧ ∀ (k' : κ) (v' : ν), m[k']? = some v' → (cmp k k').isLE := by
  have hsorted := m.ordered_keys_toList
  have hmem : ∀ k v, (k, v) ∈ m.toList ↔ m[k]? = some v := fun k v =>
    ExtTreeMap.mem_toList_iff_getElem?_eq_some
  constructor
  · intro h
    obtain ⟨l, hl⟩ := List.head?_eq_some_iff.1 h
    refine ⟨(hmem k v).1 (by rw [hl]; simp), fun k' v' hk' => ?_⟩
    have hin : (k', v') ∈ m.toList := (hmem k' v').2 hk'
    rw [hl] at hin hsorted
    rcases List.mem_cons.1 hin with he | hin
    · cases he
      exact ReflCmp.isLE_rfl
    · have hlt : cmp k k' = .lt := (List.pairwise_cons.1 hsorted).1 _ hin
      rw [hlt]
      rfl
  · rintro ⟨hk, hmin⟩
    cases hfront : front m with
    | none => exact absurd hk (by rw [front_eq_none_iff.1 hfront k]; simp)
    | some e =>
      obtain ⟨l, hl⟩ := List.head?_eq_some_iff.1 hfront
      have hin : (k, v) ∈ m.toList := (hmem k v).2 hk
      rw [hl] at hin hsorted
      rcases List.mem_cons.1 hin with he | hin
      · rw [he]
      · -- an entry after the first one has a strictly larger key
        have hlt : cmp e.1 k = .lt := (List.pairwise_cons.1 hsorted).1 _ hin
        have hle : (cmp k e.1).isLE := hmin e.1 e.2 ((hmem e.1 e.2).1 (by rw [hl]; simp))
        rw [OrientedCmp.gt_of_lt hlt] at hle
        cases hle

/-! ### Images -/

section Image

variable {μ : Type*} {f : ν → μ} {m : ExtTreeMap κ ν cmp} {M : ExtTreeMap κ μ cmp}

/-- `M` is `m` with `f` applied to every value. -/
def Image (f : ν → μ) (m : ExtTreeMap κ ν cmp) (M : ExtTreeMap κ μ cmp) : Prop :=
  ∀ k : κ, (m[k]?).map f = M[k]?

omit [LawfulEqCmp cmp] in
theorem Image.empty (f : ν → μ) : Image f (∅ : ExtTreeMap κ ν cmp) ∅ := fun k => by simp

omit [LawfulEqCmp cmp] in
theorem Image.insert (h : Image f m M) (k : κ) (v : ν) :
    Image f (m.insert k v) (M.insert k (f v)) := fun k' => by
  rw [ExtTreeMap.getElem?_insert, ExtTreeMap.getElem?_insert, ← h]
  split_ifs <;> rfl

omit [LawfulEqCmp cmp] in
theorem Image.erase (h : Image f m M) (k : κ) : Image f (m.erase k) (M.erase k) := fun k' => by
  rw [ExtTreeMap.getElem?_erase, ExtTreeMap.getElem?_erase, ← h]
  split_ifs <;> rfl

omit [LawfulEqCmp cmp] in
theorem Image.some (h : Image f m M) {k : κ} {v : ν} (hk : m[k]? = some v) :
    M[k]? = Option.some (f v) := by
  rw [← h, hk]
  rfl

omit [LawfulEqCmp cmp] in
theorem Image.none_iff (h : Image f m M) {k : κ} : M[k]? = none ↔ m[k]? = none := by
  rw [← h, Option.map_eq_none_iff]

omit [LawfulEqCmp cmp] in
theorem Image.mem_iff (h : Image f m M) {k : κ} : k ∈ M ↔ k ∈ m := by
  rw [ExtTreeMap.mem_iff_isSome_getElem?, ExtTreeMap.mem_iff_isSome_getElem?, ← h,
    Option.isSome_map]

/-- An image is met in the same order. -/
theorem Image.front (h : Image f m M) :
    FiniteMap.front M = (FiniteMap.front m).map fun e => (e.1, f e.2) := by
  cases hf : FiniteMap.front m with
  | none =>
    rw [Option.map_none, front_eq_none_iff]
    intro k
    rw [h.none_iff]
    exact front_eq_none_iff.1 hf k
  | some e =>
    obtain ⟨hk, hmin⟩ := front_eq_some_iff.1 hf
    rw [Option.map_some, front_eq_some_iff]
    refine ⟨h.some hk, fun k' v' hk' => ?_⟩
    rw [← h] at hk'
    obtain ⟨v, hv, -⟩ := Option.map_eq_some_iff.1 hk'
    exact hmin k' v hv

/-- An image has the same keys. -/
theorem Image.keys_perm (h : Image f m M) : m.keys.Perm M.keys := by
  rw [List.perm_ext_iff_of_nodup ExtTreeMap.nodup_keys ExtTreeMap.nodup_keys]
  intro k
  rw [ExtTreeMap.mem_keys, ExtTreeMap.mem_keys, h.mem_iff]

end Image

end FiniteMap
