import Mathlib.Data.Finmap

/-- A finite map with no iteration order of its own: two maps are equal as soon
as their lookups agree. -/
def UnorderedMap (κ ν : Type) : Type := Finmap (fun _ : κ => ν)

namespace UnorderedMap

variable {κ ν : Type} [DecidableEq κ]

instance : EmptyCollection (UnorderedMap κ ν) :=
  inferInstanceAs (EmptyCollection (Finmap (fun _ : κ => ν)))

instance : Inhabited (UnorderedMap κ ν) := ⟨∅⟩

instance [DecidableEq ν] : DecidableEq (UnorderedMap κ ν) :=
  inferInstanceAs (DecidableEq (Finmap (fun _ : κ => ν)))

def get? (m : UnorderedMap κ ν) (k : κ) : Option ν := @Finmap.lookup κ (fun _ => ν) _ k m

def set (m : UnorderedMap κ ν) (k : κ) (v : ν) : UnorderedMap κ ν :=
  @Finmap.insert κ (fun _ => ν) _ k v m

def erase (m : UnorderedMap κ ν) (k : κ) : UnorderedMap κ ν := @Finmap.erase κ (fun _ => ν) _ k m

omit [DecidableEq κ] in
def keys (m : UnorderedMap κ ν) : Finset κ := @Finmap.keys κ (fun _ => ν) m

/-- Rewrites the value stored under a key; a missing key stays missing. -/
def modify (m : UnorderedMap κ ν) (k : κ) (f : ν → ν) : UnorderedMap κ ν :=
  match m.get? k with
  | some v => m.set k (f v)
  | none => m

/-- Some entry of the map satisfies `p`. -/
def any (m : UnorderedMap κ ν) (p : κ → ν → Bool) : Bool :=
  decide (∃ k ∈ m.keys, (m.get? k).any (p k) = true)

@[ext] theorem ext {m m' : UnorderedMap κ ν} (h : ∀ k, m.get? k = m'.get? k) : m = m' :=
  Finmap.ext_lookup h

@[simp] theorem get?_empty (k : κ) : (∅ : UnorderedMap κ ν).get? k = none := Finmap.lookup_empty k

@[simp] theorem get?_set_self (m : UnorderedMap κ ν) (k : κ) (v : ν) :
    (m.set k v).get? k = some v :=
  Finmap.lookup_insert m

theorem get?_set_of_ne (m : UnorderedMap κ ν) {k k' : κ} (v : ν) (h : k' ≠ k) :
    (m.set k v).get? k' = m.get? k' :=
  Finmap.lookup_insert_of_ne m h

theorem get?_set (m : UnorderedMap κ ν) (k k' : κ) (v : ν) :
    (m.set k v).get? k' = if k' = k then some v else m.get? k' := by
  by_cases h : k' = k
  · subst h; simp
  · rw [if_neg h, get?_set_of_ne m v h]

@[simp] theorem get?_erase_self (m : UnorderedMap κ ν) (k : κ) : (m.erase k).get? k = none :=
  Finmap.lookup_erase k m

theorem get?_erase_of_ne (m : UnorderedMap κ ν) {k k' : κ} (h : k' ≠ k) :
    (m.erase k).get? k' = m.get? k' :=
  Finmap.lookup_erase_ne h

theorem get?_erase (m : UnorderedMap κ ν) (k k' : κ) :
    (m.erase k).get? k' = if k' = k then none else m.get? k' := by
  by_cases h : k' = k
  · subst h; simp
  · rw [if_neg h, get?_erase_of_ne m h]

theorem get?_modify (m : UnorderedMap κ ν) (k k' : κ) (f : ν → ν) :
    (m.modify k f).get? k' = if k' = k then (m.get? k).map f else m.get? k' := by
  unfold modify
  cases hk : m.get? k with
  | none =>
    by_cases h : k' = k
    · subst h; simp [hk]
    · simp [h]
  | some v => rw [get?_set]; rfl

theorem get?_modify_of_ne (m : UnorderedMap κ ν) {k k' : κ} (f : ν → ν) (h : k' ≠ k) :
    (m.modify k f).get? k' = m.get? k' := by
  rw [get?_modify, if_neg h]

@[simp] theorem get?_modify_self (m : UnorderedMap κ ν) (k : κ) (f : ν → ν) :
    (m.modify k f).get? k = (m.get? k).map f := by
  rw [get?_modify, if_pos rfl]

theorem get?_modify_of_get? {m : UnorderedMap κ ν} {k : κ} {v : ν} (h : m.get? k = some v)
    (f : ν → ν) : (m.modify k f).get? k = some (f v) := by
  rw [get?_modify_self, h, Option.map_some]

theorem modify_modify (m : UnorderedMap κ ν) (k : κ) (f g : ν → ν) :
    (m.modify k f).modify k g = m.modify k (g ∘ f) := by
  ext1 k'
  simp only [get?_modify]
  split <;> simp

theorem mem_keys {m : UnorderedMap κ ν} {k : κ} : k ∈ m.keys ↔ ∃ v, m.get? k = some v :=
  Finmap.mem_keys.trans Finmap.mem_iff

theorem mem_keys_of_get? {m : UnorderedMap κ ν} {k : κ} {v : ν} (h : m.get? k = some v) :
    k ∈ m.keys :=
  mem_keys.mpr ⟨v, h⟩

theorem notMem_keys {m : UnorderedMap κ ν} {k : κ} : k ∉ m.keys ↔ m.get? k = none := by
  rw [mem_keys, Option.eq_none_iff_forall_ne_some]
  simp

omit [DecidableEq κ] in
@[simp] theorem keys_empty : (∅ : UnorderedMap κ ν).keys = ∅ := Finmap.keys_empty

@[simp] theorem keys_modify (m : UnorderedMap κ ν) (k : κ) (f : ν → ν) :
    (m.modify k f).keys = m.keys := by
  ext k'
  rw [mem_keys, mem_keys, get?_modify]
  split <;> simp_all

@[simp] theorem keys_set (m : UnorderedMap κ ν) (k : κ) (v : ν) :
    (m.set k v).keys = insert k m.keys := by
  ext k'
  rw [Finset.mem_insert, mem_keys, mem_keys, get?_set]
  split <;> simp_all

@[simp] theorem keys_erase (m : UnorderedMap κ ν) (k : κ) : (m.erase k).keys = m.keys.erase k := by
  ext k'
  rw [Finset.mem_erase, mem_keys, mem_keys, get?_erase]
  split <;> simp_all

theorem any_eq_true {m : UnorderedMap κ ν} {p : κ → ν → Bool} :
    m.any p = true ↔ ∃ k v, m.get? k = some v ∧ p k v = true := by
  simp only [any, decide_eq_true_eq, mem_keys, Option.any_eq_true]
  constructor
  · rintro ⟨k, _, v, hv, hp⟩
    exact ⟨k, v, hv, hp⟩
  · rintro ⟨k, v, hv, hp⟩
    exact ⟨k, ⟨v, hv⟩, v, hv, hp⟩

/-- What holds of the entries of a map and of a new entry holds after the entry
is set. -/
theorem forall_set {P : κ → ν → Prop} {m : UnorderedMap κ ν} {k : κ} {v : ν}
    (hm : ∀ k v, m.get? k = some v → P k v) (h : P k v) :
    ∀ k' v', (m.set k v).get? k' = some v' → P k' v' := by
  intro k' v' hget
  rw [get?_set] at hget
  split at hget
  · rename_i hk
    cases hget
    exact hk ▸ h
  · exact hm k' v' hget

/-- The list `l` shows the entries of `m` in one of the orders an iteration may
visit them. -/
def IsIterationOrder (l : List (κ × ν)) (m : UnorderedMap κ ν) : Prop :=
  (l.map Prod.fst).Nodup ∧ ∀ k v, (k, v) ∈ l ↔ m.get? k = some v

/-- The map obtained by assigning the entries of a list one after another. -/
def setAll (m : UnorderedMap κ ν) (l : List (κ × ν)) : UnorderedMap κ ν :=
  l.foldl (fun m kv => m.set kv.1 kv.2) m

theorem get?_setAll_of_notMem (l : List (κ × ν)) (m : UnorderedMap κ ν) {k : κ}
    (h : k ∉ l.map Prod.fst) : (m.setAll l).get? k = m.get? k := by
  induction l generalizing m with
  | nil => rfl
  | cons kv l ih =>
    simp only [List.map_cons, List.mem_cons, not_or] at h
    change ((m.set kv.1 kv.2).setAll l).get? k = _
    rw [ih _ h.2, get?_set_of_ne m _ h.1]

theorem get?_setAll_of_mem (l : List (κ × ν)) (m : UnorderedMap κ ν) {k : κ} {v : ν}
    (hnodup : (l.map Prod.fst).Nodup) (h : (k, v) ∈ l) : (m.setAll l).get? k = some v := by
  induction l generalizing m with
  | nil => cases h
  | cons kv l ih =>
    rw [List.map_cons, List.nodup_cons] at hnodup
    change ((m.set kv.1 kv.2).setAll l).get? k = _
    rcases List.mem_cons.mp h with rfl | h
    · rw [get?_setAll_of_notMem l _ hnodup.1, get?_set_self]
    · exact ih _ hnodup.2 h

theorem mem_of_get?_setAll {l : List (κ × ν)} {m : UnorderedMap κ ν} {k : κ} {v : ν}
    (h : (m.setAll l).get? k = some v) : (k, v) ∈ l ∨ m.get? k = some v := by
  induction l generalizing m with
  | nil => exact .inr h
  | cons kv l ih =>
    rcases ih (m := m.set kv.1 kv.2) h with hmem | hget
    · exact .inl (List.mem_cons_of_mem _ hmem)
    · rw [get?_set] at hget
      split at hget
      · rename_i hk
        cases hget
        exact .inl (by rw [hk]; exact List.mem_cons_self)
      · exact .inr hget

/-- Assigning the entries in any iteration order rebuilds the map. -/
theorem IsIterationOrder.setAll_empty {l : List (κ × ν)} {m : UnorderedMap κ ν}
    (h : IsIterationOrder l m) : (∅ : UnorderedMap κ ν).setAll l = m := by
  ext1 k
  cases hk : m.get? k with
  | some v => exact get?_setAll_of_mem l ∅ h.1 ((h.2 k v).mpr hk)
  | none =>
    rw [get?_setAll_of_notMem, get?_empty]
    intro hmem
    obtain ⟨⟨_, v⟩, hkv, rfl⟩ := List.mem_map.mp hmem
    rw [(h.2 _ v).mp hkv] at hk
    cases hk

/-- Assigning the entries of a list with different keys gives a map that the list
shows. -/
theorem isIterationOrder_setAll {l : List (κ × ν)} (h : (l.map Prod.fst).Nodup) :
    IsIterationOrder l ((∅ : UnorderedMap κ ν).setAll l) := by
  refine ⟨h, fun k v => ⟨get?_setAll_of_mem l ∅ h, fun hget => ?_⟩⟩
  exact (mem_of_get?_setAll hget).resolve_right (by simp)

/-- The map from values back to keys that assigning the entries of a list one after
another gives: of two entries with the same value the later one stays. -/
def inverseOf [DecidableEq ν] (l : List (κ × ν)) : UnorderedMap ν κ :=
  l.foldl (fun m kv => m.set kv.2 kv.1) ∅

/-- The inverse of a map loses no entry if no value is stored under two keys. -/
theorem IsIterationOrder.get?_inverseOf [DecidableEq ν] {l : List (κ × ν)} {m : UnorderedMap κ ν}
    (h : IsIterationOrder l m)
    (hinj : ∀ k k' v, m.get? k = some v → m.get? k' = some v → k = k') {k : κ} {v : ν} :
    (inverseOf l).get? v = some k ↔ m.get? k = some v := by
  have hnodup : ((l.map Prod.swap).map Prod.fst).Nodup := by
    rw [List.map_map]
    refine (List.Nodup.of_map _ h.1).map_on ?_
    rintro ⟨k, v⟩ hkv ⟨k', v'⟩ hkv' heq
    obtain rfl : v = v' := heq
    rw [hinj k k' v ((h.2 k v).mp hkv) ((h.2 k' v).mp hkv')]
  have hfold : inverseOf l = (∅ : UnorderedMap ν κ).setAll (l.map Prod.swap) := by
    rw [setAll, List.foldl_map]
    rfl
  rw [hfold, ← (isIterationOrder_setAll hnodup).2, ← h.2]
  exact List.mem_map_swap k v l

end UnorderedMap
