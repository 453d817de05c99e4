import Mathlib.Data.Multiset.Bind
import Mathlib.Data.Multiset.Pairwise
import UpsServer.Lib.UnorderedMap

/-! Tokens that are kept at places, and the tokens in the values of a map. -/

namespace Custody

variable {ι α : Type} [DecidableEq α]

/-- A token is kept at one place only, and once. -/
def HeldOnceAt (held : ι → Multiset α) (a : α) (p : ι) : Prop :=
  (held p).count a = 1 ∧ ∀ q, q ≠ p → a ∉ held q

/-- When no token is there twice, each is kept at exactly one place. -/
theorem exists_heldOnceAt {places : Multiset ι} {held : ι → Multiset α} {a : α}
    (hnodup : (places.bind held).Nodup) (houtside : ∀ p ∉ places, held p = 0)
    (ha : a ∈ places.bind held) : ∃ p, HeldOnceAt held a p := by
  rw [Multiset.nodup_bind] at hnodup
  obtain ⟨p, hp, hap⟩ := Multiset.mem_bind.mp ha
  refine ⟨p, Multiset.count_eq_one_of_mem (hnodup.1 p hp) hap, fun q hne haq => ?_⟩
  by_cases hq : q ∈ places
  · exact Multiset.disjoint_left.mp (hnodup.2.forall hq hp hne) haq hap
  · rw [houtside q hq] at haq
    exact Multiset.notMem_zero a haq

theorem HeldOnceAt.mem {held : ι → Multiset α} {a : α} {p : ι} (h : HeldOnceAt held a p) :
    a ∈ held p :=
  Multiset.count_pos.mp (by rw [h.1]; exact Nat.one_pos)

theorem HeldOnceAt.eq {held : ι → Multiset α} {a : α} {p q : ι} (h : HeldOnceAt held a p)
    (hq : a ∈ held q) : q = p := by
  by_contra hne
  exact h.2 q hne hq

omit [DecidableEq α] in
/-- A place that keeps at most one token. -/
theorem mem_elim_singleton {o : Option α} {a : α} :
    a ∈ (o.elim 0 ({·}) : Multiset α) ↔ o = some a := by
  cases o with
  | none => exact iff_of_false (Multiset.notMem_zero a) (fun h => nomatch h)
  | some b => exact Multiset.mem_singleton.trans ⟨congrArg some ∘ Eq.symm, Eq.symm ∘ Option.some.inj⟩

end Custody

namespace UnorderedMap

variable {κ ν α : Type} [DecidableEq κ]

/-- The tokens in the values of a map. -/
def tokens (m : UnorderedMap κ ν) (f : ν → Multiset α) : Multiset α :=
  m.keys.val.bind fun k => (m.get? k).elim 0 f

theorem tokens_eq_add_erase (m : UnorderedMap κ ν) (f : ν → Multiset α) (k : κ) :
    m.tokens f = (m.get? k).elim 0 f + (m.keys.erase k).val.bind fun k => (m.get? k).elim 0 f := by
  by_cases hk : k ∈ m.keys
  · conv_lhs => rw [tokens, ← Multiset.cons_erase hk, Multiset.cons_bind]
    rfl
  · rw [notMem_keys.mp hk, Finset.erase_eq_of_notMem hk, Option.elim, zero_add, tokens]

theorem mem_tokens {m : UnorderedMap κ ν} {f : ν → Multiset α} {a : α} :
    a ∈ m.tokens f ↔ ∃ k v, m.get? k = some v ∧ a ∈ f v := by
  rw [tokens, Multiset.mem_bind]
  constructor
  · rintro ⟨k, _, ha⟩
    cases hk : m.get? k with
    | none =>
      rw [hk] at ha
      exact (Multiset.notMem_zero a ha).elim
    | some v =>
      rw [hk] at ha
      exact ⟨k, v, hk, ha⟩
  · rintro ⟨k, v, hk, ha⟩
    exact ⟨k, mem_keys_of_get? hk, by rwa [hk]⟩

theorem tokens_eq_zero {m : UnorderedMap κ ν} {f : ν → Multiset α}
    (h : ∀ k v, m.get? k = some v → f v = 0) : m.tokens f = 0 := by
  refine Multiset.eq_zero_iff_forall_notMem.mpr fun a ha => ?_
  obtain ⟨k, v, hk, ha⟩ := mem_tokens.mp ha
  rw [h k v hk] at ha
  exact Multiset.notMem_zero a ha

theorem le_tokens {m : UnorderedMap κ ν} {k : κ} {v : ν} (f : ν → Multiset α)
    (hk : m.get? k = some v) : f v ≤ m.tokens f := by
  rw [tokens_eq_add_erase, hk]
  exact Multiset.le_add_right _ _

/-- Maps that agree off a key differ in the tokens at that key. -/
theorem tokens_congr_off {m m' : UnorderedMap κ ν} (f : ν → Multiset α) (k : κ)
    (h : ∀ k', k' ≠ k → m'.get? k' = m.get? k') :
    m'.tokens f + (m.get? k).elim 0 f = m.tokens f + (m'.get? k).elim 0 f := by
  have hkeys : m'.keys.erase k = m.keys.erase k := by
    ext k'
    simp only [Finset.mem_erase, mem_keys]
    exact and_congr_right fun hne => by rw [h k' hne]
  have hrest : ((m'.keys.erase k).val.bind fun k => (m'.get? k).elim 0 f) =
      (m.keys.erase k).val.bind fun k => (m.get? k).elim 0 f := by
    rw [hkeys]
    exact Multiset.bind_congr fun k' hk' => by rw [h k' (Finset.ne_of_mem_erase hk')]
  rw [m'.tokens_eq_add_erase f k, m.tokens_eq_add_erase f k, hrest]
  ac_rfl

theorem tokens_set (m : UnorderedMap κ ν) (f : ν → Multiset α) (k : κ) (v : ν) :
    (m.set k v).tokens f + (m.get? k).elim 0 f = m.tokens f + f v := by
  rw [tokens_congr_off f k fun k' hne => get?_set_of_ne m v hne, get?_set_self]
  rfl

theorem tokens_erase (m : UnorderedMap κ ν) (f : ν → Multiset α) (k : κ) :
    (m.erase k).tokens f + (m.get? k).elim 0 f = m.tokens f := by
  rw [tokens_congr_off f k fun k' hne => get?_erase_of_ne m hne, get?_erase_self]
  exact add_zero _

theorem tokens_modify (m : UnorderedMap κ ν) (f : ν → Multiset α) (k : κ) (g : ν → ν) :
    (m.modify k g).tokens f + (m.get? k).elim 0 f = m.tokens f + ((m.get? k).map g).elim 0 f := by
  rw [tokens_congr_off f k fun k' hne => by rw [get?_modify, if_neg hne], get?_modify, if_pos rfl]

/-- A value gains the tokens `gained` and loses the tokens `lost`. -/
theorem tokens_modify_add {m : UnorderedMap κ ν} {f : ν → Multiset α} {k : κ} {v : ν} {g : ν → ν}
    {lost gained : Multiset α} (hk : m.get? k = some v) (h : f (g v) + lost = f v + gained) :
    (m.modify k g).tokens f + lost = m.tokens f + gained := by
  have heq := m.tokens_modify f k g
  rw [hk, Option.map_some, Option.elim, Option.elim] at heq
  apply add_right_cancel (b := f v)
  rw [add_right_comm, heq, add_assoc, h, add_right_comm, add_assoc]

/-- A change that keeps the tokens of every value. -/
theorem tokens_modify_of_eq (m : UnorderedMap κ ν) (f : ν → Multiset α) (k : κ) {g : ν → ν}
    (h : ∀ v, m.get? k = some v → f (g v) = f v) : (m.modify k g).tokens f = m.tokens f := by
  cases hk : m.get? k with
  | none =>
    have heq := m.tokens_modify f k g
    rwa [hk, Option.map_none, Option.elim, add_zero, add_zero] at heq
  | some v =>
    have heq := tokens_modify_add hk (congrArg (· + 0) (h v hk))
    rwa [add_zero, add_zero] at heq

end UnorderedMap
