import Mathlib.Data.Set.Function

/-! Bearers of names. The name `anonymous` stands for no name and may be borne by many. -/

namespace Naming

variable {κ ν : Type} {anonymous : ν} {bearers bearers' : Set (κ × ν)}

/-- The bearers who have a name. -/
def named (anonymous : ν) (bearers : Set (κ × ν)) : Set (κ × ν) :=
  {b | b ∈ bearers ∧ b.2 ≠ anonymous}

/-- No two bearers have the same name. -/
def Unique (anonymous : ν) (bearers : Set (κ × ν)) : Prop :=
  (named anonymous bearers).InjOn Prod.snd

theorem Unique.eq (h : Unique anonymous bearers) {k k' : κ} {name : ν} (hk : (k, name) ∈ bearers)
    (hk' : (k', name) ∈ bearers) (hne : name ≠ anonymous) : k = k' :=
  congrArg Prod.fst (h ⟨hk, hne⟩ ⟨hk', hne⟩ rfl)

/-- Nobody is given a name. -/
theorem Unique.mono (h : Unique anonymous bearers)
    (hle : ∀ b ∈ bearers', b.2 ≠ anonymous → b ∈ bearers) : Unique anonymous bearers' := by
  have hnamed : named anonymous bearers' ⊆ named anonymous bearers :=
    fun b hb => ⟨hle b hb.1 hb.2, hb.2⟩
  exact Set.InjOn.mono hnamed h

/-- Somebody is given a name that nobody has. -/
theorem Unique.give (h : Unique anonymous bearers) (k : κ) {name : ν}
    (hfree : ∀ b ∈ bearers, b.2 ≠ anonymous → b.2 ≠ name)
    (hle : ∀ b ∈ bearers', b.2 ≠ anonymous → b = (k, name) ∨ b ∈ bearers) :
    Unique anonymous bearers' := by
  intro b hb b' hb' hname
  obtain rfl | hmem := hle b hb.1 hb.2
  · obtain rfl | hmem' := hle b' hb'.1 hb'.2
    · rfl
    · exact (hfree b' hmem' hb'.2 hname.symm).elim
  · obtain rfl | hmem' := hle b' hb'.1 hb'.2
    · exact (hfree b hmem hb.2 hname).elim
    · exact h ⟨hmem, hb.2⟩ ⟨hmem', hb'.2⟩ hname

end Naming
