import Mathlib.Logic.Basic

/-! Computations that return a new state, or fail with a fault and the state
reached so far. -/

namespace Outcome

variable {φ σ α : Type}

/-- Whichever way the computation ends, the state it ends in satisfies `P`. -/
def Ends (P : σ → Prop) : Except (φ × σ) σ → Prop
  | .ok s => P s
  | .error e => P e.2

/-- The computation reads the state `s` but does not change it: a failure leaves
`s` behind. -/
def Reads (s : σ) : Except (φ × σ) α → Prop
  | .ok _ => True
  | .error e => e.2 = s

/-- The state a computation ends in, whichever way it ends. -/
def final : Except (φ × σ) σ → σ
  | .ok s => s
  | .error e => e.2

/-- What is returned satisfies `Q`, and a failure leaves a state behind that
satisfies `P`. -/
def Gives (P : σ → Prop) (Q : α → Prop) : Except (φ × σ) α → Prop
  | .ok a => Q a
  | .error e => P e.2

/-- The computation fails with a fault of the kind `p`. -/
def Fails (p : φ → Prop) (x : Except (φ × σ) α) : Prop := ∃ e, x = .error e ∧ p e.1

@[simp] theorem ends_ok {P : σ → Prop} {s : σ} : Ends P (.ok s : Except (φ × σ) σ) ↔ P s := Iff.rfl

@[simp] theorem ends_pure {P : σ → Prop} {s : σ} : Ends P (pure s : Except (φ × σ) σ) ↔ P s :=
  Iff.rfl

@[simp] theorem ends_error {P : σ → Prop} {e : φ × σ} :
    Ends P (.error e : Except (φ × σ) σ) ↔ P e.2 :=
  Iff.rfl

@[simp] theorem reads_ok {s : σ} {a : α} : Reads s (.ok a : Except (φ × σ) α) := trivial

@[simp] theorem reads_pure {s : σ} {a : α} : Reads s (pure a : Except (φ × σ) α) := trivial

@[simp] theorem reads_error {s : σ} {e : φ × σ} : Reads s (.error e : Except (φ × σ) α) ↔ e.2 = s :=
  Iff.rfl

@[simp] theorem not_fails_ok {p : φ → Prop} {a : α} : ¬ Fails p (.ok a : Except (φ × σ) α) :=
  fun ⟨_, h, _⟩ => nomatch h

@[simp] theorem not_fails_pure {p : φ → Prop} {a : α} : ¬ Fails p (pure a : Except (φ × σ) α) :=
  not_fails_ok

@[simp] theorem fails_error {p : φ → Prop} {e : φ × σ} :
    Fails p (.error e : Except (φ × σ) α) ↔ p e.1 := by
  simp [Fails]

/-- A sequence fails where its first part fails, or else its rest. -/
theorem fails_bind {β : Type} {p : φ → Prop} {x : Except (φ × σ) α} {f : α → Except (φ × σ) β} :
    Fails p (x >>= f) ↔ Fails p x ∨ ∃ a, x = .ok a ∧ Fails p (f a) := by
  cases x with
  | ok a =>
    simp only [not_fails_ok, false_or, Except.ok.injEq, exists_eq_left']
    rfl
  | error e =>
    simp only [fails_error, reduceCtorEq, false_and, exists_false, or_false]
    exact fails_error

theorem not_fails_bind {β : Type} {p : φ → Prop} {x : Except (φ × σ) α} {f : α → Except (φ × σ) β}
    (hx : ¬ Fails p x) (hf : ∀ a, x = .ok a → ¬ Fails p (f a)) : ¬ Fails p (x >>= f) := by
  rw [fails_bind]
  rintro (hfails | ⟨a, ha, hfails⟩)
  · exact hx hfails
  · exact hf a ha hfails

theorem Ends.of_ok {P : σ → Prop} {x : Except (φ × σ) σ} {s : σ} (h : Ends P x) (hx : x = .ok s) :
    P s := by
  rwa [hx] at h

theorem Ends.mono {P Q : σ → Prop} {x : Except (φ × σ) σ} (h : Ends P x) (hPQ : ∀ s, P s → Q s) :
    Ends Q x := by
  cases x <;> exact hPQ _ h

theorem Ends.and {P Q : σ → Prop} {x : Except (φ × σ) σ} (h : Ends P x) (h' : Ends Q x) :
    Ends (fun s => P s ∧ Q s) x := by
  cases x <;> exact ⟨h, h'⟩

theorem Ends.bind {P Q : σ → Prop} {x : Except (φ × σ) σ} {f : σ → Except (φ × σ) σ} (h : Ends P x)
    (hPQ : ∀ s, P s → Q s) (hf : ∀ s, x = .ok s → P s → Ends Q (f s)) : Ends Q (x >>= f) := by
  cases x with
  | ok s => exact hf s rfl h
  | error e => exact hPQ _ h

theorem Reads.bind_ends {P : σ → Prop} {s : σ} {x : Except (φ × σ) α} {f : α → Except (φ × σ) σ}
    (h : Reads s x) (hs : P s) (hf : ∀ a, x = .ok a → Ends P (f a)) : Ends P (x >>= f) := by
  cases x with
  | ok a => exact hf a rfl
  | error e =>
    have he : e.2 = s := h
    exact ends_error.mpr (by rwa [he])

theorem Reads.bind {β : Type} {s : σ} {x : Except (φ × σ) α} {f : α → Except (φ × σ) β}
    (h : Reads s x) (hf : ∀ a, x = .ok a → Reads s (f a)) : Reads s (x >>= f) := by
  cases x with
  | ok a => exact hf a rfl
  | error e => exact h

theorem Gives.bind {β : Type} {P : σ → Prop} {Q : α → Prop} {R : β → Prop} {x : Except (φ × σ) α}
    {f : α → Except (φ × σ) β} (h : Gives P Q x) (hf : ∀ a, Q a → Gives P R (f a)) :
    Gives P R (x >>= f) := by
  cases x with
  | ok a => exact hf a h
  | error e => exact h

/-- What every step of a loop preserves holds after the loop. -/
theorem Gives.foldlM {β : Type} {P : σ → Prop} {Q : α → Prop} {f : α → β → Except (φ × σ) α}
    {l : List β} (hf : ∀ a, ∀ b ∈ l, Q a → Gives P Q (f a b)) {a : α} (h : Q a) :
    Gives P Q (l.foldlM f a) := by
  induction l generalizing a with
  | nil => exact h
  | cons b l ih =>
    obtain ⟨hb, hl⟩ := List.forall_mem_cons.mp fun b hb a => hf a b hb
    rw [List.foldlM_cons]
    exact (hb a h).bind fun a ha => ih (fun a b hb' => hl b hb' a) ha

end Outcome
