/-- A labelled transition system: initial states and steps that carry the action
taken. -/
structure TransitionSystem (σ α : Type) where
  init : σ → Prop
  step : σ → α → σ → Prop

namespace TransitionSystem

variable {σ α : Type} {T : TransitionSystem σ α}

/-- The states some finite sequence of steps leads to. -/
inductive Reachable (T : TransitionSystem σ α) : σ → Prop where
  | init {s : σ} (h : T.init s) : Reachable T s
  | step {s s' : σ} {a : α} (h : Reachable T s) (hstep : T.step s a s') : Reachable T s'

/-- A property that holds initially and that steps from reachable states keep
holds in every reachable state. -/
theorem Reachable.invariant {P : σ → Prop} (hinit : ∀ s, T.init s → P s)
    (hstep : ∀ s a s', Reachable T s → P s → T.step s a s' → P s') {s : σ} (h : Reachable T s) :
    P s := by
  induction h with
  | init h => exact hinit _ h
  | step h hs ih => exact hstep _ _ _ h ih hs

/-- A finite run from an initial state: the list of its steps, each with the
state it leaves and the state it enters, and the state it ends in. -/
inductive Run (T : TransitionSystem σ α) : List (σ × α × σ) → σ → Prop where
  | init {s : σ} (h : T.init s) : Run T [] s
  | step {steps : List (σ × α × σ)} {s s' : σ} {a : α} (h : Run T steps s) (hstep : T.step s a s') :
      Run T (steps ++ [(s, a, s')]) s'

theorem Run.reachable {steps : List (σ × α × σ)} {s : σ} (h : Run T steps s) : Reachable T s := by
  induction h with
  | init h => exact .init h
  | step _ hs ih => exact .step ih hs

theorem Reachable.exists_run {s : σ} (h : Reachable T s) : ∃ steps, Run T steps s := by
  induction h with
  | init h => exact ⟨[], .init h⟩
  | step _ hs ih =>
    obtain ⟨steps, hrun⟩ := ih
    exact ⟨_, .step hrun hs⟩

/-- When a step out of a good state ends in a good state exactly if it meets
`ok`, a run visits good states only exactly if all of its steps meet `ok`. -/
theorem Run.good_iff {P : σ → Prop} {ok : σ → α → Prop} (hinit : ∀ s, T.init s → P s)
    (hstep : ∀ s a s', Reachable T s → P s → T.step s a s' → (P s' ↔ ok s a))
    {steps : List (σ × α × σ)} {s : σ} (h : Run T steps s) :
    (P s ∧ ∀ t ∈ steps, P t.1) ↔ ∀ t ∈ steps, ok t.1 t.2.1 := by
  induction h with
  | init h => simp [hinit _ h]
  | step h hs ih =>
    rename_i steps s s' a
    simp only [List.mem_append, List.mem_singleton, or_imp, forall_and, forall_eq]
    rw [← ih]
    constructor
    · rintro ⟨hP', hP, hs'⟩
      exact ⟨⟨hs', hP⟩, (hstep _ _ _ h.reachable hs' hs).mp hP'⟩
    · rintro ⟨⟨hs', hP⟩, hok⟩
      exact ⟨(hstep _ _ _ h.reachable hs' hs).mpr hok, hP, hs'⟩

theorem Run.forall_reachable {steps : List (σ × α × σ)} {s : σ} (h : Run T steps s) :
    ∀ t ∈ steps, Reachable T t.1 ∧ T.step t.1 t.2.1 t.2.2 := by
  induction h with
  | init h => simp
  | step h hs ih =>
    simp only [List.mem_append, List.mem_singleton, or_imp, forall_and, forall_eq] at ih ⊢
    exact ⟨⟨ih.1, h.reachable⟩, ih.2, hs⟩

/-- The system that takes only the steps that meet `ok`. -/
def restrict (T : TransitionSystem σ α) (ok : σ → α → Prop) : TransitionSystem σ α where
  init := T.init
  step s a s' := T.step s a s' ∧ ok s a

theorem Reachable.of_restrict {ok : σ → α → Prop} {s : σ} (h : Reachable (T.restrict ok) s) :
    Reachable T s := by
  induction h with
  | init h => exact .init h
  | step _ hs ih => exact .step ih hs.1

/-- A run whose steps all meet `ok` visits only states that such steps reach. -/
theorem Run.reachable_restrict {ok : σ → α → Prop} {steps : List (σ × α × σ)} {s : σ}
    (h : Run T steps s) (hok : ∀ t ∈ steps, ok t.1 t.2.1) :
    Reachable (T.restrict ok) s ∧ ∀ t ∈ steps, Reachable (T.restrict ok) t.1 := by
  induction h with
  | init h => exact ⟨.init h, fun _ ht => nomatch ht⟩
  | step _ hs ih =>
    simp only [List.mem_append, List.mem_singleton, or_imp, forall_and, forall_eq] at hok ⊢
    obtain ⟨hreach, hvisited⟩ := ih hok.1
    exact ⟨.step hreach ⟨hs, hok.2⟩, hvisited, hreach⟩

/-- What holds wherever steps that meet `ok` lead holds all along a run of such
steps. -/
theorem Run.forall_of_restrict {P : σ → Prop} {ok : σ → α → Prop} {steps : List (σ × α × σ)} {s : σ}
    (h : Run T steps s) (hok : ∀ t ∈ steps, ok t.1 t.2.1)
    (hP : ∀ s, Reachable (T.restrict ok) s → P s) : P s ∧ ∀ t ∈ steps, P t.1 := by
  obtain ⟨hreach, hvisited⟩ := h.reachable_restrict hok
  exact ⟨hP s hreach, fun t ht => hP t.1 (hvisited t ht)⟩

/-- A system whose steps are steps of another one, or change nothing that the
other one shows, reaches only what the other one reaches. -/
theorem Reachable.refine {τ β : Type} {U : TransitionSystem τ β} {shown : σ → τ}
    (hinit : ∀ s, T.init s → U.init (shown s))
    (hstep : ∀ s a s', Reachable T s → T.step s a s' →
      shown s' = shown s ∨ ∃ b, U.step (shown s) b (shown s')) {s : σ} (h : Reachable T s) :
    Reachable U (shown s) := by
  induction h with
  | init h => exact .init (hinit _ h)
  | step h hs ih =>
    obtain hsame | ⟨b, hb⟩ := hstep _ _ _ h hs
    · rwa [hsame]
    · exact .step ih hb

/-- When every step is an event of another system, or changes nothing that the
other one shows, a run shows a run of the other one through its events. -/
theorem Run.events {τ β : Type} {U : TransitionSystem τ β} {shown : σ → τ}
    {event : σ × α × σ → Option β} (hinit : ∀ s, T.init s → U.init (shown s))
    (hstep : ∀ s a s', Reachable T s → T.step s a s' →
      (event (s, a, s')).elim (shown s' = shown s) fun b => U.step (shown s) b (shown s'))
    {steps : List (σ × α × σ)} {s : σ} (h : Run T steps s) :
    ∃ events, Run U events (shown s) ∧ events.map (·.2.1) = steps.filterMap event := by
  induction h with
  | init h => exact ⟨[], .init (hinit _ h), rfl⟩
  | @step steps s s' a h hs ih =>
    obtain ⟨events, hrun, hevents⟩ := ih
    have hmove := hstep s a s' h.reachable hs
    rw [List.filterMap_append, ← hevents]
    cases hevent : event (s, a, s') with
    | none =>
      rw [hevent, Option.elim] at hmove
      rw [hmove]
      exact ⟨events, hrun, by rw [List.filterMap_cons_none hevent, List.filterMap_nil, List.append_nil]⟩
    | some b =>
      rw [hevent, Option.elim] at hmove
      refine ⟨events ++ [(shown s, b, shown s')], .step hrun hmove, ?_⟩
      rw [List.filterMap_cons_some hevent, List.filterMap_nil, List.map_append, List.map_singleton]

/-- Steps that lead from one state to another. -/
inductive Path (T : TransitionSystem σ α) : σ → List (σ × α × σ) → σ → Prop where
  | nil {s : σ} : Path T s [] s
  | cons {s s' s'' : σ} {a : α} {steps : List (σ × α × σ)} (hstep : T.step s a s')
      (h : Path T s' steps s'') : Path T s ((s, a, s') :: steps) s''

section Path

variable {s s' s'' : σ} {steps more : List (σ × α × σ)}

theorem Path.single {a : α} (hstep : T.step s a s') : Path T s [(s, a, s')] s' :=
  .cons hstep .nil

theorem Path.append (h : Path T s steps s') (h' : Path T s' more s'') :
    Path T s (steps ++ more) s'' := by
  induction h with
  | nil => exact h'
  | cons hstep _ ih => exact .cons hstep (ih h')

theorem Path.reachable (h : Path T s steps s') (hreach : Reachable T s) : Reachable T s' := by
  induction h with
  | nil => exact hreach
  | cons hstep _ ih => exact ih (.step hreach hstep)

/-- A run goes on along a path. -/
theorem Run.append (h : Run T steps s) (hpath : Path T s more s') : Run T (steps ++ more) s' := by
  induction hpath generalizing steps with
  | nil => rwa [List.append_nil]
  | cons hstep _ ih =>
    have hrun := ih (.step h hstep)
    rwa [List.append_assoc] at hrun

/-- When every step of another system is an event of some path between states that
are ready for the next one, every run of the other system is shown by a run. -/
theorem Run.realize {τ β : Type} {U : TransitionSystem τ β} {shown : σ → τ} {Ready : σ → Prop}
    {event : σ × α × σ → Option β} (hinit : ∀ u, U.init u → ∃ s, T.init s ∧ Ready s ∧ shown s = u)
    (hstep : ∀ s b u, Reachable T s → Ready s → U.step (shown s) b u →
      ∃ more s', Path T s more s' ∧ Ready s' ∧ shown s' = u ∧ more.filterMap event = [b])
    {events : List (τ × β × τ)} {u : τ} (h : Run U events u) :
    ∃ steps s, Run T steps s ∧ Ready s ∧ shown s = u ∧
      steps.filterMap event = events.map (·.2.1) := by
  induction h with
  | init hstart =>
    obtain ⟨s, hs, hready, rfl⟩ := hinit _ hstart
    exact ⟨[], s, .init hs, hready, rfl, rfl⟩
  | step _ hb ih =>
    obtain ⟨steps, s, hrun, hready, rfl, hevents⟩ := ih
    obtain ⟨more, s', hpath, hready', rfl, hmore⟩ := hstep s _ _ hrun.reachable hready hb
    refine ⟨steps ++ more, s', hrun.append hpath, hready', rfl, ?_⟩
    rw [List.filterMap_append, hevents, hmore, List.map_append, List.map_singleton]

end Path

/-- Takes actions one after another, as long as they are possible. -/
def runActions (step : σ → α → Option σ) : List α → σ → Option σ
  | [], s => some s
  | a :: actions, s => (step s a).bind (runActions step actions)

/-- What a step function reaches is reachable in the system of its steps. -/
theorem Reachable.of_runActions {step : σ → α → Option σ}
    (hT : ∀ s a s', step s a = some s' → T.step s a s') {actions : List α} {s s' : σ}
    (h : Reachable T s) (hrun : runActions step actions s = some s') : Reachable T s' := by
  induction actions generalizing s with
  | nil =>
    cases hrun
    exact h
  | cons a actions ih =>
    obtain ⟨t, ht, hrun⟩ := Option.bind_eq_some_iff.mp hrun
    exact ih (.step h (hT _ _ _ ht)) hrun

/-- A run that can be evaluated shows that a state with the property `p` is
reachable. -/
theorem exists_reachable_of_any {step : σ → α → Option σ}
    (hT : ∀ s a s', step s a = some s' → T.step s a s') {start : Option σ}
    (hstart : ∀ s, start = some s → T.init s) {actions : List α} {p : σ → Bool}
    (h : (start.bind (runActions step actions)).any p = true) :
    ∃ s, Reachable T s ∧ p s = true := by
  obtain ⟨s, hs, hp⟩ := (Option.any_eq_true ..).mp h
  obtain ⟨s₀, hs₀, hrun⟩ := Option.bind_eq_some_iff.mp hs
  exact ⟨s, .of_runActions hT (.init (hstart s₀ hs₀)) hrun, hp⟩

/-- Takes actions one after another and keeps the steps. -/
def traceActions (step : σ → α → Option σ) : List α → σ → Option (List (σ × α × σ) × σ)
  | [], s => some ([], s)
  | a :: actions, s => (step s a).bind fun s' =>
    (traceActions step actions s').map fun trace => ((s, a, s') :: trace.1, trace.2)

theorem Run.of_traceActions {step : σ → α → Option σ}
    (hT : ∀ s a s', step s a = some s' → T.step s a s') {actions : List α}
    {steps steps' : List (σ × α × σ)} {s s' : σ} (h : Run T steps s)
    (htrace : traceActions step actions s = some (steps', s')) : Run T (steps ++ steps') s' := by
  induction actions generalizing steps steps' s with
  | nil =>
    cases htrace
    rwa [List.append_nil]
  | cons a actions ih =>
    obtain ⟨t, ht, htrace⟩ := Option.bind_eq_some_iff.mp htrace
    obtain ⟨⟨later, _⟩, hlater, heq⟩ := Option.map_eq_some_iff.mp htrace
    cases heq
    have hrun := ih (.step h (hT _ _ _ ht)) hlater
    rwa [List.append_assoc] at hrun

/-- A trace that can be evaluated is a run. -/
theorem exists_run_of_any {step : σ → α → Option σ}
    (hT : ∀ s a s', step s a = some s' → T.step s a s') {start : Option σ}
    (hstart : ∀ s, start = some s → T.init s) {actions : List α}
    {p : List (σ × α × σ) × σ → Bool}
    (h : (start.bind (traceActions step actions)).any p = true) :
    ∃ steps s, Run T steps s ∧ p (steps, s) = true := by
  obtain ⟨⟨steps, s⟩, hs, hp⟩ := (Option.any_eq_true ..).mp h
  obtain ⟨s₀, hs₀, htrace⟩ := Option.bind_eq_some_iff.mp hs
  exact ⟨steps, s, .of_traceActions hT (.init (hstart s₀ hs₀)) htrace, hp⟩

end TransitionSystem
