import UpsServer.Linux.QueueThreads

namespace UpsServer

/-- An operation on a queue, with the thread that pushes or the result for the
consumer. -/
inductive QueueOp (ι α : Type) where
  | push (i : ι) (item : α)
  | isEmpty (empty : Bool)
  | pop (item : α)
  | eventfdRead
deriving DecidableEq

namespace QueueOp

variable {ι α : Type}

/-- An operation that takes effect at once. A push is that of `EventfdQueue.push` by
`step_push`. -/
inductive Step : EventfdQueue α → QueueOp ι α → EventfdQueue α → Prop where
  | push {q : EventfdQueue α} {i : ι} {item : α} : Step q (.push i item) (q.store item).eventfdWrite
  | isEmpty {q : EventfdQueue α} : Step q (.isEmpty q.isEmpty) q
  | pop {q q' : EventfdQueue α} {item : α} (h : q.pop = some (item, q')) : Step q (.pop item) q'
  | eventfdRead {q : EventfdQueue α} : Step q .eventfdRead q.eventfdRead

/-- As long as the counter is not at its largest value, this is the `push` of the
queue. -/
theorem step_push {q : EventfdQueue α} (h : q.counter < EventfdQueue.EVENTFD_MAX) (i : ι) (item : α) :
    Step q (.push i item) (q.push item) := by
  rw [EventfdQueue.push_eq q item h]
  exact .push

/-- Runs of a queue that is used by one thread at a time. -/
def system (ι α : Type) : TransitionSystem (EventfdQueue α) (QueueOp ι α) where
  init q := ∃ evfd, q = { evfd := evfd }
  step := Step

/-- The items that a producer pushes. -/
def pushedBy [DecidableEq ι] (i : ι) : QueueOp ι α → List α
  | .push j item => if j = i then [item] else []
  | _ => []

end QueueOp

def PushPc.isStored {α : Type} : PushPc α → Bool
  | .stored => true
  | _ => false

namespace QueueThreads

variable {ι α : Type}

/-- The queue without the item whose signal is yet to come. -/
def atomic (s : QueueThreads ι α) : EventfdQueue α :=
  match s.mutex with
  | some (.producer i) =>
    if (s.producers i).isStored then { s.queue with data := s.queue.data.dropLast } else s.queue
  | _ => s.queue

/-- The item of a call of `push` that has not taken effect. -/
def inFlight (s : QueueThreads ι α) (i : ι) : List α :=
  match s.producers i with
  | .locking item | .locked item => [item]
  | .stored => s.queue.data.getLast?.toList
  | _ => []

variable [DecidableEq ι]

/-- The operation that takes effect in a step. The results are those that the
consumer is given. -/
def op : QueueThreads ι α × QueueAction ι α × QueueThreads ι α → Option (QueueOp ι α)
  | (s, .signal i, _) => s.queue.data.getLast?.map (.push i)
  | (_, .test, s') =>
    match s'.consumer with
    | .tested empty => some (.isEmpty empty)
    | _ => none
  | (_, .pop, s') =>
    match s'.consumer with
    | .popped item => some (.pop item)
    | _ => none
  | (_, .readCounter, _) => some .eventfdRead
  | _ => none

/-- The items that a producer calls `push` with. -/
def calledBy (i : ι) : QueueThreads ι α × QueueAction ι α × QueueThreads ι α → List α
  | (_, .callPush j item, _) => if j = i then [item] else []
  | _ => []

variable {s s' : QueueThreads ι α} {action : QueueAction ι α} {i : ι}

private theorem isStored_setProducer {pc : PushPc α} (hpc : pc.isStored = (s.producers i).isStored) (j : ι) :
    ((s.setProducer i pc).producers j).isStored = (s.producers j).isStored := by
  change (Function.update s.producers i pc j).isStored = (s.producers j).isStored
  by_cases hj : j = i
  · subst hj
    rw [Function.update_self, hpc]
  · rw [Function.update_of_ne hj]

omit [DecidableEq ι] in
private theorem eq_stored_of_isStored (h : (s.producers i).isStored = true) : s.producers i = .stored := by
  unfold PushPc.isStored at h
  split at h
  · assumption
  · cases h

omit [DecidableEq ι] in
theorem Invariant.mutex_of_isStored (h : s.Invariant) (hi : (s.producers i).isStored = true) :
    s.mutex = some (.producer i) := by
  apply (h.mutex (.producer i)).mp
  rw [HoldsMutex, eq_stored_of_isStored hi]
  trivial

omit [DecidableEq ι] in
theorem Invariant.not_isStored_of_consumer (h : s.Invariant) (hconsumer : s.consumer.holdsMutex) (i : ι) :
    (s.producers i).isStored = false := by
  rw [Bool.eq_false_iff]
  intro hi
  cases ((h.mutex .consumer).mp hconsumer).symm.trans (h.mutex_of_isStored hi)

omit [DecidableEq ι] in
theorem Invariant.not_isStored_of_producer (h : s.Invariant) (hholds : (s.producers i).holdsMutex)
    (hnot : (s.producers i).isStored = false) (j : ι) : (s.producers j).isStored = false := by
  rw [Bool.eq_false_iff]
  intro hj
  have hsame := ((h.mutex (.producer i)).mp hholds).symm.trans (h.mutex_of_isStored hj)
  cases hsame
  rw [hnot] at hj
  cases hj

omit [DecidableEq ι] in
private theorem atomic_of_none (h : ∀ i, (s.producers i).isStored = false) : s.atomic = s.queue := by
  unfold atomic
  split
  · rw [h, if_neg Bool.false_ne_true]
  · rfl

omit [DecidableEq ι] in
theorem Invariant.atomic_of_isStored (h : s.Invariant) (hi : (s.producers i).isStored = true) :
    s.atomic = { s.queue with data := s.queue.data.dropLast } := by
  rw [atomic, h.mutex_of_isStored hi]
  simp only [hi, if_true]

omit [DecidableEq ι] in
/-- While nobody is in the middle of a push. -/
theorem step_of_none (hnone : ∀ i, (s.producers i).isStored = false) (hproducers : s'.producers = s.producers)
    {operation : QueueOp ι α} (h : QueueOp.Step s.queue operation s'.queue) :
    QueueOp.Step s.atomic operation s'.atomic := by
  rw [atomic_of_none hnone, atomic_of_none (by rwa [hproducers])]
  exact h

omit [DecidableEq ι] in
/-- A step that stores nothing and signals nothing. -/
theorem atomic_congr (h : s.Invariant) (h' : s'.Invariant)
    (hstored : ∀ i, (s'.producers i).isStored = (s.producers i).isStored) (f : EventfdQueue α → EventfdQueue α)
    (hqueue : s'.queue = f s.queue)
    (hf : f { s.queue with data := s.queue.data.dropLast } =
      { f s.queue with data := (f s.queue).data.dropLast }) : s'.atomic = f s.atomic := by
  by_cases hany : ∃ i, (s.producers i).isStored = true
  · obtain ⟨i, hi⟩ := hany
    rw [h.atomic_of_isStored hi, h'.atomic_of_isStored ((hstored i).trans hi), hqueue, hf]
  · have hnone : ∀ i, (s.producers i).isStored = false := fun i =>
      Bool.eq_false_iff.mpr fun hi => hany ⟨i, hi⟩
    rw [atomic_of_none hnone, atomic_of_none fun i => (hstored i).trans (hnone i), hqueue]

/-- An item that has been stored is there until it is signalled. -/
theorem data_ne_nil_step (h : s.Invariant) (hdata : ∀ i, (s.producers i).isStored = true → s.queue.data ≠ [])
    (heffect : Effect s action s') (i : ι) (hi : (s'.producers i).isStored = true) :
    s'.queue.data ≠ [] := by
  cases heffect with
  | @callPush j _ hpc | @lockPush j _ hpc | @unlockPush j hpc =>
    exact hdata i ((isStored_setProducer (by rw [hpc]; rfl) i).symm.trans hi)
  | store => exact List.append_ne_nil_of_right_ne_nil _ (List.cons_ne_nil _ _)
  | @signal j hpc =>
    rw [EventfdQueue.data_eventfdWrite]
    exact hdata j (by rw [hpc]; rfl)
  | wake | readCounter | lockTest | test | leave | stay | lockPop | unlockPop | handled => exact hdata i hi
  | pop hpc =>
    have hnot := h.not_isStored_of_consumer (by rw [hpc]; trivial) i
    cases hnot.symm.trans hi

theorem data_ne_nil_of_reachable (h : (system ι α).Reachable s) :
    ∀ i, (s.producers i).isStored = true → s.queue.data ≠ [] := by
  induction h with
  | init h =>
    obtain ⟨evfd, rfl⟩ := h
    intro i hi
    cases hi
  | step hreach hstep ih => exact data_ne_nil_step (invariant_of_reachable hreach) ih (effect_of_step hstep)

theorem atomic_step (hreach : (system ι α).Reachable s) (hstep : s.step action = some s') :
    (op (s, action, s')).elim (s'.atomic = s.atomic) (QueueOp.Step s.atomic · s'.atomic) := by
  have h := invariant_of_reachable hreach
  have h' := h.step hstep
  have hsilent : (∀ i, (s'.producers i).isStored = (s.producers i).isStored) → s'.queue = s.queue →
      s'.atomic = s.atomic := fun hstored hqueue => atomic_congr h h' hstored id hqueue rfl
  cases effect_of_step hstep with
  | @callPush j _ hpc | @lockPush j _ hpc | @unlockPush j hpc =>
    exact hsilent (isStored_setProducer (by rw [hpc]; rfl)) rfl
  | wake | lockTest | leave | stay | lockPop | unlockPop | handled => exact hsilent (fun _ => rfl) rfl
  | @store j item hpc =>
    have hnone := h.not_isStored_of_producer (i := j) (by rw [hpc]; trivial) (by rw [hpc]; rfl)
    have hstored : ((s.setProducer j .stored).producers j).isStored = true := by
      change (Function.update s.producers j .stored j).isStored = true
      rw [Function.update_self]
      rfl
    rw [atomic_of_none hnone]
    change QueueThreads.atomic _ = s.queue
    rw [h'.atomic_of_isStored hstored]
    change { s.queue with data := (s.queue.data ++ [item]).dropLast } = s.queue
    rw [List.dropLast_concat]
  | @signal j hpc =>
    have hstored : (s.producers j).isStored = true := by rw [hpc]; rfl
    have hsignalled : (s.setProducer j .signalled).producers j = .signalled :=
      Function.update_self j _ s.producers
    have hnone := h'.not_isStored_of_producer (i := j)
      (by change ((s.setProducer j .signalled).producers j).holdsMutex; rw [hsignalled]; trivial)
      (by change ((s.setProducer j .signalled).producers j).isStored = false; rw [hsignalled]; rfl)
    obtain ⟨data, item, hdata⟩ :=
      (List.eq_nil_or_concat s.queue.data).resolve_left (data_ne_nil_of_reachable hreach j hstored)
    have hitem : s.atomic.store item = s.queue := by
      rw [h.atomic_of_isStored hstored, EventfdQueue.store]
      simp only [hdata, List.concat_eq_append, List.dropLast_concat]
      rw [← List.concat_eq_append, ← hdata]
    rw [atomic_of_none hnone]
    simp only [op, hdata, List.concat_eq_append, List.getLast?_concat, Option.map_some, Option.elim]
    rw [← hitem]
    exact .push
  | readCounter =>
    have hread : QueueThreads.atomic _ = _ := atomic_congr h h' (fun _ => rfl) EventfdQueue.eventfdRead rfl rfl
    change QueueOp.Step s.atomic .eventfdRead _
    rw [hread]
    exact .eventfdRead
  | test hpc =>
    exact step_of_none (h.not_isStored_of_consumer (by rw [hpc]; trivial)) rfl .isEmpty
  | @pop item data hpc hdata =>
    change QueueOp.Step s.atomic (.pop item) (QueueThreads.atomic _)
    exact step_of_none (h.not_isStored_of_consumer (by rw [hpc]; trivial)) (by rfl)
      (.pop (EventfdQueue.pop_eq_some.mpr ⟨_, hdata, rfl⟩))

omit [DecidableEq ι] in
/-- Only an item that has been stored is known by the queue. -/
theorem inFlight_congr (hpc : s'.producers i = s.producers i) (hnot : (s.producers i).isStored = false) :
    s'.inFlight i = s.inFlight i := by
  rw [inFlight, inFlight, hpc]
  cases hcase : s.producers i with
  | stored =>
    rw [hcase] at hnot
    cases hnot
  | outside | locking | locked | signalled => rfl

/-- What a producer has called `push` with has taken effect, or is in flight. -/
theorem inFlight_step (hreach : (system ι α).Reachable s) (hstep : s.step action = some s') (i : ι) :
    s.inFlight i ++ calledBy i (s, action, s') =
      (op (s, action, s')).toList.flatMap (QueueOp.pushedBy i) ++ s'.inFlight i := by
  have h := invariant_of_reachable hreach
  cases effect_of_step hstep with
  | @callPush j item hpc =>
    by_cases hj : j = i
    · subst hj
      simp [inFlight, setProducer, hpc, calledBy, op]
    · simp [inFlight, setProducer, calledBy, op, hj, Function.update_of_ne (Ne.symm hj)]
  | @lockPush j item hpc | @unlockPush j hpc =>
    by_cases hj : j = i
    · subst hj
      simp [inFlight, setProducer, hpc, calledBy, op]
    · simp [inFlight, setProducer, calledBy, op, Function.update_of_ne (Ne.symm hj)]
  | @store j item hpc =>
    by_cases hj : j = i
    · subst hj
      simp [inFlight, setProducer, hpc, calledBy, op]
    · have hnot := h.not_isStored_of_producer (i := j) (by rw [hpc]; trivial) (by rw [hpc]; rfl) i
      have hsame : ({ s.setProducer j .stored with queue := s.queue.store item } :
          QueueThreads ι α).inFlight i = s.inFlight i :=
        inFlight_congr (Function.update_of_ne (Ne.symm hj) _ _) hnot
      rw [hsame]
      simp [calledBy, op]
  | @signal j hpc =>
    have hstored : (s.producers j).isStored = true := by rw [hpc]; rfl
    obtain ⟨data, item, hdata⟩ :=
      (List.eq_nil_or_concat s.queue.data).resolve_left (data_ne_nil_of_reachable hreach j hstored)
    by_cases hj : j = i
    · subst hj
      simp [inFlight, setProducer, hpc, calledBy, op, QueueOp.pushedBy, hdata]
    · have hnot : (s.producers i).isStored = false := by
        rw [Bool.eq_false_iff]
        intro hi
        cases (h.mutex_of_isStored hstored).symm.trans (h.mutex_of_isStored hi)
        exact hj rfl
      have hsame : ({ s.setProducer j .signalled with queue := s.queue.eventfdWrite } :
          QueueThreads ι α).inFlight i = s.inFlight i :=
        inFlight_congr (Function.update_of_ne (Ne.symm hj) _ _) hnot
      rw [hsame]
      simp [calledBy, op, QueueOp.pushedBy, hdata, hj]
  | wake | lockTest | leave | stay | lockPop | unlockPop | handled | readCounter | test hpc =>
    simp [calledBy, op, QueueOp.pushedBy, inFlight]
  | @pop item data hpc hdata =>
    have hnot := h.not_isStored_of_consumer (by rw [hpc]; trivial) i
    have hsame : ({ s with queue := { s.queue with data := data }, consumer := .popped item } :
        QueueThreads ι α).inFlight i = s.inFlight i := inFlight_congr rfl hnot
    rw [hsame]
    simp [calledBy, op, QueueOp.pushedBy]

theorem calls_of_run {steps : List (QueueThreads ι α × QueueAction ι α × QueueThreads ι α)}
    (h : (system ι α).Run steps s) (i : ι) : steps.flatMap (calledBy i) =
      (steps.filterMap op).flatMap (QueueOp.pushedBy i) ++ s.inFlight i := by
  induction h with
  | init h =>
    obtain ⟨evfd, rfl⟩ := h
    rfl
  | @step steps s s' action h hstep ih =>
    have hlast : [(s, action, s')].filterMap op = (op (s, action, s')).toList := by
      rw [List.filterMap_cons]
      cases op (s, action, s') <;> rfl
    rw [List.flatMap_append, List.filterMap_append, List.flatMap_append, ih, List.flatMap_singleton,
      List.append_assoc, inFlight_step h.reachable hstep, hlast, List.append_assoc]

/-- Every run of the threads is a run of a queue whose operations take effect at
once, each between its call and its return and with the result it returns: what a
producer has called `push` with has been pushed in the order of his calls, but for
a call that is on its way. -/
theorem linearizes_of_run {steps : List (QueueThreads ι α × QueueAction ι α × QueueThreads ι α)}
    (h : (system ι α).Run steps s) :
    ∃ operations, (QueueOp.system ι α).Run operations s.atomic ∧
      operations.map (·.2.1) = steps.filterMap op ∧
      ∀ i, steps.flatMap (calledBy i) =
        (steps.filterMap op).flatMap (QueueOp.pushedBy i) ++ s.inFlight i := by
  have hinit : ∀ s, (system ι α).init s → (QueueOp.system ι α).init s.atomic := by
    rintro s ⟨evfd, rfl⟩
    exact ⟨evfd, rfl⟩
  obtain ⟨operations, hrun, hoperations⟩ :=
    h.events (U := QueueOp.system ι α) hinit fun _ _ _ hreach hstep => atomic_step hreach hstep
  exact ⟨operations, hrun, hoperations, calls_of_run h⟩

/-- The consumer reads the counter while an item is stored but not signalled, and
another producer is about to push. -/
def readDuringPush : List (QueueAction Bool Nat) :=
  [.callPush true 7, .lockPush true, .store true, .wake, .callPush false 8, .readCounter, .signal true,
    .unlockPush true, .lockTest, .test, .unlockTest, .lockPop, .pop, .unlockPop]

theorem linearizes_of_run_readDuringPush :
    ∃ (steps : List (QueueThreads Bool Nat × QueueAction Bool Nat × QueueThreads Bool Nat))
      (s : QueueThreads Bool Nat), (system Bool Nat).Run steps s ∧
      steps.filterMap op = [.eventfdRead, .push true 7, .isEmpty false, .pop 7] ∧
      s.inFlight false = [8] ∧ ∃ operations, (QueueOp.system Bool Nat).Run operations s.atomic ∧
        operations.map (·.2.1) = steps.filterMap op := by
  have hcheck : ((some ({ queue := { evfd := 5 } } : QueueThreads Bool Nat)).bind
      (TransitionSystem.traceActions step readDuringPush)).any
        (fun trace => decide (trace.1.filterMap op =
          [.eventfdRead, .push true 7, .isEmpty false, .pop 7]) &&
          decide (trace.2.inFlight false = [8])) = true := by
    decide +kernel
  obtain ⟨steps, s, hrun, hstate⟩ := TransitionSystem.exists_run_of_any (T := system Bool Nat)
    (fun _ _ _ => id) (fun _ hs => ⟨5, (Option.some.inj hs).symm⟩) hcheck
  rw [Bool.and_eq_true, decide_eq_true_iff, decide_eq_true_iff] at hstate
  obtain ⟨operations, hoperations, hlabels, _⟩ := linearizes_of_run hrun
  exact ⟨steps, s, hrun, hstate.1, hstate.2, operations, hoperations, hlabels⟩

end QueueThreads

end UpsServer
