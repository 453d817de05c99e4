import Mathlib.Logic.Function.Basic
import UpsServer.Lib.Transition
import UpsServer.Linux.EventfdQueue

namespace UpsServer

namespace EventfdQueue

variable {α : Type}

/-- The largest value of the counter of an eventfd. -/
def EVENTFD_MAX : Nat := 0xfffffffffffffffe

/-- The part of `push` before the signal. -/
def store (q : EventfdQueue α) (item : α) : EventfdQueue α := { q with data := q.data ++ [item] }

/-- `eventfd_write` of 1. At its largest value the counter stays as it is. -/
def eventfdWrite (q : EventfdQueue α) : EventfdQueue α :=
  if q.counter < EVENTFD_MAX then { q with counter := q.counter + 1 } else q

@[simp] theorem data_store (q : EventfdQueue α) (item : α) : (q.store item).data = q.data ++ [item] :=
  rfl

@[simp] theorem counter_store (q : EventfdQueue α) (item : α) : (q.store item).counter = q.counter :=
  rfl

@[simp] theorem data_eventfdWrite (q : EventfdQueue α) : q.eventfdWrite.data = q.data := by
  unfold eventfdWrite
  split <;> rfl

@[simp] theorem data_eventfdRead (q : EventfdQueue α) : q.eventfdRead.data = q.data := rfl

private theorem counter_eventfdWrite_pos (q : EventfdQueue α) : 0 < q.eventfdWrite.counter := by
  unfold eventfdWrite
  split
  · exact Nat.succ_pos _
  · rename_i hmax
    exact Nat.lt_of_lt_of_le (by decide) (Nat.le_of_not_lt hmax)

theorem push_eq (q : EventfdQueue α) (item : α) (h : q.counter < EVENTFD_MAX) :
    q.push item = (q.store item).eventfdWrite := by
  rw [eventfdWrite, counter_store, if_pos h]
  rfl

end EventfdQueue

/-- Where a producer is: not in `push`, or in a call with or without the mutex. -/
inductive PushPc (α : Type) where
  | outside
  | locking (item : α)
  | locked (item : α)
  | stored
  | signalled

/-- Where the consumer is: waiting for events, or in its handler, which reads the
counter and then calls `isEmpty` and `pop` in turn. -/
inductive HandlerPc (α : Type) where
  | outside
  | woken
  | lockingTest
  | lockedTest
  | tested (empty : Bool)
  | lockingPop
  | lockedPop
  | popped (item : α)
  | handling (item : α)

inductive QueueThread (ι : Type) where
  | producer (i : ι)
  | consumer

/-- A queue with its mutex and the threads that use it. -/
structure QueueThreads (ι α : Type) where
  queue : EventfdQueue α
  mutex : Option (QueueThread ι) := none
  producers : ι → PushPc α := fun _ => .outside
  consumer : HandlerPc α := .outside

inductive QueueAction (ι α : Type) where
  | callPush (i : ι) (item : α)
  | lockPush (i : ι)
  | store (i : ι)
  | signal (i : ι)
  | unlockPush (i : ι)
  | wake
  | readCounter
  | lockTest
  | test
  | unlockTest
  | lockPop
  | pop
  | unlockPop
  | handled

namespace PushPc

variable {α : Type}

def holdsMutex : PushPc α → Prop
  | .locked _ | .stored | .signalled => True
  | _ => False

/-- The item is in the queue and its signal is yet to come. -/
def owesSignal : PushPc α → Prop
  | .stored => True
  | _ => False

end PushPc

namespace HandlerPc

variable {α : Type}

def holdsMutex : HandlerPc α → Prop
  | .lockedTest | .tested _ | .lockedPop | .popped _ => True
  | _ => False

/-- The handler goes on to call `isEmpty`. -/
def willTest : HandlerPc α → Prop
  | .outside => False
  | .tested empty => empty = false
  | _ => True

/-- `isEmpty` has found an item, which is not popped yet. -/
def willPop : HandlerPc α → Prop
  | .tested empty => empty = false
  | .lockingPop | .lockedPop => True
  | _ => False

end HandlerPc

namespace QueueThreads

variable {ι α : Type} [DecidableEq ι]

def setProducer (s : QueueThreads ι α) (i : ι) (pc : PushPc α) : QueueThreads ι α :=
  { s with producers := Function.update s.producers i pc }

@[simp] theorem queue_setProducer (s : QueueThreads ι α) (i : ι) (pc : PushPc α) :
    (s.setProducer i pc).queue = s.queue := rfl

/-- The steps of the threads. The mutex is held by one of them at a time, and the
counter is read without it. Nothing is assumed about when the consumer is woken. -/
def step (s : QueueThreads ι α) : QueueAction ι α → Option (QueueThreads ι α)
  | .callPush i item =>
    match s.producers i with
    | .outside => some (s.setProducer i (.locking item))
    | _ => none
  | .lockPush i =>
    match s.producers i, s.mutex with
    | .locking item, none => some { s.setProducer i (.locked item) with mutex := some (.producer i) }
    | _, _ => none
  | .store i =>
    match s.producers i with
    | .locked item => some { s.setProducer i .stored with queue := s.queue.store item }
    | _ => none
  | .signal i =>
    match s.producers i with
    | .stored => some { s.setProducer i .signalled with queue := s.queue.eventfdWrite }
    | _ => none
  | .unlockPush i =>
    match s.producers i with
    | .signalled => some { s.setProducer i .outside with mutex := none }
    | _ => none
  | .wake =>
    match s.consumer with
    | .outside => some { s with consumer := .woken }
    | _ => none
  | .readCounter =>
    match s.consumer with
    | .woken => some { s with queue := s.queue.eventfdRead, consumer := .lockingTest }
    | _ => none
  | .lockTest =>
    match s.consumer, s.mutex with
    | .lockingTest, none => some { s with mutex := some .consumer, consumer := .lockedTest }
    | _, _ => none
  | .test =>
    match s.consumer with
    | .lockedTest => some { s with consumer := .tested s.queue.isEmpty }
    | _ => none
  | .unlockTest =>
    match s.consumer with
    | .tested empty =>
      some { s with mutex := none, consumer := if empty = true then .outside else .lockingPop }
    | _ => none
  | .lockPop =>
    match s.consumer, s.mutex with
    | .lockingPop, none => some { s with mutex := some .consumer, consumer := .lockedPop }
    | _, _ => none
  | .pop =>
    match s.consumer with
    | .lockedPop => s.queue.pop.map fun (item, queue) =>
      { s with queue := queue, consumer := .popped item }
    | _ => none
  | .unlockPop =>
    match s.consumer with
    | .popped item => some { s with mutex := none, consumer := .handling item }
    | _ => none
  | .handled =>
    match s.consumer with
    | .handling _ => some { s with consumer := .lockingTest }
    | _ => none

/-- What a step finds and what it leaves. -/
inductive Effect (s : QueueThreads ι α) : QueueAction ι α → QueueThreads ι α → Prop where
  | callPush {i : ι} {item : α} (hpc : s.producers i = .outside) :
      Effect s (.callPush i item) (s.setProducer i (.locking item))
  | lockPush {i : ι} {item : α} (hpc : s.producers i = .locking item) (hfree : s.mutex = none) :
      Effect s (.lockPush i) { s.setProducer i (.locked item) with mutex := some (.producer i) }
  | store {i : ι} {item : α} (hpc : s.producers i = .locked item) :
      Effect s (.store i) { s.setProducer i .stored with queue := s.queue.store item }
  | signal {i : ι} (hpc : s.producers i = .stored) :
      Effect s (.signal i) { s.setProducer i .signalled with queue := s.queue.eventfdWrite }
  | unlockPush {i : ι} (hpc : s.producers i = .signalled) :
      Effect s (.unlockPush i) { s.setProducer i .outside with mutex := none }
  | wake (hpc : s.consumer = .outside) : Effect s .wake { s with consumer := .woken }
  | readCounter (hpc : s.consumer = .woken) :
      Effect s .readCounter { s with queue := s.queue.eventfdRead, consumer := .lockingTest }
  | lockTest (hpc : s.consumer = .lockingTest) (hfree : s.mutex = none) :
      Effect s .lockTest { s with mutex := some .consumer, consumer := .lockedTest }
  | test (hpc : s.consumer = .lockedTest) :
      Effect s .test { s with consumer := .tested s.queue.isEmpty }
  | leave (hpc : s.consumer = .tested true) :
      Effect s .unlockTest { s with mutex := none, consumer := .outside }
  | stay (hpc : s.consumer = .tested false) :
      Effect s .unlockTest { s with mutex := none, consumer := .lockingPop }
  | lockPop (hpc : s.consumer = .lockingPop) (hfree : s.mutex = none) :
      Effect s .lockPop { s with mutex := some .consumer, consumer := .lockedPop }
  | pop {item : α} {data : List α} (hpc : s.consumer = .lockedPop)
      (hdata : s.queue.data = item :: data) :
      Effect s .pop { s with queue := { s.queue with data := data }, consumer := .popped item }
  | unlockPop {item : α} (hpc : s.consumer = .popped item) :
      Effect s .unlockPop { s with mutex := none, consumer := .handling item }
  | handled {item : α} (hpc : s.consumer = .handling item) :
      Effect s .handled { s with consumer := .lockingTest }

theorem effect_of_step {s s' : QueueThreads ι α} {action : QueueAction ι α}
    (h : s.step action = some s') : Effect s action s' := by
  cases action with
  | callPush i item =>
    simp only [step] at h
    split at h <;> cases h
    exact .callPush ‹_›
  | lockPush i =>
    simp only [step] at h
    split at h <;> cases h
    exact .lockPush ‹_› ‹_›
  | store i =>
    simp only [step] at h
    split at h <;> cases h
    exact .store ‹_›
  | signal i =>
    simp only [step] at h
    split at h <;> cases h
    exact .signal ‹_›
  | unlockPush i =>
    simp only [step] at h
    split at h <;> cases h
    exact .unlockPush ‹_›
  | wake =>
    simp only [step] at h
    split at h <;> cases h
    exact .wake ‹_›
  | readCounter =>
    simp only [step] at h
    split at h <;> cases h
    exact .readCounter ‹_›
  | lockTest =>
    simp only [step] at h
    split at h <;> cases h
    exact .lockTest ‹_› ‹_›
  | test =>
    simp only [step] at h
    split at h <;> cases h
    exact .test ‹_›
  | unlockTest =>
    simp only [step] at h
    split at h <;> cases h
    rename_i empty hpc
    cases empty with
    | false => exact .stay hpc
    | true => exact .leave hpc
  | lockPop =>
    simp only [step] at h
    split at h <;> cases h
    exact .lockPop ‹_› ‹_›
  | pop =>
    simp only [step] at h
    split at h
    · obtain ⟨⟨item, queue⟩, hpop, rfl⟩ := Option.map_eq_some_iff.mp h
      obtain ⟨data, hdata, rfl⟩ := EventfdQueue.pop_eq_some.mp hpop
      exact .pop ‹_› hdata
    · cases h
  | unlockPop =>
    simp only [step] at h
    split at h <;> cases h
    exact .unlockPop ‹_›
  | handled =>
    simp only [step] at h
    split at h <;> cases h
    exact .handled ‹_›

/-- Runs of the threads, from an empty queue that nobody uses. -/
def system (ι α : Type) [DecidableEq ι] : TransitionSystem (QueueThreads ι α) (QueueAction ι α) where
  init s := ∃ evfd, s = { queue := { evfd := evfd } }
  step s a s' := s.step a = some s'

/-- The items a step stores in the queue. -/
def storedBy (t : QueueThreads ι α × QueueAction ι α × QueueThreads ι α) : List α :=
  match t.2.1 with
  | .store i =>
    match t.1.producers i with
    | .locked item => [item]
    | _ => []
  | _ => []

/-- The items a step takes out of the queue. -/
def poppedBy (t : QueueThreads ι α × QueueAction ι α × QueueThreads ι α) : List α :=
  match t.2.1, t.2.2.consumer with
  | .pop, .popped item => [item]
  | _, _ => []

def HoldsMutex (s : QueueThreads ι α) : QueueThread ι → Prop
  | .producer i => (s.producers i).holdsMutex
  | .consumer => s.consumer.holdsMutex

/-- The mutex is with the thread that holds it, the result of `isEmpty` is still
true when it is used, and items in the queue are signalled, about to be, or about
to be found by the handler. -/
structure Invariant (s : QueueThreads ι α) : Prop where
  mutex : ∀ thread, s.HoldsMutex thread ↔ s.mutex = some thread
  empty : s.consumer = .tested true → s.queue.data = []
  willPop : s.consumer.willPop → s.queue.data ≠ []
  signalled : s.queue.data ≠ [] → 0 < s.queue.counter ∨ (∃ i, (s.producers i).owesSignal) ∨
    s.consumer.willTest

variable {s s' : QueueThreads ι α} {action : QueueAction ι α}

omit [DecidableEq ι] in
/-- One thread goes on and hands the mutex over accordingly. -/
theorem mutex_of_thread (h : ∀ thread, s.HoldsMutex thread ↔ s.mutex = some thread)
    (t : QueueThread ι) (hself : s'.HoldsMutex t ↔ s'.mutex = some t)
    (hholds : ∀ thread, thread ≠ t → (s'.HoldsMutex thread ↔ s.HoldsMutex thread))
    (hmutex : ∀ thread, thread ≠ t → (s'.mutex = some thread ↔ s.mutex = some thread))
    (thread : QueueThread ι) : s'.HoldsMutex thread ↔ s'.mutex = some thread := by
  by_cases hthread : thread = t
  · rw [hthread]
    exact hself
  · rw [hholds thread hthread, hmutex thread hthread]
    exact h thread

private theorem holdsMutex_of_producer {i : ι} {pc : PushPc α}
    (hproducers : s'.producers = (s.setProducer i pc).producers) (hconsumer : s'.consumer = s.consumer)
    (thread : QueueThread ι) (hne : thread ≠ .producer i) :
    s'.HoldsMutex thread ↔ s.HoldsMutex thread := by
  cases thread with
  | consumer => rw [HoldsMutex, hconsumer, HoldsMutex]
  | producer j =>
    have hj : j ≠ i := fun heq => hne (congrArg _ heq)
    have hupdate : s'.producers j = s.producers j := by
      rw [hproducers]
      exact Function.update_of_ne hj _ _
    rw [HoldsMutex, hupdate, HoldsMutex]

omit [DecidableEq ι] in
private theorem holdsMutex_of_consumer (hproducers : s'.producers = s.producers) (thread : QueueThread ι)
    (hne : thread ≠ .consumer) : s'.HoldsMutex thread ↔ s.HoldsMutex thread := by
  cases thread with
  | consumer => exact (hne rfl).elim
  | producer i => rw [HoldsMutex, hproducers, HoldsMutex]

/-- The mutex is taken when it is free and given back by its holder. -/
theorem mutex_step (h : ∀ thread, s.HoldsMutex thread ↔ s.mutex = some thread)
    (heffect : Effect s action s') (thread : QueueThread ι) :
    s'.HoldsMutex thread ↔ s'.mutex = some thread := by
  have htaken : ∀ {t thread : QueueThread ι}, s.mutex = none → thread ≠ t →
      (some t = some thread ↔ s.mutex = some thread) := fun hfree hne => by
    rw [hfree]
    exact iff_of_false (fun heq => hne (Option.some.inj heq).symm) nofun
  have hgiven : ∀ {t thread : QueueThread ι}, s.HoldsMutex t → thread ≠ t →
      (none = some thread ↔ s.mutex = some thread) := fun hholds hne => by
    rw [(h _).mp hholds]
    exact iff_of_false nofun fun heq => hne (Option.some.inj heq).symm
  cases heffect with
  | @callPush i _ hpc | @store i _ hpc | @signal i hpc =>
    refine mutex_of_thread h (.producer i) ?_ ?_ ?_ thread
    · simp [setProducer, ← h, HoldsMutex, hpc, PushPc.holdsMutex]
    · exact holdsMutex_of_producer rfl rfl
    · exact fun _ _ => Iff.rfl
  | @lockPush i _ hpc hfree =>
    refine mutex_of_thread h (.producer i) ?_ ?_ ?_ thread
    · simp [setProducer, HoldsMutex, PushPc.holdsMutex]
    · exact holdsMutex_of_producer rfl rfl
    · exact fun _ => htaken hfree
  | @unlockPush i hpc =>
    refine mutex_of_thread h (.producer i) ?_ ?_ ?_ thread
    · simp [setProducer, HoldsMutex, PushPc.holdsMutex]
    · exact holdsMutex_of_producer rfl rfl
    · exact fun _ => hgiven (by rw [HoldsMutex, hpc]; trivial)
  | wake hpc | readCounter hpc | test hpc | handled hpc | pop hpc =>
    refine mutex_of_thread h .consumer ?_ ?_ ?_ thread
    · simp [← h, HoldsMutex, hpc, HandlerPc.holdsMutex]
    · exact holdsMutex_of_consumer rfl
    · exact fun _ _ => Iff.rfl
  | lockTest hpc hfree | lockPop hpc hfree =>
    refine mutex_of_thread h .consumer ?_ ?_ ?_ thread
    · simp [HoldsMutex, HandlerPc.holdsMutex]
    · exact holdsMutex_of_consumer rfl
    · exact fun _ => htaken hfree
  | leave hpc | stay hpc | unlockPop hpc =>
    refine mutex_of_thread h .consumer ?_ ?_ ?_ thread
    · simp [HoldsMutex, HandlerPc.holdsMutex]
    · exact holdsMutex_of_consumer rfl
    · exact fun _ => hgiven (by rw [HoldsMutex, hpc]; trivial)

/-- Nothing is stored between `isEmpty` and its return, as the consumer holds the
mutex. -/
theorem empty_step (h : s.Invariant) (heffect : Effect s action s')
    (hempty : s'.consumer = .tested true) : s'.queue.data = [] := by
  cases heffect with
  | callPush | lockPush | unlockPush => exact h.empty hempty
  | signal =>
    rw [EventfdQueue.data_eventfdWrite]
    exact h.empty hempty
  | @store i item hpc =>
    change s.consumer = .tested true at hempty
    have hmine := (h.mutex (.producer i)).mp (by rw [HoldsMutex, hpc]; trivial)
    have htheirs := (h.mutex .consumer).mp (by rw [HoldsMutex, hempty]; trivial)
    cases hmine.symm.trans htheirs
  | test =>
    exact List.isEmpty_iff.mp (HandlerPc.tested.inj hempty)
  | wake | readCounter | lockTest | leave | stay | lockPop | pop | unlockPop | handled => cases hempty

/-- Only the consumer takes items out. -/
theorem willPop_step (h : s.Invariant) (heffect : Effect s action s') (hpop : s'.consumer.willPop) :
    s'.queue.data ≠ [] := by
  cases heffect with
  | callPush | lockPush | unlockPush => exact h.willPop hpop
  | signal =>
    rw [EventfdQueue.data_eventfdWrite]
    exact h.willPop hpop
  | store => simp
  | test => exact fun hnil => nomatch (congrArg List.isEmpty hnil).symm.trans hpop
  | stay hpc | lockPop hpc => exact h.willPop (by rw [hpc]; trivial)
  | wake | readCounter | lockTest | leave | pop | unlockPop | handled => exact hpop.elim

/-- A producer that owes a signal owes it until he has given it. -/
theorem owesSignal_update {i : ι} {pc : PushPc α} (hpc : ¬ (s.producers i).owesSignal)
    (h : ∃ j, (s.producers j).owesSignal) :
    ∃ j, (Function.update s.producers i pc j).owesSignal := by
  obtain ⟨j, hj⟩ := h
  refine ⟨j, ?_⟩
  rwa [Function.update_of_ne]
  rintro rfl
  exact hpc hj

theorem signalled_step (h : s.Invariant) (heffect : Effect s action s')
    (hdata : s'.queue.data ≠ []) : 0 < s'.queue.counter ∨ (∃ i, (s'.producers i).owesSignal) ∨
      s'.consumer.willTest := by
  cases heffect with
  | @callPush i _ hpc | @lockPush i _ hpc | @unlockPush i hpc =>
    have howes : ¬ (s.producers i).owesSignal := by rw [hpc]; exact id
    exact (h.signalled hdata).imp_right (Or.imp_left (owesSignal_update howes))
  | @store i => exact .inr (.inl ⟨i, by simp [setProducer, PushPc.owesSignal]⟩)
  | signal => exact .inl (EventfdQueue.counter_eventfdWrite_pos s.queue)
  | wake | readCounter | lockTest | stay | lockPop | pop | unlockPop | handled =>
    exact .inr (.inr trivial)
  | test =>
    exact .inr (.inr (Bool.eq_false_iff.mpr fun hempty => hdata (List.isEmpty_iff.mp hempty)))
  | leave hpc => exact (hdata (h.empty hpc)).elim

theorem Invariant.step (h : s.Invariant) (hstep : s.step action = some s') : s'.Invariant :=
  have heffect := effect_of_step hstep
  ⟨mutex_step h.mutex heffect, empty_step h heffect, willPop_step h heffect,
    signalled_step h heffect⟩

theorem invariant_init (h : (system ι α).init s) : s.Invariant := by
  obtain ⟨evfd, rfl⟩ := h
  refine ⟨fun thread => ?_, nofun, False.elim, fun hdata => (hdata rfl).elim⟩
  cases thread <;> exact iff_of_false id nofun

theorem invariant_of_reachable (h : (system ι α).Reachable s) : s.Invariant :=
  h.invariant (fun _ => invariant_init) fun _ _ _ _ hs hstep => hs.step hstep

/-- A step stores an item at the back of the queue, or pops the front, or leaves
the items alone. -/
theorem data_step (hstep : s.step action = some s') :
    poppedBy (s, action, s') ++ s'.queue.data = s.queue.data ++ storedBy (s, action, s') := by
  cases effect_of_step hstep with
  | store hpc => simp [poppedBy, storedBy, hpc]
  | pop _ hdata => simp [poppedBy, storedBy, hdata]
  | signal => simp [poppedBy, storedBy]
  | callPush | lockPush | unlockPush | wake | readCounter | lockTest | test | leave | stay | lockPop
  | unlockPop | handled => simp [poppedBy, storedBy]

/-- What has been popped and what is left is what has been stored, in order. -/
theorem popped_append_data {steps : List (QueueThreads ι α × QueueAction ι α × QueueThreads ι α)}
    (h : (system ι α).Run steps s) :
    steps.flatMap poppedBy ++ s.queue.data = steps.flatMap storedBy := by
  induction h with
  | init h =>
    obtain ⟨evfd, rfl⟩ := h
    rfl
  | step _ hstep ih =>
    rw [List.flatMap_append, List.flatMap_append, ← ih, List.flatMap_singleton,
      List.flatMap_singleton, List.append_assoc, data_step hstep, List.append_assoc]

/-- No wake-up is lost: `pop` is called for an item that is there, items leave the
queue once and in the order in which they were pushed, and when nobody is using
the queue, the items in it are signalled. -/
theorem noLostWakeup {steps : List (QueueThreads ι α × QueueAction ι α × QueueThreads ι α)}
    (h : (system ι α).Run steps s) :
    (s.consumer = .lockingPop ∨ s.consumer = .lockedPop → s.queue.pop ≠ none) ∧
      steps.flatMap poppedBy ++ s.queue.data = steps.flatMap storedBy ∧
      (s.consumer = .outside → (∀ i, s.producers i = .outside) → s.queue.isEmpty = false →
        0 < s.queue.counter) := by
  have hinvariant := invariant_of_reachable h.reachable
  refine ⟨fun hpc => ?_, popped_append_data h, fun hconsumer hproducers hitems => ?_⟩
  · have hdata := hinvariant.willPop (by rcases hpc with hpc | hpc <;> rw [hpc] <;> trivial)
    obtain ⟨item, data, hdata⟩ := List.exists_cons_of_ne_nil hdata
    rw [EventfdQueue.pop, hdata]
    exact Option.some_ne_none _
  · have hdata : s.queue.data ≠ [] := fun hnil => by
      rw [EventfdQueue.isEmpty, hnil] at hitems
      cases hitems
    obtain hcounter | ⟨i, howes⟩ | htest := hinvariant.signalled hdata
    · exact hcounter
    · rw [hproducers i] at howes
      exact howes.elim
    · rw [hconsumer] at htest
      exact htest.elim

/-- A push that falls between the reset of the counter and the last `isEmpty`, and
one that comes after it. -/
def pushDuringHandler : List (QueueAction Bool Nat) :=
  [.callPush true 7, .lockPush true, .store true, .signal true, .unlockPush true, .wake,
    .callPush false 8, .lockPush false, .readCounter, .store false, .signal false, .unlockPush false,
    .lockTest, .test, .unlockTest, .lockPop, .pop, .unlockPop, .handled, .lockTest, .test, .unlockTest,
    .lockPop, .pop, .unlockPop, .handled, .lockTest, .test, .callPush true 9, .unlockTest,
    .lockPush true, .store true, .signal true, .unlockPush true]

theorem noLostWakeup_pushDuringHandler :
    ∃ (steps : List (QueueThreads Bool Nat × QueueAction Bool Nat × QueueThreads Bool Nat))
      (s : QueueThreads Bool Nat), (system Bool Nat).Run steps s ∧
      s.queue.data = [9] ∧ steps.flatMap poppedBy ++ [9] = steps.flatMap storedBy := by
  have hcheck : ((some ({ queue := { evfd := 5 } } : QueueThreads Bool Nat)).bind
      (TransitionSystem.traceActions step pushDuringHandler)).any
        (fun trace => decide (trace.2.queue.data = [9])) = true := by
    decide +kernel
  obtain ⟨steps, s, hrun, hdata⟩ := TransitionSystem.exists_run_of_any (T := system Bool Nat)
    (fun _ _ _ => id) (fun _ hs => ⟨5, (Option.some.inj hs).symm⟩) hcheck
  have hdata : s.queue.data = [9] := of_decide_eq_true hdata
  have horder := (noLostWakeup hrun).2.1
  rw [hdata] at horder
  exact ⟨steps, s, hrun, hdata, horder⟩

end QueueThreads

end UpsServer
