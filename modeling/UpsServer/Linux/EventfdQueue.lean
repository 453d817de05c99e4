import UpsServer.Basic

namespace UpsServer

/-- A queue that signals through the counter of an eventfd when items are
added. -/
structure EventfdQueue (α : Type) where
  evfd : Int
  data : List α := []
  counter : Nat := 0
deriving DecidableEq

namespace EventfdQueue

variable {α : Type}

def push (q : EventfdQueue α) (item : α) : EventfdQueue α :=
  { q with data := q.data ++ [item], counter := q.counter + 1 }

/-- The front item and the queue without it. An empty queue is never popped. -/
def pop (q : EventfdQueue α) : Option (α × EventfdQueue α) :=
  match q.data with
  | [] => none
  | item :: data => some (item, { q with data := data })

def isEmpty (q : EventfdQueue α) : Bool := q.data.isEmpty

/-- `eventfd_read` on the descriptor of the queue. -/
def eventfdRead (q : EventfdQueue α) : EventfdQueue α := { q with counter := 0 }

@[simp] theorem data_push (q : EventfdQueue α) (item : α) : (q.push item).data = q.data ++ [item] :=
  rfl

theorem exists_of_isEmpty_eq_false {q : EventfdQueue α} (h : q.isEmpty = false) :
    ∃ item data, q.data = item :: data :=
  List.exists_cons_of_ne_nil (List.isEmpty_eq_false_iff.mp h)

theorem pop_eq_some {q q' : EventfdQueue α} {item : α} :
    q.pop = some (item, q') ↔ ∃ data, q.data = item :: data ∧ q' = { q with data := data } := by
  constructor
  · intro h
    unfold pop at h
    split at h
    · cases h
    · rename_i data hdata
      cases h
      exact ⟨data, hdata, rfl⟩
  · rintro ⟨data, hdata, rfl⟩
    simp [pop, hdata]

end EventfdQueue

end UpsServer
