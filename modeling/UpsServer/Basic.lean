import Mathlib.Logic.Basic

namespace UpsServer

/-- `std::string`, as the list of its characters. -/
abbrev Str := List Char

/-- The ways a call can fail to return. The first three constructors are C++
exceptions; the others stand for undefined behaviour. -/
inductive Fault where
  | runtimeError (what : String)
  | outOfRange (what : String)
  | invalidArgument (what : String)
  | nullDereference
  | useAfterFree
deriving DecidableEq, Repr

/-- Exceptions unwind the stack to a handler; undefined behaviour has no
continuation. -/
def Fault.isException : Fault → Bool
  | .runtimeError _ | .outOfRange _ | .invalidArgument _ => true
  | .nullDereference | .useAfterFree => false

/-- What a member function of an object `σ` returns. A fault carries the object
as it was when the fault occurred. -/
abbrev Exec (σ : Type) : Type → Type := Except (Fault × σ)

theorem bind_eq_ok {ε α β : Type} {x : Except ε α} {f : α → Except ε β} {b : β} :
    (x >>= f) = .ok b ↔ ∃ a, x = .ok a ∧ f a = .ok b := by
  cases x <;> simp [Bind.bind, Except.bind]

theorem bind_eq_error {ε α β : Type} {x : Except ε α} {f : α → Except ε β} {e : ε} :
    (x >>= f) = .error e ↔ x = .error e ∨ ∃ a, x = .ok a ∧ f a = .error e := by
  cases x <;> simp [Bind.bind, Except.bind]

@[simp] theorem ok_bind {ε α β : Type} (a : α) (f : α → Except ε β) :
    ((Except.ok a : Except ε α) >>= f) = f a := rfl

@[simp] theorem error_bind {ε α β : Type} (e : ε) (f : α → Except ε β) :
    ((Except.error e : Except ε α) >>= f) = .error e := rfl

theorem toOption_bind {ε α β : Type} (x : Except ε α) (f : α → Except ε β) :
    (x >>= f).toOption = x.toOption.bind fun a => (f a).toOption := by
  cases x <;> rfl

theorem toOption_eq_some {ε α : Type} {x : Except ε α} {a : α} :
    x.toOption = some a ↔ x = .ok a := by
  cases x <;> simp [Except.toOption]

theorem toOption_eq_none {ε α : Type} {x : Except ε α} :
    x.toOption = none ↔ ∃ e, x = .error e := by
  cases x <;> simp [Except.toOption]

private theorem eq_ok_of_ite_error {ε α : Type} {p : Prop} [Decidable p] {e : ε} {x : Except ε α} {a : α}
    (h : (if p then .error e else x) = .ok a) : ¬ p ∧ x = .ok a := by
  split at h
  · cases h
  · exact ⟨‹_›, h⟩

/-- The result of a call that does not touch the object `s`, as a result of a
member function of `s`. -/
def withState {σ α : Type} (s : σ) : Except Fault α → Exec σ α
  | .ok a => .ok a
  | .error fault => .error (fault, s)

@[simp] theorem withState_ok {σ α : Type} (s : σ) (a : α) : withState s (.ok a) = .ok a := rfl

@[simp] theorem withState_error {σ α : Type} (s : σ) (fault : Fault) :
    withState s (.error fault : Except Fault α) = .error (fault, s) := rfl

theorem withState_eq_ok {σ α : Type} {s : σ} {x : Except Fault α} {a : α} :
    withState s x = .ok a ↔ x = .ok a := by
  cases x <;> simp

/-- `std::string::substr`. -/
def substr (s : Str) (pos count : Nat) : Except Fault Str :=
  if pos > s.length then
    .error (.outOfRange ("basic_string::substr: __pos (which is " ++ toString pos ++
      ") > this->size() (which is " ++ toString s.length ++ ")"))
  else .ok ((s.drop pos).take count)

/-- `isspace` in the C locale. -/
def isSpace (c : Char) : Bool :=
  c == ' ' || c == '\t' || c == '\n' || c == '\x0b' || c == '\x0c' || c == '\r'

def digitsValue (ds : Str) : Int := ds.foldl (fun n c => n * 10 + (c.toNat - '0'.toNat : Nat)) 0

/-- `std::stoi` in base 10: leading white space, one sign and the longest run of
digits are read, what follows them is ignored. -/
def stoi (s : Str) : Except Fault Int :=
  let t := s.dropWhile isSpace
  let neg := t.head? == some '-'
  let u := if neg || t.head? == some '+' then t.tail else t
  let digits := u.takeWhile Char.isDigit
  if digits = [] then .error (.invalidArgument "stoi")
  else
    let value := if neg then - digitsValue digits else digitsValue digits
    if value < -2147483648 ∨ 2147483647 < value then .error (.outOfRange "stoi") else .ok value

example : stoi " 42x".toList = .ok 42 := rfl

/-- What is read fits into an `int`. -/
theorem stoi_bounds {s : Str} {n : Int} (h : stoi s = .ok n) : -2147483648 ≤ n ∧ n ≤ 2147483647 := by
  rw [stoi] at h
  obtain ⟨_, h⟩ := eq_ok_of_ite_error h
  obtain ⟨hrange, h⟩ := eq_ok_of_ite_error h
  rw [Except.ok.inj h] at hrange
  omega

end UpsServer
