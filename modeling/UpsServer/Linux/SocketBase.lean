import UpsServer.Basic
import UpsServer.Lib.EdgeTriggered

open EdgeTriggered

namespace UpsServer

def MAX_BUF_LENGTH : Nat := 4096

/-- The receiving side of a socket: the bytes that have arrived, and whether the
peer will send no more. -/
structure SocketBase where
  bytes : Channel Char := {}
  hasEnded : Bool := false
deriving DecidableEq

namespace SocketBase

/-- One call of `recv`, with `none` for a failure: the socket is non-blocking, so
there must be something to read. -/
def receiveData (socket : SocketBase) : Option Str × SocketBase :=
  let received := socket.bytes.unread.take MAX_BUF_LENGTH
  (if received = [] ∧ socket.hasEnded = false then none else some received,
    { socket with bytes := socket.bytes.readUpTo MAX_BUF_LENGTH })

/-- What `receiveData` returns is what it takes from the bytes that wait. -/
theorem read_receiveData {socket : SocketBase} {received : Str}
    (h : socket.receiveData.1 = some received) :
    socket.receiveData.2.bytes.read = socket.bytes.read ++ received := by
  rw [receiveData] at h
  obtain ⟨_, h⟩ := Option.ite_none_left_eq_some.mp h
  cases h
  rfl

end SocketBase

end UpsServer
