import UpsServer.Protocol.BufferedParser

namespace UpsServer

/-- A connected client. Its socket is represented by the messages that were
handed to it to be sent, whatever becomes of them. -/
structure ProtocolClient where
  clientFd : Int
  sent : List ProtocolData := []
  parser : BufferedParser := {}
  clientName : Str := []
  reqDeniedCnt : Nat := 0
deriving DecidableEq

namespace ProtocolClient

/-- Reads the socket, where `none` stands for a failed `recv`, and parses what
was received. -/
def receiveMsg (client : ProtocolClient) (received : Option Str) :
    Except Fault (Option (List ProtocolData) × ProtocolClient) :=
  match received with
  | none =>
    .error
      (.runtimeError
        ("Failed to receive data on this socket. (FD" ++ toString client.clientFd ++ ")"))
  | some data =>
    match client.parser.parse data with
    | .ok (messages, parser) => .ok (messages, { client with parser := parser })
    | .error (fault, _) => .error fault

/-- Hands a message to the socket. Nobody looks at what `send` returns, but it is
assumed to return: without `MSG_NOSIGNAL` or a handler of `SIGPIPE`, neither of which
the code has, a write to a client who has hung up can kill the process. -/
def sendMsg (client : ProtocolClient) (msg : ProtocolData) : ProtocolClient :=
  { client with sent := client.sent ++ [msg] }

def hasName (client : ProtocolClient) : Bool := !client.clientName.isEmpty

def setClientName (client : ProtocolClient) (name : Str) : ProtocolClient :=
  { client with clientName := name }

def sendReqDeniedMsg (client : ProtocolClient) : ProtocolClient :=
  { client with reqDeniedCnt := client.reqDeniedCnt + 1 }.sendMsg
    (newProtocolMessage .REQ_DENIED [])

theorem parse_of_receiveMsg {client client' : ProtocolClient} {received : Option Str}
    {messages : Option (List ProtocolData)}
    (h : client.receiveMsg received = .ok (messages, client')) :
    ∃ data parser, received = some data ∧ client.parser.parse data = .ok (messages, parser) ∧
      client' = { client with parser := parser } := by
  cases received with
  | none => cases h
  | some data =>
    cases hparse : client.parser.parse data with
    | error e =>
      rw [receiveMsg, hparse] at h
      cases h
    | ok result =>
      rw [receiveMsg, hparse] at h
      cases h
      exact ⟨data, _, rfl, hparse, rfl⟩

/-- Receiving changes nothing but the parser. -/
theorem receiveMsg_eq_ok {client client' : ProtocolClient} {received : Option Str}
    {messages : Option (List ProtocolData)}
    (h : client.receiveMsg received = .ok (messages, client')) :
    ∃ parser, client' = { client with parser := parser } := by
  obtain ⟨_, parser, _, _, rfl⟩ := parse_of_receiveMsg h
  exact ⟨parser, rfl⟩

theorem receiveMsg_of_parse {client : ProtocolClient} {data : Str} {parser : BufferedParser}
    {messages : Option (List ProtocolData)}
    (h : client.parser.parse data = .ok (messages, parser)) :
    client.receiveMsg (some data) = .ok (messages, { client with parser := parser }) := by
  rw [receiveMsg, h]

end ProtocolClient

end UpsServer
