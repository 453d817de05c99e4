import UpsServer.GameRoom.Drop
import UpsServer.GameServer.Ownership
import UpsServer.GameServer.Representation
import UpsServer.Linux.SocketBase
import UpsServer.Protocol.RoundTrip

open EdgeTriggered Split

namespace UpsServer

namespace IdleUsersRoom

/-- A turn of the loop of `_onClientWrite`. Both clients of a game that starts are
sent to it. -/
def answerMessage (idle : IdleUsersRoom) (clientFd : Int) (msg : ProtocolData) :
    Exec IdleUsersRoom IdleUsersRoom := do
  let answered ← idle.processClientMessage msg clientFd
  match answered.2 with
  | none => pure answered.1
  | some newGame => do
    let idle ← answered.1.sendClientToGameThread newGame.roomId newGame.client1
    idle.sendClientToGameThread newGame.roomId newGame.client2

def onClientWrite (idle : IdleUsersRoom) (clientFd : Int) (received : Option Str) :
    Exec IdleUsersRoom IdleUsersRoom := do
  let (messages, idle) ← idle.receiveMessages clientFd received
  messages.foldlM (fun idle msg => idle.answerMessage clientFd msg) idle

/-- `_onClientWrite` with the socket that it reads. -/
def onClientWriteFrom (idle : IdleUsersRoom) (clientFd : Int) (socket : SocketBase) :
    Exec IdleUsersRoom (IdleUsersRoom × SocketBase) := do
  let idle ← idle.onClientWrite clientFd socket.receiveData.1
  pure (idle, socket.receiveData.2)

private theorem socket_of_onClientWriteFrom {idle idle' : IdleUsersRoom} {clientFd : Int}
    {socket socket' : SocketBase}
    (h : idle.onClientWriteFrom clientFd socket = .ok (idle', socket')) :
    idle.onClientWrite clientFd socket.receiveData.1 = .ok idle' ∧
      socket' = socket.receiveData.2 := by
  obtain ⟨_, hwrite, h⟩ := bind_eq_ok.mp h
  cases h
  exact ⟨hwrite, rfl⟩

/-- These bytes went to the parser of the client, and the messages it made of them
were answered. -/
def PassedToParser (idle : IdleUsersRoom) (clientFd : Int) (data : Str) (idle' : IdleUsersRoom) :
    Prop :=
  ∃ client messages parser, idle.clientsMap.get? clientFd = some client ∧
    client.parser.parse data = .ok (messages, parser) ∧
    (messages.getD []).foldlM (fun idle msg => idle.answerMessage clientFd msg)
      (idle.modifyClient clientFd fun _ => { client with parser := parser }) = .ok idle'

/-- A client who is still in the room had what was received passed to his parser:
otherwise the handler disconnects him. -/
theorem passedToParser_of_onClientWrite {idle idle' : IdleUsersRoom} {clientFd : Int}
    {received : Option Str} (hstored : idle.StoredUnderOwnFd)
    (h : idle.onClientWrite clientFd received = .ok idle')
    (hstays : clientFd ∈ idle'.clientsMap.keys) :
    ∃ data, received = some data ∧ idle.PassedToParser clientFd data idle' := by
  obtain ⟨⟨messages, idle₁⟩, hreceive, h⟩ := bind_eq_ok.mp h
  obtain ⟨client, hclient, hreceive⟩ := bind_eq_ok.mp hreceive
  rw [clientAt_eq_ok] at hclient
  cases hmsg : client.receiveMsg received with
  | error fault =>
    rw [hmsg] at hreceive
    cases hreceive
    rw [hstored clientFd client hclient] at h
    cases h
    exact absurd (UnorderedMap.mem_keys.mp hstays) (not_owns_onClientDisconnect idle clientFd)
  | ok result =>
    obtain ⟨messages', client'⟩ := result
    rw [hmsg] at hreceive
    cases hreceive
    obtain ⟨data, parser, rfl, hparse, rfl⟩ := ProtocolClient.parse_of_receiveMsg hmsg
    exact ⟨data, rfl, client, messages', parser, hclient, hparse, h⟩

/-- Without a complete message nothing is answered. -/
theorem onClientWrite_of_open {idle : IdleUsersRoom} {clientFd : Int} {client : ProtocolClient}
    {data : Str} {parser : BufferedParser} (hclient : idle.clientsMap.get? clientFd = some client)
    (hparse : client.parser.parse data = .ok (none, parser)) :
    idle.onClientWrite clientFd (some data) =
      .ok (idle.modifyClient clientFd fun _ => { client with parser := parser }) := by
  rw [onClientWrite, receiveMessages, clientAt_eq_ok.mpr hclient, ok_bind,
    ProtocolClient.receiveMsg_of_parse hparse]
  rfl

end IdleUsersRoom

namespace Game

/-- `_onClientWrite` with the socket that it reads. -/
def onClientWriteFrom (g : Game) (clientFd : Int) (socket : SocketBase) (now : Nat → UInt64) :
    Exec Game (Game × SocketBase) := do
  let g ← g.onClientWrite clientFd socket.receiveData.1 now
  pure (g, socket.receiveData.2)

private theorem socket_of_onClientWriteFrom {g g' : Game} {clientFd : Int} {socket socket' : SocketBase}
    {now : Nat → UInt64} (h : g.onClientWriteFrom clientFd socket now = .ok (g', socket')) :
    g.onClientWrite clientFd socket.receiveData.1 now = .ok g' ∧ socket' = socket.receiveData.2 := by
  obtain ⟨_, hwrite, h⟩ := bind_eq_ok.mp h
  cases h
  exact ⟨hwrite, rfl⟩

/-- These bytes went to the parser of the player, and the messages it made of them
were answered. -/
def PassedToParser (g : Game) (clientFd : Int) (data : Str) (now : Nat → UInt64) (g' : Game) :
    Prop :=
  ∃ ref client messages parser, g.findPlayer clientFd = some ref ∧
    (g.player ref).client = some client ∧ client.parser.parse data = .ok (messages, parser) ∧
    (g.modifyClient ref fun _ => { client with parser := parser }).processMessages clientFd
      (messages.getD []) now = .ok g'

private theorem passedToParser_of_onClientWrite {g g' : Game} {clientFd : Int} {received : Option Str}
    {now : Nat → UInt64} (h : g.onClientWrite clientFd received now = .ok g')
    (hstays : g'.findPlayer clientFd ≠ none) :
    ∃ data, received = some data ∧ g.PassedToParser clientFd data now g' := by
  obtain ⟨⟨messages, g₁⟩, hreceive, h⟩ := bind_eq_ok.mp h
  obtain ⟨ref, href, hreceive⟩ := bind_eq_ok.mp hreceive
  obtain ⟨client, hclient, hreceive⟩ := bind_eq_ok.mp hreceive
  rw [getPlayer_eq_ok] at href
  rw [clientOf_eq_ok] at hclient
  cases hmsg : client.receiveMsg received with
  | error fault =>
    rw [hmsg] at hreceive
    cases hreceive
    obtain ⟨client', hclient', hfd⟩ := findPlayer_eq_some href
    cases hclient.symm.trans hclient'
    cases h
    exact absurd (hfd ▸ findPlayer_onClientDisconnect g client.clientFd) hstays
  | ok result =>
    obtain ⟨messages', client'⟩ := result
    rw [hmsg] at hreceive
    cases hreceive
    obtain ⟨data, parser, rfl, hparse, rfl⟩ := ProtocolClient.parse_of_receiveMsg hmsg
    exact ⟨data, rfl, ref, client, messages', parser, href, hclient, hparse, h⟩

end Game

namespace SocketBase

/-- All bytes that waited in the socket have been read when a handler returns. -/
def AllRead (socket socket' : SocketBase) : Prop :=
  socket'.bytes.read = socket.bytes.read ++ socket.bytes.unread

private theorem allRead_receiveData_iff (socket : SocketBase) :
    socket.AllRead socket.receiveData.2 ↔ socket.bytes.unread.length ≤ MAX_BUF_LENGTH :=
  socket.bytes.read_readUpTo_eq_iff

end SocketBase

namespace Server

/-- When the handler of the idle room or of a game returns and the client is still
there, the bytes that it read have been passed to his parser; they are all bytes
that waited exactly when these fit into one buffer. -/
theorem passesAllBytes_iff (clientFd : Int) (socket socket' : SocketBase) :
    (∀ (s : Server) (idle' : IdleUsersRoom), system.Reachable s →
      s.idle.onClientWriteFrom clientFd socket = .ok (idle', socket') →
      clientFd ∈ idle'.clientsMap.keys →
      (∃ data, s.idle.PassedToParser clientFd data idle' ∧
        socket'.bytes.read = socket.bytes.read ++ data) ∧
      (socket.AllRead socket' ↔ socket.bytes.unread.length ≤ MAX_BUF_LENGTH)) ∧
    ∀ (g g' : Game) (now : Nat → UInt64),
      g.onClientWriteFrom clientFd socket now = .ok (g', socket') →
      g'.findPlayer clientFd ≠ none →
      (∃ data, g.PassedToParser clientFd data now g' ∧
        socket'.bytes.read = socket.bytes.read ++ data) ∧
      (socket.AllRead socket' ↔ socket.bytes.unread.length ≤ MAX_BUF_LENGTH) := by
  constructor
  · intro s idle' hreachable h hstays
    obtain ⟨hwrite, rfl⟩ := IdleUsersRoom.socket_of_onClientWriteFrom h
    obtain ⟨data, hdata, hpassed⟩ := IdleUsersRoom.passedToParser_of_onClientWrite
      (tables_of_reachable hreachable).stored hwrite hstays
    exact ⟨⟨data, hpassed, SocketBase.read_receiveData hdata⟩, socket.allRead_receiveData_iff⟩
  · intro g g' now h hstays
    obtain ⟨hwrite, rfl⟩ := Game.socket_of_onClientWriteFrom h
    obtain ⟨data, hdata, hpassed⟩ := Game.passedToParser_of_onClientWrite hwrite hstays
    exact ⟨⟨data, hpassed, SocketBase.read_receiveData hdata⟩, socket.allRead_receiveData_iff⟩

section NameRequest

variable {username : Str}

/-- The line before the name in a request for a name. -/
def nameLine : Str := "ENTER_USERNAME".toList

def nameField : Str := "username:".toList

/-- The bytes of a request for a name. -/
def nameRequest (username : Str) : Str :=
  nameLine ++ '\n' :: (nameField ++ username ++ '\n' :: END_SEQUENCE.text)

/-- What one read takes of the request when the name is longer than the buffer. -/
def nameStart (username : Str) : Str :=
  nameLine ++ '\n' :: (nameField ++ username.take (MAX_BUF_LENGTH - 24))

private theorem take_nameRequest (h : MAX_BUF_LENGTH ≤ username.length) :
    (nameRequest username).take MAX_BUF_LENGTH = nameStart username := by
  have hhead : (nameLine ++ '\n' :: nameField).length = 24 := by decide
  have hbuffer : 24 ≤ MAX_BUF_LENGTH := by decide
  have hrequest : nameRequest username =
      (nameLine ++ '\n' :: nameField) ++ (username ++ '\n' :: END_SEQUENCE.text) := by
    simp only [nameRequest, List.append_assoc, List.cons_append]
  rw [hrequest, List.take_append, hhead, List.take_of_length_le (by omega),
    List.take_append_of_le_length (by omega), nameStart, List.append_assoc, List.cons_append]

private theorem parse_nameStart (h : '\n' ∉ username) :
    BufferedParser.parse {} (nameStart username) =
      .ok (none, BufferedParser.afterText (nameStart username)) := by
  have hrest : '\n' ∉ nameField ++ username.take (MAX_BUF_LENGTH - 24) := by
    rw [List.mem_append]
    exact fun hmem => hmem.elim (by decide) fun hmem => h (List.mem_of_mem_take hmem)
  have hline : '\n' ∉ nameLine := by decide
  have hbreak : breakAll END_OF_LINE (nameStart username) =
      ⟨[nameLine], nameField ++ username.take (MAX_BUF_LENGTH - 24)⟩ := by
    rw [nameStart, breakAll_append_cons rfl hline, breakAll_of_notMem rfl hrest]
    rfl
  refine BufferedParser.parse_of_open (BufferedParser.find_endSequence_of_count ?_) ?_
  · rw [nameStart, List.count_append, List.count_cons_self, List.count_eq_zero_of_not_mem hline,
      List.count_eq_zero_of_not_mem hrest]
  · rw [BufferedParser.frameOk_of_cons (congrArg Segmentation.closed hbreak), hbreak]
    refine ⟨by decide +kernel, List.forall_mem_nil _, ?_⟩
    rw [List.length_append]
    have hfield : nameField.length = 9 := by decide
    have htake := List.length_take_le (MAX_BUF_LENGTH - 24) username
    simp only [BufferedParser.MAX_LINE_LENGTH, MAX_BUF_LENGTH] at htake ⊢
    omega

/-- The socket of a client when such a request has arrived. -/
def nameArrived (username : Str) : SocketBase :=
  { bytes := ({} : Channel Char).arrive (nameRequest username) }

private theorem receiveData_nameArrived (h : MAX_BUF_LENGTH ≤ username.length) :
    (nameArrived username).receiveData = (some (nameStart username),
      { bytes := (nameArrived username).bytes.readUpTo MAX_BUF_LENGTH }) := by
  have htake : (nameArrived username).bytes.unread.take MAX_BUF_LENGTH = nameStart username :=
    take_nameRequest h
  have hne : nameStart username ≠ [] := List.append_ne_nil_of_right_ne_nil _ (List.cons_ne_nil _ _)
  rw [SocketBase.receiveData, htake, if_neg fun h => hne h.1]
  rfl

/-- The end of a request whose name is longer than the buffer is left in the socket,
although no event is due and the client stays connected. -/
theorem request_left {s : Server} {client : ProtocolClient} {clientFd : Int}
    (hclient : s.idle.clientsMap.get? clientFd = some client) (hfresh : client.parser = {})
    (hplain : '\n' ∉ username) (hlong : MAX_BUF_LENGTH ≤ username.length) :
    ∃ idle' socket',
      s.idle.onClientWriteFrom clientFd (nameArrived username) = .ok (idle', socket') ∧
      clientFd ∈ idle'.clientsMap.keys ∧ socket'.bytes.isReady = false ∧
      ¬ (nameArrived username).AllRead socket' := by
  have hwrite := IdleUsersRoom.onClientWrite_of_open hclient (by
    rw [hfresh]
    exact parse_nameStart hplain)
  refine ⟨s.idle.modifyClient clientFd fun _ =>
      { client with parser := BufferedParser.afterText (nameStart username) },
    (nameArrived username).receiveData.2, ?_, ?_, rfl, ?_⟩
  · rw [IdleUsersRoom.onClientWriteFrom, receiveData_nameArrived hlong, hwrite]
    rfl
  · rw [IdleUsersRoom.modifyClient, UnorderedMap.keys_modify]
    exact UnorderedMap.mem_keys.mpr ⟨client, hclient⟩
  · have hlength : username.length < (nameRequest username).length := by
      simp only [nameRequest, List.length_append, List.length_cons]
      omega
    exact fun hall => absurd ((nameArrived username).allRead_receiveData_iff.mp hall)
      (Nat.not_le.mpr (hlong.trans_lt hlength))

end NameRequest

/-- A name that is as long as the buffer. -/
def longName : Str := List.replicate MAX_BUF_LENGTH 'A'

theorem not_allRead_longName : ∃ s idle' socket', system.Reachable s ∧ s.pc = .waiting ∧
    s.idle.epoll.handler 10 EPOLLIN = some .onClientWrite ∧
    s.idle.onClientWriteFrom 10 (nameArrived longName) = .ok (idle', socket') ∧
    10 ∈ idle'.clientsMap.keys ∧ socket'.bytes.isReady = false ∧
    ¬ (nameArrived longName).AllRead socket' := by
  have hcheck : ((oneRoom.bind (TransitionSystem.runActions step (connectClient 10))).any fun s =>
      decide (s.pc = .waiting ∧ s.idle.epoll.handler 10 EPOLLIN = some .onClientWrite ∧
        (s.idle.clientsMap.get? 10).any (·.parser = {}) = true)) = true := by
    decide +kernel
  obtain ⟨s, hreachable, hstate⟩ := exists_of_oneRoom hcheck
  obtain ⟨hpc, hhandler, hclient⟩ := of_decide_eq_true hstate
  obtain ⟨client, hclient, hfresh⟩ := (Option.any_eq_true ..).mp hclient
  have hplain : '\n' ∉ longName := fun hmem => absurd (List.eq_of_mem_replicate hmem) (by decide)
  have hlong : MAX_BUF_LENGTH ≤ longName.length := List.length_replicate.ge
  obtain ⟨idle', socket', hleft⟩ :=
    request_left hclient (of_decide_eq_true hfresh) hplain hlong
  exact ⟨s, idle', socket', hreachable, hpc, hhandler, hleft⟩

/-- Two players, and a short message of the first. -/
def pinged : Game :=
  { gameInput := { evfd := 101 }, gameOutput := { evfd := 102 }
    player1 := { client := some { clientFd := 10 } }
    player2 := { client := some { clientFd := 11 } } }

/-- The socket of a client who has sent a message that has one line. -/
def lineArrived (line : String) : SocketBase :=
  { bytes := ({} : Channel Char).arrive (messageText [line]) }

theorem passesAllBytes_iff_short :
    (∃ s idle' socket', system.Reachable s ∧
      s.idle.onClientWriteFrom 10 (lineArrived "GET_ROOM_LIST") = .ok (idle', socket') ∧
      (lineArrived "GET_ROOM_LIST").AllRead socket') ∧
    ∃ g' socket',
      pinged.onClientWriteFrom 10 (lineArrived "GAME_PING") (fun _ => 1000) = .ok (g', socket') ∧
      (lineArrived "GAME_PING").AllRead socket' := by
  constructor
  · have hcheck : ((oneRoom.bind (TransitionSystem.runActions step (connectClient 10))).any fun s =>
        (s.idle.onClientWriteFrom 10 (lineArrived "GET_ROOM_LIST")).toOption.any
          fun after => decide (10 ∈ after.1.clientsMap.keys)) = true := by
      decide +kernel
    obtain ⟨s, hreachable, hread⟩ := exists_of_oneRoom hcheck
    obtain ⟨⟨idle', socket'⟩, hafter, hmem⟩ := (Option.any_eq_true ..).mp hread
    have hok := toOption_eq_some.mp hafter
    exact ⟨s, idle', socket', hreachable, hok,
      ((passesAllBytes_iff 10 _ socket').1 s idle' hreachable hok (of_decide_eq_true hmem)).2.mpr
        (by decide +kernel)⟩
  · have hcheck : (pinged.onClientWriteFrom 10 (lineArrived "GAME_PING")
        (fun _ => 1000)).toOption.any (fun after => decide (after.1.findPlayer 10 ≠ none)) = true := by
      decide +kernel
    obtain ⟨⟨g', socket'⟩, hafter, hstays⟩ := (Option.any_eq_true ..).mp hcheck
    have hok := toOption_eq_some.mp hafter
    exact ⟨g', socket', hok,
      ((passesAllBytes_iff 10 _ socket').2 pinged g' _ hok (of_decide_eq_true hstays)).2.mpr
        (by decide +kernel)⟩

end Server

end UpsServer
