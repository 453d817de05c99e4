import UpsServer.GameRoom.Command
import UpsServer.GameRoom.Fates
import UpsServer.GameRoom.Service

open Outcome

namespace UpsServer

/-- The messages that are no game states. -/
def repliesAmong (msgs : List ProtocolData) : List ProtocolData :=
  msgs.filter (·.method ≠ .GAME_STATE)

theorem repliesAmong_append (msgs msgs' : List ProtocolData) :
    repliesAmong (msgs ++ msgs') = repliesAmong msgs ++ repliesAmong msgs' :=
  List.filter_append msgs msgs'

/-- The client has been told these replies and any number of game states, and
nothing more of him has been parsed. -/
structure SaidTo (said : List ProtocolData) (client client' : ProtocolClient) : Prop where
  same : client'.clientFd = client.clientFd
  parser : client'.parser = client.parser
  sent : ∃ msgs, client'.sent = client.sent ++ msgs ∧ repliesAmong msgs = said

theorem SaidTo.refl (client : ProtocolClient) : SaidTo [] client client :=
  ⟨rfl, rfl, [], (List.append_nil _).symm, rfl⟩

theorem SaidTo.trans {said said' : List ProtocolData} {client client' client'' : ProtocolClient}
    (h : SaidTo said client client') (h' : SaidTo said' client' client'') :
    SaidTo (said ++ said') client client'' := by
  obtain ⟨msgs, hsent, rfl⟩ := h.sent
  obtain ⟨msgs', hsent', rfl⟩ := h'.sent
  refine ⟨h'.same.trans h.same, h'.parser.trans h.parser, msgs ++ msgs', ?_,
    repliesAmong_append msgs msgs'⟩
  rw [hsent', hsent, List.append_assoc]

private theorem saidTo_state (client : ProtocolClient) (data : UnorderedMap Str Str) :
    SaidTo [] client (client.sendMsg ⟨.GAME_STATE, data⟩) :=
  ⟨rfl, rfl, [⟨.GAME_STATE, data⟩], rfl, rfl⟩

namespace Game

/-- The message is a command for a legal move. -/
structure Moves (g : Game) (msg : ProtocolData) (clientFd : Int) (move : Move) : Prop where
  command : msg.method = .GAME_COMMAND
  legal : g.Legal msg clientFd move

/-- What a player who stays is told in reply to a request. A move is shown in a game
state only, and whoever leaves is told nothing. -/
inductive Replies (g : Game) (msg : ProtocolData) (clientFd : Int) : List ProtocolData → Prop where
  | denied (hleave : msg.method ≠ .GAME_LEAVE) (hping : msg.method ≠ .GAME_PING)
      (hillegal : ∀ move, ¬ g.Moves msg clientFd move) :
      Replies g msg clientFd [newProtocolMessage .REQ_DENIED []]
  | moved {move : Move} (hmoves : g.Moves msg clientFd move) : Replies g msg clientFd []
  | leaves (hmethod : msg.method = .GAME_LEAVE) : Replies g msg clientFd []
  | pinged (hmethod : msg.method = .GAME_PING) :
      Replies g msg clientFd [newProtocolMessage .GAME_PING []]

/-- Whoever is online in the place of a player was there before, and has been told
these replies. -/
def Told (ref : PlayerRef) (said : List ProtocolData) (g g' : Game) : Prop :=
  ∀ client', (g'.player ref).client = some client' →
    ∃ client, (g.player ref).client = some client ∧ SaidTo said client client'

theorem allowsStates_saidTo : AllowsStates (SaidTo []) :=
  ⟨SaidTo.refl, fun _ _ _ => SaidTo.trans, saidTo_state⟩

variable {g g' g'' : Game} {ref ref' : PlayerRef} {said said' : List ProtocolData}

/-- Game states are no replies. -/
theorem Told.states (h : Told ref said g g') (h' : Relates (SaidTo []) g' g'') :
    Told ref said g g'' := by
  intro client'' hclient''
  obtain ⟨client', hclient', hsaid'⟩ := h' ref client'' hclient''
  obtain ⟨client, hclient, hsaid⟩ := h client' hclient'
  have htold := hsaid.trans hsaid'
  rw [List.append_nil] at htold
  exact ⟨client, hclient, htold⟩

private theorem told_of_none (h : (g'.player ref).client = none) : Told ref said g g' := by
  intro client' hclient'
  cases h.symm.trans hclient'

/-- A change that does not touch this player's client. -/
theorem told_of_client (h : (g'.player ref).client = (g.player ref).client) : Told ref [] g g' :=
  fun client' hclient' => ⟨client', h.symm.trans hclient', .refl client'⟩

section Messages

variable {msg : ProtocolData} {clientFd : Int} {sender : PlayerRef}

/-- The sender of a request is told these replies, and the other player is shown
states at most. -/
def AnswersSender (sender : PlayerRef) (said : List ProtocolData) (g g' : Game) : Prop :=
  Told sender said g g' ∧ Told sender.other [] g g'

private theorem answersSender_of_states (h : Relates (SaidTo []) g g') : AnswersSender sender [] g g' :=
  ⟨h sender, h sender.other⟩

private theorem answersSender_modifyClient {f : ProtocolClient → ProtocolClient}
    (hf : ∀ client, SaidTo said client (f client)) :
    AnswersSender sender said g (g.modifyClient sender f) := by
  refine ⟨fun client' hclient' => ?_, told_of_client ?_⟩
  · rw [modifyClient, player_modifyPlayer_self, Option.map_eq_some_iff] at hclient'
    obtain ⟨client, hclient, rfl⟩ := hclient'
    exact ⟨client, hclient, hf client⟩
  · rw [modifyClient, player_modifyPlayer_other]

/-- Whoever is not denied for the last time is told so. -/
theorem answersSender_denyRequest (hfind : g.findPlayer clientFd = some sender)
    (h : g.denyRequest clientFd = .ok g') :
    AnswersSender sender [newProtocolMessage .REQ_DENIED []] g g' := by
  obtain ⟨ref, href, h⟩ := bind_eq_ok.mp h
  cases hfind.symm.trans (derefClient_eq_ok.mp href)
  obtain ⟨client, hclient, h⟩ := bind_eq_ok.mp h
  split at h
  · cases h
    have hdrop := relates_onClientDisconnect allowsStates_saidTo g client.clientFd
    refine ⟨told_of_none ?_, hdrop sender.other⟩
    by_contra hstays
    obtain ⟨client', hclient'⟩ := Option.ne_none_iff_exists'.mp hstays
    obtain ⟨before, hbefore, hsaid⟩ := hdrop sender client' hclient'
    cases (clientOf_eq_ok.mp hclient).symm.trans hbefore
    exact findPlayer_eq_none.mp (findPlayer_onClientDisconnect g client.clientFd) sender client'
      hclient' hsaid.same
  · cases h
    exact answersSender_modifyClient (f := ProtocolClient.sendReqDeniedMsg)
      fun _ => ⟨rfl, rfl, _, rfl, rfl⟩

private theorem readMove_of_legal {move : Move} (hnodup : g.heldFds.Nodup)
    (h : g.Legal msg clientFd move) : g.readMove msg clientFd = .ok (some move) := by
  obtain ⟨edge, hedge, hparse⟩ := h.named
  rw [readMove_eq hnodup h.online h.player, if_neg (by simp [h.notPaused, h.onTurn]), hedge]
  exact (checkEdge_of_nodes hparse move.player).trans (by rw [if_pos h.free])

private theorem answersSender_answerMessage (hnodup : g.heldFds.Nodup)
    (hfind : g.findPlayer clientFd = some sender) (h : g.answerMessage msg clientFd = .ok g') :
    ∃ said, g.Replies msg clientFd said ∧ AnswersSender sender said g g' := by
  unfold answerMessage at h
  split at h
  · rename_i hmethod
    obtain ⟨_, _, h⟩ := bind_eq_ok.mp h
    obtain ⟨move, hmove, h⟩ := bind_eq_ok.mp h
    cases move with
    | none =>
      refine ⟨_, .denied (by simp [hmethod]) (by simp [hmethod]) fun move hmoves => ?_,
        answersSender_denyRequest hfind h⟩
      cases hmove.symm.trans (readMove_of_legal hnodup hmoves.legal)
    | some move =>
      have hstates := (relates_playMove allowsStates_saidTo g move).of_ok h
      exact ⟨[], .moved ⟨hmethod, legal_of_readMove hmove⟩, answersSender_of_states hstates⟩
  · rename_i hmethod
    cases h
    exact ⟨[], .leaves hmethod, answersSender_of_states (relates_stop allowsStates_saidTo g)⟩
  · rename_i hmethod
    obtain ⟨ref, href, h⟩ := bind_eq_ok.mp h
    cases hfind.symm.trans (derefClient_eq_ok.mp href)
    obtain ⟨_, _, h⟩ := bind_eq_ok.mp h
    cases h
    exact ⟨_, .pinged hmethod, answersSender_modifyClient fun _ => ⟨rfl, rfl, _, rfl, rfl⟩⟩
  · rename_i hcommand hleave hping
    exact ⟨_, .denied hleave hping fun _ hmoves => hcommand hmoves.command,
      answersSender_denyRequest hfind h⟩

theorem answersSender_processClientMessage {now : UInt64} (hnodup : g.heldFds.Nodup)
    (hfind : g.findPlayer clientFd = some sender)
    (h : g.processClientMessage msg clientFd now = .ok g') :
    ∃ said, g.Replies msg clientFd said ∧ AnswersSender sender said g g' := by
  obtain ⟨_, hanswer, hupdate⟩ := bind_eq_ok.mp h
  obtain ⟨said, hreplies, hsender, hother⟩ := answersSender_answerMessage hnodup hfind hanswer
  have hstates := (relates_updateClientLastSeen allowsStates_saidTo _ clientFd now).of_ok hupdate
  exact ⟨said, hreplies, hsender.states hstates, hother.states hstates⟩

/-- A request for a legal move has moved, and no other one has. -/
structure Obeys (clientFd : Int) (g : Game) (msg : ProtocolData) (g' : Game) : Prop where
  moves : ∀ move, g.Moves msg clientFd move → g'.board = (g.afterMove move).board
  stays : (∀ move, ¬ g.Moves msg clientFd move) → g'.board = g.board

theorem obeys_processClientMessage {now : UInt64} (hnodup : g.heldFds.Nodup)
    (h : g.processClientMessage msg clientFd now = .ok g') : Obeys clientFd g msg g' where
  moves := fun _ hmoves =>
    (GameThread.board_processClientMessage hmoves.command (readMove_of_legal hnodup hmoves.legal)
      now).of_ok h
  stays := fun hillegal =>
    ((GameThread.quiet_processClientMessage (fun move hmethod hmove =>
      hillegal move ⟨hmethod, legal_of_readMove hmove⟩) now).of_ok h).board

end Messages

/-- Nobody is told anything but states by an arrival, and the player who was there
stays where he is. -/
theorem told_takeNewClient {client : ProtocolClient} {waiting : List ProtocolClient}
    {now1 now2 : UInt64} (hdata : g.gameInput.data = client :: waiting)
    (h : g.takeNewClient now1 now2 = .ok g') (hplays : (g.player ref).client ≠ none) :
    Told ref [] g g' := by
  obtain ⟨free, arrived, hfree, _, hregister, _, hrest⟩ := takeNewClient_eq_ok hdata h
  have hne : ref ≠ free := by
    rintro rfl
    exact hplays (freePlayer_eq_some hfree)
  have harrived : (arrived.player ref).client = (g.player ref).client := by
    obtain ⟨epoll, _, heq⟩ := bind_eq_ok.mp hregister
    cases heq
    cases free <;> cases ref <;> first | rfl | exact (hne rfl).elim
  have hstart : Told ref [] g { arrived with isPaused := false } :=
    told_of_client (by rw [← harrived]; cases ref <;> rfl)
  split at hrest
  · exact hstart.states ((relates_greetPlayers allowsStates_saidTo _ now1 now2).of_ok hrest)
  · subst hrest
    exact told_of_client harrived

end Game

end UpsServer
