import UpsServer.GameRoom.Talk
import UpsServer.GameServer.Dialogue

open Outcome

namespace UpsServer

/-- The messages of a player that have been read and are still to be processed. -/
def ThreadPc.messagesOf (clientFd : Int) : ThreadPc → List ProtocolData
  | .reading fd messages => if fd = clientFd then messages else []
  | _ => []

/-- A message that a player has sent, with the game before it was processed and
after it. -/
structure Request where
  before : Game
  msg : ProtocolData
  after : Game

/-- A request has been obeyed and replied to. -/
structure Request.Answered (clientFd : Int) (request : Request) (said : List ProtocolData) :
    Prop where
  replies : request.before.Replies request.msg clientFd said
  obeys : Game.Obeys clientFd request.before request.msg request.after

/-- What a player has said since he took his place: the chunks in which he was read,
and his requests that have been processed. -/
structure GameDialogue where
  first : ProtocolClient
  chunks : List Str := []
  requests : List Request := []

namespace GameDialogue

/-- A step of a game thread goes on with the dialogue of a player. -/
def goOn (clientFd : Int) (step : GameThread × GameAction × GameThread) (d : GameDialogue) :
    GameDialogue :=
  match step.2.1, step.1.pc with
  | .receive fd (some data), _ =>
    if fd = clientFd then { d with chunks := d.chunks ++ [data] } else d
  | .message _, .reading fd (msg :: _) =>
    if fd = clientFd then
      { d with requests := d.requests ++ [⟨step.1.game, msg, step.2.2.game⟩] }
    else d
  | _, _ => d

private theorem goOn_receive (clientFd : Int) (data : Str) (t t' : GameThread) (d : GameDialogue) :
    d.goOn clientFd (t, .receive clientFd (some data), t') =
      { d with chunks := d.chunks ++ [data] } :=
  if_pos rfl

private theorem goOn_message {clientFd : Int} {msg : ProtocolData} {messages : List ProtocolData}
    {t : GameThread} (hpc : t.pc = .reading clientFd (msg :: messages)) (now : UInt64)
    (t' : GameThread) (d : GameDialogue) :
    d.goOn clientFd (t, .message now, t') =
      { d with requests := d.requests ++ [⟨t.game, msg, t'.game⟩] } := by
  simp only [goOn, hpc, if_true]

/-- A dialogue begins when a client takes the place of a player, and ends when he is
dropped. -/
def next (ref : PlayerRef) (d : Option GameDialogue) (step : GameThread × GameAction × GameThread) :
    Option GameDialogue :=
  (step.2.2.game.player ref).client.map fun client =>
    d.elim { first := client } (goOn client.clientFd step)

/-- The dialogue with a player after a run. -/
def ofRun (ref : PlayerRef) (steps : List (GameThread × GameAction × GameThread)) :
    Option GameDialogue :=
  steps.foldl (next ref) none

/-- What was read of the player has been processed or still is to be, and what was
processed has been answered. -/
structure Fits (pc : ThreadPc) (client : ProtocolClient) (d : GameDialogue) : Prop where
  same : client.clientFd = d.first.clientFd
  read : BufferedParser.feed d.first.parser d.chunks =
    .ok (d.requests.map (·.msg) ++ pc.messagesOf client.clientFd, client.parser)
  told : ∃ msgs replies, client.sent = d.first.sent ++ msgs ∧
    List.Forall₂ (Request.Answered client.clientFd) d.requests replies ∧
    repliesAmong msgs = replies.flatten

end GameDialogue

namespace GameThread

open Game

variable {t t' : GameThread} {action : GameAction} {ref : PlayerRef} {client' : ProtocolClient}

/-- What a step means to a player who is online after it: he takes his place, is
read, is answered, or is left alone but for game states. -/
inductive TalkStep (t : GameThread) (action : GameAction) (t' : GameThread) (ref : PlayerRef)
    (client' : ProtocolClient) : Prop where
  | comes (hnew : (t.game.player ref).client = none)
      (hmessages : t'.pc.messagesOf client'.clientFd = [])
  | read {client : ProtocolClient} {data : Str} {messages : Option (List ProtocolData)}
      {parser : BufferedParser} (hbefore : (t.game.player ref).client = some client)
      (haction : action = .receive client.clientFd (some data))
      (hidle : t.pc.messagesOf client.clientFd = [])
      (hparse : client.parser.parse data = .ok (messages, parser))
      (hmessages : t'.pc.messagesOf client.clientFd = messages.getD [])
      (heq : client' = { client with parser := parser })
  | answered {client : ProtocolClient} {now : UInt64} {msg : ProtocolData}
      {messages said : List ProtocolData} (hbefore : (t.game.player ref).client = some client)
      (haction : action = .message now) (hpc : t.pc = .reading client.clientFd (msg :: messages))
      (hmessages : t'.pc.messagesOf client.clientFd = messages)
      (hanswered : Request.Answered client.clientFd ⟨t.game, msg, t'.game⟩ said)
      (hsaid : SaidTo said client client')
  | waits {client : ProtocolClient} (hbefore : (t.game.player ref).client = some client)
      (hmessages : t'.pc.messagesOf client.clientFd = t.pc.messagesOf client.clientFd)
      (hgoes : ∀ d : GameDialogue, d.goOn client.clientFd (t, action, t') = d)
      (hsaid : SaidTo [] client client')

/-- A player is shown states at most by what does not concern him. -/
theorem talkStep_waits (htold : Told ref [] t.game t'.game)
    (hmessages : ∀ clientFd, t'.pc.messagesOf clientFd = t.pc.messagesOf clientFd)
    (hgoes : ∀ clientFd (d : GameDialogue), d.goOn clientFd (t, action, t') = d)
    (hclient' : (t'.game.player ref).client = some client') :
    TalkStep t action t' ref client' := by
  obtain ⟨client, hbefore, hsaid⟩ := htold client' hclient'
  exact .waits hbefore (hmessages _) (hgoes _) hsaid

/-- Nobody is being read while the other handlers run. -/
theorem messagesOf_of_step (h : step t action = some t') (hown : action.isOwn = true)
    (hmessage : ∀ now, action ≠ .message now) (clientFd : Int) :
    t.pc.messagesOf clientFd = [] := by
  cases hpc : t.pc with
  | reading fd messages =>
    cases action with
    | deliver | takeOutput | readOutput => cases hown
    | message now => exact (hmessage now rfl).elim
    | readDone =>
      cases messages with
      | nil => exact ite_self _
      | cons => simp [step, hpc] at h
    | newClientEvent | takeNewClient | collected | receive | disconnect | removeDescriptor | stop
    | destroy => simp [step, hpc] at h
  | waiting | collecting | stopping | finished => rfl

private theorem talkStep_takeNewClient {now1 now2 : UInt64}
    (hmessages : ∀ clientFd, t'.pc.messagesOf clientFd = t.pc.messagesOf clientFd)
    (hnobody : ∀ clientFd, t.pc.messagesOf clientFd = [])
    (hinput : t.game.gameInput.isEmpty = false)
    (hok : t.game.takeNewClient now1 now2 = .ok t'.game)
    (hclient' : (t'.game.player ref).client = some client') :
    TalkStep t (.takeNewClient now1 now2) t' ref client' := by
  obtain ⟨client, waiting, hdata⟩ := EventfdQueue.exists_of_isEmpty_eq_false hinput
  by_cases hplays : (t.game.player ref).client = none
  · exact .comes hplays ((hmessages _).trans (hnobody _))
  · exact talkStep_waits (told_takeNewClient hdata hok hplays) hmessages (fun _ _ => rfl) hclient'

theorem talkStep_receive (hnodup : t.game.heldFds.Nodup) {clientFd : Int} {received : Option Str}
    {messages : List ProtocolData} (hnobody : ∀ clientFd, t.pc.messagesOf clientFd = [])
    (hreceive : t.game.receiveMessages clientFd received = .ok (messages, t'.game))
    (hpc' : t'.pc = .reading clientFd messages)
    (hclient' : (t'.game.player ref).client = some client') :
    TalkStep t (.receive clientFd received) t' ref client' := by
  obtain ⟨reader, hreader, hrest⟩ := bind_eq_ok.mp hreceive
  obtain ⟨client, hclient, rfl⟩ := findPlayer_eq_some (getPlayer_eq_ok.mp hreader)
  -- whoever is not read has another descriptor
  have hother : ∀ before, (t.game.player ref).client = some before → before.clientFd ≠ client.clientFd →
      SaidTo [] before client' → TalkStep t (.receive client.clientFd received) t' ref client' := by
    intro before hbefore hne hsaid
    refine .waits hbefore ?_ (fun d => ?_) hsaid
    · rw [hnobody, hpc', ThreadPc.messagesOf, if_neg (Ne.symm hne)]
    · cases received with
      | none => rfl
      | some data => exact if_neg (Ne.symm hne)
  cases hparse : client.receiveMsg received with
  | error fault =>
    have heq :=
      (receiveMessages_of_error (getPlayer_eq_ok.mp hreader) hclient hparse).symm.trans hreceive
    obtain ⟨rfl, hgame⟩ := Prod.mk.inj (Except.ok.inj heq)
    rw [← hgame] at hclient'
    obtain ⟨before, hbefore, hsaid⟩ :=
      relates_onClientDisconnect allowsStates_saidTo t.game client.clientFd ref client' hclient'
    refine hother before hbefore (fun hsame => ?_) hsaid
    exact findPlayer_eq_none.mp (findPlayer_onClientDisconnect t.game client.clientFd) ref client'
      hclient' (hsaid.same.trans hsame)
  | ok result =>
    obtain ⟨parsed, after⟩ := result
    obtain ⟨data, parser, rfl, hdata, rfl⟩ := ProtocolClient.parse_of_receiveMsg hparse
    have heq := (receiveMessages_of_ok (getPlayer_eq_ok.mp hreader) hclient hparse).symm.trans hreceive
    obtain ⟨rfl, hgame⟩ := Prod.mk.inj (Except.ok.inj heq)
    rw [← hgame, modifyClient, player_modifyPlayer] at hclient'
    split at hclient'
    · rename_i href
      subst href
      rw [hclient] at hclient'
      cases hclient'
      refine .read hclient rfl (hnobody _) hdata ?_ rfl
      rw [hpc', ThreadPc.messagesOf, if_pos rfl]
    · rename_i hne
      refine hother client' hclient' (fun heq => hne ?_) (.refl client')
      have hfind := findPlayer_of_client hnodup hclient'
      rw [heq, findPlayer_of_client hnodup hclient] at hfind
      exact (Option.some.inj hfind).symm

theorem talkStep_message (hnodup : t.game.heldFds.Nodup) {now : UInt64} {clientFd : Int}
    {msg : ProtocolData} {messages : List ProtocolData} {sender : PlayerRef}
    (hpc : t.pc = .reading clientFd (msg :: messages))
    (hsender : t.game.findPlayer clientFd = some sender)
    (hok : t.game.processClientMessage msg clientFd now = .ok t'.game)
    (hpc' : t'.pc = .reading clientFd messages)
    (hclient' : (t'.game.player ref).client = some client') :
    TalkStep t (.message now) t' ref client' := by
  obtain ⟨said, hreplies, hanswered, hother⟩ :=
    answersSender_processClientMessage hnodup hsender hok
  obtain rfl | rfl := PlayerRef.eq_or_eq_other ref sender
  · obtain ⟨client, hclient, rfl⟩ := findPlayer_eq_some hsender
    obtain ⟨before, hbefore, hsaid⟩ := hanswered client' hclient'
    cases hclient.symm.trans hbefore
    exact .answered hclient rfl hpc (by rw [hpc', ThreadPc.messagesOf, if_pos rfl])
      ⟨hreplies, obeys_processClientMessage hnodup hok⟩ hsaid
  · obtain ⟨client, hclient, hsaid⟩ := hother client' hclient'
    have hne : clientFd ≠ client.clientFd := by
      rintro rfl
      rw [findPlayer_of_client hnodup hclient] at hsender
      exact PlayerRef.other_ne sender (Option.some.inj hsender)
    refine .waits hclient ?_ (fun d => ?_) hsaid
    · rw [hpc, hpc', ThreadPc.messagesOf, ThreadPc.messagesOf, if_neg hne, if_neg hne]
    · rw [GameDialogue.goOn, hpc]
      exact if_neg hne

theorem talkStep_of_step (hreach : system.Reachable t) (hstep : step t action = some t')
    (hruns : t'.Runs) (hclient' : (t'.game.player ref).client = some client') :
    TalkStep t action t' ref client' := by
  have hnodup := nodup_heldFds hreach
  have hnobody := messagesOf_of_step hstep
  cases effect_of_step hstep with
  | deliver _ hpc hgame =>
    refine talkStep_waits (told_of_client ?_) (fun _ => by rw [hpc]) (fun _ _ => rfl) hclient'
    rw [hgame]
    cases ref <;> rfl
  | output _ hown hpc hgame =>
    refine talkStep_waits (told_of_client ?_) (fun _ => by rw [hpc]) (fun _ _ => ?_) hclient'
    · rw [hgame]
      cases ref <;> rfl
    · cases action with
      | deliver | takeOutput | readOutput => rfl
      | _ => cases hown
  | newClientEvent hpc hgame | removeDescriptor hpc hgame =>
    refine talkStep_waits (told_of_client ?_) (fun _ => ?_) (fun _ _ => rfl) hclient'
    · rw [hgame]
      cases ref <;> rfl
    · rw [hpc, hnobody rfl (by simp)]
      rfl
  | handlerDone hdone hpc hgame =>
    cases action with
    | collected | readDone =>
      refine talkStep_waits (told_of_client (by rw [hgame])) (fun _ => ?_) (fun _ _ => rfl) hclient'
      rw [hpc, hnobody rfl (by simp)]
      rfl
    | _ => cases hdone
  | disconnect hpc hgame =>
    refine talkStep_waits ?_ (fun _ => ?_) (fun _ _ => rfl) hclient'
    · rw [hgame]
      exact relates_onClientDisconnect allowsStates_saidTo _ _ ref
    · rw [hpc, hnobody rfl (by simp)]
      rfl
  | takeNewClient hpc hinput hresume =>
    obtain ⟨hok, hpc'⟩ := GameLoop.ok_of_resume hresume hruns
    exact talkStep_takeNewClient (fun _ => by rw [hpc, hpc']) (hnobody rfl (by simp)) hinput hok
      hclient'
  | receive hreceive hpc =>
    exact talkStep_receive hnodup (hnobody rfl (by simp)) hreceive hpc hclient'
  | message hpc hresume =>
    obtain ⟨hok, hpc'⟩ := GameLoop.ok_of_resume hresume hruns
    obtain ⟨sender, hsender⟩ :=
      Option.ne_none_iff_exists'.mp (readerOnline_of_reachable hreach _ _ _ hpc)
    exact talkStep_message hnodup hpc hsender hok hpc' hclient'
  | receiveThrows _ _ hpc | stop hpc => exact (hruns.1 hpc).elim
  | destroy _ heq => exact (hruns.2 (by rw [heq])).elim

/-- The dialogue with a player is up to date, and there is none while he is offline. -/
structure Recorded (t : GameThread) (ref : PlayerRef) (d : Option GameDialogue) : Prop where
  gone : (t.game.player ref).client = none → d = none
  fits : ∀ client, (t.game.player ref).client = some client →
    ∃ dialogue, d = some dialogue ∧ dialogue.Fits t.pc client

theorem Recorded.talkStep {d : Option GameDialogue} (h : t.Recorded ref d)
    (hclient' : (t'.game.player ref).client = some client')
    (htalk : TalkStep t action t' ref client') :
    ∃ dialogue, GameDialogue.next ref d (t, action, t') = some dialogue ∧
      dialogue.Fits t'.pc client' := by
  rw [GameDialogue.next, hclient', Option.map_some]
  cases htalk with
  | comes hnew hmessages =>
    rw [h.gone hnew]
    refine ⟨_, rfl, rfl, ?_, [], [], (List.append_nil _).symm, .nil, rfl⟩
    rw [hmessages]
    rfl
  | read hbefore haction hidle hparse hmessages heq =>
    obtain ⟨d, rfl, hsame, hread, htold⟩ := h.fits _ hbefore
    rw [hidle, List.append_nil] at hread
    subst haction heq
    rw [Option.elim, GameDialogue.goOn_receive]
    refine ⟨_, rfl, hsame, ?_, htold⟩
    rw [hmessages]
    exact BufferedParser.feed_append hread hparse
  | answered hbefore haction hpc hmessages hanswered hsaid =>
    obtain ⟨d, rfl, hsame, hread, msgs, replies, hsent, htold, hamong⟩ := h.fits _ hbefore
    obtain ⟨later, hsent', rfl⟩ := hsaid.sent
    subst haction
    rw [Option.elim, hsaid.same, GameDialogue.goOn_message hpc]
    refine ⟨_, rfl, hsaid.same.trans hsame, ?_, msgs ++ later, replies ++ [repliesAmong later], ?_,
      ?_, ?_⟩
    · rw [hpc, ThreadPc.messagesOf, if_pos rfl] at hread
      rw [hsaid.same, hmessages, hsaid.parser, List.map_append, List.append_assoc]
      exact hread
    · rw [hsent', hsent, List.append_assoc]
    · rw [hsaid.same]
      exact List.rel_append htold (.cons hanswered .nil)
    · rw [repliesAmong_append, hamong, List.flatten_append, List.flatten_singleton]
  | waits hbefore hmessages hgoes hsaid =>
    obtain ⟨d, rfl, hsame, hread, msgs, replies, hsent, htold, hamong⟩ := h.fits _ hbefore
    obtain ⟨later, hsent', hlater⟩ := hsaid.sent
    rw [Option.elim, hsaid.same, hgoes d]
    refine ⟨d, rfl, hsaid.same.trans hsame, ?_, msgs ++ later, replies, ?_, hsaid.same ▸ htold, ?_⟩
    · rw [hsaid.same, hmessages, hsaid.parser]
      exact hread
    · rw [hsent', hsent, List.append_assoc]
    · rw [repliesAmong_append, hamong, hlater, List.append_nil]

theorem recorded_of_run {steps : List (GameThread × GameAction × GameThread)}
    (h : system.Run steps t) (hruns : t.Runs) (ref : PlayerRef) :
    t.Recorded ref (GameDialogue.ofRun ref steps) := by
  induction h with
  | @init t hinit =>
    obtain ⟨_, _, _, hstart, _⟩ := hinit
    obtain ⟨epoll, hgame⟩ := start_eq_ok hstart
    have hnone : (t.game.player ref).client = none := by
      rw [hgame]
      cases ref <;> rfl
    refine ⟨fun _ => rfl, fun client hclient => ?_⟩
    cases hnone.symm.trans hclient
  | @step steps t t' action hrun hstep ih =>
    have hnext : GameDialogue.ofRun ref (steps ++ [(t, action, t')]) =
        GameDialogue.next ref (GameDialogue.ofRun ref steps) (t, action, t') := by
      rw [GameDialogue.ofRun, List.foldl_append]
      rfl
    rw [hnext]
    refine ⟨fun hnone => ?_, fun client' hclient' => ?_⟩
    · rw [GameDialogue.next, hnone, Option.map_none]
    · exact (ih (runs_of_step hstep hruns)).talkStep hclient'
        (talkStep_of_step hrun.reachable hstep hruns hclient')

/-- As long as the loop of a game goes on, a player has been sent, since he took his
place and apart from game states, the replies to his requests in their order, and
nothing else: a command for a legal move is carried out and shown in the state, a
ping is returned, a leave is not replied to, and whatever else he sends is denied
and leaves the board alone. His requests are the messages the parser makes of what
was read of him, up to those that are about to be processed. -/
theorem hears_of_run {steps : List (GameThread × GameAction × GameThread)}
    (h : system.Run steps t) (hruns : t.Runs) {client : ProtocolClient}
    (hclient : (t.game.player ref).client = some client) :
    ∃ first chunks requests msgs replies,
      GameDialogue.ofRun ref steps = some ⟨first, chunks, requests⟩ ∧
      client.clientFd = first.clientFd ∧ client.sent = first.sent ++ msgs ∧
      List.Forall₂ (Request.Answered client.clientFd) requests replies ∧
      repliesAmong msgs = replies.flatten ∧
      BufferedParser.feed first.parser chunks =
        .ok (requests.map (·.msg) ++ t.pc.messagesOf client.clientFd, client.parser) := by
  obtain ⟨⟨first, chunks, requests⟩, hdialogue, hsame, hread, msgs, replies, hsent, htold, hamong⟩ :=
    (recorded_of_run h hruns ref).fits client hclient
  exact ⟨first, chunks, requests, msgs, replies, hdialogue, hsame, hsent, htold, hamong, hread⟩

/-- A player moves, moves again though he is not on turn, and pings in two chunks;
another ping of his is about to be processed. -/
theorem hears_of_run_moved : ∃ steps t client first chunks requests msgs replies,
    system.Run steps t ∧ (t.game.player .player1).client = some client ∧
    t.pc.messagesOf client.clientFd = [newProtocolMessage .GAME_PING []] ∧
    GameDialogue.ofRun .player1 steps = some ⟨first, chunks, requests⟩ ∧
    requests.map (·.msg.method) = [.GAME_COMMAND, .GAME_COMMAND, .GAME_PING] ∧
    client.sent = first.sent ++ msgs ∧
    List.Forall₂ (Request.Answered client.clientFd) requests replies ∧
    repliesAmong msgs = replies.flatten := by
  have hcheck : ((started.bind (TransitionSystem.traceActions step (joinBoth ++
      [.receive 10 ("GAME_COMMAND\nadd_edge:\x7b0,1\x7d\n\r\n\r\n" ++
          "GAME_COMMAND\nadd_edge:\x7b0,2\x7d\n\r\n\r\nGAME_PI").toList,
        .message 1000, .message 1000, .readDone,
        .receive 10 (some "NG\n\r\n\r\nGAME_PING\n\r\n\r\n".toList), .message 1000]))).any fun trace =>
      (trace.2.game.player .player1).client.any (fun client =>
        decide (trace.2.pc = .reading client.clientFd [newProtocolMessage .GAME_PING []])) &&
      (GameDialogue.ofRun .player1 trace.1).any fun d => decide
        (d.requests.map (·.msg.method) = [.GAME_COMMAND, .GAME_COMMAND, .GAME_PING])) = true := by
    decide +kernel
  obtain ⟨steps, t, hrun, hstate⟩ :=
    TransitionSystem.exists_run_of_any (fun _ _ _ => id) (init_of_start (by decide)) hcheck
  simp only [Bool.and_eq_true, decide_eq_true_eq, Option.any_eq_true] at hstate
  obtain ⟨⟨client, hclient, hpc⟩, d, hd, hmethods⟩ := hstate
  obtain ⟨first, chunks, requests, msgs, replies, hdialogue, _, hsent, htold, hamong, _⟩ :=
    hears_of_run hrun ⟨by simp [hpc], by simp [hpc]⟩ hclient
  cases hd.symm.trans hdialogue
  exact ⟨steps, t, client, first, chunks, requests, msgs, replies, hrun, hclient,
    by rw [hpc, ThreadPc.messagesOf, if_pos rfl], hdialogue, hmethods, hsent, htold, hamong⟩

end GameThread

end UpsServer
