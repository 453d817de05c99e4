import UpsServer.GameRoom.Command
import UpsServer.GameRoom.LossReport

open Outcome

namespace UpsServer.Game

/-- The message is answered by `_denyRequest`. -/
def IsDenied (g : Game) (msg : ProtocolData) (clientFd : Int) : Prop :=
  match msg.method with
  | .GAME_COMMAND => g.readMove msg clientFd = .ok none
  | .GAME_LEAVE | .GAME_PING => False
  | _ => True

/-- The message is denied to a sender who has been denied too often before. -/
def DeniedAtLimit (g : Game) (msg : ProtocolData) (clientFd : Int) : Prop :=
  IsDenied g msg clientFd ∧ ∃ ref client, (g.player ref).client = some client ∧
    client.clientFd = clientFd ∧
    MAX_REQ_DENIED_CNT ≤ client.reqDeniedCnt

/-- None of the messages is GAME_LEAVE, and none is denied to a sender who has
been denied too often before. -/
def Harmless (g : Game) (clientFd : Int) : List ProtocolData → (Nat → UInt64) → Prop
  | [], _ => True
  | msg :: messages, now => msg.method ≠ .GAME_LEAVE ∧ ¬ DeniedAtLimit g msg clientFd ∧
      ∀ g', g.processClientMessage msg clientFd (now 0) = .ok g' →
        Harmless g' clientFd messages fun i => now (i + 1)

/-- The data cannot be read or parsed, or holds harmless messages. -/
def HarmlessRead (g : Game) (clientFd : Int) (received : Option Str) (now : Nat → UInt64) : Prop :=
  (∃ ref client fault, (g.player ref).client = some client ∧ client.clientFd = clientFd ∧
      client.receiveMsg received = .error fault) ∨
    ∀ messages g', g.receiveMessages clientFd received = .ok (messages, g') →
      Harmless g' clientFd messages now

/-- Exactly one player is online. -/
def OneOnline (g : Game) : Prop :=
  ∃ ref client, (g.player ref).client = some client ∧ (g.player ref.other).client = none

/-- The game goes on, paused, and the idle room has been told. -/
def PausedOnly (g : Game) (x : Exec Game Game) : Prop :=
  ∃ g', x = .ok g' ∧ g'.isRunning = true ∧ g'.isPaused = true ∧ OneOnline g' ∧
    ∃ k, g'.gameOutput.data = g.gameOutput.data ++ List.replicate (k + 1) { newState := .PAUSED }

/-- The game between two messages of a read that began in `g₀`: the sender is
online, and the other player too unless the game has been paused for him. -/
structure BetweenMessages (g₀ : Game) (clientFd : Int) (sender : PlayerRef) (g : Game) : Prop where
  nodup : g.heldFds.Nodup
  online : ∃ client, (g.player sender).client = some client ∧ client.clientFd = clientFd
  opponent : (∃ client k, (g.player sender.other).client = some client ∧
      g.gameOutput.data = g₀.gameOutput.data ++ List.replicate k { newState := .PAUSED }) ∨
    ∃ k, (g.player sender.other).client = none ∧ g.isPaused = true ∧
      g.gameOutput.data = g₀.gameOutput.data ++ List.replicate (k + 1) { newState := .PAUSED }

theorem findPlayer_of_client {g : Game} (hnodup : g.heldFds.Nodup) {ref : PlayerRef}
    {client : ProtocolClient} (h : (g.player ref).client = some client) :
    g.findPlayer client.clientFd = some ref := by
  cases ref with
  | player1 =>
    simp only [player] at h
    simp [findPlayer, Player.hasClient, h]
  | player2 =>
    simp only [player] at h
    have hother : g.player1.hasClient client.clientFd = false := by
      rw [Bool.eq_false_iff, Player.hasClient, Ne, Option.any_eq_true]
      rintro ⟨client1, h1, heq⟩
      exact distinctPlayers_of_nodup hnodup h1 h (beq_iff_eq.mp heq)
    rw [Game.findPlayer, hother, if_neg Bool.false_ne_true, if_pos]
    simp [Player.hasClient, h]

section BetweenMessages

variable {g₀ g g' : Game} {clientFd : Int} {sender : PlayerRef}

theorem BetweenMessages.findPlayer (h : BetweenMessages g₀ clientFd sender g) :
    g.findPlayer clientFd = some sender := by
  obtain ⟨client, hclient, rfl⟩ := h.online
  exact findPlayer_of_client h.nodup hclient

/-- A step that keeps everybody online and pauses nothing. -/
theorem BetweenMessages.of_kept (h : BetweenMessages g₀ clientFd sender g) (hkept : Kept g g')
    (hclients : ∀ ref client, (g.player ref).client = some client → ∃ client',
        (g'.player ref).client = some client')
    (houtput : g'.gameOutput = g.gameOutput) (hpaused : g'.isPaused = g.isPaused) :
    BetweenMessages g₀ clientFd sender g' := by
  refine ⟨Multiset.nodup_of_le hkept.settled.heldFds_le h.nodup, ?_, ?_⟩
  · obtain ⟨client, hclient, rfl⟩ := h.online
    obtain ⟨client', hclient'⟩ := hclients _ _ hclient
    obtain ⟨client'', hclient'', hfd, _⟩ := hkept.players _ _ hclient'
    rw [hclient] at hclient''
    cases hclient''
    exact ⟨client', hclient', hfd⟩
  · rw [houtput, hpaused]
    rcases h.opponent with ⟨client, k, hclient, hk⟩ | ⟨k, hnone, hpaused, hk⟩
    · obtain ⟨client', hclient'⟩ := hclients _ _ hclient
      exact .inl ⟨client', k, hclient', hk⟩
    · refine .inr ⟨k, ?_, hpaused, hk⟩
      cases hclient' : (g'.player sender.other).client with
      | none => rfl
      | some client' =>
        obtain ⟨client, hclient, _⟩ := hkept.players _ _ hclient'
        rw [hnone] at hclient
        cases hclient

theorem BetweenMessages.modifyClient (h : BetweenMessages g₀ clientFd sender g) (ref : PlayerRef)
    {f : ProtocolClient → ProtocolClient}
    (hf : ∀ client, (g.player ref).client = some client →
      (f client).clientFd = client.clientFd ∧ (f client).clientName = client.clientName) :
    BetweenMessages g₀ clientFd sender (g.modifyClient ref f) := by
  refine h.of_kept (quiet_modifyClient g ref hf).toKept ?_ (gameOutput_modifyPlayer _ _ _)
    (isPaused_modifyPlayer _ _ _)
  intro ref' client hclient
  rw [Game.modifyClient, player_modifyPlayer]
  split
  · rename_i href
    subst href
    exact ⟨f client, by rw [hclient]; rfl⟩
  · exact ⟨client, hclient⟩

theorem checkInactivity_self (g : Game) (ref : PlayerRef) : g.checkInactivity ref ref = g := by
  refine if_neg fun h => ?_
  rw [UInt64.sub_self] at h
  exact absurd h.2 (by decide)

/-- Of the two checks only the one for the other player can drop him. -/
theorem checkInactivity_both (g : Game) (ref : PlayerRef) :
    (g.checkInactivity ref .player1).checkInactivity ref .player2 =
      g.checkInactivity ref ref.other := by
  cases ref with
  | player1 => rw [checkInactivity_self]; rfl
  | player2 => rw [checkInactivity_self]; rfl

theorem BetweenMessages.checkInactivity (h : BetweenMessages g₀ clientFd sender g) :
    BetweenMessages g₀ clientFd sender (g.checkInactivity sender sender.other) ∧
      (g.checkInactivity sender sender.other).isRunning = g.isRunning := by
  unfold Game.checkInactivity
  split
  · split
    · rename_i client hclient
      obtain ⟨reader, hreader, rfl⟩ := h.online
      have honline : g.Online := fun ref => by
        rcases PlayerRef.eq_or_eq_other ref sender with rfl | rfl
        · exact ⟨reader, hreader⟩
        · exact ⟨client, hclient⟩
      have hpaused :=
        paused_onClientDisconnect h.nodup honline (findPlayer_of_client h.nodup hclient)
      have hnodup := (quiet_onClientDisconnect g client.clientFd).toKept.settled.heldFds_le
      refine ⟨⟨Multiset.nodup_of_le hnodup h.nodup, ?_, ?_⟩, hpaused.running⟩
      · obtain ⟨_, _, msgs, hmsgs⟩ := hpaused.same
        rw [PlayerRef.other_other, hreader] at hmsgs
        exact ⟨_, hmsgs, rfl⟩
      · rcases h.opponent with ⟨_, k, _, hk⟩ | ⟨_, hnone, _⟩
        · refine .inr ⟨k, hpaused.offline, hpaused.paused, ?_⟩
          rw [hpaused.told, hk, List.append_assoc, List.replicate_succ']
        · rw [hclient] at hnone
          cases hnone
    · exact ⟨h, rfl⟩
  · exact ⟨h, rfl⟩

/-- Seeing the sender may drop the other player, and nobody else. -/
theorem BetweenMessages.updateClientLastSeen (h : BetweenMessages g₀ clientFd sender g)
    (now : UInt64) :
    ∃ g', g.updateClientLastSeen clientFd now = .ok g' ∧ g'.isRunning = g.isRunning ∧
      BetweenMessages g₀ clientFd sender g' := by
  have hseen : BetweenMessages g₀ clientFd sender
      (g.modifyPlayer sender fun p => { p with lastSeen := now }) := by
    refine h.of_kept (quiet_setLastSeen g sender now).toKept ?_ (gameOutput_modifyPlayer _ _ _)
      (isPaused_modifyPlayer _ _ _)
    intro ref client hclient
    exact ⟨client, by rw [player_modifyPlayer]; split <;> simp_all⟩
  obtain ⟨hbetween, hrunning⟩ := hseen.checkInactivity
  refine ⟨_, ?_, ?_, hbetween⟩
  · rw [Game.updateClientLastSeen, derefClient_eq_ok.mpr h.findPlayer, ok_bind,
      getPlayer_eq_ok.mpr h.findPlayer, ok_bind]
    exact congrArg Except.ok (checkInactivity_both _ _)
  · rw [hrunning, isRunning_modifyPlayer]

theorem denyRequest_of_client {client : ProtocolClient} (h : g.findPlayer clientFd = some sender)
    (hclient : (g.player sender).client = some client)
    (hlimit : client.reqDeniedCnt < MAX_REQ_DENIED_CNT) :
    g.denyRequest clientFd = .ok (g.modifyClient sender ProtocolClient.sendReqDeniedMsg) := by
  rw [denyRequest, derefClient_eq_ok.mpr h, ok_bind, clientOf_eq_ok.mpr hclient, ok_bind,
    if_neg (by omega)]
  rfl

/-- The answer to a message that is denied. -/
theorem answerMessage_of_isDenied {msg : ProtocolData} (h : g.findPlayer clientFd = some sender)
    (hdenied : IsDenied g msg clientFd) :
    g.answerMessage msg clientFd = g.denyRequest clientFd := by
  rw [answerMessage]
  cases hmethod : msg.method with
  | GAME_COMMAND =>
    rw [IsDenied, hmethod] at hdenied
    change g.processGameCommand msg clientFd = _
    rw [processGameCommand, derefClient_eq_ok.mpr h, ok_bind, hdenied]
    rfl
  | GAME_LEAVE | GAME_PING =>
    rw [IsDenied, hmethod] at hdenied
    exact hdenied.elim
  | _ => rfl

private theorem hasClient_false_of_kept {g g' : Game} (h : Kept g g') {ref : PlayerRef} {clientFd : Int}
    (hfalse : (g.player ref).hasClient clientFd = false) :
    (g'.player ref).hasClient clientFd = false := by
  rw [Bool.eq_false_iff, Player.hasClient, Ne, Option.any_eq_true] at hfalse ⊢
  rintro ⟨client', hclient', hfd'⟩
  obtain ⟨client, hclient, hfd, _⟩ := h.players ref client' hclient'
  exact hfalse ⟨client, hclient, by rwa [← hfd]⟩

private theorem hasClient_dropClient (g : Game) (ref : PlayerRef) (clientFd : Int) :
    ((g.dropClient ref clientFd).player ref).hasClient clientFd = false := by
  unfold dropClient
  split
  · rw [player_modifyPlayer_self]
    rfl
  · rename_i hclient
    simpa using hclient

/-- A client that has been dropped is no player any more. -/
theorem findPlayer_onClientDisconnect (g : Game) (clientFd : Int) :
    (g.onClientDisconnect clientFd).findPlayer clientFd = none := by
  have hdrop1 := hasClient_dropClient g .player1 clientFd
  have hdrop2 := hasClient_dropClient (g.dropClient .player1 clientFd) .player2 clientFd
  have hkept : Kept ((g.dropClient .player1 clientFd).dropClient .player2 clientFd)
      (g.onClientDisconnect clientFd) := by
    unfold onClientDisconnect
    simp only
    split
    · exact (quiet_stop _).toKept
    · exact (((quiet_pause _).trans (quiet_sendGameState _ .player1)).trans
        (quiet_sendGameState _ .player2)).toKept
  have hfalse1 := hasClient_false_of_kept hkept
    (hasClient_false_of_kept (quiet_dropClient _ .player2 clientFd).toKept hdrop1)
  have hfalse2 := hasClient_false_of_kept hkept hdrop2
  simp only [player] at hfalse1 hfalse2
  simp [Game.findPlayer, hfalse1, hfalse2]

theorem gameOutput_playMove {move : Move} (honline : g.Online) (h : g.playMove move = .ok g') :
    g'.gameOutput = g.gameOutput ∧ g'.isPaused = g.isPaused ∧ g'.isRunning = g.isRunning ∧
      g'.Online := by
  obtain ⟨gameData, _, hplay⟩ := playMove_ok honline move
  rw [hplay] at h
  cases h
  have honline' : ((g.addMove move).showMove gameData).Online := fun ref => by
    obtain ⟨client, hclient⟩ := online_addMove honline move ref
    exact ⟨_, client_showMove hclient gameData⟩
  split
  · refine ⟨?_, ?_, ?_, fun ref => by rw [client_clearGame]; exact honline' ref⟩
    all_goals simp [clearGame, showMove, Game.modifyClient, addMove]
  · refine ⟨?_, ?_, ?_, honline'⟩
    all_goals simp [showMove, Game.modifyClient, addMove]

/-- What is left of a message once it has been answered without dropping its
sender. -/
theorem BetweenMessages.seen (h : BetweenMessages g₀ clientFd sender g') {msg : ProtocolData}
    (hanswer : g.answerMessage msg clientFd = .ok g') (now : UInt64) :
    ∃ g'', g.processClientMessage msg clientFd now = .ok g'' ∧
      BetweenMessages g₀ clientFd sender g'' ∧ g''.isRunning = g'.isRunning := by
  obtain ⟨g'', hseen, hrunning, hbetween⟩ := h.updateClientLastSeen now
  exact ⟨g'', by rw [processClientMessage, hanswer, ok_bind, hseen], hbetween, hrunning⟩

/-- A command that is not denied is played, or leaves with an exception while
both players are online. -/
theorem BetweenMessages.command (h : BetweenMessages g₀ clientFd sender g) {msg : ProtocolData}
    (hdenied : g.readMove msg clientFd ≠ .ok none) :
    (∃ g', g.processGameCommand msg clientFd = .ok g' ∧ BetweenMessages g₀ clientFd sender g' ∧
        g'.isRunning = g.isRunning) ∨
      (∃ fault, g.processGameCommand msg clientFd = .error (fault, g)) ∧ g.Online := by
  cases hmove : g.readMove msg clientFd with
  | error e =>
    refine .inr ⟨⟨e.1, ?_⟩, ?_⟩
    · have hreads := reads_readMove g msg clientFd
      rw [hmove, reads_error] at hreads
      rw [processGameCommand, derefClient_eq_ok.mpr h.findPlayer, ok_bind, hmove, error_bind,
        ← hreads]
    · rcases h.opponent with ⟨client, _, hclient, _⟩ | ⟨_, _, hpaused, _⟩
      · obtain ⟨reader, hreader, _⟩ := h.online
        intro ref
        rcases PlayerRef.eq_or_eq_other ref sender with rfl | rfl
        · exact ⟨reader, hreader⟩
        · exact ⟨client, hclient⟩
      · rw [readMove, if_pos hpaused] at hmove
        cases hmove
  | ok move =>
    cases move with
    | none => exact (hdenied hmove).elim
    | some move =>
      have honline : g.Online := (legal_of_readMove hmove).online
      obtain ⟨gameData, _, hplay⟩ := playMove_ok honline move
      obtain ⟨houtput, hpaused, hrunning, honline'⟩ := gameOutput_playMove honline hplay
      refine .inl ⟨_, (processGameCommand_of_move hmove).trans hplay, ?_, hrunning⟩
      exact h.of_kept ((kept_playMove g move).of_ok hplay) (fun ref _ _ => honline' ref) houtput
        hpaused

/-- A message between two others goes well or ends the game, is denied at the
limit, or leaves with an exception before anyone has been dropped. -/
theorem BetweenMessages.message (h : BetweenMessages g₀ clientFd sender g) (msg : ProtocolData) (now : UInt64) :
    (∃ g', g.processClientMessage msg clientFd now = .ok g' ∧ BetweenMessages g₀ clientFd sender g' ∧
        g'.isRunning = (g.isRunning && decide (msg.method ≠ .GAME_LEAVE)) ∧ ¬ DeniedAtLimit g msg clientFd) ∨
      (∃ e, g.processClientMessage msg clientFd now = .error e) ∧ DeniedAtLimit g msg clientFd ∨
      (∃ fault, g.processClientMessage msg clientFd now = .error (fault, g)) ∧ g.Online := by
  obtain ⟨client, hclient, hfd⟩ := h.online
  by_cases hdenied : IsDenied g msg clientFd
  · have hanswer := answerMessage_of_isDenied h.findPlayer hdenied
    by_cases hlimit : MAX_REQ_DENIED_CNT ≤ client.reqDeniedCnt
    · refine .inr
        (.inl ⟨⟨(.useAfterFree, g.onClientDisconnect clientFd), ?_⟩, hdenied, sender, client,
          hclient, hfd, hlimit⟩)
      rw [processClientMessage, hanswer, denyRequest, derefClient_eq_ok.mpr h.findPlayer, ok_bind,
        clientOf_eq_ok.mpr hclient, ok_bind, if_pos hlimit, hfd]
      change (g.onClientDisconnect clientFd).updateClientLastSeen clientFd now = _
      rw [Game.updateClientLastSeen, derefClient, findPlayer_onClientDisconnect]
      rfl
    · rw [denyRequest_of_client h.findPlayer hclient (by omega)] at hanswer
      have hdeny : BetweenMessages g₀ clientFd sender
          (g.modifyClient sender ProtocolClient.sendReqDeniedMsg) :=
        h.modifyClient sender fun _ _ => ⟨rfl, rfl⟩
      obtain ⟨g', hprocess, hbetween, hrunning⟩ := hdeny.seen hanswer now
      refine .inl ⟨g', hprocess, hbetween, ?_, ?_⟩
      · have hleave : msg.method ≠ .GAME_LEAVE :=
          fun hmethod => by rw [IsDenied, hmethod] at hdenied; exact hdenied
        rw [hrunning, Game.modifyClient, isRunning_modifyPlayer, decide_eq_true hleave,
          Bool.and_true]
      · rintro ⟨_, ref, client', hclient', hfd', hlimit'⟩
        have href := findPlayer_of_client h.nodup hclient'
        rw [hfd', h.findPlayer] at href
        cases href
        rw [hclient] at hclient'
        cases hclient'
        exact hlimit hlimit'
  · have hnot : ¬ DeniedAtLimit g msg clientFd := fun hlimit => hdenied hlimit.1
    by_cases hcommand : msg.method = .GAME_COMMAND
    · have hmove : g.readMove msg clientFd ≠ .ok none :=
        fun hmove => hdenied (by rwa [IsDenied, hcommand])
      have hanswer : g.answerMessage msg clientFd = g.processGameCommand msg clientFd := by
        rw [answerMessage, hcommand]
      rcases h.command hmove with ⟨g', hprocess, hbetween, hrunning⟩ | ⟨⟨fault, hfault⟩, honline⟩
      · obtain ⟨g'', hprocess', hbetween', hrunning'⟩ := hbetween.seen (hanswer.trans hprocess) now
        refine .inl ⟨g'', hprocess', hbetween', ?_, hnot⟩
        rw [hrunning', hrunning, hcommand]
        simp
      · refine .inr (.inr ⟨⟨fault, ?_⟩, honline⟩)
        rw [processClientMessage, hanswer, hfault]
        rfl
    by_cases hleave : msg.method = .GAME_LEAVE
    · have hanswer : g.answerMessage msg clientFd = .ok g.endGame := by
        rw [answerMessage, hleave]; rfl
      have hend : BetweenMessages g₀ clientFd sender g.endGame :=
        h.of_kept (quiet_stop g).toKept
          (fun ref client hclient => ⟨client, by cases ref <;> exact hclient⟩) rfl rfl
      obtain ⟨g', hprocess, hbetween, hrunning⟩ := hend.seen hanswer now
      refine .inl ⟨g', hprocess, hbetween, ?_, hnot⟩
      rw [hrunning, hleave]
      simp [endGame]
    have hping : msg.method = .GAME_PING := by
      by_contra hping
      refine hdenied ?_
      unfold IsDenied
      split <;> simp_all
    have hanswer : g.answerMessage msg clientFd =
        .ok (g.modifyClient sender (·.sendMsg (newProtocolMessage .GAME_PING []))) := by
      rw [answerMessage, hping]
      simp only
      rw [clientPing, derefClient_eq_ok.mpr h.findPlayer, ok_bind]
      exact sendMsg_of_client hclient _
    have hsent : BetweenMessages g₀ clientFd sender
        (g.modifyClient sender (·.sendMsg (newProtocolMessage .GAME_PING []))) :=
      h.modifyClient sender fun _ _ => ⟨rfl, rfl⟩
    obtain ⟨g', hprocess, hbetween, hrunning⟩ := hsent.seen hanswer now
    refine .inl ⟨g', hprocess, hbetween, ?_, hnot⟩
    rw [hrunning, Game.modifyClient, isRunning_modifyPlayer, hping]
    simp

private theorem not_oneOnline_of_online (h : g.Online) : ¬ OneOnline g := by
  rintro ⟨ref, _, _, hnone⟩
  obtain ⟨client, hclient⟩ := h ref.other
  rw [hnone] at hclient
  cases hclient

/-- From any point of a read that ends with one player online, the game has only
been paused exactly if it is running there and the rest of the messages is
harmless. -/
theorem BetweenMessages.pausedOnly_processMessages (h : BetweenMessages g₀ clientFd sender g)
    (messages : List ProtocolData) (now : Nat → UInt64)
    (hone : OneOnline (final (g.processMessages clientFd messages now))) :
    PausedOnly g₀ (g.processMessages clientFd messages now) ↔
      g.isRunning = true ∧ Harmless g clientFd messages now := by
  induction messages generalizing g now with
  | nil =>
    constructor
    · rintro ⟨g', hg', hrunning, _⟩
      cases hg'
      exact ⟨hrunning, trivial⟩
    · rintro ⟨hrunning, _⟩
      rcases h.opponent with ⟨client, _, hclient, _⟩ | ⟨k, _, hpaused, hk⟩
      · obtain ⟨reader, hreader, _⟩ := h.online
        refine (not_oneOnline_of_online (fun ref => ?_) hone).elim
        rcases PlayerRef.eq_or_eq_other ref sender with rfl | rfl
        · exact ⟨reader, hreader⟩
        · exact ⟨client, hclient⟩
      · exact ⟨g, rfl, hrunning, hpaused, hone, k, hk⟩
  | cons msg messages ih =>
    rw [processMessages] at hone ⊢
    rcases h.message msg (now 0)
        with ⟨g', hprocess, hbetween, hrunning, hnot⟩ | ⟨⟨e, hfault⟩, hlimit⟩ |
      ⟨⟨fault, hfault⟩, honline⟩
    · rw [hprocess, ok_bind] at hone ⊢
      rw [ih hbetween _ hone, hrunning, Harmless, hprocess]
      simp only [Bool.and_eq_true, decide_eq_true_eq, Except.ok.injEq, forall_eq']
      tauto
    · rw [hfault, error_bind]
      constructor
      · rintro ⟨g', hg', _⟩
        cases hg'
      · rintro ⟨_, _, hnot, _⟩
        exact (hnot hlimit).elim
    · rw [hfault, error_bind] at hone
      exact (not_oneOnline_of_online honline hone).elim

end BetweenMessages

/-- A read whose data cannot be parsed drops its sender. -/
theorem receiveMessages_of_error {g : Game} {clientFd : Int} {ref : PlayerRef}
    {client : ProtocolClient} {received : Option Str} {fault : Fault}
    (hfind : g.findPlayer clientFd = some ref) (hclient : (g.player ref).client = some client)
    (hreceive : client.receiveMsg received = .error fault) :
    g.receiveMessages clientFd received = .ok ([], g.onClientDisconnect client.clientFd) := by
  rw [receiveMessages, getPlayer_eq_ok.mpr hfind, ok_bind, clientOf_eq_ok.mpr hclient, ok_bind,
    hreceive]
  rfl

theorem receiveMessages_of_ok {g : Game} {clientFd : Int} {ref : PlayerRef}
    {client client' : ProtocolClient} {received : Option Str}
    {messages : Option (List ProtocolData)} (hfind : g.findPlayer clientFd = some ref)
    (hclient : (g.player ref).client = some client)
    (hreceive : client.receiveMsg received = .ok (messages, client')) :
    g.receiveMessages clientFd received =
      .ok (messages.getD [], g.modifyClient ref fun _ => client') := by
  rw [receiveMessages, getPlayer_eq_ok.mpr hfind, ok_bind, clientOf_eq_ok.mpr hclient, ok_bind,
    hreceive]
  rfl

end UpsServer.Game

namespace UpsServer.GameThread

open Game

/-- A read that drops one of two players only pauses the game, without an
exception, exactly when its data cannot be parsed or its messages are harmless. -/
theorem pausedOnly_iff {t : GameThread} {clientFd : Int} {sender : PlayerRef}
    {received : Option Str} {now : Nat → UInt64} (h : system.Reachable t)
    (hrunning : t.game.isRunning = true) (honline : t.game.Online)
    (hsender : t.game.findPlayer clientFd = some sender)
    (hone : OneOnline (final (t.game.onClientWrite clientFd received now))) :
    PausedOnly t.game (t.game.onClientWrite clientFd received now) ↔
      HarmlessRead t.game clientFd received now := by
  have hnodup := nodup_heldFds h
  obtain ⟨client, hclient, rfl⟩ := findPlayer_eq_some hsender
  cases hreceive : client.receiveMsg received with
  | error fault =>
    refine iff_of_true ?_ (.inl ⟨sender, client, fault, hclient, rfl, hreceive⟩)
    have hpaused := paused_onClientDisconnect hnodup honline hsender
    rw [onClientWrite, receiveMessages_of_error hsender hclient hreceive, ok_bind] at hone ⊢
    exact ⟨_, rfl, hpaused.running.trans hrunning, hpaused.paused, hone, 0, hpaused.told⟩
  | ok result =>
    obtain ⟨messages, client'⟩ := result
    have hmessages := receiveMessages_of_ok hsender hclient hreceive
    obtain ⟨opponent, hopponent⟩ := honline sender.other
    have hbetween : BetweenMessages t.game client.clientFd sender t.game :=
      ⟨hnodup, ⟨client, hclient, rfl⟩, .inl ⟨opponent, 0, hopponent, by simp⟩⟩
    obtain ⟨parser, rfl⟩ := ProtocolClient.receiveMsg_eq_ok hreceive
    have hparsed : BetweenMessages t.game client.clientFd sender
        (t.game.modifyClient sender fun _ => { client with parser := parser }) :=
      hbetween.modifyClient sender fun client'' hclient'' => by
        rw [hclient] at hclient''
        cases hclient''
        exact ⟨rfl, rfl⟩
    rw [onClientWrite, hmessages, ok_bind] at hone ⊢
    rw [hparsed.pausedOnly_processMessages _ _ hone, HarmlessRead, hmessages]
    have hnoError : ¬ ∃ ref client', ∃ fault, (t.game.player ref).client = some client' ∧
        client'.clientFd = client.clientFd ∧ client'.receiveMsg received = .error fault := by
      rintro ⟨ref, client'', fault, hclient'', hfd, hfault⟩
      have href := findPlayer_of_client hnodup hclient''
      rw [hfd, hsender] at href
      cases href
      rw [hclient] at hclient''
      cases hclient''
      rw [hreceive] at hfault
      cases hfault
    have hrunning' : (t.game.modifyClient sender fun _ =>
          { client with parser := parser }).isRunning = true := by
      rw [modifyClient, isRunning_modifyPlayer, hrunning]
    rw [or_iff_right hnoError]
    simp [hrunning']

/-- Messages that a game always denies. -/
def denials (n : Nat) : Str := (List.replicate n "CONNECTED_OK\n\r\n\r\n".toList).flatten

theorem pausedOnly_iff_failed_read : ∃ t, system.Reachable t ∧
    OneOnline (final (t.game.onClientWrite 10 none fun _ => 1000)) ∧
    PausedOnly t.game (t.game.onClientWrite 10 none fun _ => 1000) := by
  have hcheck : ((started.bind (TransitionSystem.runActions step joinBoth)).any fun t =>
      t.game.isRunning && t.game.bothPlayersOnline && t.game.findPlayer 10 == some .player1 &&
        (final (t.game.onClientWrite 10 none fun _ => 1000)).player1.client.isNone &&
        (final (t.game.onClientWrite 10 none fun _ => 1000)).player2.client.isSome) = true := by
    decide +kernel
  obtain ⟨t, hreachable, hstate⟩ := exists_of_started hcheck
  simp only [Bool.and_eq_true, beq_iff_eq, bothPlayersOnline, playerOneOnline, playerTwoOnline,
    Option.isSome_iff_exists, Option.isNone_iff_eq_none] at hstate
  obtain ⟨⟨⟨⟨hrunning, h1, h2⟩, hfind⟩, hnone⟩, client, hsome⟩ := hstate
  have hone : OneOnline (final (t.game.onClientWrite 10 none fun _ => 1000)) :=
    ⟨.player2, client, hsome, hnone⟩
  have honline : t.game.Online := fun ref => by cases ref <;> assumption
  refine ⟨t, hreachable, hone, (pausedOnly_iff hreachable hrunning honline hfind hone).mpr (.inl ?_)⟩
  obtain ⟨client, hclient, hfd⟩ := findPlayer_eq_some hfind
  exact ⟨.player1, client, _, hclient, hfd, rfl⟩

/-- The denial that exceeds the limit uses its client after dropping it. -/
theorem not_pausedOnly_denials :
    ¬ ∀ t clientFd sender received now, system.Reachable t → t.game.isRunning = true →
      t.game.Online → t.game.findPlayer clientFd = some sender →
      OneOnline (final (t.game.onClientWrite clientFd received now)) →
      PausedOnly t.game (t.game.onClientWrite clientFd received now) := by
  have hcheck : ((started.bind (TransitionSystem.runActions step joinBoth)).any fun t =>
      t.game.isRunning && t.game.bothPlayersOnline && t.game.findPlayer 10 == some .player1 &&
        (final (t.game.onClientWrite 10 (some (denials 6)) fun _ => 1000)).player1.client.isNone &&
        (final (t.game.onClientWrite 10 (some (denials 6)) fun _ => 1000)).player2.client.isSome &&
        (t.game.onClientWrite 10 (some (denials 6)) fun _ => 1000).toOption.isNone) = true := by
    decide +kernel
  obtain ⟨t, hreachable, hstate⟩ := exists_of_started hcheck
  simp only [Bool.and_eq_true, beq_iff_eq, bothPlayersOnline, playerOneOnline, playerTwoOnline,
    Option.isSome_iff_exists, Option.isNone_iff_eq_none] at hstate
  obtain ⟨⟨⟨⟨⟨hrunning, h1, h2⟩, hfind⟩, hnone⟩, client, hsome⟩, hfault⟩ := hstate
  intro hall
  obtain ⟨g', hok, _⟩ := hall t 10 .player1 (some (denials 6)) (fun _ => 1000) hreachable hrunning
    (fun ref => by cases ref <;> assumption) hfind ⟨.player2, client, hsome, hnone⟩
  rw [toOption_eq_some.mpr hok] at hfault
  cases hfault

end UpsServer.GameThread
