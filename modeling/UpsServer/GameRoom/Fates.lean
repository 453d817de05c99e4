import Mathlib.Logic.Relation
import UpsServer.GameRoom.GameLoop

open Outcome Relation

namespace UpsServer.Game

/-- A command of the player on turn while nobody plays against him, in a game that
has not been paused. -/
structure PlaysAlone (g : Game) (msg : ProtocolData) (clientFd : Int) : Prop where
  method : msg.method = .GAME_COMMAND
  notPaused : g.isPaused = false
  onTurn : g.findPlayer clientFd = some g.onTurn
  alone : (g.player g.onTurn.other).client = none

section Messages

variable {g g' : Game} {msg : ProtocolData} {clientFd : Int} {sender : PlayerRef}

/-- The check whose turn it is looks at the client of the player who is not on
turn. -/
theorem PlaysAlone.readMove (h : g.PlaysAlone msg clientFd) :
    g.readMove msg clientFd = .error (.nullDereference, g) := by
  have hopponent : (if g.isPlayerOneTurn then PlayerRef.player2 else .player1) =
      g.onTurn.other := by
    rw [Game.onTurn]
    cases g.isPlayerOneTurn <;> rfl
  have hnull : g.clientOf g.onTurn.other = .error (.nullDereference, g) := by
    rw [clientOf, h.alone]
  rw [Game.readMove, if_neg (by simp [h.notPaused]), getPlayer_eq_ok.mpr h.onTurn, ok_bind,
    isNotOnTurn, hopponent, hnull]
  rfl

/-- The checks of a command come to an answer, unless its edge breaks off or the
opponent is missing. -/
theorem readMove_answers_iff (hnodup : g.heldFds.Nodup) (h : g.findPlayer clientFd = some sender)
    (hmethod : msg.method = .GAME_COMMAND) : (∃ move, g.readMove msg clientFd = .ok move) ↔
      ¬ g.BreaksOff msg clientFd ∧ ¬ g.PlaysAlone msg clientFd := by
  rw [← throws_readMove hnodup h hmethod]
  constructor
  · rintro ⟨move, hmove⟩
    rw [hmove]
    refine ⟨not_fails_ok, fun halone => ?_⟩
    cases hmove.symm.trans halone.readMove
  · rintro ⟨hthrows, halone⟩
    obtain ⟨reader, hreader, hfd⟩ := findPlayer_eq_some h
    cases hpaused : g.isPaused with
    | true => exact ⟨none, if_pos hpaused⟩
    | false =>
      by_cases hturn : sender = g.onTurn
      · have hopponent : ∃ client, (g.player g.onTurn.other).client = some client := by
          rw [← Option.ne_none_iff_exists']
          exact fun hnone => halone ⟨hmethod, hpaused, hturn ▸ h, hnone⟩
        have honline : g.Online := fun ref => by
          obtain rfl | rfl := PlayerRef.eq_or_eq_other ref g.onTurn
          · exact ⟨reader, hturn ▸ hreader⟩
          · exact hopponent
        refine (readMove_ok_iff hnodup honline h).mpr (.inr (.inr fun edge hedge => ?_))
        by_contra hshort
        refine hthrows ((throws_readMove hnodup h hmethod).mpr ?_)
        exact ⟨hmethod, hpaused, hturn ▸ h, hopponent, edge, hedge, Nat.lt_of_not_le hshort⟩
      · -- the sender is the player who is not on turn, and is told so
        have hother : sender = g.onTurn.other :=
          (PlayerRef.eq_or_eq_other sender g.onTurn).resolve_left hturn
        refine ⟨none, ?_⟩
        rw [Game.readMove, if_neg (by simp [hpaused]), getPlayer_eq_ok.mpr h, ok_bind,
          isNotOnTurn_eq hnodup (hother ▸ hreader) h]
        simp only [ok_bind, ne_eq, hturn, not_false_eq_true, decide_true, if_true]
        rfl

/-- Whoever has just been seen is there. -/
theorem findPlayer_of_updateClientLastSeen {now : UInt64} (hnodup : g.heldFds.Nodup)
    (h : g.updateClientLastSeen clientFd now = .ok g') : g'.findPlayer clientFd ≠ none := by
  obtain ⟨ref, href, _⟩ := bind_eq_ok.mp h
  have hfind := derefClient_eq_ok.mp href
  obtain ⟨client, hclient, rfl⟩ := findPlayer_eq_some hfind
  have hkept := ((quiet_updateClientLastSeen g client.clientFd now).of_ok h).toKept
  rw [findPlayer_of_kept hnodup hkept hclient]
  rw [updateClientLastSeen_of_findPlayer hfind] at h
  have hseen : ((g.see ref now).player ref).client = some client := (client_see g ref ref now).trans hclient
  by_cases hstale : g.Stale ref.other now
  · rw [if_pos hstale] at h
    cases hother : (g.player ref.other).client with
    | none =>
      rw [hother] at h
      cases h
      exact ⟨client, hseen⟩
    | some other =>
      rw [hother] at h
      cases h
      have hother' : ((g.see ref now).player ref.other).client = some other :=
        (client_see g ref ref.other now).trans hother
      have honline : (g.see ref now).Online := fun ref' => by
        obtain rfl | rfl := PlayerRef.eq_or_eq_other ref' ref
        · exact ⟨client, hseen⟩
        · exact ⟨other, hother'⟩
      have hnodup' := nodup_of_kept hnodup (quiet_setLastSeen g ref now).toKept
      obtain ⟨_, _, msgs, hmsgs⟩ := (paused_onClientDisconnect hnodup' honline
        (findPlayer_of_client hnodup' hother')).same
      rw [PlayerRef.other_other] at hmsgs
      exact ⟨_, hmsgs.trans (congrArg _ hseen)⟩
  · rw [if_neg hstale] at h
    cases h
    exact ⟨client, hseen⟩

private theorem findPlayer_of_processClientMessage {now : UInt64} (hnodup : g.heldFds.Nodup)
    (h : g.processClientMessage msg clientFd now = .ok g') : g'.findPlayer clientFd ≠ none := by
  obtain ⟨answered, hanswer, hseen⟩ := bind_eq_ok.mp h
  have hkept := (kept_answerMessage g msg clientFd).of_ok hanswer
  exact findPlayer_of_updateClientLastSeen (nodup_of_kept hnodup hkept) hseen

/-- A sender who may still be denied is answered and stays. -/
theorem exists_answer (hnodup : g.heldFds.Nodup) (h : g.findPlayer clientFd = some sender)
    (hlimit : ¬ DeniedAtLimit g msg clientFd) (hbreaks : ¬ g.BreaksOff msg clientFd)
    (halone : ¬ g.PlaysAlone msg clientFd) :
    ∃ g', g.answerMessage msg clientFd = .ok g' ∧ g'.findPlayer clientFd ≠ none := by
  obtain ⟨client, hclient, rfl⟩ := findPlayer_eq_some h
  have hstays : ∀ {g' : Game}, Kept g g' → (∃ client', (g'.player sender).client = some client') →
      g'.findPlayer client.clientFd ≠ none :=
    fun hkept => (findPlayer_of_kept hnodup hkept hclient).mpr
  have hsent : ∀ f : ProtocolClient → ProtocolClient, ∃ client',
      ((g.modifyClient sender f).player sender).client = some client' := by
    intro f
    rw [Game.modifyClient, player_modifyPlayer_self, hclient]
    exact ⟨_, rfl⟩
  by_cases hdenied : IsDenied g msg client.clientFd
  · have hbelow : client.reqDeniedCnt < MAX_REQ_DENIED_CNT := by
      by_contra hreached
      exact hlimit ⟨hdenied, sender, client, hclient, rfl, Nat.le_of_not_lt hreached⟩
    have hkept : Kept g (g.modifyClient sender ProtocolClient.sendReqDeniedMsg) :=
      (quiet_modifyClient g sender (f := ProtocolClient.sendReqDeniedMsg) fun _ _ =>
        ⟨rfl, rfl⟩).toKept
    exact ⟨_, (answerMessage_of_isDenied h hdenied).trans (denyRequest_of_client h hclient hbelow),
      hstays hkept (hsent _)⟩
  · cases hmethod : msg.method with
    | GAME_COMMAND =>
      rw [IsDenied, hmethod] at hdenied
      obtain ⟨move, hmove⟩ := (readMove_answers_iff hnodup h hmethod).mpr ⟨hbreaks, halone⟩
      cases move with
      | none => exact (hdenied hmove).elim
      | some move =>
        have honline : g.Online := (legal_of_readMove hmove).online
        obtain ⟨gameData, _, hplay⟩ := playMove_ok honline move
        obtain ⟨_, _, _, honline'⟩ := gameOutput_playMove honline hplay
        refine ⟨_, ?_, hstays ((kept_playMove g move).of_ok hplay) (honline' sender)⟩
        rw [answerMessage, hmethod]
        exact (processGameCommand_of_move hmove).trans hplay
    | GAME_LEAVE =>
      refine ⟨g.endGame, by rw [answerMessage, hmethod]; rfl, hstays (quiet_stop g).toKept ?_⟩
      exact ⟨client, by cases sender <;> exact hclient⟩
    | GAME_PING =>
      refine ⟨_, ?_, hstays (quiet_sent g sender (newProtocolMessage .GAME_PING [])).toKept (hsent _)⟩
      rw [answerMessage, hmethod]
      simp only
      rw [clientPing, derefClient_eq_ok.mpr h, ok_bind]
      exact sendMsg_of_client hclient _
    | _ => exact (hdenied (by rw [IsDenied, hmethod]; trivial)).elim

/-- The sender who has been denied too often is used after he was dropped. -/
theorem DeniedAtLimit.processClientMessage (hnodup : g.heldFds.Nodup)
    (h : DeniedAtLimit g msg clientFd) (now : UInt64) :
    g.processClientMessage msg clientFd now =
      .error (.useAfterFree, g.onClientDisconnect clientFd) := by
  obtain ⟨hdenied, ref, client, hclient, rfl, hlimit⟩ := h
  have hfind := findPlayer_of_client hnodup hclient
  rw [Game.processClientMessage, answerMessage_of_isDenied hfind hdenied, denyRequest,
    derefClient_eq_ok.mpr hfind, ok_bind, clientOf_eq_ok.mpr hclient, ok_bind, if_pos hlimit]
  change (g.onClientDisconnect client.clientFd).updateClientLastSeen client.clientFd now = _
  rw [updateClientLastSeen, derefClient, findPlayer_onClientDisconnect]
  rfl

/-- The messages of a player that are processed to the end. -/
theorem processClientMessage_ok_iff (hnodup : g.heldFds.Nodup)
    (h : g.findPlayer clientFd = some sender) (now : UInt64) :
    (∃ g', g.processClientMessage msg clientFd now = .ok g') ↔
      ¬ DeniedAtLimit g msg clientFd ∧ ¬ g.BreaksOff msg clientFd ∧
        ¬ g.PlaysAlone msg clientFd := by
  constructor
  · rintro ⟨g', hg'⟩
    refine ⟨fun hlimit => ?_, fun hbreaks => ?_, fun halone => ?_⟩
    · cases (hlimit.processClientMessage hnodup now).symm.trans hg'
    · have hthrows := (throws_processClientMessage hnodup now).mpr hbreaks
      rw [hg'] at hthrows
      exact not_fails_ok hthrows
    · obtain ⟨_, hanswer, _⟩ := bind_eq_ok.mp hg'
      rw [answerMessage, halone.method] at hanswer
      obtain ⟨_, _, hcommand⟩ := bind_eq_ok.mp hanswer
      obtain ⟨_, hmove, _⟩ := bind_eq_ok.mp hcommand
      cases halone.readMove.symm.trans hmove
  · rintro ⟨hlimit, hbreaks, halone⟩
    obtain ⟨g', hanswer, hstays⟩ := exists_answer hnodup h hlimit hbreaks halone
    obtain ⟨ref, href⟩ := Option.ne_none_iff_exists'.mp hstays
    exact ⟨_, by rw [processClientMessage, hanswer, ok_bind, updateClientLastSeen_of_findPlayer href]⟩

end Messages

/-- An arrival is handled to the end, unless no place is free, the client cannot be
registered, or the second player is dropped before the state is sent to him. -/
theorem takeNewClient_ok_iff {g : Game} {client : ProtocolClient} {waiting : List ProtocolClient}
    (hnodup : g.heldFds.Nodup) (hdata : g.gameInput.data = client :: waiting)
    (now1 now2 : UInt64) :
    (∃ g', g.takeNewClient now1 now2 = .ok g') ↔
      g.freePlayer ≠ none ∧ g.CanRegister client.clientFd ∧
        ¬ (g.OneOnline ∧ g.Stale .player2 now1) := by
  constructor
  · rintro ⟨g', hg'⟩
    obtain ⟨ref, _, hfree, hregister, _⟩ := takeNewClient_eq_ok hdata hg'
    refine ⟨by simp [hfree], hregister, ?_⟩
    rintro ⟨⟨left, other, hother, hnone⟩, hstale⟩
    rw [← PlayerRef.other_other left] at hother
    obtain ⟨arrived, hgreet, hnodup', honline, _, hstale'⟩ :=
      takeNewClient_of_oneOnline hnodup hother hnone hdata hregister now1 now2
    rw [hgreet] at hg'
    exact greetPlayers_of_stale hnodup' honline ((hstale' now1).mpr hstale) now2 hg'
  · rintro ⟨hfree, hregister, hstale⟩
    obtain ⟨ref, href⟩ := Option.ne_none_iff_exists'.mp hfree
    have hnone := freePlayer_eq_some href
    cases hother : (g.player ref.other).client with
    | some other =>
      obtain ⟨arrived, hgreet, hnodup', honline, _, hstale'⟩ :=
        takeNewClient_of_oneOnline hnodup hother hnone hdata hregister now1 now2
      have hone : g.OneOnline := ⟨ref.other, other, hother, by rwa [PlayerRef.other_other]⟩
      have hfresh : ¬ arrived.Stale .player2 now1 := fun h => hstale ⟨hone, (hstale' now1).mp h⟩
      obtain ⟨g', hok, _⟩ := greetPlayers_of_not_stale hnodup' honline hfresh now2
      exact ⟨g', hgreet.trans hok⟩
    | none =>
      obtain ⟨epoll, hwatch⟩ := hregister
      have hpop : g.gameInput.pop = some (client, { g.gameInput with data := waiting }) :=
        EventfdQueue.pop_eq_some.mpr ⟨waiting, hdata, rfl⟩
      have hlone : ((g.arrive ref client { g.gameInput with data := waiting }).player
          ref.other).client = none := by
        rw [arrive, player_modifyPlayer_other, ← hother]
        cases ref <;> rfl
      rw [takeNewClient, href, hpop]
      set taken := g.arrive ref client { g.gameInput with data := waiting } with htaken
      have hregistered : taken.registerClient client.clientFd =
          .ok { taken with epoll := epoll } := by
        rw [registerClient, htaken, arrive, epoll_modifyPlayer, hwatch]
        rfl
      refine ⟨{ taken with epoll := epoll }, ?_⟩
      change (taken.registerClient client.clientFd >>= _) = _
      rw [hregistered, ok_bind, if_neg]
      · rfl
      · rw [bothPlayersOnline_eq_true]
        intro honline
        obtain ⟨other, hother'⟩ := honline ref.other
        have hplayer : ({ taken with epoll := epoll } : Game).player ref.other =
            taken.player ref.other := by cases ref <;> rfl
        rw [hplayer, hlone] at hother'
        cases hother'

end UpsServer.Game

namespace UpsServer.GameThread

open Game

variable {t t' : GameThread} {action : GameAction}

/-- The thread is about to run this part of a handler. -/
def Due (t : GameThread) : GameAction → Prop
  | .newClientEvent => t.pc = .waiting ∧
      t.game.epoll.handler t.game.gameInput.evfd EPOLLIN = some .onNewClientConnect
  | .takeNewClient _ _ => t.pc = .collecting ∧ t.game.gameInput.data ≠ []
  | .collected => t.pc = .collecting ∧ t.game.gameInput.data = []
  | .receive clientFd _ => t.pc = .waiting ∧
      t.game.epoll.handler clientFd EPOLLIN = some .onClientWrite
  | .message _ => ∃ clientFd msg messages, t.pc = .reading clientFd (msg :: messages)
  | .readDone => ∃ clientFd, t.pc = .reading clientFd []
  | .disconnect clientFd event => t.pc = .waiting ∧
      t.game.epoll.handler clientFd event = some .onClientDisconnect
  | _ => False

/-- What the thread goes on with in a handler, with two readings of the clock. -/
def continuation (clock : UInt64 × UInt64) (t : GameThread) : Option GameAction :=
  match t.pc with
  | .collecting =>
    some (if t.game.gameInput.isEmpty then .collected else .takeNewClient clock.1 clock.2)
  | .reading _ [] => some .readDone
  | .reading _ (_ :: _) => some (.message clock.1)
  | _ => none

private theorem due_of_continuation {clock : UInt64 × UInt64} (h : continuation clock t = some action) :
    t.Due action := by
  unfold continuation at h
  split at h
  · rename_i hpc
    obtain rfl := Option.some.inj h
    by_cases hempty : t.game.gameInput.isEmpty = true
    · rw [if_pos hempty]
      exact ⟨hpc, List.isEmpty_iff.mp hempty⟩
    · rw [if_neg hempty]
      exact ⟨hpc, fun hdata => hempty (List.isEmpty_iff.mpr hdata)⟩
  · rename_i clientFd hpc
    cases h
    exact ⟨clientFd, hpc⟩
  · rename_i clientFd msg messages hpc
    cases h
    exact ⟨clientFd, msg, messages, hpc⟩
  · cases h

/-- The handler throws: for an arrival there is no place, or its descriptor is
refused, data is read for a descriptor of neither player, or the edge of a command
breaks off. -/
def Raises (t : GameThread) : GameAction → Prop
  | .takeNewClient _ _ => t.game.freePlayer = none ∨ ∃ client waiting,
      t.game.gameInput.data = client :: waiting ∧ ¬ t.game.CanRegister client.clientFd
  | .receive clientFd _ => t.game.findPlayer clientFd = none
  | .message _ => ∃ clientFd msg messages, t.pc = .reading clientFd (msg :: messages) ∧
      t.game.BreaksOff msg clientFd
  | _ => False

/-- The behaviour of the handler is undefined: the second player is dropped while he
is greeted, a client is denied once too often, or the player on turn plays alone. -/
def Crashes (t : GameThread) : GameAction → Prop
  | .takeNewClient now1 _ => t.game.OneOnline ∧ t.game.Stale .player2 now1 ∧ ∃ client waiting,
      t.game.gameInput.data = client :: waiting ∧ t.game.CanRegister client.clientFd
  | .message _ => ∃ clientFd msg messages, t.pc = .reading clientFd (msg :: messages) ∧
      (DeniedAtLimit t.game msg clientFd ∨ t.game.PlaysAlone msg clientFd)
  | _ => False

/-- Whoever sent the messages that are left is a player. -/
def ReaderOnline (t : GameThread) : Prop :=
  ∀ clientFd msg messages, t.pc = .reading clientFd (msg :: messages) →
    t.game.findPlayer clientFd ≠ none

/-- Messages are read from a player who stays. -/
theorem findPlayer_of_receiveMessages {g g' : Game} {clientFd : Int} {received : Option Str}
    {messages : List ProtocolData} (hnodup : g.heldFds.Nodup)
    (h : g.receiveMessages clientFd received = .ok (messages, g')) (hne : messages ≠ []) :
    g'.findPlayer clientFd ≠ none := by
  obtain ⟨ref, href, _⟩ := bind_eq_ok.mp h
  have hfind := getPlayer_eq_ok.mp href
  obtain ⟨client, hclient, rfl⟩ := findPlayer_eq_some hfind
  cases hreceive : client.receiveMsg received with
  | error fault =>
    cases (receiveMessages_of_error hfind hclient hreceive).symm.trans h
    exact (hne rfl).elim
  | ok result =>
    obtain ⟨parsed, client'⟩ := result
    obtain ⟨parser, rfl⟩ := ProtocolClient.receiveMsg_eq_ok hreceive
    cases (receiveMessages_of_ok hfind hclient hreceive).symm.trans h
    have hkept : Kept g (g.modifyClient ref fun _ => { client with parser := parser }) := by
      refine (quiet_modifyClient g ref fun client' hclient' => ?_).toKept
      cases hclient.symm.trans hclient'
      exact ⟨rfl, rfl⟩
    refine (findPlayer_of_kept hnodup hkept hclient).mpr ⟨{ client with parser := parser }, ?_⟩
    rw [Game.modifyClient, player_modifyPlayer_self, hclient]
    rfl

theorem readerOnline_step (hnodup : t.game.heldFds.Nodup) (h : t.ReaderOnline)
    (hstep : step t action = some t') : t'.ReaderOnline := by
  intro clientFd msg messages hpc'
  cases effect_of_step hstep with
  | deliver _ hpc hgame =>
    rw [hgame]
    exact h clientFd msg messages (hpc ▸ hpc')
  | output _ _ hpc hgame =>
    rw [hgame]
    exact h clientFd msg messages (hpc ▸ hpc')
  | takeNewClient _ _ hresume => obtain hpc | hpc := pc_resume hresume <;> cases hpc.symm.trans hpc'
  | receive hreceive hpc =>
    cases hpc.symm.trans hpc'
    exact findPlayer_of_receiveMessages hnodup hreceive (List.cons_ne_nil _ _)
  | message hpc hresume =>
    obtain ⟨hok, hpc''⟩ := GameLoop.ok_of_resume hresume ⟨by simp [hpc'], by simp [hpc']⟩
    cases hpc''.symm.trans hpc'
    exact findPlayer_of_processClientMessage hnodup hok
  | newClientEvent hpc | handlerDone _ hpc | receiveThrows _ _ hpc | disconnect hpc
  | removeDescriptor hpc | stop hpc => cases hpc.symm.trans hpc'
  | destroy _ heq =>
    rw [heq] at hpc'
    cases hpc'

theorem readerOnline_of_reachable (h : system.Reachable t) : t.ReaderOnline := by
  refine h.invariant ?_ fun _ _ _ hreach ih hstep => readerOnline_step (nodup_heldFds hreach) ih hstep
  rintro t ⟨_, _, _, _, hpc⟩ clientFd msg messages hpc'
  cases hpc.symm.trans hpc'

private theorem resume_eq_none_iff {pc : ThreadPc} {x : Exec Game Game} :
    resume pc x = none ↔ (¬ ∃ g, x = .ok g) ∧ ¬ Throws x := by
  cases x with
  | ok g => simp [resume]
  | error e => simp [resume]

/-- Part of a handler that cannot go wrong. -/
theorem fate_of_step {pc : ThreadPc} {g : Game} (hstep : step t action = some ⟨g, pc⟩)
    (hpc : pc ≠ .stopping) (hcrashes : ¬ t.Crashes action) (hraises : ¬ t.Raises action) :
    (step t action = none ↔ t.Crashes action) ∧
      ∀ t', step t action = some t' → (t'.pc = .stopping ↔ t.Raises action) := by
  refine ⟨iff_of_false (by simp [hstep]) hcrashes, fun t' ht' => ?_⟩
  cases hstep.symm.trans ht'
  exact iff_of_false hpc hraises

/-- Data is read, or refused with an exception for a descriptor of neither player. -/
theorem fate_receive {clientFd : Int} {received : Option Str}
    (hdue : t.Due (.receive clientFd received)) :
    (step t (.receive clientFd received) = none ↔ t.Crashes (.receive clientFd received)) ∧
      ∀ t', step t (.receive clientFd received) = some t' →
        (t'.pc = .stopping ↔ t.Raises (.receive clientFd received)) := by
  have hstep : step t (.receive clientFd received) = receive t.game clientFd received := if_pos hdue
  cases hfind : t.game.findPlayer clientFd with
  | none =>
    have hreceive : t.game.receiveMessages clientFd received =
        .error (.runtimeError ("Game::getPlayer: ERROR - Unknown clientfd: " ++ toString clientFd),
          t.game) := by
      rw [receiveMessages, getPlayer, hfind]
      rfl
    have hthrown : step t (.receive clientFd received) =
        some ⟨{ t.game with isRunning := false }, .stopping⟩ := by
      rw [hstep, receive, hreceive]
      rfl
    refine ⟨iff_of_false (by simp [hthrown]) id, fun t' ht' => ?_⟩
    cases hthrown.symm.trans ht'
    exact iff_of_true rfl hfind
  | some ref =>
    obtain ⟨client, hclient, rfl⟩ := findPlayer_eq_some hfind
    have hraises : ¬ t.Raises (.receive client.clientFd received) := by simp [Raises, hfind]
    cases hreceive : client.receiveMsg received with
    | error fault =>
      have hdropped : receive t.game client.clientFd received =
          some ⟨t.game.onClientDisconnect client.clientFd, .reading client.clientFd []⟩ := by
        rw [receive, receiveMessages_of_error hfind hclient hreceive]
      exact fate_of_step (hstep.trans hdropped) ThreadPc.noConfusion id hraises
    | ok result =>
      have hread : receive t.game client.clientFd received =
          some ⟨t.game.modifyClient ref fun _ => result.2,
            .reading client.clientFd (result.1.getD [])⟩ := by
        rw [receive, receiveMessages_of_ok hfind hclient hreceive]
      exact fate_of_step (hstep.trans hread) ThreadPc.noConfusion id hraises

section Handlers

variable (h : system.Reachable t)
include h

private theorem crashes_takeNewClient (now1 now2 : UInt64) {client : ProtocolClient}
    {waiting : List ProtocolClient} (hpc : t.pc = .collecting)
    (hdata : t.game.gameInput.data = client :: waiting) :
    step t (.takeNewClient now1 now2) = none ↔ t.Crashes (.takeNewClient now1 now2) := by
  have hstep : step t (.takeNewClient now1 now2) =
      resume .collecting (t.game.takeNewClient now1 now2) :=
    if_pos ⟨hpc, by simp [EventfdQueue.isEmpty, hdata]⟩
  have hfull : t.game.OneOnline → t.game.freePlayer ≠ none := by
    rintro ⟨left, other, hother, hnone⟩
    rw [← PlayerRef.other_other left] at hother
    simp [freePlayer_of_client hother hnone]
  rw [hstep, resume_eq_none_iff, takeNewClient_ok_iff (nodup_heldFds h) hdata,
    throws_takeNewClient now1 now2 hdata, Crashes, hdata]
  constructor
  · rintro ⟨hfails, hquiet⟩
    obtain ⟨hfree, hregister⟩ := not_or.mp hquiet
    rw [not_not] at hregister
    obtain ⟨hone, hstale⟩ := not_not.mp fun hfresh => hfails ⟨hfree, hregister, hfresh⟩
    exact ⟨hone, hstale, client, waiting, rfl, hregister⟩
  · rintro ⟨hone, hstale, client', waiting', heq, hregister⟩
    cases heq
    exact ⟨fun hok => hok.2.2 ⟨hone, hstale⟩, not_or.mpr ⟨hfull hone, not_not.mpr hregister⟩⟩

private theorem crashes_message (now : UInt64) {clientFd : Int} {msg : ProtocolData}
    {messages : List ProtocolData} (hpc : t.pc = .reading clientFd (msg :: messages)) :
    step t (.message now) = none ↔ t.Crashes (.message now) := by
  obtain ⟨sender, hsender⟩ :=
    Option.ne_none_iff_exists'.mp (readerOnline_of_reachable h clientFd msg messages hpc)
  have hnodup := nodup_heldFds h
  have hstep : step t (.message now) = resume (.reading clientFd messages)
      (t.game.processClientMessage msg clientFd now) := by
    rw [step, hpc]
  rw [hstep, resume_eq_none_iff, processClientMessage_ok_iff hnodup hsender,
    throws_processClientMessage hnodup]
  constructor
  · rintro ⟨hfails, hbreaks⟩
    refine ⟨clientFd, msg, messages, hpc, ?_⟩
    by_contra hneither
    obtain ⟨hlimit, halone⟩ := not_or.mp hneither
    exact hfails ⟨hlimit, hbreaks, halone⟩
  · rintro ⟨_, _, _, hpc', hcrash⟩
    cases hpc.symm.trans hpc'
    refine ⟨fun hok => ?_, fun hbreaks => ?_⟩
    · exact hcrash.elim hok.1 hok.2.2
    · obtain hlimit | halone := hcrash
      · have hthrows := (throws_processClientMessage hnodup now).mpr hbreaks
        rw [hlimit.processClientMessage hnodup, throws_error] at hthrows
        cases hthrows
      · obtain ⟨client, hclient⟩ := hbreaks.opponent
        cases halone.alone.symm.trans hclient

/-- From every reachable state, and provided that every `send` returns, a handler of a
game runs into undefined behaviour exactly when it is about to crash, and ends the
event loop with an exception exactly when it raises one. -/
theorem fate_of_reachable (hdue : t.Due action) :
    (step t action = none ↔ t.Crashes action) ∧
      ∀ t', step t action = some t' → (t'.pc = .stopping ↔ t.Raises action) := by
  cases action with
  | deliver | takeOutput | readOutput | removeDescriptor | stop | destroy => exact hdue.elim
  | newClientEvent => exact fate_of_step (if_pos hdue) ThreadPc.noConfusion id id
  | disconnect => exact fate_of_step (if_pos hdue) (by simp [hdue.1]) id id
  | collected =>
    exact fate_of_step (if_pos ⟨hdue.1, List.isEmpty_iff.mpr hdue.2⟩) ThreadPc.noConfusion id id
  | readDone =>
    obtain ⟨clientFd, hpc⟩ := hdue
    have hdone : step t .readDone = some ⟨t.game, .waiting⟩ := by rw [step, hpc]
    exact fate_of_step hdone ThreadPc.noConfusion id id
  | receive => exact fate_receive hdue
  | takeNewClient now1 now2 =>
    obtain ⟨client, waiting, hdata⟩ := List.exists_cons_of_ne_nil hdue.2
    refine ⟨crashes_takeNewClient h now1 now2 hdue.1 hdata, fun t' ht' => ?_⟩
    cases effect_of_step ht' with
    | takeNewClient _ _ hresume =>
      rw [pc_resume_eq_stopping hresume ThreadPc.noConfusion, throws_takeNewClient now1 now2 hdata,
        Raises, hdata]
      simp
    | output _ hown => cases hown
    | handlerDone hdone => cases hdone
  | message now =>
    obtain ⟨clientFd, msg, messages, hpc⟩ := hdue
    refine ⟨crashes_message h now hpc, fun t' ht' => ?_⟩
    cases effect_of_step ht' with
    | message hpc' hresume =>
      rw [pc_resume_eq_stopping hresume ThreadPc.noConfusion,
        throws_processClientMessage (nodup_heldFds h), Raises, hpc']
      simp
    | output _ hown => cases hown
    | handlerDone hdone => cases hdone

end Handlers

/-- The edge of a command breaks off after its first node. -/
theorem fate_of_reachable_broken : ∃ t t', system.Reachable t ∧ step t (.message 1000) = some t' ∧
    t'.pc = .stopping ∧ t.Raises (.message 1000) := by
  have hcheck : ((started.bind (TransitionSystem.runActions step (joinBoth ++
      [.receive 10 (some "GAME_COMMAND\nadd_edge:\x7b3\n\r\n\r\n".toList)]))).any fun t =>
      decide (continuation (1000, 1000) t = some (.message 1000)) &&
        (step t (.message 1000)).any fun t' => decide (t'.pc = .stopping)) = true := by
    decide +kernel
  obtain ⟨t, hreachable, hstate⟩ := exists_of_started hcheck
  simp only [Bool.and_eq_true, decide_eq_true_eq, Option.any_eq_true] at hstate
  obtain ⟨hnext, t', hstep, hpc'⟩ := hstate
  have hraises := (fate_of_reachable hreachable (due_of_continuation hnext)).2 t' hstep
  exact ⟨t, t', hreachable, hstep, hpc', hraises.mp hpc'⟩

/-- The thread goes on in its handler, with a clock that shows `clock t` in `t`. -/
def GoesOn (clock : GameThread → UInt64 × UInt64) (t t' : GameThread) : Prop :=
  ∃ action, continuation (clock t) t = some action ∧ step t action = some t'

/-- How many steps a handler can take at most. -/
def turns (t : GameThread) : Nat :=
  match t.pc with
  | .collecting => t.game.gameInput.data.length + 1
  | .reading _ messages => messages.length + 1
  | _ => 0

private theorem turns_resume {pc : ThreadPc} {x : Exec Game Game} (h : resume pc x = some t) :
    t.turns = (⟨t.game, pc⟩ : GameThread).turns ∨ t.turns = 0 := by
  obtain hpc | hpc := pc_resume h
  · left
    rw [turns, hpc]
    rfl
  · right
    rw [turns, hpc]

private theorem turns_lt_of_takeNewClient {now1 now2 : UInt64}
    (hstep : step t (.takeNewClient now1 now2) = some t') : t'.turns < t.turns := by
  cases effect_of_step hstep with
  | takeNewClient hpc hinput hresume =>
    obtain ⟨client, waiting, hdata⟩ := EventfdQueue.exists_of_isEmpty_eq_false hinput
    have hturns : t.turns = waiting.length + 2 := by
      rw [turns, hpc, hdata]
      rfl
    obtain hcollecting | hstopping := turns_resume hresume
    · cases hfree : t.game.freePlayer with
      | none =>
        have hthrows := (throws_takeNewClient now1 now2 hdata).mpr (.inl hfree)
        have hpc' := (pc_resume_eq_stopping hresume ThreadPc.noConfusion).mpr hthrows
        rw [turns, hpc', hturns]
        exact Nat.succ_pos _
      | some ref =>
        have hleft := gameInput_resume (gameInput_takeNewClient now1 now2 hfree hdata) hresume
        rw [hcollecting, hturns, turns]
        simp only [hleft]
        omega
    · omega
  | output _ hown => cases hown
  | handlerDone hdone => cases hdone

private theorem turns_lt_of_message {now : UInt64} (hstep : step t (.message now) = some t') :
    t'.turns < t.turns := by
  cases effect_of_step hstep with
  | @message _ clientFd msg messages hpc hresume =>
    have hturns : t.turns = messages.length + 2 := by
      rw [turns, hpc]
      rfl
    obtain hreading | hstopping := turns_resume hresume
    · rw [hreading, hturns, turns]
      exact Nat.lt_succ_self _
    · omega
  | output _ hown => cases hown
  | handlerDone hdone => cases hdone

theorem turns_lt {clock : UInt64 × UInt64} (h : continuation clock t = some action)
    (hstep : step t action = some t') : t'.turns < t.turns := by
  have hdone : endsHandler action = true → 0 < t.turns → t'.turns < t.turns := by
    intro hends hpos
    have hpc' : t'.pc = .waiting := by
      cases action with
      | collected | readDone =>
        cases effect_of_step hstep with
        | handlerDone _ hpc' => exact hpc'
        | output _ hown => cases hown
      | _ => cases hends
    rw [turns, hpc']
    exact hpos
  unfold continuation at h
  split at h
  · rename_i hpc
    obtain rfl := Option.some.inj h
    split at hstep
    · rename_i hempty
      refine hdone (by rw [if_pos hempty]; rfl) ?_
      rw [turns, hpc]
      exact Nat.succ_pos _
    · exact turns_lt_of_takeNewClient hstep
  · rename_i hpc
    cases h
    refine hdone rfl ?_
    rw [turns, hpc]
    exact Nat.succ_pos _
  · cases h
    exact turns_lt_of_message hstep
  · cases h

/-- Whatever the clock shows, and provided that every `send` returns, a handler of a
game comes to an end, unless it crashes. -/
theorem handlerEnds_of_reachable (clock : GameThread → UInt64 × UInt64) (h : system.Reachable t) :
    ∃ t', ReflTransGen (GoesOn clock) t t' ∧ (continuation (clock t') t' = none ∨
      ∃ action, continuation (clock t') t' = some action ∧ t'.Crashes action) := by
  induction hturns : t.turns using Nat.strong_induction_on generalizing t with
  | h n ih =>
    cases hnext : continuation (clock t) t with
    | none => exact ⟨t, .refl, .inl hnext⟩
    | some action =>
      have hfate := (fate_of_reachable h (due_of_continuation hnext)).1
      cases hstep : step t action with
      | none => exact ⟨t, .refl, .inr ⟨action, hnext, hfate.mp hstep⟩⟩
      | some next =>
        have hlt := turns_lt hnext hstep
        obtain ⟨t', hgoes, hend⟩ := ih next.turns (hturns ▸ hlt) (h.step hstep) rfl
        exact ⟨t', hgoes.head ⟨action, hnext, hstep⟩, hend⟩

/-- Two clients are about to be taken. -/
theorem handlerEnds_of_reachable_arrivals : ∃ t t', system.Reachable t ∧ t.pc = .collecting ∧
    t.game.gameInput.data ≠ [] ∧ ReflTransGen (GoesOn fun _ => (1000, 1000)) t t' ∧
    (continuation (1000, 1000) t' = none ∨
      ∃ action, continuation (1000, 1000) t' = some action ∧ t'.Crashes action) := by
  have hcheck : ((started.bind (TransitionSystem.runActions step [.newClientEvent])).any fun t =>
      decide (t.pc = .collecting) && decide (t.game.gameInput.data ≠ [])) = true := by
    decide +kernel
  obtain ⟨t, hreachable, hstate⟩ := exists_of_started hcheck
  simp only [Bool.and_eq_true, decide_eq_true_eq] at hstate
  obtain ⟨t', hgoes, hend⟩ := handlerEnds_of_reachable (fun _ => (1000, 1000)) hreachable
  exact ⟨t, t', hreachable, hstate.1, hstate.2, hgoes, hend⟩

end UpsServer.GameThread
