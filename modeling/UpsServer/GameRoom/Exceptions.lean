import UpsServer.GameRoom.Command
import UpsServer.GameRoom.Handover

open Outcome

namespace UpsServer.Game

/-- The call throws an exception. -/
abbrev Throws {α : Type} (x : Exec Game α) : Prop :=
  Fails (fun fault : Fault => fault.isException = true) x

/-- A command of the player on turn whose edge text breaks off. -/
structure BreaksOff (g : Game) (msg : ProtocolData) (clientFd : Int) : Prop where
  method : msg.method = .GAME_COMMAND
  notPaused : g.isPaused = false
  onTurn : g.findPlayer clientFd = some g.onTurn
  opponent : ∃ client, (g.player g.onTurn.other).client = some client
  edge : ∃ edge, msg.data.get? "add_edge".toList = some edge ∧ edge.length < 3

instance (g : Game) (msg : ProtocolData) (clientFd : Int) : Decidable (g.BreaksOff msg clientFd) :=
  decidable_of_iff (msg.method = .GAME_COMMAND ∧ g.isPaused = false ∧
      g.findPlayer clientFd = some g.onTurn ∧ (g.player g.onTurn.other).client.isSome = true ∧
      (msg.data.get? "add_edge".toList).any (fun edge => decide (edge.length < 3)) = true) <| by
    simp only [Option.isSome_iff_exists, Option.any_eq_true, decide_eq_true_eq]
    exact ⟨fun ⟨hmethod, hpaused, hturn, hopponent, hedge⟩ =>
      ⟨hmethod, hpaused, hturn, hopponent, hedge⟩, fun h => ⟨h.1, h.2, h.3, h.4, h.5⟩⟩

/-- The epoll object takes the descriptor of an arriving client. -/
def CanRegister (g : Game) (clientFd : Int) : Prop :=
  ∃ epoll, g.epoll.watchClient clientFd .onClientWrite .onClientDisconnect = .ok epoll

instance (g : Game) (clientFd : Int) : Decidable (g.CanRegister clientFd) :=
  decidable_of_iff
    ((g.epoll.watchClient clientFd .onClientWrite .onClientDisconnect).toOption.isSome = true) <| by
    simp only [Option.isSome_iff_exists, toOption_eq_some]
    rfl

theorem throws_error {α : Type} {fault : Fault} {g : Game} :
    Throws (.error (fault, g) : Exec Game α) ↔ fault.isException = true := fails_error

private theorem throws_bind {α β : Type} {x : Exec Game α} {f : α → Exec Game β} :
    Throws (x >>= f) ↔ Throws x ∨ ∃ a, x = .ok a ∧ Throws (f a) := fails_bind

section Handlers

variable (g : Game) (clientFd : Int)

private theorem not_throws_clientOf (ref : PlayerRef) : ¬ Throws (g.clientOf ref) := by
  unfold clientOf
  split <;> simp [Fault.isException]

private theorem not_throws_derefClient : ¬ Throws (g.derefClient clientFd) := by
  unfold derefClient
  split <;> simp [Fault.isException]

private theorem throws_getPlayer : Throws (g.getPlayer clientFd) ↔ g.findPlayer clientFd = none := by
  unfold getPlayer
  cases g.findPlayer clientFd <;> simp [Fault.isException]

private theorem not_throws_sendMsg (ref : PlayerRef) (msg : ProtocolData) : ¬ Throws (g.sendMsg ref msg) :=
  not_fails_bind (not_throws_clientOf g ref) fun _ _ => not_fails_pure

private theorem not_throws_denyRequest : ¬ Throws (g.denyRequest clientFd) := by
  refine not_fails_bind (not_throws_derefClient g clientFd) fun ref _ => ?_
  refine not_fails_bind (not_throws_clientOf g ref) fun client _ => ?_
  split <;> exact not_fails_pure

private theorem not_throws_clientPing : ¬ Throws (g.clientPing clientFd) :=
  not_fails_bind (not_throws_derefClient g clientFd) fun ref _ => not_throws_sendMsg g ref _

/-- A client who is there belongs to a player. -/
theorem not_throws_updateClientLastSeen (now : UInt64) :
    ¬ Throws (g.updateClientLastSeen clientFd now) := by
  refine not_fails_bind (not_throws_derefClient g clientFd) fun ref href => ?_
  rw [getPlayer_eq_ok.mpr (derefClient_eq_ok.mp href), ok_bind]
  exact not_fails_pure

private theorem not_throws_moveData (move : Move) (playerLost : Bool) :
    ¬ Throws (g.moveData move playerLost) := by
  unfold moveData
  split
  · refine not_fails_bind ?_ fun _ _ => not_fails_pure
    refine not_fails_bind (not_throws_clientOf g _) fun _ _ =>
      not_fails_bind (not_throws_clientOf g _) fun _ _ => ?_
    split
    · exact not_throws_clientOf g _
    · exact not_fails_pure
  · exact not_fails_pure

private theorem not_throws_playMove (move : Move) : ¬ Throws (g.playMove move) := by
  refine not_fails_bind (not_throws_moveData _ move _) fun _ _ => ?_
  refine not_fails_bind (not_throws_sendMsg _ .player1 _) fun _ _ => ?_
  exact not_fails_bind (not_throws_sendMsg _ .player2 _) fun _ _ => not_fails_pure

private theorem not_throws_greetPlayers (now1 now2 : UInt64) : ¬ Throws (g.greetPlayers now1 now2) := by
  refine not_fails_bind (not_throws_sendMsg g .player1 _) fun g₁ _ => ?_
  refine not_fails_bind (not_throws_clientOf g₁ .player1) fun _ _ => ?_
  refine not_fails_bind (not_throws_updateClientLastSeen g₁ _ now1) fun g₂ _ => ?_
  refine not_fails_bind (not_throws_sendMsg g₂ .player2 _) fun g₃ _ => ?_
  exact not_fails_bind (not_throws_clientOf g₃ .player2) fun _ _ =>
    not_throws_updateClientLastSeen g₃ _ now2

/-- Data is read for a descriptor of neither player. -/
theorem throws_receiveMessages (received : Option Str) :
    Throws (g.receiveMessages clientFd received) ↔ g.findPlayer clientFd = none := by
  unfold receiveMessages
  rw [throws_bind, throws_getPlayer]
  refine or_iff_left ?_
  rintro ⟨ref, _, hfails⟩
  refine not_fails_bind (not_throws_clientOf g ref) (fun client _ => ?_) hfails
  split <;> exact not_fails_pure

end Handlers

private theorem throws_withState {α : Type} {g : Game} {x : Except Fault α} :
    Throws (withState g x) ↔ ∃ fault, x = .error fault ∧ fault.isException = true := by
  cases x <;> simp

theorem parseEdge_of_short {edge : Str} (h : edge.length < 3) :
    ∃ fault, parseEdge edge = .error fault ∧ fault.isException = true := by
  unfold parseEdge substr
  by_cases hempty : 1 > edge.length
  · rw [if_pos hempty]
    exact ⟨_, rfl, rfl⟩
  · rw [if_neg hempty, if_pos (by omega)]
    exact ⟨_, rfl, rfl⟩

private theorem throws_checkEdge {g : Game} {ref : PlayerRef} {edge : Str} :
    Throws (g.checkEdge ref edge) ↔ edge.length < 3 := by
  by_cases hlength : edge.length < 3
  · obtain ⟨fault, hparse, hexception⟩ := parseEdge_of_short hlength
    rw [checkEdge_of_error hparse, throws_error]
    exact iff_of_true hexception hlength
  · obtain ⟨move, hmove⟩ := checkEdge_ok_iff.mpr (Nat.le_of_not_lt hlength)
    rw [hmove]
    exact iff_of_false not_fails_ok hlength

section Messages

variable {g : Game} {msg : ProtocolData} {clientFd : Int}

/-- The checks of a command throw exactly on an edge text that breaks off. -/
theorem throws_readMove (hnodup : g.heldFds.Nodup) {sender : PlayerRef}
    (h : g.findPlayer clientFd = some sender) (hmethod : msg.method = .GAME_COMMAND) :
    Throws (g.readMove msg clientFd) ↔ g.BreaksOff msg clientFd := by
  unfold readMove
  by_cases hpaused : g.isPaused = true
  · rw [if_pos hpaused]
    exact iff_of_false not_fails_pure fun hbreaks =>
      Bool.false_ne_true (hbreaks.notPaused.symm.trans hpaused)
  rw [if_neg hpaused, getPlayer_eq_ok.mpr h, ok_bind, throws_bind]
  cases hopponent : (g.player g.onTurn.other).client with
  | none =>
    have hnobody : ¬ ∃ client, (g.player g.onTurn.other).client = some client := by simp [hopponent]
    refine iff_of_false ?_ fun hbreaks => hnobody hbreaks.opponent
    rintro (hthrows | ⟨b, hb, _⟩)
    · exact not_fails_bind (not_throws_clientOf g _) (fun _ _ => not_fails_pure) hthrows
    · obtain ⟨client, hclient, _⟩ := isNotOnTurn_eq_ok hb
      exact hnobody ⟨client, hclient⟩
  | some opponent =>
    rw [isNotOnTurn_eq hnodup hopponent h]
    simp only [not_fails_ok, false_or, Except.ok.injEq, exists_eq_left', decide_eq_true_eq]
    by_cases hturn : sender = g.onTurn
    · rw [if_neg (not_not.mpr hturn)]
      cases hfield : msg.data.get? "add_edge".toList with
      | none =>
        rw [ProtocolData.hasField, hfield]
        refine iff_of_false not_fails_pure fun hbreaks => ?_
        obtain ⟨edge, hedge, _⟩ := hbreaks.edge
        rw [hfield] at hedge
        cases hedge
      | some edge =>
        have hget : msg.getField "add_edge".toList = .ok edge := getField_eq_ok.mpr hfield
        rw [ProtocolData.hasField, hfield, hget]
        change Throws (g.checkEdge sender edge) ↔ _
        rw [throws_checkEdge]
        constructor
        · intro hlength
          exact ⟨hmethod, by simpa using hpaused, hturn ▸ h, ⟨opponent, hopponent⟩, edge, hfield,
            hlength⟩
        · intro hbreaks
          obtain ⟨edge', hedge', hlength⟩ := hbreaks.edge
          rw [hfield] at hedge'
          cases hedge'
          exact hlength
    · rw [if_pos hturn]
      refine iff_of_false not_fails_pure fun hbreaks => hturn ?_
      exact Option.some.inj (h.symm.trans hbreaks.onTurn)

/-- Of the messages only such a command throws. -/
theorem throws_processClientMessage (hnodup : g.heldFds.Nodup) (now : UInt64) :
    Throws (g.processClientMessage msg clientFd now) ↔ g.BreaksOff msg clientFd := by
  have hanswer : Throws (g.answerMessage msg clientFd) ↔ g.BreaksOff msg clientFd := by
    unfold answerMessage
    split
    · rename_i hmethod
      rw [processGameCommand, throws_bind]
      cases hfind : g.findPlayer clientFd with
      | none =>
        rw [derefClient, hfind]
        refine iff_of_false ?_ fun hbreaks => ?_
        · rintro (hthrows | ⟨_, hok, _⟩)
          · cases throws_error.mp hthrows
          · cases hok
        · cases hfind.symm.trans hbreaks.onTurn
      | some sender =>
        rw [derefClient_eq_ok.mpr hfind]
        simp only [not_fails_ok, false_or, Except.ok.injEq, exists_eq_left']
        rw [throws_bind, throws_readMove hnodup hfind hmethod]
        refine or_iff_left ?_
        rintro ⟨move, _, hthrows⟩
        cases move with
        | none => exact not_throws_denyRequest g clientFd hthrows
        | some move => exact not_throws_playMove g move hthrows
    · exact iff_of_false not_fails_pure fun hbreaks => by cases hbreaks.method.symm.trans ‹_›
    · exact iff_of_false (not_throws_clientPing g clientFd) fun hbreaks =>
        by cases hbreaks.method.symm.trans ‹_›
    · rename_i hcommand _ _
      exact iff_of_false (not_throws_denyRequest g clientFd) fun hbreaks => hcommand hbreaks.method
  rw [processClientMessage, throws_bind, hanswer]
  refine or_iff_left ?_
  rintro ⟨g', _, hthrows⟩
  exact not_throws_updateClientLastSeen g' clientFd now hthrows

end Messages

/-- An arrival throws when nobody's place is free or the client cannot be
registered. -/
theorem throws_takeNewClient {g : Game} {client : ProtocolClient} {waiting : List ProtocolClient}
    (now1 now2 : UInt64) (hdata : g.gameInput.data = client :: waiting) :
    Throws (g.takeNewClient now1 now2) ↔ g.freePlayer = none ∨ ¬ g.CanRegister client.clientFd := by
  rw [takeNewClient, EventfdQueue.pop_eq_some.mpr ⟨waiting, hdata, rfl⟩]
  cases hfree : g.freePlayer with
  | none => exact iff_of_true (throws_error.mpr rfl) (.inl rfl)
  | some ref =>
    have hregister : Throws
        ((g.arrive ref client { g.gameInput with data := waiting }).registerClient
          client.clientFd) ↔
        ¬ g.CanRegister client.clientFd := by
      rw [registerClient, throws_bind, throws_withState, arrive, epoll_modifyPlayer, CanRegister]
      cases hwatch : g.epoll.watchClient client.clientFd .onClientWrite .onClientDisconnect with
      | ok epoll => simp
      | error fault => simp [Epoll.isException_of_watchClient hwatch]
    simp only [reduceCtorEq, false_or]
    rw [throws_bind, hregister]
    refine or_iff_left ?_
    rintro ⟨g', _, hthrows⟩
    split at hthrows
    · exact not_throws_greetPlayers _ now1 now2 hthrows
    · exact not_fails_pure hthrows

/-- A client whose arrival was begun has left the input. -/
theorem gameInput_takeNewClient {g : Game} {client : ProtocolClient} {waiting : List ProtocolClient}
    {ref : PlayerRef} (now1 now2 : UInt64) (hfree : g.freePlayer = some ref)
    (hdata : g.gameInput.data = client :: waiting) :
    Ends (fun g' => g'.gameInput.data = waiting) (g.takeNewClient now1 now2) := by
  rw [takeNewClient, EventfdQueue.pop_eq_some.mpr ⟨waiting, hdata, rfl⟩, hfree]
  have hregister : Ends (fun g' => g'.gameInput.data = waiting)
      ((g.arrive ref client { g.gameInput with data := waiting }).registerClient client.clientFd) :=
    (reads_withState _ _).bind_ends (by simp [arrive]) fun _ _ => by simp [arrive]
  refine hregister.bind (fun _ h => h) fun g' _ hwaiting => ?_
  split
  · refine (quiet_greetPlayers _ now1 now2).mono fun _ h => ?_
    rw [h.input]
    exact hwaiting
  · exact hwaiting

end UpsServer.Game

namespace UpsServer.GameThread

open Game

/-- The step ends the event loop while clients are left in the input. -/
def LeavesBehind (t : GameThread) : GameAction → Prop
  | .stop => t.game.gameInput.data ≠ []
  | .takeNewClient _ _ =>
    t.game.freePlayer = none ∨ ∃ client waiting, t.game.gameInput.data = client :: waiting ∧
      waiting ≠ [] ∧ ¬ t.game.CanRegister client.clientFd
  | .receive clientFd _ => t.game.findPlayer clientFd = none ∧ t.game.gameInput.data ≠ []
  | .message _ =>
    t.game.gameInput.data ≠ [] ∧
      ∃ clientFd msg messages, t.pc = .reading clientFd (msg :: messages) ∧
      t.game.BreaksOff msg clientFd
  | _ => False

instance (t : GameThread) : DecidablePred t.LeavesBehind
  | .stop => inferInstanceAs (Decidable (t.game.gameInput.data ≠ []))
  | .takeNewClient _ _ =>
    decidable_of_iff (t.game.freePlayer = none ∨ t.game.gameInput.data.tail ≠ [] ∧
        t.game.gameInput.data.head?.any (fun client => !decide (t.game.CanRegister client.clientFd)) = true) <| by
      rw [LeavesBehind]
      cases t.game.gameInput.data <;> simp
  | .receive clientFd _ => inferInstanceAs
      (Decidable (t.game.findPlayer clientFd = none ∧ t.game.gameInput.data ≠ []))
  | .message _ =>
    decidable_of_iff (t.game.gameInput.data ≠ [] ∧
        t.nextMessage.any (fun next => decide (t.game.BreaksOff next.2 next.1)) = true) <| by
      simp only [LeavesBehind, Option.any_eq_true, decide_eq_true_eq, Prod.exists,
        nextMessage_eq_some_iff]
      refine and_congr_right fun _ => ⟨?_, ?_⟩
      · rintro ⟨clientFd, msg, ⟨messages, hpc⟩, hbreaks⟩
        exact ⟨clientFd, msg, messages, hpc, hbreaks⟩
      · rintro ⟨clientFd, msg, messages, hpc, hbreaks⟩
        exact ⟨clientFd, msg, ⟨messages, hpc⟩, hbreaks⟩
  | .deliver _ | .takeOutput | .readOutput | .newClientEvent | .collected | .readDone
  | .disconnect _ _ | .removeDescriptor _ | .destroy => inferInstanceAs (Decidable False)

theorem pc_resume_eq_stopping {pc : ThreadPc} {x : Exec Game Game} {t : GameThread}
    (h : resume pc x = some t) (hpc : pc ≠ .stopping) : t.pc = .stopping ↔ Throws x := by
  cases x with
  | ok g =>
    cases h
    exact iff_of_false hpc not_fails_ok
  | error e =>
    obtain ⟨hexception, h⟩ := Option.ite_none_right_eq_some.mp h
    cases h
    exact iff_of_true rfl (fails_error.mpr hexception)

theorem gameInput_resume {pc : ThreadPc} {x : Exec Game Game} {t : GameThread}
    {data : List ProtocolClient} (hx : Ends (fun g => g.gameInput.data = data) x)
    (h : resume pc x = some t) : t.game.gameInput.data = data :=
  of_ends hx (fun _ h => h) (resume_eq_some h)

private theorem not_leavesBehind_of_endsHandler {t : GameThread} {action : GameAction}
    (h : endsHandler action = true) : ¬ t.LeavesBehind action := by
  cases action with
  | collected | readDone => exact id
  | _ => cases h

/-- The steps after which the event loop has ended with clients in the input. -/
theorem leavesBehind_iff {t t' : GameThread} {action : GameAction} (hnodup : t.game.heldFds.Nodup)
    (hown : action.isOwn = true) (h : step t action = some t') :
    t'.pc = .stopping ∧ t'.game.gameInput.data ≠ [] ↔ t.LeavesBehind action := by
  cases effect_of_step h with
  | deliver => cases hown
  | output _ hown' =>
    rw [hown] at hown'
    cases hown'
  | newClientEvent hpc | disconnect hpc | removeDescriptor hpc =>
    exact iff_of_false (fun hstop => nomatch hpc.symm.trans hstop.1) id
  | handlerDone hdone hpc =>
    exact iff_of_false (fun hstop => nomatch hpc.symm.trans hstop.1)
      (not_leavesBehind_of_endsHandler hdone)
  | @takeNewClient now1 now2 _ hinput hresume =>
    obtain ⟨client, waiting, hdata⟩ := EventfdQueue.exists_of_isEmpty_eq_false hinput
    rw [pc_resume_eq_stopping hresume ThreadPc.noConfusion, throws_takeNewClient now1 now2 hdata]
    cases hfree : t.game.freePlayer with
    | none =>
      refine iff_of_true ⟨.inl rfl, ?_⟩ (.inl hfree)
      have hends : Ends (fun g => g.gameInput.data = client :: waiting)
          (t.game.takeNewClient now1 now2) := by
        rw [takeNewClient, hfree]
        exact hdata
      rw [gameInput_resume hends hresume]
      exact List.cons_ne_nil _ _
    | some ref =>
      rw [gameInput_resume (gameInput_takeNewClient now1 now2 hfree hdata) hresume]
      simp [LeavesBehind, hfree, hdata, and_comm]
  | @receive clientFd received messages hreceive hpc =>
    refine iff_of_false (fun hstop => nomatch hpc.symm.trans hstop.1) fun hleaves => ?_
    have hthrows := (throws_receiveMessages t.game clientFd received).mpr hleaves.1
    rw [hreceive] at hthrows
    exact not_fails_ok hthrows
  | @receiveThrows clientFd received fault hreceive hfault hpc hgame =>
    have hnobody : t.game.findPlayer clientFd = none := by
      rw [← throws_receiveMessages t.game clientFd received, hreceive]
      exact throws_error.mpr hfault
    rw [LeavesBehind, hpc, hgame]
    exact and_congr_left fun _ => iff_of_true rfl hnobody
  | @message now clientFd msg messages hpc hresume =>
    have hends : Ends (fun g => g.gameInput.data = t.game.gameInput.data)
        (t.game.processClientMessage msg clientFd now) :=
      (kept_processClientMessage t.game msg clientFd now).mono fun _ h => by rw [h.input]
    rw [pc_resume_eq_stopping hresume ThreadPc.noConfusion, throws_processClientMessage hnodup,
      gameInput_resume hends hresume, LeavesBehind, hpc, and_comm]
    refine and_congr_right fun _ => ⟨fun hbreaks => ⟨clientFd, msg, messages, rfl, hbreaks⟩, ?_⟩
    rintro ⟨clientFd', msg', messages', heq, hbreaks⟩
    cases heq
    exact hbreaks
  | stop hpc hgame =>
    rw [LeavesBehind, hpc, hgame]
    exact and_iff_right rfl
  | destroy _ heq => exact iff_of_false (fun hstop => by rw [heq] at hstop; cases hstop.1) id

end UpsServer.GameThread
