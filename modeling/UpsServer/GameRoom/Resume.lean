import UpsServer.GameRoom.PauseFlag

open Outcome

namespace UpsServer.Game

/-- The player has been seen before, and too long ago for him to stay. -/
def Stale (g : Game) (silent : PlayerRef) (now : UInt64) : Prop :=
  (g.player silent).lastSeen ≠ 0 ∧ now - (g.player silent).lastSeen > Player.MAX_INACTIVITY_MS

instance (g : Game) (silent : PlayerRef) (now : UInt64) : Decidable (g.Stale silent now) :=
  inferInstanceAs (Decidable (_ ∧ _))

/-- The player is seen. -/
def see (g : Game) (ref : PlayerRef) (now : UInt64) : Game :=
  g.modifyPlayer ref fun p => { p with lastSeen := now }

/-- The arrival is handled, the client is a player when the handler returns, and
the board is `board`. -/
def Resumes (client : ProtocolClient)
    (board : GameGraph GameGraph.GAME_NODE_NUM × GameGraph GameGraph.GAME_NODE_NUM × Bool)
    (x : Exec Game Game) : Prop :=
  ∃ g', x = .ok g' ∧ g'.findPlayer client.clientFd ≠ none ∧ g'.board = board

/-- The client can be registered, the second player has not been silent for too
long, and a first player who arrives is not when the second one is seen. -/
structure CanResume (g : Game) (client : ProtocolClient) (now1 now2 : UInt64) : Prop where
  registers : g.CanRegister client.clientFd
  secondSeen : ¬ g.Stale .player2 now1
  firstSeen : g.freePlayer = some .player1 → now1 = 0 ∨ now2 - now1 ≤ Player.MAX_INACTIVITY_MS

section Seen

variable {g g' : Game} {ref : PlayerRef} {client other : ProtocolClient}

@[simp] theorem client_see (g : Game) (ref ref' : PlayerRef) (now : UInt64) :
    ((g.see ref now).player ref').client = (g.player ref').client := by
  cases ref <;> cases ref' <;> rfl

/-- Seeing a player drops the other one if he is online and stale. -/
theorem updateClientLastSeen_of_findPlayer {clientFd : Int} (hfind : g.findPlayer clientFd = some ref)
    (now : UInt64) :
    g.updateClientLastSeen clientFd now = .ok (if g.Stale ref.other now then
      (g.player ref.other).client.elim (g.see ref now) fun other =>
        (g.see ref now).onClientDisconnect other.clientFd
      else g.see ref now) := by
  rw [updateClientLastSeen, derefClient_eq_ok.mpr hfind, ok_bind, getPlayer_eq_ok.mpr hfind,
    ok_bind]
  refine congrArg Except.ok ((checkInactivity_both _ ref).trans ?_)
  have hself : ((g.see ref now).player ref).lastSeen = now := by
    rw [see, player_modifyPlayer_self]
  have hkeep : (g.see ref now).player ref.other = g.player ref.other :=
    player_modifyPlayer_other _ _ _
  change (g.see ref now).checkInactivity ref ref.other = _
  rw [checkInactivity, hself, hkeep]
  cases (g.player ref.other).client <;> rfl

private theorem updateClientLastSeen_eq (hnodup : g.heldFds.Nodup)
    (hclient : (g.player ref).client = some client)
    (hother : (g.player ref.other).client = some other) (now : UInt64) :
    g.updateClientLastSeen client.clientFd now =
      .ok (if g.Stale ref.other now then (g.see ref now).onClientDisconnect other.clientFd
        else g.see ref now) := by
  rw [updateClientLastSeen_of_findPlayer (findPlayer_of_client hnodup hclient), hother,
    Option.elim_some]

theorem nodup_of_kept (hnodup : g.heldFds.Nodup) (h : Kept g g') : g'.heldFds.Nodup :=
  Multiset.nodup_of_le h.settled.heldFds_le hnodup

theorem quiet_sent (g : Game) (ref : PlayerRef) (msg : ProtocolData) :
    Quiet g (g.modifyClient ref (·.sendMsg msg)) :=
  quiet_modifyClient g ref fun _ _ => ⟨rfl, rfl⟩

/-- The game after the first player has been greeted and seen. -/
def greetFirst (g : Game) (client2 : ProtocolClient) (now1 : UInt64) : Game :=
  let shown := g.modifyClient .player1 (·.sendMsg ⟨.GAME_STATE, g.serializeGameData⟩)
  if g.Stale .player2 now1 then (shown.see .player1 now1).onClientDisconnect client2.clientFd
  else shown.see .player1 now1

private theorem greetPlayers_eq (hnodup : g.heldFds.Nodup) {client1 client2 : ProtocolClient}
    (h1 : (g.player .player1).client = some client1)
    (h2 : (g.player .player2).client = some client2) (now1 now2 : UInt64) :
    g.greetPlayers now1 now2 = (do
      let g' ← (g.greetFirst client2 now1).sendMsg .player2 ⟨.GAME_STATE, g.serializeGameData⟩
      let player2 ← g'.clientOf .player2
      g'.updateClientLastSeen player2.clientFd now2) := by
  have hnodup' := nodup_of_kept hnodup
    (quiet_sent g .player1 ⟨.GAME_STATE, g.serializeGameData⟩).toKept
  have h1' : ((g.modifyClient .player1 (·.sendMsg ⟨.GAME_STATE, g.serializeGameData⟩)).player
      .player1).client = some (client1.sendMsg ⟨.GAME_STATE, g.serializeGameData⟩) := by
    rw [player_sendMsg_client, if_pos rfl, h1]
    rfl
  have hseen := updateClientLastSeen_eq hnodup' h1' h2 now1
  change _ = Except.ok (g.greetFirst client2 now1) at hseen
  rw [greetPlayers, sendMsg_of_client h1, ok_bind, clientOf_eq_ok.mpr h1', ok_bind, hseen, ok_bind]

/-- Greeting fails when the second player is dropped before the state is sent to
him. -/
theorem greetPlayers_of_stale (hnodup : g.heldFds.Nodup) (honline : g.Online) {now1 : UInt64}
    (hstale : g.Stale .player2 now1) (now2 : UInt64) : g.greetPlayers now1 now2 ≠ .ok g' := by
  obtain ⟨client1, h1⟩ := honline .player1
  obtain ⟨client2, h2⟩ := honline .player2
  rw [greetPlayers_eq hnodup h1 h2]
  intro h
  obtain ⟨_, hsend, _⟩ := bind_eq_ok.mp h
  obtain ⟨client, hclient, _⟩ := bind_eq_ok.mp hsend
  rw [clientOf_eq_ok, greetFirst, if_pos hstale] at hclient
  have h2' : (((g.modifyClient .player1 (·.sendMsg ⟨.GAME_STATE, g.serializeGameData⟩)).see
      .player1 now1).player .player2).client = some client2 := h2
  cases (client_onClientDisconnect h2').symm.trans hclient

/-- Otherwise it returns, and the first player stays unless he is dropped when
the second one is seen. -/
theorem greetPlayers_of_not_stale (hnodup : g.heldFds.Nodup) (honline : g.Online)
    {now1 : UInt64} (hstale : ¬ g.Stale .player2 now1) (now2 : UInt64) :
    ∃ g', g.greetPlayers now1 now2 = .ok g' ∧ ∀ ref,
      (∃ client, (g'.player ref).client = some client) ↔
        (ref = .player1 → now1 = 0 ∨ now2 - now1 ≤ Player.MAX_INACTIVITY_MS) := by
  obtain ⟨client1, h1⟩ := honline .player1
  obtain ⟨client2, h2⟩ := honline .player2
  rw [greetPlayers_eq hnodup h1 h2, greetFirst, if_neg hstale]
  have hshown := quiet_sent g .player1 ⟨.GAME_STATE, g.serializeGameData⟩
  set shown := g.modifyClient .player1 (·.sendMsg ⟨.GAME_STATE, g.serializeGameData⟩)
  have h2' : ((shown.see .player1 now1).player .player2).client = some client2 := h2
  have hboth := (hshown.trans (quiet_setLastSeen shown .player1 now1)).trans
    (quiet_sent (shown.see .player1 now1) .player2 ⟨.GAME_STATE, g.serializeGameData⟩)
  rw [sendMsg_of_client h2', ok_bind]
  set both := (shown.see .player1 now1).modifyClient .player2
    (·.sendMsg ⟨.GAME_STATE, g.serializeGameData⟩)
  have hlast : (both.player .player1).lastSeen = now1 := rfl
  have hroster := ((sameRoster_modifyClient g .player1
    (f := (·.sendMsg ⟨.GAME_STATE, g.serializeGameData⟩)) fun _ _ => rfl).trans
    (sameRoster_setLastSeen shown .player1 now1)).trans
    (sameRoster_modifyClient (shown.see .player1 now1) .player2
      (f := (·.sendMsg ⟨.GAME_STATE, g.serializeGameData⟩)) fun _ _ => rfl)
  have honline' : both.Online := hroster.online_iff.mpr honline
  obtain ⟨first, hfirst⟩ := honline' .player1
  obtain ⟨second, hsecond⟩ := honline' .player2
  have hnodup' := nodup_of_kept hnodup hboth.toKept
  rw [clientOf_eq_ok.mpr hsecond, ok_bind, updateClientLastSeen_eq hnodup' hsecond hfirst]
  have honline'' : (both.see .player2 now2).Online :=
    (sameRoster_setLastSeen both .player2 now2).online_iff.mpr honline'
  refine ⟨_, rfl, fun ref => ?_⟩
  by_cases hdrop : both.Stale PlayerRef.player2.other now2
  · rw [if_pos hdrop]
    have hfirst' : ((both.see .player2 now2).player .player1).client = some first := hfirst
    have hsilent : ¬ (now1 = 0 ∨ now2 - now1 ≤ Player.MAX_INACTIVITY_MS) := by
      rw [not_or, UInt64.not_le]
      exact hdrop
    cases ref with
    | player1 =>
      rw [client_onClientDisconnect hfirst']
      exact iff_of_false (by simp) fun hstays => hsilent (hstays rfl)
    | player2 =>
      have hnodup'' := nodup_of_kept hnodup' (quiet_setLastSeen both .player2 now2).toKept
      obtain ⟨_, _, msgs, hmsgs⟩ := (paused_onClientDisconnect hnodup'' honline''
        (findPlayer_of_client hnodup'' hfirst')).same
      obtain ⟨client, hclient⟩ := honline'' .player2
      refine iff_of_true ⟨{ client with sent := client.sent ++ msgs }, ?_⟩ PlayerRef.noConfusion
      exact hmsgs.trans (congrArg _ hclient)
  · rw [if_neg hdrop]
    refine iff_of_true (honline'' ref) fun _ => ?_
    have hsilent := not_and_or.mp hdrop
    rwa [not_not, UInt64.not_lt] at hsilent

/-- A client is a player of a later game exactly when his player is online. -/
theorem findPlayer_of_kept (hnodup : g.heldFds.Nodup) (h : Kept g g')
    (hclient : (g.player ref).client = some client) :
    g'.findPlayer client.clientFd ≠ none ↔ ∃ client', (g'.player ref).client = some client' := by
  constructor
  · intro hfound
    obtain ⟨ref', href'⟩ := Option.ne_none_iff_exists'.mp hfound
    obtain ⟨client', hclient', hfd'⟩ := findPlayer_eq_some href'
    obtain ⟨before, hbefore, hfd, _⟩ := h.players ref' client' hclient'
    have hsame := findPlayer_of_client hnodup hbefore
    rw [← hfd, hfd', findPlayer_of_client hnodup hclient] at hsame
    cases hsame
    exact ⟨client', hclient'⟩
  · rintro ⟨client', hclient'⟩ hnone
    obtain ⟨before, hbefore, hfd, _⟩ := h.players ref client' hclient'
    cases hclient.symm.trans hbefore
    exact findPlayer_eq_none.mp hnone ref client' hclient' hfd

theorem freePlayer_of_client (hclient : (g.player ref.other).client = some client)
    (hnone : (g.player ref).client = none) : g.freePlayer = some ref := by
  cases ref with
  | player1 =>
    have hoff : g.playerOneOnline = false := by
      simp only [player] at hnone
      simp [playerOneOnline, hnone]
    rw [freePlayer, hoff]
    rfl
  | player2 =>
    have hon : g.playerOneOnline = true := by
      simp only [player, PlayerRef.other] at hclient
      simp [playerOneOnline, hclient]
    have hoff : g.playerTwoOnline = false := by
      simp only [player] at hnone
      simp [playerTwoOnline, hnone]
    rw [freePlayer, hon, hoff]
    rfl

end Seen

section Arrival

variable {g : Game} {client : ProtocolClient} {waiting : List ProtocolClient} {ref : PlayerRef}

/-- The game in which the player who was left and the arriving client are greeted. -/
theorem takeNewClient_of_oneOnline {other : ProtocolClient} (hnodup : g.heldFds.Nodup)
    (hother : (g.player ref.other).client = some other) (hnone : (g.player ref).client = none)
    (hdata : g.gameInput.data = client :: waiting) (hregister : g.CanRegister client.clientFd)
    (now1 now2 : UInt64) :
    ∃ arrived : Game, g.takeNewClient now1 now2 = arrived.greetPlayers now1 now2 ∧
      arrived.heldFds.Nodup ∧ arrived.Online ∧ (arrived.player ref).client = some client ∧
      ∀ now, arrived.Stale .player2 now ↔ g.Stale .player2 now := by
  have hfree := freePlayer_of_client hother hnone
  have hpop : g.gameInput.pop = some (client, { g.gameInput with data := waiting }) :=
    EventfdQueue.pop_eq_some.mpr ⟨waiting, hdata, rfl⟩
  obtain ⟨epoll, hwatch⟩ := hregister
  set taken := g.arrive ref client { g.gameInput with data := waiting } with htaken
  have hregistered : taken.registerClient client.clientFd = .ok { taken with epoll := epoll } := by
    rw [registerClient, htaken, arrive, epoll_modifyPlayer, hwatch]
    rfl
  have hself : (taken.player ref).client = some client := by
    rw [htaken, arrive, player_modifyPlayer_self]
  have hleft : (taken.player ref.other).client = some other := by
    rw [htaken, arrive, player_modifyPlayer_other, ← hother]
    cases ref <;> rfl
  have honline : ∀ unpaused : Game, (∀ ref, unpaused.player ref = taken.player ref) →
      unpaused.Online := by
    intro unpaused hplayers ref'
    rw [hplayers]
    rcases PlayerRef.eq_or_eq_other ref' ref with rfl | rfl
    · exact ⟨client, hself⟩
    · exact ⟨other, hleft⟩
  have hplayers : ∀ ref, ({ taken with epoll := epoll, isPaused := false } : Game).player ref =
      taken.player ref := fun ref => by cases ref <;> rfl
  refine ⟨{ taken with epoll := epoll, isPaused := false }, ?_, ?_, honline _ hplayers, ?_, ?_⟩
  · rw [takeNewClient, hfree, hpop]
    change (taken.registerClient client.clientFd >>= _) = _
    rw [hregistered, ok_bind, if_pos]
    exact bothPlayersOnline_eq_true.mpr (honline _ fun ref => by cases ref <;> rfl)
  · exact Multiset.nodup_of_le (settled_arrive hfree hpop).heldFds_le hnodup
  · rw [hplayers]
    exact hself
  · intro now
    have hseen : (taken.player .player2).lastSeen = (g.player .player2).lastSeen := by
      rw [htaken]
      cases ref <;> rfl
    rw [Stale, Stale, hplayers, hseen]

/-- An arrival in a paused game is handled well exactly when it can resume the
game. -/
theorem resumes_iff_canResume (hnodup : g.heldFds.Nodup) (hone : OneOnline g)
    (hdata : g.gameInput.data = client :: waiting) (now1 now2 : UInt64) :
    Resumes client g.board (g.takeNewClient now1 now2) ↔ CanResume g client now1 now2 := by
  obtain ⟨left, other, hother, hnone⟩ := hone
  rw [← PlayerRef.other_other left] at hother
  have hfree := freePlayer_of_client hother hnone
  by_cases hregister : g.CanRegister client.clientFd
  · obtain ⟨arrived, hgreet, hnodup', honline, hclient, hstale⟩ :=
      takeNewClient_of_oneOnline hnodup hother hnone hdata hregister now1 now2
    have hkept := (quiet_greetPlayers arrived now1 now2).mono fun _ h => h.toKept
    have hboard := (settled_takeNewClient g now1 now2).mono fun _ h => h.2
    by_cases hsecond : g.Stale .player2 now1
    · refine iff_of_false ?_ fun hcan => hcan.secondSeen hsecond
      rintro ⟨g', hok, _⟩
      rw [hgreet] at hok
      exact greetPlayers_of_stale hnodup' honline ((hstale now1).mpr hsecond) now2 hok
    · obtain ⟨g', hok, hstays⟩ :=
        greetPlayers_of_not_stale hnodup' honline (mt (hstale now1).mp hsecond) now2
      have hplays : g'.findPlayer client.clientFd ≠ none ↔ (left.other = .player1 →
          now1 = 0 ∨ now2 - now1 ≤ Player.MAX_INACTIVITY_MS) := by
        rw [findPlayer_of_kept hnodup' (hkept.of_ok hok) hclient, hstays]
      rw [← hgreet] at hok
      constructor
      · rintro ⟨_, hok', hfound, _⟩
        cases hok.symm.trans hok'
        refine ⟨hregister, hsecond, fun hfirst => hplays.mp hfound ?_⟩
        exact Option.some.inj (hfree.symm.trans hfirst)
      · intro hcan
        exact ⟨g', hok, hplays.mpr fun hfirst => hcan.firstSeen (hfirst ▸ hfree),
          hboard.of_ok hok⟩
  · refine iff_of_false ?_ fun hcan => hregister hcan.registers
    rintro ⟨g', hok, _⟩
    obtain ⟨_, _, _, hregister', _⟩ := takeNewClient_eq_ok hdata hok
    exact hregister hregister'

end Arrival

end UpsServer.Game

namespace UpsServer.GameThread

open Game

/-- The board when the pause of the game began: it is followed as long as the
game is not paused. -/
def pausedBoard (steps : List (GameThread × GameAction × GameThread)) :
    GameGraph GameGraph.GAME_NODE_NUM × GameGraph GameGraph.GAME_NODE_NUM × Bool :=
  steps.foldl (fun board s => if s.1.game.isPaused then board else s.2.2.game.board) ({}, {}, true)

/-- Nobody moves in a paused game. -/
theorem board_of_paused {steps : List (GameThread × GameAction × GameThread)} {t : GameThread}
    (h : system.Run steps t) (hpaused : t.game.isPaused = true) :
    t.game.board = pausedBoard steps := by
  induction h with
  | init hinit =>
    obtain ⟨gameInput, gameOutput, _, hstart, _⟩ := hinit
    obtain ⟨epoll, hgame⟩ := start_eq_ok hstart
    rw [hgame] at hpaused
    cases hpaused
  | @step steps t t' action _ hstep ih =>
    have hsteps : pausedBoard (steps ++ [(t, action, t')]) =
        if t.game.isPaused then pausedBoard steps else t'.game.board := by
      rw [pausedBoard, List.foldl_append]
      rfl
    rw [hsteps]
    by_cases hbefore : t.game.isPaused = true
    · rw [if_pos hbefore, ← ih hbefore]
      rcases board_step hstep with ⟨hboard, _⟩ | ⟨msg, clientFd, move, haccepts, _⟩
      · exact hboard
      · cases hbefore.symm.trans (legal_of_readMove haccepts.accepted).notPaused
    · rw [if_neg hbefore]

/-- In every run that has paused a game with one player left, the arrival of a
client resumes the game with the board of the time before the pause exactly when
the client can resume it. -/
theorem resumes_iff {steps : List (GameThread × GameAction × GameThread)} {t : GameThread}
    (h : system.Run steps t) (hpaused : t.game.isPaused = true) (hone : OneOnline t.game)
    {client : ProtocolClient} {waiting : List ProtocolClient}
    (hdata : t.game.gameInput.data = client :: waiting) (now1 now2 : UInt64) :
    Resumes client (pausedBoard steps) (t.game.takeNewClient now1 now2) ↔
      CanResume t.game client now1 now2 := by
  rw [← board_of_paused h hpaused]
  exact resumes_iff_canResume (nodup_heldFds h.reachable) hone hdata now1 now2

/-- The readings of the clock in a step. -/
def clockReadings : GameAction → List UInt64
  | .takeNewClient now1 now2 => [now1, now2]
  | .message now => [now]
  | _ => []

/-- A third client is sent to a game in place of the second one, who has left. -/
def replaceSecond : List GameAction :=
  joinBoth ++ [.disconnect 11 EPOLLRDHUP, .deliver { clientFd := 12, clientName := ['C'] },
    .newClientEvent]

/-- The run of the third client, with a clock that goes on to `now`. -/
theorem exists_replaced (now : UInt64) (p : GameThread → Bool)
    (h : ((started.bind (TransitionSystem.traceActions step replaceSecond)).any fun trace =>
      trace.2.game.isPaused && trace.2.game.player1.client.isSome &&
        trace.2.game.player2.client.isNone &&
        decide (trace.2.game.gameInput.data = [{ clientFd := 12, clientName := ['C'] }]) &&
        decide (((trace.1.map fun s => clockReadings s.2.1).flatten ++ [now, now]).Pairwise
          (· ≤ ·)) && p trace.2) = true) :
    ∃ steps t, system.Run steps t ∧ t.game.isPaused = true ∧ OneOnline t.game ∧
      t.game.gameInput.data = [{ clientFd := 12, clientName := ['C'] }] ∧
      ((steps.map fun s => clockReadings s.2.1).flatten ++ [now, now]).Pairwise (· ≤ ·) ∧
      p t = true := by
  obtain ⟨steps, t, hrun, hstate⟩ :=
    TransitionSystem.exists_run_of_any (fun _ _ _ => id) (init_of_start (by decide)) h
  simp only [Bool.and_eq_true, Option.isSome_iff_exists, Option.isNone_iff_eq_none,
    decide_eq_true_eq] at hstate
  obtain ⟨⟨⟨⟨⟨hpaused, client, h1⟩, h2⟩, hdata⟩, hclock⟩, hp⟩ := hstate
  exact ⟨steps, t, hrun, hpaused, ⟨.player1, client, h1, h2⟩, hdata, hclock, hp⟩

theorem resumes_iff_soon : ∃ steps t client, system.Run steps t ∧ t.game.isPaused = true ∧
    OneOnline t.game ∧ t.game.gameInput.data = [client] ∧
    Resumes client (pausedBoard steps) (t.game.takeNewClient 2000 2000) := by
  obtain ⟨steps, t, hrun, hpaused, hone, hdata, _, hcan⟩ :=
    exists_replaced 2000 (fun t => decide (t.game.CanRegister 12 ∧ ¬ t.game.Stale .player2 2000))
      (by decide +kernel)
  obtain ⟨hregisters, hseen⟩ := of_decide_eq_true hcan
  refine ⟨steps, t, _, hrun, hpaused, hone, hdata, (resumes_iff hrun hpaused hone hdata 2000 2000).mpr ?_⟩
  exact ⟨hregisters, hseen, fun _ => .inr (by decide)⟩

/-- The clock of the second player has gone on during the pause, and the third
client is dropped before he is sent the game. -/
theorem not_resumes_late : ¬ ∀ steps t client waiting now1 now2, system.Run steps t →
    t.game.isPaused = true → OneOnline t.game → t.game.gameInput.data = client :: waiting →
    ((steps.map fun s => clockReadings s.2.1).flatten ++ [now1, now2]).Pairwise (· ≤ ·) →
    Resumes client (pausedBoard steps) (t.game.takeNewClient now1 now2) := by
  obtain ⟨steps, t, hrun, hpaused, hone, hdata, hclock, hfails⟩ :=
    exists_replaced 40000 (fun t => (t.game.takeNewClient 40000 40000).toOption.isNone)
      (by decide +kernel)
  intro hall
  obtain ⟨g', hok, _⟩ := hall steps t _ _ 40000 40000 hrun hpaused hone hdata hclock
  rw [toOption_eq_some.mpr hok] at hfails
  cases hfails

end UpsServer.GameThread
