import UpsServer.GameRoom.Exceptions
import UpsServer.GameRoom.Drop
import UpsServer.GameRoom.Handlers

open Outcome

namespace UpsServer.Game

/-- Some player is online. -/
def SomeoneOnline (g : Game) : Prop := ∃ ref client, (g.player ref).client = some client

/-- While someone is online, the game is paused exactly if a player is missing. -/
def PauseMatches (g : Game) : Prop := g.SomeoneOnline → (g.isPaused = false ↔ g.Online)

/-- The same names are online, and the pause is the same. -/
structure SameRoster (g g' : Game) : Prop where
  isPaused : g'.isPaused = g.isPaused
  names : ∀ ref, (g'.player ref).client.map (·.clientName) = (g.player ref).client.map (·.clientName)

section Roster

variable {g g' g'' : Game}

theorem SameRoster.refl (g : Game) : SameRoster g g := ⟨rfl, fun _ => rfl⟩

theorem SameRoster.trans (h : SameRoster g g') (h' : SameRoster g' g'') : SameRoster g g'' :=
  ⟨h'.isPaused.trans h.isPaused, fun ref => (h'.names ref).trans (h.names ref)⟩

theorem SameRoster.client_iff (h : SameRoster g g') (ref : PlayerRef) :
    (∃ client, (g'.player ref).client = some client) ↔
      ∃ client, (g.player ref).client = some client := by
  rw [← Option.isSome_iff_exists, ← Option.isSome_iff_exists, ← Option.isSome_map, h.names,
    Option.isSome_map]

theorem SameRoster.online_iff (h : SameRoster g g') : g'.Online ↔ g.Online :=
  forall_congr' h.client_iff

theorem SameRoster.pauseMatches (h : SameRoster g g') (hg : g.PauseMatches) : g'.PauseMatches := by
  intro hsomeone
  rw [h.isPaused, h.online_iff]
  exact hg ((exists_congr h.client_iff).mp hsomeone)

theorem sameRoster_modifyClient (g : Game) (ref : PlayerRef) {f : ProtocolClient → ProtocolClient}
    (hf : ∀ client, (g.player ref).client = some client →
      (f client).clientName = client.clientName) : SameRoster g (g.modifyClient ref f) :=
  ⟨isPaused_modifyPlayer _ _ _, map_client_modifyClient _ g ref hf⟩

theorem sameRoster_setLastSeen (g : Game) (ref : PlayerRef) (now : UInt64) :
    SameRoster g (g.modifyPlayer ref fun p => { p with lastSeen := now }) :=
  ⟨isPaused_modifyPlayer _ _ _, map_client_modifyPlayer g ref _ _ rfl⟩

theorem Calm.sameRoster (h : Calm g g') : SameRoster g g' := by
  refine ⟨h.isPaused, fun ref => ?_⟩
  have hnames := congrArg (Option.map Prod.snd) (h.clients ref)
  rwa [Option.map_map, Option.map_map] at hnames

theorem calm_tellBoth (g : Game) :
    Calm g ((g.sendGameState .player1).sendGameState .player2) :=
  (calm_sendMsg g .player1 _).trans (calm_sendMsg _ .player2 _)

private theorem dropClient_same (g : Game) (ref : PlayerRef) (clientFd : Int) :
    (g.dropClient ref clientFd).isPaused = g.isPaused ∧
      (g.dropClient ref clientFd).gameOutput = g.gameOutput := by
  unfold dropClient
  split
  · exact ⟨isPaused_modifyPlayer _ _ _, gameOutput_modifyPlayer _ _ _⟩
  · exact ⟨rfl, rfl⟩

/-- A drop leaves nobody online and is not reported, or it leaves a paused game,
which is reported and shown to both players. -/
theorem onClientDisconnect_cases (g : Game) (clientFd : Int) :
    (¬ (g.onClientDisconnect clientFd).SomeoneOnline ∧
      (g.onClientDisconnect clientFd).isPaused = g.isPaused ∧
      (g.onClientDisconnect clientFd).gameOutput = g.gameOutput) ∨
    ∃ paused : Game, paused.SomeoneOnline ∧ paused.isPaused = true ∧
      paused.gameOutput = g.gameOutput.push { newState := .PAUSED } ∧
      g.onClientDisconnect clientFd =
        (paused.sendGameState .player1).sendGameState .player2 := by
  have hone := dropClient_same g .player1 clientFd
  have htwo := dropClient_same (g.dropClient .player1 clientFd) .player2 clientFd
  unfold onClientDisconnect
  simp only
  split
  · rename_i hgone
    refine .inl ⟨fun hsomeone => ?_, htwo.1.trans hone.1, htwo.2.trans hone.2⟩
    obtain ⟨ref, client, hclient⟩ := hsomeone
    simp only [playerOneOnline, playerTwoOnline, Bool.and_eq_true, Bool.not_eq_true',
      Option.isSome_eq_false_iff, Option.isNone_iff_eq_none] at hgone
    cases ref with
    | player1 => cases hgone.1.symm.trans hclient
    | player2 => cases hgone.2.symm.trans hclient
  · rename_i hleft
    have hreported := congrArg (EventfdQueue.push · { newState := .PAUSED }) (htwo.2.trans hone.2)
    refine .inr ⟨_, ?_, rfl, hreported, rfl⟩
    simp only [playerOneOnline, playerTwoOnline, Bool.and_eq_true, Bool.not_eq_true',
      Option.isSome_eq_false_iff, Option.isNone_iff_eq_none, not_and_or, ← ne_eq,
      Option.ne_none_iff_exists'] at hleft
    obtain hleft | hleft := hleft
    · exact ⟨.player1, hleft⟩
    · exact ⟨.player2, hleft⟩

private theorem isPaused_onClientDisconnect {clientFd : Int}
    (h : (g.onClientDisconnect clientFd).SomeoneOnline) :
    (g.onClientDisconnect clientFd).isPaused = true := by
  obtain ⟨hnobody, _⟩ | ⟨paused, _, hpaused, _, heq⟩ := onClientDisconnect_cases g clientFd
  · exact (hnobody h).elim
  · rw [heq, (calm_tellBoth paused).isPaused, hpaused]

theorem findPlayer_eq_none {clientFd : Int} : g.findPlayer clientFd = none ↔
    ∀ ref client, (g.player ref).client = some client → client.clientFd ≠ clientFd := by
  constructor
  · rintro hnone ref client hclient rfl
    have hhas : (g.player ref).hasClient client.clientFd = true := by
      simp [Player.hasClient, hclient]
    cases ref with
    | player1 =>
      rw [findPlayer, if_pos (c := g.player1.hasClient client.clientFd = true) hhas] at hnone
      cases hnone
    | player2 =>
      rw [findPlayer, if_pos (c := g.player2.hasClient client.clientFd = true) hhas] at hnone
      split at hnone <;> cases hnone
  · intro hnobody
    cases hfind : g.findPlayer clientFd with
    | none => rfl
    | some ref =>
      obtain ⟨client, hclient, hfd⟩ := findPlayer_eq_some hfind
      exact (hnobody ref client hclient hfd).elim

/-- The player whose client is dropped goes offline. -/
theorem client_onClientDisconnect {ref : PlayerRef} {client : ProtocolClient}
    (h : (g.player ref).client = some client) :
    ((g.onClientDisconnect client.clientFd).player ref).client = none := by
  cases hclient' : ((g.onClientDisconnect client.clientFd).player ref).client with
  | none => rfl
  | some client' =>
    obtain ⟨_, hclient, hfd, _⟩ :=
      (quiet_onClientDisconnect g client.clientFd).players ref client' hclient'
    cases h.symm.trans hclient
    exact (findPlayer_eq_none.mp (findPlayer_onClientDisconnect g _) ref client' hclient' hfd).elim

/-- The game after looking for a descriptor that belongs to neither of two
players. -/
theorem onClientDisconnect_of_none {clientFd : Int} (honline : g.Online)
    (h : g.findPlayer clientFd = none) :
    (g.onClientDisconnect clientFd).Online ∧ (g.onClientDisconnect clientFd).isPaused = true := by
  have hkeep : ∀ ref, g.dropClient ref clientFd = g := by
    intro ref
    refine if_neg fun hhas => ?_
    simp only [Player.hasClient, Option.any_eq_true, beq_iff_eq] at hhas
    obtain ⟨client, hclient, hfd⟩ := hhas
    exact findPlayer_eq_none.mp h ref client hclient hfd
  obtain ⟨client1, h1⟩ := honline .player1
  have hone : g.playerOneOnline = true := Option.isSome_iff_exists.mpr ⟨client1, h1⟩
  have heq : g.onClientDisconnect clientFd =
      ({ g with gameOutput := g.gameOutput.push { newState := .PAUSED }, isPaused := true }
        |>.sendGameState .player1).sendGameState .player2 := by
    simp [onClientDisconnect, hkeep, hone]
  have honline' : ({ g with
      gameOutput := g.gameOutput.push { newState := .PAUSED }, isPaused := true } : Game).Online :=
    fun ref => by
      cases ref with
      | player1 => exact honline .player1
      | player2 => exact honline .player2
  rw [heq]
  exact ⟨(calm_tellBoth _).sameRoster.online_iff.mpr honline', (calm_tellBoth _).isPaused⟩

/-- A drop pauses the game rightly, unless both players are online and neither is
dropped. -/
theorem pauseMatches_onClientDisconnect_iff (g : Game) (clientFd : Int) :
    (g.onClientDisconnect clientFd).PauseMatches ↔
      (g.Online → g.findPlayer clientFd ≠ none) := by
  constructor
  · intro hmatches honline hnone
    obtain ⟨honline', hpaused⟩ := onClientDisconnect_of_none honline hnone
    rw [(hmatches ⟨.player1, honline' .player1⟩).mpr honline'] at hpaused
    cases hpaused
  · intro hfound hsomeone
    have hpaused := isPaused_onClientDisconnect hsomeone
    refine iff_of_false (by simp [hpaused]) fun honline' => ?_
    have honline : g.Online := fun ref => by
      obtain ⟨client', hclient'⟩ := honline' ref
      obtain ⟨client, hclient, _⟩ :=
        (quiet_onClientDisconnect g clientFd).players ref client' hclient'
      exact ⟨client, hclient⟩
    obtain ⟨ref, href⟩ := Option.ne_none_iff_exists'.mp (hfound honline)
    obtain ⟨client, hclient, rfl⟩ := findPlayer_eq_some href
    obtain ⟨client', hclient'⟩ := honline' ref
    cases (client_onClientDisconnect hclient).symm.trans hclient'

private theorem pauseMatches_of_client {ref : PlayerRef} {client : ProtocolClient}
    (h : (g.player ref).client = some client) :
    (g.onClientDisconnect client.clientFd).PauseMatches :=
  (pauseMatches_onClientDisconnect_iff g _).mpr fun _ hnone =>
    findPlayer_eq_none.mp hnone ref client h rfl

end Roster

section Handlers

variable {g : Game}

/-- Handlers pause a game rightly. -/
theorem keptByHandlers_pauseMatches : KeptByHandlers PauseMatches :=
  ⟨fun _ _ hcalm h => hcalm.sameRoster.pauseMatches h,
    fun _ _ _ hclient _ => pauseMatches_of_client hclient⟩

/-- The call dereferences the pointer of a player who is offline. -/
abbrev Dereferences {α : Type} (x : Exec Game α) : Prop :=
  Fails (fun fault : Fault => fault = .nullDereference) x

private theorem not_dereferences_of_isException {α : Type} {fault : Fault}
    (h : fault.isException = true) : ¬ Dereferences (.error (fault, g) : Exec Game α) := by
  rw [Dereferences, fails_error]
  rintro rfl
  cases h

private theorem not_dereferences_clientOf {ref : PlayerRef}
    (h : ∃ client, (g.player ref).client = some client) : ¬ Dereferences (g.clientOf ref) := by
  obtain ⟨client, hclient⟩ := h
  rw [clientOf_eq_ok.mpr hclient]
  exact not_fails_ok

private theorem not_dereferences_derefClient (clientFd : Int) :
    ¬ Dereferences (g.derefClient clientFd) := by
  unfold derefClient
  split <;> simp

private theorem not_dereferences_checkEdge (ref : PlayerRef) (edge : Str) :
    ¬ Dereferences (g.checkEdge ref edge) := by
  by_cases hlength : edge.length < 3
  · obtain ⟨fault, hparse, hexception⟩ := parseEdge_of_short hlength
    rw [checkEdge_of_error hparse]
    exact not_dereferences_of_isException hexception
  · obtain ⟨move, hmove⟩ := checkEdge_ok_iff.mpr (Nat.le_of_not_lt hlength)
    rw [hmove]
    exact not_fails_ok

/-- The checks of a command look at both clients only in a game that is not
paused. -/
theorem not_dereferences_readMove (h : g.isPaused = false → g.Online) (msg : ProtocolData)
    (clientFd : Int) : ¬ Dereferences (g.readMove msg clientFd) := by
  unfold readMove
  split
  · exact not_fails_pure
  rename_i hpaused
  have honline := h (by simpa using hpaused)
  refine not_fails_bind ?_ fun ref _ => ?_
  · unfold getPlayer
    split <;> simp
  refine not_fails_bind (not_fails_bind (not_dereferences_clientOf (honline _))
    fun _ _ => not_fails_pure) fun notOnTurn _ => ?_
  split
  · exact not_fails_pure
  split
  · exact not_fails_pure
  refine not_fails_bind ?_ fun edge _ => not_dereferences_checkEdge ref edge
  unfold ProtocolData.getField
  split <;> simp

private theorem not_dereferences_denyRequest (clientFd : Int) :
    ¬ Dereferences (g.denyRequest clientFd) := by
  refine not_fails_bind (not_dereferences_derefClient clientFd) fun ref href => ?_
  obtain ⟨client, hclient, _⟩ := findPlayer_eq_some (derefClient_eq_ok.mp href)
  refine not_fails_bind (not_dereferences_clientOf ⟨client, hclient⟩) fun client _ => ?_
  split <;> exact not_fails_pure

/-- A command that passes the check of the pause finds both players. -/
theorem PauseMatches.not_dereferences (h : g.PauseMatches) (msg : ProtocolData) (clientFd : Int) :
    ¬ Dereferences (g.processGameCommand msg clientFd) := by
  refine not_fails_bind (not_dereferences_derefClient clientFd) fun ref href => ?_
  obtain ⟨client, hclient, _⟩ := findPlayer_eq_some (derefClient_eq_ok.mp href)
  have honline : g.isPaused = false → g.Online := (h ⟨ref, client, hclient⟩).mp
  refine not_fails_bind (not_dereferences_readMove honline msg clientFd) fun move hmove => ?_
  cases move with
  | none => exact not_dereferences_denyRequest clientFd
  | some move =>
    obtain ⟨gameData, _, hplay⟩ := playMove_ok (legal_of_readMove hmove).online move
    simp only [hplay]
    exact not_fails_ok

end Handlers

/-- The player who does not arrive is the one who was there. -/
theorem online_other_of_arrive {g : Game} {ref : PlayerRef} {client : ProtocolClient}
    {gameInput : EventfdQueue ProtocolClient} (h : (g.arrive ref client gameInput).Online) :
    ∃ other, (g.player ref.other).client = some other := by
  obtain ⟨other, hother⟩ := h ref.other
  rw [arrive, player_modifyPlayer_other] at hother
  refine ⟨other, ?_⟩
  cases ref <;> exact hother

/-- What is left of an arrival that does not fail. -/
theorem takeNewClient_eq_ok {g g' : Game} {client : ProtocolClient} {waiting : List ProtocolClient}
    {now1 now2 : UInt64} (hdata : g.gameInput.data = client :: waiting)
    (h : g.takeNewClient now1 now2 = .ok g') :
    ∃ ref arrived, g.freePlayer = some ref ∧ g.CanRegister client.clientFd ∧
      (g.arrive ref client { g.gameInput with data := waiting }).registerClient client.clientFd =
        .ok arrived ∧
      SameRoster (g.arrive ref client { g.gameInput with data := waiting }) arrived ∧
      if arrived.bothPlayersOnline then
        greetPlayers { arrived with isPaused := false } now1 now2 = .ok g'
      else arrived = g' := by
  rw [takeNewClient, EventfdQueue.pop_eq_some.mpr ⟨waiting, hdata, rfl⟩] at h
  cases hfree : g.freePlayer with
  | none =>
    rw [hfree] at h
    cases h
  | some ref =>
    rw [hfree] at h
    obtain ⟨arrived, hregister, h⟩ := bind_eq_ok.mp h
    obtain ⟨epoll, hwatch, harrived⟩ := bind_eq_ok.mp hregister
    rw [withState_eq_ok, arrive, epoll_modifyPlayer] at hwatch
    refine ⟨ref, arrived, rfl, ⟨epoll, hwatch⟩, hregister, ?_, ?_⟩
    · cases harrived
      exact ⟨rfl, fun ref => by cases ref <;> rfl⟩
    · split at h
      · rename_i hboth
        rwa [if_pos hboth]
      · rename_i hboth
        cases h
        rw [if_neg hboth]

private theorem someoneOnline_of_full {g : Game} (h : g.freePlayer = none) : g.SomeoneOnline := by
  unfold freePlayer at h
  split at h
  · cases h
  · rename_i hone
    rw [Bool.not_eq_true', Bool.not_eq_false, playerOneOnline, Option.isSome_iff_exists] at hone
    exact ⟨.player1, hone⟩

/-- An arrival leaves the pause right, unless it is the first one in a game that
is not paused. -/
theorem pauseMatches_takeNewClient_iff {g g' : Game} {client : ProtocolClient}
    {waiting : List ProtocolClient} {now1 now2 : UInt64}
    (hdata : g.gameInput.data = client :: waiting) (h : g.takeNewClient now1 now2 = .ok g') :
    g'.PauseMatches ↔ (g.isPaused = false → g.SomeoneOnline) := by
  obtain ⟨ref, arrived, hfree, _, _, hroster, hrest⟩ := takeNewClient_eq_ok hdata h
  have hself : ((g.arrive ref client { g.gameInput with data := waiting }).player ref).client =
      some client := by
    simp [arrive]
  have hother : ((g.arrive ref client { g.gameInput with data := waiting }).player
      ref.other).client = (g.player ref.other).client := by
    cases ref <;> rfl
  have honline : arrived.Online ↔ g.SomeoneOnline := by
    rw [hroster.online_iff]
    constructor
    · intro honline
      obtain ⟨other, hclient⟩ := honline ref.other
      exact ⟨ref.other, other, hother ▸ hclient⟩
    · rintro ⟨ref', client', hclient'⟩ ref''
      have hne : ref' = ref.other := by
        refine (PlayerRef.eq_or_eq_other ref' ref).resolve_left ?_
        rintro rfl
        cases (freePlayer_eq_some hfree).symm.trans hclient'
      rcases PlayerRef.eq_or_eq_other ref'' ref with rfl | rfl
      · exact ⟨client, hself⟩
      · exact ⟨client', by rw [hother, ← hne, hclient']⟩
  by_cases hboth : arrived.bothPlayersOnline = true
  · rw [if_pos hboth] at hrest
    rw [bothPlayersOnline_eq_true] at hboth
    have hunpaused : PauseMatches { arrived with isPaused := false } := fun _ =>
      iff_of_true rfl fun ref' => by
        cases ref' with
        | player1 => exact hboth .player1
        | player2 => exact hboth .player2
    exact iff_of_true ((keptByHandlers_pauseMatches.greetPlayers hunpaused now1 now2).of_ok hrest)
      fun _ => honline.mp hboth
  · rw [if_neg hboth] at hrest
    subst hrest
    rw [bothPlayersOnline_eq_true] at hboth
    have hsomeone : arrived.SomeoneOnline := ⟨ref, (hroster.client_iff ref).mpr ⟨client, hself⟩⟩
    have hpaused : arrived.isPaused = g.isPaused := by
      rw [hroster.isPaused, arrive, isPaused_modifyPlayer]
    rw [PauseMatches, hpaused, ← honline]
    exact ⟨fun hmatches => (hmatches hsomeone).mp, fun himp _ => ⟨himp, fun ho => (hboth ho).elim⟩⟩

end UpsServer.Game

namespace UpsServer.GameThread

open Game

/-- The event loop has not ended. -/
def Runs (t : GameThread) : Prop := t.pc ≠ .stopping ∧ t.pc ≠ .finished

/-- The loop of `_onNewClientConnect` goes on with another client. -/
def TakesNext (t : GameThread) : Prop := t.pc = .collecting ∧ t.game.gameInput.data ≠ []

/-- In a game that runs the pause matches who is online, and no command
dereferences the pointer of a player who is offline. -/
def PauseOk (t : GameThread) : Prop :=
  t.Runs → ¬ t.TakesNext → t.game.PauseMatches ∧
    ∀ msg clientFd, ¬ Dereferences (t.game.processGameCommand msg clientFd)

/-- The first client of a game is taken together with another one, and of two
players who are online one is dropped. -/
def KeepsPause (t : GameThread) : GameAction → Prop
  | .takeNewClient _ _ =>
    ∀ client, t.game.gameInput.data = [client] → t.game.CanRegister client.clientFd →
      t.game.isPaused = false → t.game.SomeoneOnline
  | .disconnect clientFd _ => t.game.Online → t.game.findPlayer clientFd ≠ none
  | _ => True

instance (g : Game) : Decidable g.SomeoneOnline :=
  decidable_of_iff (∃ ref, (g.player ref).client.isSome = true) <| by
    simp only [Option.isSome_iff_exists]
    rfl

instance (g : Game) : Decidable g.Online := decidable_of_iff _ bothPlayersOnline_eq_true

instance (t : GameThread) : DecidablePred t.KeepsPause
  | .takeNewClient _ _ =>
    decidable_of_iff (∀ client ∈ t.game.gameInput.data, t.game.gameInput.data = [client] →
        t.game.CanRegister client.clientFd → t.game.isPaused = false → t.game.SomeoneOnline) <| by
      refine forall_congr' fun client => ⟨fun h hdata => h (by simp [hdata]) hdata, fun h _ => h⟩
  | .disconnect clientFd _ =>
    inferInstanceAs (Decidable (t.game.Online → t.game.findPlayer clientFd ≠ none))
  | .deliver _ | .takeOutput | .readOutput | .newClientEvent | .collected | .receive _ _ | .message _
  | .readDone | .removeDescriptor _ | .stop | .destroy => inferInstanceAs (Decidable True)

private theorem pauseOk_iff {t : GameThread} :
    t.PauseOk ↔ (t.Runs → ¬ t.TakesNext → t.game.PauseMatches) :=
  ⟨fun h hruns hnext => (h hruns hnext).1, fun h hruns hnext =>
    ⟨h hruns hnext, (h hruns hnext).not_dereferences⟩⟩

/-- The steps that begin an event or end one find the loop of
`_onNewClientConnect` over. -/
theorem between_of_step {t t' : GameThread} {action : GameAction} (h : step t action = some t')
    (hown : action.isOwn = true) (htake : ∀ now1 now2, action ≠ .takeNewClient now1 now2)
    (hdestroy : action ≠ .destroy) : t.Runs ∧ ¬ t.TakesNext := by
  have hwaiting : t.pc = .waiting → t.Runs ∧ ¬ t.TakesNext := fun hpc =>
    ⟨⟨by simp [hpc], by simp [hpc]⟩, fun hnext => by cases hpc.symm.trans hnext.1⟩
  have hreading : ∀ clientFd messages, t.pc = .reading clientFd messages →
      t.Runs ∧ ¬ t.TakesNext := fun clientFd messages hpc =>
    ⟨⟨by simp [hpc], by simp [hpc]⟩, fun hnext => by cases hpc.symm.trans hnext.1⟩
  cases action with
  | deliver | takeOutput | readOutput => cases hown
  | takeNewClient now1 now2 => exact (htake now1 now2 rfl).elim
  | destroy => exact (hdestroy rfl).elim
  | newClientEvent | receive | disconnect | removeDescriptor | stop =>
    obtain ⟨⟨hpc, _⟩, _⟩ := Option.ite_none_right_eq_some.mp h
    exact hwaiting hpc
  | collected =>
    obtain ⟨⟨hpc, hinput⟩, _⟩ := Option.ite_none_right_eq_some.mp h
    exact ⟨⟨by simp [hpc], by simp [hpc]⟩, fun hnext => hnext.2 (List.isEmpty_iff.mp hinput)⟩
  | message | readDone =>
    simp only [step] at h
    split at h
    · rename_i hpc
      exact hreading _ _ hpc
    · cases h

private theorem between_of_endsHandler {t t' : GameThread} {action : GameAction}
    (h : step t action = some t') (hdone : endsHandler action = true) : t.Runs ∧ ¬ t.TakesNext := by
  apply between_of_step h
  · cases action with
    | collected | readDone => rfl
    | _ => cases hdone
  · rintro _ _ rfl
    cases hdone
  · rintro rfl
    cases hdone

/-- A thread whose event loop has ended does not return to it. -/
theorem runs_of_step {t t' : GameThread} {action : GameAction} (h : step t action = some t')
    (hruns : t'.Runs) : t.Runs := by
  have hbetween := between_of_step h
  cases effect_of_step h with
  | deliver _ hpc => rwa [Runs, hpc] at hruns
  | output _ _ hpc => rwa [Runs, hpc] at hruns
  | takeNewClient hpc => exact ⟨by simp [hpc], by simp [hpc]⟩
  | destroy _ heq => exact (hruns.2 (by rw [heq])).elim
  | handlerDone hdone => exact (between_of_endsHandler h hdone).1
  | _ => exact (hbetween rfl (by simp) (by simp)).1

/-- A step that starts between two events and keeps the clients and the pause. -/
theorem pauseOk_of_between {t t' : GameThread} (h : t.PauseOk) (hbetween : t.Runs ∧ ¬ t.TakesNext)
    (hgame : t.game.PauseMatches → t'.game.PauseMatches) : t'.PauseOk :=
  pauseOk_iff.mpr fun _ _ => hgame (h hbetween.1 hbetween.2).1

private theorem pauseOk_resume {t' : GameThread} {pc : ThreadPc} {x : Exec Game Game}
    (hx : Ends PauseMatches x) (h : resume pc x = some t') : t'.PauseOk :=
  pauseOk_iff.mpr fun _ _ => of_ends hx (fun _ h => h) (resume_eq_some h)

/-- A step leaves the pause right exactly when it keeps it. -/
theorem pauseOk_step {t t' : GameThread} {action : GameAction} (h : t.PauseOk)
    (hstep : step t action = some t') : t'.PauseOk ↔ t.KeepsPause action := by
  have hbetween := between_of_step hstep
  cases effect_of_step hstep with
  | deliver _ hpc hgame =>
    refine iff_of_true (pauseOk_iff.mpr fun hruns hnext => ?_) trivial
    rw [Runs, hpc] at hruns
    rw [hgame]
    refine (h hruns fun hnext' => hnext ⟨hpc.trans hnext'.1, ?_⟩).1
    rw [hgame]
    exact List.append_ne_nil_of_left_ne_nil hnext'.2 _
  | output _ hown hpc hgame =>
    have hkeeps : t.KeepsPause action := by
      cases action with
      | takeNewClient | disconnect => cases hown
      | _ => trivial
    refine iff_of_true (pauseOk_iff.mpr fun hruns hnext => ?_) hkeeps
    rw [Runs, hpc] at hruns
    rw [TakesNext, hpc, hgame] at hnext
    rw [hgame]
    exact (h hruns hnext).1
  | newClientEvent _ hgame | removeDescriptor _ hgame | stop _ hgame =>
    refine iff_of_true (pauseOk_of_between h (hbetween rfl (by simp) (by simp)) fun hmatches => ?_)
      trivial
    rw [hgame]
    exact hmatches
  | @takeNewClient now1 now2 hpc hinput hresume =>
    obtain ⟨client, waiting, hdata⟩ := EventfdQueue.exists_of_isEmpty_eq_false hinput
    have hkeeps : t.KeepsPause (.takeNewClient now1 now2) ↔
        (waiting = [] → t.game.CanRegister client.clientFd → t.game.isPaused = false →
          t.game.SomeoneOnline) := by
      rw [KeepsPause, hdata]
      constructor
      · rintro hkeep rfl
        exact hkeep client rfl
      · rintro himp client' hsingle
        cases hsingle
        exact himp rfl
    rw [hkeeps]
    cases hx : t.game.takeNewClient now1 now2 with
    | ok g' =>
      rw [hx] at hresume
      cases hresume
      obtain ⟨ref, _, hfree, hregister, _⟩ := takeNewClient_eq_ok hdata hx
      have hwaiting : g'.gameInput.data = waiting :=
        (gameInput_takeNewClient now1 now2 hfree hdata).of_ok hx
      rw [pauseOk_iff, pauseMatches_takeNewClient_iff hdata hx, TakesNext, hwaiting]
      refine ⟨fun hok hlast _ => hok ⟨ThreadPc.noConfusion, ThreadPc.noConfusion⟩ ?_,
        fun hkeep _ hnext => hkeep ?_ hregister⟩
      · exact fun hnext => hnext.2 hlast
      · by_contra hmore
        exact hnext ⟨rfl, hmore⟩
    | error e =>
      rw [hx] at hresume
      obtain ⟨hexception, hresume⟩ := Option.ite_none_right_eq_some.mp hresume
      cases hresume
      have hthrows : Throws (t.game.takeNewClient now1 now2) := by
        rw [hx]
        exact throws_error.mpr hexception
      refine iff_of_true (pauseOk_iff.mpr fun hruns => (hruns.1 rfl).elim) ?_
      intro _ hregister _
      rcases (throws_takeNewClient now1 now2 hdata).mp hthrows with hfull | hrefused
      · exact someoneOnline_of_full hfull
      · exact (hrefused hregister).elim
  | handlerDone hdone _ hgame =>
    have hkeeps : t.KeepsPause action := by
      cases action with
      | collected | readDone => trivial
      | _ => cases hdone
    refine iff_of_true (pauseOk_of_between h (between_of_endsHandler hstep hdone)
      fun hmatches => ?_) hkeeps
    rw [hgame]
    exact hmatches
  | receive hreceive =>
    exact iff_of_true (pauseOk_of_between h (hbetween rfl (by simp) (by simp)) fun hmatches =>
      keptByHandlers_pauseMatches.receiveMessages hmatches hreceive) trivial
  | receiveThrows _ _ hpc =>
    exact iff_of_true (pauseOk_iff.mpr fun hruns => (hruns.1 hpc).elim) trivial
  | message _ hresume =>
    obtain ⟨hruns, hnext⟩ := hbetween rfl (by simp) (by simp)
    exact iff_of_true (pauseOk_resume
      (keptByHandlers_pauseMatches.processClientMessage (h hruns hnext).1 _ _ _) hresume) trivial
  | disconnect hpc hgame =>
    rw [KeepsPause, ← pauseMatches_onClientDisconnect_iff, ← hgame, pauseOk_iff]
    refine ⟨fun hok => hok ⟨by simp [hpc], by simp [hpc]⟩ ?_, fun hmatches _ _ => hmatches⟩
    exact fun hnext => by cases hpc.symm.trans hnext.1
  | destroy _ heq =>
    refine iff_of_true (pauseOk_iff.mpr fun hruns => ?_) trivial
    rw [heq] at hruns
    exact (hruns.2 rfl).elim

/-- In every run the pause matches who is online, and so no command dereferences
the pointer of an offline player, exactly when all steps keep the pause. -/
theorem pauseOk_iff_keepsPause {steps : List (GameThread × GameAction × GameThread)}
    {t : GameThread} (h : system.Run steps t) :
    (t.PauseOk ∧ ∀ s ∈ steps, s.1.PauseOk) ↔ ∀ s ∈ steps, s.1.KeepsPause s.2.1 := by
  refine h.good_iff ?_ fun _ _ _ _ hok hstep => pauseOk_step hok hstep
  rintro t ⟨gameInput, gameOutput, _, hstart, _⟩
  obtain ⟨epoll, hgame⟩ := start_eq_ok hstart
  refine pauseOk_iff.mpr fun _ _ => ?_
  rintro ⟨ref, client, hclient⟩
  rw [hgame] at hclient
  cases ref <;> cases hclient

/-- The second player hangs up, and another client takes his place. -/
theorem pauseOk_iff_keepsPause_replaced : ∃ steps t, system.Run steps t ∧
    (∃ s ∈ steps, s.1.game.isPaused = true) ∧ t.game.Online ∧
    t.PauseOk ∧ ∀ s ∈ steps, s.1.PauseOk := by
  have hcheck : ((started.bind (TransitionSystem.traceActions step
      (joinBoth ++ [.disconnect 11 EPOLLRDHUP, .deliver { clientFd := 12, clientName := ['C'] },
        .newClientEvent, .takeNewClient 1000 1000, .collected]))).any fun trace =>
      decide (∀ s ∈ trace.1, s.1.KeepsPause s.2.1) && (trace.1.any fun s => s.1.game.isPaused) &&
        trace.2.game.bothPlayersOnline) = true := by
    decide +kernel
  obtain ⟨steps, t, hrun, hstate⟩ :=
    TransitionSystem.exists_run_of_any (fun _ _ _ => id) (init_of_start (by decide)) hcheck
  simp only [Bool.and_eq_true, decide_eq_true_eq, List.any_eq_true, bothPlayersOnline_eq_true] at hstate
  obtain ⟨⟨hkeeps, hpaused⟩, honline⟩ := hstate
  exact ⟨steps, t, hrun, hpaused, honline, (pauseOk_iff_keepsPause hrun).mpr hkeeps⟩

/-- A client who waits for a game to take him, and for another client. -/
def oneClient : EventfdQueue ProtocolClient :=
  { evfd := 100, data := [{ clientFd := 10, clientName := ['A'] }], counter := 1 }

/-- The first client has been taken before the second one was sent. -/
theorem not_pauseOk_oneClient : ¬ ∀ t, system.Reachable t → t.PauseOk := by
  have hcheck : ((((Game.start oneClient { evfd := 101 }).toOption.map ({ game := · })).bind
      (TransitionSystem.runActions step [.newClientEvent, .takeNewClient 1000 1000,
        .collected])).any fun t => decide (t.pc = .waiting) && !t.game.isPaused &&
          t.game.player1.client.isSome && t.game.player2.client.isNone) = true := by
    decide +kernel
  obtain ⟨t, hreachable, hstate⟩ := exists_of_start (by decide) hcheck
  simp only [Bool.and_eq_true, decide_eq_true_eq, Bool.not_eq_true', Option.isSome_iff_exists,
    Option.isNone_iff_eq_none] at hstate
  obtain ⟨⟨⟨hpc, hpaused⟩, h1⟩, h2⟩ := hstate
  intro hall
  have hnext : ¬ t.TakesNext := fun hnext => by cases hpc.symm.trans hnext.1
  have honline := ((hall t hreachable ⟨by simp [hpc], by simp [hpc]⟩ hnext).1
    ⟨.player1, h1⟩).mp hpaused
  obtain ⟨client, hclient⟩ := honline .player2
  cases h2.symm.trans hclient

end UpsServer.GameThread
