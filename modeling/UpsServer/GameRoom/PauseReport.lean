import UpsServer.GameRoom.PauseFlag

open Outcome

namespace UpsServer.Game

/-- The game is paused exactly if the idle room, which has the game as `state`,
knows of a pause or will hear of one. -/
def PauseNoted (state : GameState) (g : Game) : Prop :=
  g.isPaused = true ↔ state = .PAUSED ∨ g.gameOutput.data ≠ []

/-- The game has never been paused, and `fds` are all the clients it has seen. -/
structure Fresh (fds : Finset Int) (g : Game) : Prop where
  unpaused : g.isPaused = false
  players : ∀ ref client, (g.player ref).client = some client → client.clientFd ∈ fds
  monitors : ∃ monitored, g.epoll.Monitors monitored
  handlers : ∀ fd event, g.epoll.handler fd event = some .onClientDisconnect → fd ∈ fds

/-- The pause of a game is noted, and until two clients have come the game is
fresh. The last arrival unpauses a game without a word to the idle room. -/
structure PauseKnown (state : GameState) (toCome : Nat) (g : Game) : Prop where
  noted : g.PauseNoted state
  fresh : toCome + g.gameInput.data.length = 0 ∨
    ∃ fds : Finset Int, g.Fresh fds ∧ fds.card + (toCome + g.gameInput.data.length) ≤ 2

variable {state : GameState} {toCome : Nat} {fds : Finset Int} {g g' : Game}

theorem Calm.pauseNoted (h : Calm g g') (hnoted : g.PauseNoted state) : g'.PauseNoted state := by
  rw [PauseNoted, h.isPaused, h.gameOutput]
  exact hnoted

private theorem pauseNoted_onClientDisconnect (h : g.PauseNoted state) (clientFd : Int) :
    (g.onClientDisconnect clientFd).PauseNoted state := by
  obtain ⟨_, hpaused, houtput⟩ | ⟨paused, _, hpaused, houtput, heq⟩ :=
    onClientDisconnect_cases g clientFd
  · rw [PauseNoted, hpaused, houtput]
    exact h
  · rw [heq]
    apply (calm_tellBoth paused).pauseNoted
    refine iff_of_true hpaused (.inr ?_)
    rw [houtput, EventfdQueue.data_push]
    exact List.append_ne_nil_of_right_ne_nil _ (List.cons_ne_nil _ _)

private theorem keptByHandlers_pauseNoted (state : GameState) : KeptByHandlers (PauseNoted state) :=
  ⟨fun _ _ hcalm h => hcalm.pauseNoted h, fun _ _ _ _ h => pauseNoted_onClientDisconnect h _⟩

theorem Calm.fresh (h : Calm g g') (hfresh : g.Fresh fds) : g'.Fresh fds := by
  refine ⟨h.isPaused.trans hfresh.unpaused, fun ref client' hclient' => ?_, ?_, ?_⟩
  · obtain ⟨client, hclient, hsame⟩ := h.exists_client hclient'
    have hfd : client.clientFd = client'.clientFd := congrArg Prod.fst hsame
    rw [← hfd]
    exact hfresh.players ref client hclient
  · rw [h.epoll]
    exact hfresh.monitors
  · rw [h.epoll]
    exact hfresh.handlers

/-- As long as one client has come, his drop leaves nobody, and so no pause. -/
theorem fresh_onClientDisconnect (hcard : fds.card ≤ 1) (h : g.Fresh fds) {clientFd : Int}
    (hmem : clientFd ∈ fds) : (g.onClientDisconnect clientFd).Fresh fds := by
  have hkept := (quiet_onClientDisconnect g clientFd).toKept
  have hplayers : ∀ ref client', ((g.onClientDisconnect clientFd).player ref).client = some client' →
      client'.clientFd ∈ fds := by
    intro ref client' hclient'
    obtain ⟨client, hclient, hfd, _⟩ := hkept.players ref client' hclient'
    rw [hfd]
    exact h.players ref client hclient
  have hpaused : (g.onClientDisconnect clientFd).isPaused = false := by
    obtain ⟨_, hpaused, _⟩ | ⟨paused, ⟨ref, client, hclient⟩, _, _, heq⟩ :=
      onClientDisconnect_cases g clientFd
    · exact hpaused.trans h.unpaused
    · exfalso
      obtain ⟨client', hclient'⟩ :=
        ((calm_tellBoth paused).sameRoster.client_iff ref).mpr ⟨client, hclient⟩
      rw [← heq] at hclient'
      have hfd := Finset.card_le_one.mp hcard _ (hplayers ref client' hclient') clientFd hmem
      exact findPlayer_eq_none.mp (findPlayer_onClientDisconnect g clientFd) ref client' hclient' hfd
  refine ⟨hpaused, hplayers, ?_, ?_⟩
  · obtain ⟨monitored, hmonitors⟩ := h.monitors
    refine ⟨monitored, ?_, ?_⟩
    · rw [hkept.monitoredFds]
      exact hmonitors.keys
    · rw [hkept.monitoredFds]
      exact hmonitors.own
  · intro fd event hhandler
    apply h.handlers fd event
    rwa [Epoll.handler, ← hkept.monitoredFds]

private theorem keptByHandlers_fresh (hcard : fds.card ≤ 1) : KeptByHandlers (Fresh fds) :=
  ⟨fun _ _ hcalm h => hcalm.fresh h,
    fun _ ref client hclient h => fresh_onClientDisconnect hcard h (h.players ref client hclient)⟩

/-- A handler other than that of an arrival. -/
theorem PauseKnown.of_handler {state' : GameState} (h : g.PauseKnown state toCome)
    (hnoted : g'.PauseNoted state') (hinput : g'.gameInput.data = g.gameInput.data)
    (hfresh : ∀ fds : Finset Int, fds.card ≤ 1 → g.Fresh fds → g'.Fresh fds) :
    g'.PauseKnown state' toCome := by
  refine ⟨hnoted, ?_⟩
  rw [hinput]
  obtain hnone | ⟨fds, hseen, hcard⟩ := h.fresh
  · exact .inl hnone
  · by_cases hnone : toCome + g.gameInput.data.length = 0
    · exact .inl hnone
    · exact .inr ⟨fds, hfresh fds (by omega) hseen, hcard⟩

/-- What holds of a pause and of a fresh game holds however a handler ends. -/
theorem PauseKnown.ends (h : g.PauseKnown state toCome) {x : Exec Game Game}
    (hx : ∀ P, KeptByHandlers P → P g → Ends P x) (hkept : Ends (Kept g) x) :
    Ends (PauseKnown state toCome) x := by
  have hnoted := hx _ (keptByHandlers_pauseNoted state) h.noted
  have hfresh : ∀ fds : Finset Int, fds.card ≤ 1 → g.Fresh fds → Ends (Fresh fds) x :=
    fun fds hcard hseen => hx _ (keptByHandlers_fresh hcard) hseen
  cases x with
  | ok g' => exact h.of_handler hnoted (by rw [Kept.input hkept]) hfresh
  | error e => exact h.of_handler hnoted (by rw [Kept.input hkept]) hfresh

theorem PauseKnown.mono {toCome' : Nat} (h : g.PauseKnown state toCome) (hle : toCome' ≤ toCome) :
    g.PauseKnown state toCome' := by
  refine ⟨h.noted, ?_⟩
  obtain hnone | ⟨fds, hseen, hcard⟩ := h.fresh
  · exact .inl (by omega)
  · exact .inr ⟨fds, hseen, by omega⟩

theorem PauseKnown.of_calm (h : g.PauseKnown state toCome) (hcalm : Calm g g')
    (hinput : g'.gameInput.data = g.gameInput.data) : g'.PauseKnown state toCome :=
  h.of_handler (hcalm.pauseNoted h.noted) hinput fun _ _ hseen => hcalm.fresh hseen

/-- The idle thread works on the queues of a game. -/
theorem Fresh.withQueues (h : g.Fresh fds) (gameInput : EventfdQueue ProtocolClient)
    (gameOutput : EventfdQueue GameStateChange) :
    Fresh fds { g with gameInput := gameInput, gameOutput := gameOutput } := by
  refine ⟨h.unpaused, fun ref client hclient => ?_, h.monitors, h.handlers⟩
  refine h.players ref client ?_
  cases ref <;> exact hclient

/-- A client on his way has reached the input. -/
theorem PauseKnown.sent (h : g.PauseKnown state (toCome + 1)) (client : ProtocolClient) :
    PauseKnown state toCome { g with gameInput := g.gameInput.push client } := by
  refine ⟨h.noted, ?_⟩
  have hlength : (g.gameInput.push client).data.length = g.gameInput.data.length + 1 := by
    rw [EventfdQueue.data_push, List.length_append, List.length_singleton]
  change toCome + (g.gameInput.push client).data.length = 0 ∨ _
  obtain hnone | ⟨fds, hseen, hcard⟩ := h.fresh
  · omega
  · refine .inr ⟨fds, hseen.withQueues _ _, ?_⟩
    change fds.card + (toCome + (g.gameInput.push client).data.length) ≤ 2
    omega

/-- Only a game that is paused has reported a pause, and it still is. -/
theorem PauseKnown.reported (h : g.PauseKnown state toCome) (hreport : g.gameOutput.data ≠ [])
    (gameOutput : EventfdQueue GameStateChange) :
    PauseKnown .PAUSED toCome { g with gameOutput := gameOutput } :=
  h.of_handler (iff_of_true (h.noted.mpr (.inr hreport)) (.inl rfl)) rfl
    fun _ _ hseen => hseen.withQueues _ _

theorem PauseKnown.readOutput (h : g.PauseKnown state toCome) :
    PauseKnown state toCome { g with gameOutput := g.gameOutput.eventfdRead } :=
  h.of_handler h.noted rfl fun _ _ hseen => hseen.withQueues _ _

/-- A game that starts on empty queues waits for two clients. -/
theorem pauseKnown_start {gameInput : EventfdQueue ProtocolClient}
    {gameOutput : EventfdQueue GameStateChange} (hinput : gameInput.data = [])
    (houtput : gameOutput.data = []) (h : Game.start gameInput gameOutput = .ok g) :
    g.PauseKnown .RUNNING 2 := by
  obtain ⟨epoll, hepoll, heq⟩ := bind_eq_ok.mp h
  cases heq
  have hmonitors : (({ isEdgeTriggered := true } : Epoll GameHandler).addDescriptor
      gameInput.evfd).Monitors (insert gameInput.evfd ∅) :=
    (Epoll.monitors_empty true).addDescriptor gameInput.evfd
  refine ⟨iff_of_false Bool.false_ne_true ?_, .inr ⟨∅, ⟨rfl, fun ref client hclient => ?_,
    ⟨_, hmonitors.addEventHandler hepoll⟩, fun fd event hhandler => ?_⟩, ?_⟩⟩
  · rintro (hpaused | hreport)
    · cases hpaused
    · exact hreport houtput
  · cases ref <;> cases hclient
  · obtain ⟨_, hother⟩ | hhandler := hmonitors.handler_addEventHandler hepoll hhandler
    · cases hother
    · have hnone := (Epoll.handler_addDescriptor _ _ _ _).symm.trans hhandler
      cases hnone
  · change 0 + (2 + gameInput.data.length) ≤ 2
    rw [hinput]
    rfl

/-- A client who arrives has been seen. -/
theorem fresh_arrive (h : g.Fresh fds) (ref : PlayerRef) (client : ProtocolClient)
    (gameInput : EventfdQueue ProtocolClient) :
    (g.arrive ref client gameInput).Fresh (insert client.clientFd fds) := by
  have hepoll : (g.arrive ref client gameInput).epoll = g.epoll := epoll_modifyPlayer _ _ _
  refine ⟨(isPaused_modifyPlayer _ _ _).trans h.unpaused, fun ref' client' hclient' => ?_, ?_, ?_⟩
  · rw [arrive, player_modifyPlayer] at hclient'
    split at hclient'
    · cases hclient'
      exact Finset.mem_insert_self _ _
    · exact Finset.mem_insert_of_mem (h.players ref' client' hclient')
  · rw [hepoll]
    exact h.monitors
  · rw [hepoll]
    exact fun fd event hhandler => Finset.mem_insert_of_mem (h.handlers fd event hhandler)

private theorem fresh_registerClient (h : g.Fresh fds) {clientFd : Int} (hmem : clientFd ∈ fds) :
    Ends (fun g' => g'.Fresh fds ∧ ∃ epoll, g' = { g with epoll := epoll })
      (g.registerClient clientFd) := by
  refine (reads_withState g _).bind_ends ⟨h, g.epoll, rfl⟩ fun epoll hwatch => ?_
  rw [withState_eq_ok] at hwatch
  obtain ⟨monitored, hmonitors⟩ := h.monitors
  refine ⟨⟨h.unpaused, fun ref client hclient => ?_, ⟨_, hmonitors.watchClient hwatch⟩,
    fun fd event hhandler => ?_⟩, epoll, rfl⟩
  · refine h.players ref client ?_
    cases ref <;> exact hclient
  · obtain rfl | hold := hmonitors.handler_watchClient hwatch hhandler
    · exact hmem
    · exact h.handlers fd event hold

/-- An arrival keeps a pause known: the one that unpauses the game is the last
one, and the game has not been paused before. -/
theorem pauseKnown_takeNewClient (h : g.PauseKnown state toCome) (now1 now2 : UInt64) :
    Ends (PauseKnown state toCome) (g.takeNewClient now1 now2) := by
  unfold takeNewClient
  split
  · exact h
  · exact h
  · rename_i ref client gameInput hfree hpop
    obtain ⟨waiting, hdata, rfl⟩ := EventfdQueue.pop_eq_some.mp hpop
    obtain hnone | ⟨fds, hseen, hcard⟩ := h.fresh
    · rw [hdata, List.length_cons] at hnone
      omega
    rw [hdata, List.length_cons] at hcard
    have hinsert := Finset.card_insert_le client.clientFd fds
    have hunheard : ¬ (state = .PAUSED ∨ g.gameOutput.data ≠ []) := by
      intro hheard
      have hpaused := h.noted.mpr hheard
      rw [hseen.unpaused] at hpaused
      cases hpaused
    have harrived := fresh_arrive hseen ref client { g.gameInput with data := waiting }
    have hknown : ∀ g' : Game, g'.Fresh (insert client.clientFd fds) →
        g'.gameOutput = g.gameOutput → g'.gameInput.data = waiting →
        g'.PauseKnown state toCome := by
      intro g' hfresh houtput hinput
      refine ⟨?_, .inr ⟨_, hfresh, ?_⟩⟩
      · rw [PauseNoted, houtput, hfresh.unpaused]
        exact iff_of_false Bool.false_ne_true hunheard
      · rw [hinput]
        omega
    have houtput : (g.arrive ref client { g.gameInput with data := waiting }).gameOutput =
        g.gameOutput := gameOutput_modifyPlayer _ _ _
    have hinput : (g.arrive ref client { g.gameInput with data := waiting }).gameInput.data =
        waiting := congrArg EventfdQueue.data (gameInput_modifyPlayer _ _ _)
    refine (fresh_registerClient harrived (Finset.mem_insert_self _ _)).bind ?_ ?_
    · rintro g' ⟨hfresh, epoll, rfl⟩
      exact hknown _ hfresh houtput hinput
    · rintro g' _ ⟨hfresh, epoll, rfl⟩
      split
      · rename_i hboth
        obtain ⟨other, hother⟩ := online_other_of_arrive (bothPlayersOnline_eq_true.mp hboth)
        have hpositive : 0 < fds.card :=
          Finset.card_pos.mpr ⟨_, hseen.players ref.other other hother⟩
        have hnoted : PauseNoted state
            { g.arrive ref client { g.gameInput with data := waiting } with
              epoll := epoll, isPaused := false } := by
          refine iff_of_false Bool.false_ne_true ?_
          change ¬ (_ ∨ (g.arrive ref client _).gameOutput.data ≠ [])
          rwa [houtput]
        refine (((keptByHandlers_pauseNoted state).greetPlayers hnoted now1 now2).and
          (quiet_greetPlayers _ now1 now2)).mono ?_
        rintro g'' ⟨hgreeted, hquiet⟩
        refine ⟨hgreeted, .inl ?_⟩
        rw [hquiet.input]
        change toCome + (g.arrive ref client _).gameInput.data.length = 0
        rw [hinput]
        omega
      · exact hknown _ hfresh houtput hinput

end UpsServer.Game

namespace UpsServer.GameThread

open Game

variable {state : GameState} {toCome : Nat} {t t' : GameThread} {action : GameAction}

/-- The steps of a game thread keep its pauses known. -/
theorem pauseKnown_step (h : t.game.PauseKnown state toCome) (hown : action.isOwn = true)
    (hdestroy : action ≠ .destroy) (hstep : step t action = some t') :
    t'.game.PauseKnown state toCome := by
  have hstop : ∀ g : Game, g.PauseKnown state toCome →
      PauseKnown state toCome { g with isRunning := false } :=
    fun g hknown => hknown.of_calm (calm_stop g) rfl
  cases effect_of_step hstep with
  | deliver => cases hown
  | output _ hown' =>
    rw [hown] at hown'
    cases hown'
  | newClientEvent _ hgame =>
    rw [hgame]
    refine h.of_calm ⟨rfl, rfl, rfl, fun ref => ?_⟩ rfl
    cases ref <;> rfl
  | handlerDone _ _ hgame | stop _ hgame =>
    rw [hgame]
    exact h
  | takeNewClient _ _ hresume =>
    exact of_ends (pauseKnown_takeNewClient h _ _) hstop (resume_eq_some hresume)
  | message _ hresume =>
    exact of_ends (h.ends (fun P hP hg => hP.processClientMessage hg _ _ _)
      (kept_processClientMessage _ _ _ _)) hstop (resume_eq_some hresume)
  | receive hreceive =>
    refine h.of_handler ((keptByHandlers_pauseNoted state).receiveMessages h.noted hreceive) ?_
      fun fds hcard hseen => (keptByHandlers_fresh hcard).receiveMessages hseen hreceive
    rw [(quiet_receiveMessages hreceive).input]
  | receiveThrows _ _ _ hgame =>
    rw [hgame]
    exact hstop _ h
  | @disconnect clientFd event _ hgame =>
    obtain ⟨⟨_, hhandler⟩, _⟩ := Option.ite_none_right_eq_some.mp hstep
    rw [hgame]
    refine h.of_handler (pauseNoted_onClientDisconnect h.noted clientFd) ?_
      fun fds hcard hseen => fresh_onClientDisconnect hcard hseen (hseen.handlers clientFd event hhandler)
    rw [(quiet_onClientDisconnect _ _).input]
  | @removeDescriptor clientFd _ hgame =>
    rw [hgame]
    refine h.of_handler h.noted rfl fun fds _ hseen => ⟨hseen.unpaused, ?_, ?_, ?_⟩
    · intro ref client hclient
      refine hseen.players ref client ?_
      cases ref <;> exact hclient
    · obtain ⟨monitored, hmonitors⟩ := hseen.monitors
      exact ⟨_, hmonitors.removeDescriptor clientFd⟩
    · intro fd event hhandler
      exact hseen.handlers fd event (Epoll.handler_removeDescriptor hhandler)
  | destroy => exact (hdestroy rfl).elim

end UpsServer.GameThread
