import UpsServer.GameRoom.Fates
import UpsServer.Linux.EventTable

open Outcome

namespace UpsServer.Game

/-- Nobody has come to the game yet, and it watches nothing but its input. -/
structure Untouched (g : Game) : Prop where
  running : g.isRunning = true
  nobody : ∀ ref, (g.player ref).client = none
  keys : g.epoll.monitoredFds.keys ⊆ {g.gameInput.evfd}
  serves : ∃ R : Int → EventMask → GameHandler → Prop, g.epoll.Serves R ∧
    ∀ fd evt handler, R fd evt handler → handler = .onNewClientConnect

variable {g g' : Game} {fd : Int}

theorem untouched_start {gameInput : EventfdQueue ProtocolClient}
    {gameOutput : EventfdQueue GameStateChange} (h : Game.start gameInput gameOutput = .ok g) :
    g.Untouched := by
  obtain ⟨epoll, hepoll, heq⟩ := bind_eq_ok.mp h
  cases heq
  obtain ⟨epoll', hepoll', hkeys, _, hserves⟩ :=
    (Epoll.serves_empty (H := GameHandler) true).addEventHandler gameInput.evfd EPOLLIN
      .onNewClientConnect
  cases hepoll.symm.trans hepoll'
  refine ⟨rfl, fun ref => by cases ref <;> rfl, ?_, _, hserves, fun fd evt handler hR => ?_⟩
  · rw [hkeys]
    exact subset_rfl
  · split at hR
    · exact hR
    · exact hR.elim

/-- Working on the queues of a game is not touching it. -/
theorem Untouched.withQueues (h : g.Untouched) (gameInput : EventfdQueue ProtocolClient)
    (gameOutput : EventfdQueue GameStateChange) (hevfd : gameInput.evfd = g.gameInput.evfd) :
    Untouched { g with gameInput := gameInput, gameOutput := gameOutput } := by
  refine ⟨h.running, fun ref => ?_, hevfd ▸ h.keys, h.serves⟩
  have hnobody := h.nobody ref
  cases ref <;> exact hnobody

theorem Untouched.removeDescriptor (h : g.Untouched) (fd : Int) :
    Untouched { g with epoll := g.epoll.removeDescriptor fd } := by
  obtain ⟨R, hserves, hconnect⟩ := h.serves
  refine ⟨h.running, fun ref => ?_, ?_, _, hserves.removeDescriptor fd,
    fun fd' evt handler hR => hconnect fd' evt handler hR.2⟩
  · have hnobody := h.nobody ref
    cases ref <;> exact hnobody
  · rw [Epoll.keys_removeDescriptor]
    exact (Finset.erase_subset _ _).trans h.keys

/-- The only events of an untouched game are those of its input. -/
theorem Untouched.handler_eq (h : g.Untouched) {evt : EventMask} {handler : GameHandler}
    (hhandler : g.epoll.handler fd evt = some handler) : handler = .onNewClientConnect := by
  obtain ⟨R, hserves, hconnect⟩ := h.serves
  exact hconnect fd evt handler ((hserves.handlers fd evt handler).mp hhandler)

theorem Untouched.canRegister (h : g.Untouched) (hne : fd ≠ g.gameInput.evfd) :
    g.CanRegister fd := by
  obtain ⟨R, hserves, _⟩ := h.serves
  have hnew : fd ∉ g.epoll.monitoredFds.keys :=
    fun hmem => hne (Finset.mem_singleton.mp (h.keys hmem))
  obtain ⟨epoll, hwatch, _⟩ := hserves.watchClient hnew .onClientWrite .onClientDisconnect
  exact ⟨epoll, hwatch⟩

theorem Untouched.freePlayer (h : g.Untouched) : g.freePlayer = some .player1 := by
  have hnone : g.player1.client = none := h.nobody .player1
  simp [Game.freePlayer, playerOneOnline, hnone]

/-- The first client of a game is taken without an exception, and the other place
stays free. -/
theorem Untouched.takeNewClient (h : g.Untouched) (hnodup : g.heldFds.Nodup)
    {client : ProtocolClient} {waiting : List ProtocolClient}
    (hdata : g.gameInput.data = client :: waiting) (hne : client.clientFd ≠ g.gameInput.evfd)
    (now1 now2 : UInt64) :
    ∃ g', g.takeNewClient now1 now2 = .ok g' ∧ g'.freePlayer ≠ none ∧
      g'.gameInput.data = waiting := by
  have halone : ¬ (g.OneOnline ∧ g.Stale .player2 now1) := by
    rintro ⟨⟨ref, client', hclient', _⟩, _⟩
    cases (h.nobody ref).symm.trans hclient'
  have hfree : g.freePlayer ≠ none := by
    rw [h.freePlayer]
    exact Option.some_ne_none _
  obtain ⟨g', hg'⟩ := (takeNewClient_ok_iff hnodup hdata now1 now2).mpr
    ⟨hfree, h.canRegister hne, halone⟩
  have hinput := (gameInput_takeNewClient now1 now2 h.freePlayer hdata).of_ok hg'
  refine ⟨g', hg', ?_, hinput⟩
  obtain ⟨ref, arrived, hfree', _, _, hroster, hrest⟩ := takeNewClient_eq_ok hdata hg'
  obtain rfl := Option.some.inj (h.freePlayer.symm.trans hfree')
  -- the second player is still missing
  have hsecond : arrived.player2.client = none := by
    have hnone := h.nobody .player2
    rw [← Option.not_isSome_iff_eq_none, Option.isSome_iff_exists] at hnone ⊢
    exact fun hsome => hnone ((hroster.client_iff .player2).mp hsome)
  have hboth : arrived.bothPlayersOnline = false := by
    simp [bothPlayersOnline, playerTwoOnline, hsecond]
  rw [if_neg (by simp [hboth])] at hrest
  subst hrest
  unfold Game.freePlayer
  simp only [playerTwoOnline, hsecond]
  split <;> simp

private theorem card_playerFds_le (g : Game) : g.playerFds.card ≤ 2 := by
  rw [playerFds, Multiset.card_add]
  cases g.player1.client <;> cases g.player2.client <;> simp

private theorem card_playerFds_le_of_free (h : g.freePlayer ≠ none) : g.playerFds.card ≤ 1 := by
  obtain ⟨ref, href⟩ := Option.ne_none_iff_exists'.mp h
  rw [playerFds_eq g ref, freePlayer_eq_some href, Multiset.card_add]
  cases (g.player ref.other).client <;> simp

end UpsServer.Game

namespace UpsServer.GameThread

open Game

/-- How many clients can be in the input of a game with `toCome` more on their way.
Unless it goes on with its first clients, two are enough to fill it. -/
inductive CrowdOk (toCome : Nat) (t : GameThread) : Prop where
  | untouched (hpc : t.pc = .waiting ∨ t.pc = .collecting) (huntouched : t.game.Untouched)
      (hinput : t.game.gameInput.data.length + toCome ≤ 4) : CrowdOk toCome t
  | first (hpc : t.pc = .collecting) (hfree : t.game.freePlayer ≠ none)
      (hinput : t.game.gameInput.data.length + toCome ≤ 3) : CrowdOk toCome t
  | rest (hinput : t.game.gameInput.data.length + toCome ≤ 2) : CrowdOk toCome t

variable {toCome : Nat} {t t' : GameThread} {action : GameAction}

theorem CrowdOk.mono {toCome' : Nat} (h : t.CrowdOk toCome) (hle : toCome' ≤ toCome) :
    t.CrowdOk toCome' := by
  cases h with
  | untouched hpc huntouched hinput => exact .untouched hpc huntouched (by omega)
  | first hpc hfree hinput => exact .first hpc hfree (by omega)
  | rest hinput => exact .rest (by omega)

/-- The players and the clients in the input of a game. -/
theorem CrowdOk.card_heldFds_le (h : t.CrowdOk toCome) : t.game.heldFds.card ≤ 4 := by
  have hplayers := card_playerFds_le t.game
  rw [heldFds, Multiset.card_add, Multiset.coe_card, List.length_map]
  cases h with
  | untouched _ huntouched hinput =>
    have hnobody : t.game.playerFds.card = 0 := by
      rw [playerFds_eq t.game .player1, huntouched.nobody, huntouched.nobody]
      rfl
    omega
  | first _ hfree hinput =>
    have hfree := card_playerFds_le_of_free hfree
    omega
  | rest hinput => omega

theorem CrowdOk.of_finished (h : t.CrowdOk toCome) (hpc : t.pc = .stopping ∨ t.pc = .finished) :
    t.game.gameInput.data.length + toCome ≤ 2 := by
  cases h with
  | untouched hpc' => rcases hpc with hpc | hpc <;> simp [hpc] at hpc'
  | first hpc' => rcases hpc with hpc | hpc <;> cases hpc'.symm.trans hpc
  | rest hinput => exact hinput

/-- The input of a game never grows by itself. -/
theorem length_input_step (hown : action.isOwn = true) (hstep : step t action = some t') :
    t'.game.gameInput.data.length ≤ t.game.gameInput.data.length := by
  by_cases hdestroy : action = .destroy
  · subst hdestroy
    obtain ⟨_, heq⟩ := Option.ite_none_right_eq_some.mp hstep
    cases heq
    exact le_rfl
  · exact (settled_step hown hdestroy hstep).input.length_le

theorem CrowdOk.takeNewClient (h : t.CrowdOk toCome) (hnodup : t.game.heldFds.Nodup)
    (hapart : t.game.gameInput.evfd ∉ t.game.heldFds) {now1 now2 : UInt64}
    (hpc : t.pc = .collecting) (hinput : t.game.gameInput.isEmpty = false)
    (hresume : resume .collecting (t.game.takeNewClient now1 now2) = some t') :
    t'.CrowdOk toCome := by
  obtain ⟨client, waiting, hdata⟩ := EventfdQueue.exists_of_isEmpty_eq_false hinput
  have hlength : t.game.gameInput.data.length = waiting.length + 1 := by
    rw [hdata, List.length_cons]
  cases h with
  | untouched _ huntouched hle =>
    have hne : client.clientFd ≠ t.game.gameInput.evfd := by
      rintro heq
      refine hapart (heq ▸ Multiset.mem_add.mpr (.inr ?_))
      rw [hdata]
      exact List.mem_cons_self
    obtain ⟨g', hg', hfree, hwaiting⟩ :=
      huntouched.takeNewClient hnodup hdata hne now1 now2
    rw [hg'] at hresume
    cases hresume
    exact .first rfl hfree (by rw [hwaiting]; omega)
  | first _ hfree hle =>
    obtain ⟨ref, href⟩ := Option.ne_none_iff_exists'.mp hfree
    have hwaiting := gameInput_resume (gameInput_takeNewClient now1 now2 href hdata) hresume
    exact .rest (by rw [hwaiting]; omega)
  | rest hle =>
    have hstep : step t (.takeNewClient now1 now2) = some t' :=
      (if_pos ⟨hpc, hinput⟩).trans hresume
    have hless := length_input_step rfl hstep
    exact .rest (by omega)

/-- A game thread goes on, and fills the game before it looks away from the input. -/
theorem crowdOk_step (h : t.CrowdOk toCome) (htoCome : toCome ≤ 2)
    (hnodup : t.game.heldFds.Nodup) (hapart : t.game.gameInput.evfd ∉ t.game.heldFds)
    (hown : action.isOwn = true) (hstep : step t action = some t') : t'.CrowdOk toCome := by
  have hless := length_input_step hown hstep
  have hrest : t.game.gameInput.data.length + toCome ≤ 2 → t'.CrowdOk toCome :=
    fun hle => .rest (by omega)
  have hwaits : t.pc = .waiting → (t.game.Untouched → t'.CrowdOk toCome) → t'.CrowdOk toCome := by
    intro hpc huntouched
    cases h with
    | untouched _ h => exact huntouched h
    | first hpc' => cases hpc'.symm.trans hpc
    | rest hle => exact hrest hle
  have hends : t.pc ≠ .waiting → t.pc ≠ .collecting → t'.CrowdOk toCome := by
    intro hwaiting hcollecting
    cases h with
    | untouched hpc => exact (hpc.elim hwaiting hcollecting).elim
    | first hpc => exact (hcollecting hpc).elim
    | rest hle => exact hrest hle
  cases action with
  | deliver | takeOutput | readOutput => cases hown
  | newClientEvent =>
    obtain ⟨⟨hpc, _⟩, heq⟩ := Option.ite_none_right_eq_some.mp hstep
    cases heq
    cases h with
    | untouched _ huntouched hle =>
      exact .untouched (.inr rfl) (huntouched.withQueues t.game.gameInput.eventfdRead _ rfl) hle
    | first hpc' => cases hpc'.symm.trans hpc
    | rest hle => exact hrest hle
  | takeNewClient now1 now2 =>
    obtain ⟨⟨hpc, hinput⟩, hresume⟩ := Option.ite_none_right_eq_some.mp hstep
    exact h.takeNewClient hnodup hapart hpc hinput hresume
  | collected =>
    obtain ⟨⟨hpc, hempty⟩, heq⟩ := Option.ite_none_right_eq_some.mp hstep
    cases heq
    have hnobody : t.game.gameInput.data = [] := List.isEmpty_iff.mp hempty
    refine .rest ?_
    simp only [hnobody, List.length_nil]
    omega
  | receive clientFd =>
    obtain ⟨⟨hpc, hhandler⟩, _⟩ := Option.ite_none_right_eq_some.mp hstep
    exact hwaits hpc fun huntouched => nomatch huntouched.handler_eq hhandler
  | disconnect clientFd event =>
    obtain ⟨⟨hpc, hhandler⟩, _⟩ := Option.ite_none_right_eq_some.mp hstep
    exact hwaits hpc fun huntouched => nomatch huntouched.handler_eq hhandler
  | stop =>
    obtain ⟨⟨hpc, hstopped⟩, _⟩ := Option.ite_none_right_eq_some.mp hstep
    refine hwaits hpc fun huntouched => ?_
    cases huntouched.running.symm.trans hstopped
  | removeDescriptor clientFd =>
    obtain ⟨⟨hpc, _⟩, heq⟩ := Option.ite_none_right_eq_some.mp hstep
    cases heq
    cases h with
    | untouched _ huntouched hle =>
      exact .untouched (.inl hpc) (huntouched.removeDescriptor clientFd) hle
    | first hpc' => cases hpc'.symm.trans hpc
    | rest hle => exact hrest hle
  | message now =>
    cases effect_of_step hstep with
    | output _ hown' => cases hown'
    | handlerDone hdone => cases hdone
    | message hpc => exact hends (by simp [hpc]) (by simp [hpc])
  | readDone =>
    have hpc : ∃ clientFd, t.pc = .reading clientFd [] := by
      simp only [step] at hstep
      split at hstep
      · exact ⟨_, ‹_›⟩
      · cases hstep
    obtain ⟨clientFd, hpc⟩ := hpc
    exact hends (by simp [hpc]) (by simp [hpc])
  | destroy =>
    obtain ⟨hpc, _⟩ := Option.ite_none_right_eq_some.mp hstep
    exact hends (by simp [hpc]) (by simp [hpc])

end UpsServer.GameThread
