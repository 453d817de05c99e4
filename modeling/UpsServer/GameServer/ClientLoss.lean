import UpsServer.GameRoom.Exceptions
import UpsServer.GameServer.Threads

namespace UpsServer.Server

/-- Only the games that run have clients in their input. -/
def NoStaleInput (s : Server) : Prop :=
  ∀ roomId room, s.idle.gameRooms.get? roomId = some room → ¬ s.GameRuns roomId →
    room.gameInput.data = []

/-- The step sends nobody to a game whose event loop has ended, and ends no event
loop before the clients who were sent to it. -/
def KeepsClients (s : Server) : ServerAction → Prop
  | .sendClient =>
    ∀ roomId clients clientFd messages, s.pc = .sending roomId clients clientFd messages →
      s.GameRuns roomId
  | .game roomId action => ∀ t, s.thread roomId = some t → ¬ t.LeavesBehind action
  | _ => True

instance (s : Server) (roomId : Int) : Decidable (s.GameRuns roomId) :=
  decidable_of_iff ((s.games.get? roomId).any (fun t => decide (t.pc ≠ .stopping)) = true) <| by
    simp only [Option.any_eq_true, decide_eq_true_eq]
    rfl

instance (s : Server) : DecidablePred s.KeepsClients
  | .sendClient =>
    match hpc : s.pc with
    | .sending roomId _ _ _ => decidable_of_iff (s.GameRuns roomId) <| by
        simp only [KeepsClients, hpc, IdlePc.sending.injEq]
        constructor
        · rintro h _ _ _ _ ⟨rfl, _⟩
          exact h
        · exact fun h => h _ _ _ _ ⟨rfl, rfl, rfl, rfl⟩
    | .waiting | .collecting | .reading _ _ | .changing _ => isTrue (by simp [KeepsClients, hpc])
  | .game roomId action =>
    decidable_of_iff (∀ t ∈ s.thread roomId, ¬ t.LeavesBehind action) Iff.rfl
  | .accept _ | .newClientEvent | .addNewClient | .newClientsDone | .receive _ _ | .message | .readDone
  | .disconnect _ _ | .stateChangeEvent _ | .applyStateChange | .stateChangesDone =>
    inferInstanceAs (Decidable True)

variable {s s' : Server}

private theorem mem_fdsAt_gameInput {roomId : Int} {room : GameRoom} {client : ProtocolClient}
    (hroom : s.idle.gameRooms.get? roomId = some room) (hclient : client ∈ room.gameInput.data) :
    client.clientFd ∈ s.fdsAt (.gameInput roomId) := by
  simp only [fdsAt, clientsAt, hroom, Option.elim]
  exact Multiset.mem_map_of_mem _ (Multiset.mem_coe.mpr hclient)

/-- As all sockets are accounted for, a client can only be lost in the input of a
game that does not run. -/
theorem noClientLost_iff_noStaleInput (h : s.Invariant) : s.NoClientLost ↔ s.NoStaleInput := by
  constructor
  · intro hkept roomId room hroom hends
    refine List.eq_nil_iff_forall_not_mem.mpr fun client hclient => hends ?_
    have hfd := mem_fdsAt_gameInput hroom hclient
    have hplace : Place.gameInput roomId ∈ s.places := by
      by_contra hnot
      rw [fdsAt_of_notMem hnot] at hfd
      exact Multiset.notMem_zero _ hfd
    have hsocket : client.clientFd ∈ s.sockets := by
      rw [← Finset.mem_val, ← h.sockets]
      exact Multiset.mem_bind.mpr ⟨_, hplace, hfd⟩
    obtain ⟨place, honce, hread⟩ := hkept _ hsocket
    obtain rfl := honce.eq hfd
    exact hread
  · intro hstale clientFd hsocket
    have hnodup : s.heldFds.Nodup := h.sockets ▸ s.sockets.nodup
    rw [← Finset.mem_val, ← h.sockets] at hsocket
    obtain ⟨place, honce⟩ := Custody.exists_heldOnceAt hnodup (fun _ => fdsAt_of_notMem) hsocket
    refine ⟨place, honce, ?_⟩
    cases place with
    | gameInput roomId =>
      by_contra hends
      have hfd := honce.mem
      cases hroom : s.idle.gameRooms.get? roomId with
      | none => simp [fdsAt, clientsAt, hroom] at hfd
      | some room => simp [fdsAt, clientsAt, hroom, hstale roomId room hroom hends] at hfd
    | _ => trivial

/-- A step that touches one room only. -/
theorem noStaleInput_iff_of_off {roomId : Int} (h : s.NoStaleInput)
    (hrooms : ∀ id, id ≠ roomId → s'.idle.gameRooms.get? id = s.idle.gameRooms.get? id)
    (hgames : ∀ id, id ≠ roomId → s'.games.get? id = s.games.get? id) :
    s'.NoStaleInput ↔ ∀ room, s'.idle.gameRooms.get? roomId = some room → ¬ s'.GameRuns roomId →
      room.gameInput.data = [] := by
  refine ⟨fun hstale room => hstale roomId room, fun hroom id room hget hends => ?_⟩
  by_cases hid : id = roomId
  · subst hid
    exact hroom room hget hends
  · rw [hrooms id hid] at hget
    rw [GameRuns, hgames id hid] at hends
    exact h id room hget hends

/-- A change of a room that leaves its input alone. -/
theorem noStaleInput_modify {roomId : Int} {f : GameRoom → GameRoom} (h : s.NoStaleInput)
    (hrooms : s'.idle.gameRooms = s.idle.gameRooms.modify roomId f) (hgames : s'.games = s.games)
    (hf : ∀ room, (f room).gameInput = room.gameInput) : s'.NoStaleInput := by
  rw [noStaleInput_iff_of_off h (fun id hid =>
    by rw [hrooms, UnorderedMap.get?_modify_of_ne _ _ hid]) fun _ _ => by rw [hgames]]
  intro room hroom hends
  rw [hrooms, UnorderedMap.get?_modify_self] at hroom
  obtain ⟨room', hroom', rfl⟩ := Option.map_eq_some_iff.mp hroom
  rw [GameRuns, hgames] at hends
  rw [hf]
  exact h roomId room' hroom' hends

private theorem gameRuns_of_pc {roomId : Int} {t : GameThread}
    (hgames : s'.games = if t.pc = .finished then s.games.erase roomId else s.games.set roomId t) :
    s'.GameRuns roomId ↔ t.pc ≠ .finished ∧ t.pc ≠ .stopping := by
  rw [GameRuns, hgames]
  by_cases hfinished : t.pc = .finished <;> simp [hfinished]

/-- A game that is destroyed has already ended, and one that ends keeps clients
in its input exactly when it leaves them behind. -/
theorem input_after_game {action : GameAction} {room : GameRoom} {stored t' : GameThread}
    (hnodup : (stored.withQueues room).game.heldFds.Nodup) (hown : action.isOwn = true)
    (hinput : stored.pc = .stopping → room.gameInput.data = [])
    (hgo : (stored.withQueues room).step action = some t') :
    (¬ (t'.pc ≠ .finished ∧ t'.pc ≠ .stopping) → t'.game.gameInput.data = []) ↔
      ¬ (stored.withQueues room).LeavesBehind action := by
  rw [← GameThread.leavesBehind_iff hnodup hown hgo]
  constructor
  · rintro hstale ⟨hstop, hleft⟩
    exact hleft (hstale fun hruns => hruns.2 hstop)
  · intro hkeeps hends
    by_cases hstop : t'.pc = .stopping
    · by_contra hleft
      exact hkeeps ⟨hstop, hleft⟩
    · rcases (GameThread.handover_step hown hgo).output with ⟨hrest, _⟩ | ⟨hended, hdestroyed⟩
      · exact (hends ⟨hrest, hstop⟩).elim
      · rw [hdestroyed]
        exact hinput hended

private theorem keepsClients_of_idle {action : ServerAction} (h : action.reachesGame = false) :
    s.KeepsClients action := by
  cases action with
  | sendClient | game => cases h
  | _ => trivial

/-- A step strands clients exactly when it does not keep them. -/
theorem noStaleInput_step (hreach : system.Reachable s) {action : ServerAction} (h : s.NoStaleInput)
    (hstep : s.step action = some s') : s'.NoStaleInput ↔ s.KeepsClients action := by
  have hinvariant := invariant_of_reachable hreach
  cases roomEffect_of_step hinvariant.stored hstep with
  | same hidle hrooms hgames =>
    refine iff_of_true (fun roomId room hroom hends => ?_) (keepsClients_of_idle hidle)
    rw [hrooms] at hroom
    rw [GameRuns, hgames] at hends
    exact h roomId room hroom hends
  | @startGame id room g f _ _ _ hrooms hgames =>
    refine iff_of_true ?_ trivial
    rw [noStaleInput_iff_of_off h
      (fun id' hid => by rw [hrooms, UnorderedMap.get?_modify_of_ne _ _ hid])
      fun id' hid => by rw [hgames, UnorderedMap.get?_set_of_ne _ _ hid]]
    intro room' _ hends
    refine (hends ⟨{ game := g }, ?_, ThreadPc.noConfusion⟩).elim
    rw [hgames, UnorderedMap.get?_set_self]
  | @sendClient id clientFd clients messages client room hpc _ hroom hrooms hgames =>
    have hruns : s'.GameRuns id ↔ s.GameRuns id := by rw [GameRuns, GameRuns, hgames]
    rw [noStaleInput_iff_of_off h
      (fun id' hid => by rw [hrooms, UnorderedMap.get?_modify_of_ne _ _ hid])
      (fun _ _ => by rw [hgames]), hrooms, UnorderedMap.get?_modify_of_get? hroom, hruns]
    constructor
    · intro hstale id' clients' clientFd' messages' hpc'
      rw [hpc] at hpc'
      cases hpc'
      by_contra hends
      exact List.append_ne_nil_of_right_ne_nil _ (List.cons_ne_nil _ _) (hstale _ rfl hends)
    · intro hkeep room' _ hends
      exact (hends (hkeep _ _ _ _ hpc)).elim
  | readOutput hrooms hgames =>
    exact iff_of_true (noStaleInput_modify h hrooms hgames fun _ => rfl) trivial
  | popOutput _ _ hf hrooms hgames =>
    exact iff_of_true (noStaleInput_modify h hrooms hgames fun _ => (hf _).1) trivial
  | @game id action room stored t' hown hroom hstored hgo hrooms hgames =>
    have hthread : s.thread id = some (stored.withQueues room) :=
      thread_eq_some.mpr ⟨room, stored, hroom, hstored, rfl⟩
    have hnodup := GameThread.nodup_heldFds (reachable_thread hreach hthread)
    have hinput : stored.pc = .stopping → room.gameInput.data = [] := by
      intro hended
      refine h id room hroom ?_
      rintro ⟨t, ht, hruns⟩
      rw [hstored] at ht
      cases ht
      exact hruns hended
    have hkeeps : s.KeepsClients (.game id action) ↔
        ¬ (stored.withQueues room).LeavesBehind action := by
      rw [KeepsClients, hthread]
      exact ⟨fun hkeep => hkeep _ rfl, fun hleaves t ht => Option.some.inj ht ▸ hleaves⟩
    rw [noStaleInput_iff_of_off h
      (fun id' hid => by rw [hrooms, UnorderedMap.get?_modify_of_ne _ _ hid])
      (fun _ hid => games_of_ne hgames hid), hrooms, UnorderedMap.get?_modify_of_get? hroom,
      gameRuns_of_pc hgames, hkeeps, ← input_after_game hnodup hown hinput hgo]
    exact ⟨fun hroom' => hroom' _ rfl, fun hends room' heq => Option.some.inj heq ▸ hends⟩

/-- In every run no client is ever lost exactly when all steps keep them. -/
theorem noClientLost_iff {steps : List (Server × ServerAction × Server)} (h : system.Run steps s) :
    (s.NoClientLost ∧ ∀ t ∈ steps, t.1.NoClientLost) ↔ ∀ t ∈ steps, t.1.KeepsClients t.2.1 := by
  refine h.good_iff ?_ fun s action s' hreach hkept hstep => ?_
  · rintro s ⟨_, _, _, _, _, _, _, _, _, hsockets⟩ clientFd hclient
    rw [hsockets] at hclient
    exact (Finset.notMem_empty _ hclient).elim
  · rw [noClientLost_iff_noStaleInput (invariant_of_reachable hreach)] at hkept
    rw [noClientLost_iff_noStaleInput (invariant_of_reachable (.step hreach hstep))]
    exact noStaleInput_step hreach hkept hstep

/-- The game ends, and both its players wait for the idle room. -/
theorem noClientLost_iff_ended : ∃ steps s, system.Run steps s ∧ s.games.get? 1 = none ∧
    s.sockets = {10, 11} ∧ s.NoClientLost ∧ ∀ t ∈ steps, t.1.NoClientLost := by
  have hcheck : ((oneRoom.bind (TransitionSystem.traceActions step endGameOfTwo)).any fun trace =>
      decide ((∀ t ∈ trace.1, t.1.KeepsClients t.2.1) ∧ trace.2.games.get? 1 = none ∧
        trace.2.sockets = {10, 11})) = true := by
    decide +kernel
  obtain ⟨steps, s, hrun, hstate⟩ :=
    TransitionSystem.exists_run_of_any (fun _ _ _ => id) (fun _ => init_of_oneRoom) hcheck
  obtain ⟨hkeeps, hended, hsockets⟩ := of_decide_eq_true hstate
  exact ⟨steps, s, hrun, hended, hsockets, (noClientLost_iff hrun).mpr hkeeps⟩

/-- The first player leaves before the second one has been sent to the game. -/
def leaveEarly : List ServerAction :=
  startGameOfTwo ++
    [.sendClient, .game 1 .newClientEvent, .game 1 (.takeNewClient 1000 1000), .game 1 .collected,
      .game 1 (.receive 11 (some (messageText ["GAME_LEAVE"]))), .game 1 (.message 1000),
      .game 1 .readDone, .game 1 .stop, .game 1 .destroy, .sendClient]

/-- The second player is sent to a game that is gone. -/
theorem not_noClientLost_leaveEarly : ¬ ∀ s, system.Reachable s → s.NoClientLost := by
  have hcheck : ((oneRoom.bind (TransitionSystem.runActions step leaveEarly)).any fun s =>
      (s.games.get? 1).isNone && (s.idle.gameRooms.get? 1).any fun room =>
        !room.gameInput.data.isEmpty) = true := by
    decide +kernel
  obtain ⟨s, hreachable, hstate⟩ := exists_of_oneRoom hcheck
  simp only [Bool.and_eq_true, Option.isNone_iff_eq_none, Option.any_eq_true, Bool.not_eq_true',
    List.isEmpty_eq_false_iff] at hstate
  obtain ⟨hgone, room, hroom, hinput⟩ := hstate
  intro hall
  refine hinput
    ((noClientLost_iff_noStaleInput (invariant_of_reachable hreachable)).mp (hall s hreachable) 1
      room hroom ?_)
  rintro ⟨t, ht, _⟩
  rw [hgone] at ht
  cases ht

end UpsServer.Server
