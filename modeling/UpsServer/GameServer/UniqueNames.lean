import UpsServer.GameServer.ClientLoss
import UpsServer.GameServer.Names

namespace UpsServer.Server

open IdleUsersRoom

/-- The client is in the idle room, in a queue or a player of a game. -/
def Connected (s : Server) (client : ProtocolClient) : Prop := ∃ place, client ∈ s.clientsAt place

/-- No two connected clients have the same name. -/
def UniqueNames (s : Server) : Prop :=
  ∀ client client', s.Connected client → s.Connected client' →
    client.clientFd ≠ client'.clientFd → client.hasName = true →
      client.clientName ≠ client'.clientName

variable {s s' : Server} {action : ServerAction}

/-- Games belong to rooms. -/
theorem keys_games_subset (h : system.Reachable s) : s.games.keys ⊆ s.idle.gameRooms.keys := by
  refine h.invariant (P := fun s => s.games.keys ⊆ s.idle.gameRooms.keys) ?_ ?_
  · rintro s ⟨_, _, _, _, _, _, _, _, hgames, _⟩
    rw [hgames, UnorderedMap.keys_empty]
    exact Finset.empty_subset _
  · intro s action s' hreach hle hstep
    cases roomEffect_of_step (invariant_of_reachable hreach).stored hstep with
    | same _ hrooms hgames => rwa [hrooms, hgames]
    | startGame hroom _ _ hrooms hgames =>
      rw [hrooms, hgames, UnorderedMap.keys_modify, UnorderedMap.keys_set]
      exact Finset.insert_subset (UnorderedMap.mem_keys_of_get? hroom) hle
    | sendClient _ _ _ hrooms hgames | readOutput hrooms hgames
    | popOutput _ _ _ hrooms hgames => rwa [hrooms, hgames, UnorderedMap.keys_modify]
    | game _ hroom _ _ hrooms hgames =>
      rw [hrooms, hgames, UnorderedMap.keys_modify]
      split
      · rw [UnorderedMap.keys_erase]
        exact (Finset.erase_subset _ _).trans hle
      · rw [UnorderedMap.keys_set]
        exact Finset.insert_subset (UnorderedMap.mem_keys_of_get? hroom) hle

/-- Every connected client is somewhere in the idle room or at a room. -/
theorem identity_of_connected (hgames : s.games.keys ⊆ s.idle.gameRooms.keys)
    {client : ProtocolClient} (h : s.Connected client) : client.identity ∈ s.identities := by
  obtain ⟨place, hclient⟩ := h
  cases place with
  | newClientsQueue => exact (Multiset.notMem_zero _ hclient).elim
  | clientsMap =>
    obtain ⟨clientFd, stored, hstored, hmem⟩ := UnorderedMap.mem_tokens.mp hclient
    rw [Multiset.mem_singleton.mp hmem]
    exact .inl ⟨clientFd, stored, hstored, rfl⟩
  | player roomId ref =>
    cases hgame : s.games.get? roomId with
    | none =>
      rw [clientsAt, hgame] at hclient
      exact (Multiset.notMem_zero _ hclient).elim
    | some t =>
      obtain ⟨room, hroom⟩ := UnorderedMap.mem_keys.mp (hgames (UnorderedMap.mem_keys_of_get? hgame))
      refine .inr ⟨roomId, room, hroom, .inl ?_⟩
      rw [clientsAt, hgame] at hclient
      rw [hgame]
      exact ⟨ref, client, Custody.mem_elim_singleton.mp hclient, rfl⟩
  | gameInput roomId =>
    cases hroom : s.idle.gameRooms.get? roomId with
    | none =>
      rw [clientsAt, hroom] at hclient
      exact (Multiset.notMem_zero _ hclient).elim
    | some room =>
      rw [clientsAt, hroom] at hclient
      exact .inr ⟨roomId, room, hroom, .inr (.inl ⟨client, Multiset.mem_coe.mp hclient, rfl⟩)⟩
  | gameOutput roomId =>
    cases hroom : s.idle.gameRooms.get? roomId with
    | none =>
      rw [clientsAt, hroom] at hclient
      exact (Multiset.notMem_zero _ hclient).elim
    | some room =>
      rw [clientsAt, hroom] at hclient
      obtain ⟨change, hchange, hmem⟩ := Multiset.mem_bind.mp hclient
      have hreturns := (Multiset.mem_add.mp hmem).imp Custody.mem_elim_singleton.mp
        Custody.mem_elim_singleton.mp
      exact .inr ⟨roomId, room, hroom,
        .inr (.inr ⟨change, Multiset.mem_coe.mp hchange, client, hreturns, rfl⟩)⟩

theorem NamesOk.uniqueNames (h : s.NamesOk) (hgames : s.games.keys ⊆ s.idle.gameRooms.keys) :
    s.UniqueNames := by
  intro client client' hclient hclient' hne hname hsame
  have hwho := identity_of_connected hgames hclient
  have hwho' := identity_of_connected hgames hclient'
  rw [ProtocolClient.identity, ← hsame] at hwho'
  exact hne (h.unique.eq hwho hwho' (clientName_of_hasName hname))

/-- Names stay unique as long as nobody is left in the input of a game that the
idle room enters as ended. -/
theorem NamesOk.step (hreach : system.Reachable s) (h : s.NamesOk)
    (hleaves : s.LeavesNobody action) (hstep : s.step action = some s') : s'.NamesOk := by
  have hinvariant := invariant_of_reachable hreach
  cases effect_of_step hinvariant.stored hstep with
  | accept _ heq =>
    subst heq
    exact ⟨h.rooms, h.leaving, h.unique⟩
  | handlerDone _ heq | newClientEvent heq =>
    subst heq
    exact ⟨h.rooms, nofun, h.unique⟩
  | addNewClient _ hadmits heq =>
    obtain ⟨clientFd, data, _, hadd, _⟩ := addNewClient_of_step hstep
    subst heq
    refine h.of_idle (fun who hwho hname => ?_) hadmits.gameRooms rfl nofun
    obtain hwho | rfl := identities_addNewClient hadd hwho
    · exact hwho
    · exact (hname rfl).elim
  | receive hreceive heq =>
    subst heq
    exact h.of_idle (fun who hwho _ => identities_receiveMessages hreceive hwho)
      (admits_receiveMessages hreceive).gameRooms rfl nofun
  | answer _ hclient hanswer heq =>
    subst heq
    exact h.answer hinvariant.stored hclient hanswer nofun
  | disconnect heq =>
    subst heq
    exact h.of_idle (fun who hwho _ => identities_onClientDisconnect s.idle _ hwho)
      (admits_onClientDisconnect s.idle _).gameRooms rfl nofun
  | startGame _ _ _ hroom hidle hnew hstart heq =>
    obtain ⟨clientFd, msg, messages, client, newGame, hclient, hanswer, hpc⟩ :=
      answer_of_message hinvariant.stored hstep
    subst heq
    have htables := tables_of_reachable hreach
    rw [leaving_of_step hstep rfl nofun] at htables
    cases newGame with
    | none => cases hpc
    | some newGame =>
      obtain ⟨roomId, client1, client2⟩ := newGame
      cases hpc
      cases hanswer with
      | starts _ hname _ _ hwaiting =>
        exact h.startGame hinvariant htables hclient hname hroom hidle hwaiting hnew hstart
  | sendClient hpc hsend heq =>
    subst heq
    exact h.sendClient hinvariant.stored hpc hsend
  | @stateChangeEvent roomId heq =>
    subst heq
    refine h.of_room rfl (fun _ _ => rfl) (fun who hwho => .inl hwho) (fun room hroom => ?_) nofun
    obtain ⟨hnames, hle⟩ := h.rooms_subset roomId room hroom
    exact ⟨hnames.of_subset subset_rfl (fun _ => rfl) hnames.idleInput, hle⟩
  | applyStateChange =>
    obtain ⟨roomId, room, change, data, idle, hpc, hroom, hdata, happly, rfl⟩ :=
      applyStateChange_of_step hstep
    exact h.applyStateChange hinvariant hroom hdata (hleaves roomId room change data hpc hroom hdata)
      happly
  | game hown hroom hstored hgo heq =>
    subst heq
    exact h.game hinvariant hown hroom hstored hgo

theorem namesOk_init (h : system.init s) : s.NamesOk := by
  obtain ⟨newClientsEvfd, inputEvfd, outputEvfd, roomCount, maxPlayerCount, _, hstart, hpc, hgames,
    _⟩ := h
  obtain ⟨epoll, _, hidle⟩ := bind_eq_ok.mp hstart
  obtain ⟨idle, pc, games, sockets⟩ := s
  obtain rfl : pc = .waiting := hpc
  obtain rfl : games = ∅ := hgames
  cases hidle
  have hnobody : ∀ roomId room,
      (createRooms inputEvfd outputEvfd roomCount).get? roomId = some room →
      room.gameInput.data = [] ∧ ∀ who, who ∉ room.identities none := by
    intro roomId room hroom
    obtain ⟨_, hinput, houtput⟩ := get?_createRooms hroom
    exact ⟨hinput, GameRoom.notMem_identities (fun _ ht => nomatch ht) hinput houtput⟩
  refine ⟨fun roomId room hroom => ?_, nofun, ?_⟩
  · exact roomNames_of_notMem (hnobody roomId room hroom).2 (hnobody roomId room hroom).1
  · rintro who ⟨⟨_, _, hclient, _⟩ | ⟨roomId, room, hroom, hwho⟩, _⟩
    · cases hclient
    · exact ((hnobody roomId room hroom).2 who hwho).elim

/-- Names are in order as long as no step leaves anybody behind. -/
theorem namesOk_of_reachable (h : (system.restrict LeavesNobody).Reachable s) : s.NamesOk := by
  refine h.invariant (P := NamesOk) (fun s hinit => ?_) fun s action s' hreach hnames hstep => ?_
  · exact namesOk_init hinit
  · exact hnames.step hreach.of_restrict hstep.2 hstep.1

theorem uniqueNames_of_reachable (h : (system.restrict LeavesNobody).Reachable s) :
    s.UniqueNames :=
  (namesOk_of_reachable h).uniqueNames (keys_games_subset h.of_restrict)

/-- In a run that never ends a game with a client left in its input no two
connected clients have the same name. -/
theorem uniqueNames_of_run {steps : List (Server × ServerAction × Server)}
    (h : system.Run steps s) (hleaves : ∀ t ∈ steps, t.1.LeavesNobody t.2.1) :
    s.UniqueNames ∧ ∀ t ∈ steps, t.1.UniqueNames :=
  h.forall_of_restrict hleaves fun _ hreach => uniqueNames_of_reachable hreach

/-- All inputs are empty, so that nobody can be left in one. -/
def inputsEmpty (s : Server) : Bool :=
  !s.idle.gameRooms.any fun _ room => !room.gameInput.data.isEmpty

private theorem leavesNobody_of_inputsEmpty (h : action ≠ .applyStateChange ∨ s.inputsEmpty = true) :
    s.LeavesNobody action := by
  cases action with
  | applyStateChange =>
    intro roomId room _ _ _ hroom _ _
    have hempty := h.resolve_left (fun hne => hne rfl)
    rw [inputsEmpty, Bool.not_eq_true', Bool.eq_false_iff] at hempty
    by_contra hleft
    refine hempty (UnorderedMap.any_eq_true.mpr ⟨roomId, room, hroom, ?_⟩)
    rwa [Bool.not_eq_true', List.isEmpty_eq_false_iff]
  | _ => trivial

/-- A run that can be evaluated and enters the ends of games with empty inputs
only. -/
theorem exists_run_of_inputsEmpty {actions : List ServerAction}
    {p : List (Server × ServerAction × Server) × Server → Bool}
    (h : ((oneRoom.bind (TransitionSystem.traceActions step actions)).any fun trace =>
      decide (∀ t ∈ trace.1, t.2.1 ≠ .applyStateChange ∨ t.1.inputsEmpty = true) &&
        p trace) = true) :
    ∃ steps s, system.Run steps s ∧ (∀ t ∈ steps, t.1.LeavesNobody t.2.1) ∧ p (steps, s) = true := by
  obtain ⟨steps, s, hrun, hstate⟩ :=
    TransitionSystem.exists_run_of_any (fun _ _ _ => id) (fun _ => init_of_oneRoom) h
  rw [Bool.and_eq_true, decide_eq_true_eq] at hstate
  exact ⟨steps, s, hrun, fun t ht => leavesNobody_of_inputsEmpty (hstate.1 t ht), hstate.2⟩

private theorem exists_run_left : ∃ steps s, system.Run steps s ∧
    (∀ t ∈ steps, t.1.LeavesNobody t.2.1) ∧ s.idle.clientsMap.keys = {10, 11} := by
  obtain ⟨steps, s, hrun, hleaves, hback⟩ := @exists_run_of_inputsEmpty leaveGameOfTwo
    (fun trace => decide (trace.2.idle.clientsMap.keys = {10, 11})) (by decide +kernel)
  exact ⟨steps, s, hrun, hleaves, of_decide_eq_true hback⟩

/-- Both players are back in the idle room. -/
theorem uniqueNames_of_run_left : ∃ steps s, system.Run steps s ∧
    s.idle.clientsMap.keys = {10, 11} ∧ s.UniqueNames ∧ ∀ t ∈ steps, t.1.UniqueNames := by
  obtain ⟨steps, s, hrun, hleaves, hback⟩ := exists_run_left
  exact ⟨steps, s, hrun, hback, uniqueNames_of_run hrun hleaves⟩

/-- The client who was sent too late to a game is in its input when a third one
enters his name. -/
def reuseName : List ServerAction :=
  leaveEarly ++ .readDone :: hearOfGame ++ connectClient 12 ++ sendMessage 12 ["ENTER_USERNAME", "username:A"]

theorem not_uniqueNames_reuseName : ¬ ∀ s, system.Reachable s → s.UniqueNames := by
  have hcheck : ((oneRoom.bind (TransitionSystem.runActions step reuseName)).any fun s =>
      (s.idle.clientsMap.get? 12).any (fun client =>
        client.clientFd == 12 && client.clientName == ['A']) &&
        (s.idle.gameRooms.get? 1).any fun room =>
          room.gameInput.data.any fun client =>
            client.clientFd == 10 && client.clientName == ['A']) = true := by
    decide +kernel
  obtain ⟨s, hreachable, hstate⟩ := exists_of_oneRoom hcheck
  simp only [Bool.and_eq_true, Option.any_eq_true, List.any_eq_true, beq_iff_eq] at hstate
  obtain ⟨⟨client, hclient, hfd, hname⟩, room, hroom, left, hleft, hleftFd, hleftName⟩ := hstate
  intro hall
  refine hall s hreachable client left ⟨.clientsMap, ?_⟩ ⟨.gameInput 1, ?_⟩ ?_ ?_ ?_
  · exact UnorderedMap.mem_tokens.mpr ⟨12, client, hclient, Multiset.mem_singleton_self client⟩
  · rw [clientsAt, hroom]
    exact hleft
  · rw [hfd, hleftFd]
    decide
  · rw [ProtocolClient.hasName, hname]
    rfl
  · rw [hname, hleftName]

end UpsServer.Server
