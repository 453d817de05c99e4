import Mathlib.Data.Set.Insert
import UpsServer.GameRoom.Handover

open Outcome

namespace UpsServer

/-- Who a client is: his descriptor and his name. -/
def ProtocolClient.identity (client : ProtocolClient) : Int × Str :=
  (client.clientFd, client.clientName)

/-- Who is in the input of a game. -/
def inputIdentities (gameInput : EventfdQueue ProtocolClient) : Set (Int × Str) :=
  {who | ∃ client ∈ gameInput.data, client.identity = who}

/-- Who returns with a change. -/
def GameStateChange.identities (change : GameStateChange) : Set (Int × Str) :=
  {who | ∃ client, (change.client1 = some client ∨ change.client2 = some client) ∧
    client.identity = who}

/-- Who returns with the changes in the output of a game. -/
def outputIdentities (gameOutput : EventfdQueue GameStateChange) : Set (Int × Str) :=
  {who | ∃ change ∈ gameOutput.data, who ∈ change.identities}

theorem inputIdentities_mono {gameInput gameInput' : EventfdQueue ProtocolClient}
    (h : gameInput'.data ⊆ gameInput.data) :
    inputIdentities gameInput' ⊆ inputIdentities gameInput := by
  rintro who ⟨client, hclient, hwho⟩
  exact ⟨client, h hclient, hwho⟩

theorem inputIdentities_push (gameInput : EventfdQueue ProtocolClient) (client : ProtocolClient) :
    inputIdentities (gameInput.push client) = inputIdentities gameInput ∪ {client.identity} := by
  ext who
  simp only [inputIdentities, EventfdQueue.data_push, List.mem_append, List.mem_singleton, or_and_right, exists_or,
    exists_eq_left, Set.mem_union, Set.mem_ofPred_eq, Set.mem_singleton_iff, @eq_comm _ who]

/-- Nobody returns with a pause. -/
theorem outputIdentities_of_pauses {gameOutput gameOutput' : EventfdQueue GameStateChange} {k : Nat}
    (h : gameOutput'.data = gameOutput.data ++ List.replicate k { newState := .PAUSED }) :
    outputIdentities gameOutput' ⊆ outputIdentities gameOutput := by
  rintro who ⟨change, hchange, hwho⟩
  rw [h, List.mem_append] at hchange
  obtain hchange | hpause := hchange
  · exact ⟨change, hchange, hwho⟩
  · obtain ⟨client, hclient, _⟩ := hwho
    rw [List.eq_of_mem_replicate hpause] at hclient
    obtain hclient | hclient := hclient <;> cases hclient

namespace Game

/-- Who plays a game. -/
def playerIdentities (g : Game) : Set (Int × Str) :=
  {who | ∃ ref client, (g.player ref).client = some client ∧ client.identity = who}

/-- Who plays a game, is on the way to it or is on the way back. -/
def identities (g : Game) : Set (Int × Str) :=
  g.playerIdentities ∪ (inputIdentities g.gameInput ∪ outputIdentities g.gameOutput)

variable {g g' : Game}

/-- A handler brings nobody into a game who was not in its input. -/
theorem Settled.identities (h : Settled g g')
    (hplayers : g'.playerIdentities ⊆ g.playerIdentities ∪ inputIdentities g.gameInput) :
    g'.identities ⊆ g.identities := by
  obtain ⟨k, hk⟩ := h.output
  have hinput : inputIdentities g'.gameInput ⊆ inputIdentities g.gameInput :=
    inputIdentities_mono h.input.subset
  have houtput := outputIdentities_of_pauses hk
  intro who hwho
  obtain hwho | hwho | hwho := hwho
  · obtain hwho | hwho := hplayers hwho
    · exact .inl hwho
    · exact .inr (.inl hwho)
  · exact .inr (.inl (hinput hwho))
  · exact .inr (.inr (houtput hwho))

theorem Kept.playerIdentities (h : Kept g g') : g'.playerIdentities ⊆ g.playerIdentities := by
  rintro who ⟨ref, client', hclient', rfl⟩
  obtain ⟨client, hclient, hfd, hname⟩ := h.players ref client' hclient'
  exact ⟨ref, client, hclient, Prod.ext hfd.symm hname.symm⟩

theorem Kept.identities (h : Kept g g') : g'.identities ⊆ g.identities :=
  h.settled.identities (h.playerIdentities.trans Set.subset_union_left)

/-- An arrival comes from the input. -/
theorem identities_arrive {ref : PlayerRef} {client : ProtocolClient}
    {gameInput : EventfdQueue ProtocolClient} (hfree : g.freePlayer = some ref)
    (hpop : g.gameInput.pop = some (client, gameInput)) :
    (g.arrive ref client gameInput).identities ⊆ g.identities := by
  apply (settled_arrive hfree hpop).identities
  obtain ⟨data, hdata, rfl⟩ := EventfdQueue.pop_eq_some.mp hpop
  rintro who ⟨ref', client', hclient', rfl⟩
  rw [arrive, player_modifyPlayer] at hclient'
  split at hclient'
  · cases hclient'
    refine .inr ⟨client, ?_, rfl⟩
    rw [hdata]
    exact List.mem_cons_self
  · exact .inl ⟨ref', client', hclient', rfl⟩

private theorem identities_registerClient (g : Game) (clientFd : Int) :
    Ends (fun g' => g'.identities = g.identities) (g.registerClient clientFd) :=
  (reads_withState g _).bind_ends rfl fun _ _ => rfl

private theorem identities_takeNewClient (g : Game) (now1 now2 : UInt64) :
    Ends (fun g' => g'.identities ⊆ g.identities) (g.takeNewClient now1 now2) := by
  unfold takeNewClient
  split
  · exact subset_rfl
  · exact subset_rfl
  · rename_i ref client gameInput hfree hpop
    have harrive := identities_arrive hfree hpop
    refine (identities_registerClient _ client.clientFd).bind
      (fun _ h => h.trans_subset harrive) fun g' _ hregister => ?_
    have harrived : g'.identities ⊆ g.identities := hregister.trans_subset harrive
    split
    · exact (quiet_greetPlayers _ now1 now2).mono fun _ h => h.toKept.identities.trans harrived
    · exact harrived

/-- The players return with the last change. -/
theorem identities_destruct (g : Game) : g.destruct.identities ⊆ g.identities := by
  intro who hwho
  obtain hwho | hwho | hwho := hwho
  · obtain ⟨ref, client, hclient, _⟩ := hwho
    cases ref <;> cases hclient
  · exact .inr (.inl hwho)
  · obtain ⟨change, hchange, hwho⟩ := hwho
    obtain hchange | hchange := List.mem_append.mp hchange
    · exact .inr (.inr ⟨change, hchange, hwho⟩)
    · obtain ⟨client, hclient, rfl⟩ := hwho
      rw [List.mem_singleton.mp hchange] at hclient
      obtain hclient | hclient := hclient
      · exact .inl ⟨.player1, client, hclient, rfl⟩
      · exact .inl ⟨.player2, client, hclient, rfl⟩

end Game

namespace GameThread

/-- A game thread brings in nobody, and it names nobody. -/
theorem identities_step {t t' : GameThread} {action : GameAction} (hown : action.isOwn = true)
    (h : step t action = some t') : t'.game.identities ⊆ t.game.identities := by
  cases effect_of_step h with
  | deliver => cases hown
  | output _ hown' =>
    rw [hown] at hown'
    cases hown'
  | newClientEvent _ hgame | receiveThrows _ _ _ hgame | removeDescriptor _ hgame =>
    rw [hgame]
    exact subset_rfl
  | handlerDone _ _ hgame | stop _ hgame => rw [hgame]
  | takeNewClient _ _ hresume =>
    exact of_ends (Game.identities_takeNewClient _ _ _) (fun _ h => h) (resume_eq_some hresume)
  | message _ hresume =>
    have hkept := Game.kept_processClientMessage t.game
    exact of_ends ((hkept _ _ _).mono fun _ h => h.identities) (fun _ h => h)
      (resume_eq_some hresume)
  | receive hreceive => exact (Game.quiet_receiveMessages hreceive).toKept.identities
  | disconnect _ hgame =>
    rw [hgame]
    exact (Game.quiet_onClientDisconnect _ _).toKept.identities
  | destroy _ heq =>
    rw [heq]
    exact Game.identities_destruct t.game

end GameThread

end UpsServer
