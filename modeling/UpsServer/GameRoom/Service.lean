import Mathlib.Logic.Relation
import UpsServer.GameRoom.Invariants

open Outcome Relation

namespace UpsServer.Game

/-- Whoever is online in the place of a player was there before, as a client who is
related to the one he is now. -/
def Relates (R : ProtocolClient → ProtocolClient → Prop) (g g' : Game) : Prop :=
  ∀ ref client', (g'.player ref).client = some client' →
    ∃ client, (g.player ref).client = some client ∧ R client client'

/-- Clients may be sent game states, one after another. -/
structure AllowsStates (R : ProtocolClient → ProtocolClient → Prop) : Prop where
  refl : ∀ client, R client client
  trans : ∀ client client' client'', R client client' → R client' client'' → R client client''
  shown : ∀ client gameData, R client (client.sendMsg ⟨.GAME_STATE, gameData⟩)

section Relates

variable {R : ProtocolClient → ProtocolClient → Prop} {g g' g'' : Game}

/-- One client is updated, and the other one stays as he is. -/
theorem relates_modifyClient (hrefl : ∀ client, R client client) (g : Game) (ref : PlayerRef)
    {f : ProtocolClient → ProtocolClient}
    (hf : ∀ client, (g.player ref).client = some client → R client (f client)) :
    Relates R g (g.modifyClient ref f) := by
  intro ref' client' hclient'
  rw [modifyClient, player_modifyPlayer] at hclient'
  split at hclient'
  · rename_i href
    subst href
    obtain ⟨client, hclient, rfl⟩ := Option.map_eq_some_iff.mp hclient'
    exact ⟨client, hclient, hf client hclient⟩
  · exact ⟨client', hclient', hrefl client'⟩

variable (hR : AllowsStates R)
include hR

theorem Relates.trans (h : Relates R g g') (h' : Relates R g' g'') : Relates R g g'' := by
  intro ref client'' hclient''
  obtain ⟨client', hclient', hrelated'⟩ := h' ref client'' hclient''
  obtain ⟨client, hclient, hrelated⟩ := h ref client' hclient'
  exact ⟨client, hclient, hR.trans _ _ _ hrelated hrelated'⟩

/-- A change that does not touch the clients. -/
theorem relates_of_clients (h : ∀ ref, (g'.player ref).client = (g.player ref).client) :
    Relates R g g' :=
  fun ref client' hclient' => ⟨client', (h ref).symm.trans hclient', hR.refl client'⟩

private theorem relates_refl (g : Game) : Relates R g g := relates_of_clients hR fun _ => rfl

theorem relates_stop (g : Game) : Relates R g { g with isRunning := false } :=
  relates_of_clients hR fun ref => by cases ref <;> rfl

/-- Whoever is dropped leaves his place empty. -/
theorem relates_dropClient (g : Game) (ref : PlayerRef) (clientFd : Int) :
    Relates R g (g.dropClient ref clientFd) := by
  unfold dropClient
  split
  · intro ref' client' hclient'
    rw [player_modifyPlayer, player_closeSocket, player_closeSocket] at hclient'
    split at hclient'
    · cases hclient'
    · exact ⟨client', hclient', hR.refl client'⟩
  · exact relates_refl hR g

/-- A player is shown the game. -/
theorem relates_sendGameState (g : Game) (ref : PlayerRef) : Relates R g (g.sendGameState ref) :=
  relates_modifyClient hR.refl g ref fun client _ => hR.shown client _

/-- The player who stays is shown that the game is paused. -/
theorem relates_onClientDisconnect (g : Game) (clientFd : Int) :
    Relates R g (g.onClientDisconnect clientFd) := by
  have hdrop := (relates_dropClient hR g .player1 clientFd).trans hR
    (relates_dropClient hR _ .player2 clientFd)
  unfold onClientDisconnect
  simp only
  split
  · exact hdrop.trans hR (relates_stop hR _)
  · refine hdrop.trans hR (.trans hR ?_ ((relates_sendGameState hR _ .player1).trans hR
      (relates_sendGameState hR _ .player2)))
    exact relates_of_clients hR fun ref => by cases ref <;> rfl

/-- A message that may be sent to every client. -/
theorem relates_sendMsg (g : Game) (ref : PlayerRef) {msg : ProtocolData}
    (hmsg : ∀ client : ProtocolClient, R client (client.sendMsg msg)) :
    Ends (Relates R g) (g.sendMsg ref msg) :=
  (reads_clientOf g ref).bind_ends (relates_refl hR g) fun _ _ =>
    relates_modifyClient hR.refl g ref fun client _ => hmsg client

/-- A silent player is dropped, which the other one is shown. -/
theorem relates_checkInactivity (g : Game) (ref silent : PlayerRef) :
    Relates R g (g.checkInactivity ref silent) := by
  unfold checkInactivity
  split
  · split
    · exact relates_onClientDisconnect hR g _
    · exact relates_refl hR g
  · exact relates_refl hR g

/-- Whoever is seen is not told so, but a silent player may be dropped. -/
theorem relates_updateClientLastSeen (g : Game) (clientFd : Int) (now : UInt64) :
    Ends (Relates R g) (g.updateClientLastSeen clientFd now) := by
  refine (reads_derefClient g clientFd).bind_ends (relates_refl hR g) fun _ _ => ?_
  refine (reads_getPlayer g clientFd).bind_ends (relates_refl hR g) fun ref _ => ?_
  have hseen : Relates R g (g.modifyPlayer ref fun p => { p with lastSeen := now }) := by
    refine relates_of_clients hR fun ref' => ?_
    rw [player_modifyPlayer]
    split
    · rename_i href
      rw [href]
    · rfl
  exact (hseen.trans hR (relates_checkInactivity hR _ ref .player1)).trans hR
    (relates_checkInactivity hR _ ref .player2)

/-- A move is shown to both players. -/
theorem relates_playMove (g : Game) (move : Move) : Ends (Relates R g) (g.playMove move) := by
  have hadd : Relates R g (g.addMove move) := relates_of_clients hR fun ref => by
    obtain ⟨mover, _, _⟩ := move
    cases mover <;> cases ref <;> rfl
  have hshown : ∀ gameData (client : ProtocolClient), R client (client.sendMsg ⟨.GAME_STATE, gameData⟩) :=
    fun gameData client => hR.shown client gameData
  refine (reads_moveData _ move _).bind_ends hadd fun gameData _ => ?_
  refine ((relates_sendMsg hR _ .player1 (hshown gameData)).mono fun _ h => hadd.trans hR h).bind
    (fun _ h => h) fun g' _ h => ?_
  refine ((relates_sendMsg hR g' .player2 (hshown gameData)).mono fun _ h' => h.trans hR h').bind
    (fun _ h => h) fun g'' _ h => ?_
  split
  · exact h.trans hR (relates_of_clients hR fun ref => by cases ref <;> rfl)
  · exact h

/-- Both players are shown the game they begin or resume. -/
theorem relates_greetPlayers (g : Game) (now1 now2 : UInt64) :
    Ends (Relates R g) (g.greetPlayers now1 now2) := by
  unfold greetPlayers
  refine (relates_sendMsg hR g .player1 fun client => hR.shown client _).bind
    (fun _ h => h) fun g₁ _ h₁ => ?_
  refine (reads_clientOf g₁ .player1).bind_ends h₁ fun _ _ => ?_
  refine ((relates_updateClientLastSeen hR g₁ _ now1).mono fun _ h => h₁.trans hR h).bind
    (fun _ h => h) fun g₂ _ h₂ => ?_
  refine ((relates_sendMsg hR g₂ .player2 fun client => hR.shown client _).mono
    fun _ h => h₂.trans hR h).bind (fun _ h => h) fun g₃ _ h₃ => ?_
  refine (reads_clientOf g₃ .player2).bind_ends h₃ fun _ _ => ?_
  exact (relates_updateClientLastSeen hR g₃ _ now2).mono fun _ h => h₃.trans hR h

end Relates

/-- What a game does to the client of a player at a time: it parses what he has
sent, or sends him a message. -/
inductive Treats : ProtocolClient → ProtocolClient → Prop where
  | parsed {client : ProtocolClient} {data : Str} {messages : Option (List ProtocolData)}
      {parser : BufferedParser} (h : client.parser.parse data = .ok (messages, parser)) :
      Treats client { client with parser := parser }
  | denied {client : ProtocolClient} (h : client.reqDeniedCnt < MAX_REQ_DENIED_CNT) :
      Treats client client.sendReqDeniedMsg
  | pinged {client : ProtocolClient} :
      Treats client (client.sendMsg (newProtocolMessage .GAME_PING []))
  | shown {client : ProtocolClient} {gameData : UnorderedMap Str Str} :
      Treats client (client.sendMsg ⟨.GAME_STATE, gameData⟩)

/-- The players have been treated, and some may have been dropped. -/
def Serves (g g' : Game) : Prop :=
  ∀ ref client', (g'.player ref).client = some client' →
    ∃ client, (g.player ref).client = some client ∧ ReflTransGen Treats client client'

/-- To be shown a state is one of the ways to be treated. -/
theorem allowsStates_treats : AllowsStates (ReflTransGen Treats) :=
  ⟨fun _ => .refl, fun _ _ _ => .trans, fun _ _ => .single .shown⟩

private theorem serves_of_clients {g g' : Game}
    (h : ∀ ref, (g'.player ref).client = (g.player ref).client) : Serves g g' :=
  relates_of_clients allowsStates_treats h

theorem Serves.refl (g : Game) : Serves g g := relates_refl allowsStates_treats g

theorem Serves.trans {g g' g'' : Game} (h : Serves g g') (h' : Serves g' g'') : Serves g g'' :=
  Relates.trans allowsStates_treats h h'

private theorem serves_stop (g : Game) : Serves g { g with isRunning := false } :=
  relates_stop allowsStates_treats g

/-- A disconnect shows states to the player who stays. -/
theorem serves_onClientDisconnect (g : Game) (clientFd : Int) :
    Serves g (g.onClientDisconnect clientFd) :=
  relates_onClientDisconnect allowsStates_treats g clientFd

/-- A client is denied, or dropped when he was denied too often. -/
theorem serves_denyRequest (g : Game) (clientFd : Int) :
    Ends (Serves g) (g.denyRequest clientFd) := by
  refine (reads_derefClient g clientFd).bind_ends (.refl g) fun ref _ => ?_
  refine (reads_clientOf g ref).bind_ends (.refl g) fun client hclient => ?_
  split
  · exact serves_onClientDisconnect g _
  · rename_i hlimit
    refine relates_modifyClient (fun _ => .refl) g ref fun client' hclient' => ?_
    cases (clientOf_eq_ok.mp hclient).symm.trans hclient'
    exact .single (.denied (Nat.lt_of_not_le hlimit))

/-- A message denies, shows or pings, in each branch of the switch. -/
theorem serves_answerMessage (g : Game) (msg : ProtocolData) (clientFd : Int) :
    Ends (Serves g) (g.answerMessage msg clientFd) := by
  unfold answerMessage
  split
  · refine (reads_derefClient g clientFd).bind_ends (.refl g) fun _ _ => ?_
    refine (reads_readMove g msg clientFd).bind_ends (.refl g) fun move _ => ?_
    cases move with
    | none => exact serves_denyRequest g clientFd
    | some move => exact relates_playMove allowsStates_treats g move
  · exact serves_stop g
  · exact (reads_derefClient g clientFd).bind_ends (.refl g) fun ref _ =>
      relates_sendMsg allowsStates_treats g ref fun _ => .single .pinged
  · exact serves_denyRequest g clientFd

/-- The sender is answered first, and a silent player is dropped afterwards. -/
theorem serves_processClientMessage (g : Game) (msg : ProtocolData) (clientFd : Int)
    (now : UInt64) : Ends (Serves g) (g.processClientMessage msg clientFd now) :=
  (serves_answerMessage g msg clientFd).bind (fun _ h => h) fun g' _ h =>
    (relates_updateClientLastSeen allowsStates_treats g' clientFd now).mono fun _ h' => h.trans h'

/-- What is read goes to the parser of its sender, or has him dropped. -/
theorem serves_receiveMessages {g g' : Game} {clientFd : Int} {received : Option Str}
    {messages : List ProtocolData}
    (h : g.receiveMessages clientFd received = .ok (messages, g')) : Serves g g' := by
  obtain ⟨ref, _, h⟩ := bind_eq_ok.mp h
  obtain ⟨client, hclient, h⟩ := bind_eq_ok.mp h
  rw [clientOf_eq_ok] at hclient
  split at h
  · cases h
    exact serves_onClientDisconnect g _
  · rename_i client' hreceive
    cases h
    obtain ⟨data, parser, _, hparse, rfl⟩ := ProtocolClient.parse_of_receiveMsg hreceive
    refine relates_modifyClient (fun _ => .refl) g ref fun client' hclient' => ?_
    cases hclient.symm.trans hclient'
    exact .single (.parsed hparse)

/-- A player after an arrival was one before, or comes from the input. -/
def Admitted (g g' : Game) : Prop :=
  ∀ ref client', (g'.player ref).client = some client' →
    ∃ client, ((g.player ref).client = some client ∨ client ∈ g.gameInput.data) ∧
      ReflTransGen Treats client client'

/-- Without an arrival all players were players before. -/
theorem Serves.admitted {g g' : Game} (h : Serves g g') : Admitted g g' := by
  intro ref client' hclient'
  obtain ⟨client, hclient, htreats⟩ := h ref client' hclient'
  exact ⟨client, .inl hclient, htreats⟩

/-- Players are served after an arrival as before it. -/
theorem Admitted.serves {g g' g'' : Game} (h : Admitted g g') (h' : Serves g' g'') :
    Admitted g g'' := by
  intro ref client'' hclient''
  obtain ⟨client', hclient', htreats'⟩ := h' ref client'' hclient''
  obtain ⟨client, hclient, htreats⟩ := h ref client' hclient'
  exact ⟨client, hclient, htreats.trans htreats'⟩

/-- The client who arrives is the first one of the input. -/
theorem admitted_arrive {g : Game} {ref : PlayerRef} {client : ProtocolClient}
    {gameInput : EventfdQueue ProtocolClient} (hpop : g.gameInput.pop = some (client, gameInput)) :
    Admitted g (g.arrive ref client gameInput) := by
  obtain ⟨data, hdata, rfl⟩ := EventfdQueue.pop_eq_some.mp hpop
  intro ref' client' hclient'
  rw [arrive, player_modifyPlayer] at hclient'
  split at hclient'
  · cases hclient'
    exact ⟨client, .inr (hdata ▸ List.mem_cons_self), .refl⟩
  · refine ⟨client', .inl ?_, .refl⟩
    cases ref' <;> exact hclient'

/-- A turn of the loop takes one client, and greets the players when there are two.
-/
theorem admitted_takeNewClient (g : Game) (now1 now2 : UInt64) :
    Ends (Admitted g) (g.takeNewClient now1 now2) := by
  unfold takeNewClient
  split
  · exact (Serves.refl g).admitted
  · exact (Serves.refl g).admitted
  · rename_i ref client gameInput hfree hpop
    have harrive : Admitted g (g.arrive ref client gameInput) := admitted_arrive hpop
    refine Ends.bind (P := Admitted g) ?_ (fun _ h => h) fun g' _ hregister => ?_
    · exact (reads_withState _ _).bind_ends harrive fun _ _ =>
        harrive.serves (serves_of_clients fun ref => by cases ref <;> rfl)
    · split
      · refine (relates_greetPlayers allowsStates_treats _ now1 now2).mono fun _ h =>
          (hregister.serves ?_).serves h
        exact serves_of_clients fun ref => by cases ref <;> rfl
      · exact hregister

end UpsServer.Game

namespace UpsServer.GameThread

open Game

/-- The players of a game after a step of its own were its players before, or
waited in its input. -/
theorem admitted_step {t t' : GameThread} {action : GameAction} (hown : action.isOwn = true)
    (h : step t action = some t') : Admitted t.game t'.game := by
  cases effect_of_step h with
  | deliver => cases hown
  | output _ hown' =>
    rw [hown] at hown'
    cases hown'
  | newClientEvent _ hgame | removeDescriptor _ hgame | receiveThrows _ _ _ hgame =>
    rw [hgame]
    exact (serves_of_clients fun ref => by cases ref <;> rfl).admitted
  | handlerDone _ _ hgame | stop _ hgame =>
    rw [hgame]
    exact (Serves.refl _).admitted
  | takeNewClient _ _ hresume =>
    exact of_ends (admitted_takeNewClient _ _ _) (fun g h => h.serves (serves_stop g))
      (resume_eq_some hresume)
  | message _ hresume =>
    exact of_ends ((serves_processClientMessage _ _ _ _).mono fun _ h => h.admitted)
      (fun g h => h.serves (serves_stop g)) (resume_eq_some hresume)
  | receive hreceive => exact (serves_receiveMessages hreceive).admitted
  | disconnect _ hgame =>
    rw [hgame]
    exact (serves_onClientDisconnect _ _).admitted
  | destroy _ heq =>
    rw [heq]
    intro ref client' hclient'
    cases ref <;> cases hclient'

end UpsServer.GameThread
