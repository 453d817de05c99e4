import UpsServer.GameRoom.GameLoop

open Outcome

namespace UpsServer

namespace Game

section Players

variable {g g' : Game} {fd clientFd : Int}

/-- Whoever is a player stays one while no socket is closed. -/
theorem Kept.playerFds_eq (h : Kept g g') (hclosed : g'.closedSockets = g.closedSockets) :
    g'.playerFds = g.playerFds := by
  have hsockets := h.sockets
  rw [hclosed] at hsockets
  exact add_right_cancel hsockets

private theorem closedSockets_dropClient (g : Game) (ref : PlayerRef) (clientFd : Int) :
    ∃ k, (g.dropClient ref clientFd).closedSockets =
      g.closedSockets ++ List.replicate k clientFd := by
  unfold dropClient
  split
  · exact ⟨1, closedSockets_modifyPlayer _ _ _⟩
  · exact ⟨0, (List.append_nil _).symm⟩

/-- A drop closes nothing but sockets with the number of the client. -/
theorem closedSockets_onClientDisconnect (g : Game) (clientFd : Int) :
    ∃ k, (g.onClientDisconnect clientFd).closedSockets =
      g.closedSockets ++ List.replicate k clientFd := by
  obtain ⟨k, hone⟩ := closedSockets_dropClient g .player1 clientFd
  obtain ⟨k', htwo⟩ := closedSockets_dropClient (g.dropClient .player1 clientFd) .player2 clientFd
  refine ⟨k + k', ?_⟩
  rw [← List.replicate_append_replicate, ← List.append_assoc, ← hone, ← htwo]
  unfold onClientDisconnect
  simp only
  split
  · rfl
  · simp [sendGameState, modifyClient]

/-- The other players stay. -/
theorem mem_playerFds_onClientDisconnect (hmem : fd ∈ g.playerFds) (hne : fd ≠ clientFd) :
    fd ∈ (g.onClientDisconnect clientFd).playerFds := by
  obtain ⟨k, hclosed⟩ := closedSockets_onClientDisconnect g clientFd
  have hsockets := (quiet_onClientDisconnect g clientFd).sockets
  rw [hclosed, ← Multiset.coe_add, ← add_assoc, add_right_comm] at hsockets
  rw [← add_right_cancel hsockets, Multiset.mem_add] at hmem
  exact hmem.resolve_right fun hdropped => hne (List.eq_of_mem_replicate hdropped)

/-- Nobody leaves, and nobody is seen. -/
structure Stays (g g' : Game) : Prop where
  closedSockets : g'.closedSockets = g.closedSockets
  lastSeen : ∀ ref, (g'.player ref).lastSeen = (g.player ref).lastSeen

theorem Stays.refl (g : Game) : Stays g g := ⟨rfl, fun _ => rfl⟩

theorem Stays.trans {g'' : Game} (h : Stays g g') (h' : Stays g' g'') : Stays g g'' :=
  ⟨h'.closedSockets.trans h.closedSockets, fun ref => (h'.lastSeen ref).trans (h.lastSeen ref)⟩

private theorem stays_modifyClient (g : Game) (ref : PlayerRef) (f : ProtocolClient → ProtocolClient) :
    Stays g (g.modifyClient ref f) := by
  refine ⟨closedSockets_modifyPlayer _ _ _, fun ref' => ?_⟩
  cases ref <;> cases ref' <;> rfl

private theorem stays_addMove (g : Game) (move : Move) : Stays g (g.addMove move) := by
  refine ⟨closedSockets_modifyPlayer _ _ _, fun ref => ?_⟩
  obtain ⟨mover, _, _⟩ := move
  cases mover <;> cases ref <;> rfl

private theorem stays_clearGame (g : Game) : Stays g g.clearGame :=
  ⟨rfl, fun ref => by cases ref <;> rfl⟩

private theorem stays_sendMsg (g : Game) (ref : PlayerRef) (msg : ProtocolData) :
    Ends (Stays g) (g.sendMsg ref msg) :=
  (reads_clientOf g ref).bind_ends (.refl g) fun _ _ => stays_modifyClient g ref _

private theorem stays_playMove (g : Game) (move : Move) : Ends (Stays g) (g.playMove move) := by
  have hadd := stays_addMove g move
  refine (reads_moveData _ move _).bind_ends hadd fun gameData _ => ?_
  refine ((stays_sendMsg _ .player1 _).mono fun _ h => hadd.trans h).bind (fun _ h => h)
    fun g' _ h => ?_
  refine ((stays_sendMsg g' .player2 _).mono fun _ h' => h.trans h').bind (fun _ h => h)
    fun g'' _ h => ?_
  split
  · exact h.trans (stays_clearGame g'')
  · exact h

/-- Nobody leaves while a message is answered but the sender. -/
theorem stays_denyRequest (g : Game) (clientFd : Int) :
    Ends (fun g' => Stays g g' ∨ g'.findPlayer clientFd = none) (g.denyRequest clientFd) := by
  refine (reads_derefClient g clientFd).bind_ends (.inl (.refl g)) fun ref href => ?_
  refine (reads_clientOf g ref).bind_ends (.inl (.refl g)) fun client hclient => ?_
  obtain ⟨client', hclient', hfd⟩ := findPlayer_eq_some (derefClient_eq_ok.mp href)
  cases (clientOf_eq_ok.mp hclient).symm.trans hclient'
  split
  · rw [← hfd]
    exact .inr (findPlayer_onClientDisconnect g client.clientFd)
  · exact .inl (stays_modifyClient g ref _)

private theorem stays_answerMessage (g : Game) (msg : ProtocolData) (clientFd : Int) :
    Ends (fun g' => Stays g g' ∨ g'.findPlayer clientFd = none)
      (g.answerMessage msg clientFd) := by
  unfold answerMessage
  split
  · refine (reads_derefClient g clientFd).bind_ends (.inl (.refl g)) fun _ _ => ?_
    refine (reads_readMove g msg clientFd).bind_ends (.inl (.refl g)) fun move _ => ?_
    cases move with
    | none => exact stays_denyRequest g clientFd
    | some move => exact (stays_playMove g move).mono fun _ h => .inl h
  · exact .inl ⟨rfl, fun ref => by cases ref <;> rfl⟩
  · exact (reads_derefClient g clientFd).bind_ends (.inl (.refl g)) fun ref _ =>
      (stays_sendMsg g ref _).mono fun _ h => .inl h
  · exact stays_denyRequest g clientFd

/-- What a player has sent cannot be read or parsed. -/
def FailsToRead (g : Game) (clientFd : Int) (received : Option Str) : Prop :=
  ∃ ref client fault, g.findPlayer clientFd = some ref ∧ (g.player ref).client = some client ∧
    client.receiveMsg received = .error fault

/-- The other player has been silent for too long when this one is seen. -/
def FindsSilent (g : Game) (clientFd : Int) (now : UInt64) : Prop :=
  ∃ ref, (g.player ref).hasClient clientFd = true ∧ (g.player ref.other).client ≠ none ∧
    g.Stale ref.other now

/-- The first player is found silent when the second one is greeted after him. -/
def GreetsTooLate (g : Game) (now1 now2 : UInt64) : Prop :=
  g.SomeoneOnline ∧ now1 ≠ 0 ∧ now2 - now1 > Player.MAX_INACTIVITY_MS

instance (g : Game) (clientFd : Int) (received : Option Str) :
    Decidable (g.FailsToRead clientFd received) :=
  decidable_of_iff (((g.findPlayer clientFd).any fun ref => (g.player ref).client.any fun client =>
    (client.receiveMsg received).toOption.isNone) = true) (by
      simp only [Option.any_eq_true, Option.isNone_iff_eq_none, toOption_eq_none, FailsToRead,
        exists_and_left])

instance (g : Game) (clientFd : Int) (now : UInt64) : Decidable (g.FindsSilent clientFd now) :=
  inferInstanceAs (Decidable (∃ _, _))

instance (g : Game) (now1 now2 : UInt64) : Decidable (g.GreetsTooLate now1 now2) :=
  decidable_of_iff ((∃ ref, (g.player ref).client ≠ none) ∧ now1 ≠ 0 ∧
    now2 - now1 > Player.MAX_INACTIVITY_MS) (by
      simp only [GreetsTooLate, SomeoneOnline, Option.ne_none_iff_exists'])

/-- Only a silent player is dropped when a player is seen. -/
theorem closedSockets_updateClientLastSeen {now : UInt64} (hactive : ¬ g.FindsSilent clientFd now)
    (h : g.updateClientLastSeen clientFd now = .ok g') : g'.closedSockets = g.closedSockets := by
  obtain ⟨ref, href, _⟩ := bind_eq_ok.mp h
  rw [derefClient_eq_ok] at href
  rw [updateClientLastSeen_of_findPlayer href, Except.ok.injEq] at h
  have hsame : (g.see ref now).closedSockets = g.closedSockets := closedSockets_modifyPlayer _ _ _
  rw [← h]
  split
  · rename_i hstale
    cases hother : (g.player ref.other).client with
    | none => exact hsame
    | some other =>
      refine (hactive ⟨ref, hasClient_of_findPlayer href, ?_, hstale⟩).elim
      rw [hother]
      exact Option.some_ne_none _
  · exact hsame

private theorem playerFds_processClientMessage {msg : ProtocolData} {now : UInt64}
    (hactive : ¬ g.FindsSilent clientFd now)
    (h : g.processClientMessage msg clientFd now = .ok g') : g'.playerFds = g.playerFds := by
  have hkept := (kept_processClientMessage g msg clientFd now).of_ok h
  obtain ⟨g₁, hanswer, hupdate⟩ := bind_eq_ok.mp h
  obtain ⟨ref, href, _⟩ := bind_eq_ok.mp hupdate
  have hkept₁ := (kept_answerMessage g msg clientFd).of_ok hanswer
  have hstays : Stays g g₁ := by
    refine ((stays_answerMessage g msg clientFd).of_ok hanswer).resolve_right fun hnone => ?_
    rw [derefClient_eq_ok, hnone] at href
    cases href
  refine hkept.playerFds_eq ((closedSockets_updateClientLastSeen ?_ hupdate).trans
    hstays.closedSockets)
  rintro ⟨ref, hclient, hother, hstale⟩
  obtain ⟨client₁, hclient₁, hfd₁⟩ := (Option.any_eq_true ..).mp hclient
  obtain ⟨client, hclient, hfd, _⟩ := hkept₁.players ref client₁ hclient₁
  obtain ⟨other₁, hother₁⟩ := Option.ne_none_iff_exists'.mp hother
  obtain ⟨other, hother, _⟩ := hkept₁.players ref.other other₁ hother₁
  refine hactive ⟨ref, ?_, ?_, ?_⟩
  · rw [Player.hasClient, hclient, Option.any_some, ← hfd]
    exact hfd₁
  · rw [hother]
    exact Option.some_ne_none _
  · rwa [Stale, hstays.lastSeen] at hstale

private theorem mem_playerFds_greetPlayers {now1 now2 : UInt64} (hnodup : g.heldFds.Nodup)
    (honline : g.Online) (hintime : now1 = 0 ∨ now2 - now1 ≤ Player.MAX_INACTIVITY_MS)
    (h : g.greetPlayers now1 now2 = .ok g') (hmem : fd ∈ g.playerFds) : fd ∈ g'.playerFds := by
  have hactive : ¬ g.Stale .player2 now1 := fun hstale =>
    greetPlayers_of_stale hnodup honline hstale now2 h
  obtain ⟨g'', hok, hstay⟩ := greetPlayers_of_not_stale hnodup honline hactive now2
  cases h.symm.trans hok
  obtain ⟨ref, client, hclient, rfl⟩ := mem_playerFds.mp hmem
  obtain ⟨client', hclient'⟩ := (hstay ref).mpr fun _ => hintime
  obtain ⟨before, hbefore, hfd, _⟩ :=
    ((quiet_greetPlayers g now1 now2).of_ok h).toKept.players ref client' hclient'
  cases hclient.symm.trans hbefore
  exact mem_playerFds.mpr ⟨ref, client', hclient', hfd⟩

/-- Otherwise an arriving client joins the players, who all stay. -/
theorem mem_playerFds_takeNewClient {client : ProtocolClient} {waiting : List ProtocolClient}
    {now1 now2 : UInt64} (hnodup : g.heldFds.Nodup)
    (hdata : g.gameInput.data = client :: waiting) (hintime : ¬ g.GreetsTooLate now1 now2)
    (h : g.takeNewClient now1 now2 = .ok g') (hmem : fd ∈ client.clientFd ::ₘ g.playerFds) :
    fd ∈ g'.playerFds := by
  obtain ⟨ref, arrived, hfree, _, hregister, _, hrest⟩ := takeNewClient_eq_ok hdata h
  obtain ⟨epoll, _, harrived⟩ := bind_eq_ok.mp hregister
  cases harrived
  rw [← playerFds_arrive hfree client { g.gameInput with data := waiting }] at hmem
  split at hrest
  · rename_i hboth
    have hnodup' := Multiset.nodup_of_le
      (settled_arrive hfree (EventfdQueue.pop_eq_some.mpr ⟨waiting, hdata, rfl⟩)).heldFds_le hnodup
    have honline : (g.arrive ref client { g.gameInput with data := waiting }).Online :=
      bothPlayersOnline_eq_true.mp hboth
    obtain ⟨other, hother⟩ := online_other_of_arrive honline
    refine mem_playerFds_greetPlayers ?_ ?_ ?_ hrest ?_
    · exact hnodup'
    · exact bothPlayersOnline_eq_true.mp hboth
    · rw [or_iff_not_imp_left, ← UInt64.not_lt]
      exact fun hne hlate => hintime ⟨⟨ref.other, other, hother⟩, hne, hlate⟩
    · exact hmem
  · rw [← hrest]
    exact hmem

end Players

end Game

namespace Epoll

/-- The first handler that is added to the descriptor registers it by
`EPOLL_CTL_ADD`. -/
def RegistersByAdd {H : Type} (e : Epoll H) (fd : Int) : Prop :=
  ∃ md, (e.addDescriptor fd).monitoredFds.get? fd = some md ∧ md.isInitialized = false

instance {H : Type} (e : Epoll H) (fd : Int) : Decidable (e.RegistersByAdd fd) :=
  decidable_of_iff (((e.addDescriptor fd).monitoredFds.get? fd).any
    (fun md => decide (md.isInitialized = false)) = true) (by
      simp only [Option.any_eq_true, decide_eq_true_eq, RegistersByAdd])

private theorem registersByAdd_of_notMem {H : Type} {e : Epoll H} {fd : Int}
    (h : fd ∉ e.monitoredFds.keys) : e.RegistersByAdd fd := by
  rw [RegistersByAdd, addDescriptor, UnorderedMap.notMem_keys.mp h]
  exact ⟨_, UnorderedMap.get?_set_self _ _ _, rfl⟩

end Epoll

namespace GameLoop

/-- The client whose messages are processed. -/
def sender (l : GameLoop) : Option Int :=
  match l.thread.pc with
  | .reading clientFd _ => some clientFd
  | _ => none

/-- A step that drops a client although no event closes his descriptor: his data
cannot be read or parsed, or he is found silent when the other player is seen. -/
def DropsUnnoticed (l : GameLoop) : LoopAction → Prop
  | .handle received => ∃ event types, l.event = some (event, types) ∧ ¬ event.IsClosing ∧
      l.thread.game.FailsToRead event.fd received
  | .thread (.message now) => ∃ clientFd, l.sender = some clientFd ∧
      l.thread.game.FindsSilent clientFd now
  | .thread (.takeNewClient now1 now2) => l.thread.game.GreetsTooLate now1 now2
  | _ => False

instance (l : GameLoop) : (action : LoopAction) → Decidable (l.DropsUnnoticed action)
  | .handle received => decidable_of_iff ((l.event.any fun current =>
      decide (¬ current.1.IsClosing ∧ l.thread.game.FailsToRead current.1.fd received)) = true) (by
      simp only [Option.any_eq_true, decide_eq_true_eq, Prod.exists, DropsUnnoticed])
  | .thread (.message now) => decidable_of_iff ((l.sender.any fun clientFd =>
      decide (l.thread.game.FindsSilent clientFd now)) = true) (by
      simp only [Option.any_eq_true, decide_eq_true_eq, DropsUnnoticed])
  | .thread (.takeNewClient now1 now2) =>
    inferInstanceAs (Decidable (l.thread.game.GreetsTooLate now1 now2))
  | .poll _ | .finish | .thread (.deliver _) | .thread .takeOutput | .thread .readOutput
  | .thread .newClientEvent | .thread .collected | .thread (.receive _ _) | .thread .readDone
  | .thread (.disconnect _ _) | .thread (.removeDescriptor _) | .thread .stop
  | .thread .destroy => inferInstanceAs (Decidable False)

/-- Nobody is dropped but by an event that closes his descriptor. -/
def DropsNoticed (l : GameLoop) (action : LoopAction) : Prop := ¬ l.DropsUnnoticed action

instance (l : GameLoop) (action : LoopAction) : Decidable (l.DropsNoticed action) :=
  inferInstanceAs (Decidable (¬ _))

/-- The event that is handled closes the descriptor. -/
def Closes (l : GameLoop) (fd : Int) : Prop :=
  ∃ event types, l.event = some (event, types) ∧ event.IsClosing ∧ event.fd = fd

/-- The table has entries for the input and for players only, and for the client
whose descriptor is closed. -/
def NoneLeft (l : GameLoop) : Prop :=
  ∀ fd ∈ l.epoll.monitoredFds.keys,
    fd = l.evfd ∨ fd ∈ l.thread.game.playerFds ∨ l.Closes fd

/-- After every event the table has entries for exactly the input and the players,
and a client who arrives is new to it. -/
structure TableExact (l : GameLoop) : Prop where
  keys : l.event = none → l.thread.pc = .waiting →
    l.epoll.monitoredFds.keys = insert l.evfd l.thread.game.playerFds.toFinset
  arrivals : ∀ client waiting, l.thread.pc = .collecting →
    l.thread.game.gameInput.data = client :: waiting → l.epoll.RegistersByAdd client.clientFd

section Run

variable {l l' : GameLoop} {action : LoopAction}

private theorem tableExact_of_noneLeft (hok : l.TableOk) (hnodup : l.thread.game.heldFds.Nodup)
    (h : l.NoneLeft) : l.TableExact := by
  constructor
  · intro hrest _
    ext fd
    rw [Finset.mem_insert, Multiset.mem_toFinset]
    constructor
    · intro hmem
      obtain hevfd | hplayer | ⟨_, _, hevent, _⟩ := h fd hmem
      · exact .inl hevfd
      · exact .inr hplayer
      · cases hrest.symm.trans hevent
    · rintro (rfl | hplayer)
      · exact hok.registered.input
      · exact hok.players fd hplayer
  · intro client waiting hpc hdata
    refine Epoll.registersByAdd_of_notMem fun hmem => ?_
    have hinput : client.clientFd ∈ l.thread.game.gameInput.data.map (·.clientFd) := by
      rw [hdata]
      exact List.mem_cons_self
    obtain hevfd | hplayer | ⟨event, types, hevent, hclosing, _⟩ := h _ hmem
    · exact hok.evfdFree (Multiset.mem_add.mpr (.inr (hevfd ▸ hinput)))
    · exact Multiset.disjoint_left.mp (Multiset.nodup_add.mp hnodup).2.2 hplayer hinput
    · exact (hok.closing event types hevent hclosing).2.1 hpc

theorem NoneLeft.of_table (h : l.NoneLeft)
    (htable : l'.epoll.monitoredFds = l.epoll.monitoredFds) (hevfd : l'.evfd = l.evfd)
    (hplayers : ∀ fd ∈ l.thread.game.playerFds, fd ∈ l'.thread.game.playerFds ∨ l'.Closes fd)
    (hcloses : ∀ fd ∈ l.epoll.monitoredFds.keys, l.Closes fd → l'.Closes fd) : l'.NoneLeft := by
  intro fd hmem
  rw [htable] at hmem
  obtain hinput | hplayer | hclosed := h fd hmem
  · exact .inl (hinput.trans hevfd.symm)
  · exact .inr (hplayers fd hplayer)
  · exact .inr (.inr (hcloses fd hmem hclosed))

/-- A read that does not fail keeps the players; one that does drops the reader. -/
theorem mem_playerFds_receiveMessages {g g' : Game} {clientFd fd : Int} {received : Option Str}
    {messages : List ProtocolData} (h : g.receiveMessages clientFd received = .ok (messages, g'))
    (hmem : fd ∈ g.playerFds) :
    fd ∈ g'.playerFds ∨ fd = clientFd ∧ g.FailsToRead clientFd received := by
  obtain ⟨ref, href, hrest⟩ := bind_eq_ok.mp h
  obtain ⟨client, hclient, _⟩ := bind_eq_ok.mp hrest
  rw [Game.getPlayer_eq_ok] at href
  rw [Game.clientOf_eq_ok] at hclient
  obtain ⟨client', hclient', hfd⟩ := Game.findPlayer_eq_some href
  cases hclient.symm.trans hclient'
  cases hmsg : client.receiveMsg received with
  | error fault =>
    rw [Game.receiveMessages_of_error href hclient hmsg] at h
    cases h
    by_cases hsame : fd = client.clientFd
    · exact .inr ⟨hsame.trans hfd, ref, client, fault, href, hclient, hmsg⟩
    · exact .inl (Game.mem_playerFds_onClientDisconnect hmem hsame)
  | ok result =>
    rw [Game.receiveMessages_of_ok href hclient hmsg] at h
    cases h
    obtain ⟨parser, hparser⟩ := ProtocolClient.receiveMsg_eq_ok hmsg
    have hkept := Game.quiet_modifyClient g ref (f := fun _ => result.2) fun other hother => by
      cases hclient.symm.trans hother
      rw [hparser]
      exact ⟨rfl, rfl⟩
    rw [hkept.toKept.playerFds_eq (Game.closedSockets_modifyPlayer _ _ _)]
    exact .inl hmem

/-- A handler that is called for an event leaves no entry behind. -/
theorem NoneLeft.call (h : l.NoneLeft) (hok : l.TableOk) {event : EpollEvent} {evt : EventMask}
    {types : List EventMask} {received : Option Str} {handler : GameHandler}
    (hevent : l.event = some (event, evt :: types))
    (hhandler : l.epoll.handler event.fd (event.events &&& evt) = some handler)
    (hstep : l.thread.step (call received event.fd (event.events &&& evt) handler) =
      some l'.thread) (hevent' : l'.event = some (event, types)) (hruns : l'.thread.Runs)
    (hkeep : l.DropsNoticed (.handle received)) : l'.NoneLeft := by
  obtain ⟨htable, _, hevfd⟩ := table_of_call hstep hruns
  have hcloses : event.IsClosing → l'.Closes event.fd := fun hclosing =>
    ⟨event, types, hevent', hclosing, rfl⟩
  refine h.of_table htable hevfd (fun fd hplayer => ?_) fun fd _ => ?_
  · obtain ⟨_, hgame⟩ | ⟨_, ⟨_, messages, hreceive, _⟩ | ⟨htype, _, hgame⟩⟩ :=
      hok.registered.call_cases hhandler hstep hruns
    · rw [hgame]
      exact .inl hplayer
    · obtain hstays | ⟨rfl, hfails⟩ := mem_playerFds_receiveMessages hreceive hplayer
      · exact .inl hstays
      · refine .inr (hcloses ?_)
        by_contra hopen
        exact hkeep ⟨event, _, hevent, hopen, hfails⟩
    · rw [hgame]
      by_cases hsame : fd = event.fd
      · rw [hsame]
        exact .inr (hcloses (isClosing_of_type htype))
      · exact .inl (Game.mem_playerFds_onClientDisconnect hplayer hsame)
  · rintro ⟨_, _, hsome, hclosing, rfl⟩
    cases hevent.symm.trans hsome
    exact hcloses hclosing

theorem NoneLeft.thread (h : l.NoneLeft) (hok : l.TableOk)
    (hnodup : l.thread.game.heldFds.Nodup) {action : GameAction}
    (hgoes : l.goesOn action = true) (hstep : l.thread.step action = some l'.thread)
    (hevent : l'.event = l.event) (hruns : l'.thread.Runs)
    (hkeep : l.DropsNoticed (.thread action)) : l'.NoneLeft := by
  have hcloses : ∀ fd, l'.Closes fd ↔ l.Closes fd := fun fd => by rw [Closes, Closes, hevent]
  by_cases htake : ∃ now1 now2, action = .takeNewClient now1 now2
  · obtain ⟨now1, now2, rfl⟩ := htake
    obtain ⟨_, client, waiting, hdata, htaken⟩ := takeNewClient_of_step hstep hruns
    obtain ⟨epoll, hwatch, htable, _, hevfd⟩ := table_of_takeNewClient hdata htaken
    have hmonitors := hok.registered.monitors.watchClient hwatch
    have hjoins : ∀ fd ∈ client.clientFd ::ₘ l.thread.game.playerFds,
        fd ∈ l'.thread.game.playerFds := fun fd =>
      Game.mem_playerFds_takeNewClient hnodup hdata hkeep htaken
    intro fd hmem
    change fd ∈ l'.thread.game.epoll.monitoredFds.keys at hmem
    rw [htable, hmonitors.keys, Finset.mem_insert] at hmem
    obtain rfl | hmem := hmem
    · exact .inr (.inl (hjoins _ (Multiset.mem_cons_self _ _)))
    · obtain hinput | hplayer | hclosed := h fd hmem
      · exact .inl (hinput.trans hevfd.symm)
      · exact .inr (.inl (hjoins fd (Multiset.mem_cons_of_mem hplayer)))
      · exact .inr (.inr ((hcloses fd).mpr hclosed))
  · obtain ⟨htable, _, hevfd⟩ := table_of_step hstep hruns
      (fun now1 now2 heq => htake ⟨now1, now2, heq⟩) (fun fd heq => by subst heq; cases hgoes)
    refine h.of_table htable hevfd (fun fd hplayer => .inl ?_) fun fd _ => (hcloses fd).mpr
    cases GameThread.effect_of_step hstep with
    | deliver _ _ hgame | output _ _ _ hgame | handlerDone _ _ hgame | stop _ hgame =>
      rw [hgame]
      exact hplayer
    | @message now clientFd _ _ hpc hresume =>
      have hsender : l.sender = some clientFd := by rw [sender, hpc]
      rw [Game.playerFds_processClientMessage (fun hsilent => hkeep ⟨clientFd, hsender, hsilent⟩)
        (ok_of_resume hresume hruns).1]
      exact hplayer
    | takeNewClient => exact (htake ⟨_, _, rfl⟩).elim
    | newClientEvent | receive | receiveThrows | disconnect | removeDescriptor => cases hgoes
    | destroy _ heq => exact (hruns.2 (by rw [heq])).elim

theorem noneLeft_step (h : l.NoneLeft) (hok : l.TableOk) (hnodup : l.thread.game.heldFds.Nodup)
    (hstep : step l action = some l') (hruns : l'.thread.Runs) (hkeep : l.DropsNoticed action) :
    l'.NoneLeft := by
  cases effect_of_step hstep with
  | poll hrest _ _ heq =>
    subst heq
    refine h.of_table rfl rfl (fun _ hplayer => .inl hplayer) fun fd _ => ?_
    rintro ⟨_, _, hevent, _⟩
    cases hrest.symm.trans hevent
  | gone hevent hgone heq =>
    subst heq
    refine h.of_table rfl rfl (fun _ hplayer => .inl hplayer) fun fd hmem => ?_
    rintro ⟨_, _, hsome, _, rfl⟩
    cases hevent.symm.trans hsome
    exact (hgone hmem).elim
  | @skip event _ types _ hevent _ _ heq =>
    subst heq
    refine h.of_table rfl rfl (fun _ hplayer => .inl hplayer) fun fd _ => ?_
    rintro ⟨_, _, hsome, hclosing, rfl⟩
    cases hevent.symm.trans hsome
    exact ⟨event, types, rfl, hclosing, rfl⟩
  | call hevent hhandler hcall hevent' => exact h.call hok hevent hhandler hcall hevent' hruns hkeep
  | @remove event hevent _ _ heq =>
    subst heq
    intro fd hmem
    change fd ∈ (l.epoll.removeDescriptor event.fd).monitoredFds.keys at hmem
    rw [(hok.registered.monitors.removeDescriptor event.fd).keys, Finset.mem_erase] at hmem
    obtain hinput | hplayer | ⟨_, _, hsome, _, rfl⟩ := h fd hmem.2
    · exact .inl hinput
    · exact .inr (.inl hplayer)
    · cases hevent.symm.trans hsome
      exact (hmem.1 rfl).elim
  | keep hevent hopen heq =>
    subst heq
    refine h.of_table rfl rfl (fun _ hplayer => .inl hplayer) fun fd _ => ?_
    rintro ⟨_, _, hsome, hclosing, _⟩
    cases hevent.symm.trans hsome
    exact (hopen hclosing).elim
  | thread hgoes hthread hevent => exact h.thread hok hnodup hgoes hthread hevent hruns hkeep

theorem noneLeft_init (h : system.init l) : l.NoneLeft := by
  obtain ⟨⟨gameInput, gameOutput, _, hstart, _⟩, _, _⟩ := h
  obtain ⟨epoll, hgame⟩ := Game.start_eq_ok hstart
  intro fd hmem
  change fd ∈ l.thread.game.epoll.monitoredFds.keys at hmem
  rw [(registered_start hstart).2, Finset.mem_singleton] at hmem
  refine .inl (hmem.trans ?_)
  rw [evfd, hgame]

theorem noneLeft_of_reachable
    (h : (system.restrict DropsNoticed).Reachable l)
    (hruns : l.thread.Runs) : l.NoneLeft := by
  refine h.invariant (P := fun l => l.thread.Runs → l.NoneLeft) ?_ ?_ hruns
  · exact fun l hinit _ => noneLeft_init (l := l) hinit
  · intro l action l' hreach ih hstep hruns'
    have hbefore := runs_of_step hstep.1 hruns'
    have hreach := hreach.of_restrict
    exact noneLeft_step (ih hbefore) (tableOk_of_reachable hreach hbefore)
      (GameThread.nodup_heldFds (reachable_thread hreach)) hstep.1 hruns' hstep.2

/-- In every run in which nobody is dropped but by an event that closes his
descriptor, the table is exact all along. -/
theorem tableExact_of_run {steps : List (GameLoop × LoopAction × GameLoop)}
    (h : system.Run steps l) (hkeep : ∀ s ∈ steps, s.1.DropsNoticed s.2.1) :
    l.TableExact ∧ ∀ s ∈ steps, s.1.TableExact := by
  refine h.forall_of_restrict hkeep fun l hreach => ?_
  have hexact : l.thread.Runs → l.TableExact := fun hruns =>
    tableExact_of_noneLeft (tableOk_of_reachable hreach.of_restrict hruns)
      (GameThread.nodup_heldFds (reachable_thread hreach.of_restrict))
      (noneLeft_of_reachable hreach hruns)
  exact ⟨fun hrest hpc => (hexact ⟨by simp [hpc], by simp [hpc]⟩).keys hrest hpc,
    fun client waiting hpc =>
      (hexact ⟨by simp [hpc], by simp [hpc]⟩).arrivals client waiting hpc⟩

/-- The turn of an event: its handlers, the first with what it reads, and what
they do when they have been called. -/
def turn (event : EpollEvent) (received : Option Str) (handler : List GameAction) :
    List LoopAction :=
  [.poll event, .handle received] ++ handler.map .thread ++ List.replicate 5 (.handle none) ++
    [.finish]

/-- Both clients of the input become players. -/
def joinTurn : List LoopAction :=
  turn ⟨EPOLLIN, 100⟩ none [.takeNewClient 1000 1000, .takeNewClient 1000 1000, .collected]

def loopStarted : Option GameLoop := GameThread.started.map ({ thread := · })

private theorem init_of_loopStarted (l : GameLoop) (h : loopStarted = some l) : system.init l := by
  obtain ⟨t, ht, rfl⟩ := Option.map_eq_some_iff.mp h
  obtain ⟨g, hstart, rfl⟩ := Option.map_eq_some_iff.mp ht
  obtain ⟨epoll, rfl⟩ := Game.start_eq_ok (toOption_eq_some.mp hstart)
  have hfds : ∀ client ∈ GameThread.twoClients.data,
      client.clientFd ≠ GameThread.twoClients.evfd := by decide
  exact ⟨GameThread.init_of_start (by decide) _ ht, rfl, hfds⟩

/-- What a player who hangs up has sent last cannot be parsed. -/
theorem tableExact_of_run_hangUp : ∃ steps l, system.Run steps l ∧ steps ≠ [] ∧
    10 ∉ l.thread.game.playerFds ∧ l.TableExact := by
  have hcheck : (loopStarted.bind (TransitionSystem.traceActions step
      (joinTurn ++ turn ⟨EPOLLIN ||| EPOLLRDHUP, 10⟩ (some "\n".toList) [.readDone]))).any
      (fun trace => decide (trace.1 ≠ [] ∧ 10 ∉ trace.2.thread.game.playerFds) &&
        trace.1.all fun s => decide (s.1.DropsNoticed s.2.1)) = true := by
    decide +kernel
  obtain ⟨steps, l, hrun, hstate⟩ :=
    TransitionSystem.exists_run_of_any (fun _ _ _ => id) init_of_loopStarted hcheck
  obtain ⟨hleft, hkeep⟩ := (Bool.and_eq_true ..).mp hstate
  obtain ⟨hne, hleft⟩ := of_decide_eq_true hleft
  refine ⟨steps, l, hrun, hne, hleft, (tableExact_of_run hrun fun s hs => ?_).1⟩
  exact of_decide_eq_true (List.all_eq_true.mp hkeep s hs)

/-- A player who stays connected sends what cannot be parsed. His entry is left,
and the next client with his number is not registered by `EPOLL_CTL_ADD`. -/
theorem not_tableExact_malformed :
    (∃ l, system.Reachable l ∧ l.event = none ∧ l.thread.pc = .waiting ∧
      10 ∈ l.epoll.monitoredFds.keys ∧ 10 ∉ insert l.evfd l.thread.game.playerFds.toFinset) ∧
    ∃ l client, system.Reachable l ∧ l.thread.pc = .collecting ∧
      l.thread.game.gameInput.data = [client] ∧ ¬ l.epoll.RegistersByAdd client.clientFd := by
  have hdrop : (loopStarted.bind (TransitionSystem.runActions step
      (joinTurn ++ turn ⟨EPOLLIN, 10⟩ (some "\n".toList) [.readDone]))).any
      (fun l => decide (l.event = none ∧ l.thread.pc = .waiting ∧
        10 ∈ l.epoll.monitoredFds.keys ∧
        10 ∉ insert l.evfd l.thread.game.playerFds.toFinset)) = true := by
    decide +kernel
  have hreuse : (loopStarted.bind (TransitionSystem.runActions step
      (joinTurn ++ turn ⟨EPOLLIN, 10⟩ (some "\n".toList) [.readDone] ++
        [.thread (.deliver { clientFd := 10 }), .poll ⟨EPOLLIN, 100⟩, .handle none]))).any
      (fun l => decide (l.thread.pc = .collecting ∧
        l.thread.game.gameInput.data = [{ clientFd := 10 }] ∧
        ¬ l.epoll.RegistersByAdd 10)) = true := by
    decide +kernel
  obtain ⟨l, hreachable, hstate⟩ := TransitionSystem.exists_reachable_of_any
    (fun _ _ _ => id) init_of_loopStarted hdrop
  obtain ⟨l', hreachable', hstate'⟩ := TransitionSystem.exists_reachable_of_any
    (fun _ _ _ => id) init_of_loopStarted hreuse
  obtain ⟨hpc, hdata, hmodify⟩ := of_decide_eq_true hstate'
  exact ⟨⟨l, hreachable, of_decide_eq_true hstate⟩, l', _, hreachable', hpc, hdata, hmodify⟩

end Run

end GameLoop

end UpsServer
