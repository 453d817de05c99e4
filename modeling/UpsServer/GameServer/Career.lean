import UpsServer.GameRoom.Service
import UpsServer.GameServer.Replies
import UpsServer.Protocol.ParserCache

open Relation

namespace UpsServer

namespace Career

/-- What can happen to a client at a time: in the idle room he is read and
answered, he is sent to a game, treated by it and returned. -/
inductive Step : Place × ProtocolClient → Place × ProtocolClient → Prop where
  | parsed {client : ProtocolClient} {data : Str} {messages : Option (List ProtocolData)}
      {parser : BufferedParser} (h : client.parser.parse data = .ok (messages, parser)) :
      Step (.clientsMap, client) (.clientsMap, { client with parser := parser })
  | replied {msg : ProtocolData} {client client' : ProtocolClient}
      (hfields : BufferedParser.AttributesOk msg.data) (h : IdleUsersRoom.Reply msg client client') :
      Step (.clientsMap, client) (.clientsMap, client')
  | sent {client : ProtocolClient} {roomId : Int} (hname : client.hasName = true) :
      Step (.clientsMap, client) (.gameInput roomId, client)
  | taken {client : ProtocolClient} {roomId : Int} {ref : PlayerRef} :
      Step (.gameInput roomId, client) (.player roomId ref, client)
  | treated {client client' : ProtocolClient} {roomId : Int} {ref : PlayerRef}
      (h : Game.Treats client client') : Step (.player roomId ref, client) (.player roomId ref, client')
  | returned {client : ProtocolClient} {roomId : Int} {ref : PlayerRef} :
      Step (.player roomId ref, client) (.gameOutput roomId, client)
  | welcomed {client : ProtocolClient} {roomId : Int} :
      Step (.gameOutput roomId, client)
        (.clientsMap, client.sendMsg (newProtocolMessage .CONNECTED_OK []))

/-- A client who has just been let in. -/
def connected (clientFd : Int) : ProtocolClient :=
  ({ clientFd := clientFd } : ProtocolClient).sendMsg (newProtocolMessage .CONNECTED_OK [])

/-- The lives of clients. -/
def system : TransitionSystem (Place × ProtocolClient) Unit where
  init c := ∃ clientFd, c = (.clientsMap, connected clientFd)
  step c _ c' := Step c c'

theorem reachable_of_steps {c c' : Place × ProtocolClient} (h : system.Reachable c)
    (hsteps : ReflTransGen Step c c') : system.Reachable c' := by
  induction hsteps with
  | refl => exact h
  | tail _ hstep ih => exact ih.step (a := ()) hstep

/-- A game treats a player while he stays where he is. -/
theorem steps_of_treats {client client' : ProtocolClient} (h : ReflTransGen Game.Treats client client')
    (roomId : Int) (ref : PlayerRef) :
    ReflTransGen Step (.player roomId ref, client) (.player roomId ref, client') :=
  h.lift (fun client => (Place.player roomId ref, client)) fun _ _ => .treated

/-- What one step of the server can do to a client: leave him alone, take a step of
his life, or treat him in the game he plays in or comes to. -/
inductive Turn : Place × ProtocolClient → Place × ProtocolClient → Prop where
  | stays {c : Place × ProtocolClient} : Turn c c
  | moves {c c' : Place × ProtocolClient} (h : Step c c') : Turn c c'
  | plays {client client' : ProtocolClient} {roomId : Int} {ref : PlayerRef}
      (h : ReflTransGen Game.Treats client client') :
      Turn (.player roomId ref, client) (.player roomId ref, client')
  | joins {client client' : ProtocolClient} {roomId : Int} {ref : PlayerRef}
      (h : ReflTransGen Game.Treats client client') :
      Turn (.gameInput roomId, client) (.player roomId ref, client')

theorem Turn.steps {c c' : Place × ProtocolClient} (h : Turn c c') : ReflTransGen Step c c' := by
  cases h with
  | stays => exact .refl
  | moves h => exact .single h
  | plays h => exact steps_of_treats h _ _
  | joins h => exact (steps_of_treats h _ _).head .taken

/-- The places between which a client can be sent a message of a method in one step.
He is greeted again only on his way back from the output of a game. -/
def Sends (place place' : Place) : MethodName → Prop
  | .CONNECTED_OK => place' = .clientsMap ∧ ∃ roomId, place = .gameOutput roomId
  | .REQ_ACCEPTED | .GAME_IDLE => place' = .clientsMap ∧ place = .clientsMap
  | .REQ_DENIED =>
    place' = .clientsMap ∧ place = .clientsMap ∨ ∃ roomId ref, place' = .player roomId ref
  | .GAME_STATE | .GAME_PING => ∃ roomId ref, place' = .player roomId ref
  | _ => False

private theorem sends_of_treats {client client' : ProtocolClient} (h : ReflTransGen Game.Treats client client')
    (place : Place) (roomId : Int) (ref : PlayerRef) :
    ∃ messages, client'.sent = client.sent ++ messages ∧
      ∀ msg ∈ messages, Sends place (.player roomId ref) msg.method := by
  induction h with
  | refl => exact ⟨[], (List.append_nil _).symm, fun _ hmsg => nomatch hmsg⟩
  | tail _ htreats ih =>
    obtain ⟨messages, hsent, hsends⟩ := ih
    have hone : ∀ msg, Sends place (.player roomId ref) msg.method →
        ∀ msg' ∈ messages ++ [msg], Sends place (.player roomId ref) msg'.method := by
      intro msg hmsg msg' hmsg'
      rcases List.mem_append.mp hmsg' with hold | hnew
      · exact hsends msg' hold
      · rw [List.mem_singleton.mp hnew]
        exact hmsg
    cases htreats with
    | parsed => exact ⟨messages, hsent, hsends⟩
    | denied =>
      exact ⟨_, (congrArg (· ++ _) hsent).trans (List.append_assoc ..),
        hone _ (.inr ⟨roomId, ref, rfl⟩)⟩
    | pinged | shown =>
      exact ⟨_, (congrArg (· ++ _) hsent).trans (List.append_assoc ..), hone _ ⟨roomId, ref, rfl⟩⟩

/-- What a client is sent in a step fits where he was and where he is. -/
theorem Turn.sends {place place' : Place} {client client' : ProtocolClient}
    (h : Turn (place, client) (place', client')) :
    ∃ messages, client'.sent = client.sent ++ messages ∧
      ∀ msg ∈ messages, Sends place place' msg.method := by
  have hnone : ∃ messages, client.sent = client.sent ++ messages ∧
      ∀ msg ∈ messages, Sends place place' msg.method :=
    ⟨[], (List.append_nil _).symm, fun _ hmsg => nomatch hmsg⟩
  have hone : ∀ msg : ProtocolData, Sends place place' msg.method →
      ∃ messages, client.sent ++ [msg] = client.sent ++ messages ∧
        ∀ msg ∈ messages, Sends place place' msg.method := fun msg hmsg =>
    ⟨[msg], rfl, fun msg' hmsg' => by rwa [List.mem_singleton.mp hmsg']⟩
  cases h with
  | stays => exact hnone
  | moves h =>
    cases h with
    | parsed | sent | taken | returned => exact hnone
    | replied _ hreply =>
      cases hreply with
      | denied => exact hone _ (.inl ⟨rfl, rfl⟩)
      | named | listed | waits => exact hone _ ⟨rfl, rfl⟩
    | treated htreats => exact sends_of_treats (.single htreats) _ _ _
    | welcomed => exact hone _ ⟨rfl, _, rfl⟩
  | plays h | joins h => exact sends_of_treats h _ _ _

/-- It is the same client: his messages are still sent, and a name he has stays. -/
structure Continues (client client' : ProtocolClient) : Prop where
  clientFd : client'.clientFd = client.clientFd
  sent : client.sent <+: client'.sent
  clientName : client.hasName = true → client'.clientName = client.clientName
  reqDeniedCnt : client.reqDeniedCnt ≤ client'.reqDeniedCnt

theorem Continues.refl (client : ProtocolClient) : Continues client client :=
  ⟨rfl, List.prefix_rfl, fun _ => rfl, le_rfl⟩

theorem Continues.trans {client client' client'' : ProtocolClient} (h : Continues client client')
    (h' : Continues client' client'') : Continues client client'' := by
  refine ⟨h'.clientFd.trans h.clientFd, h.sent.trans h'.sent, fun hname => ?_,
    h.reqDeniedCnt.trans h'.reqDeniedCnt⟩
  have hsame := h.clientName hname
  rw [← hsame]
  exact h'.clientName (by rw [ProtocolClient.hasName, hsame]; exact hname)

private theorem continues_sendMsg (client : ProtocolClient) (msg : ProtocolData) :
    Continues client (client.sendMsg msg) :=
  ⟨rfl, List.prefix_append _ _, fun _ => rfl, le_rfl⟩

private theorem continues_sendReqDeniedMsg (client : ProtocolClient) :
    Continues client client.sendReqDeniedMsg :=
  ⟨rfl, List.prefix_append _ _, fun _ => rfl, Nat.le_succ _⟩

theorem continues_of_step {c c' : Place × ProtocolClient} (h : Step c c') : Continues c.2 c'.2 := by
  cases h with
  | parsed => exact ⟨rfl, List.prefix_rfl, fun _ => rfl, le_rfl⟩
  | replied _ h =>
    cases h with
    | denied => exact continues_sendReqDeniedMsg _
    | named _ _ hunnamed =>
      refine ⟨rfl, List.prefix_append _ _, fun hname => ?_, le_rfl⟩
      rw [hunnamed] at hname
      cases hname
    | listed | waits => exact continues_sendMsg _ _
  | treated h =>
    cases h with
    | parsed => exact ⟨rfl, List.prefix_rfl, fun _ => rfl, le_rfl⟩
    | denied => exact continues_sendReqDeniedMsg _
    | pinged | shown => exact continues_sendMsg _ _
  | sent | taken | returned => exact .refl _
  | welcomed => exact continues_sendMsg _ _

theorem continues_of_steps {c c' : Place × ProtocolClient} (h : ReflTransGen Step c c') :
    Continues c.2 c'.2 := by
  induction h with
  | refl => exact .refl _
  | tail _ hstep ih => exact ih.trans (continues_of_step hstep)

/-- The parsers of all clients are in order. -/
theorem cacheOk_of_reachable {c : Place × ProtocolClient} (h : system.Reachable c) :
    c.2.parser.CacheOk := by
  have hparse : ∀ {client : ProtocolClient} {data : Str} {messages : Option (List ProtocolData)}
      {parser : BufferedParser}, client.parser.parse data = .ok (messages, parser) →
      client.parser.CacheOk → parser.CacheOk := by
    intro client data messages parser hparse hcache
    have hgives := BufferedParser.gives_parse hcache data
    rw [hparse] at hgives
    exact hgives.2
  refine h.invariant (P := fun c => c.2.parser.CacheOk) ?_ fun c _ c' _ hcache hstep => ?_
  · rintro c ⟨clientFd, rfl⟩
    exact BufferedParser.cacheOk_initial
  · cases hstep with
    | parsed h => exact hparse h hcache
    | replied _ h => cases h <;> exact hcache
    | treated h =>
      cases h with
      | parsed h => exact hparse h hcache
      | denied | pinged | shown => exact hcache
    | sent | taken | returned | welcomed => exact hcache

end Career

/-- How far a client has come, as he can tell from the messages he is sent. -/
structure Session where
  greeted : Bool := false
  named : Bool := false
  inGame : Bool := false
  denied : Nat := 0
deriving DecidableEq

namespace Session

/-- The next message of a session, or `none` when it cannot come now. -/
def next (session : Session) (msg : ProtocolData) : Option Session :=
  match msg.method with
  | .CONNECTED_OK =>
    -- the first message of all; whoever is greeted again has a name
    if session.greeted = true → session.named = true then
      some { session with greeted := true, inGame := false }
    else none
  | .REQ_DENIED =>
    if session.greeted = true ∧ session.denied < 5 then
      some { session with denied := session.denied + 1 }
    else none
  | .REQ_ACCEPTED =>
    -- the list of the rooms is for clients with a name, which is accepted once
    if session.greeted = true ∧ session.inGame = false ∧
        session.named = msg.hasField "room_list".toList then
      some { session with named := true }
    else none
  | .GAME_IDLE =>
    if session.named = true ∧ session.inGame = false then some session else none
  | .GAME_STATE | .GAME_PING =>
    if session.named = true then some { session with inGame := true } else none
  | _ => none

def run (session : Session) (transcript : List ProtocolData) : Option Session :=
  transcript.foldlM next session

private theorem run_append_singleton {session session' : Session} {transcript : List ProtocolData}
    (h : session.run transcript = some session') (msg : ProtocolData) :
    session.run (transcript ++ [msg]) = session'.next msg := by
  rw [run] at h
  simp [run, List.foldlM_append, h]

end Session

/-- The client is in a game, or about to come back from one. -/
def Place.isGame : Place → Bool
  | .player _ _ | .gameOutput _ => true
  | _ => false

namespace Career

/-- The messages a client has been sent make a session that fits where he is. -/
structure InSession (c : Place × ProtocolClient) (session : Session) : Prop where
  run : ({} : Session).run c.2.sent = some session
  greeted : session.greeted = true
  named : session.named = c.2.hasName
  denied : session.denied = c.2.reqDeniedCnt
  limit : c.2.reqDeniedCnt ≤ IdleUsersRoom.MAX_REQ_DENIED_CNT
  inGame : session.inGame = true → c.1.isGame = true
  hasName : c.1 ≠ .clientsMap → c.2.hasName = true

variable {c c' : Place × ProtocolClient} {session : Session}

/-- What is not sent to the client does not change his session. -/
theorem InSession.congr (h : InSession c session) (hsent : c'.2.sent = c.2.sent)
    (hname : c'.2.hasName = c.2.hasName) (hdenied : c'.2.reqDeniedCnt = c.2.reqDeniedCnt)
    (hinGame : c.1.isGame = true → c'.1.isGame = true)
    (houtside : c'.1 ≠ .clientsMap → c.2.hasName = true) : InSession c' session where
  run := hsent ▸ h.run
  greeted := h.greeted
  named := h.named.trans hname.symm
  denied := h.denied.trans hdenied.symm
  limit := hdenied ▸ h.limit
  inGame := fun hgame => hinGame (h.inGame hgame)
  hasName := fun hplace => hname.trans (houtside hplace)

theorem InSession.sendReqDeniedMsg {place : Place} {client : ProtocolClient}
    (h : InSession (place, client) session) (hcount : client.reqDeniedCnt < 5) :
    InSession (place, client.sendReqDeniedMsg) { session with denied := session.denied + 1 } where
  run := by
    rw [← h.denied] at hcount
    refine (Session.run_append_singleton h.run _).trans ?_
    rw [Session.next]
    exact if_pos ⟨h.greeted, hcount⟩
  greeted := h.greeted
  named := h.named
  denied := congrArg (· + 1) h.denied
  limit := hcount
  inGame := h.inGame
  hasName := h.hasName

theorem InSession.sendMsg {place : Place} {client : ProtocolClient} {msg : ProtocolData}
    (session' : Session) (h : InSession (place, client) session)
    (hnext : session.next msg = some session') (hgreeted : session'.greeted = true)
    (hnamed : session'.named = session.named) (hdenied : session'.denied = session.denied)
    (hinGame : session'.inGame = true → place.isGame = true) :
    InSession (place, client.sendMsg msg) session' where
  run := (Session.run_append_singleton h.run _).trans hnext
  greeted := hgreeted
  named := hnamed.trans h.named
  denied := hdenied.trans h.denied
  limit := h.limit
  inGame := hinGame
  hasName := h.hasName

private theorem inSession_treats {client client' : ProtocolClient} {roomId : Int} {ref : PlayerRef}
    (h : InSession (.player roomId ref, client) session) (htreats : Game.Treats client client') :
    ∃ session', InSession (.player roomId ref, client') session' := by
  have hnamed : session.named = true := h.named.trans (h.hasName nofun)
  cases htreats with
  | parsed => exact ⟨session, h.congr rfl rfl rfl id h.hasName⟩
  | denied hcount => exact ⟨_, h.sendReqDeniedMsg hcount⟩
  | pinged | shown =>
    refine ⟨_, h.sendMsg { session with inGame := true } ?_ h.greeted rfl rfl fun _ => rfl⟩
    exact if_pos hnamed

private theorem inSession_reply {msg : ProtocolData} {client client' : ProtocolClient}
    (h : InSession (.clientsMap, client) session) (hfields : BufferedParser.AttributesOk msg.data)
    (hreply : IdleUsersRoom.Reply msg client client') :
    ∃ session', InSession (.clientsMap, client') session' := by
  have hinGame : session.inGame = false := Bool.eq_false_iff.mpr fun hgame => nomatch h.inGame hgame
  cases hreply with
  | denied hcount => exact ⟨_, h.sendReqDeniedMsg hcount⟩
  | @named username _ husername hunnamed =>
    have hne : username ≠ [] := (hfields _ _ husername).2.2.1
    refine ⟨{ session with named := true }, ?_, h.greeted, ?_, h.denied, h.limit, h.inGame,
      fun hplace => (hplace rfl).elim⟩
    · refine (Session.run_append_singleton h.run _).trans (if_pos ⟨h.greeted, hinGame, ?_⟩)
      rw [h.named, hunnamed]
      rfl
    · simp [ProtocolClient.hasName, ProtocolClient.sendMsg, ProtocolClient.setClientName, hne]
  | @listed roomList _ hname =>
    refine ⟨_, h.sendMsg { session with named := true } ?_ h.greeted ?_ rfl h.inGame⟩
    · refine if_pos ⟨h.greeted, hinGame, ?_⟩
      simp [h.named, hname, ProtocolData.hasField]
    · exact (h.named.trans hname).symm
  | waits _ hname =>
    refine ⟨_, h.sendMsg session ?_ h.greeted rfl rfl h.inGame⟩
    exact if_pos ⟨h.named.trans hname, hinGame⟩

/-- The messages of every life make a session. -/
theorem exists_inSession (h : system.Reachable c) : ∃ session, InSession c session := by
  refine h.invariant (P := fun c => ∃ session, InSession c session) ?_ ?_
  · rintro c ⟨clientFd, rfl⟩
    exact ⟨{ greeted := true }, rfl, rfl, rfl, rfl, Nat.zero_le _, nofun,
      fun hplace => (hplace rfl).elim⟩
  · rintro c _ c' _ ⟨session, h⟩ hstep
    cases hstep with
    | parsed => exact ⟨session, h.congr rfl rfl rfl id h.hasName⟩
    | replied hfields hreply => exact inSession_reply h hfields hreply
    | sent hname => exact ⟨session, h.congr rfl rfl rfl nofun fun _ => hname⟩
    | taken => exact ⟨session, h.congr rfl rfl rfl nofun fun _ =>
        h.hasName nofun⟩
    | treated htreats => exact inSession_treats h htreats
    | returned => exact ⟨session, h.congr rfl rfl rfl (fun _ => rfl) fun _ =>
        h.hasName nofun⟩
    | @welcomed client roomId =>
      have hname : client.hasName = true := h.hasName nofun
      refine ⟨{ session with greeted := true, inGame := false }, ?_, rfl, h.named, h.denied, h.limit,
        nofun, fun _ => hname⟩
      exact (Session.run_append_singleton h.run _).trans (if_pos fun _ => h.named.trans hname)

end Career

end UpsServer
