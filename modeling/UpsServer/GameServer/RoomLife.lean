import UpsServer.GameServer.Representation

namespace UpsServer

/-- The life of the game of a room: nobody plays, two users play, or they have
played and the idle room has not been told yet. -/
inductive RoomLife where
  | idle
  | playing (usernameA usernameB : Str) (isPaused : Bool)
  | over (usernameA usernameB : Str) (isPaused : Bool)
deriving DecidableEq

inductive RoomEvent where
  | started (usernameA usernameB : Str)
  | paused
  | finished
  | ended
deriving DecidableEq

def RoomEvent.isStart : RoomEvent → Bool
  | .started _ _ => true
  | _ => false

namespace RoomLife

/-- A game is started for two users with names and finishes once, and its end is
reported once. It never goes on after it has been paused. -/
inductive Step : RoomLife → RoomEvent → RoomLife → Prop where
  | started {usernameA usernameB : Str} (hA : usernameA ≠ []) (hB : usernameB ≠ []) :
      Step .idle (.started usernameA usernameB) (.playing usernameA usernameB false)
  | paused {usernameA usernameB : Str} {isPaused : Bool} :
      Step (.playing usernameA usernameB isPaused) .paused (.playing usernameA usernameB true)
  | pausedLate {usernameA usernameB : Str} {isPaused : Bool} :
      Step (.over usernameA usernameB isPaused) .paused (.over usernameA usernameB true)
  | finished {usernameA usernameB : Str} {isPaused : Bool} :
      Step (.playing usernameA usernameB isPaused) .finished (.over usernameA usernameB isPaused)
  | ended {usernameA usernameB : Str} {isPaused : Bool} :
      Step (.over usernameA usernameB isPaused) .ended .idle

def system : TransitionSystem RoomLife RoomEvent where
  init life := life = .idle
  step := Step

/-- The room has a game thread. -/
def hasGame : RoomLife → Bool
  | .playing _ _ _ => true
  | _ => false

/-- The end of a game is still to be reported. -/
def isOver : RoomLife → Bool
  | .over _ _ _ => true
  | _ => false

/-- The games of a room take turns: all but the last have finished, and all that
have finished but the last have been reported. -/
structure TakesTurns (events : List RoomEvent) (life : RoomLife) : Prop where
  started : events.countP (·.isStart) = events.count .finished + life.hasGame.toNat
  finished : events.count .finished = events.count .ended + life.isOver.toNat

theorem takesTurns_step {events : List RoomEvent} {life life' : RoomLife} {event : RoomEvent}
    (h : TakesTurns events life) (hstep : Step life event life') :
    TakesTurns (events ++ [event]) life' := by
  obtain ⟨hstarted, hfinished⟩ := h
  constructor
  · rw [List.countP_append, List.count_append, hstarted]
    cases hstep <;> rfl
  · rw [List.count_append, List.count_append, hfinished]
    cases hstep <;> rfl

theorem takesTurns_of_run {steps : List (RoomLife × RoomEvent × RoomLife)} {life : RoomLife}
    (h : system.Run steps life) : TakesTurns (steps.map (·.2.1)) life := by
  induction h with
  | init h =>
    cases h
    exact ⟨rfl, rfl⟩
  | step _ hstep ih =>
    rw [List.map_append]
    exact takesTurns_step ih hstep

/-- The life of a room by what is recorded of it. -/
def ofBooks (hasGame : Bool) (books : GameState × Str × Str) : RoomLife :=
  if books.1 = .IDLE then .idle
  else if hasGame then .playing books.2.1 books.2.2 (books.1 == .PAUSED)
  else .over books.2.1 books.2.2 (books.1 == .PAUSED)

private theorem ofBooks_idle (hasGame : Bool) {books : GameState × Str × Str} (hidle : books.1 = .IDLE) :
    ofBooks hasGame books = .idle := by
  rw [ofBooks, if_pos hidle]

private theorem ofBooks_playing {books : GameState × Str × Str} (hbusy : books.1 ≠ .IDLE) :
    ofBooks true books = .playing books.2.1 books.2.2 (books.1 == .PAUSED) := by
  rw [ofBooks, if_neg hbusy, if_pos rfl]

private theorem ofBooks_over {books : GameState × Str × Str} (hbusy : books.1 ≠ .IDLE) :
    ofBooks false books = .over books.2.1 books.2.2 (books.1 == .PAUSED) := by
  rw [ofBooks, if_neg hbusy, if_neg Bool.false_ne_true]

private theorem step_paused {hasGame : Bool} {books : GameState × Str × Str} (hbusy : books.1 ≠ .IDLE) :
    Step (ofBooks hasGame books) .paused (ofBooks hasGame (.PAUSED, books.2)) := by
  have hpaused : ((GameState.PAUSED, books.2) : GameState × Str × Str).1 ≠ .IDLE :=
    GameState.noConfusion
  cases hasGame with
  | true =>
    rw [ofBooks_playing hbusy, ofBooks_playing hpaused]
    exact .paused
  | false =>
    rw [ofBooks_over hbusy, ofBooks_over hpaused]
    exact .pausedLate

end RoomLife

/-- What the idle room learns from a change. -/
def GameState.reported : GameState → Option RoomEvent
  | .IDLE => some .ended
  | .RUNNING => none
  | .PAUSED => some .paused

/-- The action tells of no room. -/
def ServerAction.isQuiet : ServerAction → Bool
  | .message | .applyStateChange | .game _ _ => false
  | _ => true

namespace Server

open IdleUsersRoom

variable {s s' : Server} {action : ServerAction} {roomId : Int}

/-- The life of a room on the server. -/
def roomLife (s : Server) (roomId : Int) : RoomLife :=
  ((s.idle.gameRooms.get? roomId).map GameRoom.books).elim .idle
    (RoomLife.ofBooks (s.games.get? roomId).isSome)

def nameOf (s : Server) (clientFd : Int) : Str :=
  ((s.idle.clientsMap.get? clientFd).map (·.clientName)).getD []

/-- What the step of a run is in the life of a room: a message has started a game, a
change is applied, or the thread of the game is gone. -/
def roomEvent (roomId : Int) : Server × ServerAction × Server → Option RoomEvent
  | (s, .message, s') =>
    match s'.pc with
    | .sending id [client1, client2] _ _ =>
      if id = roomId then some (.started (s.nameOf client1) (s.nameOf client2)) else none
    | _ => none
  | (s, .applyStateChange, _) =>
    match s.pc with
    | .changing id =>
      if id = roomId then
        (s.idle.gameRooms.get? roomId).bind fun room =>
          room.gameOutput.data.head?.bind (·.newState.reported)
      else none
    | _ => none
  | (_, .game id _, s') => if id = roomId ∧ s'.games.get? roomId = none then some .finished else none
  | _ => none

private theorem roomLife_congr
    (hbooks : (s'.idle.gameRooms.get? roomId).map GameRoom.books =
      (s.idle.gameRooms.get? roomId).map GameRoom.books)
    (hgames : (s'.games.get? roomId).isSome = (s.games.get? roomId).isSome) :
    s'.roomLife roomId = s.roomLife roomId := by
  rw [roomLife, hbooks, hgames, roomLife]

private theorem roomLife_of_modify {id : Int} {f : GameRoom → GameRoom}
    (hrooms : s'.idle.gameRooms = s.idle.gameRooms.modify id f)
    (hf : ∀ room, s.idle.gameRooms.get? id = some room → (f room).books = room.books)
    (hgames : (s'.games.get? roomId).isSome = (s.games.get? roomId).isSome) :
    s'.roomLife roomId = s.roomLife roomId := by
  refine roomLife_congr ?_ hgames
  rw [hrooms]
  exact map_get?_modify GameRoom.books s.idle.gameRooms hf roomId

private theorem roomLife_of_room {room : GameRoom} (hroom : s.idle.gameRooms.get? roomId = some room) :
    s.roomLife roomId = RoomLife.ofBooks (s.games.get? roomId).isSome room.books := by
  rw [roomLife, hroom, Option.map_some, Option.elim]

/-- The idle thread has changed what is recorded of a room. -/
theorem roomLife_withIdle {idle : IdleUsersRoom} {pc : IdlePc} {books : GameState × Str × Str}
    (hbooks : (idle.gameRooms.get? roomId).map GameRoom.books = some books) :
    (s.withIdle pc idle).roomLife roomId = RoomLife.ofBooks (s.games.get? roomId).isSome books := by
  rw [roomLife, withIdle, hbooks, Option.elim]

private theorem roomLife_quiet (hstored : s.idle.StoredUnderOwnFd) (hstep : s.step action = some s')
    (hquiet : action.isQuiet = true) : s'.roomLife roomId = s.roomLife roomId := by
  cases roomEffect_of_step hstored hstep with
  | same _ hrooms hgames => exact roomLife_congr (by rw [hrooms]) (by rw [hgames])
  | sendClient _ _ _ hrooms hgames | readOutput hrooms hgames =>
    exact roomLife_of_modify hrooms (fun _ _ => rfl) (by rw [hgames])
  | startGame | popOutput | game => cases hquiet

/-- A room whose game starts has had none. -/
theorem roomLife_message (hreach : system.Reachable s) (hstep : s.step .message = some s') :
    (roomEvent roomId (s, .message, s')).elim (s'.roomLife roomId = s.roomLife roomId)
      (RoomLife.Step (s.roomLife roomId) · (s'.roomLife roomId)) := by
  have hinvariant := invariant_of_reachable hreach
  have htables := tables_of_reachable hreach
  obtain ⟨clientFd, msg, messages, client, ⟨idle, newGame⟩, hpc, hclient, hanswer, hafter⟩ :=
    answered_of_message hinvariant.stored hstep
  cases newGame with
  | none =>
    cases hafter
    exact roomLife_congr (by rw [withIdle, (admits_answer hanswer).gameRooms]) rfl
  | some newGame =>
    cases hanswer with
    | @starts gameId client2 _ _ hname _ hidle hwaiting hnew =>
      obtain ⟨room, hroom, hstate⟩ := hidle
      obtain ⟨player2, hplayer2, hname2⟩ :=
        htables.waiting.named client2 gameId (waitingClient_eq_some hwaiting)
      have hcount := htables.rooms.users gameId room hroom
      rw [if_pos hstate] at hcount
      obtain ⟨_, g, _, _, rfl⟩ := startGame_eq_some hnew hafter
      obtain ⟨_, _, rfl⟩ :=
        newGameThread_of_idle hroom hcount hclient (clientName_of_hasName hname) hplayer2 hnew
      simp only [roomEvent, withIdle]
      split
      · rename_i hid
        subst hid
        have hbefore : s.roomLife gameId = .idle := by
          rw [roomLife_of_room hroom]
          exact RoomLife.ofBooks_idle _ hstate
        rw [hbefore, roomLife_of_room (UnorderedMap.get?_modify_of_get? hroom _),
          UnorderedMap.get?_set_self, Option.isSome_some, RoomLife.ofBooks_playing GameState.noConfusion,
          nameOf, hclient, nameOf, hplayer2]
        exact .started (clientName_of_hasName hname) (clientName_of_hasName hname2)
      · rename_i hid
        refine roomLife_congr (congrArg _ (UnorderedMap.get?_modify_of_ne _ _ (Ne.symm hid))) ?_
        exact congrArg _ (UnorderedMap.get?_set_of_ne _ _ (Ne.symm hid))

/-- A change that is applied was reported by the game of the room. -/
theorem roomLife_applyStateChange (hinvariant : s.Invariant) (hstep : s.step .applyStateChange = some s') :
    (roomEvent roomId (s, .applyStateChange, s')).elim (s'.roomLife roomId = s.roomLife roomId)
      (RoomLife.Step (s.roomLife roomId) · (s'.roomLife roomId)) := by
  obtain ⟨id, room, change, data, idle, hpc, hroom, hdata, happly, rfl⟩ :=
    applyStateChange_of_step hstep
  have hbusy : room.gameState ≠ .IDLE := by
    intro hidle
    rw [((hinvariant.phase id room hroom).of_idle hidle).2] at hdata
    cases hdata
  have hother : id ≠ roomId → (s.withIdle (.changing id) idle).roomLife roomId = s.roomLife roomId := by
    intro hid
    obtain ⟨f, hrooms, _⟩ := gameRooms_applyStateChange happly
    refine roomLife_congr ?_ rfl
    rw [withIdle, hrooms, UnorderedMap.get?_modify_of_ne _ _ (Ne.symm hid), modifyRoom,
      UnorderedMap.get?_modify_of_ne _ _ (Ne.symm hid)]
  simp only [roomEvent, hpc]
  split
  · rename_i hid
    subst hid
    rw [hroom, Option.bind_some, hdata, List.head?_cons, Option.bind_some, roomLife_of_room hroom]
    rcases hinvariant.applied hroom hdata happly with
      ⟨hchange, hidle, _⟩ | ⟨hchange, hnone, _, back, hadmits, hidle⟩
    · have hbooks : (idle.gameRooms.get? id).map GameRoom.books = some (.PAUSED, room.books.2) := by
        rw [hidle, setGameAsPaused, modifyRoom, modifyRoom, UnorderedMap.modify_modify,
          UnorderedMap.get?_modify_of_get? hroom]
        rfl
      rw [hchange, roomLife_withIdle hbooks]
      exact RoomLife.step_paused hbusy
    · have hbooks : (idle.gameRooms.get? id).map GameRoom.books = some (.IDLE, [], []) := by
        rw [hidle, gameRooms_setGameAsIdle hadmits, UnorderedMap.get?_modify_of_get? hroom]
        rfl
      rw [hchange, roomLife_withIdle hbooks, RoomLife.ofBooks_idle _ rfl, hnone, Option.isSome_none,
        @RoomLife.ofBooks_over room.books hbusy]
      exact .ended
  · rename_i hid
    exact hother hid

private theorem roomLife_game (hinvariant : s.Invariant) {id : Int} {action : GameAction}
    (hstep : s.step (.game id action) = some s') :
    (roomEvent roomId (s, .game id action, s')).elim (s'.roomLife roomId = s.roomLife roomId)
      (RoomLife.Step (s.roomLife roomId) · (s'.roomLife roomId)) := by
  cases roomEffect_of_step hinvariant.stored hstep with
  | same hidle => cases hidle
  | @game _ _ room stored t' _ hroom hstored _ hrooms hgames =>
    simp only [roomEvent]
    split
    · rename_i hgone
      obtain ⟨rfl, hgone⟩ := hgone
      have hbusy : room.gameState ≠ .IDLE := by
        intro hidle
        rw [((hinvariant.phase id room hroom).of_idle hidle).1] at hstored
        cases hstored
      have hroom' : s'.idle.gameRooms.get? id = some (room.withQueuesOf t') := by
        rw [hrooms, UnorderedMap.get?_modify_of_get? hroom]
      rw [roomLife_of_room hroom, roomLife_of_room hroom', hgone, hstored]
      rw [Option.isSome_some, Option.isSome_none, RoomLife.ofBooks_playing hbusy]
      rw [@RoomLife.ofBooks_over (room.withQueuesOf t').books hbusy]
      exact .finished
    · rename_i hlives
      refine roomLife_of_modify hrooms (fun _ _ => rfl) ?_
      by_cases hid : id = roomId
      · subst hid
        rw [hstored, Option.isSome_some, Option.isSome_iff_ne_none]
        exact fun hnone => hlives ⟨rfl, hnone⟩
      · rw [games_of_ne hgames (Ne.symm hid)]

theorem roomLife_step (hreach : system.Reachable s) (hstep : s.step action = some s') :
    (roomEvent roomId (s, action, s')).elim (s'.roomLife roomId = s.roomLife roomId)
      (RoomLife.Step (s.roomLife roomId) · (s'.roomLife roomId)) := by
  have hinvariant := invariant_of_reachable hreach
  cases action with
  | message => exact roomLife_message hreach hstep
  | applyStateChange => exact roomLife_applyStateChange hinvariant hstep
  | game => exact roomLife_game hinvariant hstep
  | _ => exact roomLife_quiet hinvariant.stored hstep rfl

theorem roomLife_init (h : system.init s) (roomId : Int) : s.roomLife roomId = .idle := by
  cases hroom : s.idle.gameRooms.get? roomId with
  | none => rw [roomLife, hroom, Option.map_none, Option.elim]
  | some room =>
    obtain ⟨_, inputEvfd, outputEvfd, roomCount, _, _, hstart, _, _, _⟩ := h
    obtain ⟨_, _, hidle⟩ := bind_eq_ok.mp hstart
    rw [roomLife_of_room hroom]
    apply RoomLife.ofBooks_idle
    rw [← Except.ok.inj hidle] at hroom
    exact (get?_createRooms hroom).1

/-- Along every run the life of every room is that of a single room: its games take
turns, each is started for two users with names, is over once and is reported once. -/
theorem livesOn_of_run {steps : List (Server × ServerAction × Server)} (h : system.Run steps s)
    (roomId : Int) : ∃ events, RoomLife.system.Run events (s.roomLife roomId) ∧
      events.map (·.2.1) = steps.filterMap (roomEvent roomId) ∧
      RoomLife.TakesTurns (steps.filterMap (roomEvent roomId)) (s.roomLife roomId) := by
  obtain ⟨events, hrun, hevents⟩ :=
    h.events (U := RoomLife.system) (fun s h => roomLife_init h roomId)
      fun s a s' hreach hstep => roomLife_step hreach hstep
  refine ⟨events, hrun, hevents, ?_⟩
  rw [← hevents]
  exact RoomLife.takesTurns_of_run hrun

/-- Both players of the game of two come and go one after the other. -/
theorem livesOn_of_run_played : ∃ steps s, system.Run steps s ∧
    steps.filterMap (roomEvent 1) =
      [.started "B".toList "A".toList, .paused, .finished, .ended] ∧
    ∃ events, RoomLife.system.Run events (s.roomLife 1) ∧
      events.map (·.2.1) = steps.filterMap (roomEvent 1) := by
  have hcheck : ((oneRoom.bind (TransitionSystem.traceActions step playGameOfTwo)).any fun trace =>
      decide (trace.1.filterMap (roomEvent 1) =
        [.started "B".toList "A".toList, .paused, .finished, .ended])) = true := by
    decide +kernel
  obtain ⟨steps, s, hrun, hevents⟩ :=
    TransitionSystem.exists_run_of_any (fun _ _ _ => id) (fun _ => init_of_oneRoom) hcheck
  obtain ⟨events, hlives, hnames, _⟩ := livesOn_of_run hrun 1
  exact ⟨steps, s, hrun, of_decide_eq_true hevents, events, hlives, hnames⟩

end Server

end UpsServer
