import UpsServer.GameRoom.Invariants
import UpsServer.GameRoom.Resume

open Outcome

namespace UpsServer

/-- A call of `_updateClientLastSeen` with a reading of the clock. -/
structure LastSeenCall where
  game : Game
  clientFd : Int
  now : UInt64

namespace LastSeenCall

def run (call : LastSeenCall) : Exec Game Game :=
  call.game.updateClientLastSeen call.clientFd call.now

/-- The player is online when the call begins and not when it returns. -/
def Disconnects (call : LastSeenCall) (ref : PlayerRef) : Prop :=
  (call.game.player ref).client ≠ none ∧
    ∃ g', call.run = .ok g' ∧ (g'.player ref).client = none

/-- Who is disconnected has been silent for too long, as integers. -/
def InTime (call : LastSeenCall) : Prop :=
  ∀ ref, call.Disconnects ref →
    (call.game.player ref).lastSeen.toNat + Player.MAX_INACTIVITY_MS.toNat < call.now.toNat

/-- The clock reads less than it did when the other player was seen, and not so
much less that the difference comes out small. -/
def StepsBack (call : LastSeenCall) : Prop :=
  ∃ ref : PlayerRef, call.game.findPlayer call.clientFd = some ref ∧
    (call.game.player ref.other).client ≠ none ∧ (call.game.player ref.other).lastSeen ≠ 0 ∧
    call.now < (call.game.player ref.other).lastSeen ∧
    (call.game.player ref.other).lastSeen.toNat + Player.MAX_INACTIVITY_MS.toNat <
      call.now.toNat + UInt64.size

instance (call : LastSeenCall) (ref : PlayerRef) : Decidable (call.Disconnects ref) :=
  decidable_of_iff ((call.game.player ref).client ≠ none ∧
    (call.run.toOption.any fun g' => decide ((g'.player ref).client = none)) = true) (by
      simp only [Disconnects, Option.any_eq_true, toOption_eq_some, decide_eq_true_eq])

instance (call : LastSeenCall) : Decidable call.StepsBack :=
  inferInstanceAs (Decidable (∃ _, _))

end LastSeenCall

/-- The difference of two readings exceeds a bound as integers, or because it
wraps. -/
theorem lt_sub_iff (now lastSeen bound : UInt64) :
    bound < now - lastSeen ↔ lastSeen.toNat + bound.toNat < now.toNat ∨
      now < lastSeen ∧ lastSeen.toNat + bound.toNat < now.toNat + UInt64.size := by
  have hnow := now.toNat_lt
  have hlast := lastSeen.toNat_lt
  have hbound := bound.toNat_lt
  simp only [UInt64.lt_iff_toNat_lt, UInt64.toNat_sub, UInt64.size]
  omega

namespace LastSeenCall

open Game

variable {call : LastSeenCall} {ref : PlayerRef}

/-- The player who is seen stays when the other one is dropped. -/
theorem client_ne_none_of_dropOther {g : Game} {other : ProtocolClient} (hnodup : g.heldFds.Nodup)
    (honline : (g.player ref).client ≠ none) (hother : (g.player ref.other).client = some other)
    (now : UInt64) :
    (((g.see ref now).onClientDisconnect other.clientFd).player ref).client ≠ none := by
  have hnodup' : (g.see ref now).heldFds.Nodup :=
    nodup_of_kept hnodup (quiet_setLastSeen g ref now).toKept
  have hother' : ((g.see ref now).player ref.other).client = some other := by
    rw [client_see, hother]
  have honline' : (g.see ref now).Online := by
    intro ref'
    rw [client_see]
    obtain rfl | rfl := PlayerRef.eq_or_eq_other ref' ref
    · exact Option.ne_none_iff_exists'.mp honline
    · exact ⟨other, hother⟩
  obtain ⟨_, _, msgs, hmsgs⟩ := (paused_onClientDisconnect hnodup' honline'
    (findPlayer_of_client hnodup' hother')).same
  rw [PlayerRef.other_other, client_see] at hmsgs
  rwa [hmsgs, Ne, Option.map_eq_none_iff]

/-- A call disconnects a stale player, and nobody else. -/
theorem disconnects_iff (hnodup : call.game.heldFds.Nodup)
    (hfind : call.game.findPlayer call.clientFd = some ref) (ref' : PlayerRef) :
    call.Disconnects ref' ↔ ref' = ref.other ∧ (call.game.player ref').client ≠ none ∧
      call.game.Stale ref' call.now := by
  have hrun := updateClientLastSeen_of_findPlayer hfind call.now
  constructor
  · rintro ⟨honline, g', hg', hnone⟩
    cases hrun.symm.trans hg'
    by_cases hstale : call.game.Stale ref.other call.now
    · rw [if_pos hstale] at hnone
      cases hother : (call.game.player ref.other).client with
      | none =>
        rw [hother, Option.elim_none, client_see] at hnone
        exact (honline hnone).elim
      | some other =>
        rw [hother, Option.elim_some] at hnone
        by_cases hself : ref' = ref.other
        · subst hself
          exact ⟨rfl, honline, hstale⟩
        · obtain rfl := (PlayerRef.eq_or_eq_other ref' ref).resolve_right hself
          exact (client_ne_none_of_dropOther hnodup honline hother call.now hnone).elim
    · rw [if_neg hstale, client_see] at hnone
      exact (honline hnone).elim
  · rintro ⟨rfl, honline, hstale⟩
    obtain ⟨other, hother⟩ := Option.ne_none_iff_exists'.mp honline
    refine ⟨honline, _, hrun, ?_⟩
    rw [if_pos hstale, hother, Option.elim_some]
    exact client_onClientDisconnect (by rw [client_see, hother])

/-- A call is right exactly when the clock has not been set back behind the time
when the other player was seen. -/
theorem inTime_iff (hnodup : call.game.heldFds.Nodup) : call.InTime ↔ ¬ call.StepsBack := by
  constructor
  · rintro hintime ⟨ref, hfind, honline, hseen, hback, hwraps⟩
    have hdrops : call.Disconnects ref.other := (disconnects_iff hnodup hfind ref.other).mpr
      ⟨rfl, honline, hseen, (lt_sub_iff _ _ _).mpr (.inr ⟨hback, hwraps⟩)⟩
    have hlate := hintime ref.other hdrops
    have hearly := UInt64.lt_iff_toNat_lt.mp hback
    omega
  · intro hkept ref' hdrops
    have ⟨_, g', hrun, _⟩ := hdrops
    obtain ⟨ref, hfind, _⟩ := bind_eq_ok.mp hrun
    rw [derefClient_eq_ok] at hfind
    obtain ⟨rfl, honline, hseen, hsilent⟩ := (disconnects_iff hnodup hfind ref').mp hdrops
    refine ((lt_sub_iff _ _ _).mp hsilent).resolve_right fun hback => ?_
    exact hkept ⟨ref, hfind, honline, hseen, hback⟩

end LastSeenCall

namespace Game

/-- The call at the end of `_processClientMessage`. -/
def messageCall (g : Game) (msg : ProtocolData) (clientFd : Int) (now : UInt64) :
    Exec Game LastSeenCall := do
  let g ← g.answerMessage msg clientFd
  pure ⟨g, clientFd, now⟩

/-- The call after a player has been shown the game. -/
def greetCall (g : Game) (ref : PlayerRef) (gameData : UnorderedMap Str Str) (now : UInt64) :
    Exec Game LastSeenCall := do
  let g ← g.sendMsg ref ⟨.GAME_STATE, gameData⟩
  let player ← g.clientOf ref
  pure ⟨g, player.clientFd, now⟩

/-- The handler of a message runs this call, and no other. -/
theorem processClientMessage_eq_call (g : Game) (msg : ProtocolData) (clientFd : Int) (now : UInt64) :
    g.processClientMessage msg clientFd now = g.messageCall msg clientFd now >>= LastSeenCall.run := by
  rw [messageCall, bind_assoc]
  rfl

/-- The players are shown the game one after the other, each followed by his call. -/
theorem greetPlayers_eq_calls (g : Game) (now1 now2 : UInt64) :
    g.greetPlayers now1 now2 =
      g.greetCall .player1 g.serializeGameData now1 >>= LastSeenCall.run >>= fun g' =>
        g'.greetCall .player2 g.serializeGameData now2 >>= LastSeenCall.run := by
  simp only [greetCall, bind_assoc]
  rfl

/-- The calls of `greetPlayers`. -/
def greetCalls (g : Game) (now1 now2 : UInt64) : List LastSeenCall :=
  let first := g.greetCall .player1 g.serializeGameData now1
  let second := first >>= LastSeenCall.run >>= fun g' =>
    g'.greetCall .player2 g.serializeGameData now2
  first.toOption.toList ++ second.toOption.toList

/-- The calls of a turn of the loop of `_onNewClientConnect`. -/
def newClientCalls (g : Game) (now1 now2 : UInt64) : List LastSeenCall :=
  match g.freePlayer, g.gameInput.pop with
  | some ref, some (client, gameInput) =>
    match (g.arrive ref client gameInput).registerClient client.clientFd with
    | .ok g => if g.bothPlayersOnline then greetCalls { g with isPaused := false } now1 now2 else []
    | .error _ => []
  | _, _ => []

end Game

namespace GameThread

open Game

/-- The calls of `_updateClientLastSeen` in a step. They are those of the handlers by
`processClientMessage_eq_call` and `greetPlayers_eq_calls`. -/
def lastSeenCalls (t : GameThread) : GameAction → List LastSeenCall
  | .message now =>
    match t.pc with
    | .reading clientFd (msg :: _) => (t.game.messageCall msg clientFd now).toOption.toList
    | _ => []
  | .takeNewClient now1 now2 => t.game.newClientCalls now1 now2
  | _ => []

private theorem quiet_greetCall {g : Game} {ref : PlayerRef} {gameData : UnorderedMap Str Str} {now : UInt64}
    {call : LastSeenCall} (h : g.greetCall ref gameData now = .ok call) : Quiet g call.game := by
  obtain ⟨g₁, hsend, h⟩ := bind_eq_ok.mp h
  obtain ⟨player, _, h⟩ := bind_eq_ok.mp h
  cases h
  exact (quiet_sendMsg g ref _).of_ok hsend

private theorem quiet_greetCalls {g : Game} {now1 now2 : UInt64} {call : LastSeenCall}
    (h : call ∈ g.greetCalls now1 now2) : Quiet g call.game := by
  simp only [greetCalls, List.mem_append, Option.mem_toList, toOption_eq_some] at h
  rcases h with hfirst | hsecond
  · exact quiet_greetCall hfirst
  · obtain ⟨g₁, hrun, hsecond⟩ := bind_eq_ok.mp hsecond
    obtain ⟨first, hfirst, hrun⟩ := bind_eq_ok.mp hrun
    have hseen := (quiet_updateClientLastSeen first.game first.clientFd first.now).of_ok hrun
    exact ((quiet_greetCall hfirst).trans hseen).trans (quiet_greetCall hsecond)

private theorem settled_newClientCalls {g : Game} {now1 now2 : UInt64} {call : LastSeenCall}
    (h : call ∈ g.newClientCalls now1 now2) : Settled g call.game := by
  unfold newClientCalls at h
  split at h
  · rename_i ref client gameInput hfree hpop
    split at h
    · rename_i g₁ hregister
      split at h
      · have hsettled := ((settled_registerClient _ client.clientFd).of_ok hregister).1
        exact (((settled_arrive hfree hpop).trans hsettled).trans (settled_unpause g₁)).trans
          (quiet_greetCalls h).toKept.settled
      · cases h
    · cases h
  · cases h

/-- A call of a step sees no socket that was not there before the step. -/
theorem settled_lastSeenCalls {t : GameThread} {action : GameAction} {call : LastSeenCall}
    (h : call ∈ t.lastSeenCalls action) : Settled t.game call.game := by
  unfold lastSeenCalls at h
  split at h
  · split at h
    · rw [Option.mem_toList, toOption_eq_some] at h
      obtain ⟨g, hanswer, h⟩ := bind_eq_ok.mp h
      cases h
      exact ((kept_answerMessage _ _ _).of_ok hanswer).settled
    · cases h
  · exact settled_newClientCalls h
  · cases h

/-- In a run nobody is disconnected for inactivity too early exactly when at no call
the clock reads less than it did when the other player was seen. -/
theorem inTime_iff_of_run {steps : List (GameThread × GameAction × GameThread)} {t : GameThread}
    (hrun : system.Run steps t) :
    (∀ s ∈ steps, ∀ call ∈ s.1.lastSeenCalls s.2.1, call.InTime) ↔
      ∀ s ∈ steps, ∀ call ∈ s.1.lastSeenCalls s.2.1, ¬ call.StepsBack := by
  have hcall : ∀ s ∈ steps, ∀ call ∈ s.1.lastSeenCalls s.2.1,
      (call.InTime ↔ ¬ call.StepsBack) := by
    intro s hs call hmem
    have hnodup := nodup_heldFds (hrun.forall_reachable s hs).1
    exact LastSeenCall.inTime_iff
      (Multiset.nodup_of_le (settled_lastSeenCalls hmem).heldFds_le hnodup)
  constructor
  · exact fun h s hs call hmem => (hcall s hs call hmem).mp (h s hs call hmem)
  · exact fun h s hs call hmem => (hcall s hs call hmem).mpr (h s hs call hmem)

/-- Both clients join at the reading 1000, and then the first one pings. -/
def pingAt (now : UInt64) : List GameAction :=
  joinBoth ++ [.receive 10 (some "GAME_PING\n\r\n\r\n".toList), .message now, .readDone]

theorem inTime_iff_of_run_later : ∃ steps t, system.Run steps t ∧ steps.length = 7 ∧
    ∀ s ∈ steps, ∀ call ∈ s.1.lastSeenCalls s.2.1, call.InTime := by
  have hcheck : ((started.bind (TransitionSystem.traceActions step (pingAt 2000))).any fun trace =>
      decide (trace.1.length = 7) && trace.1.all fun s =>
        (s.1.lastSeenCalls s.2.1).all fun call => decide (¬ call.StepsBack)) = true := by
    decide +kernel
  obtain ⟨steps, t, hrun, hstate⟩ :=
    TransitionSystem.exists_run_of_any (fun _ _ _ => id) (init_of_start (by decide)) hcheck
  simp only [Bool.and_eq_true, decide_eq_true_eq, List.all_eq_true] at hstate
  exact ⟨steps, t, hrun, hstate.1, (inTime_iff_of_run hrun).mpr hstate.2⟩

/-- The clock is set back by a millisecond, and the other player is disconnected. -/
theorem not_inTime_setBack : ∃ steps t, system.Run steps t ∧ ∃ s ∈ steps,
    ∃ call ∈ s.1.lastSeenCalls s.2.1, call.now = 999 ∧
      (call.game.player .player2).lastSeen = 1000 ∧ call.Disconnects .player2 ∧ ¬ call.InTime := by
  have hcheck : ((started.bind (TransitionSystem.traceActions step (pingAt 999))).any fun trace =>
      trace.1.any fun s => (s.1.lastSeenCalls s.2.1).any fun call => decide (call.now = 999 ∧
        (call.game.player .player2).lastSeen = 1000 ∧ call.Disconnects .player2)) = true := by
    decide +kernel
  obtain ⟨steps, t, hrun, hstate⟩ :=
    TransitionSystem.exists_run_of_any (fun _ _ _ => id) (init_of_start (by decide)) hcheck
  simp only [List.any_eq_true, decide_eq_true_eq] at hstate
  obtain ⟨s, hs, call, hcall, hnow, hlast, hdrops⟩ := hstate
  refine ⟨steps, t, hrun, s, hs, call, hcall, hnow, hlast, hdrops, fun hintime => ?_⟩
  have hlate := hintime .player2 hdrops
  rw [hnow, hlast] at hlate
  revert hlate
  decide

end GameThread

end UpsServer
