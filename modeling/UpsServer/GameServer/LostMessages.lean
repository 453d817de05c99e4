import UpsServer.GameRoom.Drop
import UpsServer.GameServer.Representation
import UpsServer.Protocol.ChunkingIrrelevant

open Split

namespace UpsServer

namespace BufferedParser

/-- The messages the caller gets from consecutive chunks, until one of them
makes `parse` throw. -/
def delivered (p : BufferedParser) : List Str → List ProtocolData
  | [] => []
  | chunk :: chunks =>
    match p.parse chunk with
    | .ok (messages, p) => messages.getD [] ++ delivered p chunks
    | .error _ => []

/-- The bytes of a chunk up to the end of its `k`-th END_SEQUENCE. -/
def firstFrames (data : Str) (k : Nat) : Str := ((split data END_SEQUENCE).take k).flatten

/-- The bytes of a chunk behind its `k`-th END_SEQUENCE. -/
def laterBytes (data : Str) (k : Nat) : Str := ((split data END_SEQUENCE).drop k).flatten

/-- The first `k` frames of a chunk are well-formed, and later bytes make `parse`
throw. -/
structure FailsBehind (p : BufferedParser) (data : Str) (k : Nat) : Prop where
  frames : k ≤ (breakAll END_SEQUENCE data).closed.length
  wellFormed : ∃ result, p.parse (firstFrames data k) = .ok result
  throws : ∃ e, p.parse data = .error e

/-- Every frame that is read yields a message. -/
theorem length_foldlM_closeFrame {texts : List Str} {acc acc' : List ProtocolData × BufferedParser}
    (h : texts.foldlM closeFrame acc = .ok acc') :
    acc'.1.length = acc.1.length + texts.length := by
  induction texts generalizing acc with
  | nil =>
    cases h
    rfl
  | cons text texts ih =>
    rw [List.foldlM_cons] at h
    obtain ⟨next, hnext, h⟩ := bind_eq_ok.mp h
    obtain ⟨p, _, hp⟩ := bind_eq_ok.mp hnext
    cases hp
    rw [ih h, List.length_append, List.length_singleton, List.length_cons]
    omega

variable {p : BufferedParser} {data : Str} {k : Nat}

theorem feed_cons_of_parse {chunk : Str} {messages : Option (List ProtocolData)}
    {p' : BufferedParser} (h : p.parse chunk = .ok (messages, p')) (chunks : List Str) :
    feed p (chunk :: chunks) =
      (feed p' chunks >>= fun later => pure (messages.getD [] ++ later.1, later.2)) := by
  rw [feed, h]
  rfl

private theorem feed_singleton_eq_none : (feed p [data]).toOption = none ↔ ∃ e, p.parse data = .error e := by
  cases hparse : p.parse data with
  | error e =>
    rw [feed, hparse]
    exact ⟨fun _ => ⟨e, rfl⟩, fun _ => rfl⟩
  | ok result =>
    rw [feed_cons_of_parse hparse]
    constructor
    · intro h
      cases h
    · rintro ⟨e, h⟩
      cases h

namespace FailsBehind

/-- Cut behind the well-formed frames, the chunk is read as far as they go. -/
theorem parse_cut (h : p.FailsBehind data k) : ∃ messages p' e,
    p.parse (firstFrames data k) = .ok (messages, p') ∧ (messages.getD []).length = k ∧
      p'.parse (laterBytes data k) = .error e := by
  obtain ⟨⟨messages, p'⟩, hfirst⟩ := h.wellFormed
  have hlength : (messages.getD []).length = k := by
    have hbreak := breakAll_take_pieces h.frames
    have hparse := hfirst
    rw [parse_eq, firstFrames, split_eq_pieces, hbreak] at hparse
    obtain ⟨acc, hframes, hmessages⟩ := bind_eq_ok.mp hparse
    obtain ⟨closed, hclosed, hrest⟩ := bind_eq_ok.mp hframes
    rw [parseText_nil] at hrest
    cases hrest
    have hcount := length_foldlM_closeFrame hclosed
    rw [List.length_take_of_le h.frames, List.length_nil, Nat.zero_add] at hcount
    by_cases hnil : closed.1 = []
    · rw [if_pos hnil] at hmessages
      cases hmessages
      rw [← hcount, hnil, Option.getD_none]
    · rw [if_neg hnil] at hmessages
      cases hmessages
      exact hcount
  have hcut : (feed p [firstFrames data k, laterBytes data k]).toOption = none := by
    have hwhole : breakChunks END_SEQUENCE [data] = breakAll END_SEQUENCE data := by
      simp [breakChunks, Segmentation.join]
    rw [← feed_singleton_eq_none.mpr h.throws, feed_eq, feed_eq, hwhole, firstFrames, laterBytes,
      split_eq_pieces, breakChunks_pieces h.frames]
  obtain ⟨e, hlater⟩ : ∃ e, p'.parse (laterBytes data k) = .error e := by
    rw [feed_cons_of_parse hfirst, toOption_bind] at hcut
    apply feed_singleton_eq_none.mp
    cases hlater : feed p' [laterBytes data k] with
    | error e => rfl
    | ok result =>
      rw [hlater] at hcut
      cases hcut
  exact ⟨messages, p', e, hfirst, hlength, hlater⟩

private theorem delivered_whole (h : p.FailsBehind data k) : p.delivered [data] = [] := by
  obtain ⟨e, he⟩ := h.throws
  rw [delivered, he]

private theorem delivered_cut (h : p.FailsBehind data k) :
    p.delivered [firstFrames data k, laterBytes data k] = p.delivered [firstFrames data k] ∧
      (p.delivered [firstFrames data k]).length = k := by
  obtain ⟨messages, p', e, hfirst, hlength, hlater⟩ := h.parse_cut
  simp only [delivered, hfirst, hlater, List.append_nil, hlength, and_self]

/-- The caller misses the messages of the well-formed frames, if there are any. -/
theorem nil_eq_delivered_iff (h : p.FailsBehind data k) :
    [] = p.delivered [firstFrames data k] ↔ k = 0 := by
  rw [eq_comm, ← List.length_eq_zero_iff, h.delivered_cut.2]

end FailsBehind

end BufferedParser

open BufferedParser

/-- The messages of a read that reach `_processClientMessage` in the idle room. -/
def IdleUsersRoom.readMessages (idle : IdleUsersRoom) (clientFd : Int) (data : Str) :
    List ProtocolData :=
  ((idle.receiveMessages clientFd (some data)).toOption.map Prod.fst).getD []

/-- The messages of a read that reach `_processClientMessage` in a game. -/
def Game.readMessages (g : Game) (clientFd : Int) (data : Str) : List ProtocolData :=
  ((g.receiveMessages clientFd (some data)).toOption.map Prod.fst).getD []

theorem IdleUsersRoom.readMessages_of_throws {idle : IdleUsersRoom} {clientFd : Int}
    {client : ProtocolClient} {data : Str} (hclient : idle.clientsMap.get? clientFd = some client)
    (hthrows : ∃ e, client.parser.parse data = .error e) : idle.readMessages clientFd data = [] := by
  obtain ⟨e, he⟩ := hthrows
  rw [readMessages, receiveMessages, clientAt_eq_ok.mpr hclient, ok_bind,
    ProtocolClient.receiveMsg, he]
  rfl

theorem Game.readMessages_of_throws {g : Game} {clientFd : Int} {ref : PlayerRef}
    {client : ProtocolClient} {data : Str} (hfind : g.findPlayer clientFd = some ref)
    (hclient : (g.player ref).client = some client)
    (hthrows : ∃ e, client.parser.parse data = .error e) : g.readMessages clientFd data = [] := by
  obtain ⟨⟨fault, p⟩, he⟩ := hthrows
  have hreceive : client.receiveMsg (some data) = .error fault := by
    rw [ProtocolClient.receiveMsg, he]
  rw [readMessages, receiveMessages_of_error hfind hclient hreceive]
  rfl

namespace BufferedParser

/-- The messages of well-formed frames reach the caller in spite of an error behind
them, and `_processClientMessage` of both rooms, exactly when there are none. -/
theorem delivered_eq_iff {p : BufferedParser} {data : Str} {k : Nat} (h : p.FailsBehind data k) :
    (p.delivered [data] = p.delivered [firstFrames data k, laterBytes data k] ↔ k = 0) ∧
      (∀ idle : IdleUsersRoom, ∀ clientFd client, idle.clientsMap.get? clientFd = some client →
        client.parser = p →
          (idle.readMessages clientFd data = p.delivered [firstFrames data k] ↔ k = 0)) ∧
      ∀ g : Game, ∀ clientFd ref client, g.findPlayer clientFd = some ref →
        (g.player ref).client = some client → client.parser = p →
          (g.readMessages clientFd data = p.delivered [firstFrames data k] ↔ k = 0) := by
  refine ⟨?_, ?_, ?_⟩
  · rw [h.delivered_whole, h.delivered_cut.1]
    exact h.nil_eq_delivered_iff
  · rintro idle clientFd client hclient rfl
    rw [idle.readMessages_of_throws hclient h.throws]
    exact h.nil_eq_delivered_iff
  · rintro g clientFd ref client hfind hclient rfl
    rw [g.readMessages_of_throws hfind hclient h.throws]
    exact h.nil_eq_delivered_iff

/-- A ping, and a line that begins no message. -/
def pingThenError : Str := "GAME_PING\n\r\n\r\nPING\n".toList

private theorem failsBehind_pingThenError : FailsBehind {} pingThenError 1 :=
  ⟨by decide +kernel, ⟨(some [⟨.GAME_PING, ∅⟩], {}), by decide +kernel⟩,
    toOption_eq_none.mp (by decide +kernel)⟩

end BufferedParser

namespace Server

/-- A client who has just connected. -/
theorem exists_freshClient : ∃ s client, system.Reachable s ∧
    s.idle.clientsMap.get? 10 = some client ∧ client.parser = {} := by
  have hcheck : ((oneRoom.bind (TransitionSystem.runActions step (connectClient 10))).any fun s =>
      decide ((s.idle.clientsMap.get? 10).map (·.parser) = some {})) = true := by
    decide +kernel
  obtain ⟨s, hreachable, hstate⟩ := exists_of_oneRoom hcheck
  obtain ⟨client, hclient, hparser⟩ := Option.map_eq_some_iff.mp (of_decide_eq_true hstate)
  exact ⟨s, client, hreachable, hclient, hparser⟩

/-- A client who has connected sends a ping and a malformed line. Read at once, they
let no message reach `_processClientMessage`; cut behind the ping, they let it. -/
theorem not_delivered_pingThenError : ∃ s client, system.Reachable s ∧
    s.idle.clientsMap.get? 10 = some client ∧ client.parser.FailsBehind pingThenError 1 ∧
    s.idle.readMessages 10 pingThenError = [] ∧
    client.parser.delivered [firstFrames pingThenError 1, laterBytes pingThenError 1] =
      [⟨.GAME_PING, ∅⟩] := by
  obtain ⟨s, client, hreachable, hclient, hparser⟩ := exists_freshClient
  have hfails := failsBehind_pingThenError
  rw [← hparser] at hfails
  refine ⟨s, client, hreachable, hclient, hfails,
    IdleUsersRoom.readMessages_of_throws hclient hfails.throws, ?_⟩
  rw [hparser]
  decide +kernel

end Server

namespace BufferedParser

theorem delivered_eq_iff_ping :
    ({} : BufferedParser).delivered [pingThenError] ≠
        ({} : BufferedParser).delivered [firstFrames pingThenError 1, laterBytes pingThenError 1] ∧
      (∃ s, Server.system.Reachable s ∧ s.idle.readMessages 10 pingThenError ≠
          ({} : BufferedParser).delivered [firstFrames pingThenError 1]) ∧
      ({ gameInput := { evfd := 101 }, gameOutput := { evfd := 102 }
         player1 := { client := some { clientFd := 10 } } } : Game).readMessages 10 pingThenError ≠
          ({} : BufferedParser).delivered [firstFrames pingThenError 1] := by
  obtain ⟨hcaller, hidle, hgame⟩ := delivered_eq_iff failsBehind_pingThenError
  obtain ⟨s, client, hreachable, hclient, hparser⟩ := Server.exists_freshClient
  refine ⟨fun h => Nat.one_ne_zero (hcaller.mp h), ⟨s, hreachable, fun h => Nat.one_ne_zero ?_⟩,
    fun h => Nat.one_ne_zero ?_⟩
  · exact (hidle s.idle 10 client hclient hparser).mp h
  · exact (hgame _ 10 .player1 { clientFd := 10 } (by decide +kernel) rfl rfl).mp h

end BufferedParser

end UpsServer
