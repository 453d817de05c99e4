import UpsServer.GameRoom.EdgeList
import UpsServer.GameRoom.View
import UpsServer.GameServer.Simulation
import UpsServer.Protocol.Decoding

open UpsServer.BufferedParser Split

namespace UpsServer

namespace BufferedParser

/-- Lines can be told apart in their text. -/
theorem joinLines_inj {lines lines' : List Str} (h : ∀ line ∈ lines, '\n' ∉ line)
    (h' : ∀ line ∈ lines', '\n' ∉ line) (heq : joinLines lines = joinLines lines') :
    lines = lines' := by
  have hbreak := breakAll_endOfLine_lines h
  rw [heq, breakAll_endOfLine_lines h'] at hbreak
  exact (Segmentation.mk.inj hbreak).1.symm

/-- The name of a field ends with the first separator of its line. -/
theorem field_inj {name name' value value' : Str} (h : ':' ∉ name) (h' : ':' ∉ name')
    (heq : name ++ ':' :: value = name' ++ ':' :: value') : name = name' ∧ value = value' := by
  induction name generalizing name' with
  | nil =>
    cases name' with
    | nil => exact ⟨rfl, (List.cons.inj heq).2⟩
    | cons c name' => exact (h' (by rw [(List.cons.inj heq).1]; exact List.mem_cons_self)).elim
  | cons c name ih =>
    cases name' with
    | nil => exact (h (by rw [(List.cons.inj heq).1]; exact List.mem_cons_self)).elim
    | cons c' name' =>
      obtain ⟨rfl, htail⟩ := List.cons.inj heq
      obtain ⟨rfl, rfl⟩ := ih (fun hc => h (List.mem_cons_of_mem _ hc))
        (fun hc => h' (List.mem_cons_of_mem _ hc)) htail
      exact ⟨rfl, rfl⟩

/-- The text of a message determines its fields and the order in which they were
visited, even where the parser would not read them back. -/
theorem fields_of_text {method : MethodName} {fields fields' : List (Str × Str)} {text : Str}
    (hnames : ∀ field ∈ fields, PlainName field.1) (hnames' : ∀ field ∈ fields', PlainName field.1)
    (hvalues : NewlineFree fields) (hvalues' : NewlineFree fields')
    (htext : serializeProtocolData method fields = .ok text)
    (htext' : serializeProtocolData method fields' = .ok text) : fields = fields' := by
  obtain ⟨name, hname, _⟩ := serializeMethodName_ok method
  have hlines : joinLines (messageLines name fields) = joinLines (messageLines name fields') := by
    rw [serializeProtocolData_eq hname] at htext htext'
    exact List.append_cancel_right (Except.ok.inj (htext.trans htext'.symm))
  have hmessage := (List.cons.inj (joinLines_inj (newline_messageLines hname hvalues)
    (newline_messageLines hname hvalues') hlines)).2
  clear htext htext' hvalues hvalues' hlines
  induction fields generalizing fields' with
  | nil => exact (List.map_eq_nil_iff.mp hmessage.symm).symm
  | cons field fields ih =>
    cases fields' with
    | nil => cases hmessage
    | cons field' fields' =>
      obtain ⟨hfield, hrest⟩ := List.cons.inj hmessage
      obtain ⟨hfst, hsnd⟩ := field_inj (hnames field List.mem_cons_self).1
        (hnames' field' List.mem_cons_self).1 hfield
      rw [Prod.ext hfst hsnd, ih (fun field hmem => hnames field (List.mem_cons_of_mem _ hmem))
        (fun field hmem => hnames' field (List.mem_cons_of_mem _ hmem)) hrest]

end BufferedParser

namespace GameGraph

variable {n : Nat}

private theorem adjacencyMatrix_ofEdges (added : List (Nat × Nat)) (i j : Fin n) :
    (ofEdges added : GameGraph n).adjacencyMatrix i j =
      if (i.val, j.val) ∈ added ∨ (j.val, i.val) ∈ added then 1 else 0 := by
  induction added using List.reverseRecOn with
  | nil => rfl
  | append_singleton added e ih =>
    rw [ofEdges, List.foldl_append]
    change (if i.val = e.1 ∧ j.val = e.2 ∨ i.val = e.2 ∧ j.val = e.1 then 1
      else (ofEdges added : GameGraph n).adjacencyMatrix i j) = _
    rw [ih]
    obtain ⟨a, b⟩ := e
    simp only [List.mem_append, List.mem_singleton, Prod.mk.injEq]
    split_ifs <;> first | rfl | (exfalso; tauto)

/-- An undirected graph is built by adding its edges. -/
theorem Undirected.exists_ofEdges {g : GameGraph n} (h : g.Undirected) :
    ∃ added, g = ofEdges added := by
  let added := g.edges.toList.map fun e => (e.1.val, e.2.val)
  have hmem : ∀ i j : Fin n, (i.val, j.val) ∈ added ↔ i < j ∧ g.adjacencyMatrix i j = 1 := by
    intro i j
    simp only [added, List.mem_map, Finset.mem_toList, edges, Finset.mem_filter, Finset.mem_univ,
      true_and, Prod.mk.injEq, Fin.val_inj]
    constructor
    · rintro ⟨⟨a, b⟩, hedge, rfl, rfl⟩
      exact hedge
    · exact fun hedge => ⟨(i, j), hedge, rfl, rfl⟩
  refine ⟨added, ?_⟩
  have hentries : g.adjacencyMatrix = (ofEdges added : GameGraph n).adjacencyMatrix := by
    funext i j
    simp only [adjacencyMatrix_ofEdges, hmem, h.symm j i, ← or_and_right]
    rcases lt_trichotomy i j with hlt | rfl | hgt
    · rcases h.zero_one i j with hentry | hentry <;> simp [hlt, hentry]
    · simp [h.diagonal i]
    · rcases h.zero_one i j with hentry | hentry <;> simp [hgt, hentry]
  obtain ⟨matrix⟩ := g
  exact congrArg GameGraph.mk hentries

/-- The edge list determines the graph. -/
theorem Undirected.eq_of_text {g g' : GameGraph n} (h : g.Undirected) (h' : g'.Undirected)
    (htext : g.serializeUndirectedEdges = g'.serializeUndirectedEdges) : g = g' := by
  obtain ⟨added, rfl⟩ := h.exists_ofEdges
  obtain ⟨added', rfl⟩ := h'.exists_ofEdges
  have hedges := orderedEdges_eq_of_text htext
  have hsame : ∀ i j : Fin n, i < j → ((i.val, j.val) ∈ added ∨ (j.val, i.val) ∈ added ↔
      (i.val, j.val) ∈ added' ∨ (j.val, i.val) ∈ added') := by
    intro i j hlt
    have hmem := congrArg ((i.val, j.val) ∈ ·) hedges
    simpa [mem_orderedEdges, hlt] using hmem
  have hentries : (ofEdges added : GameGraph n).adjacencyMatrix =
      (ofEdges added' : GameGraph n).adjacencyMatrix := by
    funext i j
    rcases lt_trichotomy i j with hlt | rfl | hgt
    · simp only [adjacencyMatrix_ofEdges, hsame i j hlt]
    · rw [h.diagonal, h'.diagonal]
    · rw [h.symm, h'.symm i j]
      simp only [adjacencyMatrix_ofEdges, hsame j i hgt]
  exact congrArg GameGraph.mk hentries

end GameGraph

namespace Game

/-- The two games show the same to their players. -/
structure ShownAlike (g g' : Game) : Prop where
  isPaused : g.isPaused = g'.isPaused
  names : ∀ ref, g.nameOf ref = g'.nameOf ref
  online : ∀ ref, (g.player ref).client.isSome = (g'.player ref).client.isSome
  onTurn : g.Online → g.nameOf g.onTurn = g'.nameOf g'.onTurn
  graphs : ∀ ref, (g.player ref).myGraph = (g'.player ref).myGraph

/-- The data of a GAME_STATE that shows the game, with the winner of the round if
there is one. -/
inductive Displays (g : Game) : UnorderedMap Str Str → Option Str → Prop where
  | state : Displays g g.serializeGameData none
  | won {winner : Str} :
      Displays g (g.serializeGameData.set "winning_player".toList winner) (some winner)

section Data

variable {g g' : Game} {data : UnorderedMap Str Str} {winner winner' : Option Str}

private theorem get?_onTurn (g : Game) : g.serializeGameData.get? "on_turn".toList =
    if g.bothPlayersOnline then some (g.nameOf g.onTurn) else none := by
  split
  · rename_i honline
    refine get?_serializeGameData (List.mem_append_right _ ?_)
    rw [if_pos honline]
    exact List.mem_singleton_self _
  · rename_i hoffline
    rw [serializeGameData_eq, UnorderedMap.get?_setAll_of_notMem]
    · rfl
    · rw [stateFields, if_neg hoffline]
      exact of_decide_eq_true rfl

private theorem get?_winningPlayer (g : Game) :
    g.serializeGameData.get? "winning_player".toList = none := by
  rw [serializeGameData_eq, UnorderedMap.get?_setAll_of_notMem]
  · rfl
  · rw [stateFields]
    cases g.bothPlayersOnline <;> exact of_decide_eq_true rfl

theorem Displays.winner_eq (h : g.Displays data winner) :
    data.get? "winning_player".toList = winner := by
  cases h with
  | state => exact get?_winningPlayer g
  | won => exact UnorderedMap.get?_set_self _ _ _

/-- The names of the fields that every state may have. -/
def stateNames : List Str :=
  ["game_state".toList, "player1_username".toList, "player2_username".toList,
    "player1_edges".toList, "player2_edges".toList, "on_turn".toList]

theorem Displays.get?_eq (h : g.Displays data winner) {name : Str} (hname : name ∈ stateNames) :
    data.get? name = g.serializeGameData.get? name := by
  have hne : ∀ name ∈ stateNames, name ≠ "winning_player".toList := by decide +kernel
  cases h with
  | state => rfl
  | won => exact UnorderedMap.get?_set_of_ne _ _ (hne name hname)

/-- All players have names. -/
def Named (g : Game) : Prop :=
  ∀ ref client, (g.player ref).client = some client → client.clientName ≠ []

/-- A slot without a name is free. -/
theorem Named.isSome_eq (h : g.Named) (ref : PlayerRef) :
    (g.player ref).client.isSome = !(g.nameOf ref).isEmpty := by
  cases hclient : (g.player ref).client with
  | none => simp [nameOf, hclient]
  | some client => simpa [nameOf, hclient] using h ref client hclient

/-- Equal data show equal games, with the same winner. -/
theorem Displays.shownAlike (hok : BoardOk g) (hok' : BoardOk g') (hnamed : g.Named)
    (hnamed' : g'.Named) (h : g.Displays data winner) (h' : g'.Displays data winner') :
    ShownAlike g g' ∧ winner = winner' := by
  have hfield : ∀ {name : Str} {value value' : Str}, name ∈ stateNames →
      (name, value) ∈ g.stateFields → (name, value') ∈ g'.stateFields → value = value' := by
    intro name value value' hname hvalue hvalue'
    have hsame := (h.get?_eq hname).symm.trans (h'.get?_eq hname)
    rw [get?_serializeGameData hvalue, get?_serializeGameData hvalue'] at hsame
    exact Option.some.inj hsame
  have hturn := (h.get?_eq (List.mem_of_getElem? (i := 5) rfl)).symm.trans
    (h'.get?_eq (List.mem_of_getElem? (i := 5) rfl))
  rw [get?_onTurn, get?_onTurn] at hturn
  have honline : g.bothPlayersOnline = g'.bothPlayersOnline := by
    have hsome := congrArg Option.isSome hturn
    cases hboth : g.bothPlayersOnline <;> cases hboth' : g'.bothPlayersOnline <;>
      simp_all
  have hnames : ∀ ref, g.nameOf ref = g'.nameOf ref := by
    intro ref
    cases ref with
    | player1 =>
      exact hfield (List.mem_of_getElem? (i := 1) rfl) (List.mem_of_getElem? (i := 1) rfl)
        (List.mem_of_getElem? (i := 1) rfl)
    | player2 =>
      exact hfield (List.mem_of_getElem? (i := 2) rfl) (List.mem_of_getElem? (i := 2) rfl)
        (List.mem_of_getElem? (i := 2) rfl)
  refine ⟨⟨?_, hnames, fun ref => ?_, fun hboth => ?_, fun ref => ?_⟩,
    h.winner_eq.symm.trans h'.winner_eq⟩
  · have hpaused := hfield (List.mem_of_getElem? (i := 0) rfl) (List.mem_of_getElem? (i := 0) rfl)
      (List.mem_of_getElem? (i := 0) rfl)
    cases hstate : g.isPaused <;> cases hstate' : g'.isPaused <;> simp_all
  · rw [hnamed.isSome_eq, hnamed'.isSome_eq, hnames]
  · have hboth' := bothPlayersOnline_eq_true.mpr hboth
    rw [← honline, if_pos hboth', if_pos hboth'] at hturn
    exact Option.some.inj hturn
  · refine (hok.undirected ref).eq_of_text (hok'.undirected ref) ?_
    cases ref with
    | player1 =>
      exact hfield (List.mem_of_getElem? (i := 3) rfl) (List.mem_of_getElem? (i := 3) rfl)
        (List.mem_of_getElem? (i := 3) rfl)
    | player2 =>
      exact hfield (List.mem_of_getElem? (i := 4) rfl) (List.mem_of_getElem? (i := 4) rfl)
        (List.mem_of_getElem? (i := 4) rfl)

private theorem displays_moveData {move : Move} {playerLost : Bool}
    (h : g.moveData move playerLost = .ok data) : ∃ winner, g.Displays data winner := by
  unfold moveData at h
  split at h
  · obtain ⟨winner, _, h⟩ := bind_eq_ok.mp h
    cases h
    exact ⟨_, .won⟩
  · cases h
    exact ⟨_, .state⟩

end Data

end Game

namespace Career

/-- Names come through the parser, so they are kept on one line. -/
theorem newline_clientName {c : Place × ProtocolClient} (h : system.Reachable c) :
    '\n' ∉ c.2.clientName := by
  refine h.invariant (P := fun c => '\n' ∉ c.2.clientName) ?_ fun c _ c' _ hname hstep => ?_
  · rintro c ⟨clientFd, rfl⟩
    exact List.not_mem_nil
  · cases hstep with
    | replied hfields hreply =>
      cases hreply with
      | named _ husername => exact (hfields _ _ husername).2.2.2
      | denied | listed | waits => exact hname
    | treated htreats => cases htreats <;> exact hname
    | parsed | sent | taken | returned | welcomed => exact hname

end Career

namespace Server

open Game

/-- The data of a GAME_STATE that a game of the server can send, and the game as it
shows it: as it is, or as it is after a move that is accepted. -/
inductive SendsState (s : Server) (shown : Game) (data : UnorderedMap Str Str) : Prop where
  | state {roomId : Int} {t : GameThread} (ht : s.thread roomId = some t) (hshown : shown = t.game)
      (hdata : data = shown.serializeGameData)
  | moved {roomId clientFd : Int} {t : GameThread} {msg : ProtocolData} {move : Move}
      (ht : s.thread roomId = some t) (hmove : t.game.readMove msg clientFd = .ok (some move))
      (hshown : shown = t.game.addMove move)
      (hdata : shown.moveData move (t.game.movedGraph move).hasCycleOfLength3 = .ok data)

variable {s s' : Server} {g g' : Game} {data data' : UnorderedMap Str Str}

private theorem newline_isName (hreach : system.Reachable s) {roomId : Int} {t : GameThread}
    (ht : s.thread roomId = some t) {name : Str} (hname : t.game.IsName name) : '\n' ∉ name := by
  obtain ⟨room, stored, _, hstored, rfl⟩ := thread_eq_some.mp ht
  obtain ⟨ref, client, hclient, rfl⟩ := hname
  have hplays : (stored.game.player ref).client = some client := by
    cases ref <;> exact hclient
  exact Career.newline_clientName
    ((careers_of_reachable hreach).clients _ client (mem_player.mpr ⟨stored, hstored, hplays⟩))

private theorem named_thread (hreach : system.Reachable s) {roomId : Int} {t : GameThread}
    (ht : s.thread roomId = some t) : t.game.Named := by
  obtain ⟨room, stored, _, hstored, rfl⟩ := thread_eq_some.mp ht
  intro ref client hclient
  have hplays : (stored.game.player ref).client = some client := by
    cases ref <;> exact hclient
  obtain ⟨session, hsession⟩ := Career.exists_inSession
    ((careers_of_reachable hreach).clients _ client (mem_player.mpr ⟨stored, hstored, hplays⟩))
  exact IdleUsersRoom.clientName_of_hasName (hsession.hasName nofun)

/-- What a game sends is plain text that shows a board. -/
theorem SendsState.displays (h : s.SendsState g data) (hreach : system.Reachable s) :
    BoardOk g ∧ g.Named ∧ (∃ winner, g.Displays data winner) ∧
      ∀ name value, data.get? name = some value → PlainName name ∧ '\n' ∉ value := by
  have hplain : ∀ {roomId : Int} {t : GameThread}, s.thread roomId = some t →
      t.game.IsStateData data → ∀ name value, data.get? name = some value →
        PlainName name ∧ '\n' ∉ value := by
    intro roomId t ht hdata name value hvalue
    obtain ⟨hname, hvalue⟩ := hdata.isStateField name value hvalue
    exact ⟨hname, hvalue.elim (newline_isName hreach ht) And.left⟩
  cases h with
  | state ht hshown hdata =>
    subst hshown hdata
    exact ⟨GameThread.boardOk_of_reachable (reachable_thread hreach ht), named_thread hreach ht,
      ⟨none, .state⟩, hplain ht .state⟩
  | moved ht hmove hshown hdata =>
    subst hshown
    have hok := GameThread.boardOk_of_reachable (reachable_thread hreach ht)
    have hnamed := named_thread hreach ht
    refine ⟨boardOk_addMove (legal_of_readMove hmove).free hok, fun ref client hclient => ?_,
      displays_moveData hdata, hplain ht (.moved hdata)⟩
    rw [player_addMove_client] at hclient
    exact hnamed ref client hclient

/-- The first player loses a round with a triangle, and then the second one. -/
def loseTwoRounds : List ServerAction :=
  joinGameOfTwo ++ moveOfTwo 11 "{0,1}" ++ moveOfTwo 10 "{3,4}" ++ moveOfTwo 11 "{1,2}" ++
    moveOfTwo 10 "{4,5}" ++ moveOfTwo 11 "{0,2}" ++ moveOfTwo 10 "{0,1}" ++ moveOfTwo 11 "{3,4}" ++
    moveOfTwo 10 "{1,2}" ++ moveOfTwo 11 "{4,5}" ++ moveOfTwo 10 "{0,2}"

/-- A game that shows what its first state has shown. -/
theorem exists_firstShown {actions : List ServerAction} {p : Game → Bool}
    (h : ((oneRoom.bind (TransitionSystem.runActions step actions)).any fun s =>
      (s.thread 1).any fun t => decide (t.game.serializeGameData =
        (∅ : UnorderedMap Str Str).setAll firstFields) && p t.game) = true) :
    ∃ s g, system.Reachable s ∧ s.SendsState g g.serializeGameData ∧
      UnorderedMap.IsIterationOrder firstFields g.serializeGameData ∧ p g = true := by
  obtain ⟨s, hreachable, hstate⟩ := exists_of_oneRoom h
  obtain ⟨t, ht, hstate⟩ := (Option.any_eq_true ..).mp hstate
  rw [Bool.and_eq_true, decide_eq_true_eq] at hstate
  exact ⟨s, t.game, hreachable, .state ht rfl rfl,
    hstate.1 ▸ UnorderedMap.isIterationOrder_setAll (by decide), hstate.2⟩

/-- In whatever states of the server, and in whatever order the fields are visited,
two GAME_STATE messages with the same text show the same game and name the same
winner: the text determines what is shown. -/
theorem shownAlike_of_text (hreach : system.Reachable s) (hreach' : system.Reachable s')
    (h : s.SendsState g data) (h' : s'.SendsState g' data') {fields fields' : List (Str × Str)}
    {text : Str} (horder : UnorderedMap.IsIterationOrder fields data)
    (horder' : UnorderedMap.IsIterationOrder fields' data')
    (htext : serializeProtocolData .GAME_STATE fields = .ok text)
    (htext' : serializeProtocolData .GAME_STATE fields' = .ok text) :
    ShownAlike g g' ∧
      data.get? "winning_player".toList = data'.get? "winning_player".toList := by
  obtain ⟨hok, hnamed, ⟨winner, hdisplays⟩, hplain⟩ := h.displays hreach
  obtain ⟨hok', hnamed', ⟨winner', hdisplays'⟩, hplain'⟩ := h'.displays hreach'
  have hfields : fields = fields' := by
    refine fields_of_text (fun field hfield => ?_) (fun field hfield => ?_) (fun field hfield => ?_)
      (fun field hfield => ?_) htext htext'
    · exact (hplain _ _ ((horder.2 _ _).mp hfield)).1
    · exact (hplain' _ _ ((horder'.2 _ _).mp hfield)).1
    · have hboth := hplain _ _ ((horder.2 field.1 field.2).mp hfield)
      exact ⟨hboth.1.2, hboth.2⟩
    · have hboth := hplain' _ _ ((horder'.2 field.1 field.2).mp hfield)
      exact ⟨hboth.1.2, hboth.2⟩
  have hdata : data = data' := by
    rw [← horder.setAll_empty, hfields, horder'.setAll_empty]
  subst hdata
  exact ⟨(hdisplays.shownAlike hok hok' hnamed hnamed' hdisplays').1, rfl⟩

/-- The first state of a game and the one after two lost rounds have the same text. -/
theorem shownAlike_of_text_rounds : ∃ s s' g g' text, system.Reachable s ∧ system.Reachable s' ∧
    s.SendsState g g.serializeGameData ∧ s'.SendsState g' g'.serializeGameData ∧ g ≠ g' ∧
    serializeProtocolData .GAME_STATE firstFields = .ok text ∧ ShownAlike g g' := by
  obtain ⟨s, g, hreach, hsends, horder, hfirst⟩ := @exists_firstShown joinGameOfTwo
    (fun g => g.player1.client.any fun client : ProtocolClient => decide (client.sent.length < 10)) (by decide +kernel)
  obtain ⟨s', g', hreach', hsends', horder', hlater⟩ := @exists_firstShown loseTwoRounds
    (fun g => g.player1.client.any fun client : ProtocolClient => decide (10 < client.sent.length)) (by decide +kernel)
  obtain ⟨client, hclient, hshort⟩ := (Option.any_eq_true ..).mp hfirst
  obtain ⟨client', hclient', hlong⟩ := (Option.any_eq_true ..).mp hlater
  rw [decide_eq_true_eq] at hshort hlong
  have hne : g ≠ g' := by
    rintro rfl
    cases hclient.symm.trans hclient'
    omega
  obtain ⟨text, htext⟩ : ∃ text, serializeProtocolData .GAME_STATE firstFields = .ok text := ⟨_, rfl⟩
  exact ⟨s, s', g, g', text, hreach, hreach', hsends, hsends', hne, htext,
    (shownAlike_of_text hreach hreach' hsends hsends' horder horder' htext htext).1⟩

end Server

end UpsServer
