import UpsServer.GameRoom.Stuck

open Outcome

namespace UpsServer

private theorem stoi_digit {c : Char} (hdigit : c.isDigit = true) :
    stoi [c] = .ok (c.toNat - '0'.toNat : Nat) := by
  have hother : ∀ d : Char, d.isDigit = false → (c == d) = false := by
    intro d hd
    rw [beq_eq_false_iff_ne]
    rintro rfl
    exact Bool.false_ne_true (hd.symm.trans hdigit)
  have hspace : isSpace c = false := by
    simp only [isSpace, hother ' ' rfl, hother '\t' rfl, hother '\n' rfl, hother '\x0b' rfl,
      hother '\x0c' rfl, hother '\r' rfl, Bool.or_false]
  have hdrop : [c].dropWhile isSpace = [c] := List.dropWhile_cons_of_neg (by simp [hspace])
  have hneg : (some c == some '-') = false := hother '-' rfl
  have hpos : (some c == some '+') = false := hother '+' rfl
  have htake : [c].takeWhile Char.isDigit = [c] := by
    rw [List.takeWhile_cons_of_pos hdigit, List.takeWhile_nil]
  have hvalue : digitsValue [c] = (c.toNat - '0'.toNat : Nat) := by
    rw [digitsValue, List.foldl_cons, List.foldl_nil, Int.zero_mul, Int.zero_add]
  have hrange := Char.isDigit_iff_toNat.mp hdigit
  have hnine : '9'.toNat = 57 := rfl
  rw [stoi]
  simp only [hdrop, List.head?_cons, hneg, hpos, Bool.or_false, Bool.false_eq_true, if_false, htake,
    List.cons_ne_nil, hvalue]
  rw [if_neg (by omega)]

private theorem stoi_of_notDigit {s : Str} (h : ∀ c ∈ s, c.isDigit = false) :
    stoi s = .error (.invalidArgument "stoi") := by
  have hnone : ∀ u : Str, u ⊆ s → u.takeWhile Char.isDigit = [] := by
    intro u hu
    apply List.eq_nil_iff_forall_not_mem.mpr
    intro c hc
    have hmem := hu ((List.takeWhile_sublist _).subset hc)
    exact Bool.false_ne_true ((h c hmem).symm.trans (List.all_eq_true.mp List.all_takeWhile c hc))
  have hdrop : s.dropWhile isSpace ⊆ s := (List.dropWhile_sublist _).subset
  have htail : (s.dropWhile isSpace).tail ⊆ s :=
    List.Subset.trans (List.tail_subset _) hdrop
  rw [stoi]
  dsimp only
  rw [if_pos]
  split
  · exact hnone _ htail
  · exact hnone _ hdrop

/-- The text of one place is converted exactly when there is a digit. -/
theorem stoi_place {s : Str} {pos : Nat} {n : Int} :
    stoi ((s.drop pos).take 1) = .ok n ↔
      ∃ c, s[pos]? = some c ∧ c.isDigit = true ∧ n = (c.toNat - '0'.toNat : Nat) := by
  rw [List.take_one, List.head?_drop]
  cases s[pos]? with
  | none => simp [stoi_of_notDigit]
  | some c =>
    rw [Option.toList_some]
    by_cases hdigit : c.isDigit = true
    · rw [stoi_digit hdigit, Except.ok.injEq, eq_comm]
      simp [hdigit]
    · rw [stoi_of_notDigit (by simpa using hdigit)]
      simp [hdigit]

private theorem substr_eq_ok {s t : Str} {pos count : Nat} :
    substr s pos count = .ok t ↔ pos ≤ s.length ∧ (s.drop pos).take count = t := by
  unfold substr
  split
  · simp only [reduceCtorEq, false_iff, not_and]
    omega
  · simp only [Except.ok.injEq, iff_and_self]
    omega

namespace Game

/-- The code looks at two places of the text only. -/
theorem parseEdge_eq_some {edge : Str} {edgeSource edgeDestination : Nat} :
    parseEdge edge = .ok (some (edgeSource, edgeDestination)) ↔
      ∃ c₁ c₃, edge[1]? = some c₁ ∧ edge[3]? = some c₃ ∧ c₁.isDigit = true ∧ c₃.isDigit = true ∧
        edgeSource = c₁.toNat - '0'.toNat ∧ edgeDestination = c₃.toNat - '0'.toNat := by
  constructor
  · intro h
    obtain ⟨_, hsource, h⟩ := bind_eq_ok.mp h
    obtain ⟨_, hdestination, h⟩ := bind_eq_ok.mp h
    obtain ⟨_, rfl⟩ := substr_eq_ok.mp hsource
    obtain ⟨_, rfl⟩ := substr_eq_ok.mp hdestination
    dsimp only at h
    split at h
    · rename_i t1 t2 hnumbers
      obtain ⟨_, h₁, hnumbers⟩ := bind_eq_ok.mp hnumbers
      obtain ⟨_, h₃, hnumbers⟩ := bind_eq_ok.mp hnumbers
      cases hnumbers
      obtain ⟨c₁, hc₁, hdigit₁, rfl⟩ := stoi_place.mp h₁
      obtain ⟨c₃, hc₃, hdigit₃, rfl⟩ := stoi_place.mp h₃
      rw [if_pos ⟨Int.natCast_nonneg _, Int.natCast_nonneg _⟩] at h
      cases h
      exact ⟨c₁, c₃, hc₁, hc₃, hdigit₁, hdigit₃, rfl, rfl⟩
    · cases h
  · rintro ⟨c₁, c₃, hc₁, hc₃, hdigit₁, hdigit₃, rfl, rfl⟩
    have hlength := (List.getElem?_eq_some_iff.mp hc₃).1
    have hsource : substr edge 1 1 = .ok ((edge.drop 1).take 1) :=
      substr_eq_ok.mpr ⟨by omega, rfl⟩
    have hdestination : substr edge 3 1 = .ok ((edge.drop 3).take 1) :=
      substr_eq_ok.mpr ⟨by omega, rfl⟩
    have h₁ := stoi_place.mpr ⟨c₁, hc₁, hdigit₁, rfl⟩
    have h₃ := stoi_place.mpr ⟨c₃, hc₃, hdigit₃, rfl⟩
    rw [parseEdge, hsource, ok_bind, hdestination, ok_bind, h₁, ok_bind, h₃, ok_bind]
    exact if_pos ⟨Int.natCast_nonneg _, Int.natCast_nonneg _⟩

/-- The text has the digits of these nodes at the places the code looks at. -/
def NamesEdge (edge : Str) (i j : Fin GameGraph.GAME_NODE_NUM) : Prop :=
  edge[1]? = some (Nat.digitChar i) ∧ edge[3]? = some (Nat.digitChar j)

private theorem namesEdge_edgeText (i j : Fin GameGraph.GAME_NODE_NUM) : NamesEdge (edgeText i j) i j :=
  ⟨rfl, rfl⟩

private theorem digitChar_of_isDigit {c : Char} (h : c.isDigit = true) :
    Nat.digitChar (c.toNat - '0'.toNat) = c := by
  have hrange := Char.isDigit_iff_toNat.mp h
  have hnine : '9'.toNat = 57 := rfl
  have hzero : '0'.toNat = 48 := rfl
  apply Char.toNat_inj.mp
  rw [Nat.toNat_digitChar_of_lt_ten (by omega)]
  omega

private theorem digit_of_node (i : Fin GameGraph.GAME_NODE_NUM) :
    (Nat.digitChar i).isDigit = true ∧ (Nat.digitChar i).toNat - '0'.toNat = i.val := by
  revert i
  decide

private theorem parseEdge_eq_some_iff_namesEdge {edge : Str} {i j : Fin GameGraph.GAME_NODE_NUM} :
    parseEdge edge = .ok (some (i.val, j.val)) ↔ NamesEdge edge i j := by
  rw [parseEdge_eq_some]
  constructor
  · rintro ⟨c₁, c₃, hc₁, hc₃, hdigit₁, hdigit₃, hsource, hdestination⟩
    rw [NamesEdge, hc₁, hc₃, hsource, hdestination, digitChar_of_isDigit hdigit₁,
      digitChar_of_isDigit hdigit₃]
    exact ⟨rfl, rfl⟩
  · rintro ⟨hc₁, hc₃⟩
    obtain ⟨hdigit₁, hsource⟩ := digit_of_node i
    obtain ⟨hdigit₃, hdestination⟩ := digit_of_node j
    exact ⟨_, _, hc₁, hc₃, hdigit₁, hdigit₃, hsource.symm, hdestination.symm⟩

/-- The text names one edge at most. -/
theorem NamesEdge.unique {edge : Str} {i j i' j' : Fin GameGraph.GAME_NODE_NUM}
    (h : NamesEdge edge i j) (h' : NamesEdge edge i' j') : i = i' ∧ j = j' := by
  have hread := parseEdge_eq_some_iff_namesEdge.mpr h
  rw [parseEdge_eq_some_iff_namesEdge.mpr h', Except.ok.injEq, Option.some.injEq,
    Prod.mk.injEq] at hread
  exact ⟨Fin.ext hread.1.symm, Fin.ext hread.2.symm⟩

/-- The command is accepted. -/
def CommandAccepted (g : Game) (msg : ProtocolData) (clientFd : Int) (sender : PlayerRef) : Prop :=
  ∃ g', g.processGameCommand msg clientFd = .ok g' ∧ Accepted g g' msg sender

/-- The command is accepted exactly when its text is `{i,j}` for an edge that
belongs to neither player, and the edge it adds is this one. -/
structure AcceptsFormat (g : Game) (msg : ProtocolData) (clientFd : Int) (sender : PlayerRef)
    (edge : Str) : Prop where
  accepted : CommandAccepted g msg clientFd sender ↔
    ∃ i j, edge = edgeText i j ∧ i ≠ j ∧ g.isFreeEdge i.val j.val = true
  written : ∀ g', g.processGameCommand msg clientFd = .ok g' → Accepted g g' msg sender →
    ∃ i j : Fin GameGraph.GAME_NODE_NUM, edge = edgeText i j ∧
      g'.board = (g.afterMove ⟨sender, i.val, j.val⟩).board

/-- The digits of a free edge stand at the places the code looks at only if the
text is `{i,j}`. -/
def OnlyFormatted (g : Game) (edge : Str) : Prop :=
  ∀ i j : Fin GameGraph.GAME_NODE_NUM, NamesEdge edge i j → g.isFreeEdge i.val j.val = true →
    edge = edgeText i j

section Online

variable {g g' : Game} {msg : ProtocolData} {clientFd : Int} {edge : Str} (hnodup : g.heldFds.Nodup)
  (honline : g.Online) (hpaused : g.isPaused = false) (h : g.findPlayer clientFd = some g.onTurn)
  (hedge : msg.data.get? "add_edge".toList = some edge)
include hnodup honline hpaused h hedge

private theorem readMove_onTurn : g.readMove msg clientFd = g.checkEdge g.onTurn edge := by
  rw [readMove_eq hnodup honline h, if_neg (by simp [hpaused]), hedge]

omit hpaused in
/-- What is accepted is a free edge that the text names. -/
theorem namesEdge_of_accepted (hg' : g.processGameCommand msg clientFd = .ok g')
    (haccepted : Accepted g g' msg g.onTurn) :
    ∃ i j, NamesEdge edge i j ∧ g.isFreeEdge i.val j.val = true ∧
      g'.board = (g.afterMove ⟨g.onTurn, i.val, j.val⟩).board := by
  obtain ⟨⟨mover, edgeSource, edgeDestination⟩, hmove, hplay⟩ :=
    move_of_accepted hnodup honline h hg' haccepted
  obtain ⟨_, _, hturn, _, ⟨edge', hedge', hparse⟩, hfree⟩ := legal_of_readMove hmove
  cases hedge.symm.trans hedge'
  obtain ⟨_, hsource, hdestination⟩ :=
    GameGraph.isValidEdge_eq_true.mp ((isFreeEdge_eq_true.mp hfree).1 .player1)
  refine ⟨⟨edgeSource, hsource⟩, ⟨edgeDestination, hdestination⟩,
    parseEdge_eq_some_iff_namesEdge.mp hparse, hfree, ?_⟩
  rw [board_playMove honline hplay, ← hturn]

private theorem accepted_of_namesEdge {i j : Fin GameGraph.GAME_NODE_NUM} (hnames : NamesEdge edge i j)
    (hfree : g.isFreeEdge i.val j.val = true) : CommandAccepted g msg clientFd g.onTurn := by
  have hparse := parseEdge_eq_some_iff_namesEdge.mpr hnames
  have hmove : g.readMove msg clientFd = .ok (some ⟨g.onTurn, i.val, j.val⟩) := by
    rw [readMove_onTurn hnodup honline hpaused h hedge, checkEdge_of_nodes hparse, if_pos hfree]
  obtain ⟨gameData, _, hplay⟩ := playMove_ok honline ⟨g.onTurn, i.val, j.val⟩
  exact ⟨_, (processGameCommand_of_move hmove).trans hplay, edge, _, _, hedge, hparse,
    board_playMove honline hplay⟩

/-- The code accepts the format exactly when the places that it looks at do not name
a free edge in a text of another form. -/
theorem acceptsFormat_iff_onlyFormatted :
    AcceptsFormat g msg clientFd g.onTurn edge ↔ g.OnlyFormatted edge := by
  constructor
  · intro hformat i j hnames hfree
    obtain ⟨i', j', rfl, _⟩ := hformat.accepted.mp
      (accepted_of_namesEdge hnodup honline hpaused h hedge hnames hfree)
    obtain ⟨rfl, rfl⟩ := hnames.unique (namesEdge_edgeText i' j')
    rfl
  · intro honly
    refine ⟨⟨?_, ?_⟩, ?_⟩
    · rintro ⟨g', hg', haccepted⟩
      obtain ⟨i, j, hnames, hfree, _⟩ :=
        namesEdge_of_accepted hnodup honline h hedge hg' haccepted
      obtain ⟨hne, _⟩ := GameGraph.isValidEdge_eq_true.mp ((isFreeEdge_eq_true.mp hfree).1 .player1)
      exact ⟨i, j, honly i j hnames hfree, fun heq => hne (congrArg Fin.val heq), hfree⟩
    · rintro ⟨i, j, rfl, _, hfree⟩
      exact accepted_of_namesEdge hnodup honline hpaused h hedge (namesEdge_edgeText i j) hfree
    · intro g' hg' haccepted
      obtain ⟨i, j, hnames, hfree, hboard⟩ :=
        namesEdge_of_accepted hnodup honline h hedge hg' haccepted
      exact ⟨i, j, honly i j hnames hfree, hboard⟩

end Online

end Game

end UpsServer

namespace UpsServer.GameThread

open Game

/-- In an unpaused game with both players online, a command of the player on turn is
accepted exactly in the format `{i,j}`, unless its text has the digits of a free edge at the
places the code looks at and another form. -/
theorem acceptsFormat_iff {t : GameThread} {msg : ProtocolData} {clientFd : Int} {edge : Str}
    (hreachable : system.Reachable t) (honline : t.game.Online) (hpaused : t.game.isPaused = false)
    (hsender : t.game.findPlayer clientFd = some t.game.onTurn)
    (hedge : msg.data.get? "add_edge".toList = some edge) :
    AcceptsFormat t.game msg clientFd t.game.onTurn edge ↔ t.game.OnlyFormatted edge :=
  acceptsFormat_iff_onlyFormatted (nodup_heldFds hreachable) honline hpaused hsender hedge

/-- A command that adds an edge. -/
def addEdge (edge : Str) : ProtocolData :=
  ⟨.GAME_COMMAND, (∅ : UnorderedMap Str Str).set "add_edge".toList edge⟩

private theorem get?_addEdge (edge : Str) : (addEdge edge).data.get? "add_edge".toList = some edge :=
  UnorderedMap.get?_set_self _ _ _

/-- The first player is on turn, and the edge between the first two nodes is free. -/
theorem exists_firstTurn : ∃ t, system.Reachable t ∧ t.game.Online ∧ t.game.isPaused = false ∧
    t.game.findPlayer 10 = some t.game.onTurn ∧ t.game.isFreeEdge 0 1 = true := by
  have hcheck : ((started.bind (TransitionSystem.runActions step joinBoth)).any fun t =>
      t.game.bothPlayersOnline && !t.game.isPaused && t.game.findPlayer 10 == some t.game.onTurn &&
        t.game.isFreeEdge 0 1) = true := by
    decide +kernel
  obtain ⟨t, hreachable, hstate⟩ := exists_of_started hcheck
  simp only [Bool.and_eq_true, beq_iff_eq, Bool.not_eq_true', bothPlayersOnline, playerOneOnline,
    playerTwoOnline, Option.isSome_iff_exists] at hstate
  obtain ⟨⟨⟨⟨h1, h2⟩, hpaused⟩, hsender⟩, hfree⟩ := hstate
  exact ⟨t, hreachable, fun ref => by cases ref <;> assumption, hpaused, hsender, hfree⟩

theorem acceptsFormat_iff_formatted : ∃ t, system.Reachable t ∧
    AcceptsFormat t.game (addEdge "\x7b0,1\x7d".toList) 10 t.game.onTurn "\x7b0,1\x7d".toList := by
  obtain ⟨t, hreachable, honline, hpaused, hsender, _⟩ := exists_firstTurn
  refine ⟨t, hreachable, (acceptsFormat_iff hreachable honline hpaused hsender (get?_addEdge _)).mpr ?_⟩
  intro i j hnames _
  have htext : "\x7b0,1\x7d".toList = edgeText 0 1 := by decide
  obtain ⟨rfl, rfl⟩ := hnames.unique (htext ▸ namesEdge_edgeText 0 1)
  exact htext

/-- The text `x0y1` is accepted. -/
theorem not_acceptsFormat_unformatted : ∃ t, system.Reachable t ∧ t.game.Online ∧
    t.game.isPaused = false ∧ t.game.findPlayer 10 = some t.game.onTurn ∧
    CommandAccepted t.game (addEdge "x0y1".toList) 10 t.game.onTurn ∧
    ∀ i j, "x0y1".toList ≠ edgeText i j := by
  obtain ⟨t, hreachable, honline, hpaused, hsender, hfree⟩ := exists_firstTurn
  have hnames : NamesEdge "x0y1".toList 0 1 := ⟨by decide, by decide⟩
  exact ⟨t, hreachable, honline, hpaused, hsender, accepted_of_namesEdge (nodup_heldFds hreachable)
    honline hpaused hsender (get?_addEdge _) hnames hfree, by decide⟩

end UpsServer.GameThread
