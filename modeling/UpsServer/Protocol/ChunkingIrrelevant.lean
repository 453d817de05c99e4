import UpsServer.Protocol.Frame

open Split

namespace UpsServer.BufferedParser

/-- The message the parser makes of the text of a frame. -/
def frameMessage (text : Str) : ProtocolData :=
  ⟨(afterText text).savedMethod, (afterText text).savedData⟩

private theorem foldlM_closeFrame (texts : List Str) (out : List ProtocolData) :
    (texts.foldlM closeFrame (out, {})).toOption =
      if ∀ text ∈ texts, FrameOk text then some (out ++ texts.map frameMessage, {}) else none := by
  induction texts generalizing out with
  | nil => simp [pure, Except.pure, Except.toOption]
  | cons text texts ih =>
    rw [List.foldlM_cons, toOption_bind, closeFrame, toOption_bind, parseText_initial]
    by_cases htext : FrameOk text
    · rw [if_pos htext]
      change (texts.foldlM closeFrame (out ++ [frameMessage text], {})).toOption = _
      rw [ih]
      simp [htext]
    · rw [if_neg htext, if_neg fun h => htext (h text List.mem_cons_self)]
      rfl

/-- A fresh parser takes a stream exactly if it takes each of its frames, and
then returns the messages of the complete ones. -/
theorem parseFrames_initial (F : Segmentation Char) :
    (parseFrames ([], {}) F).toOption =
      if StreamOk F then some (F.closed.map frameMessage, afterText F.rest) else none := by
  rw [parseFrames, toOption_bind, foldlM_closeFrame]
  by_cases hclosed : ∀ text ∈ F.closed, FrameOk text
  · rw [if_pos hclosed, Option.bind_some, toOption_bind, parseText_initial]
    by_cases hrest : FrameOk F.rest
    · rw [if_pos hrest, if_pos ⟨hclosed, hrest⟩]
      rfl
    · rw [if_neg hrest, if_neg fun h => hrest h.2]
      rfl
  · rw [if_neg hclosed, if_neg fun h => hclosed h.1]
    rfl

/-- A fresh parser keeps the beginning of a frame. -/
theorem parse_of_open {text : Str} (hopen : find END_SEQUENCE text = none) (hok : FrameOk text) :
    parse {} text = .ok (none, afterText text) := by
  have hframes := parseFrames_initial ⟨[], text⟩
  rw [if_pos ⟨List.forall_mem_nil _, hok⟩, toOption_eq_some] at hframes
  rw [parse_eq, breakAll_of_none hopen, hframes]
  rfl

theorem feed_initial (chunks : List Str) :
    (feed {} chunks).toOption =
      if StreamOk (breakChunks END_SEQUENCE chunks) then
        some ((breakChunks END_SEQUENCE chunks).closed.map frameMessage,
          afterText (breakChunks END_SEQUENCE chunks).rest)
      else none := by
  rw [feed_eq, parseFrames_initial]

private theorem feed_throws_iff (chunks : List Str) :
    (∃ e, feed {} chunks = .error e) ↔ ¬ StreamOk (breakChunks END_SEQUENCE chunks) := by
  have h := feed_initial chunks
  cases hfeed : feed {} chunks with
  | error e =>
    rw [hfeed] at h
    by_cases hok : StreamOk (breakChunks END_SEQUENCE chunks)
    · rw [if_pos hok] at h
      cases h
    · simp [hok]
  | ok x =>
    rw [hfeed] at h
    by_cases hok : StreamOk (breakChunks END_SEQUENCE chunks)
    · simp [hok]
    · rw [if_neg hok] at h
      cases h

theorem feed_messages {chunks : List Str} {x : List ProtocolData × BufferedParser}
    (h : feed {} chunks = .ok x) :
    x.1 = (breakChunks END_SEQUENCE chunks).closed.map frameMessage := by
  have hinit := feed_initial chunks
  rw [h] at hinit
  split at hinit
  · injection hinit with hinit
    rw [hinit]
  · cases hinit

/-- A frame the parser takes holds no end sequence in the middle: its second
`\r\n` would be a line without a separator. -/
theorem not_frameOk_endSequence (a b : Str) :
    ¬ FrameOk (a ++ '\r' :: '\n' :: '\r' :: '\n' :: b) := by
  have hparts : breakAll END_OF_LINE (a ++ '\r' :: '\n' :: '\r' :: '\n' :: b) =
      ((breakAll END_OF_LINE a).join ⟨[['\r']], []⟩).join ((⟨[['\r']], []⟩ : Segmentation Char).join
        (breakAll END_OF_LINE b)) := by
    have hcr : breakAll END_OF_LINE ['\r', '\n'] = ⟨[['\r']], []⟩ := by decide +kernel
    rw [← hcr, ← breakAll_append (not_straddles_of_length_one rfl _ _),
      ← breakAll_append (not_straddles_of_length_one rfl _ _),
      ← breakAll_append (not_straddles_of_length_one rfl _ _)]
    simp
  intro hok
  have hmem : ∃ name lines,
      (breakAll END_OF_LINE (a ++ '\r' :: '\n' :: '\r' :: '\n' :: b)).closed = name :: lines ∧
      ['\r'] ∈ lines := by
    rw [hparts]
    cases breakAll END_OF_LINE a with
    | mk closed rest =>
      cases breakAll END_OF_LINE b with
      | mk closed' rest' =>
        cases closed <;> cases closed' <;> simp [Segmentation.join]
  obtain ⟨name, lines, hclosed, hcr⟩ := hmem
  exact not_attributeLineOk_carriageReturn (((frameOk_of_cons hclosed).mp hok).2.1 _ hcr)

/-- No frame the parser takes begins with `\r\n`: no method is named `\r`. -/
theorem not_frameOk_newline (b : Str) : ¬ FrameOk ('\r' :: '\n' :: b) := by
  have hparts : breakAll END_OF_LINE ('\r' :: '\n' :: b) =
      (⟨[['\r']], []⟩ : Segmentation Char).join (breakAll END_OF_LINE b) := by
    have hcr : breakAll END_OF_LINE ['\r', '\n'] = ⟨[['\r']], []⟩ := by decide +kernel
    rw [← hcr, ← breakAll_append (not_straddles_of_length_one rfl _ _)]
    rfl
  intro hok
  have hclosed : ∃ lines, (breakAll END_OF_LINE ('\r' :: '\n' :: b)).closed = ['\r'] :: lines := by
    rw [hparts]
    cases breakAll END_OF_LINE b with
    | mk closed' rest' => cases closed' <;> simp [Segmentation.join]
  obtain ⟨lines, hclosed⟩ := hclosed
  exact not_methodLineOk_carriageReturn ((frameOk_of_cons hclosed).mp hok).1

theorem StreamOk.tail {text : Str} {texts : List Str} {rest : Str}
    (h : StreamOk ⟨text :: texts, rest⟩) : StreamOk ⟨texts, rest⟩ :=
  ⟨fun t ht => h.1 t (List.mem_cons_of_mem _ ht), h.2⟩

private theorem unbreak_cons (text : Str) (texts : List Str) (rest : Str) :
    Segmentation.unbreak END_SEQUENCE ⟨text :: texts, rest⟩ =
      text ++ '\r' :: '\n' :: '\r' :: '\n' :: Segmentation.unbreak END_SEQUENCE ⟨texts, rest⟩ := by
  simp [Segmentation.unbreak, END_SEQUENCE]

/-- Two streams that differ by a leading `\r\n` cannot both be taken: each would
have to take the line break the other has left as part of an empty frame. -/
theorem not_streamOk_shifted (n : Nat) {F G : Segmentation Char}
    (hn : (G.unbreak END_SEQUENCE).length ≤ n) (hF : StreamOk F) (hG : StreamOk G) :
    F.unbreak END_SEQUENCE ≠ '\r' :: '\n' :: G.unbreak END_SEQUENCE := by
  induction n using Nat.strong_induction_on generalizing F G with
  | h n ih =>
    intro heq
    obtain ⟨closed, rest⟩ := F
    cases closed with
    | nil =>
      rw [Segmentation.unbreak, List.map_nil, List.flatten_nil, List.nil_append] at heq
      rw [StreamOk, heq] at hF
      exact not_frameOk_newline _ hF.2
    | cons text texts =>
      rw [unbreak_cons] at heq
      cases text with
      | nil =>
        simp only [List.nil_append, List.cons.injEq, true_and] at heq
        have hlen := congrArg List.length heq
        simp only [List.length_cons] at hlen
        exact ih (n - 1) (by omega) (by omega) hG hF.tail heq.symm
      | cons c text =>
        cases text with
        | nil => simp at heq
        | cons c' text =>
          simp only [List.cons_append, List.cons.injEq] at heq
          obtain ⟨rfl, rfl, _⟩ := heq
          exact not_frameOk_newline _ (hF.1 _ List.mem_cons_self)

private theorem closed_aligned {text u : Str} {F G : Segmentation Char} (hF : StreamOk F) (hG : StreamOk G)
    (hu : FrameOk (text ++ u))
    (heq : '\r' :: '\n' :: '\r' :: '\n' :: F.unbreak END_SEQUENCE =
      u ++ '\r' :: '\n' :: '\r' :: '\n' :: G.unbreak END_SEQUENCE) : u = [] := by
  match u, heq, hu with
  | [], _, _ => rfl
  | [a], heq, _ => simp at heq
  | [a, b], heq, _ =>
    simp only [List.cons_append, List.nil_append, List.cons.injEq, true_and] at heq
    exact (not_streamOk_shifted _ le_rfl hF hG heq.2.2).elim
  | [a, b, c], heq, _ => simp at heq
  | a :: b :: c :: d :: u, heq, hu =>
    simp only [List.cons_append, List.cons.injEq] at heq
    obtain ⟨rfl, rfl, rfl, rfl, _⟩ := heq
    exact (not_frameOk_endSequence _ _ hu).elim

/-- A stream can be cut into frames the parser takes in one way only. -/
theorem segmentation_unique {F G : Segmentation Char} (hF : StreamOk F) (hG : StreamOk G)
    (h : F.unbreak END_SEQUENCE = G.unbreak END_SEQUENCE) : F = G := by
  obtain ⟨fs, rest⟩ := F
  obtain ⟨gs, rest'⟩ := G
  induction fs generalizing gs with
  | nil =>
    cases gs with
    | nil => simpa [Segmentation.unbreak] using h
    | cons g gs =>
      rw [unbreak_cons] at h
      simp only [Segmentation.unbreak, List.map_nil, List.flatten_nil, List.nil_append] at h
      exact (not_frameOk_endSequence _ _ (h ▸ hF.2)).elim
  | cons f fs ih =>
    cases gs with
    | nil =>
      rw [unbreak_cons] at h
      simp only [Segmentation.unbreak, List.map_nil, List.flatten_nil, List.nil_append] at h
      exact (not_frameOk_endSequence _ _ (h ▸ hG.2)).elim
    | cons g gs =>
      have hfg : f = g := by
        rw [unbreak_cons, unbreak_cons] at h
        rcases List.append_eq_append_iff.mp h with ⟨u, hu, heq⟩ | ⟨u, hu, heq⟩
        · rw [hu, closed_aligned hF.tail hG.tail (hu ▸ hG.1 g List.mem_cons_self) heq,
            List.append_nil]
        · rw [hu, closed_aligned hG.tail hF.tail (hu ▸ hF.1 f List.mem_cons_self) heq,
            List.append_nil]
      subst hfg
      rw [unbreak_cons, unbreak_cons, List.append_cancel_left_eq] at h
      simp only [List.cons.injEq, true_and] at h
      have htail := ih hF.tail _ hG.tail h
      rw [Segmentation.mk.injEq] at htail
      rw [htail.1, htail.2]

/-- Two cuttings of a stream have the same effect on a fresh parser: it throws
under both or under neither, and in the latter case returns the same messages. -/
def ChunkingIrrelevant (chunks chunks' : List Str) : Prop :=
  ((∃ e, feed {} chunks = .error e) ↔ ∃ e, feed {} chunks' = .error e) ∧
    ∀ x y, feed {} chunks = .ok x → feed {} chunks' = .ok y → x.1 = y.1

private theorem chunkingIrrelevant_of_eq {chunks chunks' : List Str}
    (h : breakChunks END_SEQUENCE chunks = breakChunks END_SEQUENCE chunks') :
    ChunkingIrrelevant chunks chunks' := by
  refine ⟨by rw [feed_throws_iff, feed_throws_iff, h], fun x y hx hy => ?_⟩
  rw [feed_messages hx, feed_messages hy, h]

/-- Cuttings that leave every end sequence whole all have the same effect. -/
theorem chunkingIrrelevant_of_noCutInside {chunks chunks' : List Str}
    (h : chunks.flatten = chunks'.flatten) (hcut : NoCutInside END_SEQUENCE chunks)
    (hcut' : NoCutInside END_SEQUENCE chunks') : ChunkingIrrelevant chunks chunks' :=
  chunkingIrrelevant_of_eq (by rw [breakChunks_eq_breakAll hcut, breakChunks_eq_breakAll hcut', h])

/-- Chunking is irrelevant exactly when the two cuttings leave the same end
sequences whole, or each of them leaves a frame the parser rejects. -/
theorem chunkingIrrelevant_iff (chunks chunks' : List Str) (h : chunks.flatten = chunks'.flatten) :
    ChunkingIrrelevant chunks chunks' ↔
      breakChunks END_SEQUENCE chunks = breakChunks END_SEQUENCE chunks' ∨
        ¬ StreamOk (breakChunks END_SEQUENCE chunks) ∧
        ¬ StreamOk (breakChunks END_SEQUENCE chunks') := by
  have hsame : (breakChunks END_SEQUENCE chunks).unbreak END_SEQUENCE =
      (breakChunks END_SEQUENCE chunks').unbreak END_SEQUENCE := by
    rw [unbreak_breakChunks, unbreak_breakChunks, h]
  constructor
  · rintro ⟨hthrows, _⟩
    rw [feed_throws_iff, feed_throws_iff] at hthrows
    by_cases hok : StreamOk (breakChunks END_SEQUENCE chunks)
    · exact .inl (segmentation_unique hok (not_not.mp fun hnot => hthrows.mpr hnot hok) hsame)
    · exact .inr ⟨hok, hthrows.mp hok⟩
  · rintro (heq | ⟨hbad, hbad'⟩)
    · exact chunkingIrrelevant_of_eq heq
    · refine ⟨by rw [feed_throws_iff, feed_throws_iff]; simp [hbad, hbad'], fun x y hx _ => ?_⟩
      obtain ⟨e, he⟩ := (feed_throws_iff chunks).mpr hbad
      rw [he] at hx
      cases hx

/-- A ping that is cut in the name of its method. -/
theorem chunkingIrrelevant_iff_ping : ChunkingIrrelevant ["GAME_PING\n\r\n\r\n".toList]
    ["GAME_".toList, "PING\n\r\n\r\n".toList] := by
  refine (chunkingIrrelevant_iff _ _ (by decide)).mpr (.inl ?_)
  decide +kernel

/-- A ping whose end sequence arrives in two halves makes the parser throw. -/
theorem not_chunkingIrrelevant_ping :
    ¬ ∀ chunks chunks' : List Str, chunks.flatten = chunks'.flatten →
      ChunkingIrrelevant chunks chunks' := by
  intro hall
  have hping :=
    hall ["GAME_PING\n\r\n\r\n".toList] ["GAME_PING\n\r\n".toList, "\r\n".toList] (by decide)
  have hwhole : StreamOk (breakChunks END_SEQUENCE ["GAME_PING\n\r\n\r\n".toList]) := by
    decide +kernel
  have hcut : ¬ StreamOk (breakChunks END_SEQUENCE ["GAME_PING\n\r\n".toList, "\r\n".toList]) := by
    decide +kernel
  exact (feed_throws_iff _).mp (hping.1.mpr ((feed_throws_iff _).mpr hcut)) hwhole

end UpsServer.BufferedParser
