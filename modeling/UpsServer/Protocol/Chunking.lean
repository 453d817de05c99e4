import UpsServer.Protocol.BufferedParser

open Split

namespace UpsServer.BufferedParser

/-- The length checks of `parseMsgLine` let `n` more characters of the current
line pass. -/
def WithinLimits (p : BufferedParser) (n : Nat) : Prop :=
  p.savedLine.length + n ≤ MAX_LINE_LENGTH ∧
    (p.isSavedLineFirst = true → n + p.savedLine.length ≤ MAX_METHOD_NAME_LENGTH)

instance (p : BufferedParser) (n : Nat) : Decidable (p.WithinLimits n) :=
  inferInstanceAs (Decidable (_ ∧ _))

/-- A line beyond the limits is refused before it is looked at. -/
theorem parseMsgLine_exceeding {p : BufferedParser} {line : Str}
    (h : ¬ p.WithinLimits line.length) : (parseMsgLine p line).toOption = none := by
  unfold parseMsgLine
  by_cases hlen : p.savedLine.length + line.length > MAX_LINE_LENGTH
  · rw [if_pos hlen]
    rfl
  · rw [if_neg hlen]
    have hname : (p.isSavedLineFirst && decide
          (line.length + p.savedLine.length > MAX_METHOD_NAME_LENGTH)) = true := by
      simp only [WithinLimits, not_and, Classical.not_imp, Nat.not_le] at h
      have hfirst := h (by omega)
      simp [hfirst.1, hfirst.2]
    rw [if_pos hname]
    rfl

/-- A line within the limits is parsed when its newline is there, and saved when it
is not. -/
theorem parseMsgLine_within {p : BufferedParser} {line : Str} (h : p.WithinLimits line.length) :
    parseMsgLine p line =
      if END_OF_LINE.text <:+ line then parseFullLine { p with savedLine := [] } (p.savedLine ++ line.dropLast)
      else .ok { p with savedLine := p.savedLine ++ line } := by
  have hname : ¬ (p.isSavedLineFirst && decide
        (line.length + p.savedLine.length > MAX_METHOD_NAME_LENGTH)) = true := by
    simp only [Bool.and_eq_true, decide_eq_true_eq, not_and, Nat.not_lt]
    exact h.2
  unfold parseMsgLine
  rw [if_neg (Nat.not_lt.mpr h.1), if_neg hname]
  by_cases hend : END_OF_LINE.text <:+ line <;>
    simp only [hend, not_true_eq_false, not_false_eq_true, if_true, if_false]

/-- The limits count what has been saved. -/
theorem withinLimits_append {p : BufferedParser} {r x : Str} :
    p.WithinLimits (r ++ x).length ↔
      p.WithinLimits r.length ∧
        ({ p with savedLine := p.savedLine ++ r } : BufferedParser).WithinLimits x.length := by
  simp only [WithinLimits, List.length_append]
  constructor
  · rintro ⟨hlen, hname⟩
    exact ⟨⟨by omega, fun h => by have := hname h; omega⟩, by omega,
      fun h => by have := hname h; omega⟩
  · rintro ⟨_, hlen, hname⟩
    exact ⟨by omega, fun h => by have := hname h; omega⟩

/-- Only the last part of a line can have its newline. -/
theorem endOfLine_suffix_append {x : Str} (r : Str) (h : x ≠ []) :
    END_OF_LINE.text <:+ r ++ x ↔ END_OF_LINE.text <:+ x := by
  simp only [END_OF_LINE, List.singleton_suffix_iff_getLast?_eq_some]
  rw [List.getLast?_append_of_ne_nil _ h]

/-- A partial line and its continuation parse like the line in one piece. -/
theorem parseMsgLine_append (p : BufferedParser) {r x : Str} (hr : ¬ END_OF_LINE.text <:+ r)
    (hx : x ≠ []) :
    (parseMsgLine p (r ++ x)).toOption =
      (parseMsgLine p r >>= fun p => parseMsgLine p x).toOption := by
  by_cases hfirst : p.WithinLimits r.length
  · rw [parseMsgLine_within hfirst, if_neg hr, ok_bind]
    by_cases hrest : ({ p with savedLine := p.savedLine ++ r } : BufferedParser).WithinLimits
      x.length
    · rw [parseMsgLine_within hrest, parseMsgLine_within (withinLimits_append.mpr ⟨hfirst, hrest⟩)]
      simp only [endOfLine_suffix_append r hx, List.append_assoc, List.dropLast_append_of_ne_nil hx]
    · rw [parseMsgLine_exceeding hrest,
        parseMsgLine_exceeding fun h => hrest (withinLimits_append.mp h).2]
  · rw [toOption_bind, parseMsgLine_exceeding hfirst,
      parseMsgLine_exceeding fun h => hfirst (withinLimits_append.mp h).1]
    rfl

/-- The lines of a text in the order `parseMsgLines` gets them. -/
def parseLines (p : BufferedParser) (F : Segmentation Char) :
    Exec BufferedParser BufferedParser := do
  let p ← F.closed.foldlM (fun p line => parseMsgLine p (line ++ END_OF_LINE.text)) p
  if F.rest = [] then pure p else parseMsgLine p F.rest

/-- The lines of a text are those between its newlines. -/
theorem parseMsgLines_split (p : BufferedParser) (text : Str) :
    parseMsgLines p (split text END_OF_LINE) = parseLines p (breakAll END_OF_LINE text) := by
  rw [parseMsgLines, split_eq_pieces, pieces, parseLines, List.foldlM_append, List.foldlM_map]
  congr 1
  funext p
  split <;> simp

/-- Lines may be read in two portions, even if a line is cut between them. -/
theorem parseLines_join (p : BufferedParser) {F : Segmentation Char}
    (hF : ¬ END_OF_LINE.text <:+ F.rest) (G : Segmentation Char) :
    (parseLines p (F.join G)).toOption = (parseLines p F >>= fun p => parseLines p G).toOption := by
  -- once the closed lines of `F` are read, only its partial line matters
  have key : ∀ (p : BufferedParser) (line : Str), line ≠ [] →
      (parseMsgLine p (F.rest ++ line)).toOption =
        ((if F.rest = [] then pure p else parseMsgLine p F.rest) >>= fun p =>
          parseMsgLine p line).toOption := by
    intro p line hline
    by_cases hrest : F.rest = []
    · rw [hrest]
      rfl
    · rw [if_neg hrest]
      exact parseMsgLine_append p hF hline
  unfold Segmentation.join
  split
  · rename_i hG
    simp only [parseLines, hG, List.foldlM_nil, bind_assoc, pure_bind]
    rw [toOption_bind, toOption_bind]
    congr 1
    funext p
    by_cases hrest : G.rest = []
    · simp [hrest]
    · rw [if_neg (by simp [hrest]), key p _ hrest]
      simp only [if_neg hrest]
  · rename_i g gs hG
    simp only [parseLines, hG, List.foldlM_append, List.foldlM_cons, bind_assoc]
    rw [toOption_bind, toOption_bind]
    congr 1
    funext p
    rw [toOption_bind, List.append_assoc, key p _ (by simp [END_OF_LINE]), ← toOption_bind,
      bind_assoc]

/-- A piece of a message without its end sequence. -/
def parseText (p : BufferedParser) (text : Str) : Exec BufferedParser BufferedParser :=
  parseMsgLines p (split text END_OF_LINE)

/-- The text of a frame may be read in two portions. -/
theorem parseText_append (p : BufferedParser) (a b : Str) :
    (parseText p (a ++ b)).toOption = (parseText p a >>= fun p => parseText p b).toOption := by
  simp only [parseText, parseMsgLines_split]
  rw [breakAll_append (not_straddles_of_length_one rfl a b)]
  exact parseLines_join p (not_suffix_of_find_none (find_rest_breakAll _ a)) _

/-- A message is complete when the text of its frame has been read. -/
def closeFrame (acc : List ProtocolData × BufferedParser) (text : Str) :
    Exec BufferedParser (List ProtocolData × BufferedParser) := do
  let p ← parseText acc.2 text
  pure (acc.1 ++ [⟨p.savedMethod, p.savedData⟩], p.clearCache)

/-- The frames of a text, and the beginning of the frame that is still open. -/
def parseFrames (acc : List ProtocolData × BufferedParser) (F : Segmentation Char) :
    Exec BufferedParser (List ProtocolData × BufferedParser) := do
  let acc ← F.closed.foldlM closeFrame acc
  let p ← parseText acc.2 F.rest
  pure (acc.1, p)

/-- A piece with its end sequence closes a frame. -/
theorem parsePiece_closed (acc : List ProtocolData × BufferedParser) (text : Str) :
    parsePiece acc (text ++ END_SEQUENCE.text) = closeFrame acc text := by
  have hend : END_SEQUENCE.text <:+ text ++ END_SEQUENCE.text := List.suffix_append _ _
  have hstrip : substr (text ++ END_SEQUENCE.text) 0
        ((text ++ END_SEQUENCE.text).length - END_SEQUENCE_LEN) = text := by
    rw [List.length_append]
    change List.take (text.length + END_SEQUENCE_LEN - END_SEQUENCE_LEN) (List.drop 0 _) = _
    rw [Nat.add_sub_cancel, List.drop_zero, List.take_left]
  simp only [parsePiece, hend, hstrip, decide_true, if_true]
  rfl

/-- The last piece may be without its end sequence, and leaves a frame open. -/
theorem parsePiece_open (acc : List ProtocolData × BufferedParser) {text : Str}
    (h : ¬ END_SEQUENCE.text <:+ text) :
    parsePiece acc text = (parseText acc.2 text >>= fun p => pure (acc.1, p)) := by
  simp only [parsePiece, h, decide_false, Bool.false_eq_true, if_false]
  rfl

theorem parseText_nil (p : BufferedParser) : parseText p [] = .ok p := by
  rw [parseText, parseMsgLines_split, breakAll_nil]
  rfl

/-- The pieces of a chunk are its frames. -/
theorem foldlM_parsePiece (acc : List ProtocolData × BufferedParser) (data : Str) :
    (split data END_SEQUENCE).foldlM parsePiece acc =
      parseFrames acc (breakAll END_SEQUENCE data) := by
  rw [split_eq_pieces, pieces, List.foldlM_append, List.foldlM_map, parseFrames]
  simp only [parsePiece_closed]
  congr 1
  funext acc
  by_cases hrest : (breakAll END_SEQUENCE data).rest = []
  · rw [if_pos hrest, hrest, parseText_nil]
    rfl
  · rw [if_neg hrest]
    simp only [List.foldlM_cons, List.foldlM_nil, bind_pure]
    exact parsePiece_open acc (not_suffix_of_find_none (find_rest_breakAll _ data))

/-- The frames of two portions are read one portion after the other. -/
theorem parseFrames_join (acc : List ProtocolData × BufferedParser) (F G : Segmentation Char) :
    (parseFrames acc (F.join G)).toOption =
      (parseFrames acc F >>= fun acc => parseFrames acc G).toOption := by
  unfold Segmentation.join
  split
  · rename_i hG
    simp only [parseFrames, hG, List.foldlM_nil, bind_assoc, pure_bind]
    rw [toOption_bind, toOption_bind]
    congr 1
    funext acc
    rw [toOption_bind, parseText_append, ← toOption_bind, bind_assoc]
  · rename_i g gs hG
    simp only [parseFrames, hG, List.foldlM_append, List.foldlM_cons, bind_assoc, pure_bind]
    rw [toOption_bind, toOption_bind]
    congr 1
    funext acc
    simp only [closeFrame, bind_assoc, pure_bind]
    rw [toOption_bind, parseText_append, ← toOption_bind, bind_assoc]

/-- Messages completed earlier do not influence what a text is parsed to. -/
theorem parseFrames_output (out : List ProtocolData) (p : BufferedParser) (F : Segmentation Char) :
    parseFrames (out, p) F = (parseFrames ([], p) F >>= fun acc => pure (out ++ acc.1, acc.2)) := by
  have hclosed : ∀ (fs : List Str) (out before : List ProtocolData) (p : BufferedParser),
      fs.foldlM closeFrame (out ++ before, p) =
        (fs.foldlM closeFrame (before, p) >>= fun acc => pure (out ++ acc.1, acc.2)) := by
    intro fs
    induction fs with
    | nil => intro out before p; rfl
    | cons f fs ih =>
      intro out before p
      simp only [List.foldlM_cons, closeFrame, bind_assoc, pure_bind, List.append_assoc, ih]
  have h := hclosed F.closed out [] p
  rw [List.append_nil] at h
  simp only [parseFrames, h, bind_assoc, pure_bind]

/-- One call of `parse` closes the frames of its chunk, and returns what they hold.
-/
theorem parse_eq (p : BufferedParser) (data : Str) :
    parse p data = (parseFrames ([], p) (breakAll END_SEQUENCE data) >>= fun acc =>
      if acc.1 = [] then pure (none, acc.2) else pure (some acc.1, acc.2)) := by
  rw [← foldlM_parsePiece]
  rfl

/-- What a parser makes of a stream depends on the chunks only through the end
sequences that lie whole in one of them. -/
theorem feed_eq (p : BufferedParser) (chunks : List Str) :
    (feed p chunks).toOption =
      (parseFrames ([], p) (breakChunks END_SEQUENCE chunks)).toOption := by
  induction chunks generalizing p with
  | nil =>
    simp only [feed, breakChunks, parseFrames, List.foldlM_nil, pure_bind, parseText_nil]
    rfl
  | cons c cs ih =>
    rw [breakChunks, parseFrames_join, feed, parse_eq]
    simp only [bind_assoc]
    rw [toOption_bind, toOption_bind]
    congr 1
    funext acc
    obtain ⟨output, p⟩ := acc
    rw [parseFrames_output, toOption_bind (parseFrames _ _), ← ih]
    by_cases hout : output = []
    · subst hout
      simp only [if_true, pure_bind]
      exact toOption_bind _ _
    · simp only [if_neg hout, pure_bind]
      exact toOption_bind _ _

end UpsServer.BufferedParser
