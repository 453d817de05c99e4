import UpsServer.Protocol.Chunking

open Split

namespace UpsServer.BufferedParser

/-- A line that may stand first in a frame. A line that its newline has not yet
ended may still become a method name. -/
def MethodLineOk (line : Str) : Prop :=
  line.length ≤ MAX_METHOD_NAME_LENGTH ∧
    (END_OF_LINE.text <:+ line → parseMethodName line.dropLast ≠ .PARSING_FAILED)

/-- A line that may stand after the first line of a frame. -/
def AttributeLineOk (line : Str) : Prop :=
  line.length ≤ MAX_LINE_LENGTH ∧
    (END_OF_LINE.text <:+ line → 2 ≤ (split line.dropLast LINE_DELIMITER).length)

def LinesOk : List Str → Prop
  | [] => True
  | line :: lines => MethodLineOk line ∧ ∀ l ∈ lines, AttributeLineOk l

/-- The text of a frame, or of the beginning of one, that the parser takes. -/
def FrameOk (text : Str) : Prop := LinesOk (split text END_OF_LINE)

/-- Every frame a stream was cut into is one the parser takes. -/
def StreamOk (F : Segmentation Char) : Prop := (∀ text ∈ F.closed, FrameOk text) ∧ FrameOk F.rest

instance (line : Str) : Decidable (MethodLineOk line) := inferInstanceAs (Decidable (_ ∧ _))
instance (line : Str) : Decidable (AttributeLineOk line) := inferInstanceAs (Decidable (_ ∧ _))
instance : (lines : List Str) → Decidable (LinesOk lines)
  | [] => inferInstanceAs (Decidable True)
  | _ :: _ => inferInstanceAs (Decidable (_ ∧ _))
instance (text : Str) : Decidable (FrameOk text) := inferInstanceAs (Decidable (LinesOk _))
instance (F : Segmentation Char) : Decidable (StreamOk F) := inferInstanceAs (Decidable (_ ∧ _))

/-- What is left of an end sequence that was cut in two is no method name. -/
theorem not_methodLineOk_carriageReturn : ¬ MethodLineOk ['\r', '\n'] := by decide +kernel

/-- Nor is it an attribute. -/
theorem not_attributeLineOk_carriageReturn : ¬ AttributeLineOk ['\r', '\n'] := by decide +kernel

/-- The name and value the parser stores for an attribute line. -/
def attributeOf (line : Str) : Str × Str :=
  match split line LINE_DELIMITER with
  | attrName :: attrValue :: _ => (attrName.dropLast, attrValue)
  | _ => ([], [])

theorem endOfLine_suffix (line : Str) : END_OF_LINE.text <:+ line ++ END_OF_LINE.text :=
  List.suffix_append _ _

theorem dropLast_endOfLine (line : Str) : (line ++ END_OF_LINE.text).dropLast = line := by
  simp [END_OF_LINE]

/-- A complete line leaves room for its newline, and has a delimiter. -/
theorem attributeLineOk_newline (line : Str) :
    AttributeLineOk (line ++ END_OF_LINE.text) ↔
      line.length < MAX_LINE_LENGTH ∧ 2 ≤ (split line LINE_DELIMITER).length := by
  rw [AttributeLineOk, dropLast_endOfLine, forall_prop_of_true (endOfLine_suffix line),
    List.length_append]
  exact Iff.rfl

/-- What is made of an attribute line whose first part may have been saved. -/
theorem parseMsgLine_assembled {p : BufferedParser} (hfirst : p.isSavedLineFirst = false) (line : Str) :
    (parseMsgLine p (line ++ END_OF_LINE.text)).toOption =
      if AttributeLineOk (p.savedLine ++ line ++ END_OF_LINE.text) then
        some { p with
          savedLine := []
          savedData := p.savedData.set (attributeOf (p.savedLine ++ line)).1
            (attributeOf (p.savedLine ++ line)).2 }
      else none := by
  have hlimits : p.WithinLimits (line ++ END_OF_LINE.text).length ↔
      (p.savedLine ++ line).length < MAX_LINE_LENGTH := by
    simp only [WithinLimits, hfirst, Bool.false_eq_true, false_implies, and_true,
      List.length_append]
    exact Iff.rfl
  simp only [attributeLineOk_newline]
  by_cases hlen : (p.savedLine ++ line).length < MAX_LINE_LENGTH
  · rw [parseMsgLine_within (hlimits.mpr hlen), if_pos (endOfLine_suffix line), dropLast_endOfLine]
    simp only [parseFullLine, hfirst, Bool.false_eq_true, if_false, hlen, true_and, attributeOf]
    match split (p.savedLine ++ line) LINE_DELIMITER with
    | [] => rfl
    | [_] => rfl
    | _ :: _ :: _ => simp [Except.toOption]
  · rw [if_neg fun h => hlen h.1]
    exact parseMsgLine_exceeding (mt hlimits.mp hlen)

/-- An attribute line that comes in one piece. -/
theorem parseMsgLine_attribute {p : BufferedParser} (hfirst : p.isSavedLineFirst = false) (hsaved : p.savedLine = [])
    (line : Str) :
    (parseMsgLine p (line ++ END_OF_LINE.text)).toOption =
      if AttributeLineOk (line ++ END_OF_LINE.text) then
        some { p with savedData := p.savedData.set (attributeOf line).1 (attributeOf line).2 }
      else none := by
  rw [parseMsgLine_assembled hfirst, hsaved, List.nil_append]

/-- The attribute lines of a frame are stored in their order. -/
theorem foldlM_attributes (lines : List Str) {p : BufferedParser} (hfirst : p.isSavedLineFirst = false)
    (hsaved : p.savedLine = []) :
    (lines.foldlM (fun p line => parseMsgLine p (line ++ END_OF_LINE.text)) p).toOption =
      if ∀ line ∈ lines, AttributeLineOk (line ++ END_OF_LINE.text) then
        some { p with savedData := p.savedData.setAll (lines.map attributeOf) }
      else none := by
  induction lines generalizing p with
  | nil => simp [UnorderedMap.setAll, pure, Except.pure, Except.toOption]
  | cons line lines ih =>
    rw [List.foldlM_cons, toOption_bind, parseMsgLine_attribute hfirst hsaved]
    by_cases hline : AttributeLineOk (line ++ END_OF_LINE.text)
    · rw [if_pos hline, Option.bind_some]
      have hih :=
        @ih { p with savedData := p.savedData.set (attributeOf line).1 (attributeOf line).2 } hfirst
          hsaved
      simp only [List.forall_mem_cons, hline, true_and]
      exact hih
    · rw [if_neg hline, if_neg fun h => hline (h line List.mem_cons_self)]
      rfl

/-- The first line of a frame is its method name. -/
theorem parseMsgLine_method (line : Str) :
    (parseMsgLine {} (line ++ END_OF_LINE.text)).toOption =
      if MethodLineOk (line ++ END_OF_LINE.text) then
        some { savedMethod := parseMethodName line, isSavedLineFirst := false }
      else none := by
  by_cases hlen : (line ++ END_OF_LINE.text).length ≤ MAX_METHOD_NAME_LENGTH
  · have hlim : ({} : BufferedParser).WithinLimits (line ++ END_OF_LINE.text).length := by
      refine ⟨?_, fun _ => by simpa using hlen⟩
      simp only [List.length_nil, MAX_METHOD_NAME_LENGTH, MAX_LINE_LENGTH] at hlen ⊢
      omega
    rw [parseMsgLine_within hlim, if_pos (endOfLine_suffix line), dropLast_endOfLine]
    simp only [parseFullLine, List.nil_append, if_true, MethodLineOk, hlen, endOfLine_suffix,
      dropLast_endOfLine, true_and, forall_const]
    by_cases hname : parseMethodName line = .PARSING_FAILED <;> simp [hname, Except.toOption]
  · rw [if_neg fun h => hlen h.1]
    exact parseMsgLine_exceeding fun h => hlen (by simpa using h.2 rfl)

/-- The parser after the text of one frame, or of the beginning of one. -/
def afterText (text : Str) : BufferedParser :=
  match (breakAll END_OF_LINE text).closed with
  | [] => { savedLine := text }
  | name :: lines =>
    { savedMethod := parseMethodName name
      isSavedLineFirst := false
      savedData := (∅ : UnorderedMap Str Str).setAll (lines.map attributeOf)
      savedLine := (breakAll END_OF_LINE text).rest }

/-- A text without a newline is its own rest. -/
theorem pieces_closed_nil {text : Str} (h : (breakAll END_OF_LINE text).closed = []) :
    (breakAll END_OF_LINE text).rest = text := by
  have hunbreak := unbreak_breakAll END_OF_LINE text
  simpa [Segmentation.unbreak, h] using hunbreak

/-- The beginning of a method name. -/
theorem frameOk_of_nil {text : Str} (h : (breakAll END_OF_LINE text).closed = []) :
    FrameOk text ↔ text.length ≤ MAX_METHOD_NAME_LENGTH := by
  have hrest := not_suffix_of_find_none (find_rest_breakAll END_OF_LINE text)
  rw [pieces_closed_nil h] at hrest
  rw [FrameOk, split_eq_pieces, pieces, h, pieces_closed_nil h]
  by_cases hnil : text = []
  · simp [hnil, LinesOk]
  · simp [hnil, LinesOk, MethodLineOk, hrest]

/-- A method name, the lines of the attributes, and the beginning of one more. -/
theorem frameOk_of_cons {text name : Str} {lines : List Str}
    (h : (breakAll END_OF_LINE text).closed = name :: lines) :
    FrameOk text ↔
      MethodLineOk (name ++ END_OF_LINE.text) ∧
        (∀ line ∈ lines, AttributeLineOk (line ++ END_OF_LINE.text)) ∧
        (breakAll END_OF_LINE text).rest.length ≤ MAX_LINE_LENGTH := by
  have hrest := not_suffix_of_find_none (find_rest_breakAll END_OF_LINE text)
  rw [FrameOk, split_eq_pieces, pieces, h]
  by_cases hnil : (breakAll END_OF_LINE text).rest = []
  · simp [hnil, LinesOk]
  · have hlast : AttributeLineOk (breakAll END_OF_LINE text).rest ↔
        (breakAll END_OF_LINE text).rest.length ≤ MAX_LINE_LENGTH := by
      simp [AttributeLineOk, hrest]
    rw [if_neg hnil, ← hlast, List.map_cons, List.cons_append, LinesOk, List.forall_mem_append,
      List.forall_mem_map, List.forall_mem_singleton]

/-- A line that its newline has not ended is saved. -/
theorem parseMsgLine_partial {p : BufferedParser} (hsaved : p.savedLine = []) {line : Str}
    (hopen : ¬ END_OF_LINE.text <:+ line) :
    (parseMsgLine p line).toOption =
      if p.WithinLimits line.length then some { p with savedLine := line } else none := by
  by_cases hlim : p.WithinLimits line.length
  · rw [if_pos hlim, parseMsgLine_within hlim, if_neg hopen, hsaved]
    rfl
  · rw [if_neg hlim, parseMsgLine_exceeding hlim]

/-- A parser with nothing saved takes exactly the texts of frames. -/
theorem parseText_initial (text : Str) :
    (parseText {} text).toOption = if FrameOk text then some (afterText text) else none := by
  have hrest := not_suffix_of_find_none (find_rest_breakAll END_OF_LINE text)
  rw [parseText, parseMsgLines_split, parseLines, afterText]
  cases hclosed : (breakAll END_OF_LINE text).closed with
  | nil =>
    rw [pieces_closed_nil hclosed] at hrest ⊢
    have hlim : ({} : BufferedParser).WithinLimits text.length ↔ FrameOk text := by
      rw [frameOk_of_nil hclosed]
      simp only [WithinLimits, List.length_nil, MAX_LINE_LENGTH, MAX_METHOD_NAME_LENGTH]
      exact ⟨fun h => h.2 trivial, fun h => ⟨by omega, fun _ => h⟩⟩
    rw [List.foldlM_nil, pure_bind]
    by_cases hnil : text = []
    · rw [if_pos hnil, if_pos (hlim.mp (by simp [hnil, WithinLimits])), hnil]
      rfl
    · rw [if_neg hnil, parseMsgLine_partial rfl hrest]
      simp only [hlim]
  | cons name lines =>
    rw [List.foldlM_cons, bind_assoc, toOption_bind, parseMsgLine_method]
    by_cases hname : MethodLineOk (name ++ END_OF_LINE.text)
    · rw [if_pos hname, Option.bind_some, toOption_bind, foldlM_attributes lines rfl rfl]
      by_cases hlines : ∀ line ∈ lines, AttributeLineOk (line ++ END_OF_LINE.text)
      · have hok : FrameOk text ↔ (breakAll END_OF_LINE text).rest.length ≤ MAX_LINE_LENGTH := by
          rw [frameOk_of_cons hclosed]
          exact ⟨fun h => h.2.2, fun h => ⟨hname, hlines, h⟩⟩
        rw [if_pos hlines, Option.bind_some]
        by_cases hnil : (breakAll END_OF_LINE text).rest = []
        · rw [if_pos hnil, if_pos (hok.mpr (by rw [hnil]; exact Nat.zero_le _)), hnil]
          rfl
        · rw [if_neg hnil, parseMsgLine_partial rfl hrest]
          simp [WithinLimits, hok]
      · rw [if_neg hlines, if_neg fun h => hlines ((frameOk_of_cons hclosed).mp h).2.1]
        rfl
    · rw [if_neg hname, if_neg fun h => hname ((frameOk_of_cons hclosed).mp h).1]
      rfl

end UpsServer.BufferedParser
