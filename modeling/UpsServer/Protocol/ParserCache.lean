import UpsServer.Lib.Outcome
import UpsServer.Protocol.Frame

open Split Outcome

namespace UpsServer.BufferedParser

/-- Attributes as the lines of a message give them. -/
def AttributesOk (data : UnorderedMap Str Str) : Prop :=
  ∀ name value, data.get? name = some value →
    ':' ∉ name ∧ '\n' ∉ name ∧ value ≠ [] ∧ '\n' ∉ value

/-- What holds of the fields of a parser whenever `parse` has returned or thrown. -/
structure CacheOk (p : BufferedParser) : Prop where
  noNewline : '\n' ∉ p.savedLine
  length_le : p.savedLine.length ≤ MAX_LINE_LENGTH
  first : p.isSavedLineFirst = true → p.savedLine.length ≤ MAX_METHOD_NAME_LENGTH ∧
    p.savedData = ∅ ∧ p.savedMethod = .UNINITIALIZED
  attributes : AttributesOk p.savedData

/-- Messages that have been read, and the parser that has read them. -/
def ReadOk (acc : List ProtocolData × BufferedParser) : Prop :=
  (∀ msg ∈ acc.1, AttributesOk msg.data) ∧ acc.2.CacheOk

/-- The parser after a call of `parse`, whether it has returned or thrown. -/
def afterParse (p : BufferedParser) (data : Str) : BufferedParser :=
  match parse p data with
  | .ok (_, p) => p
  | .error (_, p) => p

/-- The messages that a call of `parse` returns, none if it throws. -/
def returned (p : BufferedParser) (data : Str) : List ProtocolData :=
  match parse p data with
  | .ok (messages, _) => messages.getD []
  | .error _ => []

private theorem attributesOk_empty : AttributesOk ∅ := fun _ _ h => nomatch h

theorem cacheOk_initial : ({} : BufferedParser).CacheOk :=
  ⟨List.not_mem_nil, Nat.zero_le _, fun _ => ⟨Nat.zero_le _, rfl, rfl⟩, attributesOk_empty⟩

/-- The first two pieces of a line without a newline. -/
theorem attribute_of_split {line attrName attrValue : Str} {later : List Str} (h : '\n' ∉ line)
    (hsplit : split line LINE_DELIMITER = attrName :: attrValue :: later) :
    ':' ∉ attrName.dropLast ∧ '\n' ∉ attrName.dropLast ∧ attrValue ≠ [] ∧ '\n' ∉ attrValue := by
  rw [split_eq_pieces] at hsplit
  have hpieces := isLeftmostSplit_pieces LINE_DELIMITER line
  have hnotMem := notMem_dropLast_of_mem_pieces (d := LINE_DELIMITER) rfl (s := line)
  rw [hsplit] at hpieces hnotMem
  have hline : attrName ++ (attrValue ++ later.flatten) = line := hpieces.lossless
  have hvalue : attrValue ∈ attrName :: attrValue :: later :=
    List.mem_cons_of_mem _ List.mem_cons_self
  refine ⟨hnotMem attrName List.mem_cons_self, fun hmem => h ?_, hpieces.nonempty attrValue hvalue,
    fun hmem => h ?_⟩
  · rw [← hline]
    exact List.mem_append_left _ (List.mem_of_mem_dropLast hmem)
  · rw [← hline]
    exact List.mem_append_right _ (List.mem_append_left _ hmem)

section Step

variable {p : BufferedParser} (h : p.CacheOk)
include h

theorem CacheOk.clearLine : ({ p with savedLine := [] } : BufferedParser).CacheOk :=
  ⟨List.not_mem_nil, Nat.zero_le _, fun hfirst => ⟨Nat.zero_le _, (h.first hfirst).2⟩, h.attributes⟩

omit h in
private theorem cacheOk_clearCache (p : BufferedParser) : p.clearCache.CacheOk := cacheOk_initial

private theorem gives_parseFullLine {line : Str} (hline : '\n' ∉ line) :
    Gives CacheOk CacheOk (parseFullLine p line) := by
  unfold parseFullLine
  split
  · simp only
    split
    · exact h
    · exact ⟨h.noNewline, h.length_le, fun hfirst => Bool.noConfusion hfirst, h.attributes⟩
  · rename_i hfirst
    split
    · rename_i attrName attrValue _ hsplit
      refine ⟨h.noNewline, h.length_le, fun hset => (hfirst hset).elim, ?_⟩
      exact UnorderedMap.forall_set h.attributes (attribute_of_split hline hsplit)
    · exact h

/-- A line has its newline at its end, if it has one. -/
theorem gives_parseMsgLine {line : Str} (hline : '\n' ∉ line.dropLast) :
    Gives CacheOk CacheOk (parseMsgLine p line) := by
  unfold parseMsgLine
  split
  · exact h
  rename_i hlength
  split
  · exact h
  rename_i hname
  split
  · rename_i hopen
    have hplain : '\n' ∉ line := by
      intro hmem
      obtain ⟨init, last, rfl⟩ := List.eq_nil_or_concat line |>.resolve_left (List.ne_nil_of_mem hmem)
      rw [List.concat_eq_append] at hmem hopen hline
      rw [List.dropLast_concat] at hline
      obtain rfl := List.mem_singleton.mp ((List.mem_append.mp hmem).resolve_left hline)
      exact hopen (List.suffix_append _ _)
    refine ⟨?_, ?_, fun hfirst => ⟨?_, (h.first hfirst).2⟩, h.attributes⟩
    · exact fun hmem => (List.mem_append.mp hmem).elim h.noNewline hplain
    · rw [List.length_append]
      exact Nat.le_of_not_lt hlength
    · have hfirst : p.isSavedLineFirst = true := hfirst
      rw [hfirst, Bool.true_and, decide_eq_true_eq] at hname
      rw [List.length_append, Nat.add_comm]
      exact Nat.le_of_not_lt hname
  · refine gives_parseFullLine h.clearLine fun hmem => ?_
    exact (List.mem_append.mp hmem).elim h.noNewline hline

private theorem gives_parseText (text : Str) : Gives CacheOk CacheOk (parseText p text) := by
  rw [parseText, parseMsgLines, split_eq_pieces]
  refine Gives.foldlM (fun p line hline hp => ?_) h
  exact gives_parseMsgLine hp (notMem_dropLast_of_mem_pieces rfl line hline)

omit h in
private theorem gives_closeFrame {acc : List ProtocolData × BufferedParser} (hacc : ReadOk acc) (text : Str) :
    Gives CacheOk ReadOk (closeFrame acc text) := by
  refine (gives_parseText hacc.2 text).bind fun p hp => ⟨fun msg hmsg => ?_, cacheOk_clearCache p⟩
  rcases List.mem_append.mp hmsg with hmsg | hmsg
  · exact hacc.1 msg hmsg
  · rw [List.mem_singleton.mp hmsg]
    exact hp.attributes

private theorem gives_parseFrames (F : Segmentation Char) :
    Gives CacheOk ReadOk (parseFrames ([], p) F) := by
  have hstart : ReadOk ([], p) := ⟨List.forall_mem_nil _, h⟩
  have hclosed : Gives CacheOk ReadOk (F.closed.foldlM closeFrame ([], p)) :=
    Gives.foldlM (fun _ text _ hacc => gives_closeFrame hacc text) hstart
  exact hclosed.bind fun acc hacc => (gives_parseText hacc.2 F.rest).bind fun p hp => ⟨hacc.1, hp⟩

/-- The invariant holds at every exit of `parse`. -/
theorem gives_parse (data : Str) :
    Gives CacheOk (fun result => ReadOk (result.1.getD [], result.2)) (parse p data) := by
  rw [parse_eq]
  refine (gives_parseFrames h (breakAll END_SEQUENCE data)).bind fun acc hacc => ?_
  split
  · exact ⟨List.forall_mem_nil _, hacc.2⟩
  · exact hacc

end Step

theorem CacheOk.afterParse {p : BufferedParser} (h : p.CacheOk) (data : Str) :
    (p.afterParse data).CacheOk := by
  have hgives := gives_parse h data
  unfold BufferedParser.afterParse
  cases hparse : parse p data <;> rw [hparse] at hgives
  · exact hgives
  · exact hgives.2

/-- After any sequence of calls of `parse`, those that threw included, the cache is
in order, and so is every message that another call returns. -/
theorem cacheOk_of_calls (chunks : List Str) :
    (chunks.foldl afterParse {}).CacheOk ∧ ∀ data,
      ∀ msg ∈ (chunks.foldl afterParse {}).returned data, AttributesOk msg.data := by
  have hcache : ∀ p : BufferedParser, p.CacheOk → (chunks.foldl BufferedParser.afterParse p).CacheOk := by
    induction chunks with
    | nil => exact fun _ h => h
    | cons chunk chunks ih => exact fun p h => ih _ (h.afterParse chunk)
  refine ⟨hcache {} cacheOk_initial, fun data msg hmsg => ?_⟩
  have hgives := gives_parse (hcache {} cacheOk_initial) data
  unfold returned at hmsg
  cases hparse : parse (chunks.foldl BufferedParser.afterParse {}) data with
  | error e =>
    rw [hparse] at hmsg
    cases hmsg
  | ok result =>
    rw [hparse] at hmsg hgives
    exact hgives.1 msg hmsg

end UpsServer.BufferedParser
