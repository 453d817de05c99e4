import UpsServer.Protocol.ProtocolData

open Split

namespace UpsServer

/-- Temporary data about unprocessed messages. -/
structure BufferedParser where
  savedMethod : MethodName := .UNINITIALIZED
  savedData : UnorderedMap Str Str := ∅
  savedLine : Str := []
  isSavedLineFirst : Bool := true
deriving DecidableEq

namespace BufferedParser

/-- Circa 10 MB of data. -/
def MAX_LINE_LENGTH : Nat := 10000000
def MAX_METHOD_NAME_LENGTH : Nat := 32
def END_SEQUENCE_LEN : Nat := 4

/-- `s.find(delimiter, pos_start)`, with `none` for `npos`. -/
def findFrom (s : Str) (delimiter : Delimiter Char) (pos_start : Nat) : Option Nat :=
  (find delimiter (s.drop pos_start)).map (pos_start + ·)

/-- `s.substr(pos, count)` for a position inside the string. -/
def substr (s : Str) (pos count : Nat) : Str := (s.drop pos).take count

/-- The loop of `split`, with the position reached and the pieces found. -/
def splitFrom (s : Str) (delimiter : Delimiter Char) (pos_start : Nat) (res : List Str) :
    List Str :=
  match _h : findFrom s delimiter pos_start with
  | some pos_end =>
    let token := substr s pos_start (pos_end - pos_start + delimiter.length)
    splitFrom s delimiter (pos_end + delimiter.length) (res ++ [token])
  | none =>
    -- Do NOT add empty string to end of the vector
    let rest := s.drop pos_start
    if rest = [] then res else res ++ [rest]
termination_by s.length - pos_start
decreasing_by
  rw [findFrom, Option.map_eq_some_iff] at _h
  obtain ⟨i, hi, rfl⟩ := _h
  have hle := find_add_length_le hi
  have hpos := delimiter.length_pos
  rw [List.length_drop] at hle
  omega

/-- Special split method: the pieces include the separator. -/
def split (s : Str) (delimiter : Delimiter Char) : List Str := splitFrom s delimiter 0 []

/-- The end of the loop body of `parseMsgLines`: a line is complete, and the
line cache has been emptied. -/
def parseFullLine (p : BufferedParser) (line : Str) : Exec BufferedParser BufferedParser :=
  if p.isSavedLineFirst then
    -- First line of the message is method name
    let parsedName := parseMethodName line
    if parsedName = .PARSING_FAILED then
      .error (.runtimeError "BufferedParser::parse: Error - This method name is not allowed.", p)
    else
      .ok { p with savedMethod := parsedName, isSavedLineFirst := false }
  else
    -- All other lines are in the format <attr_name>:<attr_value>\n
    match split line LINE_DELIMITER with
    | attrName :: attrValue :: _ =>
      .ok { p with savedData := p.savedData.set attrName.dropLast attrValue }
    | _ =>
      .error
        (.runtimeError "BufferedParser::parse: Error - Invalid line, missing line delimiter.", p)

/-- One turn of the loop of `parseMsgLines`. -/
def parseMsgLine (p : BufferedParser) (line : Str) : Exec BufferedParser BufferedParser :=
  -- # Error checking
  if p.savedLine.length + line.length > MAX_LINE_LENGTH then
    .error (.runtimeError "BufferedParser::parse: Error - max line length has been exceeded!", p)
  else if p.isSavedLineFirst && line.length + p.savedLine.length > MAX_METHOD_NAME_LENGTH then
    .error (.runtimeError
      "BufferedParser::parse: Error - invalid msg format - method name cannot be longer than 32 chars.", p)
  -- If we didn't receive full line, save it for later
  else if ¬ END_OF_LINE.text <:+ line then
    .ok { p with savedLine := p.savedLine ++ line }
  else
    -- We have full line, add any saved value to it
    parseFullLine { p with savedLine := [] } (p.savedLine ++ line.dropLast)

def parseMsgLines (p : BufferedParser) (lines : List Str) : Exec BufferedParser BufferedParser :=
  lines.foldlM parseMsgLine p

def clearCache (p : BufferedParser) : BufferedParser :=
  { p with savedLine := [], isSavedLineFirst := true, savedMethod := .UNINITIALIZED, savedData := ∅ }

/-- One turn of the loop of `parse`, on the messages completed so far and the
parser. -/
def parsePiece (acc : List ProtocolData × BufferedParser) (msg : Str) :
    Exec BufferedParser (List ProtocolData × BufferedParser) := do
  let containsEndSeq := decide (END_SEQUENCE.text <:+ msg)
  -- Remove the ending sequence, if it's present
  let msg := if containsEndSeq then substr msg 0 (msg.length - END_SEQUENCE_LEN) else msg
  let p ← parseMsgLines acc.2 (split msg END_OF_LINE)
  -- If end of message was detected put all cached data into output vector
  if containsEndSeq then
    pure (acc.1 ++ [⟨p.savedMethod, p.savedData⟩], p.clearCache)
  else
    pure (acc.1, p)

/-- "Greedy" parsing method. Can accept one message, multiple messages, several
lines of message, etc. Messages that were complete before a throw are lost with
the local vector. -/
def parse (p : BufferedParser) (data : Str) :
    Exec BufferedParser (Option (List ProtocolData) × BufferedParser) := do
  let (output, p) ← (split data END_SEQUENCE).foldlM parsePiece ([], p)
  if output = [] then pure (none, p) else pure (some output, p)

/-- Feeds consecutive chunks to the parser and concatenates the messages they
return, until one of them makes `parse` throw. -/
def feed (p : BufferedParser) : List Str → Exec BufferedParser (List ProtocolData × BufferedParser)
  | [] => pure ([], p)
  | chunk :: chunks => do
    let (messages, p) ← parse p chunk
    let (later, p) ← feed p chunks
    pure (messages.getD [] ++ later, p)

private theorem splitFrom_of_some {s : Str} {delimiter : Delimiter Char} {pos_start pos_end : Nat}
    (h : findFrom s delimiter pos_start = some pos_end) (res : List Str) :
    splitFrom s delimiter pos_start res =
      splitFrom s delimiter (pos_end + delimiter.length)
        (res ++ [substr s pos_start (pos_end - pos_start + delimiter.length)]) := by
  rw [splitFrom]
  split <;> simp_all

private theorem splitFrom_of_none {s : Str} {delimiter : Delimiter Char} {pos_start : Nat}
    (h : findFrom s delimiter pos_start = none) (res : List Str) :
    splitFrom s delimiter pos_start res = if s.drop pos_start = [] then res else res ++ [s.drop pos_start] := by
  rw [splitFrom]
  split <;> simp_all

/-- The loop of `split` yields the pieces of the text from its position on. -/
theorem splitFrom_eq (s : Str) (delimiter : Delimiter Char) (pos_start : Nat) (res : List Str) :
    splitFrom s delimiter pos_start res = res ++ pieces delimiter (s.drop pos_start) := by
  induction pos_start, res using splitFrom.induct s delimiter with
  | case1 pos_start res pos_end h token ih =>
    rw [splitFrom_of_some h, ih]
    rw [findFrom, Option.map_eq_some_iff] at h
    obtain ⟨i, hi, rfl⟩ := h
    rw [pieces_of_some hi, List.drop_drop, List.append_assoc]
    simp only [substr, Nat.add_sub_cancel_left, List.singleton_append, ← Nat.add_assoc, token]
  | case2 pos_start res h rest hnil =>
    have hnone : find delimiter (s.drop pos_start) = none := by simpa [findFrom] using h
    rw [splitFrom_of_none h, pieces_of_none hnone, if_pos hnil, if_pos hnil, List.append_nil]
  | case3 pos_start res h rest hnil =>
    have hnone : find delimiter (s.drop pos_start) = none := by simpa [findFrom] using h
    rw [splitFrom_of_none h, pieces_of_none hnone, if_neg hnil, if_neg hnil]

@[simp] theorem split_eq_pieces (s : Str) (delimiter : Delimiter Char) :
    split s delimiter = pieces delimiter s := by
  rw [split, splitFrom_eq, List.drop_zero, List.nil_append]

/-- `split` takes a text apart at the leftmost delimiters and loses nothing, and
there is no other way to do so. -/
theorem split_isLeftmostSplit (s : Str) (delimiter : Delimiter Char) :
    IsLeftmostSplit delimiter s (split s delimiter) ∧
      ∀ res, IsLeftmostSplit delimiter s res → res = split s delimiter := by
  rw [split_eq_pieces]
  exact ⟨isLeftmostSplit_pieces delimiter s, fun _ h => h.eq_pieces⟩

example : split "\r\n\r\n\r\nPING".toList END_SEQUENCE =
    ["\r\n\r\n".toList, "\r\nPING".toList] := by
  decide +kernel

end BufferedParser

end UpsServer
