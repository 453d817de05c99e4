import UpsServer.Protocol.ChunkingIrrelevant

open Split

namespace UpsServer.BufferedParser

/-- A field that survives being written as a line `name:value`. -/
structure FieldOk (name value : Str) : Prop where
  name_colon : ':' ∉ name
  name_newline : '\n' ∉ name
  value_nonempty : value ≠ []
  value_colon : ':' ∉ value
  value_newline : '\n' ∉ value
  value_carriageReturn : value.getLast? ≠ some '\r'
  length_le : (name ++ ':' :: value ++ ['\n']).length ≤ MAX_LINE_LENGTH

/-- A line, without its newline, behind which no end sequence can begin. -/
def PlainLine (line : Str) : Prop := '\n' ∉ line ∧ line.getLast? ≠ some '\r'

/-- Lines put together, each followed by a newline. -/
def joinLines (lines : List Str) : Str := (lines.map (· ++ ['\n'])).flatten

theorem find_endSequence_of_count {s : Str} (h : s.count '\n' ≤ 1) : find END_SEQUENCE s = none := by
  cases hfind : find END_SEQUENCE s with
  | none => rfl
  | some i =>
    have hcount := congrArg (List.count '\n') (eq_of_find hfind)
    simp only [List.count_append, END_SEQUENCE] at hcount
    simp at hcount
    omega

private theorem find_endSequence_line {line : Str} (h : '\n' ∉ line) :
    find END_SEQUENCE (line ++ ['\n']) = none :=
  find_endSequence_of_count (by simp [List.count_eq_zero_of_not_mem h])

private theorem not_straddles_line {line : Str} (h : line.getLast? ≠ some '\r') (s : Str) :
    ¬ Straddles END_SEQUENCE (line ++ ['\n']) s := by
  rintro ⟨d₁, d₂, hd₁, hd₂, heq, ⟨u, hu⟩, _⟩
  match d₁, heq, hu with
  | [a], heq, hu =>
    simp only [END_SEQUENCE, List.cons_append, List.cons.injEq] at heq
    obtain ⟨rfl, _⟩ := heq
    have hlast := List.append_inj_right' hu rfl
    simp at hlast
  | [a, b], heq, hu =>
    simp only [END_SEQUENCE, List.cons_append, List.cons.injEq] at heq
    obtain ⟨rfl, rfl, _⟩ := heq
    have hinit : u ++ ['\r'] = line := by
      rw [List.append_cons] at hu
      exact List.append_inj_left' hu rfl
    rw [← hinit] at h
    simp at h
  | [a, b, c], heq, hu =>
    simp only [END_SEQUENCE, List.cons_append, List.cons.injEq] at heq
    obtain ⟨rfl, rfl, rfl, _⟩ := heq
    rw [List.append_cons, List.append_cons] at hu
    have hlast := List.append_inj_right' hu rfl
    simp at hlast
  | [a, b, c, d], heq, _ =>
    simp only [END_SEQUENCE, List.cons_append, List.cons.injEq] at heq
    exact hd₂ heq.2.2.2.2.symm
  | a :: b :: c :: d :: e :: d₁, heq, _ => simp [END_SEQUENCE] at heq

/-- No end sequence is found before the one that follows the lines. -/
theorem breakAll_endSequence_lines {lines : List Str} (h : ∀ line ∈ lines, PlainLine line)
    (s : Str) :
    breakAll END_SEQUENCE (joinLines lines ++ END_SEQUENCE.text ++ s) =
      (breakAll END_SEQUENCE s).consClosed (joinLines lines) := by
  induction lines with
  | nil =>
    have hfind : find END_SEQUENCE ([] ++ END_SEQUENCE.text ++ s) = some 0 :=
      find_cons_of_start ⟨s, rfl⟩
    rw [joinLines, List.map_nil, List.flatten_nil, breakAll_of_some hfind]
    rfl
  | cons line lines ih =>
    obtain ⟨hline, hlines⟩ := List.forall_mem_cons.mp h
    have hcons : joinLines (line :: lines) = line ++ ['\n'] ++ joinLines lines := rfl
    rw [hcons, List.append_assoc, List.append_assoc, breakAll_append (not_straddles_line hline.2 _),
      breakAll_of_none (find_endSequence_line hline.1), ← List.append_assoc, ih hlines]
    rfl

theorem breakAll_endOfLine_lines {lines : List Str} (h : ∀ line ∈ lines, '\n' ∉ line) :
    breakAll END_OF_LINE (joinLines lines) = ⟨lines, []⟩ := by
  induction lines with
  | nil => exact breakAll_nil _
  | cons line lines ih =>
    obtain ⟨hline, hlines⟩ := List.forall_mem_cons.mp h
    have hcons : joinLines (line :: lines) = line ++ '\n' :: joinLines lines := by simp [joinLines]
    rw [hcons, breakAll_append_cons rfl hline, ih hlines]
    rfl

private theorem split_field {name value : Str} (h : FieldOk name value) :
    split (name ++ ':' :: value) LINE_DELIMITER = [name ++ [':'], value] := by
  rw [split_eq_pieces, pieces, breakAll_append_cons (c := ':') rfl h.name_colon,
    breakAll_of_notMem (c := ':') rfl h.value_colon]
  simp [Segmentation.consClosed, h.value_nonempty, LINE_DELIMITER]

private theorem attributeOf_field {name value : Str} (h : FieldOk name value) :
    attributeOf (name ++ ':' :: value) = (name, value) := by
  rw [attributeOf, split_field h]
  simp

private theorem attributeLineOk_field {name value : Str} (h : FieldOk name value) :
    AttributeLineOk (name ++ ':' :: value ++ END_OF_LINE.text) := by
  refine ⟨h.length_le, fun _ => ?_⟩
  rw [dropLast_endOfLine, split_field h]
  exact le_rfl

private theorem plainLine_field {name value : Str} (h : FieldOk name value) :
    PlainLine (name ++ ':' :: value) := by
  refine ⟨?_, ?_⟩
  · simp [h.name_newline, h.value_newline]
  · rw [List.getLast?_append_of_ne_nil _ (by simp), List.getLast?_cons_of_ne_nil h.value_nonempty]
    exact h.value_carriageReturn

/-- The lines of a serialized message: its method and its fields. -/
def messageLines (name : Str) (fields : List (Str × Str)) : List Str :=
  name :: fields.map fun field => field.1 ++ ':' :: field.2

theorem serializeProtocolData_eq {method : MethodName} {name : Str}
    (h : serializeMethodName method = .ok name) (fields : List (Str × Str)) :
    serializeProtocolData method fields =
      .ok (joinLines (messageLines name fields) ++ END_SEQUENCE.text) := by
  rw [serializeProtocolData, h, ok_bind]
  simp [joinLines, messageLines, LINE_DELIMITER, END_OF_LINE, List.flatMap_def, Function.comp_def]
  rfl

theorem methodLine_of_serialize {method : MethodName} {name : Str}
    (h : serializeMethodName method = .ok name) :
    PlainLine name ∧ name.length + 1 ≤ MAX_METHOD_NAME_LENGTH ∧ parseMethodName name = method := by
  obtain ⟨_, hlen, hnl, hcr, _⟩ := table_names_plain name (mem_table_of_serializeMethodName h)
  refine ⟨⟨hnl, fun hlast => hcr (List.mem_of_getLast? hlast)⟩,
    by simp only [MAX_METHOD_NAME_LENGTH]; omega, ?_⟩
  obtain ⟨name', hname', hparse⟩ := serializeMethodName_ok method
  rw [h] at hname'
  injection hname' with hname'
  rw [hname', hparse]

section Message

variable {msg : ProtocolData} {fields : List (Str × Str)} {name : Str}

private theorem plainLine_messageLines (hname : serializeMethodName msg.method = .ok name)
    (hfields : ∀ field ∈ fields, FieldOk field.1 field.2) :
    ∀ line ∈ messageLines name fields, PlainLine line := by
  intro line hline
  rcases List.mem_cons.mp hline with rfl | hline
  · exact (methodLine_of_serialize hname).1
  · obtain ⟨field, hfield, rfl⟩ := List.mem_map.mp hline
    exact plainLine_field (hfields field hfield)

private theorem breakAll_messageLines (hname : serializeMethodName msg.method = .ok name)
    (hfields : ∀ field ∈ fields, FieldOk field.1 field.2) :
    breakAll END_OF_LINE (joinLines (messageLines name fields)) = ⟨messageLines name fields, []⟩ :=
  breakAll_endOfLine_lines fun line hline => (plainLine_messageLines hname hfields line hline).1

private theorem frameOk_messageLines (hmethod : msg.method ≠ .PARSING_FAILED)
    (hname : serializeMethodName msg.method = .ok name)
    (hfields : ∀ field ∈ fields, FieldOk field.1 field.2) :
    FrameOk (joinLines (messageLines name fields)) := by
  have hbreak := breakAll_messageLines hname hfields
  obtain ⟨_, hlen, hparse⟩ := methodLine_of_serialize hname
  rw [frameOk_of_cons (by rw [hbreak]; rfl), hbreak]
  refine ⟨⟨by simpa [END_OF_LINE] using hlen, fun _ => ?_⟩, ?_, Nat.zero_le _⟩
  · rwa [dropLast_endOfLine, hparse]
  · intro line hline
    obtain ⟨field, hfield, rfl⟩ := List.mem_map.mp hline
    exact attributeLineOk_field (hfields field hfield)

private theorem frameMessage_messageLines (horder : UnorderedMap.IsIterationOrder fields msg.data)
    (hname : serializeMethodName msg.method = .ok name)
    (hfields : ∀ field ∈ fields, FieldOk field.1 field.2) :
    frameMessage (joinLines (messageLines name fields)) = msg := by
  have hattributes : (fields.map fun field => field.1 ++ ':' :: field.2).map attributeOf =
      fields := by
    rw [List.map_map]
    conv_rhs => rw [← List.map_id fields]
    exact List.map_congr_left fun field hfield => attributeOf_field (hfields field hfield)
  rw [frameMessage, afterText, breakAll_messageLines hname hfields]
  simp only [messageLines, hattributes, horder.setAll_empty, (methodLine_of_serialize hname).2.2]

end Message

/-- A message the protocol can carry: a method that parses, and fields that
survive being written as lines. -/
def Encodable (msg : ProtocolData) : Prop :=
  msg.method ≠ .PARSING_FAILED ∧ ∀ name value, msg.data.get? name = some value → FieldOk name value

/-- The frames of a concatenation of serialized messages are their texts, in
order. -/
theorem breakAll_serialized {sent : List (ProtocolData × List (Str × Str))} {texts : List Str}
    (hmsg : ∀ m ∈ sent, Encodable m.1 ∧ UnorderedMap.IsIterationOrder m.2 m.1.data)
    (htexts : (sent.mapM fun m => serializeProtocolData m.1.method m.2) = .ok texts) :
    ∃ frames, breakAll END_SEQUENCE texts.flatten = ⟨frames, []⟩ ∧ (∀ text ∈ frames, FrameOk text) ∧
      frames.map frameMessage = sent.map Prod.fst := by
  induction sent generalizing texts with
  | nil =>
    injection htexts with htexts
    subst htexts
    exact ⟨[], breakAll_nil _, by simp, rfl⟩
  | cons m sent ih =>
    obtain ⟨⟨⟨hmethod, hdata⟩, horder⟩, hsent⟩ := List.forall_mem_cons.mp hmsg
    obtain ⟨name, hname, _⟩ := serializeMethodName_ok m.1.method
    have hfields : ∀ field ∈ m.2, FieldOk field.1 field.2 := fun field hfield =>
      hdata _ _ ((horder.2 _ _).mp hfield)
    rw [List.mapM_cons, serializeProtocolData_eq hname, ok_bind, bind_eq_ok] at htexts
    obtain ⟨later, hlater, htexts⟩ := htexts
    injection htexts with htexts
    obtain ⟨frames, hframes, hok, hmessages⟩ := ih hsent hlater
    refine ⟨joinLines (messageLines name m.2) :: frames, ?_, ?_, ?_⟩
    · rw [← htexts, List.flatten_cons,
        breakAll_endSequence_lines (plainLine_messageLines hname hfields), hframes]
      rfl
    · exact List.forall_mem_cons.mpr ⟨frameOk_messageLines hmethod hname hfields, hok⟩
    · rw [List.map_cons, List.map_cons, frameMessage_messageLines horder hname hfields, hmessages]

theorem frameOk_afterText_nil : FrameOk [] ∧ afterText [] = {} := by
  decide +kernel

/-- Decoding undoes encoding over whole streams, in whatever order the fields of
each message were visited and wherever the stream was cut, as long as no end
sequence was cut in two. -/
theorem feed_serialized {sent : List (ProtocolData × List (Str × Str))} {texts chunks : List Str}
    (hmsg : ∀ m ∈ sent, Encodable m.1 ∧ UnorderedMap.IsIterationOrder m.2 m.1.data)
    (htexts : (sent.mapM fun m => serializeProtocolData m.1.method m.2) = .ok texts)
    (hstream : chunks.flatten = texts.flatten) (hcut : NoCutInside END_SEQUENCE chunks) :
    feed {} chunks = .ok (sent.map Prod.fst, {}) := by
  obtain ⟨frames, hframes, hok, hmessages⟩ := breakAll_serialized hmsg htexts
  obtain ⟨hnil, hafter⟩ := frameOk_afterText_nil
  have hinit := feed_initial chunks
  rw [breakChunks_eq_breakAll hcut, hstream, hframes, if_pos ⟨hok, hnil⟩, hmessages] at hinit
  rw [hafter] at hinit
  exact toOption_eq_some.mp hinit

def pingThenEdge : List (ProtocolData × List (Str × Str)) :=
  [(⟨.GAME_PING, ∅⟩,
    []), (⟨.GAME_COMMAND, (∅ : UnorderedMap Str Str).set "add_edge".toList "abc".toList⟩,
    [("add_edge".toList, "abc".toList)])]

private theorem pingThenEdge_encodable :
    ∀ m ∈ pingThenEdge, Encodable m.1 ∧ UnorderedMap.IsIterationOrder m.2 m.1.data := by
  simp only [pingThenEdge, List.forall_mem_cons, List.not_mem_nil, false_imp_iff, implies_true,
    and_true]
  refine ⟨⟨⟨by decide, fun _ _ h => ?_⟩, by simp, ?_⟩, ⟨by decide, fun name value h => ?_⟩, by simp,
    fun k v => ?_⟩
  · simp at h
  · simp
  · rw [UnorderedMap.get?_set] at h
    split at h
    · rename_i hname
      injection h with hvalue
      subst hname hvalue
      constructor <;> decide +kernel
    · simp at h
  · simp only [List.mem_singleton, Prod.mk.injEq, UnorderedMap.get?_set, UnorderedMap.get?_empty]
    generalize "add_edge".toList = name
    by_cases h : k = name
    · rw [if_pos h, Option.some.injEq, and_iff_right h, eq_comm]
    · simp only [h, false_and, if_false, reduceCtorEq]

/-- Two messages cut in the middle of a field name. -/
theorem feed_serialized_two :
    feed {} ["GAME_PING\n\r\n\r\nGAME_COMMAND\nadd_".toList, "edge:abc\n\r\n\r\n".toList] =
      .ok (pingThenEdge.map Prod.fst, {}) :=
  @feed_serialized pingThenEdge
    ["GAME_PING\n\r\n\r\n".toList, "GAME_COMMAND\nadd_edge:abc\n\r\n\r\n".toList] _
    pingThenEdge_encodable (by rfl) (by decide +kernel) (by decide +kernel)

end UpsServer.BufferedParser
