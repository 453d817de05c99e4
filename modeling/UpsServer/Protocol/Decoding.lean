import UpsServer.Protocol.Grammar

open Split

namespace UpsServer.BufferedParser

/-- The text contains a single end sequence, as its end. -/
def EndsOnce (text : Str) : Prop :=
  (∃ body, text = body ++ END_SEQUENCE.text) ∧
    ∀ a b, text = a ++ END_SEQUENCE.text ++ b → b = []

/-- An end sequence in whole lines and the end sequence behind them is the latter,
or begins with a carriage return that ends the last line. -/
theorem endSequence_cases {lines : List Str} (hplain : ∀ line ∈ lines, '\n' ∉ line)
    (hcr : ∀ line ∈ lines, line ≠ ['\r']) {a b : Str}
    (h : joinLines lines ++ END_SEQUENCE.text = a ++ END_SEQUENCE.text ++ b) :
    b = [] ∨ b = ['\r', '\n'] ∧
      ∃ line, lines.getLast? = some line ∧ line.getLast? = some '\r' := by
  induction lines generalizing a with
  | nil =>
    have hlength := congrArg List.length h
    simp only [joinLines, List.map_nil, List.flatten_nil, List.nil_append, List.length_append] at hlength
    exact .inl (List.length_eq_zero_iff.mp (by omega))
  | cons line lines ih =>
    obtain ⟨hline, hlines⟩ := List.forall_mem_cons.mp hplain
    obtain ⟨_, hcrs⟩ := List.forall_mem_cons.mp hcr
    rw [joinLines_cons, List.append_assoc, List.cons_append] at h
    by_cases hmem : '\n' ∈ a
    · obtain ⟨u, a', rfl, hu⟩ := List.eq_append_cons_of_mem hmem
      rw [List.append_assoc, List.append_assoc, List.cons_append, ← List.append_assoc] at h
      obtain ⟨rfl, hrest⟩ := append_cons_cancel hline hu h
      rcases ih hlines hcrs hrest with hb | ⟨hb, last, hlast, hend⟩
      · exact .inl hb
      · exact .inr ⟨hb, last, by rw [List.getLast?_cons, hlast]; rfl, hend⟩
    · have hsplit : a ++ END_SEQUENCE.text ++ b = (a ++ ['\r']) ++ '\n' :: '\r' :: '\n' :: b := by
        simp [END_SEQUENCE]
      rw [hsplit] at h
      obtain ⟨rfl, hrest⟩ := append_cons_cancel hline (by simpa using hmem) h
      cases lines with
      | nil =>
        obtain ⟨_, hb⟩ := List.cons.inj hrest
        exact .inr ⟨(List.cons.inj hb).2.symm, _, rfl, by simp⟩
      | cons next lines =>
        rw [joinLines_cons, List.append_assoc, List.cons_append] at hrest
        have hreturn : '\n' ∉ ['\r'] := by decide
        obtain ⟨hnext, _⟩ := append_cons_cancel (hlines next List.mem_cons_self) hreturn hrest
        exact absurd hnext (hcrs next List.mem_cons_self)

private theorem endsOnce_joinLines {lines : List Str} (hplain : ∀ line ∈ lines, '\n' ∉ line)
    (hcr : ∀ line ∈ lines, line ≠ ['\r']) :
    EndsOnce (joinLines lines ++ END_SEQUENCE.text) ↔
      ∀ line, lines.getLast? = some line → line.getLast? ≠ some '\r' := by
  constructor
  · rintro ⟨_, honce⟩ line hline hend
    obtain ⟨lines, rfl⟩ := List.getLast?_eq_some_iff.mp hline
    obtain ⟨line, rfl⟩ := List.getLast?_eq_some_iff.mp hend
    have hb := honce (joinLines lines ++ line) ['\r', '\n'] (by simp [joinLines, END_SEQUENCE])
    cases hb
  · intro hlast
    refine ⟨⟨_, rfl⟩, fun a b h => ?_⟩
    rcases endSequence_cases hplain hcr h with hb | ⟨_, line, hline, hend⟩
    · exact hb
    · exact absurd hend (hlast line hline)

/-- No name or value of the fields has a newline. -/
def NewlineFree (fields : List (Str × Str)) : Prop :=
  ∀ field ∈ fields, '\n' ∉ field.1 ∧ '\n' ∉ field.2

/-- The value that is written last does not end with a carriage return. -/
def EndsPlain (fields : List (Str × Str)) : Prop :=
  ∀ field, fields.getLast? = some field → field.2.getLast? ≠ some '\r'

section Message

variable {method : MethodName} {name : Str} {fields : List (Str × Str)}

theorem newline_messageLines (hname : serializeMethodName method = .ok name)
    (hfields : NewlineFree fields) : ∀ line ∈ messageLines name fields, '\n' ∉ line := by
  intro line hline
  rcases List.mem_cons.mp hline with rfl | hline
  · exact (methodLine_of_serialize hname).1.1
  · obtain ⟨field, hfield, rfl⟩ := List.mem_map.mp hline
    simp [hfields field hfield]

private theorem messageLines_ne (hname : serializeMethodName method = .ok name) :
    ∀ line ∈ messageLines name fields, line ≠ ['\r'] := by
  intro line hline
  rcases List.mem_cons.mp hline with rfl | hline
  · intro hcr
    exact (methodLine_of_serialize hname).1.2 (by rw [hcr]; rfl)
  · obtain ⟨field, _, rfl⟩ := List.mem_map.mp hline
    intro hcr
    have hcolon : ':' ∈ ['\r'] := hcr ▸ List.mem_append_right field.1 List.mem_cons_self
    simp at hcolon

private theorem endsPlain_iff (hname : serializeMethodName method = .ok name) :
    (∀ line, (messageLines name fields).getLast? = some line → line.getLast? ≠ some '\r') ↔
      EndsPlain fields := by
  rw [messageLines, List.getLast?_cons, List.getLast?_map, EndsPlain]
  cases hlast : fields.getLast? with
  | none => simpa using (methodLine_of_serialize hname).1.2
  | some field =>
    have hend : (':' :: field.2).getLast? = some '\r' ↔ field.2.getLast? = some '\r' := by
      rw [List.getLast?_cons]
      cases field.2.getLast? <;> simp
    simp [hend]

/-- The fields break the framing only by a carriage return at the end of the value
that is written last. -/
theorem endsOnce_iff {text : Str} (htext : serializeProtocolData method fields = .ok text)
    (hfields : NewlineFree fields) : EndsOnce text ↔ EndsPlain fields := by
  obtain ⟨name, hname, _⟩ := serializeMethodName_ok method
  rw [serializeProtocolData_eq hname] at htext
  cases htext
  rw [endsOnce_joinLines (newline_messageLines hname hfields) (messageLines_ne hname),
    endsPlain_iff hname]

end Message

/-- A field whose line is parsed to its name and its value. -/
structure FieldDecodes (name value : Str) : Prop where
  nonempty : value ≠ []
  newline : '\n' ∉ value
  colon : ':' ∉ value.dropLast
  length_lt : (name ++ ':' :: value).length < MAX_LINE_LENGTH

instance (name value : Str) : Decidable (FieldDecodes name value) :=
  decidable_of_iff (value ≠ [] ∧ '\n' ∉ value ∧ ':' ∉ value.dropLast ∧
      (name ++ ':' :: value).length < MAX_LINE_LENGTH)
    ⟨fun ⟨hnonempty, hnewline, hcolon, hlength⟩ => ⟨hnonempty, hnewline, hcolon, hlength⟩,
      fun h => ⟨h.1, h.2, h.3, h.4⟩⟩

/-- A field name that does not disturb its line. -/
def PlainName (name : Str) : Prop := ':' ∉ name ∧ '\n' ∉ name

instance (name : Str) : Decidable (PlainName name) := inferInstanceAs (Decidable (_ ∧ _))

private theorem isAttributeLine_field {name value : Str} (hname : PlainName name) (hvalue : '\n' ∉ value) :
    IsAttributeLine (name ++ ':' :: value) ↔
      value ≠ [] ∧ (name ++ ':' :: value).length < MAX_LINE_LENGTH := by
  constructor
  · rintro ⟨_, hlength, a, b, heq, hb⟩
    refine ⟨?_, hlength⟩
    rintro rfl
    have hparts := (two_le_length_pieces (c := ':') (d := LINE_DELIMITER) rfl).mpr ⟨a, b, heq, hb⟩
    rw [pieces_append_cons rfl hname.1, pieces_eq_nil.mpr rfl] at hparts
    simp at hparts
  · rintro ⟨hne, hlength⟩
    exact ⟨by simp [hname.2, hvalue], hlength, name, value, rfl, hne⟩

/-- The parser keeps the value of a field up to its first separator. -/
theorem attributeOf_field_iff {name value : Str} (hname : PlainName name) (hne : value ≠ []) :
    attributeOf (name ++ ':' :: value) = (name, value) ↔ ':' ∉ value.dropLast := by
  cases hpieces : pieces LINE_DELIMITER value with
  | nil => exact absurd (pieces_eq_nil.mp hpieces) hne
  | cons p ps =>
    rw [← head_pieces_eq_iff rfl hpieces, attributeOf, split_eq_pieces,
      pieces_append_cons rfl hname.1, hpieces]
    simp

/-- The values the parser returns have no newline. -/
theorem newline_frameMessage {text name value : Str}
    (h : (frameMessage text).data.get? name = some value) : '\n' ∉ value := by
  have hclosed := notMem_of_mem_closed (d := END_OF_LINE) (c := '\n') rfl text
  rw [frameMessage, afterText] at h
  split at h
  · simp at h
  · rename_i first lines hlines
    rw [hlines] at hclosed
    rcases UnorderedMap.mem_of_get?_setAll h with hmem | hget
    · obtain ⟨line, hline, hattribute⟩ := List.mem_map.mp hmem
      have hnewline := hclosed line (List.mem_cons_of_mem first hline)
      rw [attributeOf, split_eq_pieces] at hattribute
      split at hattribute
      · rename_i attrName attrValue rest hpieces
        cases hattribute
        refine fun hvalue => hnewline ?_
        rw [← flatten_pieces LINE_DELIMITER line, hpieces]
        simp [hvalue]
      · cases hattribute
        exact List.not_mem_nil
    · simp at hget

/-- The text of a message whose fields are visited in the order `fields` is parsed
to this message alone. -/
def Decodes (msg : ProtocolData) (fields : List (Str × Str)) : Prop :=
  ∃ text p, serializeProtocolData msg.method fields = .ok text ∧ parse {} text = .ok (some [msg], p)

/-- The values can be told apart in the text of the message. -/
structure FieldsDecode (fields : List (Str × Str)) : Prop where
  decode : ∀ field ∈ fields, FieldDecodes field.1 field.2
  endsPlain : EndsPlain fields

private theorem parse_eq_some {s : Str} {messages : List ProtocolData} (hne : messages ≠ []) :
    (∃ p, parse {} s = .ok (some messages, p)) ↔ Returns s messages := by
  constructor
  · rintro ⟨p, hparse⟩
    exact ⟨some messages, p, hparse, rfl⟩
  · rintro ⟨output, p, hparse, rfl⟩
    cases output with
    | none => exact absurd rfl hne
    | some messages => exact ⟨p, hparse⟩

/-- A text with a single end sequence is one frame. -/
theorem endsOnce_iff_breakAll {body : Str} :
    EndsOnce (body ++ END_SEQUENCE.text) ↔
      breakAll END_SEQUENCE (body ++ END_SEQUENCE.text) = ⟨[body], []⟩ := by
  have hfound : ∀ a : Str, ∃ i, find END_SEQUENCE (a ++ END_SEQUENCE.text) = some i := by
    intro a
    exact Option.ne_none_iff_exists'.mp fun hnone =>
      not_suffix_of_find_none hnone (List.suffix_append a END_SEQUENCE.text)
  constructor
  · rintro ⟨_, honce⟩
    obtain ⟨i, hi⟩ := hfound body
    have heq := eq_of_find hi
    have hdrop := honce _ _ heq
    rw [hdrop, List.append_nil] at heq
    rw [breakAll_of_some hi, hdrop, ← List.append_cancel_right heq, breakAll_nil]
    rfl
  · intro hbreak
    refine ⟨⟨body, rfl⟩, fun a b h => ?_⟩
    obtain ⟨i, hi⟩ := hfound a
    have hle := find_add_length_le hi
    rw [h, breakAll_of_some (find_append_of_some hi b), ← h] at hbreak
    have htake := (List.cons.inj (congrArg Segmentation.closed hbreak)).1
    have hlength := congrArg List.length htake
    have hlength' := congrArg List.length h
    simp only [List.length_append, List.length_take, Delimiter.length] at hle hlength hlength'
    exact List.length_eq_zero_iff.mp (by omega)

section Fields

variable {msg : ProtocolData} {fields : List (Str × Str)} {name : Str}
  (horder : UnorderedMap.IsIterationOrder fields msg.data)
  (hnames : ∀ field ∈ fields, PlainName field.1)
include horder hnames

/-- The attributes of the lines are the fields when each value is kept whole. -/
theorem setAll_attributes_iff (hne : ∀ field ∈ fields, field.2 ≠ []) :
    (∅ : UnorderedMap Str Str).setAll
        ((fields.map fun field => field.1 ++ ':' :: field.2).map attributeOf) = msg.data ↔
      ∀ field ∈ fields, ':' ∉ field.2.dropLast := by
  rw [List.map_map]
  constructor
  · intro hdata field hfield
    have hkept : ∀ field ∈ fields, (attributeOf (field.1 ++ ':' :: field.2)).1 = field.1 := by
      intro field hfield
      obtain ⟨p, ps, hpieces⟩ := List.exists_cons_of_ne_nil (mt pieces_eq_nil.mp (hne field hfield))
      rw [attributeOf, split_eq_pieces, pieces_append_cons rfl (hnames field hfield).1, hpieces]
      simp
    have hnodup : ((fields.map (attributeOf ∘ fun field => field.1 ++ ':' :: field.2)).map
        Prod.fst).Nodup := by
      have hnames' : (fields.map (attributeOf ∘ fun field => field.1 ++ ':' :: field.2)).map
          Prod.fst = fields.map Prod.fst := by
        rw [List.map_map]
        exact List.map_congr_left hkept
      rw [hnames']
      exact horder.1
    have hmem : attributeOf (field.1 ++ ':' :: field.2) ∈
        fields.map (attributeOf ∘ fun field => field.1 ++ ':' :: field.2) :=
      List.mem_map.mpr ⟨field, hfield, rfl⟩
    have hget := UnorderedMap.get?_setAll_of_mem (k := (attributeOf (field.1 ++ ':' :: field.2)).1)
      _ ∅ hnodup hmem
    rw [hdata, hkept field hfield, (horder.2 _ _).mp hfield, Option.some.injEq] at hget
    rw [← attributeOf_field_iff (hnames field hfield) (hne field hfield)]
    exact Prod.ext (hkept field hfield) hget.symm
  · intro hcolon
    have hattributes : fields.map (attributeOf ∘ fun field => field.1 ++ ':' :: field.2) = fields := by
      conv_rhs => rw [← List.map_id fields]
      exact List.map_congr_left fun field hfield =>
        (attributeOf_field_iff (hnames field hfield) (hne field hfield)).mpr (hcolon field hfield)
    rw [hattributes, horder.setAll_empty]

/-- The lines of a message are taken and give the message back when each of its
fields decodes. -/
theorem frame_messageLines_iff (hmethod : msg.method ≠ .PARSING_FAILED)
    (hname : serializeMethodName msg.method = .ok name) (hnewline : NewlineFree fields) :
    FrameOk (joinLines (messageLines name fields)) ∧
        frameMessage (joinLines (messageLines name fields)) = msg ↔
      ∀ field ∈ fields, FieldDecodes field.1 field.2 := by
  have hplain := newline_messageLines hname hnewline
  obtain ⟨_, _, hparse⟩ := methodLine_of_serialize hname
  rw [messageLines, frameOk_joinLines hplain, frameMessage_joinLines hplain, hparse,
    and_iff_right hmethod, List.forall_mem_map]
  constructor
  · rintro ⟨hlines, hmsg⟩
    have hvalues := fun field hfield =>
      (isAttributeLine_field (hnames field hfield) (hnewline field hfield).2).mp (hlines field hfield)
    have hcolon := (setAll_attributes_iff horder hnames fun field hfield =>
      (hvalues field hfield).1).mp (congrArg ProtocolData.data hmsg)
    exact fun field hfield => ⟨(hvalues field hfield).1, (hnewline field hfield).2,
      hcolon field hfield, (hvalues field hfield).2⟩
  · intro hfields
    refine ⟨fun field hfield => ?_, ?_⟩
    · exact (isAttributeLine_field (hnames field hfield) (hnewline field hfield).2).mpr
        ⟨(hfields field hfield).nonempty, (hfields field hfield).length_lt⟩
    · rw [(setAll_attributes_iff horder hnames fun field hfield =>
        (hfields field hfield).nonempty).mpr fun field hfield => (hfields field hfield).colon]

/-- The values of a message that was parsed have no newline. -/
theorem newlineFree_of_frameMessage {text : Str} (h : frameMessage text = msg) :
    NewlineFree fields := by
  intro field hfield
  have hget : (frameMessage text).data.get? field.1 = some field.2 := by
    rw [h]
    exact (horder.2 _ _).mp hfield
  exact ⟨(hnames field hfield).2, newline_frameMessage hget⟩

/-- A message is decoded exactly when its values can be told apart in its text. -/
theorem decodes_iff (hmethod : msg.method ≠ .PARSING_FAILED) :
    Decodes msg fields ↔ FieldsDecode fields := by
  obtain ⟨name, hname, _⟩ := serializeMethodName_ok msg.method
  have htext := serializeProtocolData_eq hname fields
  have hone : Decodes msg fields ↔
      Returns (joinLines (messageLines name fields) ++ END_SEQUENCE.text) [msg] := by
    rw [← parse_eq_some (by simp), Decodes, htext]
    simp
  rw [hone, returns_iff]
  constructor
  · rintro ⟨⟨hclosed, hrest⟩, hmessages⟩
    obtain ⟨frame, hframe, hmsg⟩ := List.map_eq_singleton_iff.mp hmessages.symm
    have hnewline := newlineFree_of_frameMessage horder hnames hmsg
    have hunbreak := unbreak_breakAll END_SEQUENCE
      (joinLines (messageLines name fields) ++ END_SEQUENCE.text)
    rw [Segmentation.unbreak, hframe, List.map_singleton, List.flatten_singleton] at hunbreak
    have hnil : (breakAll END_SEQUENCE
        (joinLines (messageLines name fields) ++ END_SEQUENCE.text)).rest = [] := by
      rcases endSequence_cases (newline_messageLines hname hnewline) (messageLines_ne hname)
        hunbreak.symm with hnil | ⟨hcr, _⟩
      · exact hnil
      · rw [hcr] at hrest
        exact absurd hrest (not_frameOk_newline [])
    rw [hnil, List.append_nil] at hunbreak
    obtain rfl : frame = joinLines (messageLines name fields) := List.append_cancel_right hunbreak
    have honce := endsOnce_iff_breakAll.mpr (Segmentation.ext hframe hnil)
    exact ⟨(frame_messageLines_iff horder hnames hmethod hname hnewline).mp
      ⟨hclosed _ (by rw [hframe]; exact List.mem_singleton_self _), hmsg⟩,
      (endsOnce_iff htext hnewline).mp honce⟩
  · rintro ⟨hdecode, hplain⟩
    have hnewline : NewlineFree fields := fun field hfield =>
      ⟨(hnames field hfield).2, (hdecode field hfield).newline⟩
    obtain ⟨hok, hmsg⟩ := (frame_messageLines_iff horder hnames hmethod hname hnewline).mpr hdecode
    rw [endsOnce_iff_breakAll.mp ((endsOnce_iff htext hnewline).mpr hplain), StreamOk,
      List.forall_mem_singleton, List.map_singleton, hmsg]
    exact ⟨⟨hok, frameOk_afterText_nil.1⟩, rfl⟩

end Fields

end UpsServer.BufferedParser
