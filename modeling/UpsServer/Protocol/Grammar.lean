import UpsServer.Protocol.RoundTrip

open Split

namespace UpsServer.BufferedParser

/-- A line `<attr_name>:<attr_value>`, without its newline. -/
structure IsAttributeLine (line : Str) : Prop where
  noNewline : '\n' ∉ line
  length_lt : line.length < MAX_LINE_LENGTH
  parts : ∃ name value, line = name ++ ':' :: value ∧ value ≠ []

/-- The grammar of the protocol: a frame is the name of a method and the attribute
lines of the message, each with a newline. The placeholders are no methods of the
protocol. -/
structure Denotes (text : Str) (msg : ProtocolData) : Prop where
  method : msg.method ≠ .UNINITIALIZED ∧ msg.method ≠ .PARSING_FAILED
  lines : ∃ name lines, (name, msg.method) ∈ MethodNameTable ∧
    (∀ line ∈ lines, IsAttributeLine line) ∧ text = joinLines (name :: lines) ∧
    msg.data = (∅ : UnorderedMap Str Str).setAll (lines.map attributeOf)

/-- What the parser overlooks in a frame: its last line, which may be the only one,
has no newline, or its method is a placeholder. -/
def Overlooked (text : Str) : Prop :=
  text.getLast? ≠ some '\n' ∨ "UNINITIALIZED\n".toList <+: text

private theorem mem_table_iff {name : Str} {method : MethodName} (h : method ≠ .PARSING_FAILED) :
    (name, method) ∈ MethodNameTable ↔ parseMethodName name = method := by
  have htable : ∀ entry ∈ MethodNameTable, parseMethodName entry.1 = entry.2 := by decide +kernel
  constructor
  · exact htable (name, method)
  · intro hparse
    unfold parseMethodName at hparse
    split at hparse
    · rename_i hlookup
      obtain ⟨before, after, heq, _⟩ := List.lookup_eq_some_iff.mp hlookup
      rw [heq, hparse]
      exact List.mem_append_right before List.mem_cons_self
    · exact absurd hparse.symm h

private theorem attributeLineOk_iff {line : Str} (h : '\n' ∉ line) :
    AttributeLineOk (line ++ END_OF_LINE.text) ↔ IsAttributeLine line := by
  rw [attributeLineOk_newline, split_eq_pieces, two_le_length_pieces (c := ':') rfl]
  exact ⟨fun hline => ⟨h, hline.1, hline.2⟩, fun hline => ⟨hline.length_lt, hline.parts⟩⟩

/-- A text that ends with a newline consists of whole lines. -/
theorem eq_joinLines {text : Str} (h : text.getLast? = some '\n') :
    ∃ name lines, text = joinLines (name :: lines) ∧ ∀ line ∈ name :: lines, '\n' ∉ line := by
  have hunbreak := unbreak_breakAll END_OF_LINE text
  have hclosed := notMem_of_mem_closed (c := '\n') rfl text (d := END_OF_LINE)
  have hrest : (breakAll END_OF_LINE text).rest = [] := by
    by_contra hne
    have hlast : (breakAll END_OF_LINE text).rest.getLast? = some '\n' := by
      rw [← List.getLast?_append_of_ne_nil _ hne, ← h]
      exact congrArg List.getLast? hunbreak
    exact notMem_of_find_none (c := '\n') rfl (find_rest_breakAll END_OF_LINE text)
      (List.mem_of_getLast? hlast)
  rw [Segmentation.unbreak, hrest, List.append_nil] at hunbreak
  cases hlines : (breakAll END_OF_LINE text).closed with
  | nil =>
    rw [hlines] at hunbreak
    rw [← hunbreak] at h
    cases h
  | cons name lines =>
    rw [hlines] at hunbreak hclosed
    exact ⟨name, lines, hunbreak.symm, hclosed⟩

theorem joinLines_cons (line : Str) (lines : List Str) :
    joinLines (line :: lines) = line ++ '\n' :: joinLines lines := by
  simp [joinLines]

private theorem getLast?_joinLines (line : Str) (lines : List Str) :
    (joinLines (line :: lines)).getLast? = some '\n' := by
  induction lines generalizing line with
  | nil => simp [joinLines]
  | cons next lines ih =>
    rw [joinLines_cons, List.getLast?_append_of_ne_nil _ (by simp), List.getLast?_cons, ih]
    rfl

section Lines

variable {name : Str} {lines : List Str} (h : ∀ line ∈ name :: lines, '\n' ∉ line)
include h

theorem frameMessage_joinLines :
    frameMessage (joinLines (name :: lines)) =
      ⟨parseMethodName name, (∅ : UnorderedMap Str Str).setAll (lines.map attributeOf)⟩ := by
  rw [frameMessage, afterText, breakAll_endOfLine_lines h]

/-- What the parser checks in a frame of whole lines. -/
theorem frameOk_joinLines :
    FrameOk (joinLines (name :: lines)) ↔
      parseMethodName name ≠ .PARSING_FAILED ∧ ∀ line ∈ lines, IsAttributeLine line := by
  have hbreak := breakAll_endOfLine_lines h
  obtain ⟨_, hlines⟩ := List.forall_mem_cons.mp h
  rw [frameOk_of_cons (by rw [hbreak]), hbreak, MethodLineOk, dropLast_endOfLine]
  constructor
  · rintro ⟨⟨_, hmethod⟩, hattributes, _⟩
    exact ⟨hmethod (endOfLine_suffix name), fun line hline =>
      (attributeLineOk_iff (hlines line hline)).mp (hattributes line hline)⟩
  · rintro ⟨hmethod, hattributes⟩
    have hmem := (mem_table_iff hmethod).mpr rfl
    obtain ⟨_, hlength, _⟩ := table_names_plain name (List.mem_map_of_mem hmem)
    refine ⟨⟨?_, fun _ => hmethod⟩, fun line hline => ?_, Nat.zero_le _⟩
    · rw [List.length_append]
      exact Nat.add_le_add_right hlength 1
    · exact (attributeLineOk_iff (hlines line hline)).mpr (hattributes line hline)

private theorem overlooked_joinLines :
    Overlooked (joinLines (name :: lines)) ↔ parseMethodName name = .UNINITIALIZED := by
  have hplaceholder : ∀ entry ∈ MethodNameTable, entry.2 = .UNINITIALIZED →
      entry.1 = "UNINITIALIZED".toList := by decide +kernel
  rw [Overlooked, getLast?_joinLines, Ne, eq_self, not_true, false_or,
    ← mem_table_iff (by decide), joinLines_cons]
  constructor
  · rintro ⟨t, ht⟩
    have hname : "UNINITIALIZED".toList = name := by
      have hbreak := breakAll_append_cons (d := END_OF_LINE) rfl (h name List.mem_cons_self)
        (joinLines lines)
      rw [← ht, show "UNINITIALIZED\n".toList ++ t = "UNINITIALIZED".toList ++ '\n' :: t from rfl,
        breakAll_append_cons rfl (by decide)] at hbreak
      exact (List.cons.inj (congrArg Segmentation.closed hbreak)).1
    rw [← hname]
    decide
  · intro hmem
    have hname : name = "UNINITIALIZED".toList := hplaceholder _ hmem rfl
    rw [hname]
    exact ⟨joinLines lines, rfl⟩

end Lines

/-- A frame denotes a message exactly if the parser takes it, overlooks nothing in
it and makes this message of it. -/
theorem denotes_iff {text : Str} {msg : ProtocolData} :
    Denotes text msg ↔ FrameOk text ∧ ¬ Overlooked text ∧ msg = frameMessage text := by
  constructor
  · rintro ⟨⟨hinit, hfailed⟩, name, lines, hname, hlines, rfl, hdata⟩
    have hparse := (mem_table_iff hfailed).mp hname
    have hplain : ∀ line ∈ name :: lines, '\n' ∉ line :=
      List.forall_mem_cons.mpr ⟨(table_names_plain name (List.mem_map_of_mem hname)).2.2.1,
        fun line hline => (hlines line hline).noNewline⟩
    rw [frameOk_joinLines hplain, overlooked_joinLines hplain, frameMessage_joinLines hplain,
      hparse, ← hdata]
    exact ⟨⟨hfailed, hlines⟩, hinit, rfl⟩
  · rintro ⟨hok, hseen, rfl⟩
    obtain ⟨name, lines, rfl, hplain⟩ := eq_joinLines (not_not.mp fun hlast => hseen (.inl hlast))
    rw [frameOk_joinLines hplain] at hok
    rw [overlooked_joinLines hplain] at hseen
    rw [frameMessage_joinLines hplain]
    exact ⟨⟨hseen, hok.1⟩, name, lines, (mem_table_iff hok.1).mpr rfl, hok.2, rfl, rfl⟩

/-- The messages a fresh parser returns for a byte string. -/
def Returns (s : Str) (messages : List ProtocolData) : Prop :=
  ∃ output p, parse {} s = .ok (output, p) ∧ output.getD [] = messages

/-- The parser returns exactly the messages that the complete frames denote, or
throws; the frame at the end may still be open. -/
def AcceptsGrammar (s : Str) : Prop :=
  ∀ messages, Returns s messages ↔
    List.Forall₂ Denotes (breakAll END_SEQUENCE s).closed messages ∧
      FrameOk (breakAll END_SEQUENCE s).rest

theorem returns_iff {s : Str} {messages : List ProtocolData} :
    Returns s messages ↔ StreamOk (breakAll END_SEQUENCE s) ∧
      messages = (breakAll END_SEQUENCE s).closed.map frameMessage := by
  have hinitial := parseFrames_initial (breakAll END_SEQUENCE s)
  rw [Returns, parse_eq]
  by_cases hok : StreamOk (breakAll END_SEQUENCE s)
  · rw [if_pos hok] at hinitial
    rw [toOption_eq_some.mp hinitial, ok_bind, and_iff_right hok]
    generalize (breakAll END_SEQUENCE s).closed.map frameMessage = parsed
    constructor
    · rintro ⟨output, p, heq, rfl⟩
      split at heq
      · rename_i hnil
        cases heq
        exact hnil.symm
      · cases heq
        rfl
    · rintro rfl
      split
      · rename_i hnil
        exact ⟨none, _, rfl, hnil.symm⟩
      · exact ⟨some messages, _, rfl, rfl⟩
  · rw [if_neg hok] at hinitial
    simp only [hok, false_and, iff_false]
    rintro ⟨output, p, heq, _⟩
    obtain ⟨acc, hacc, _⟩ := bind_eq_ok.mp heq
    rw [hacc] at hinitial
    cases hinitial

private theorem forall₂_denotes {texts : List Str} {messages : List ProtocolData} :
    List.Forall₂ Denotes texts messages ↔
      (∀ text ∈ texts, FrameOk text ∧ ¬ Overlooked text) ∧ messages = texts.map frameMessage := by
  induction texts generalizing messages with
  | nil => simp [List.forall₂_nil_left_iff]
  | cons text texts ih =>
    simp only [List.forall₂_cons_left_iff, ih, denotes_iff, List.forall_mem_cons, List.map_cons]
    constructor
    · rintro ⟨msg, messages, ⟨hok, hseen, rfl⟩, ⟨hrest, rfl⟩, rfl⟩
      exact ⟨⟨⟨hok, hseen⟩, hrest⟩, rfl⟩
    · rintro ⟨⟨⟨hok, hseen⟩, hrest⟩, rfl⟩
      exact ⟨_, _, ⟨hok, hseen, rfl⟩, ⟨hrest, rfl⟩, rfl⟩

/-- The parser accepts its grammar exactly on the byte strings in which it
overlooks nothing, unless another frame makes it throw. -/
theorem acceptsGrammar_iff (s : Str) :
    AcceptsGrammar s ↔ (StreamOk (breakAll END_SEQUENCE s) →
      ∀ text ∈ (breakAll END_SEQUENCE s).closed, ¬ Overlooked text) := by
  simp only [AcceptsGrammar, returns_iff, forall₂_denotes, StreamOk]
  constructor
  · intro h hok
    have hdenotes := (h _).mp ⟨hok, rfl⟩
    exact fun text htext => (hdenotes.1.1 text htext).2
  · intro h messages
    constructor
    · rintro ⟨hok, hmessages⟩
      exact ⟨⟨fun text htext => ⟨hok.1 text htext, h hok text htext⟩, hmessages⟩, hok.2⟩
    · rintro ⟨⟨hframes, hmessages⟩, hrest⟩
      exact ⟨⟨fun text htext => (hframes text htext).1, hrest⟩, hmessages⟩

/-- An end sequence on its own is returned as a message without a method. -/
theorem not_acceptsGrammar_empty : ¬ ∀ s, AcceptsGrammar s := by
  intro h
  have hparse : parse {} END_SEQUENCE.text = .ok (some [⟨.UNINITIALIZED, ∅⟩], {}) := by
    decide +kernel
  obtain ⟨hdenotes, _⟩ := (h END_SEQUENCE.text _).mp ⟨_, _, hparse, rfl⟩
  obtain ⟨_, _, hmsg, _, _⟩ := List.forall₂_cons_right_iff.mp hdenotes
  exact hmsg.method.1 rfl

end UpsServer.BufferedParser
