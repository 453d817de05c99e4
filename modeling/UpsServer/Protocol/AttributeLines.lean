import UpsServer.Protocol.Frame

open Split

namespace UpsServer.BufferedParser

/-- A line whose parts arrive in chunks of their own, the last one with the
newline. -/
def parseFragments (p : BufferedParser) (fragments : List Str) (last : Str) :
    Exec BufferedParser BufferedParser := do
  let p ← fragments.foldlM parseText p
  parseText p (last ++ END_OF_LINE.text)

/-- The line that is complete then. Its first part may have been saved before. -/
def assembled (p : BufferedParser) (fragments : List Str) (last : Str) : Str :=
  p.savedLine ++ fragments.flatten ++ last

/-- The line is rejected, or its name and its value are stored, with the first `:`
between them. -/
def LosesNoBytes (p : BufferedParser) (fragments : List Str) (last : Str) : Prop :=
  (∃ e, p.parseFragments fragments last = .error e) ∨
    ∃ name value, name ++ ':' :: value = p.assembled fragments last ∧ ':' ∉ name ∧
      p.parseFragments fragments last =
        .ok { p with savedLine := [], savedData := p.savedData.set name value }

/-- Between the first `:` of a line and its last character there is no other. -/
def OneDelimiter (line : Str) : Prop :=
  ∀ name value, line = name ++ ':' :: value → ':' ∉ name → ':' ∉ value.dropLast

private theorem oneDelimiter_append_cons {name value : Str} (h : ':' ∉ name) :
    OneDelimiter (name ++ ':' :: value) ↔ ':' ∉ value.dropLast := by
  constructor
  · exact fun hone => hone name value rfl h
  · intro hvalue name' value' heq hname'
    obtain ⟨rfl, rfl⟩ := append_cons_cancel h hname' heq
    exact hvalue

private theorem parseText_line (p : BufferedParser) {line : Str} (h : '\n' ∉ line) :
    parseText p (line ++ END_OF_LINE.text) = parseMsgLine p (line ++ END_OF_LINE.text) := by
  have hbreak : breakAll END_OF_LINE (line ++ END_OF_LINE.text) = ⟨[line], []⟩ := by
    have hcons := breakAll_append_cons (d := END_OF_LINE) rfl h []
    rwa [breakAll_nil] at hcons
  rw [parseText, parseMsgLines_split, parseLines, hbreak, List.foldlM_cons]
  cases parseMsgLine p (line ++ END_OF_LINE.text) <;> rfl

/-- A text that arrives in parts is parsed like the text in one piece. -/
theorem foldlM_parseText (p : BufferedParser) (fragments : List Str) (text : Str) :
    (fragments.foldlM parseText p >>= fun p => parseText p text).toOption =
      (parseText p (fragments.flatten ++ text)).toOption := by
  induction fragments generalizing p with
  | nil => rfl
  | cons fragment fragments ih =>
    rw [List.foldlM_cons, bind_assoc, toOption_bind, List.flatten_cons, List.append_assoc,
      parseText_append, toOption_bind]
    congr 1
    funext p
    exact ih p

section Line

variable {p : BufferedParser} (hfirst : p.isSavedLineFirst = false)
include hfirst

private theorem parseFragments_eq {fragments : List Str} {last : Str}
    (hfragments : ∀ fragment ∈ fragments, '\n' ∉ fragment) (hlast : '\n' ∉ last) :
    (p.parseFragments fragments last).toOption =
      if AttributeLineOk (p.assembled fragments last ++ END_OF_LINE.text) then
        some { p with
          savedLine := []
          savedData := p.savedData.set (attributeOf (p.assembled fragments last)).1
            (attributeOf (p.assembled fragments last)).2 }
      else none := by
  have hplain : '\n' ∉ fragments.flatten ++ last := by
    rw [List.mem_append, List.mem_flatten]
    rintro (⟨fragment, hmem, hnewline⟩ | hnewline)
    · exact hfragments fragment hmem hnewline
    · exact hlast hnewline
  have hassembled : p.assembled fragments last = p.savedLine ++ (fragments.flatten ++ last) :=
    List.append_assoc _ _ _
  rw [parseFragments, foldlM_parseText, ← List.append_assoc, parseText_line p hplain,
    parseMsgLine_assembled hfirst, hassembled]

end Line

private theorem attributeOf_append_cons {name : Str} (h : ':' ∉ name) {value : Str} (hne : value ≠ []) :
    2 ≤ (split (name ++ ':' :: value) LINE_DELIMITER).length ∧
      (attributeOf (name ++ ':' :: value)).1 = name ∧
      ((attributeOf (name ++ ':' :: value)).2 = value ↔ ':' ∉ value.dropLast) := by
  have hpieces : split (name ++ ':' :: value) LINE_DELIMITER =
      (name ++ [':']) :: pieces LINE_DELIMITER value := by
    rw [split_eq_pieces, pieces_append_cons rfl h]
  obtain ⟨first, later, hvalue⟩ := List.exists_cons_of_ne_nil (mt pieces_eq_nil.mp hne)
  rw [attributeOf, hpieces, hvalue]
  refine ⟨Nat.le_add_left _ _, List.dropLast_concat, ?_⟩
  exact head_pieces_eq_iff rfl hvalue

/-- A line that is taken has a `:` and something behind it. -/
theorem exists_of_length_split {line : Str} (h : 2 ≤ (split line LINE_DELIMITER).length) :
    ∃ name value, line = name ++ ':' :: value ∧ ':' ∉ name ∧ value ≠ [] := by
  by_cases hmem : ':' ∈ line
  · obtain ⟨name, value, rfl, hname⟩ := List.eq_append_cons_of_mem hmem
    refine ⟨name, value, rfl, hname, ?_⟩
    rintro rfl
    rw [split_eq_pieces, pieces_append_cons rfl hname, pieces_eq_nil.mpr rfl] at h
    exact (Nat.not_succ_le_self 1 h).elim
  · rw [split_eq_pieces, pieces, breakAll_of_notMem rfl hmem] at h
    split at h
    · exact (Nat.not_succ_le_zero 1 h).elim
    · exact (Nat.not_succ_le_self 1 h).elim

/-- An attribute line that is not too long loses no byte exactly when no `:` stands
between its first one and its last character. -/
theorem losesNoBytes_iff {p : BufferedParser} (hfirst : p.isSavedLineFirst = false)
    {fragments : List Str} {last : Str} (hfragments : ∀ fragment ∈ fragments, '\n' ∉ fragment)
    (hlast : '\n' ∉ last) :
    p.LosesNoBytes fragments last ↔
      ((p.assembled fragments last).length < MAX_LINE_LENGTH →
        OneDelimiter (p.assembled fragments last)) := by
  have hparse := parseFragments_eq hfirst hfragments hlast
  simp only [attributeLineOk_newline] at hparse
  by_cases htaken : (p.assembled fragments last).length < MAX_LINE_LENGTH ∧
      2 ≤ (split (p.assembled fragments last) LINE_DELIMITER).length
  · obtain ⟨hlen, hdelimiter⟩ := htaken
    obtain ⟨name, value, hline, hname, hne⟩ := exists_of_length_split hdelimiter
    obtain ⟨_, hfst, hsnd⟩ := attributeOf_append_cons hname hne
    rw [if_pos ⟨hlen, hdelimiter⟩, toOption_eq_some, hline, hfst] at hparse
    rw [LosesNoBytes, forall_prop_of_true hlen, hline, oneDelimiter_append_cons hname, ← hsnd,
      hparse]
    constructor
    · rintro (⟨e, herror⟩ | ⟨name', value', hline', hname', hstored⟩)
      · cases herror
      · obtain ⟨rfl, rfl⟩ := append_cons_cancel hname' hname hline'
        have hdata := congrArg savedData (Except.ok.inj hstored)
        have hget := congrArg (UnorderedMap.get? · name') hdata
        simpa using hget
    · intro hvalue
      exact .inr ⟨name, value, rfl, hname, by rw [hvalue]⟩
  · rw [if_neg htaken, toOption_eq_none] at hparse
    refine iff_of_true (.inl hparse) fun hlen name value hline hname => ?_
    by_cases hne : value = []
    · rw [hne]
      exact List.not_mem_nil
    · have hdelimiter := (attributeOf_append_cons hname hne).1
      rw [← hline] at hdelimiter
      exact (htaken ⟨hlen, hdelimiter⟩).elim

/-- A line with a `:` at the end of its value arrives in two parts. -/
theorem losesNoBytes_iff_twoParts :
    ({ savedMethod := .JOIN_GAME, isSavedLineFirst := false } : BufferedParser).LosesNoBytes
      ["game_".toList] "id:1:".toList := by
  have hone : OneDelimiter ("game_id".toList ++ ':' :: "1:".toList) :=
    (oneDelimiter_append_cons (by decide)).mpr (by decide)
  exact (losesNoBytes_iff rfl (by decide) (by decide)).mpr fun _ => hone

/-- Of the name `a:b` a client enters, the server keeps `a:`. -/
theorem not_losesNoBytes_enterUsername :
    parse {} "ENTER_USERNAME\nusername:a:b\n\r\n\r\n".toList =
        .ok (some [newProtocolMessage .ENTER_USERNAME [("username".toList, "a:".toList)]], {}) ∧
      ¬ ({ savedMethod := .ENTER_USERNAME, isSavedLineFirst := false } :
        BufferedParser).LosesNoBytes [] "username:a:b".toList := by
  have hparse : ({ savedMethod := .ENTER_USERNAME, isSavedLineFirst := false } :
      BufferedParser).parseFragments [] "username:a:b".toList =
        .ok { savedMethod := .ENTER_USERNAME, isSavedLineFirst := false,
              savedData := (∅ : UnorderedMap Str Str).set "username".toList "a:".toList } := by
    decide +kernel
  refine ⟨by decide +kernel, ?_⟩
  rintro (⟨e, herror⟩ | ⟨name, value, hline, hname, hstored⟩)
  · cases hparse.symm.trans herror
  · obtain ⟨rfl, rfl⟩ := append_cons_cancel (l := "username".toList) (t := "a:b".toList) (by decide)
      hname hline.symm
    have hdata := congrArg savedData (Except.ok.inj (hparse.symm.trans hstored))
    have hget := congrArg (UnorderedMap.get? · "username".toList) hdata
    simp at hget

end UpsServer.BufferedParser
