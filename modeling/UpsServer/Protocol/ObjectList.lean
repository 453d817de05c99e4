import UpsServer.Lib.Joined
import UpsServer.Protocol.ProtocolData

namespace UpsServer

/-- The text of a line of an object list. -/
def lineText (line : List Str) : Str := '{' :: [','].intercalate line ++ ['}']

theorem serializeObjectList_eq (list : List (List Str)) :
    serializeObjectList list = [','].intercalate (list.map lineText) :=
  rfl

theorem getLast?_serializeObjectList {list : List (List Str)} (h : list ≠ []) :
    (serializeObjectList list).getLast? = some '}' := by
  rw [← List.dropLast_concat_getLast h, serializeObjectList_eq, List.map_append, List.map_singleton,
    ← Joined.flatMap_separated_append, lineText, ← List.append_assoc, List.getLast?_concat]

private theorem count_lineText {line line' : List Str}
    (hcommas : line.map (List.count ',') = line'.map (List.count ',')) :
    (lineText line).count ',' = (lineText line').count ',' := by
  simp [lineText, Joined.count_intercalate hcommas]

private theorem lineText_inj {line line' : List Str}
    (hcommas : line.map (List.count ',') = line'.map (List.count ','))
    (h : lineText line = lineText line') : line = line' := by
  apply Joined.intercalate_inj hcommas
  exact List.append_cancel_right (List.cons.inj h).2

/-- A list of objects can be read back from its text once it is known how many
commas are part of the items. -/
theorem serializeObjectList_inj {list list' : List (List Str)}
    (hcommas : list.map (List.map (List.count ',')) = list'.map (List.map (List.count ',')))
    (h : serializeObjectList list = serializeObjectList list') : list = list' := by
  have hcounts : ∀ {list list' : List (List Str)},
      list.map (List.map (List.count ',')) = list'.map (List.map (List.count ',')) →
      (list.map lineText).map (List.count ',') = (list'.map lineText).map (List.count ',') := by
    intro list
    induction list with
    | nil =>
      intro list' hcommas
      rw [List.map_eq_nil_iff.mp hcommas.symm]
    | cons line list ih =>
      intro list' hcommas
      cases list' with
      | nil => cases hcommas
      | cons line' list' =>
        obtain ⟨hline, hlist⟩ := List.cons.inj hcommas
        simp only [List.map_cons, count_lineText hline, ih hlist]
  have hlines : list.map lineText = list'.map lineText :=
    Joined.intercalate_inj (hcounts hcommas) h
  clear h hcounts
  induction list generalizing list' with
  | nil => exact (List.map_eq_nil_iff.mp hcommas.symm).symm
  | cons line list ih =>
    cases list' with
    | nil => cases hcommas
    | cons line' list' =>
      obtain ⟨hline, hlist⟩ := List.cons.inj hcommas
      obtain ⟨htext, hlines⟩ := List.cons.inj hlines
      rw [lineText_inj hline htext, ih hlist hlines]

/-- A numeral has digits only. -/
theorem count_toString {c : Char} (hc : c.isDigit = false) (n : Nat) :
    (toString n).toList.count c = 0 := by
  apply List.count_eq_zero_of_not_mem
  intro hmem
  have hdigit := Nat.isDigit_of_mem_toDigits (b := 10) (n := n) (by decide) (by decide)
    (Nat.toList_repr ▸ hmem)
  exact Bool.false_ne_true (hc.symm.trans hdigit)

theorem toString_inj {m n : Nat} (h : (toString m).toList = (toString n).toList) : m = n := by
  have hdigits : Nat.toDigits 10 m = Nat.toDigits 10 n := by
    rw [← Nat.toList_repr, ← Nat.toList_repr]
    exact h
  rw [← @Nat.ofDigitChars_ten_toDigits m, hdigits, Nat.ofDigitChars_ten_toDigits]

end UpsServer
