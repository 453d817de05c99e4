import Mathlib.Data.List.Infix

/-! Items written one after another with a separator between them. -/

namespace Joined

variable {α : Type} {c : α}

theorem intercalate_cons_cons (x y : List α) (l : List (List α)) :
    [c].intercalate (x :: y :: l) = x ++ c :: [c].intercalate (y :: l) := by
  simp [List.intercalate]

/-- Items that are each followed by the separator are joined items with one
separator too many. -/
theorem flatMap_separated {l : List (List α)} (h : l ≠ []) :
    (l.flatMap fun x => x ++ [c]) = [c].intercalate l ++ [c] := by
  induction l with
  | nil => exact (h rfl).elim
  | cons x l ih =>
    cases l with
    | nil => simp [List.intercalate]
    | cons y l =>
      rw [List.flatMap_cons, ih (List.cons_ne_nil y l), intercalate_cons_cons]
      simp

/-- Items that are each followed by the separator, but for the last, are joined. -/
theorem flatMap_separated_append (l : List (List α)) (y : List α) :
    (l.flatMap fun x => x ++ [c]) ++ y = [c].intercalate (l ++ [y]) := by
  induction l with
  | nil => simp [List.intercalate]
  | cons x l ih =>
    rw [List.flatMap_cons, List.append_assoc, ih]
    cases l with
    | nil => simp [List.intercalate]
    | cons z l => simp only [List.cons_append, intercalate_cons_cons, List.append_assoc, List.nil_append]

variable [DecidableEq α]

/-- The first item ends where its separators have been counted. -/
theorem append_cons_inj {x x' r r' : List α} (hcount : x.count c = x'.count c)
    (h : x ++ c :: r = x' ++ c :: r') : x = x' ∧ r = r' := by
  have hshort : ∀ {y y' s s' : List α} (u : List α), y.count c = y'.count c → y' = y ++ u →
      c :: s = u ++ c :: s' → u = [] := by
    intro y y' s s' u hcount heq hrest
    cases u with
    | nil => rfl
    | cons a u =>
      obtain ⟨rfl, _⟩ := List.cons.inj hrest
      rw [heq, List.count_append, List.count_cons_self] at hcount
      omega
  rcases List.append_eq_append_iff.mp h with ⟨u, hx, hrest⟩ | ⟨u, hx, hrest⟩
  · obtain rfl := hshort u hcount hx hrest
    exact ⟨by simpa using hx.symm, by simpa using hrest⟩
  · obtain rfl := hshort u hcount.symm hx hrest
    exact ⟨by simpa using hx, by simpa using hrest.symm⟩

/-- Joined items can be told apart when it is known how many separators each of
them contains. -/
theorem intercalate_inj {l l' : List (List α)}
    (hcounts : l.map (List.count c) = l'.map (List.count c))
    (h : [c].intercalate l = [c].intercalate l') : l = l' := by
  induction l generalizing l' with
  | nil =>
    rw [List.map_nil, List.nil_eq, List.map_eq_nil_iff] at hcounts
    exact hcounts.symm
  | cons x l ih =>
    cases l' with
    | nil => cases hcounts
    | cons x' l' =>
      obtain ⟨hcount, htail⟩ := List.cons.inj hcounts
      cases l with
      | nil =>
        obtain rfl := List.map_eq_nil_iff.mp htail.symm
        simpa [List.intercalate] using h
      | cons y l =>
        cases l' with
        | nil => cases htail
        | cons y' l' =>
          rw [intercalate_cons_cons, intercalate_cons_cons] at h
          obtain ⟨rfl, hrest⟩ := append_cons_inj hcount h
          rw [ih htail hrest]

theorem count_intercalate {l l' : List (List α)}
    (hcounts : l.map (List.count c) = l'.map (List.count c)) :
    ([c].intercalate l).count c = ([c].intercalate l').count c := by
  induction l generalizing l' with
  | nil =>
    rw [List.map_nil, List.nil_eq, List.map_eq_nil_iff] at hcounts
    rw [hcounts]
  | cons x l ih =>
    cases l' with
    | nil => cases hcounts
    | cons x' l' =>
      obtain ⟨hcount, htail⟩ := List.cons.inj hcounts
      cases l with
      | nil =>
        obtain rfl := List.map_eq_nil_iff.mp htail.symm
        simpa [List.intercalate] using hcount
      | cons y l =>
        cases l' with
        | nil => cases htail
        | cons y' l' =>
          rw [intercalate_cons_cons, intercalate_cons_cons, List.count_append, List.count_append,
            List.count_cons_self, List.count_cons_self, hcount, ih htail]

/-- Anything but the separator is counted in the items. -/
theorem count_intercalate_of_ne {a : α} (h : a ≠ c) (l : List (List α)) :
    ([c].intercalate l).count a = l.flatten.count a := by
  induction l with
  | nil => simp [List.intercalate]
  | cons x l ih =>
    cases l with
    | nil => simp [List.intercalate]
    | cons y l =>
      rw [intercalate_cons_cons, List.count_append, List.count_cons_of_ne h.symm, ih,
        List.flatten_cons (L := y :: l), List.count_append]

end Joined
