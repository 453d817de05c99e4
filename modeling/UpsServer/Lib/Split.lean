import Mathlib.Data.List.Infix

namespace Split

variable {α : Type} [DecidableEq α]

/-- A separator that is searched for in a list. An empty one would be found
everywhere without consuming anything. -/
structure Delimiter (α : Type) where
  text : List α
  nonempty : text ≠ []

/-- The delimiter that consists of one element. -/
def Delimiter.singleton (a : α) : Delimiter α := ⟨[a], List.cons_ne_nil a []⟩

def Delimiter.length (d : Delimiter α) : Nat := d.text.length

omit [DecidableEq α] in
theorem Delimiter.length_pos (d : Delimiter α) : 0 < d.length :=
  List.length_pos_iff.mpr d.nonempty

/-- Position of the leftmost occurrence of `d`. -/
def find (d : Delimiter α) : List α → Option Nat
  | [] => none
  | x :: xs => if d.text.isPrefixOf (x :: xs) then some 0 else (find d xs).map (· + 1)

theorem find_cons_of_start {d : Delimiter α} {x : α} {xs : List α} (h : d.text <+: x :: xs) :
    find d (x :: xs) = some 0 := by
  rw [find, if_pos (List.isPrefixOf_iff_prefix.mpr h)]

theorem find_cons_of_not_start {d : Delimiter α} {x : α} {xs : List α} (h : ¬ d.text <+: x :: xs) :
    find d (x :: xs) = (find d xs).map (· + 1) := by
  rw [find, if_neg (by rwa [List.isPrefixOf_iff_prefix])]

/-- The delimiter stands where `find` says. -/
theorem eq_of_find {d : Delimiter α} {s : List α} {i : Nat} (h : find d s = some i) :
    s = s.take i ++ d.text ++ s.drop (i + d.length) := by
  induction s generalizing i with
  | nil => cases h
  | cons x xs ih =>
    by_cases hp : d.text <+: x :: xs
    · rw [find_cons_of_start hp, Option.some.injEq] at h
      subst h
      obtain ⟨t, ht⟩ := hp
      simp [← ht, Delimiter.length]
    · rw [find_cons_of_not_start hp, Option.map_eq_some_iff] at h
      obtain ⟨j, hj, rfl⟩ := h
      have hxs := ih hj
      rw [List.take_succ_cons, Nat.add_right_comm, List.drop_succ_cons, List.cons_append,
        List.cons_append, ← hxs]

theorem find_add_length_le {d : Delimiter α} {s : List α} {i : Nat} (h : find d s = some i) :
    i + d.length ≤ s.length := by
  have heq := congrArg List.length (eq_of_find h)
  have hpos := d.length_pos
  simp only [List.length_append, List.length_take, List.length_drop] at heq
  change s.length = min i s.length + d.length + _ at heq
  omega

theorem find_append_of_some {d : Delimiter α} {a : List α} {i : Nat} (h : find d a = some i)
    (b : List α) : find d (a ++ b) = some i := by
  induction a generalizing i with
  | nil => cases h
  | cons x xs ih =>
    rw [List.cons_append]
    by_cases hp : d.text <+: x :: xs
    · rw [find_cons_of_start hp] at h
      have hp' : d.text <+: x :: (xs ++ b) := hp.trans (List.prefix_append (x :: xs) b)
      rw [find_cons_of_start hp', h]
    · rw [find_cons_of_not_start hp, Option.map_eq_some_iff] at h
      obtain ⟨j, hj, rfl⟩ := h
      have hlen := find_add_length_le hj
      have hp' : ¬ d.text <+: x :: (xs ++ b) := fun hq =>
        hp (List.prefix_of_prefix_length_le hq (List.prefix_append (x :: xs) b)
          (by change d.length ≤ _; simp only [List.length_cons]; omega))
      rw [find_cons_of_not_start hp', ih hj]
      rfl

/-- An occurrence is found in what stands up to its end. -/
theorem find_take {d : Delimiter α} {s : List α} {i : Nat} (h : find d s = some i) :
    find d (s.take (i + d.length)) = some i := by
  induction s generalizing i with
  | nil => cases h
  | cons x xs ih =>
    have hpos := d.length_pos
    by_cases hp : d.text <+: x :: xs
    · rw [find_cons_of_start hp, Option.some.injEq] at h
      subst h
      obtain ⟨n, hn⟩ := Nat.exists_eq_add_of_lt hpos
      have hd : d.text <+: (x :: xs).take (0 + d.length) := by
        rw [Nat.zero_add]
        exact List.prefix_take_iff.mpr ⟨hp, Nat.le_refl _⟩
      rw [Nat.zero_add, hn, Nat.zero_add, List.take_succ_cons] at hd ⊢
      exact find_cons_of_start hd
    · rw [find_cons_of_not_start hp, Option.map_eq_some_iff] at h
      obtain ⟨j, hj, rfl⟩ := h
      have hp' : ¬ d.text <+: x :: xs.take (j + d.length) := fun hq =>
        hp (hq.trans (List.prefix_cons_inj x |>.mpr (List.take_prefix _ _)))
      rw [Nat.add_right_comm, List.take_succ_cons, find_cons_of_not_start hp', ih hj]
      rfl

/-- What is found is the leftmost occurrence. -/
theorem find_le {d : Delimiter α} {s u v : List α} (h : s = u ++ d.text ++ v) :
    ∃ i ≤ u.length, find d s = some i := by
  induction u generalizing s with
  | nil =>
    obtain ⟨x, xs, hx⟩ := List.exists_cons_of_ne_nil d.nonempty
    subst h
    rw [List.nil_append, hx, List.cons_append]
    refine ⟨0, Nat.zero_le _, find_cons_of_start ?_⟩
    rw [hx, ← List.cons_append]
    exact List.prefix_append _ _
  | cons x u ih =>
    subst h
    rw [List.cons_append, List.cons_append]
    by_cases hp : d.text <+: x :: (u ++ d.text ++ v)
    · exact ⟨0, Nat.zero_le _, find_cons_of_start hp⟩
    · obtain ⟨i, hi, hfind⟩ := ih rfl
      exact ⟨i + 1, Nat.succ_le_succ hi, by rw [find_cons_of_not_start hp, hfind, Option.map_some]⟩

theorem not_suffix_of_find_none {d : Delimiter α} {s : List α} (h : find d s = none) :
    ¬ d.text <:+ s := by
  rintro ⟨u, hu⟩
  have hsplit : s = u ++ d.text ++ [] := by rw [List.append_nil, hu]
  obtain ⟨i, _, hfind⟩ := find_le hsplit
  rw [h] at hfind
  cases hfind

/-- A cut between `a` and `b` falls strictly inside an occurrence of `d`. -/
def Straddles (d : Delimiter α) (a b : List α) : Prop :=
  ∃ d₁ d₂, d₁ ≠ [] ∧ d₂ ≠ [] ∧ d.text = d₁ ++ d₂ ∧ d₁ <:+ a ∧ d₂ <+: b

omit [DecidableEq α] in
theorem straddles_iff {d : Delimiter α} {a b : List α} :
    Straddles d a b ↔ ∃ i < d.text.length, 0 < i ∧ d.text.take i <:+ a ∧ d.text.drop i <+: b := by
  constructor
  · rintro ⟨d₁, d₂, h₁, h₂, heq, hs, hp⟩
    have hpos₁ := List.length_pos_iff.mpr h₁
    have hpos₂ := List.length_pos_iff.mpr h₂
    refine ⟨d₁.length, by rw [heq, List.length_append]; omega, hpos₁, ?_, ?_⟩
    · rwa [heq, List.take_left]
    · rwa [heq, List.drop_left]
  · rintro ⟨i, hi, hpos, hs, hp⟩
    refine ⟨_, _, ?_, ?_, (List.take_append_drop i d.text).symm, hs, hp⟩
    · exact List.length_pos_iff.mp (by rw [List.length_take]; omega)
    · exact List.length_pos_iff.mp (by rw [List.length_drop]; omega)

instance (d : Delimiter α) (a b : List α) : Decidable (Straddles d a b) :=
  decidable_of_iff' _ straddles_iff

omit [DecidableEq α] in
theorem Straddles.of_suffix {d : Delimiter α} {a a' b : List α} (h : Straddles d a b)
    (ha : a <:+ a') : Straddles d a' b := by
  obtain ⟨d₁, d₂, h₁, h₂, heq, hs, hp⟩ := h
  exact ⟨d₁, d₂, h₁, h₂, heq, hs.trans ha, hp⟩

omit [DecidableEq α] in
/-- Nothing can be cut inside a delimiter of one element. -/
theorem not_straddles_of_length_one {d : Delimiter α} (h : d.length = 1) (a b : List α) :
    ¬ Straddles d a b := by
  rintro ⟨d₁, d₂, h₁, h₂, heq, _, _⟩
  have hlen := congrArg List.length heq
  rw [List.length_append] at hlen
  change d.length = _ at hlen
  have hpos₁ := List.length_pos_iff.mpr h₁
  have hpos₂ := List.length_pos_iff.mpr h₂
  omega

omit [DecidableEq α] in
theorem prefix_of_prefix_append {d : Delimiter α} {a b : List α} (ha : a ≠ [])
    (hcut : ¬ Straddles d a b) (h : d.text <+: a ++ b) : d.text <+: a := by
  obtain ⟨t, ht⟩ := h
  rcases List.append_eq_append_iff.mp ht with ⟨u, hu, _⟩ | ⟨u, hu, hb⟩
  · exact ⟨u, hu.symm⟩
  · by_cases hnil : u = []
    · subst hnil
      rw [List.append_nil] at hu
      exact ⟨[], by rw [hu, List.append_nil]⟩
    · exact (hcut ⟨a, u, ha, hnil, hu, List.suffix_refl a, ⟨t, hb.symm⟩⟩).elim

theorem find_append_of_none {d : Delimiter α} {a b : List α} (h : find d a = none)
    (hcut : ¬ Straddles d a b) : find d (a ++ b) = (find d b).map (· + a.length) := by
  induction a with
  | nil => simp
  | cons x xs ih =>
    have hp : ¬ d.text <+: x :: xs := by
      intro hp
      rw [find_cons_of_start hp] at h
      cases h
    have hxs : find d xs = none := by
      rw [find_cons_of_not_start hp] at h
      simpa using h
    have hp' : ¬ d.text <+: x :: (xs ++ b) := fun hq =>
      hp (prefix_of_prefix_append (a := x :: xs) (by simp) hcut hq)
    rw [List.cons_append, find_cons_of_not_start hp',
      ih hxs (fun hs => hcut (hs.of_suffix (List.suffix_cons x xs))), Option.map_map]
    rfl

/-- A list taken apart at a delimiter: the texts that a delimiter ends, in
order, and the text after the last delimiter. -/
@[ext] structure Segmentation (α : Type) where
  closed : List (List α)
  rest : List α
deriving DecidableEq

namespace Segmentation

def consClosed (f : List α) (F : Segmentation α) : Segmentation α :=
  { F with closed := f :: F.closed }

/-- The list a segmentation comes from. -/
def unbreak (d : Delimiter α) (F : Segmentation α) : List α :=
  (F.closed.map (· ++ d.text)).flatten ++ F.rest

/-- Segmentations of two lists, put together at the place where the first list
ends and the second begins. -/
def join (F G : Segmentation α) : Segmentation α :=
  match G.closed with
  | [] => ⟨F.closed, F.rest ++ G.rest⟩
  | g :: gs => ⟨F.closed ++ (F.rest ++ g) :: gs, G.rest⟩

omit [DecidableEq α] in
theorem unbreak_join (d : Delimiter α) (F G : Segmentation α) :
    (F.join G).unbreak d = F.unbreak d ++ G.unbreak d := by
  unfold join
  split <;> rename_i h <;> simp [unbreak, h]

omit [DecidableEq α] in
theorem consClosed_join (f : List α) (F G : Segmentation α) :
    (F.consClosed f).join G = (F.join G).consClosed f := by
  unfold join
  split <;> rfl

end Segmentation

/-- Takes a list apart at the leftmost non-overlapping occurrences of `d`. -/
def breakAll (d : Delimiter α) (s : List α) : Segmentation α :=
  match _h : find d s with
  | none => ⟨[], s⟩
  | some i => (breakAll d (s.drop (i + d.length))).consClosed (s.take i)
termination_by s.length
decreasing_by
  have hle := find_add_length_le _h
  have hpos := d.length_pos
  rw [List.length_drop]
  omega

theorem breakAll_of_none {d : Delimiter α} {s : List α} (h : find d s = none) :
    breakAll d s = ⟨[], s⟩ := by
  rw [breakAll]
  split <;> simp_all

theorem breakAll_of_some {d : Delimiter α} {s : List α} {i : Nat} (h : find d s = some i) :
    breakAll d s = (breakAll d (s.drop (i + d.length))).consClosed (s.take i) := by
  rw [breakAll]
  split <;> simp_all

@[simp] theorem breakAll_nil (d : Delimiter α) : breakAll d [] = ⟨[], []⟩ := breakAll_of_none rfl

theorem unbreak_breakAll (d : Delimiter α) (s : List α) : (breakAll d s).unbreak d = s := by
  induction s using breakAll.induct d with
  | case1 s h => rw [breakAll_of_none h]; simp [Segmentation.unbreak]
  | case2 s i h ih =>
    rw [breakAll_of_some h]
    have heq := eq_of_find h
    simp only [Segmentation.unbreak, Segmentation.consClosed, List.map_cons, List.flatten_cons,
      List.append_assoc] at ih ⊢
    rw [ih, ← List.append_assoc, ← heq]

/-- The text after the last delimiter contains no delimiter. -/
theorem find_rest_breakAll (d : Delimiter α) (s : List α) : find d (breakAll d s).rest = none := by
  induction s using breakAll.induct d with
  | case1 s h => rwa [breakAll_of_none h]
  | case2 s i h ih =>
    rw [breakAll_of_some h]
    exact ih

/-- Taking apart commutes with appending, unless the seam lies inside a
delimiter. -/
theorem breakAll_append {d : Delimiter α} {a b : List α} (hcut : ¬ Straddles d a b) :
    breakAll d (a ++ b) = (breakAll d a).join (breakAll d b) := by
  induction a using breakAll.induct d with
  | case1 a h =>
    rw [breakAll_of_none h]
    cases hb : find d b with
    | none =>
      have hab : find d (a ++ b) = none := by rw [find_append_of_none h hcut, hb]; rfl
      rw [breakAll_of_none hab, breakAll_of_none hb]
      rfl
    | some i =>
      have hab : find d (a ++ b) = some (i + a.length) := by
        rw [find_append_of_none h hcut, hb]; rfl
      rw [breakAll_of_some hab, breakAll_of_some hb]
      have hdrop : (a ++ b).drop (i + a.length + d.length) = b.drop (i + d.length) := by
        rw [show i + a.length + d.length = a.length + (i + d.length) by omega, List.drop_append]
        simp
      have htake : (a ++ b).take (i + a.length) = a ++ b.take i := by
        rw [Nat.add_comm, List.take_append]
        simp
      rw [hdrop, htake]
      rfl
  | case2 a i h ih =>
    have hle := find_add_length_le h
    rw [breakAll_of_some (find_append_of_some h b), breakAll_of_some h,
      Segmentation.consClosed_join, ← ih (fun hs => hcut (hs.of_suffix (List.drop_suffix _ _))),
      List.drop_append_of_le_length hle, List.take_append_of_le_length (by omega)]

theorem mem_of_find_singleton {d : Delimiter α} {c : α} (hd : d.text = [c]) {s : List α} {i : Nat}
    (h : find d s = some i) : c ∈ s := by
  rw [eq_of_find h, hd]
  simp

/-- A text without the separating element is one open piece. -/
theorem breakAll_of_notMem {d : Delimiter α} {c : α} (hd : d.text = [c]) {s : List α} (h : c ∉ s) :
    breakAll d s = ⟨[], s⟩ := by
  cases hfind : find d s with
  | none => exact breakAll_of_none hfind
  | some i => exact (h (mem_of_find_singleton hd hfind)).elim

/-- A text without the separating element is closed by the element behind it. -/
theorem breakAll_append_cons {d : Delimiter α} {c : α} (hd : d.text = [c]) {l : List α} (h : c ∉ l)
    (s : List α) : breakAll d (l ++ c :: s) = (breakAll d s).consClosed l := by
  have hone : d.length = 1 := by rw [Delimiter.length, hd]; rfl
  have hc : breakAll d (c :: s) = (breakAll d s).consClosed [] := by
    rw [breakAll_of_some (find_cons_of_start (by rw [hd]; exact ⟨s, rfl⟩)), hone]
    rfl
  rw [breakAll_append (not_straddles_of_length_one hone _ _), breakAll_of_notMem hd h, hc]
  simp [Segmentation.join, Segmentation.consClosed]

theorem notMem_of_find_none {d : Delimiter α} {c : α} (hd : d.text = [c]) {s : List α}
    (h : find d s = none) : c ∉ s := by
  intro hmem
  obtain ⟨l, t, rfl, hl⟩ := List.eq_append_cons_of_mem hmem
  have hbreak := breakAll_append_cons hd hl t
  rw [breakAll_of_none h] at hbreak
  cases hbreak

/-- The pieces between separating elements contain none. -/
theorem notMem_of_mem_closed {d : Delimiter α} {c : α} (hd : d.text = [c]) (s : List α) :
    ∀ text ∈ (breakAll d s).closed, c ∉ text := by
  by_cases hmem : c ∈ s
  · obtain ⟨l, t, rfl, hl⟩ := List.eq_append_cons_of_mem hmem
    rw [breakAll_append_cons hd hl]
    exact List.forall_mem_cons.mpr ⟨hl, notMem_of_mem_closed hd t⟩
  · rw [breakAll_of_notMem hd hmem]
    simp
termination_by s.length

omit [DecidableEq α] in
/-- What stands before and behind the first separating element is determined. -/
theorem append_cons_cancel {c : α} {l l' t t' : List α} (h : c ∉ l) (h' : c ∉ l')
    (heq : l ++ c :: t = l' ++ c :: t') : l = l' ∧ t = t' := by
  induction l generalizing l' with
  | nil =>
    cases l' with
    | nil => exact ⟨rfl, (List.cons.inj heq).2⟩
    | cons x l' =>
      obtain ⟨rfl, _⟩ := List.cons.inj heq
      exact absurd List.mem_cons_self h'
  | cons x l ih =>
    cases l' with
    | nil =>
      obtain ⟨rfl, _⟩ := List.cons.inj heq
      exact absurd List.mem_cons_self h
    | cons x' l' =>
      obtain ⟨rfl, htail⟩ := List.cons.inj heq
      obtain ⟨rfl, ht⟩ := ih (fun hl => h (List.mem_cons_of_mem x hl))
        (fun hl => h' (List.mem_cons_of_mem x hl)) htail
      exact ⟨rfl, ht⟩

/-- The segmentation obtained when a list arrives in chunks and each chunk is
searched on its own. -/
def breakChunks (d : Delimiter α) : List (List α) → Segmentation α
  | [] => ⟨[], []⟩
  | c :: cs => (breakAll d c).join (breakChunks d cs)

theorem unbreak_breakChunks (d : Delimiter α) (chunks : List (List α)) :
    (breakChunks d chunks).unbreak d = chunks.flatten := by
  induction chunks with
  | nil => rfl
  | cons c cs ih =>
    rw [breakChunks, Segmentation.unbreak_join, unbreak_breakAll, ih, List.flatten_cons]

/-- No boundary between consecutive chunks falls strictly inside an occurrence
of `d`. -/
def NoCutInside (d : Delimiter α) (chunks : List (List α)) : Prop :=
  ∀ pre post, chunks = pre ++ post → ¬ Straddles d pre.flatten post.flatten

omit [DecidableEq α] in
theorem noCutInside_iff {d : Delimiter α} {chunks : List (List α)} :
    NoCutInside d chunks ↔
      ∀ i ≤ chunks.length, ¬ Straddles d (chunks.take i).flatten (chunks.drop i).flatten := by
  constructor
  · intro h i _
    exact h _ _ (List.take_append_drop i chunks).symm
  · intro h pre post heq
    have hi := h pre.length (by rw [heq, List.length_append]; omega)
    rwa [heq, List.take_left, List.drop_left] at hi

instance (d : Delimiter α) (chunks : List (List α)) : Decidable (NoCutInside d chunks) :=
  decidable_of_iff' _ noCutInside_iff

/-- Searching chunk by chunk finds what searching the whole list finds, when no
chunk boundary lies inside a delimiter. -/
theorem breakChunks_eq_breakAll {d : Delimiter α} {chunks : List (List α)}
    (h : NoCutInside d chunks) : breakChunks d chunks = breakAll d chunks.flatten := by
  induction chunks with
  | nil => simp [breakChunks]
  | cons c cs ih =>
    have hc : ¬ Straddles d c cs.flatten := by simpa using h [c] cs rfl
    have hcs : NoCutInside d cs := fun pre post heq hs =>
      h (c :: pre) post (by rw [heq]; rfl) (hs.of_suffix (by simp))
    rw [breakChunks, ih hcs, List.flatten_cons, breakAll_append hc]

/-- The pieces of a list, each delimiter kept at the end of the piece it closes;
nothing is added for an empty text after the last delimiter. -/
def pieces (d : Delimiter α) (s : List α) : List (List α) :=
  (breakAll d s).closed.map (· ++ d.text) ++ if (breakAll d s).rest = [] then [] else [(breakAll d s).rest]

theorem pieces_of_none {d : Delimiter α} {s : List α} (h : find d s = none) :
    pieces d s = if s = [] then [] else [s] := by
  simp [pieces, breakAll_of_none h]

/-- The leftmost occurrence ends the text up to its end. -/
theorem take_of_find {d : Delimiter α} {s : List α} {i : Nat} (h : find d s = some i) :
    s.take (i + d.length) = s.take i ++ d.text := by
  have hlen := find_add_length_le h
  have heq := congrArg (List.take (i + d.length)) (eq_of_find h)
  rw [List.take_append_of_le_length (by
    simp only [List.length_append, List.length_take]; change _ ≤ _ + d.length; omega)] at heq
  rwa [List.take_of_length_le (l := s.take i ++ d.text) (by
    simp only [List.length_append, List.length_take]; change _ + d.length ≤ _; omega)] at heq

theorem pieces_of_some {d : Delimiter α} {s : List α} {i : Nat} (h : find d s = some i) :
    pieces d s = s.take (i + d.length) :: pieces d (s.drop (i + d.length)) := by
  rw [pieces, breakAll_of_some h, take_of_find h]
  rfl

theorem pieces_append_cons {d : Delimiter α} {c : α} (hd : d.text = [c]) {l : List α} (h : c ∉ l)
    (s : List α) : pieces d (l ++ c :: s) = (l ++ [c]) :: pieces d s := by
  simp only [pieces, breakAll_append_cons hd h, Segmentation.consClosed, List.map_cons, hd,
    List.cons_append]

theorem pieces_eq_nil {d : Delimiter α} {s : List α} : pieces d s = [] ↔ s = [] := by
  cases h : find d s with
  | none => simp [pieces_of_none h]
  | some i =>
    rw [pieces_of_some h]
    simp only [reduceCtorEq, false_iff]
    rintro rfl
    cases h

theorem flatten_pieces (d : Delimiter α) (s : List α) : (pieces d s).flatten = s := by
  conv_rhs => rw [← unbreak_breakAll d s]
  rw [pieces, Segmentation.unbreak, List.flatten_append]
  split
  · rename_i hrest
    rw [hrest, List.flatten_nil]
  · rw [List.flatten_singleton]

/-- The first pieces are the first closed texts. -/
theorem breakAll_take_pieces {d : Delimiter α} {s : List α} {k : Nat}
    (hk : k ≤ (breakAll d s).closed.length) :
    breakAll d ((pieces d s).take k).flatten = ⟨(breakAll d s).closed.take k, []⟩ := by
  induction k generalizing s with
  | zero => simp
  | succ k ih =>
    cases hfind : find d s with
    | none =>
      rw [breakAll_of_none hfind] at hk
      cases hk
    | some i =>
      have hclosed := breakAll_of_some hfind
      have hfind' := find_append_of_some (find_take hfind)
        ((pieces d (s.drop (i + d.length))).take k).flatten
      have hlen : (s.take (i + d.length)).length = i + d.length :=
        List.length_take_of_le (find_add_length_le hfind)
      rw [hclosed] at hk ⊢
      rw [pieces_of_some hfind, List.take_succ_cons, List.flatten_cons, breakAll_of_some hfind',
        List.drop_left' hlen, ih (Nat.le_of_succ_le_succ hk), List.take_append_of_le_length (by omega),
        List.take_take, Nat.min_eq_left (Nat.le_add_right _ _)]
      rfl

/-- The other pieces are the other closed texts and the rest. -/
theorem breakAll_drop_pieces {d : Delimiter α} {s : List α} {k : Nat}
    (hk : k ≤ (breakAll d s).closed.length) :
    breakAll d ((pieces d s).drop k).flatten =
      ⟨(breakAll d s).closed.drop k, (breakAll d s).rest⟩ := by
  induction k generalizing s with
  | zero => rw [List.drop_zero, List.drop_zero, flatten_pieces]
  | succ k ih =>
    cases hfind : find d s with
    | none =>
      rw [breakAll_of_none hfind] at hk
      cases hk
    | some i =>
      rw [breakAll_of_some hfind] at hk ⊢
      rw [pieces_of_some hfind, List.drop_succ_cons, ih (Nat.le_of_succ_le_succ hk)]
      rfl

/-- A cut behind a closed text does not matter. -/
theorem breakChunks_pieces {d : Delimiter α} {s : List α} {k : Nat}
    (hk : k ≤ (breakAll d s).closed.length) :
    breakChunks d [((pieces d s).take k).flatten, ((pieces d s).drop k).flatten] = breakAll d s := by
  have htake := List.take_append_drop k (breakAll d s).closed
  rw [breakChunks, breakChunks, breakChunks, breakAll_take_pieces hk, breakAll_drop_pieces hk]
  simp only [Segmentation.join, List.append_nil]
  cases hdrop : (breakAll d s).closed.drop k with
  | nil =>
    rw [hdrop, List.append_nil] at htake
    simp only [htake, List.nil_append]
  | cons text texts =>
    rw [hdrop] at htake
    simp only [htake, List.nil_append]

/-- There is a second piece when something follows a separating element. -/
theorem two_le_length_pieces {d : Delimiter α} {c : α} (hd : d.text = [c]) {s : List α} :
    2 ≤ (pieces d s).length ↔ ∃ a b, s = a ++ c :: b ∧ b ≠ [] := by
  by_cases hmem : c ∈ s
  · obtain ⟨l, t, rfl, hl⟩ := List.eq_append_cons_of_mem hmem
    rw [pieces_append_cons hd hl, List.length_cons, Nat.succ_le_succ_iff, Nat.one_le_iff_ne_zero,
      Ne, List.length_eq_zero_iff, pieces_eq_nil]
    refine ⟨fun ht => ⟨l, t, rfl, ht⟩, ?_⟩
    rintro ⟨a, b, heq, hb⟩ rfl
    obtain ⟨b', x, rfl⟩ := List.eq_nil_or_concat b |>.resolve_left hb
    rw [List.concat_eq_append, ← List.cons_append, ← List.append_assoc] at heq
    exact hl ((List.append_inj_left' heq rfl) ▸ List.mem_append_right a List.mem_cons_self)
  · rw [pieces, breakAll_of_notMem hd hmem]
    constructor
    · intro h
      split at h <;> simp at h
    · rintro ⟨a, b, rfl, _⟩
      exact absurd (List.mem_append_right a List.mem_cons_self) hmem

/-- The first piece is everything when no separating element stands before the
last element. -/
theorem head_pieces_eq_iff {d : Delimiter α} {c : α} (hd : d.text = [c]) {s p : List α}
    {ps : List (List α)} (h : pieces d s = p :: ps) : p = s ↔ c ∉ s.dropLast := by
  by_cases hmem : c ∈ s
  · obtain ⟨l, t, rfl, hl⟩ := List.eq_append_cons_of_mem hmem
    rw [pieces_append_cons hd hl] at h
    obtain ⟨rfl, _⟩ := List.cons.inj h
    cases t with
    | nil => simp [hl]
    | cons x t => simp
  · rw [pieces, breakAll_of_notMem hd hmem] at h
    split at h
    · cases h
    · obtain ⟨rfl, _⟩ := List.cons.inj h
      exact iff_of_true rfl fun hdrop => hmem (List.mem_of_mem_dropLast hdrop)

/-- A list of pieces that gives back `s`. Each piece but possibly the last ends
with a delimiter, and wherever a delimiter stands in a piece, the piece ends. -/
structure IsLeftmostSplit (d : Delimiter α) (s : List α) (l : List (List α)) : Prop where
  lossless : l.flatten = s
  nonempty : ∀ piece ∈ l, piece ≠ []
  closed : ∀ piece ∈ l.dropLast, d.text <:+ piece
  leftmost : ∀ piece ∈ l, ∀ u v, piece = u ++ d.text ++ v → v = []

theorem isLeftmostSplit_pieces (d : Delimiter α) (s : List α) : IsLeftmostSplit d s (pieces d s) := by
  induction s using breakAll.induct d with
  | case1 s h =>
    refine ⟨flatten_pieces d s, ?_, ?_, ?_⟩ <;> rw [pieces_of_none h] <;> split
    · exact List.forall_mem_nil _
    · rename_i hne
      exact List.forall_mem_singleton.mpr hne
    · exact List.forall_mem_nil _
    · exact List.forall_mem_nil _
    · exact List.forall_mem_nil _
    · refine List.forall_mem_singleton.mpr fun u v heq => ?_
      obtain ⟨i, _, hfind⟩ := find_le heq
      cases h.symm.trans hfind
  | case2 s i h ih =>
    have hpos := d.length_pos
    have hlen := find_add_length_le h
    have htake : (s.take (i + d.length)).length = i + d.length := List.length_take_of_le hlen
    refine ⟨flatten_pieces d s, ?_, ?_, ?_⟩ <;> rw [pieces_of_some h]
    · refine List.forall_mem_cons.mpr ⟨fun hnil => ?_, ih.nonempty⟩
      rw [hnil, List.length_nil] at htake
      omega
    · by_cases hnil : pieces d (s.drop (i + d.length)) = []
      · rw [hnil]
        exact List.forall_mem_nil _
      · rw [List.dropLast_cons_of_ne_nil hnil]
        refine List.forall_mem_cons.mpr ⟨?_, ih.closed⟩
        rw [take_of_find h]
        exact List.suffix_append _ _
    · refine List.forall_mem_cons.mpr ⟨fun u v heq => ?_, ih.leftmost⟩
      obtain ⟨j, hj, hfind⟩ := find_le heq
      obtain rfl : i = j := Option.some.inj ((find_take h).symm.trans hfind)
      have hparts : i + d.length = u.length + d.length + v.length := by
        rw [← htake, heq, List.length_append, List.length_append]
        rfl
      exact List.length_eq_zero_iff.mp (by omega)

/-- These are the pieces, and no other list of pieces is like them. -/
theorem IsLeftmostSplit.eq_pieces {d : Delimiter α} {s : List α} {l : List (List α)}
    (h : IsLeftmostSplit d s l) : l = pieces d s := by
  induction l generalizing s with
  | nil =>
    rw [← h.lossless, List.flatten_nil]
    exact (pieces_eq_nil.mpr rfl).symm
  | cons piece later ih =>
    have hs : s = piece ++ later.flatten := by rw [← h.lossless, List.flatten_cons]
    have hleftmost := h.leftmost piece List.mem_cons_self
    by_cases hend : d.text <:+ piece
    · obtain ⟨a, ha⟩ := hend
      have hclosed : piece = a ++ d.text ++ [] := by rw [List.append_nil, ha]
      obtain ⟨i, _, hfind⟩ := find_le hclosed
      have hrest := List.drop_eq_nil_iff.mp (hleftmost _ _ (eq_of_find hfind))
      have hpiece : i + d.length = piece.length :=
        Nat.le_antisymm (find_add_length_le hfind) hrest
      have hlater : IsLeftmostSplit d later.flatten later := by
        refine ⟨rfl, fun p hp => h.nonempty p (List.mem_cons_of_mem _ hp), fun p hp => ?_,
          fun p hp => h.leftmost p (List.mem_cons_of_mem _ hp)⟩
        have hne : later ≠ [] := by
          rintro rfl
          cases hp
        refine h.closed p ?_
        rw [List.dropLast_cons_of_ne_nil hne]
        exact List.mem_cons_of_mem _ hp
      rw [hs, pieces_of_some (find_append_of_some hfind _), hpiece, List.take_left, List.drop_left,
        ← ih hlater]
    · have hnil : later = [] := by
        by_contra hne
        refine hend (h.closed piece ?_)
        rw [List.dropLast_cons_of_ne_nil hne]
        exact List.mem_cons_self
      have hnone : find d piece = none := by
        cases hfind : find d piece with
        | none => rfl
        | some i =>
          have heq := eq_of_find hfind
          rw [hleftmost _ _ heq, List.append_nil] at heq
          exact (hend ⟨_, heq.symm⟩).elim
      rw [hs, hnil, List.flatten_nil, List.append_nil, pieces_of_none hnone,
        if_neg (h.nonempty piece List.mem_cons_self)]

/-- A separating element can only be the last of a piece. -/
theorem notMem_dropLast_of_mem_pieces {d : Delimiter α} {c : α} (hd : d.text = [c]) {s : List α} :
    ∀ piece ∈ pieces d s, c ∉ piece.dropLast := by
  intro piece hpiece hmem
  obtain ⟨u, v, heq⟩ := List.append_of_mem hmem
  have hne : piece ≠ [] := (isLeftmostSplit_pieces d s).nonempty piece hpiece
  have hparts : piece = u ++ d.text ++ (v ++ [piece.getLast hne]) :=
    calc piece = piece.dropLast ++ [piece.getLast hne] := (List.dropLast_append_getLast hne).symm
      _ = u ++ d.text ++ (v ++ [piece.getLast hne]) := by rw [heq, hd]; simp
  exact List.append_ne_nil_of_right_ne_nil v (List.cons_ne_nil _ _)
    ((isLeftmostSplit_pieces d s).leftmost piece hpiece _ _ hparts)

end Split
