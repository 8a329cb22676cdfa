import Mathlib.Data.List.Basic
import Mathlib.Data.List.Infix

/-!
# Searching and splitting lists

Two things text protocols do with a list of symbols: look for a word in it, and cut it at a
separator. A separator of one symbol is `List.splitOn`; `splitPair` cuts at a separator of two
different symbols, from the left, as a reader of lines that end in such a pair does, and `cutLast` cuts once,
at the last symbol of a kind. What a splitter returns contains no separator, and what is written with
a separator after a piece that contains none is read back.
-/

namespace Split

variable {α : Type*}

/-! ### Words at the border of two lists -/

/-- A word that has the last symbol of `xs` at its own end at most cannot start in `xs` and end
behind it. -/
theorem infix_append_iff_of_getLast {w xs ys : List α} {c : α} (hlast : xs.getLast? = some c)
    (hw : c ∉ w.dropLast) : w <:+: xs ++ ys ↔ w <:+: xs ∨ w <:+: ys := by
  rw [List.infix_append_iff_ne_nil]
  constructor
  · rintro (h | h | ⟨l, r, hl, hr, rfl, ⟨s, rfl⟩, -⟩)
    · exact .inl h
    · exact .inr h
    · have hmem : c ∈ l :=
        List.mem_of_getLast? (by simpa [List.getLast?_append_of_ne_nil _ hl] using hlast)
      rw [List.dropLast_append_of_ne_nil hr] at hw
      exact absurd (List.mem_append_left _ hmem) hw
  · rintro (h | h)
    · exact .inl h
    · exact .inr (.inl h)

/-- A pair occurs in `xs ++ ys` inside one of the two or exactly at the border. -/
theorem pair_infix_append_iff {a b : α} {xs ys : List α} :
    [a, b] <:+: xs ++ ys ↔
      [a, b] <:+: xs ∨ [a, b] <:+: ys ∨ (xs.getLast? = some a ∧ ys.head? = some b) := by
  rw [List.infix_append_iff_ne_nil]
  refine or_congr_right (or_congr_right ⟨?_, ?_⟩)
  · rintro ⟨l, r, hl, hr, hlr, hsuffix, hprefix⟩
    obtain ⟨rfl, rfl⟩ : l = [a] ∧ r = [b] := by
      cases l with
      | nil => exact absurd rfl hl
      | cons x l => cases l <;> simp_all
    exact ⟨List.singleton_suffix_iff_getLast?_eq_some.mp hsuffix,
      List.singleton_prefix_iff_head?_eq_some.mp hprefix⟩
  · rintro ⟨hlast, hhead⟩
    exact ⟨[a], [b], by simp, by simp, rfl, List.singleton_suffix_iff_getLast?_eq_some.mpr hlast,
      List.singleton_prefix_iff_head?_eq_some.mpr hhead⟩

/-! ### One symbol -/

theorem not_mem_of_mem_splitOn [DecidableEq α] {x : α} {xs l : List α} (h : l ∈ xs.splitOn x) :
    x ∉ l := by
  induction xs generalizing l with
  | nil => simp_all
  | cons y ys ih =>
    rw [List.splitOn_cons_eq_if_modifyHead] at h
    split at h
    · rcases List.mem_cons.mp h with rfl | h
      · exact List.not_mem_nil
      · exact ih h
    · rename_i hy
      obtain ⟨l₀, ls, hls⟩ := List.exists_cons_of_ne_nil (List.splitOn_ne_nil x ys)
      rw [hls] at h ih
      rcases List.mem_cons.mp h with rfl | h
      · have hne : x ≠ y := by
          rintro rfl
          simp at hy
        simpa [hne] using ih List.mem_cons_self
      · exact ih (List.mem_cons_of_mem _ h)

theorem intercalate_cons (x : α) (front : List α) (rest : List (List α)) :
    [x].intercalate (front :: rest) = front ++ rest.flatMap (x :: ·) := by
  induction rest generalizing front with
  | nil => simp
  | cons next rest ih =>
    rw [List.intercalate_cons_cons, ih, List.flatMap_cons, List.append_assoc]
    rfl

theorem append_infix_intercalate {x : α} {c : List α} {ls : List (List α)} (h : c ∈ ls.dropLast) :
    c ++ [x] <:+: [x].intercalate ls := by
  induction ls with
  | nil => cases h
  | cons l ls ih =>
    cases ls with
    | nil => cases h
    | cons l' ls =>
      rw [List.intercalate_cons_cons]
      rcases List.mem_cons.mp h with rfl | h
      · exact (List.prefix_append _ _).isInfix
      · exact List.infix_append_of_infix_right (ih h)

theorem append_infix_of_mem_dropLast_splitOn [DecidableEq α] {x : α} {xs c : List α}
    (h : c ∈ (xs.splitOn x).dropLast) : c ++ [x] <:+: xs := by
  simpa [List.intercalate_splitOn] using append_infix_intercalate (x := x) h

theorem infix_intercalate {x : α} {l : List α} {ls : List (List α)} (h : l ∈ ls) :
    l <:+: [x].intercalate ls := by
  induction ls with
  | nil => cases h
  | cons l' ls ih =>
    cases ls with
    | nil =>
      obtain rfl := List.mem_singleton.mp h
      simp
    | cons l'' ls =>
      rw [List.intercalate_cons_cons, List.append_assoc]
      rcases List.mem_cons.mp h with rfl | h
      · exact (List.prefix_append _ _).isInfix
      · exact List.infix_append_of_infix_right (List.infix_append_of_infix_right (ih h))

theorem infix_of_mem_splitOn [DecidableEq α] {x : α} {xs l : List α} (h : l ∈ xs.splitOn x) :
    l <:+: xs := by
  simpa [List.intercalate_splitOn] using infix_intercalate (x := x) h

theorem pair_infix_intercalate_iff {a b x : α} (ha : x ≠ a) (hb : x ≠ b) (ls : List (List α)) :
    [a, b] <:+: [x].intercalate ls ↔ ∃ l ∈ ls, [a, b] <:+: l := by
  induction ls with
  | nil => simp
  | cons l ls ih =>
    cases ls with
    | nil => simp
    | cons l' ls =>
      have hsep : ¬ [a, b] <:+: [x] := fun h => by simpa using h.length_le
      rw [List.intercalate_cons_cons, List.append_assoc, pair_infix_append_iff, pair_infix_append_iff,
        ih]
      simp [hsep, ha, hb]

/-- A list of lines that each end in the separator is cut inside the lines and behind them. -/
theorem splitOn_lines [DecidableEq α] {x : α} (lines : List (List α)) :
    (lines.flatMap (· ++ [x])).splitOn x = lines.flatMap (List.splitOn x) ++ [[]] := by
  induction lines with
  | nil => rfl
  | cons l lines ih =>
    rw [List.flatMap_cons, List.append_assoc, List.singleton_append, List.splitOn_append_cons_self, ih,
      List.flatMap_cons, List.append_assoc]

/-- Lines without the separator are read back. -/
theorem flatMap_splitOn_of_not_mem [DecidableEq α] {x : α} {lines : List (List α)}
    (h : ∀ l ∈ lines, x ∉ l) : lines.flatMap (List.splitOn x) = lines :=
  calc lines.flatMap (List.splitOn x) = lines.flatMap fun l => [l] :=
        List.flatMap_congr fun l hl => List.splitOn_eq_singleton (h l hl)
    _ = lines := List.flatMap_singleton' lines

/-- There is one piece more than there are separators. -/
theorem length_splitOn [DecidableEq α] (x : α) (l : List α) :
    (l.splitOn x).length = l.count x + 1 := by
  induction l with
  | nil => rfl
  | cons y ys ih =>
    rw [List.splitOn_cons_eq_if_modifyHead, List.count_cons]
    split_ifs with hy
    · rw [List.length_cons, ih]
    · rw [List.length_modifyHead, ih, Nat.add_zero]

theorem two_le_length_splitOn [DecidableEq α] {x : α} {l : List α} (h : x ∈ l) :
    2 ≤ (l.splitOn x).length := by
  rw [length_splitOn]
  exact Nat.succ_le_succ (List.count_pos_iff.mpr h)

theorem length_le_length_splitOn_lines [DecidableEq α] (x : α) (lines : List (List α)) :
    lines.length ≤ (lines.flatMap (List.splitOn x)).length := by
  induction lines with
  | nil => exact Nat.le_refl 0
  | cons l lines ih =>
    have hpos := List.length_pos_of_ne_nil (List.splitOn_ne_nil x l)
    rw [List.flatMap_cons, List.length_append, List.length_cons]
    omega

/-- A line with the separator in it is read as two lines at least. -/
theorem not_mem_of_length_splitOn_lines [DecidableEq α] {x : α} {lines : List (List α)}
    (h : (lines.flatMap (List.splitOn x)).length = lines.length) : ∀ l ∈ lines, x ∉ l := by
  induction lines with
  | nil => exact nofun
  | cons l lines ih =>
    have hpos := List.length_pos_of_ne_nil (List.splitOn_ne_nil x l)
    have hle := length_le_length_splitOn_lines x lines
    rw [List.flatMap_cons, List.length_append, List.length_cons] at h
    refine List.forall_mem_cons.mpr ⟨fun hmem => ?_, ih (by omega)⟩
    have htwo := two_le_length_splitOn hmem
    omega

/-! ### The last symbol of a kind -/

/-- What stands before and behind the last `x`. -/
def cutLast [DecidableEq α] (x : α) : List α → Option (List α × List α)
  | [] => none
  | y :: ys =>
    match cutLast x ys with
    | some (front, back) => some (y :: front, back)
    | none => if y = x then some ([], ys) else none

theorem cutLast_of_not_mem [DecidableEq α] {x : α} {l : List α} (h : x ∉ l) : cutLast x l = none := by
  induction l with
  | nil => rfl
  | cons y ys ih =>
    rw [List.mem_cons, not_or] at h
    rw [cutLast, ih h.2]
    exact if_neg (Ne.symm h.1)

theorem cutLast_append [DecidableEq α] {x : α} (front : List α) {back : List α} (h : x ∉ back) :
    cutLast x (front ++ x :: back) = some (front, back) := by
  induction front with
  | nil =>
    rw [List.nil_append, cutLast, cutLast_of_not_mem h]
    exact if_pos rfl
  | cons y front ih => rw [List.cons_append, cutLast, ih]

/-! ### A pair of symbols -/

variable [DecidableEq α]

def consHead (x : α) : List (List α) → List (List α)
  | [] => [[x]]
  | l :: ls => (x :: l) :: ls

/-- Cut at every `a` followed by `b`. -/
def splitPair (a b : α) : List α → List (List α)
  | [] => [[]]
  | [x] => [[x]]
  | x :: y :: rest =>
    if x = a ∧ y = b then [] :: splitPair a b rest else consHead x (splitPair a b (y :: rest))

variable {a b : α}

theorem splitPair_append (hab : a ≠ b) {xs : List α} (hxs : ¬ [a, b] <:+: xs) (rest : List α) :
    splitPair a b (xs ++ a :: b :: rest) = xs :: splitPair a b rest := by
  induction xs with
  | nil => simp [splitPair]
  | cons x xs ih =>
    have htail := ih fun h => hxs (List.infix_cons h)
    cases xs with
    | nil => simp_all [splitPair, consHead]
    | cons y ys =>
      have hpair : ¬ (x = a ∧ y = b) := by
        rintro ⟨rfl, rfl⟩
        exact hxs ⟨[], ys, rfl⟩
      simp only [List.cons_append] at htail ⊢
      rw [splitPair, if_neg hpair, htail, consHead]

/-- The first piece is a prefix, and no piece contains the separator. -/
theorem splitPair_spec (a b : α) (xs : List α) :
    ∃ l ls, splitPair a b xs = l :: ls ∧ l <+: xs ∧ ∀ p ∈ l :: ls, ¬ [a, b] <:+: p := by
  induction xs using splitPair.induct a b with
  | case1 => exact ⟨[], [], rfl, List.prefix_rfl, by simp⟩
  | case2 x => exact ⟨[x], [], rfl, List.prefix_rfl, by simp [List.infix_cons_iff]⟩
  | case3 x y rest hpair ih =>
    obtain ⟨l, ls, hsplit, -, hno⟩ := ih
    refine ⟨[], l :: ls, by rw [splitPair, if_pos hpair, hsplit], List.nil_prefix, ?_⟩
    intro p hp
    rcases List.mem_cons.mp hp with rfl | hp
    · simp
    · exact hno p hp
  | case4 x y rest hpair ih =>
    obtain ⟨l, ls, hsplit, hprefix, hno⟩ := ih
    refine ⟨x :: l, ls, by rw [splitPair, if_neg hpair, hsplit, consHead],
      (List.prefix_cons_inj x).mpr hprefix, ?_⟩
    intro p hp
    rcases List.mem_cons.mp hp with rfl | hp
    · rw [List.infix_cons_iff]
      rintro (h | h)
      · -- the separator at the front would need the symbol that follows `x`
        cases l with
        | nil => simp at h
        | cons z l =>
          simp only [List.cons_prefix_cons] at h hprefix
          exact hpair ⟨h.1.symm, hprefix.1 ▸ h.2.1.symm⟩
      · exact hno l List.mem_cons_self h
    · exact hno p (List.mem_cons_of_mem _ hp)

theorem not_infix_of_mem_splitPair {xs l : List α} (h : l ∈ splitPair a b xs) : ¬ [a, b] <:+: l := by
  obtain ⟨l₀, ls, hsplit, -, hno⟩ := splitPair_spec a b xs
  exact hno l (hsplit ▸ h)

/-- Lines that end in the separator and do not contain it are read back, with nothing behind the
last one. -/
theorem splitPair_lines (hab : a ≠ b) {lines : List (List α)}
    (h : ∀ l ∈ lines, ¬ [a, b] <:+: l) :
    splitPair a b (lines.flatMap (· ++ [a, b])) = lines ++ [[]] := by
  induction lines with
  | nil => rfl
  | cons l lines ih =>
    rw [List.flatMap_cons, List.append_assoc, List.cons_append, List.singleton_append,
      splitPair_append hab (h l List.mem_cons_self), ih fun l' hl' => h l' (List.mem_cons_of_mem _ hl'),
      List.cons_append]

end Split
