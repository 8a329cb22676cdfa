import Mathlib.Data.List.Basic
import Mathlib.Data.List.Infix
import Mathlib.Data.List.TakeWhile

/-!
# A keyword and its value

Configuration files are often read with one regular expression a setting: the line starts with a
keyword, separators follow, and a group captures a bounded number of symbols of a class, `^keyword
sep+ (cls{1,max})`. The separators may be in the class too, so more than one pair of separators and
value can fit.

POSIX takes the longest match, and among those the one in which the part further left is longest.
`Longest` says that, and `capture` computes it: as many separators as leave the group a symbol, and
then as many symbols as the group takes.
-/

/-- The expression `^keyword sep+ (cls{1,max})`. -/
structure KeywordPattern (α : Type*) where
  keyword : List α
  sep : α → Bool
  cls : α → Bool
  max : Nat
  pos : 0 < max

namespace KeywordPattern

variable {α : Type*} (p : KeywordPattern α)

/-- `xs` starts with the separators and the value. -/
structure Fits (xs seps value : List α) : Prop where
  starts : seps ++ value <+: xs
  seps_all : ∀ x ∈ seps, p.sep x = true
  value_ne : value ≠ []
  value_all : ∀ x ∈ value, p.cls x = true
  value_le : value.length ≤ p.max

/-- A match of the expression at the start of the line. -/
structure Matches (line seps value : List α) : Prop extends
    Fits p (line.drop p.keyword.length) seps value where
  keyword : p.keyword <+: line
  seps_ne : seps ≠ []

/-- No other choice is longer, or as long with more separators. -/
def Best (M : List α → List α → Prop) (seps value : List α) : Prop :=
  M seps value ∧ ∀ seps' value', M seps' value' →
    seps'.length + value'.length < seps.length + value.length ∨
      seps'.length + value'.length = seps.length + value.length ∧ seps'.length ≤ seps.length

/-- The match POSIX prescribes. -/
def Longest (line seps value : List α) : Prop := Best (p.Matches line) seps value

/-- As many symbols as the group takes. -/
def run (xs : List α) : List α := (xs.takeWhile p.cls).take p.max

/-- What the group captures when one separator at least has been read. -/
def group : List α → Option (List α)
  | [] => none
  | x :: xs =>
    match if p.sep x then group xs else none with
    | some value => some value
    | none => if p.cls x then some (p.run (x :: xs)) else none

/-- What the group captures, if the expression matches. -/
def capture [DecidableEq α] (line : List α) : Option (List α) :=
  if p.keyword <+: line then
    match line.drop p.keyword.length with
    | [] => none
    | x :: xs => if p.sep x then p.group xs else none
  else none

variable {p} {xs seps value : List α}

/-! ### The value on its own -/

theorem le_run (h : p.Fits xs [] value) : value.length ≤ (p.run xs).length := by
  obtain ⟨tail, rfl⟩ := h.starts
  rw [run, List.nil_append, List.takeWhile_append_of_pos h.value_all, List.length_take,
    List.length_append]
  exact le_min h.value_le (Nat.le_add_right _ _)

theorem fits_run {x : α} (hx : p.cls x = true) : p.Fits (x :: xs) [] (p.run (x :: xs)) := by
  refine ⟨(List.take_prefix _ _).trans (List.takeWhile_prefix _), nofun, ?_, fun y hy => ?_,
    List.length_take_le _ _⟩
  · rw [run, List.takeWhile_cons_of_pos hx]
    have hpos := p.pos
    cases hmax : p.max with
    | zero => omega
    | succ n => exact List.cons_ne_nil _ _
  · exact List.mem_takeWhile_imp (List.mem_of_mem_take hy)

/-! ### One symbol -/

theorem not_fits_nil : ¬ p.Fits [] seps value := fun h => by
  have hnil := List.prefix_nil.mp h.starts
  exact h.value_ne (List.append_eq_nil_iff.mp hnil).2

theorem fits_cons_cons_iff {x y : α} :
    p.Fits (x :: xs) (y :: seps) value ↔ y = x ∧ p.sep x = true ∧ p.Fits xs seps value := by
  constructor
  · intro h
    obtain ⟨rfl, hstarts⟩ := List.cons_prefix_cons.mp h.starts
    obtain ⟨hy, hseps⟩ := List.forall_mem_cons.mp h.seps_all
    exact ⟨rfl, hy, hstarts, hseps, h.value_ne, h.value_all, h.value_le⟩
  · rintro ⟨rfl, hy, h⟩
    exact ⟨List.cons_prefix_cons.mpr ⟨rfl, h.starts⟩, List.forall_mem_cons.mpr ⟨hy, h.seps_all⟩,
      h.value_ne, h.value_all, h.value_le⟩

/-- A value that starts here goes on as a value behind the first symbol, or is that symbol. -/
theorem Fits.cls_head {x : α} (h : p.Fits (x :: xs) [] value) :
    p.cls x = true ∧ (value.length = 1 ∨ ∃ rest, p.Fits xs [] rest ∧ value.length = rest.length + 1) := by
  obtain ⟨y, rest, rfl⟩ := List.exists_cons_of_ne_nil h.value_ne
  obtain ⟨rfl, hrest⟩ := List.cons_prefix_cons.mp h.starts
  obtain ⟨hy, hall⟩ := List.forall_mem_cons.mp h.value_all
  refine ⟨hy, ?_⟩
  by_cases hnil : rest = []
  · exact .inl (by rw [hnil]; rfl)
  · have hle := h.value_le
    rw [List.length_cons] at hle
    exact .inr ⟨rest, ⟨hrest, nofun, hnil, hall, by omega⟩, rfl⟩

theorem Best.cons {x : α} (hx : p.sep x = true) (h : Best (p.Fits xs) seps value) :
    Best (p.Fits (x :: xs)) (x :: seps) value := by
  refine ⟨fits_cons_cons_iff.mpr ⟨rfl, hx, h.1⟩, fun seps' value' h' => ?_⟩
  cases seps' with
  | cons y seps' =>
    obtain ⟨-, -, h'⟩ := fits_cons_cons_iff.mp h'
    have hbest := h.2 seps' value' h'
    simp only [List.length_cons]
    omega
  | nil =>
    have hpos := List.length_pos_iff.mpr h.1.value_ne
    rw [List.length_cons, List.length_nil]
    rcases h'.cls_head.2 with hone | ⟨rest, hrest, hlength⟩
    · omega
    · have hbest := h.2 [] rest hrest
      rw [List.length_nil] at hbest
      omega

/-! ### The group -/

theorem group_spec (xs : List α) :
    match p.group xs with
    | some value => ∃ seps, Best (p.Fits xs) seps value
    | none => ∀ seps value, ¬ p.Fits xs seps value := by
  induction xs with
  | nil => exact fun _ _ => not_fits_nil
  | cons x xs ih =>
    rw [group]
    by_cases hfound : ∃ value, (if p.sep x then p.group xs else none) = some value
    · obtain ⟨value, hvalue⟩ := hfound
      obtain ⟨hx, hgroup⟩ := ite_eq_iff.mp hvalue |>.resolve_right (nomatch ·.2)
      rw [hvalue]
      rw [hgroup] at ih
      obtain ⟨seps, hbest⟩ := ih
      exact ⟨x :: seps, hbest.cons hx⟩
    · rw [Option.eq_none_iff_forall_ne_some.mpr fun value h => hfound ⟨value, h⟩]
      -- then no separator can be read here
      have hnone : ∀ y seps value, ¬ p.Fits (x :: xs) (y :: seps) value := by
        intro y seps value h
        obtain ⟨-, hx, h⟩ := fits_cons_cons_iff.mp h
        cases hgroup : p.group xs with
        | some value => exact hfound ⟨value, by rw [if_pos hx, hgroup]⟩
        | none =>
          rw [hgroup] at ih
          exact ih seps value h
      by_cases hx : p.cls x = true
      · rw [if_pos hx]
        refine ⟨[], fits_run hx, fun seps value h => ?_⟩
        cases seps with
        | cons y seps => exact absurd h (hnone y seps value)
        | nil =>
          have hle := le_run h
          omega
      · rw [if_neg hx]
        intro seps value h
        cases seps with
        | cons y seps => exact hnone y seps value h
        | nil => exact hx h.cls_head.1

/-! ### The expression -/

theorem matches_iff {line : List α} {x : α} (h : p.keyword ++ x :: xs = line) {y : α} :
    p.Matches line (y :: seps) value ↔ y = x ∧ p.sep x = true ∧ p.Fits xs seps value := by
  have hdrop : line.drop p.keyword.length = x :: xs := by rw [← h, List.drop_left]
  rw [← fits_cons_cons_iff, ← hdrop]
  exact ⟨fun hmatch => hmatch.toFits, fun hfits => ⟨hfits, ⟨_, h⟩, List.cons_ne_nil _ _⟩⟩

theorem Matches.cons {line : List α} (h : p.Matches line seps value) :
    ∃ x xs seps', seps = x :: seps' ∧ p.keyword ++ x :: xs = line ∧ p.sep x = true ∧
      p.Fits xs seps' value := by
  obtain ⟨rest, rfl⟩ := h.keyword
  obtain ⟨y, seps', rfl⟩ := List.exists_cons_of_ne_nil h.seps_ne
  have hstarts := h.starts
  rw [List.drop_left] at hstarts
  obtain ⟨tail, rfl⟩ := hstarts
  have hline : p.keyword ++ y :: (seps' ++ value ++ tail) =
      p.keyword ++ (y :: seps' ++ value ++ tail) := rfl
  obtain ⟨-, hy, hfits⟩ := (matches_iff hline).mp h
  exact ⟨y, _, seps', rfl, hline, hy, hfits⟩

theorem Longest.unique {line seps' value' : List α} (h : p.Longest line seps value)
    (h' : p.Longest line seps' value') : value = value' := by
  have hone := h.2 seps' value' h'.1
  have htwo := h'.2 seps value h.1
  have hseps : seps.length = seps'.length := by omega
  have hsame : seps ++ value = seps' ++ value' := by
    refine (List.prefix_of_prefix_length_le h.1.starts h'.1.starts ?_).eq_of_length ?_ <;>
      simp only [List.length_append] <;> omega
  exact (List.append_inj hsame hseps).2

theorem Matches.isInfix_line {line : List α} (h : p.Matches line seps value) : value <:+: line := by
  obtain ⟨tail, htail⟩ := h.starts
  have hdrop : value <:+: line.drop p.keyword.length := ⟨seps, tail, htail⟩
  exact hdrop.trans (List.drop_suffix _ _).isInfix

/-! ### What is written on the line -/

variable (p) in
/-- The separators behind the keyword. -/
def separators (line : List α) : List α := (line.drop p.keyword.length).takeWhile p.sep

variable (p) in
/-- What is written behind the separators. -/
def written (line : List α) : List α := (line.drop p.keyword.length).dropWhile p.sep

variable (p) in
/-- The line starts with the keyword and a separator. -/
def Names (line : List α) : Prop := p.keyword <+: line ∧ p.separators line ≠ []

theorem group_append {seps rest : List α} (hseps : ∀ x ∈ seps, p.sep x = true)
    (h : p.group rest = some value) : p.group (seps ++ rest) = some value := by
  induction seps with
  | nil => exact h
  | cons x seps ih =>
    obtain ⟨hx, hseps⟩ := List.forall_mem_cons.mp hseps
    rw [List.cons_append, group, if_pos hx, ih hseps]

theorem group_append_eq_none {seps rest : List α} (hseps : ∀ x ∈ seps, p.cls x = false)
    (h : p.group rest = none) : p.group (seps ++ rest) = none := by
  induction seps with
  | nil => exact h
  | cons x seps ih =>
    obtain ⟨hx, hseps⟩ := List.forall_mem_cons.mp hseps
    rw [List.cons_append, group, ih hseps, ite_self]
    simp [hx]

/-- Among separators alone, the group takes the last symbol it can. -/
theorem group_of_seps {seps : List α} (hseps : ∀ x ∈ seps, p.sep x = true)
    (hcls : ∃ x ∈ seps, p.cls x = true) : ∃ x ∈ seps, p.group seps = some [x] := by
  induction seps with
  | nil =>
    obtain ⟨x, hx, -⟩ := hcls
    cases hx
  | cons x seps ih =>
    obtain ⟨hx, hseps⟩ := List.forall_mem_cons.mp hseps
    by_cases hlater : ∃ y ∈ seps, p.cls y = true
    · obtain ⟨y, hy, hgroup⟩ := ih hseps hlater
      exact ⟨y, List.mem_cons_of_mem _ hy, by rw [group, if_pos hx, hgroup]⟩
    · have hnone : ∀ y ∈ seps, p.cls y = false :=
        fun y hy => Bool.eq_false_iff.mpr fun h => hlater ⟨y, hy, h⟩
      have hrest : p.group seps = none := by
        have happend := @group_append_eq_none α p seps [] hnone rfl
        rwa [List.append_nil] at happend
      have hhead : p.cls x = true := by
        obtain ⟨y, hy, hcls⟩ := hcls
        rcases List.mem_cons.mp hy with rfl | hy
        · exact hcls
        · exact absurd ⟨y, hy, hcls⟩ hlater
      refine ⟨x, List.mem_cons_self, ?_⟩
      have hrun : p.run (x :: seps) = [x] := by
        have htake : seps.takeWhile p.cls = [] := by
          cases seps with
          | nil => rfl
          | cons y seps => exact List.takeWhile_cons_of_neg (by simp [hnone y List.mem_cons_self])
        rw [run, List.takeWhile_cons_of_pos hhead, htake]
        exact List.take_of_length_le p.pos
      rw [group, if_pos hx, hrest]
      simp only [hhead, if_true, hrun]

theorem sep_head_written {line rest : List α} {x : α} (h : p.written line = x :: rest) :
    p.sep x = false := by
  have hhead := List.head?_dropWhile_not p.sep (line.drop p.keyword.length)
  rw [← written, h] at hhead
  simpa using hhead

theorem sep_of_mem_tail {line : List α} : ∀ x ∈ (p.separators line).tail, p.sep x = true :=
  fun _ hx => List.mem_takeWhile_imp (List.mem_of_mem_tail hx)

/-! ### What is captured -/

variable [DecidableEq α]

theorem capture_spec (line : List α) :
    match p.capture line with
    | some value => ∃ seps, p.Longest line seps value
    | none => ∀ seps value, ¬ p.Matches line seps value := by
  by_cases hstart : ∃ x xs, p.keyword ++ x :: xs = line ∧ p.sep x = true
  · obtain ⟨x, xs, hline, hx⟩ := hstart
    have hcapture : p.capture line = p.group xs := by
      rw [capture, if_pos ⟨_, hline⟩, ← hline, List.drop_left]
      exact if_pos hx
    have hspec := group_spec (p := p) xs
    rw [hcapture]
    split at hspec
    next value _ =>
      obtain ⟨seps, hbest⟩ := hspec
      refine ⟨x :: seps, (matches_iff hline).mpr ⟨rfl, hx, hbest.1⟩, fun seps' value' h => ?_⟩
      obtain ⟨y, _, seps', rfl, -, -, -⟩ := h.cons
      have hlonger := hbest.2 seps' value' ((matches_iff hline).mp h).2.2
      simp only [List.length_cons]
      omega
    next =>
      intro seps value h
      obtain ⟨y, _, seps, rfl, -, -, -⟩ := h.cons
      exact hspec seps value ((matches_iff hline).mp h).2.2
  · have hcapture : p.capture line = none := by
      rw [capture]
      split
      next hkeyword =>
        obtain ⟨rest, rfl⟩ := hkeyword
        rw [List.drop_left]
        cases rest with
        | nil => rfl
        | cons x xs => exact if_neg fun hx => hstart ⟨x, xs, rfl, hx⟩
      next => rfl
    rw [hcapture]
    intro seps value h
    obtain ⟨x, xs, seps', -, hline, hx, -⟩ := h.cons
    exact hstart ⟨x, xs, hline, hx⟩

/-- The captured value is the value of the longest match. -/
theorem capture_eq_some_iff {line : List α} :
    p.capture line = some value ↔ ∃ seps, p.Longest line seps value := by
  have hspec := capture_spec (p := p) line
  constructor
  · intro h
    rw [h] at hspec
    exact hspec
  · rintro ⟨seps, hlongest⟩
    split at hspec
    next value' heq =>
      obtain ⟨seps', hlongest'⟩ := hspec
      rw [heq, hlongest'.unique hlongest]
    next => exact absurd hlongest.1 (hspec seps value)

theorem exists_matches_of_capture {line : List α} (h : p.capture line = some value) :
    ∃ seps, p.Matches line seps value :=
  (capture_eq_some_iff.mp h).imp fun _ hlongest => hlongest.1

theorem capture_of_not_names {line : List α} (h : ¬ p.Names line) : p.capture line = none := by
  rw [capture]
  split_ifs with hkeyword
  · have hseps : p.separators line = [] := not_not.mp fun hne => h ⟨hkeyword, hne⟩
    rw [separators] at hseps
    cases hdrop : line.drop p.keyword.length with
    | nil => rfl
    | cons x xs =>
      rw [hdrop, List.takeWhile_cons] at hseps
      split_ifs at hseps with hx
      simp [hx]
  · rfl

theorem capture_of_names {line : List α} (h : p.Names line) :
    p.capture line = p.group ((p.separators line).tail ++ p.written line) := by
  have hsplit : p.separators line ++ p.written line = line.drop p.keyword.length :=
    List.takeWhile_append_dropWhile
  obtain ⟨x, seps, hseps⟩ := List.exists_cons_of_ne_nil h.2
  have hx : p.sep x = true := by
    have hall : ∀ y ∈ p.separators line, p.sep y = true := fun y hy => List.mem_takeWhile_imp hy
    exact hall x (by rw [hseps]; exact List.mem_cons_self)
  rw [capture, if_pos h.1, ← hsplit, hseps, List.cons_append, List.tail_cons]
  simp only [hx, if_true]

/-- A value that is written is captured from its start, as far as the group takes it. -/
theorem capture_eq_run {line rest : List α} {x : α} (h : p.Names line)
    (hwritten : p.written line = x :: rest) (hx : p.cls x = true) :
    p.capture line = some (p.run (p.written line)) := by
  have hgroup : p.group (p.written line) = some (p.run (p.written line)) := by
    rw [hwritten, group, sep_head_written hwritten]
    simp [hx]
  rw [capture_of_names h, group_append sep_of_mem_tail hgroup]

/-- Without one, the last separator that can be a value is. -/
theorem capture_of_written_nil {line : List α} (h : p.Names line) (hwritten : p.written line = [])
    (hcls : ∃ x ∈ (p.separators line).tail, p.cls x = true) :
    ∃ x, p.sep x = true ∧ p.capture line = some [x] := by
  obtain ⟨x, hx, hgroup⟩ := group_of_seps (p := p) sep_of_mem_tail hcls
  exact ⟨x, sep_of_mem_tail x hx, by rw [capture_of_names h, hwritten, List.append_nil, hgroup]⟩

theorem capture_eq_none_of_written {line : List α} (h : p.Names line)
    (hcls : ∀ x ∈ (p.separators line).tail, p.cls x = false)
    (hwritten : ∀ x, (p.written line).head? = some x → p.cls x = false) : p.capture line = none := by
  rw [capture_of_names h]
  apply group_append_eq_none hcls
  cases hrest : p.written line with
  | nil => rfl
  | cons x rest =>
    rw [group, sep_head_written hrest, hwritten x (by rw [hrest]; rfl)]
    rfl

end KeywordPattern
