import Mathlib.Data.List.Infix
import Mathlib.Data.List.MinMax

/-!
# Tables of prefixes

A table lists keys with their values, and an entry matches a text when its key is a prefix of the
text. A chain of tests takes the first entry that matches. The most specific one is that with the
longest key.

Two keys that match one text are prefixes of each other, so the two choices differ only where a key
stands behind a prefix of itself that has another value.
-/

namespace PrefixTable

variable {α β : Type*}

/-- Two keys match one text only if one of them is a prefix of the other. -/
theorem not_prefix_of_incomparable {text key other : List α} (hkey : key <+: text)
    (hother : ¬ other <+: key ∧ ¬ key <+: other) : ¬ other <+: text := by
  intro h
  rcases List.prefix_or_prefix_of_prefix h hkey with hshort | hlong
  · exact hother.1 hshort
  · exact hother.2 hlong

variable [DecidableEq α]

/-- The entries that match, in the order of the table. -/
def hits (table : List (List α × β)) (text : List α) : List (List α × β) :=
  table.filter fun entry => entry.1.isPrefixOf text

/-- The value of the first entry that matches. -/
def first (table : List (List α × β)) (text : List α) : Option β :=
  (hits table text).head?.map Prod.snd

def keyLength (entry : List α × β) : Nat := entry.1.length

/-- The value of the entry with the longest key that matches. -/
def longest (table : List (List α × β)) (text : List α) : Option β :=
  ((hits table text).argmax keyLength).map Prod.snd

/-- No key that matches the text stands behind a prefix of it with another value. -/
def Unshadowed (table : List (List α × β)) (text : List α) : Prop :=
  table.Pairwise fun earlier later =>
    earlier.1 <+: later.1 → later.1 <+: text → earlier.2 = later.2

variable {table : List (List α × β)} {text : List α} {entry : List α × β}

theorem mem_hits_iff : entry ∈ hits table text ↔ entry ∈ table ∧ entry.1 <+: text := by
  rw [hits, List.mem_filter, List.isPrefixOf_iff_prefix]

@[simp] theorem first_nil : first ([] : List (List α × β)) text = none := by
  rfl

theorem getD_first_cons (key : List α) (value default : β) :
    (first ((key, value) :: table) text).getD default =
      if key.isPrefixOf text then value else (first table text).getD default := by
  rw [first, hits, List.filter_cons]
  split_ifs with hkey
  · rfl
  · rfl

/-- Where nothing is shadowed, the first match is the most specific one. -/
theorem first_eq_longest (h : Unshadowed table text) : first table text = longest table text := by
  have hpairs : (hits table text).Pairwise fun earlier later =>
      earlier.1 <+: later.1 → later.1 <+: text → earlier.2 = later.2 := h.filter _
  rw [first, longest]
  cases hhits : hits table text with
  | nil => rfl
  | cons front rest =>
    rw [hhits, List.pairwise_cons] at hpairs
    obtain ⟨best, hbest⟩ : ∃ best, (front :: rest).argmax keyLength = some best :=
      Option.ne_none_iff_exists'.mp fun hnone => List.cons_ne_nil _ _ (List.argmax_eq_none.mp hnone)
    have hmatch : ∀ entry ∈ front :: rest, entry.1 <+: text := by
      intro entry hentry
      rw [← hhits] at hentry
      exact (mem_hits_iff.mp hentry).2
    have hmem : best ∈ front :: rest := List.argmax_mem hbest
    have hle : keyLength front ≤ keyLength best := List.le_of_mem_argmax List.mem_cons_self hbest
    have hkeys : front.1 <+: best.1 :=
      List.prefix_of_prefix_length_le (hmatch front List.mem_cons_self) (hmatch best hmem) hle
    rw [hbest, List.head?_cons, Option.map_some, Option.map_some, Option.some.injEq]
    rcases List.mem_cons.mp hmem with rfl | hrest
    · rfl
    · exact hpairs.1 best hrest hkeys (hmatch best hmem)

/-- An entry that matches is the most specific one when no entry extends its key to another value. -/
theorem longest_eq_some (hmem : entry ∈ table) (hmatch : entry.1 <+: text)
    (hmax : ∀ other ∈ table, entry.1 <+: other.1 → other.2 = entry.2) :
    longest table text = some entry.2 := by
  have hhit : entry ∈ hits table text := mem_hits_iff.mpr ⟨hmem, hmatch⟩
  obtain ⟨best, hbest⟩ : ∃ best, (hits table text).argmax keyLength = some best :=
    Option.ne_none_iff_exists'.mp fun hnone => List.ne_nil_of_mem hhit (List.argmax_eq_none.mp hnone)
  obtain ⟨hbestMem, hbestMatch⟩ := mem_hits_iff.mp (List.argmax_mem hbest)
  have hle : keyLength entry ≤ keyLength best := List.le_of_mem_argmax hhit hbest
  rw [longest, hbest, Option.map_some,
    hmax best hbestMem (List.prefix_of_prefix_length_le hmatch hbestMatch hle)]

/-- The first match, when the entries in front of it have nothing in common with its text. -/
theorem first_eq_some {front back : List (List α × β)} (hmatch : entry.1 <+: text)
    (hfront : ∀ other ∈ front, ¬ other.1 <+: text) :
    first (front ++ entry :: back) text = some entry.2 := by
  have hnone : hits front text = [] := by
    apply List.filter_eq_nil_iff.mpr
    intro other hother
    rw [List.isPrefixOf_iff_prefix]
    exact hfront other hother
  rw [first, hits, List.filter_append, ← hits, hnone, List.nil_append,
    List.filter_cons, if_pos (List.isPrefixOf_iff_prefix.mpr hmatch)]
  rfl

end PrefixTable
