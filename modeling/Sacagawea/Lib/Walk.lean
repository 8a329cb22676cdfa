import Mathlib.Data.List.Basic
import Mathlib.Data.List.Infix

/-!
# Walking a path through a tree of directories

A directory is the list of names that leads to it from the root, and a path is resolved one
component at a time: the empty component and `here` stay, `up` goes to the parent, and the parent of
the root is the root. Links are left out, so a walk needs no file system.

A walk stays inside a directory when every directory on the way is that one or below it. The
components that can leave it are the `up`s, and `stays_append_singleton_iff` says exactly when a
single one at the end does.
-/

namespace Walk

variable {α : Type*}

/-- A directory, as the names from the root down to it. -/
abbrev Dir (α : Type*) := List (List α)

variable [DecidableEq α] (here up : List α)

def enter (dir : Dir α) (component : List α) : Dir α :=
  if component = [] ∨ component = here then dir
  else if component = up then dir.dropLast
  else dir ++ [component]

def walk (dir : Dir α) (components : List (List α)) : Dir α := components.foldl (enter here up) dir

/-- Every directory of the walk is `base` or below it. -/
def Stays (base : Dir α) (components : List (List α)) : Prop :=
  ∀ n, base <+: walk here up base (components.take n)

/-- The components that name an entry of the directory they are looked up in. -/
def names (components : List (List α)) : List (List α) :=
  components.filter fun component => component ≠ [] ∧ component ≠ here

variable {here up}

theorem walk_append (dir : Dir α) (front back : List (List α)) :
    walk here up dir (front ++ back) = walk here up (walk here up dir front) back :=
  List.foldl_append

theorem walk_of_not_mem {components : List (List α)} (hup : up ∉ components) (dir : Dir α) :
    walk here up dir components = dir ++ names here components := by
  induction components generalizing dir with
  | nil => simp [walk, names]
  | cons component rest ih =>
    have hne : component ≠ up := fun h => hup (h ▸ List.mem_cons_self)
    have hrest : up ∉ rest := fun h => hup (List.mem_cons_of_mem _ h)
    change walk here up (enter here up dir component) rest = _
    rw [ih hrest, names, names, List.filter_cons]
    by_cases hstay : component = [] ∨ component = here
    · rw [enter, if_pos hstay, if_neg (by simpa [or_iff_not_imp_left] using hstay)]
    · rw [enter, if_neg hstay, if_neg hne, if_pos (by simpa using hstay), List.append_assoc,
        List.singleton_append]

theorem stays_of_not_mem {components : List (List α)} (hup : up ∉ components) (base : Dir α) :
    Stays here up base components := by
  intro n
  rw [walk_of_not_mem fun h => hup (List.mem_of_mem_take h)]
  exact List.prefix_append _ _

/-- Going up once, at the end, leaves the directory exactly when nothing before it descended and
there is a directory above. -/
theorem stays_append_singleton_iff {front : List (List α)} (hup : up ∉ front) (hempty : up ≠ [])
    (hhere : up ≠ here) (base : Dir α) :
    Stays here up base (front ++ [up]) ↔ base = [] ∨ names here front ≠ [] := by
  have hend : walk here up base (front ++ [up]) = (base ++ names here front).dropLast := by
    rw [walk_append, walk_of_not_mem hup]
    simp [walk, enter, hempty, hhere]
  constructor
  · intro hstays
    have hlast := hstays (front.length + 1)
    rw [List.take_of_length_le (by simp), hend] at hlast
    by_contra hno
    push Not at hno
    rw [hno.2, List.append_nil] at hlast
    have hlength := hlast.length_le
    have hpos := List.length_pos_iff.mpr hno.1
    rw [List.length_dropLast] at hlength
    omega
  · intro h n
    by_cases hn : n ≤ front.length
    · rw [List.take_append_of_le_length hn]
      exact (stays_of_not_mem hup base) n
    · rw [List.take_of_length_le (by simp; omega), hend]
      rcases h with rfl | h
      · exact List.nil_prefix
      · rw [List.dropLast_append_of_ne_nil h]
        exact List.prefix_append _ _

end Walk
