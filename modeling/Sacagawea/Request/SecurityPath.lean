import Sacagawea.Base.Settings
import Sacagawea.Lib.Split
import Sacagawea.Lib.Walk
import Sacagawea.Request.ReadRequest

/-!
# The traversal filter

The path the server opens is `homedir` with the client's selector behind it. `check_security_path`
refuses it when it contains `../` or `..\`. What the filter is for is a statement about components:
resolving the selector from the served directory must never leave it. The two agree except for a
`..` that ends the selector, which no slash follows.
-/

namespace Sacagawea

/-! ### The code -/

def strstr (s : CStr) (needle : List Byte) : Bool := decide (needle <:+: s.chars)

def checkSecurityPath (path : CStr) : Bool := strstr path (bytes "../") || strstr path (bytes "..\\")

/-- `c->path_file`, once `homedir` and the input have been copied into it. -/
def pathFile (homedir input : CStr) : CStr := homedir ++ input

/-! ### What the filter is for -/

def dotDot : List Byte := [dot, dot]

def components (path : CStr) : List (List Byte) := path.chars.splitOn slash

/-- The directory `homedir` names, for a server that was started in `cwd`. -/
def servedDir (cwd : Walk.Dir Byte) (homedir : CStr) : Walk.Dir Byte :=
  Walk.walk [dot] dotDot (if homedir.chars.head? = some slash then [] else cwd) (components homedir)

/-- Resolving the selector from the served directory stays in it. -/
def StaysInside (cwd : Walk.Dir Byte) (homedir sel : CStr) : Prop :=
  Walk.Stays [dot] dotDot (servedDir cwd homedir) (components sel)

/-- The last component is `..` and those before it stay where they are. -/
def Climbs (sel : CStr) : Prop :=
  (components sel).getLast? = some dotDot ∧ ∀ c ∈ (components sel).dropLast, c = [] ∨ c = [dot]

instance (sel : CStr) : Decidable (Climbs sel) := inferInstanceAs (Decidable (_ ∧ _))

/-! ### The filter and the components -/

theorem checkSecurityPath_eq_false {path : CStr} : checkSecurityPath path = false ↔
    ¬ bytes "../" <:+: path.chars ∧ ¬ bytes "..\\" <:+: path.chars := by
  simp [checkSecurityPath, strstr]

theorem checkSecurityPath_append {front back : CStr} (hslash : front.chars.getLast? = some slash) :
    checkSecurityPath (front ++ back) = (checkSecurityPath front || checkSecurityPath back) := by
  rw [Bool.eq_iff_iff]
  simp only [checkSecurityPath, strstr, CStr.chars_append, Bool.or_eq_true, decide_eq_true_eq,
    Split.infix_append_iff_of_getLast hslash (w := bytes "../") (by decide),
    Split.infix_append_iff_of_getLast hslash (w := bytes "..\\") (by decide)]
  tauto

/-- Only the last component of a selector the filter passes can be `..`. -/
theorem dotDot_not_mem_dropLast {sel : CStr} (h : checkSecurityPath sel = false) :
    dotDot ∉ (components sel).dropLast := by
  intro hmem
  exact (checkSecurityPath_eq_false.mp h).1 (Split.append_infix_of_mem_dropLast_splitOn hmem)

/-- Staying components in front of a final `..` put nothing in the string that the filter looks for.
-/
theorem climbing_passes {front : List (List Byte)} (hstay : ∀ c ∈ front, c = [] ∨ c = [dot]) :
    ¬ bytes "../" <:+: [slash].intercalate (front ++ [dotDot]) ∧
      backslash ∉ [slash].intercalate (front ++ [dotDot]) := by
  induction front with
  | nil => exact ⟨by decide, by decide⟩
  | cons c front ih =>
    obtain ⟨hup, hback⟩ := ih fun d hd => hstay d (List.mem_cons_of_mem _ hd)
    have hstart : ∀ {a : Byte} {s}, bytes "../" <+: a :: s → dot = a ∧ [dot, slash] <+: s :=
      fun h => List.cons_prefix_cons.mp h
    rw [List.cons_append, List.intercalate_cons_of_ne_nil (by simp)]
    have hslash : ¬ bytes "../" <:+: slash :: [slash].intercalate (front ++ [dotDot]) := by
      rw [List.infix_cons_iff, not_or]
      exact ⟨fun h => absurd (hstart h).1 (by decide), hup⟩
    rcases hstay c List.mem_cons_self with rfl | rfl
    · exact ⟨hslash, by simpa [slash, backslash] using hback⟩
    · refine ⟨?_, by simpa [slash, backslash, dot] using hback⟩
      change ¬ bytes "../" <:+: dot :: slash :: [slash].intercalate (front ++ [dotDot])
      rw [List.infix_cons_iff, not_or]
      exact ⟨fun h => absurd (List.cons_prefix_cons.mp (hstart h).2).1 (by decide), hslash⟩

theorem Climbs.checkSecurityPath {sel : CStr} (h : Climbs sel) : checkSecurityPath sel = false := by
  have hsel : sel.chars = [slash].intercalate ((components sel).dropLast ++ [dotDot]) := by
    rw [List.dropLast_append_getLast? dotDot h.1, components, List.intercalate_splitOn]
  obtain ⟨hup, hback⟩ := climbing_passes h.2
  rw [← hsel] at hup hback
  refine checkSecurityPath_eq_false.mpr ⟨hup, fun hinfix => hback ?_⟩
  exact hinfix.subset (by decide)

/-! ### Containment -/

/-- A selector the filter passes stays inside unless it climbs and there is a directory above. -/
theorem staysInside_iff (cwd : Walk.Dir Byte) (homedir : CStr) {sel : CStr}
    (h : checkSecurityPath sel = false) :
    StaysInside cwd homedir sel ↔ servedDir cwd homedir = [] ∨ ¬ Climbs sel := by
  have hup := dotDot_not_mem_dropLast h
  have hne : components sel ≠ [] := List.splitOn_ne_nil _ _
  rw [StaysInside, ← List.dropLast_append_getLast hne]
  by_cases hlast : (components sel).getLast hne = dotDot
  · rw [hlast, Walk.stays_append_singleton_iff hup (by decide) (by decide)]
    have hclimbs : Climbs sel ↔ Walk.names [dot] (components sel).dropLast = [] := by
      simp only [Climbs, Walk.names, List.filter_eq_nil_iff, List.getLast?_eq_some_getLast hne, hlast,
        true_and, decide_eq_true_eq, not_and_or, not_not]
    rw [hclimbs]
  · have hnot : dotDot ∉ (components sel).dropLast ++ [(components sel).getLast hne] := by
      simpa [hup] using Ne.symm hlast
    refine iff_of_true (Walk.stays_of_not_mem hnot _) (.inr fun hclimbs => hlast ?_)
    exact Option.some.inj ((List.getLast?_eq_some_getLast hne).symm.trans hclimbs.1)

/-- What the filter lets through stays in the served directory exactly when the selector does not
climb out by a final `..`, the directory has one above it, and `homedir` itself passes. -/
theorem checkSecurityPath_contains_iff (cwd : Walk.Dir Byte) {homedir : CStr} (sel : CStr)
    (hslash : homedir.chars.getLast? = some slash) :
    (checkSecurityPath (pathFile homedir sel) = false → StaysInside cwd homedir sel) ↔
      (bytes "../" <:+: homedir.chars ∨ bytes "..\\" <:+: homedir.chars) ∨
        servedDir cwd homedir = [] ∨ ¬ Climbs sel := by
  rw [pathFile, checkSecurityPath_append hslash, Bool.or_eq_false_iff]
  by_cases hhome : checkSecurityPath homedir = false
  · have hpass := checkSecurityPath_eq_false.mp hhome
    constructor
    · intro h
      by_cases hclimbs : Climbs sel
      · exact .inr ((staysInside_iff cwd homedir hclimbs.checkSecurityPath).mp
          (h ⟨hhome, hclimbs.checkSecurityPath⟩))
      · exact .inr (.inr hclimbs)
    · rintro (h | h) ⟨-, hsel⟩
      · exact absurd h (not_or.mpr hpass)
      · exact (staysInside_iff cwd homedir hsel).mpr h
  · refine iff_of_true (fun h => absurd h.1 hhome) (.inl ?_)
    by_contra hno
    exact hhome (checkSecurityPath_eq_false.mpr (not_or.mp hno))

/-- The selector `..` is read, passes the filter behind `/srv/`, and resolves to the root. -/
theorem dotDot_escapes :
    readRequest (List.replicate 4091 NUL) 4091 [.data dot [dot, CR, LF]] =
        some (3, bytes ".." ++ [NUL]) ∧
      checkSecurityPath (pathFile (CStr.lit "/srv/") (CStr.ofBuffer (bytes ".." ++ [NUL]))) = false ∧
      ¬ StaysInside [] (CStr.lit "/srv/") (CStr.ofBuffer (bytes ".." ++ [NUL])) := by
  refine ⟨by decide, by decide, fun h => ?_⟩
  have hroot := h 1
  revert hroot
  decide

/-- A selector that goes down before it goes up stays inside. -/
theorem checkSecurityPath_contains_iff_down_up :
    StaysInside [] (CStr.lit "/srv/") (CStr.lit "docs/..") :=
  (checkSecurityPath_contains_iff [] (CStr.lit "docs/..") (by decide)).mpr (by decide) (by decide)

end Sacagawea
