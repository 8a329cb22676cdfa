import Sacagawea.Config.Lines
import Sacagawea.Server.Written

/-!
# Regular expressions on Windows

On Windows `do_regex` uses PCRE2, and copies the group to an array of 256 bytes. The library copies
nothing when the group and its NUL do not fit, and the error it reports is not looked at, so a home
directory of 256 bytes or more counts as no match.
-/

namespace Sacagawea

/-- The calls of PCRE2: group 1 of a match, and the array a group has been copied to. -/
structure Pcre2 where
  pcre2Match : KeywordPattern Byte → CStr → Option (List Byte)
  substringCopyBynumber : (group : List Byte) → (buflen : Nat) → (r : List Byte) → List Byte

/-- What the library does with the expressions of config.c. -/
structure Pcre2.Documented (lib : Pcre2) : Prop where
  captures : ∀ pattern ∈ confPatterns, ∀ str : CStr,
    lib.pcre2Match pattern str = pattern.capture str.chars
  copies : ∀ group buflen r, group.length + 1 ≤ buflen →
    lib.substringCopyBynumber group buflen r = group ++ NUL :: r.drop (group.length + 1)
  refuses : ∀ group buflen r, buflen < group.length + 1 → lib.substringCopyBynumber group buflen r = r

/-- `do_regex`, with PCRE2. -/
def doRegexWin32 (lib : Pcre2) (pattern : KeywordPattern Byte) (str : CStr) : CStr :=
  let buflen := 256
  let r := List.replicate buflen NUL
  match lib.pcre2Match pattern str with
  | none => CStr.ofBuffer r
  | some group => CStr.ofBuffer (lib.substringCopyBynumber group buflen r)

section

variable {lib : Pcre2} {pattern : KeywordPattern Byte}

/-- The two agree when the group fits. -/
theorem doRegexWin32_eq_iff_strlen (h : lib.Documented) (hpattern : pattern ∈ confPatterns) (str : CStr) :
    doRegexWin32 lib pattern str = doRegex pattern str ↔ (doRegex pattern str).strlen ≤ 255 := by
  have hempty : (CStr.ofBuffer (List.replicate 256 NUL)).chars = [] := by decide
  rw [doRegexWin32, h.captures pattern hpattern]
  cases hcapture : pattern.capture str.chars with
  | none =>
    have hnil : (doRegex pattern str).chars = [] := by
      rw [chars_doRegex, hcapture]
      rfl
    refine iff_of_true (CStr.ext (hempty.trans hnil.symm)) ?_
    rw [CStr.strlen, hnil]
    exact Nat.zero_le _
  | some group =>
    have hgroup : (doRegex pattern str).chars = group := by
      rw [chars_doRegex, hcapture]
      rfl
    rw [CStr.strlen, hgroup]
    by_cases hfits : group.length + 1 ≤ 256
    · refine iff_of_true (CStr.ext ?_) (Nat.le_of_succ_le_succ hfits)
      change (CStr.ofBuffer (lib.substringCopyBynumber group 256 _)).chars = _
      rw [h.copies group _ _ hfits, ← hgroup, CStr.ofBuffer_terminated]
    · refine iff_of_false (fun hsame => ?_) fun hle => hfits (Nat.succ_le_succ hle)
      have hchars : (CStr.ofBuffer (lib.substringCopyBynumber group 256 (List.replicate 256 NUL))).chars =
          group := (congrArg CStr.chars hsame).trans hgroup
      rw [h.refuses group _ _ (Nat.lt_of_not_le hfits), hempty] at hchars
      rw [← hchars] at hfits
      exact hfits (by decide)

/-- The home directory is the one that does not always fit. -/
theorem strlen_doRegex_le_iff (hpattern : pattern ∈ confPatterns) (str : CStr) :
    (doRegex pattern str).strlen ≤ 255 ↔
      (pattern = homedirPattern → homedirPattern.Names str.chars →
        (valueOf homedirPattern str).length ≤ 255) := by
  by_cases hhome : pattern = homedirPattern
  · subst hhome
    rw [imp_iff_right rfl]
    by_cases hnames : homedirPattern.Names str.chars
    · rw [imp_iff_right hnames, CStr.strlen]
      by_cases hvalue : valueOf homedirPattern str = []
      · have hle : (doRegex homedirPattern str).chars.length ≤ 255 := by
          rcases doRegex_of_no_value rfl rfl hnames hvalue with ⟨-, hnil⟩ | ⟨-, c, -, hone⟩
          · rw [hnil]
            exact Nat.zero_le _
          · rw [hone]
            exact Nat.succ_le_succ (Nat.zero_le _)
        rw [hvalue]
        exact iff_of_true hle (Nat.zero_le _)
      · rw [doRegex_of_value rfl rfl hnames hvalue, List.length_take]
        exact min_le_iff.trans (or_iff_right (by decide))
    · rw [CStr.strlen, doRegex_of_not_names hnames]
      exact iff_of_true (Nat.zero_le _) fun h => absurd h hnames
  · have hmax : pattern.max ≤ 255 := by
      rw [confPatterns, List.mem_cons, List.mem_cons, List.mem_cons, List.mem_singleton] at hpattern
      rcases hpattern with rfl | rfl | rfl | rfl
      · decide
      · exact absurd rfl hhome
      · decide
      · decide
    exact iff_of_true ((strlen_doRegex_le pattern str).trans hmax) fun h => absurd h hhome

/-- The two back ends return the same string exactly when the expression is not the one of the home
directory, or no directory of more than 255 bytes is written in the line. -/
theorem doRegexWin32_eq_iff (h : lib.Documented) (hpattern : pattern ∈ confPatterns) (str : CStr) :
    doRegexWin32 lib pattern str = doRegex pattern str ↔
      (pattern = homedirPattern → homedirPattern.Names str.chars →
        (valueOf homedirPattern str).length ≤ 255) :=
  (doRegexWin32_eq_iff_strlen h hpattern str).trans (strlen_doRegex_le_iff hpattern str)

end

/-- A library that does what is documented. -/
def pcre2 : Pcre2 where
  pcre2Match pattern str := pattern.capture str.chars
  substringCopyBynumber group buflen r :=
    if buflen < group.length + 1 then r else group ++ NUL :: r.drop (group.length + 1)

theorem pcre2_documented : pcre2.Documented where
  captures _ _ _ := rfl
  copies _ _ _ h := if_neg (Nat.not_lt_of_le h)
  refuses _ _ _ h := if_pos h

/-- A home directory of 258 bytes is found on Linux, and not on Windows. -/
theorem home_lost_on_windows :
    newHomeLine.strlen ≤ 511 ∧ doRegex homedirPattern newHomeLine = newHome ∧
      (doRegexWin32 pcre2 homedirPattern newHomeLine).chars = [] ∧
      doRegexWin32 pcre2 homedirPattern newHomeLine ≠ doRegex homedirPattern newHomeLine := by
  decide +kernel

theorem doRegexWin32_eq_srv :
    doRegexWin32 pcre2 homedirPattern (CStr.lit "home-directory /srv") =
      doRegex homedirPattern (CStr.lit "home-directory /srv") :=
  (doRegexWin32_eq_iff pcre2_documented (by simp [confPatterns]) _).mpr fun _ _ => by decide

end Sacagawea
