import Sacagawea.Request.SecurityPath
import Sacagawea.Server.Homedir

/-!
# The array of the home directory

`main` puts the working directory into the array, and each `home-directory` line of the configuration
writes over the first 259 bytes of it. A string that ends behind these is an old one, so it ends in the
slash that was put there. With that the array can be followed from one line to the next: the slash is
always the last byte of the string, and the two NULs at the end of the array stay.
-/

namespace Sacagawea

/-! ### Strings by their cells -/

section

variable {n : Nat} {a b : CharArray n} {i k : Nat} {c : Byte}

/-- The cell with the NUL of the string. -/
def CharArray.FirstNul (a : CharArray n) (k : Nat) : Prop :=
  a.cells[k]? = some NUL ∧ ∀ i < k, a.cells[i]? ≠ some NUL

theorem CharArray.FirstNul.split (h : a.FirstNul k) :
    ∃ s rest, a.cells = s ++ NUL :: rest ∧ NUL ∉ s ∧ s.length = k := by
  obtain ⟨hk, hnul⟩ := List.getElem?_eq_some_iff.mp h.1
  refine ⟨a.cells.take k, a.cells.drop (k + 1), ?_, fun hmem => ?_, List.length_take_of_le hk.le⟩
  · rw [← hnul, ← List.drop_eq_getElem_cons, List.take_append_drop]
  · obtain ⟨j, hj⟩ := List.getElem?_of_mem hmem
    rw [List.getElem?_take] at hj
    split_ifs at hj with hlt
    exact h.2 j hlt hj

theorem CharArray.FirstNul.strlen (h : a.FirstNul k) : a.strlen = .ok k := by
  obtain ⟨s, rest, hcells, hs, rfl⟩ := h.split
  exact strlen_of_cells hcells hs

/-- The last byte of a string that is not empty. -/
theorem CharArray.FirstNul.getLast? (h : a.FirstNul (k + 1)) : a.str.chars.getLast? = (a.cells)[k]? := by
  obtain ⟨s, rest, hcells, hs, hlength⟩ := h.split
  rw [str_of_cells hcells hs, List.getLast?_eq_getElem?, hlength, Nat.add_one_sub_one, hcells,
    List.getElem?_append_left (by omega)]

theorem exists_firstNul (h : a.cells[i]? = some NUL) : ∃ k ≤ i, a.FirstNul k := by
  classical
  have hex : ∃ k, a.cells[k]? = some NUL := ⟨i, h⟩
  exact ⟨Nat.find hex, Nat.find_min' hex h, Nat.find_spec hex, fun _ hj => Nat.find_min hex hj⟩

/-- What is written behind the NUL is no part of the string. -/
theorem CharArray.FirstNul.set_behind (h : a.FirstNul k) (hi : k < i) (hcells : b.cells = a.cells.set i c) :
    b.FirstNul k := by
  have hsame : ∀ j ≤ k, b.cells[j]? = a.cells[j]? := fun j hj => by
    rw [hcells, List.getElem?_set_ne (by omega)]
  exact ⟨(hsame k le_rfl).trans h.1, fun j hj => hsame j hj.le ▸ h.2 j hj⟩

theorem put_cells (hi : i < n) (c : Byte) : ∃ b, a.put i c = .ok b ∧ b.cells = a.cells.set i c :=
  ⟨_, if_pos hi, rfl⟩

end

/-! ### What stays in the array -/

/-- Behind the bound of `strncpy` a string ends in a slash, and the last two cells are NULs. -/
structure KeptTail (a : CharArray pathMax) : Prop where
  slash : ∀ i, 259 ≤ i → a.cells[i + 1]? = some NUL → a.cells[i]? = some NUL ∨ a.cells[i]? = some slash
  room : a.cells[4094]? = some NUL ∧ a.cells[4095]? = some NUL

/-- So is the string that is there. -/
structure KeptHomedir (a : CharArray pathMax) : Prop extends KeptTail a where
  ends : a.str.chars.getLast? = some Sacagawea.slash

/-- Another byte in front of the bound changes nothing behind it. -/
theorem KeptTail.congr {a b : CharArray pathMax} (h : KeptTail a)
    (hcells : ∀ i, 259 ≤ i → b.cells[i]? = a.cells[i]?) : KeptTail b := by
  refine ⟨fun i hi hnul => ?_, ?_, ?_⟩
  · rw [hcells i hi]
    rw [hcells (i + 1) (by omega)] at hnul
    exact h.slash i hi hnul
  · rw [hcells 4094 (by decide)]
    exact h.room.1
  · rw [hcells 4095 (by decide)]
    exact h.room.2

/-- A slash can be put in front of the two NULs. -/
theorem KeptTail.put_slash {a b : CharArray pathMax} (h : KeptTail a) {k : Nat} (hk : k < 4094)
    (hcells : b.cells = a.cells.set k Sacagawea.slash) : KeptTail b := by
  have hput : b.cells[k]? = some Sacagawea.slash := by
    rw [hcells, List.getElem?_set_self (by rw [a.size]; exact hk.trans (by decide))]
  have hsame : ∀ i, k ≠ i → b.cells[i]? = a.cells[i]? := fun i hi => by
    rw [hcells, List.getElem?_set_ne hi]
  refine ⟨fun i hi hnul => ?_, ?_, ?_⟩
  · by_cases hki : k = i
    · exact .inr (hki ▸ hput)
    · have hnext : k ≠ i + 1 := by
        rintro rfl
        rw [hput] at hnul
        exact absurd hnul (by decide)
      rw [hsame i hki]
      rw [hsame (i + 1) hnext] at hnul
      exact h.slash i hi hnul
  · rw [hsame 4094 (by omega)]
    exact h.room.1
  · rw [hsame 4095 (by omega)]
    exact h.room.2

/-- A NUL can be put behind another. -/
theorem KeptTail.put_nul {a b : CharArray pathMax} (h : KeptTail a) {k : Nat}
    (hk : a.cells[k]? = some NUL) (hroom : k + 1 < pathMax)
    (hcells : b.cells = a.cells.set (k + 1) NUL) : KeptTail b := by
  have hput : b.cells[k + 1]? = some NUL := by
    rw [hcells, List.getElem?_set_self (by rw [a.size]; exact hroom)]
  have hsame : ∀ i, k + 1 ≠ i → b.cells[i]? = a.cells[i]? := fun i hi => by
    rw [hcells, List.getElem?_set_ne hi]
  have hstays : ∀ i : Nat, a.cells[i]? = some NUL → b.cells[i]? = some NUL := by
    intro i hi
    by_cases hki : k + 1 = i
    · rw [← hki, hput]
    · rw [hsame i hki, hi]
  refine ⟨fun i hi hnul => ?_, hstays 4094 h.room.1, hstays 4095 h.room.2⟩
  by_cases hki : k = i
  · subst hki
    exact .inl (hstays k hk)
  · rw [hsame (i + 1) (by omega)] at hnul
    rcases h.slash i hi hnul with hi | hi
    · exact .inl (hstays i hi)
    · by_cases hnext : k + 1 = i
      · subst hnext
        exact .inl hput
      · exact .inr ((hsame i hnext).trans hi)

/-- A directory that has been copied, with NULs up to the bound, is closed. -/
theorem closeHomedir_kept {a : CharArray pathMax} {k : Nat} (htail : KeptTail a)
    (hfirst : a.FirstNul (k + 1)) (hpad : ∀ i, k + 1 ≤ i → i < 259 → a.cells[i]? = some NUL) :
    ∃ b, closeHomedir a = .ok b ∧ KeptHomedir b := by
  by_cases hslash : a.cells[k]? = some slash
  · refine ⟨a, ?_, htail, hfirst.getLast?.trans hslash⟩
    rw [closeHomedir, hfirst.strlen, ok_bind, if_neg (Nat.succ_ne_zero k), Nat.add_one_sub_one,
      if_pos hslash]
  · -- an old string would end in a slash
    have hshort : k < 259 := by
      by_contra hold
      rcases htail.slash k (Nat.le_of_not_lt hold) hfirst.1 with hnul | h
      · exact hfirst.2 k (Nat.lt_succ_self k) hnul
      · exact hslash h
    obtain ⟨b₁, hput₁, hcells₁⟩ := put_cells (a := a) (show k + 1 < pathMax by rw [pathMax]; omega) slash
    have htail₁ : KeptTail b₁ := htail.put_slash (by omega) hcells₁
    have hat : b₁.cells[k + 1]? = some slash := by
      rw [hcells₁, List.getElem?_set_self (by rw [a.size, pathMax]; omega)]
    have hsame : ∀ i, k + 1 ≠ i → b₁.cells[i]? = a.cells[i]? := fun i hi => by
      rw [hcells₁, List.getElem?_set_ne hi]
    obtain ⟨k', hle, hfirst₁⟩ := exists_firstNul htail₁.room.1
    have hbehind : k + 1 < k' := by
      by_contra hno
      have hnul := hfirst₁.1
      rcases Nat.lt_or_eq_of_le (Nat.le_of_not_lt hno) with hlt | rfl
      · rw [hsame k' (by omega)] at hnul
        exact hfirst.2 k' hlt hnul
      · rw [hat] at hnul
        exact absurd hnul (by decide)
    obtain ⟨j, rfl⟩ : ∃ j, k' = j + 1 := ⟨k' - 1, by omega⟩
    have hends : b₁.cells[j]? = some slash := by
      by_cases hj : k + 1 = j
      · exact hj ▸ hat
      · have hno := hfirst₁.2 j (Nat.lt_succ_self j)
        have hbound : 259 ≤ j := by
          by_contra hlt
          rw [hsame j hj] at hno
          exact hno (hpad j (by omega) (by omega))
        exact (htail₁.slash j hbound hfirst₁.1).resolve_left hno
    have hroom : j + 1 + 1 < pathMax := by
      rw [pathMax]
      omega
    obtain ⟨b₂, hput₂, hcells₂⟩ := put_cells (a := b₁) hroom NUL
    have hfirst₂ : b₂.FirstNul (j + 1) := hfirst₁.set_behind (Nat.lt_succ_self _) hcells₂
    refine ⟨b₂, ?_, htail₁.put_nul hfirst₁.1 hroom hcells₂, ?_⟩
    · rw [closeHomedir, hfirst.strlen, ok_bind, if_neg (Nat.succ_ne_zero k), Nat.add_one_sub_one,
        if_neg hslash, hput₁, ok_bind, hfirst₁.strlen, ok_bind, hput₂]
    · rw [hfirst₂.getLast?, hcells₂, List.getElem?_set_ne (by omega), hends]

/-! ### The two writers -/

/-- A name with a slash behind it, and NULs to the end of the array, two of them at least. -/
theorem kept_of_cells {a : CharArray pathMax} {s : List Byte} {m : Nat} (hs : NUL ∉ s)
    (hcells : a.cells = s ++ slash :: List.replicate (m + 2) NUL) : KeptHomedir a := by
  have hlength : s.length + (m + 3) = 4096 := by
    have hsize := a.size
    rw [hcells, List.length_append, List.length_cons, List.length_replicate] at hsize
    exact hsize
  have hnul : ∀ i, s.length < i → i < 4096 → a.cells[i]? = some NUL := by
    intro i hi hlt
    obtain ⟨j, rfl⟩ : ∃ j, i = s.length + (j + 1) := ⟨i - s.length - 1, by omega⟩
    rw [hcells, List.getElem?_append_right (Nat.le_add_right _ _), Nat.add_sub_cancel_left,
      List.getElem?_cons_succ, List.getElem?_replicate, if_pos (by omega)]
  have hslash : a.cells[s.length]? = some slash := by
    rw [hcells, List.getElem?_append_right le_rfl, Nat.sub_self]
    rfl
  refine ⟨⟨fun i _ hi => ?_, hnul 4094 (by omega) (by decide), hnul 4095 (by omega) (by decide)⟩, ?_⟩
  · have hroom : i + 1 < 4096 := (List.getElem?_eq_some_iff.mp hi).1.trans_eq a.size
    rcases Nat.lt_trichotomy i s.length with hlt | rfl | hgt
    · rcases Nat.lt_or_eq_of_le (Nat.succ_le_of_lt hlt) with hlt | heq
      · rw [hcells, List.getElem?_append_left hlt] at hi
        exact absurd (List.mem_of_getElem? hi) hs
      · rw [show i + 1 = s.length from heq, hslash] at hi
        exact absurd hi (by decide)
    · exact .inr hslash
    · exact .inl (hnul i hgt (by omega))
  · have hstr : a.cells = s ++ [slash] ++ NUL :: List.replicate (m + 1) NUL := by
      rw [hcells, List.append_assoc]
      rfl
    have hno : NUL ∉ s ++ [slash] := by
      rw [List.mem_append, List.mem_singleton, not_or]
      exact ⟨hs, by decide⟩
    rw [str_of_cells hstr hno, List.getLast?_concat]

/-- A working directory leaves room for its slash and two NULs, or it does not. -/
theorem defaultHomedir_cases (cwd : CStr) :
    cwd.strlen ≤ 4093 ∧ (∃ homedir, defaultHomedir (some cwd) = .ok homedir ∧ KeptHomedir homedir) ∨
      4093 < cwd.strlen ∧ defaultHomedir (some cwd) = .error .undefined := by
  by_cases hcopy : cwd.strlen + 1 ≤ pathMax
  · obtain ⟨m, hm⟩ : ∃ m, pathMax = cwd.strlen + 1 + m := Nat.exists_eq_add_of_le hcopy
    obtain ⟨a, ha, hcells⟩ : ∃ a, (CharArray.zero pathMax).strcpy cwd = .ok a ∧
        a.cells = cwd.chars ++ NUL :: List.replicate m NUL := by
      refine ⟨_, dif_pos hcopy, ?_⟩
      change _ ++ _ :: (List.replicate pathMax NUL).drop _ = _
      rw [List.drop_replicate, hm, Nat.add_sub_cancel_left]
    obtain ⟨b₁, hput₁, hcells₁⟩ := put_behind hcells (List.cons_ne_nil _ _) slash
    rw [List.tail_cons] at hcells₁
    have hdefault : defaultHomedir (some cwd) = (do
        let length ← b₁.strlen
        b₁.put (length + 1) NUL) := by
      rw [defaultHomedir, ha, ok_bind, strlen_of_cells hcells cwd.noNul, ok_bind, hput₁, ok_bind]
    have hno : NUL ∉ cwd.chars ++ [slash] := by
      rw [List.mem_append, List.mem_singleton, not_or]
      exact ⟨cwd.noNul, by decide⟩
    rw [pathMax] at hm
    match m with
    | 0 =>
      -- the slash takes the last cell
      refine .inr ⟨by omega, ?_⟩
      have hnone : NUL ∉ b₁.cells := by rwa [hcells₁]
      rw [hdefault, CharArray.strlen, if_neg hnone, error_bind]
    | 1 =>
      refine .inr ⟨by omega, ?_⟩
      have hstr : b₁.cells = cwd.chars ++ [slash] ++ NUL :: [] := by
        rw [hcells₁, List.append_assoc]
        rfl
      have hall : b₁.cells = cwd.chars ++ [slash] ++ [NUL] := hstr
      have hlength : (cwd.chars ++ [slash] ++ [NUL]).length = (cwd.chars ++ [slash]).length + 1 :=
        List.length_append
      rw [hdefault, strlen_of_cells hstr hno, ok_bind, ← hlength, put_end hall]
    | m + 2 =>
      have hstr : b₁.cells = cwd.chars ++ [slash] ++ NUL :: (NUL :: List.replicate m NUL) := by
        rw [hcells₁, List.append_assoc]
        rfl
      have hall : b₁.cells = cwd.chars ++ [slash] ++ [NUL] ++ NUL :: List.replicate m NUL := by
        rw [hstr, List.append_assoc (cwd.chars ++ [slash])]
        rfl
      have hlength : (cwd.chars ++ [slash] ++ [NUL]).length = (cwd.chars ++ [slash]).length + 1 :=
        List.length_append
      obtain ⟨b₂, hput₂, hcells₂⟩ := put_behind hall (List.cons_ne_nil _ _) NUL
      have hfinal : b₂.cells = cwd.chars ++ slash :: List.replicate (m + 2) NUL := by
        rw [hcells₂, List.tail_cons, List.append_assoc, List.append_assoc]
        rfl
      refine .inl ⟨by omega, b₂, ?_, kept_of_cells cwd.noNul hfinal⟩
      rw [hdefault, strlen_of_cells hstr hno, ok_bind, ← hlength, hput₂]
  · have hlong : pathMax < cwd.strlen + 1 := Nat.lt_of_not_le hcopy
    rw [pathMax] at hlong
    refine .inr ⟨by omega, ?_⟩
    rw [defaultHomedir, CharArray.strcpy, dif_neg hcopy]
    rfl

/-- A line leaves the array as it should be, unless its directory cannot be opened. -/
theorem readConfLine_kept (opendir : CStr → Bool) (line : CStr) {settings : Settings}
    (h : KeptHomedir settings.homedir) :
    ((doRegex homedirPattern line).chars ≠ [] ∧ opendir (doRegex homedirPattern line) = false) ∧
        readConfLine opendir line settings = .error (.exit 1) ∨
      ¬ ((doRegex homedirPattern line).chars ≠ [] ∧ opendir (doRegex homedirPattern line) = false) ∧
        ∃ settings', readConfLine opendir line settings = .ok settings' ∧
          KeptHomedir settings'.homedir := by
  obtain ⟨hostname, hhost⟩ := hostnameAfter_ok line settings.hostname
  have hafter : ∀ homedir, homedirAfter opendir line settings.homedir = .ok homedir → KeptHomedir homedir →
      ∃ settings', readConfLine opendir line settings = .ok settings' ∧ KeptHomedir settings'.homedir := by
    intro homedir hok hkept
    exact ⟨_, by rw [readConfLine_eq, hok, ok_bind, hhost, ok_bind], hkept⟩
  by_cases hpath : (doRegex homedirPattern line).chars = []
  · refine .inr ⟨fun hno => hno.1 hpath, hafter settings.homedir ?_ h⟩
    exact if_pos (List.length_eq_zero_iff.mpr hpath)
  have hlen := CStr.strlen_ne_zero hpath
  cases hopen : opendir (doRegex homedirPattern line) with
  | false =>
    refine .inl ⟨⟨hpath, rfl⟩, ?_⟩
    rw [readConfLine_eq, homedirAfter, if_neg hlen, if_pos hopen]
    rfl
  | true =>
    have hbound : (doRegex homedirPattern line).strlen ≤ 259 := strlen_doRegex_le homedirPattern line
    obtain ⟨a, ha, hcells⟩ := strncpy_cells settings.homedir (by decide : 259 ≤ pathMax) hbound
    have hget : ∀ i, (doRegex homedirPattern line).strlen ≤ i →
        a.cells[i]? = behind settings.homedir i := by
      intro i hi
      rw [hcells, List.getElem?_append_right hi, getElem?_behind settings.homedir hbound]
      congr 1
      exact Nat.add_sub_cancel' hi
    have htail : KeptTail a := by
      refine h.toKeptTail.congr fun i hi => ?_
      rw [hget i (hbound.trans hi), behind, if_neg (Nat.not_lt_of_le hi)]
    obtain ⟨k, -, hfirst⟩ := exists_firstNul htail.room.1
    have hwhole : (doRegex homedirPattern line).strlen ≤ k := by
      by_contra hlt
      have hnul := hfirst.1
      rw [hcells, List.getElem?_append_left (Nat.lt_of_not_le hlt)] at hnul
      exact (doRegex homedirPattern line).noNul (List.mem_of_getElem? hnul)
    obtain ⟨j, rfl⟩ : ∃ j, k = j + 1 := ⟨k - 1, by omega⟩
    obtain ⟨b, hb, hkept⟩ := closeHomedir_kept htail hfirst fun i hi hlt => by
      rw [hget i (hwhole.trans hi), behind, if_pos hlt]
    refine .inr ⟨fun hno => Bool.false_ne_true hno.2.symm, hafter b ?_ hkept⟩
    rw [homedirAfter, if_neg hlen, if_neg (by rw [hopen]; decide), ha, ok_bind, hb]

/-! ### The traversal filter and the home directory -/

/-- A home directory that is in the settings, from `main` or from a line of the configuration. -/
inductive StoredHomedir : CharArray pathMax → Prop
  | main {cwd homedir} : defaultHomedir (some cwd) = .ok homedir → StoredHomedir homedir
  | line {opendir line} {settings settings' : Settings} : StoredHomedir settings.homedir →
      readConfLine opendir line settings = .ok settings' → StoredHomedir settings'.homedir

theorem StoredHomedir.kept {homedir : CharArray pathMax} (h : StoredHomedir homedir) :
    KeptHomedir homedir := by
  induction h with
  | @main cwd homedir hok =>
    rcases defaultHomedir_cases cwd with ⟨-, homedir', hok', hkept⟩ | ⟨-, herror⟩
    · obtain rfl := Except.ok.inj (hok'.symm.trans hok)
      exact hkept
    · cases herror.symm.trans hok
  | line _ hok ih =>
    rcases readConfLine_kept _ _ ih with ⟨-, herror⟩ | ⟨-, settings', hok', hkept⟩
    · cases herror.symm.trans hok
    · obtain rfl := Except.ok.inj (hok'.symm.trans hok)
      exact hkept

/-- What the filter looks for. -/
def Traverses (s : CStr) : Prop := bytes "../" <:+: s.chars ∨ bytes "..\\" <:+: s.chars

instance (s : CStr) : Decidable (Traverses s) := inferInstanceAs (Decidable (_ ∨ _))

theorem checkSecurityPath_eq_true {path : CStr} : checkSecurityPath path = true ↔ Traverses path := by
  simp [checkSecurityPath, strstr, Traverses]

/-- The filter says the same of a selector behind two home directories exactly when the selector has
what it looks for, or both directories have it, or neither. -/
theorem checkSecurityPath_same_iff {homedir homedir' : CharArray pathMax} (h : StoredHomedir homedir)
    (h' : StoredHomedir homedir') (sel : CStr) :
    checkSecurityPath (pathFile homedir.str sel) = checkSecurityPath (pathFile homedir'.str sel) ↔
      Traverses sel ∨ (Traverses homedir.str ↔ Traverses homedir'.str) := by
  rw [pathFile, pathFile, checkSecurityPath_append h.kept.ends, checkSecurityPath_append h'.kept.ends,
    Bool.eq_iff_iff, Bool.or_eq_true, Bool.or_eq_true, checkSecurityPath_eq_true,
    checkSecurityPath_eq_true, checkSecurityPath_eq_true]
  by_cases hsel : Traverses sel
  · exact iff_of_true (iff_of_true (.inr hsel) (.inr hsel)) (.inl hsel)
  · rw [or_iff_left hsel, or_iff_left hsel, or_iff_right hsel]

/-- `main` in `/srv`, and the same with the line `home-directory ..`. -/
theorem exists_storedHomedir_parent :
    ∃ homedir homedir', (StoredHomedir homedir ∧ homedir.str = CStr.lit "/srv/") ∧
      StoredHomedir homedir' ∧ homedir'.str = CStr.lit "../" := by
  have hmain : (do
      let homedir ← defaultHomedir (some (CStr.lit "/srv"))
      return homedir.str) = .ok (CStr.lit "/srv/") := by
    decide +kernel
  have hline : (do
      let homedir ← defaultHomedir (some (CStr.lit "/srv"))
      let settings ← readConfLine (fun _ => true) (CStr.lit "home-directory ..")
        ⟨7070, 0, 116, homedir, .zero 256⟩
      return settings.homedir.str) = .ok (CStr.lit "../") := by
    decide +kernel
  obtain ⟨homedir, hdefault, hstr⟩ := bind_eq_ok_iff.mp hmain
  rw [hdefault, ok_bind] at hline
  obtain ⟨settings, hread, hstr'⟩ := bind_eq_ok_iff.mp hline
  have hstored : StoredHomedir homedir := .main hdefault
  exact ⟨homedir, settings.homedir, ⟨hstored, Except.ok.inj hstr⟩, hstored.line hread,
    Except.ok.inj hstr'⟩

/-- Every selector is refused behind `../`. -/
theorem parent_refuses_readme :
    ∃ homedir homedir', StoredHomedir homedir ∧ StoredHomedir homedir' ∧
      checkSecurityPath (pathFile homedir.str (CStr.lit "README")) = false ∧
      checkSecurityPath (pathFile homedir'.str (CStr.lit "README")) = true := by
  obtain ⟨homedir, homedir', ⟨hmain, hstr⟩, hline, hstr'⟩ := exists_storedHomedir_parent
  refine ⟨homedir, homedir', hmain, hline, ?_, ?_⟩
  · rw [hstr]
    decide
  · rw [hstr']
    decide

theorem checkSecurityPath_same_up :
    ∃ homedir homedir', StoredHomedir homedir ∧ StoredHomedir homedir' ∧
      checkSecurityPath (pathFile homedir.str (CStr.lit "../etc")) =
        checkSecurityPath (pathFile homedir'.str (CStr.lit "../etc")) := by
  obtain ⟨homedir, homedir', ⟨hmain, -⟩, hline, -⟩ := exists_storedHomedir_parent
  refine ⟨homedir, homedir', hmain, hline, ?_⟩
  exact (checkSecurityPath_same_iff hmain hline (CStr.lit "../etc")).mpr (.inl (by decide))

end Sacagawea
