import Sacagawea.Server.Main

/-!
# The home directory

`read_conf_line` copies the directory with `strncpy` and a bound of 259 bytes, which is also the
longest directory the expression captures. Up to the bound the array is filled with NULs, and behind
it stands what was there before. The slash is put where the string ends, and one more NUL behind the
string that ends there then, which is not where the slash is when an old name follows.
-/

namespace Sacagawea

/-- What is to be served: the directory with a slash behind it. -/
def withSlash (path : List Byte) : List Byte :=
  if path.getLast? = some slash then path else path ++ [slash]

/-- What `strncpy` leaves in a cell behind the directory. -/
def behind (prior : CharArray pathMax) (i : Nat) : Option Byte :=
  if i < 259 then some NUL else prior.cells[i]?

/-- What `read_conf_line` does with the array when the directory has been copied. -/
def closeHomedir (homedir : CharArray pathMax) : Except Stop (CharArray pathMax) := do
  let length ← homedir.strlen
  if length = 0 then .error .undefined
  else if homedir.cells[length - 1]? = some slash then .ok homedir
  else do
    let homedir ← homedir.put length slash
    let length ← homedir.strlen
    homedir.put (length + 1) NUL

/-- The mode a line leaves. -/
def modeAfter (line : CStr) (mode : Byte) : Byte :=
  match (doRegex modePattern line).chars with
  | [] => mode
  | c :: _ => if c = 116 then 116 else if c = 112 then 112 else mode

/-- The home directory a line leaves. -/
def homedirAfter (opendir : CStr → Bool) (line : CStr) (homedir : CharArray pathMax) :
    Except Stop (CharArray pathMax) :=
  if (doRegex homedirPattern line).strlen = 0 then .ok homedir
  else if opendir (doRegex homedirPattern line) = false then .error (.exit 1)
  else do
    let homedir ← homedir.strncpy (doRegex homedirPattern line) 259
    closeHomedir homedir

/-- The host name a line leaves. -/
def hostnameAfter (line : CStr) (hostname : CharArray 256) : Except Stop (CharArray 256) :=
  if (doRegex hostnamePattern line).strlen = 0 then .ok hostname
  else hostname.strncpy (doRegex hostnamePattern line) 255

theorem readMode_eq (line : CStr) (settings : Settings) :
    readMode line settings = { settings with mode := modeAfter line settings.mode } := by
  rw [readMode, modeAfter]
  cases (doRegex modePattern line).chars with
  | nil => rfl
  | cons c rest =>
    dsimp only
    split_ifs <;> rfl

theorem readHomedir_eq (opendir : CStr → Bool) (line : CStr) (settings : Settings) :
    readHomedir opendir line settings = (do
      let homedir ← homedirAfter opendir line settings.homedir
      .ok { settings with homedir := homedir }) := by
  rw [readHomedir, homedirAfter]
  split_ifs
  · rfl
  · rfl
  · cases settings.homedir.strncpy (doRegex homedirPattern line) 259 with
    | error stop => rfl
    | ok homedir =>
      simp only [ok_bind, closeHomedir, bind_assoc]
      congr 1
      funext length
      split_ifs
      · rfl
      · rfl
      · simp only [bind_assoc]

theorem readHostname_eq (line : CStr) (settings : Settings) :
    readHostname line settings = (do
      let hostname ← hostnameAfter line settings.hostname
      .ok { settings with hostname := hostname }) := by
  rw [readHostname, hostnameAfter]
  split_ifs
  · rfl
  · rfl

/-- The three parts do not depend on each other. -/
theorem readConfLine_eq (opendir : CStr → Bool) (line : CStr) (settings : Settings) :
    readConfLine opendir line settings = (do
      let homedir ← homedirAfter opendir line settings.homedir
      let hostname ← hostnameAfter line settings.hostname
      .ok { settings with
        mode := modeAfter line settings.mode, homedir := homedir, hostname := hostname }) := by
  simp only [readConfLine, readMode_eq, readHomedir_eq, readHostname_eq, bind_assoc, ok_bind]

/-! ### A string in an array -/

section

variable {a : CharArray pathMax} {s rest : List Byte}

/-- A directory with a slash at its end is left as it is. -/
theorem closeHomedir_of_slash (hcells : a.cells = s ++ NUL :: rest) (hs : NUL ∉ s)
    (hslash : s.getLast? = some slash) : closeHomedir a = .ok a := by
  have hne : s ≠ [] := by
    rintro rfl
    cases hslash
  have hlast : (a.cells)[s.length - 1]? = some slash := by
    rw [hcells, List.getElem?_append_left (Nat.sub_lt (List.length_pos_iff.mpr hne) Nat.one_pos),
      ← List.getLast?_eq_getElem?, hslash]
  rw [closeHomedir, strlen_of_cells hcells hs, ok_bind,
    if_neg (Nat.pos_iff_ne_zero.mp (List.length_pos_iff.mpr hne)), if_pos hlast]

/-- Otherwise the slash takes the place of the NUL, and the string goes on behind it. -/
theorem closeHomedir_append (hcells : a.cells = s ++ NUL :: rest) (hs : NUL ∉ s) (hne : s ≠ [])
    (hslash : s.getLast? ≠ some slash) :
    (∀ b, closeHomedir a = .ok b → b.str.chars = s ++ slash :: rest.takeWhile (· != NUL)) ∧
      ∀ r rest', rest = r ++ NUL :: rest' → NUL ∉ r → rest' ≠ [] → ∃ b, closeHomedir a = .ok b := by
  have hlast : (a.cells)[s.length - 1]? ≠ some slash := by
    rw [hcells, List.getElem?_append_left (Nat.sub_lt (List.length_pos_iff.mpr hne) Nat.one_pos),
      ← List.getLast?_eq_getElem?]
    exact hslash
  obtain ⟨b₁, hput, hcells₁⟩ := put_behind hcells (List.cons_ne_nil _ _) slash
  rw [List.tail_cons] at hcells₁
  have hclose : closeHomedir a = (do
      let length ← b₁.strlen
      b₁.put (length + 1) NUL) := by
    rw [closeHomedir, strlen_of_cells hcells hs, ok_bind,
      if_neg (Nat.pos_iff_ne_zero.mp (List.length_pos_iff.mpr hne)), if_neg hlast, hput, ok_bind]
  -- one more NUL goes behind the one at the end of the string that is there now
  have hdone : ∀ r rest', rest = r ++ NUL :: rest' → NUL ∉ r →
      closeHomedir a = b₁.put (s ++ slash :: r ++ [NUL]).length NUL ∧
        b₁.cells = s ++ slash :: r ++ [NUL] ++ rest' ∧ NUL ∉ s ++ slash :: r := by
    intro r rest' hrest hr
    have hstr : b₁.cells = s ++ slash :: r ++ NUL :: rest' := by
      rw [hcells₁, hrest, List.append_assoc]
      rfl
    have hno : NUL ∉ s ++ slash :: r := by
      rw [List.mem_append, List.mem_cons, not_or, not_or]
      exact ⟨hs, by decide, hr⟩
    refine ⟨?_, by rw [hstr, List.append_cons], hno⟩
    have hlength : (s ++ slash :: r ++ [NUL]).length = (s ++ slash :: r).length + 1 :=
      List.length_append
    rw [hclose, strlen_of_cells hstr hno, ok_bind, hlength]
  constructor
  · intro b hb
    have hnul : NUL ∈ rest := by
      rw [hclose] at hb
      obtain ⟨length, hlength, -⟩ := bind_eq_ok_iff.mp hb
      rw [CharArray.strlen] at hlength
      split_ifs at hlength with hmem
      rw [hcells₁, List.mem_append, List.mem_cons] at hmem
      exact (hmem.resolve_left hs).resolve_left (by decide)
    obtain ⟨r, rest', hrest, hr⟩ := List.eq_append_cons_of_mem hnul
    obtain ⟨hput₂, hcells₂, hno⟩ := hdone r rest' hrest hr
    rw [hput₂] at hb
    by_cases hroom : rest' = []
    · -- there is no room for it
      rw [hroom, List.append_nil] at hcells₂
      rw [put_end hcells₂] at hb
      cases hb
    · obtain ⟨b₂, hb₂, hcells₃⟩ := put_behind hcells₂ hroom NUL
      obtain rfl := Except.ok.inj (hb.symm.trans hb₂)
      rw [← List.append_cons] at hcells₃
      rw [str_of_cells hcells₃ hno, hrest, List.takeWhile_append_of_pos (forall_bne_of_not_mem hr),
        List.takeWhile_cons_of_neg (by simp), List.append_nil]
  · intro r rest' hrest hr hroom
    obtain ⟨hput₂, hcells₂, -⟩ := hdone r rest' hrest hr
    obtain ⟨b, hb, -⟩ := put_behind hcells₂ hroom NUL
    exact ⟨b, hput₂.trans hb⟩

end

/-! ### The directory that is served -/

theorem withSlash_cases (path : List Byte) :
    path.getLast? = some slash ∧ withSlash path = path ∨
      path.getLast? ≠ some slash ∧ withSlash path = path ++ [slash] := by
  rw [withSlash]
  split_ifs with hslash
  · exact .inl ⟨hslash, rfl⟩
  · exact .inr ⟨hslash, rfl⟩

theorem closeHomedir_str {a b : CharArray pathMax} {s rest : List Byte} (hcells : a.cells = s ++ NUL :: rest)
    (hs : NUL ∉ s) (hne : s ≠ []) (h : closeHomedir a = .ok b) :
    s.getLast? = some slash ∧ b.str.chars = s ∨
      s.getLast? ≠ some slash ∧ b.str.chars = s ++ slash :: rest.takeWhile (· != NUL) := by
  by_cases hslash : s.getLast? = some slash
  · obtain rfl := Except.ok.inj ((closeHomedir_of_slash hcells hs hslash).symm.trans h)
    exact .inl ⟨hslash, str_of_cells hcells hs⟩
  · exact .inr ⟨hslash, (closeHomedir_append hcells hs hne hslash).1 b h⟩

theorem withSlash_length (path : List Byte) :
    0 < (withSlash path).length ∧ (withSlash path).length ≤ path.length + 1 := by
  rcases withSlash_cases path with ⟨hslash, hwith⟩ | ⟨-, hwith⟩
  · rw [hwith]
    refine ⟨List.length_pos_iff.mpr ?_, Nat.le_succ _⟩
    rintro rfl
    cases hslash
  · rw [hwith, List.length_append]
    exact ⟨Nat.succ_pos _, le_rfl⟩

/-- Where the string ends with the directory, the slash is its end unless an old name follows. -/
theorem closeHomedir_terminated_iff {a : CharArray pathMax} {path rest : List Byte} {c d : Byte}
    (hcells : a.cells = path ++ NUL :: c :: d :: rest) (hnul : NUL ∉ path) (hne : path ≠ []) :
    (∃ b, closeHomedir a = .ok b ∧ b.str.chars = withSlash path) ↔
      path.getLast? = some slash ∨ c = NUL := by
  rcases withSlash_cases path with ⟨hslash, hwith⟩ | ⟨hslash, hwith⟩
  · rw [hwith]
    exact iff_of_true ⟨a, closeHomedir_of_slash hcells hnul hslash, str_of_cells hcells hnul⟩ (.inl hslash)
  · obtain ⟨hstr, hok⟩ := closeHomedir_append hcells hnul hne hslash
    rw [hwith, or_iff_right hslash]
    constructor
    · rintro ⟨b, hb, hsame⟩
      rw [hstr b hb, List.append_cancel_left_eq, List.cons.injEq, and_iff_right rfl,
        List.takeWhile_cons] at hsame
      by_contra hc
      rw [if_pos (bne_iff_ne.mpr hc)] at hsame
      cases hsame
    · rintro rfl
      obtain ⟨b, hb⟩ := hok [] (d :: rest) rfl List.not_mem_nil (List.cons_ne_nil _ _)
      exact ⟨b, hb, by rw [hstr b hb]; simp⟩

/-- Where it goes on, only a single slash behind the directory is as it should be. -/
theorem closeHomedir_continued_iff {a : CharArray pathMax} {path w rest : List Byte} {x : Byte}
    (hcells : a.cells = path ++ x :: w ++ NUL :: rest) (hno : NUL ∉ path ++ x :: w) :
    (∃ b, closeHomedir a = .ok b ∧ b.str.chars = withSlash path) ↔
      path.getLast? ≠ some slash ∧ x = slash ∧ w = [] := by
  have hne : path ++ x :: w ≠ [] := List.append_ne_nil_of_right_ne_nil _ (List.cons_ne_nil _ _)
  constructor
  · rintro ⟨b, hb, hsame⟩
    have hlong : path ++ x :: w <+: withSlash path := by
      rw [← hsame]
      rcases closeHomedir_str hcells hno hne hb with ⟨-, hstr⟩ | ⟨-, hstr⟩
      · rw [hstr]
      · rw [hstr]
        exact List.prefix_append _ _
    rcases withSlash_cases path with ⟨hslash, hwith⟩ | ⟨hslash, hwith⟩
    · have hlength := hlong.length_le
      rw [hwith, List.length_append, List.length_cons] at hlength
      omega
    · rw [hwith, List.prefix_append_right_inj, List.cons_prefix_cons, List.prefix_nil] at hlong
      exact ⟨hslash, hlong⟩
  · rintro ⟨hslash, rfl, rfl⟩
    have hend : (path ++ [slash]).getLast? = some slash := List.getLast?_concat
    rw [withSlash, if_neg hslash]
    exact ⟨a, closeHomedir_of_slash hcells hno hend, str_of_cells hcells hno⟩

theorem closeHomedir_of_not_mem {a : CharArray pathMax} (hnul : NUL ∉ a.cells) :
    closeHomedir a = .error .undefined := by
  rw [closeHomedir, CharArray.strlen, if_neg hnul, error_bind]

/-- The two cells behind the directory decide. -/
theorem closeHomedir_iff {a : CharArray pathMax} {path cells : List Byte} (hcells : a.cells = path ++ cells)
    (hnul : NUL ∉ path) (hne : path ≠ []) (hroom : 3 ≤ cells.length) :
    (∃ b, closeHomedir a = .ok b ∧ b.str.chars = withSlash path) ↔
      if path.getLast? = some slash then (cells)[0]? = some NUL
      else ((cells)[0]? = some NUL ∨ (cells)[0]? = some slash) ∧ (cells)[1]? = some NUL := by
  by_cases hmem : NUL ∈ cells
  · obtain ⟨w, rest, rfl, hw⟩ := List.eq_append_cons_of_mem hmem
    cases w with
    | nil =>
      obtain ⟨c, d, rest, rfl⟩ : ∃ c d more, rest = c :: d :: more := by
        match rest, hroom with
        | c :: d :: more, _ => exact ⟨c, d, more, rfl⟩
      rw [closeHomedir_terminated_iff hcells hnul hne]
      split_ifs with hslash
      · exact iff_of_true (.inl hslash) rfl
      · simp [hslash]
    | cons x w =>
      have hx : x ≠ NUL := fun h => hw (h ▸ List.mem_cons_self)
      rw [← List.append_assoc] at hcells
      rw [closeHomedir_continued_iff hcells (List.not_mem_append hnul hw)]
      split_ifs with hslash
      · exact iff_of_false (fun h => h.1 hslash) fun h => hx (Option.some.inj h)
      · cases w with
        | nil => simp [hslash, hx]
        | cons y w =>
          have hy : y ≠ NUL := fun h => hw (h ▸ List.mem_cons_of_mem _ List.mem_cons_self)
          simp [hy]
  · have hall : ∀ i, (cells)[i]? ≠ some NUL := fun i h => hmem (List.mem_of_getElem? h)
    have hno : NUL ∉ a.cells := by
      rw [hcells]
      exact List.not_mem_append hnul hmem
    rw [closeHomedir_of_not_mem hno]
    split_ifs
    · exact iff_of_false (fun ⟨_, h, _⟩ => nomatch h) (hall 0)
    · exact iff_of_false (fun ⟨_, h, _⟩ => nomatch h) fun h => hall 1 h.2

/-! ### The configuration line -/

theorem strlen_doRegex_le (pattern : KeywordPattern Byte) (line : CStr) :
    (doRegex pattern line).strlen ≤ pattern.max := by
  change ((pattern.capture line.chars).getD []).length ≤ pattern.max
  cases hcapture : pattern.capture line.chars with
  | none => exact Nat.zero_le _
  | some value =>
    obtain ⟨seps, hmatches⟩ := KeywordPattern.exists_matches_of_capture hcapture
    exact hmatches.value_le

theorem getElem?_behind (prior : CharArray pathMax) {length : Nat} (hlength : length ≤ 259) (i : Nat) :
    (List.replicate (259 - length) NUL ++ prior.cells.drop 259)[i]? = behind prior (length + i) := by
  rw [behind]
  split_ifs with hi
  · rw [List.getElem?_append_left (by rw [List.length_replicate]; omega), List.getElem?_replicate,
      if_pos (by omega)]
  · rw [List.getElem?_append_right (by rw [List.length_replicate]; omega), List.getElem?_drop,
      List.length_replicate]
    congr 1
    omega

/-- A string that fits is copied, and NULs fill what is left of the bound. -/
theorem strncpy_cells {n size : Nat} (a : CharArray n) {s : CStr} (hbound : size ≤ n)
    (hlength : s.strlen ≤ size) :
    ∃ b, a.strncpy s size = .ok b ∧
      b.cells = s.chars ++ (List.replicate (size - s.strlen) NUL ++ a.cells.drop size) := by
  refine ⟨_, dif_pos hbound, ?_⟩
  change (s.chars.take size).rightpad size NUL ++ a.cells.drop size = _
  rw [List.take_of_length_le hlength, ← List.append_assoc]
  rfl

theorem hostnameAfter_ok (line : CStr) (hostname : CharArray 256) :
    ∃ hostname', hostnameAfter line hostname = .ok hostname' := by
  rw [hostnameAfter]
  split_ifs
  · exact ⟨hostname, rfl⟩
  · exact ⟨_, rfl⟩

/-- The directory a line leaves, in terms of the cells behind it. -/
theorem homedirAfter_iff {opendir : CStr → Bool} {line : CStr} (homedir : CharArray pathMax)
    (hpath : (doRegex homedirPattern line).chars ≠ []) (hopen : opendir (doRegex homedirPattern line) = true) :
    (∃ b, homedirAfter opendir line homedir = .ok b ∧
        b.str.chars = withSlash (doRegex homedirPattern line).chars) ↔
      if (doRegex homedirPattern line).chars.getLast? = some slash then
        behind homedir (doRegex homedirPattern line).strlen = some NUL
      else
        (behind homedir (doRegex homedirPattern line).strlen = some NUL ∨
            behind homedir (doRegex homedirPattern line).strlen = some slash) ∧
          behind homedir ((doRegex homedirPattern line).strlen + 1) = some NUL := by
  have hlength : (doRegex homedirPattern line).strlen ≤ 259 := strlen_doRegex_le homedirPattern line
  have hlen : (doRegex homedirPattern line).strlen ≠ 0 := CStr.strlen_ne_zero hpath
  obtain ⟨a, ha, hcells⟩ := strncpy_cells homedir (by decide) hlength
  have hroom : 3 ≤ (List.replicate (259 - (doRegex homedirPattern line).strlen) NUL ++
      homedir.cells.drop 259).length := by
    rw [List.length_append, List.length_drop, homedir.size, pathMax]
    omega
  have hbehind := getElem?_behind homedir hlength
  rw [homedirAfter, if_neg hlen, if_neg (by rw [hopen]; decide), ha, ok_bind,
    closeHomedir_iff hcells (doRegex homedirPattern line).noNul hpath hroom, hbehind 0, hbehind 1,
    Nat.add_zero]

/-- After a line with a directory that can be opened, the directory that is served is the one on the
line exactly when the cells behind it are clear: those up to the bound of `strncpy` are. -/
theorem homedir_configured_iff {opendir : CStr → Bool} {line : CStr} (settings : Settings)
    (hpath : (doRegex homedirPattern line).chars ≠ []) (hopen : opendir (doRegex homedirPattern line) = true) :
    (∃ settings', readConfLine opendir line settings = .ok settings' ∧
        settings'.homedir.str.chars = withSlash (doRegex homedirPattern line).chars) ↔
      if (doRegex homedirPattern line).chars.getLast? = some slash then
        behind settings.homedir (doRegex homedirPattern line).strlen = some NUL
      else
        (behind settings.homedir (doRegex homedirPattern line).strlen = some NUL ∨
            behind settings.homedir (doRegex homedirPattern line).strlen = some slash) ∧
          behind settings.homedir ((doRegex homedirPattern line).strlen + 1) = some NUL := by
  rw [← homedirAfter_iff settings.homedir hpath hopen, readConfLine_eq]
  obtain ⟨hostname, hhost⟩ := hostnameAfter_ok line settings.hostname
  constructor
  · rintro ⟨settings', h, hstr⟩
    obtain ⟨b, hb, h⟩ := bind_eq_ok_iff.mp h
    rw [hhost, ok_bind] at h
    obtain rfl := Except.ok.inj h
    exact ⟨b, hb, hstr⟩
  · rintro ⟨b, hb, hstr⟩
    exact ⟨_, by rw [hb, ok_bind, hhost, ok_bind], hstr⟩

/-- A working directory of three hundred bytes, as `main` puts it into the settings. -/
def longCwd : CStr := ⟨slash :: List.replicate 299 97, by decide +kernel⟩

/-- A directory of 258 bytes. -/
def newHome : CStr := ⟨slash :: List.replicate 257 98, by decide +kernel⟩

def newHomeLine : CStr := ⟨bytes "home-directory " ++ newHome.chars, by decide +kernel⟩

/-- Behind the new directory and its slash stand the last bytes of the old one. -/
theorem homedir_keeps_old_name :
    doRegex homedirPattern newHomeLine = newHome ∧
      (do
        let homedir ← defaultHomedir (some longCwd)
        let settings ← readConfLine (fun _ => true) newHomeLine ⟨7070, 0, 116, homedir, .zero 256⟩
        return settings.homedir.str.chars) =
          .ok (newHome.chars ++ slash :: (List.replicate 41 97 ++ [slash])) ∧
      newHome.chars ++ slash :: (List.replicate 41 97 ++ [slash]) ≠ withSlash newHome.chars := by
  decide +kernel

theorem homedir_configured_srv :
    ∃ settings', readConfLine (fun _ => true) (CStr.lit "home-directory /srv")
        ⟨7070, 0, 116, .zero _, .zero _⟩ = .ok settings' ∧
      settings'.homedir.str.chars = bytes "/srv/" := by
  have hcapture : doRegex homedirPattern (CStr.lit "home-directory /srv") = CStr.lit "/srv" := by
    decide +kernel
  have hclear : ∀ i < 259, behind (.zero _) i = some NUL := fun i hi => if_pos hi
  have hiff := @homedir_configured_iff (fun _ => true) (CStr.lit "home-directory /srv")
    ⟨7070, 0, 116, .zero _, .zero _⟩ (by rw [hcapture]; decide) rfl
  rw [hcapture, if_neg (by decide)] at hiff
  exact hiff.mpr ⟨.inl (hclear 4 (by decide)), hclear 5 (by decide)⟩

end Sacagawea
