import Sacagawea.Request.Management

/-!
# Following the menus

Two rules join a name to what stands in front of it: the loop of `send_content_of_dir` puts it behind
the path of the directory to probe it, and behind the selector of the client to offer it in the line.
The client sends that selector back, and `management_function` puts it behind `homedir`. The two paths
are the same, because a selector that is not empty ends like its path.
-/

namespace Sacagawea

/-! ### The code -/

theorem nul_not_mem_slash : NUL ∉ bytes "/" := by decide

theorem nul_not_mem_tab : NUL ∉ bytes "\t" := by decide

theorem nul_not_mem_crlf : NUL ∉ bytes "\r\n" := by decide

/-- What the two formats of a line have for the selector. -/
def offered (clientSelector name : CStr) : Except Stop CStr := do
  if (← lastByte clientSelector) ≠ slash then
    return clientSelector ++ CStr.lit "/" nul_not_mem_slash ++ name
  else return clientSelector ++ name

/-- A line with a selector in it. -/
def lineWith (type : GopherType) (name selector hostname : CStr) (port : Int) : CStr :=
  let tab := CStr.lit "\t" nul_not_mem_tab
  type.toCStr ++ name ++ tab ++ selector ++ tab ++ hostname ++ tab ++ decimal port ++
    CStr.lit "\r\n" nul_not_mem_crlf

/-- What the loop does for one entry up to its line. -/
def entryLine (typeOf : CStr → Except Stop GopherType) (pathFile clientSelector hostname : CStr)
    (port : Int) (name : CStr) : Except Stop CStr := do
  let path ← pathOfSubfile pathFile name
  let type ← typeOf path
  responseLine type name clientSelector hostname port

theorem menuLoop_cons (typeOf : CStr → Except Stop GopherType) (pathFile clientSelector hostname : CStr)
    (port : Int) (subFile : DirEntry) (folder : List DirEntry) (response : Option CStr) :
    menuLoop typeOf pathFile clientSelector hostname port (subFile :: folder) response =
      if skipped subFile.name then
        menuLoop typeOf pathFile clientSelector hostname port folder response
      else (do
        let line ← entryLine typeOf pathFile clientSelector hostname port subFile.name
        let response ← appendLine response line
        menuLoop typeOf pathFile clientSelector hostname port folder (some response)) := by
  rw [menuLoop, entryLine]
  simp only [bind_assoc]

theorem responseLine_eq_lineWith (type : GopherType) (name clientSelector hostname : CStr) (port : Int) :
    responseLine type name clientSelector hostname port = (do
      allocate (lineBuffer clientSelector hostname port name)
      let selector ← offered clientSelector name
      return snprintf (lineBuffer clientSelector hostname port name)
        (lineWith type name selector hostname port)) := by
  rw [responseLine, ← lineBuffer, offered]
  congr 1
  funext _
  rw [bind_assoc]
  congr 1
  funext c
  split_ifs with hc
  · simp only [pure_bind, lineWith, CStr.append_assoc]
  · simp only [pure_bind, lineWith, CStr.append_assoc]

/-! ### One menu -/

theorem offered_eq {clientSelector : CStr} (hsel : clientSelector.chars ≠ []) (name : CStr) :
    offered clientSelector name = .ok (below clientSelector name) := by
  obtain ⟨c, hlast, hc⟩ := lastByte_of_ne_nil hsel
  rw [offered, hc, ok_bind, below, hlast]
  simp only [Option.some.injEq]
  by_cases hslash : c = slash
  · rw [if_neg (not_not.mpr hslash), if_pos hslash]
    rfl
  · rw [if_pos hslash, if_neg hslash]
    rfl

/-- Behind `homedir`, a selector that is not empty ends as it does on its own. -/
theorem below_pathFile (homedir : CStr) {clientSelector : CStr} (hsel : clientSelector.chars ≠ [])
    (name : CStr) :
    below (pathFile homedir clientSelector) name = pathFile homedir (below clientSelector name) := by
  have hlast : (pathFile homedir clientSelector).chars.getLast? = clientSelector.chars.getLast? := by
    rw [pathFile, CStr.chars_append, List.getLast?_append_of_ne_nil _ hsel]
  rw [below, below, hlast]
  split_ifs with hslash
  · exact CStr.append_assoc homedir clientSelector name
  · simp only [pathFile, CStr.append_assoc]

/-- The line holds the whole selector, also when it is cut off behind it. -/
theorem offered_in_line {type : GopherType} {name clientSelector hostname line next : CStr} {port : Int}
    (hnext : offered clientSelector name = .ok next)
    (hline : responseLine type name clientSelector hostname port = .ok line) :
    type.char :: (name.chars ++ TAB :: (next.chars ++ [TAB])) <+: line.chars := by
  have hsel : clientSelector.chars ≠ [] := by
    intro hnil
    rw [offered, lastByte, hnil] at hnext
    cases hnext
  rw [offered_eq hsel, Except.ok.injEq] at hnext
  subst hnext
  rw [responseLine_eq_lineWith] at hline
  obtain ⟨_, -, hline⟩ := bind_eq_ok_iff.mp hline
  rw [offered_eq hsel, ok_bind] at hline
  obtain rfl := Except.ok.inj hline
  have hbelow := strlen_below_le clientSelector name
  have htab : (CStr.lit "\t").chars = [TAB] := by decide
  have hwhole : type.char :: (name.chars ++ TAB :: ((below clientSelector name).chars ++ [TAB])) <+:
      (lineWith type name (below clientSelector name) hostname port).chars := by
    refine ⟨hostname.chars ++ TAB :: ((decimal port).chars ++ (CStr.lit "\r\n").chars), ?_⟩
    simp only [lineWith, CStr.chars_append, htab, GopherType.toCStr, List.cons_append, List.append_assoc,
      List.nil_append]
  apply List.prefix_take_iff.mpr
  refine ⟨hwhole, ?_⟩
  simp only [CStr.strlen] at hbelow
  simp only [lineBuffer, CStr.strlen, List.length_cons, List.length_append, List.length_nil]
  omega

/-- A line is made when the path has a type, unless the line is too long for an `int`. -/
theorem entryLine_of_type {typeOf : CStr → Except Stop GopherType}
    {pathFile clientSelector hostname path : CStr} {port : Int} {name : CStr} {type : GopherType}
    (hsel : clientSelector.chars ≠ []) (hpath : pathOfSubfile pathFile name = .ok path)
    (htype : typeOf path = .ok type) (hroom : lineBuffer clientSelector hostname port name < 2 ^ 31) :
    ∃ line, entryLine typeOf pathFile clientSelector hostname port name = .ok line := by
  refine ⟨snprintf (lineBuffer clientSelector hostname port name)
    (lineWith type name (below clientSelector name) hostname port), ?_⟩
  rw [entryLine, hpath, ok_bind, htype, ok_bind, responseLine_eq_lineWith,
    allocate_eq_ok_iff.mpr hroom, ok_bind, offered_eq hsel]
  rfl

/-- The loop keeps what is there and adds the line of each entry that it does not skip. -/
theorem lines_of_menuLoop {typeOf : CStr → Except Stop GopherType} {pathFile clientSelector hostname : CStr}
    {port : Int} {folder : List DirEntry} {response out : Option CStr}
    (h : menuLoop typeOf pathFile clientSelector hostname port folder response = .ok out) :
    collected response <+: collected out ∧ ∀ name ∈ listed folder, ∃ line,
      entryLine typeOf pathFile clientSelector hostname port name = .ok line ∧
        line.chars <:+: collected out := by
  induction folder generalizing response with
  | nil =>
    cases h
    exact ⟨List.prefix_rfl, fun name hname => absurd hname List.not_mem_nil⟩
  | cons subFile folder ih =>
    rw [menuLoop_cons] at h
    split_ifs at h with hskip
    · have hlisted : listed (subFile :: folder) = listed folder := by simp [listed, hskip]
      rw [hlisted]
      exact ih h
    · have hlisted : listed (subFile :: folder) = subFile.name :: listed folder := by simp [listed, hskip]
      obtain ⟨line, hline, h⟩ := bind_eq_ok_iff.mp h
      obtain ⟨longer, happend, hloop⟩ := bind_eq_ok_iff.mp h
      obtain ⟨hkept, hlines⟩ := ih hloop
      have hchars : longer.chars = collected response ++ line.chars := by
        rcases appendLine_cases response line with ⟨text, htext, hchars⟩ | ⟨⟨stop, hstop⟩, -⟩
        · cases htext.symm.trans happend
          exact hchars
        · cases hstop.symm.trans happend
      have hkept : collected response ++ line.chars <+: collected out := hchars ▸ hkept
      rw [hlisted]
      refine ⟨(List.prefix_append _ _).trans hkept, List.forall_mem_cons.mpr ⟨⟨line, hline, ?_⟩, hlines⟩⟩
      exact (List.suffix_append _ _).isInfix.trans hkept.isInfix

/-- The response has the line of each entry. -/
theorem lines_of_sendContentOfDir {typeOf : CStr → Except Stop GopherType}
    {pathFile clientSelector hostname menu name : CStr} {port : Int} {folder : List DirEntry}
    (h : sendContentOfDir typeOf pathFile clientSelector hostname port (some folder) = .ok (some menu))
    (hname : name ∈ listed folder) :
    ∃ line, entryLine typeOf pathFile clientSelector hostname port name = .ok line ∧
      line.chars <:+: menu.chars := by
  rw [sendContentOfDir] at h
  obtain ⟨response, hloop, h⟩ := bind_eq_ok_iff.mp h
  obtain ⟨menu', hend, h⟩ := bind_eq_ok_iff.mp h
  cases h
  cases response with
  | none => cases hend
  | some response =>
    obtain ⟨-, rfl⟩ := endMenu_eq_ok_iff.mp hend
    obtain ⟨line, hline, hin⟩ := (lines_of_menuLoop hloop).2 name hname
    rw [CStr.chars_append]
    exact ⟨line, hline, hin.trans (List.prefix_append _ _).isInfix⟩

/-! ### A chain of menus -/

/-- From a selector without a slash at its end, each menu adds a slash and a name. -/
theorem offered_chain {selector : CStr} (hsel : selector.chars ≠ [])
    (hslash : selector.chars.getLast? ≠ some slash) (entries : List DirEntry) :
    ∃ last, entries.foldlM (fun selector entry => offered selector entry.name) selector = .ok last ∧
      last.chars = selector.chars ++ entries.flatMap fun entry => slash :: entry.name.chars := by
  have hone : (CStr.lit "/").chars = [slash] := by decide
  induction entries generalizing selector with
  | nil => exact ⟨selector, rfl, (List.append_nil _).symm⟩
  | cons entry entries ih =>
    have hchars : (below selector entry.name).chars = selector.chars ++ slash :: entry.name.chars := by
      rw [below, if_neg hslash, CStr.chars_append, CStr.chars_append, hone, List.append_assoc]
      rfl
    have hlast : (below selector entry.name).chars.getLast? = entry.name.chars.getLast? := by
      rw [hchars, List.append_cons, List.getLast?_append_of_ne_nil _ entry.nonempty]
    have hne : (below selector entry.name).chars ≠ [] := by simp [hchars]
    have hslash' : (below selector entry.name).chars.getLast? ≠ some slash := by
      rw [hlast]
      exact fun h => entry.noSlash (List.mem_of_getLast? h)
    obtain ⟨last, hfold, htext⟩ := ih hne hslash'
    refine ⟨last, ?_, ?_⟩
    · rw [List.foldlM_cons, offered_eq hsel, ok_bind, hfold]
    · rw [htext, hchars, List.flatMap_cons, List.append_assoc]

/-- From the root, the selector is the names with a slash in front of each. -/
theorem offered_from_root (entries : List DirEntry) :
    ∃ last, entries.foldlM (fun selector entry => offered selector entry.name) (CStr.lit "/") =
        .ok last ∧
      last.chars = slash :: [slash].intercalate (entries.map fun entry => entry.name.chars) := by
  have hroot : (CStr.lit "/").chars = [slash] := by decide
  cases entries with
  | nil => exact ⟨CStr.lit "/", rfl, hroot⟩
  | cons entry entries =>
    have hfirst : offered (CStr.lit "/") entry.name = .ok (CStr.lit "/" ++ entry.name) := by
      rw [offered_eq (by decide), below, if_pos (by decide)]
    have hchars : (CStr.lit "/" ++ entry.name).chars = slash :: entry.name.chars := by
      rw [CStr.chars_append, hroot]
      rfl
    have hslash : (CStr.lit "/" ++ entry.name).chars.getLast? ≠ some slash := by
      rw [CStr.chars_append, List.getLast?_append_of_ne_nil _ entry.nonempty]
      exact fun hlast => entry.noSlash (List.mem_of_getLast? hlast)
    obtain ⟨last, hfold, htext⟩ := offered_chain (by rw [hchars]; exact List.cons_ne_nil _ _) hslash entries
    refine ⟨last, ?_, ?_⟩
    · rw [List.foldlM_cons, hfirst, ok_bind, hfold]
    · rw [htext, hchars, List.map_cons, Split.intercalate_cons, List.flatMap_map]
      rfl

/-- For every entry of every menu, the selector that is offered leads to the path that was probed for
the entry, and the request is answered by the type of that path. The line of the entry is made when the
path has a type, and a menu that is sent has it. From the root, the selectors are the names that were
followed, with a single slash in front of each. -/
theorem navigation_agrees (disk : Disk) (stack : (n : Nat) → CharArray n) (settings : Settings)
    (hhome : settings.homedir.str.strlen < pathMax) {selector : CStr} (hsel : selector.chars ≠ [])
    (name : CStr) (entries : List DirEntry) :
    (∃ next, offered selector name = .ok next ∧
        pathOfSubfile (pathFile settings.homedir.str selector) name =
          .ok (pathFile settings.homedir.str next) ∧
        (∀ line, entryLine disk.typeOf (pathFile settings.homedir.str selector) selector
            settings.hostname.str settings.port name = .ok line →
          ∃ type, disk.typeOf (pathFile settings.homedir.str next) = .ok type ∧
            type.char :: (name.chars ++ TAB :: (next.chars ++ [TAB])) <+: line.chars) ∧
        (∀ type, disk.typeOf (pathFile settings.homedir.str next) = .ok type →
          lineBuffer selector settings.hostname.str settings.port name < 2 ^ 31 →
          ∃ line, entryLine disk.typeOf (pathFile settings.homedir.str selector) selector
            settings.hostname.str settings.port name = .ok line) ∧
        (∀ folder menu, name ∈ listed folder →
          sendContentOfDir disk.typeOf (pathFile settings.homedir.str selector) selector
            settings.hostname.str settings.port (some folder) = .ok (some menu) →
          ∃ type, disk.typeOf (pathFile settings.homedir.str next) = .ok type ∧
            type.char :: (name.chars ++ TAB :: (next.chars ++ [TAB])) <:+: menu.chars) ∧
        answer disk stack settings next =
          if settings.homedir.str.strlen + next.strlen < pathMax ∧
              checkSecurityPath (pathFile settings.homedir.str next) = false then
            respond disk stack settings (pathFile settings.homedir.str next) next
          else .ok .closed) ∧
      ∃ last, entries.foldlM (fun selector entry => offered selector entry.name) (CStr.lit "/") =
          .ok last ∧
        last.chars = slash :: [slash].intercalate (entries.map fun entry => entry.name.chars) := by
  have hnext := offered_eq hsel name
  have hpath : pathOfSubfile (pathFile settings.homedir.str selector) name =
      .ok (pathFile settings.homedir.str (below selector name)) := by
    rw [pathOfSubfile_eq (by simp [pathFile, hsel]), below_pathFile _ hsel]
  have hoffer : ∀ line, entryLine disk.typeOf (pathFile settings.homedir.str selector) selector
      settings.hostname.str settings.port name = .ok line →
      ∃ type, disk.typeOf (pathFile settings.homedir.str (below selector name)) = .ok type ∧
        type.char :: (name.chars ++ TAB :: ((below selector name).chars ++ [TAB])) <+: line.chars := by
    intro line hline
    rw [entryLine, hpath, ok_bind] at hline
    obtain ⟨type, htype, hline⟩ := bind_eq_ok_iff.mp hline
    exact ⟨type, htype, offered_in_line hnext hline⟩
  refine ⟨⟨below selector name, hnext, hpath, hoffer, fun type htype => entryLine_of_type hsel hpath htype,
    fun folder menu hname hmenu => ?_, answer_eq disk stack settings _ hhome⟩, offered_from_root entries⟩
  obtain ⟨line, hline, hin⟩ := lines_of_sendContentOfDir hmenu hname
  obtain ⟨type, htype, hprefix⟩ := hoffer line hline
  exact ⟨type, htype, hprefix.isInfix.trans hin⟩

theorem navigation_agrees_readme :
    (∃ next, offered (CStr.lit "/docs") (CStr.lit "README") = .ok next ∧
        pathOfSubfile (pathFile (CStr.lit "/srv/") (CStr.lit "/docs")) (CStr.lit "README") =
          .ok (pathFile (CStr.lit "/srv/") next)) ∧
      ∃ last, [⟨CStr.lit "docs", by decide, by decide, by decide⟩,
          ⟨CStr.lit "README", by decide, by decide, by decide⟩].foldlM
            (fun selector (entry : DirEntry) => offered selector entry.name) (CStr.lit "/") = .ok last ∧
        last.chars = bytes "/docs/README" := by
  obtain ⟨home, -, hstr⟩ := (CharArray.zero pathMax).strcpy_spec (s := CStr.lit "/srv/") (by decide)
  have hlen : home.str.strlen < pathMax := by
    rw [hstr]
    decide
  obtain ⟨⟨next, hnext, hpath, -⟩, last, hlast, hchars⟩ :=
    navigation_agrees ⟨fun _ => .noStream, fun _ => .zero 64, fun _ => none⟩ CharArray.zero
      ⟨7070, 3, 116, home, .zero 256⟩ hlen (by decide : (CStr.lit "/docs").chars ≠ []) (CStr.lit "README")
      [⟨CStr.lit "docs", by decide, by decide, by decide⟩,
        ⟨CStr.lit "README", by decide, by decide, by decide⟩]
  rw [hstr] at hpath
  refine ⟨⟨next, hnext, hpath⟩, last, hlast, ?_⟩
  rw [hchars]
  decide

end Sacagawea
