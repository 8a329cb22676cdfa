import Sacagawea.Request.Management

/-!
# Asking for what a menu lists

A client gets the item behind a line of a menu by sending its selector back. Three pieces of code
have to agree on it: `send_content_of_dir` puts it together, `read_request` has `MAX_REQUEST_LEN -
strlen(homedir)` bytes for it and its CR LF, and `check_security_path` looks through the whole path.
-/

namespace Sacagawea

/-- A selector the server took: `read_request` returned it from some stream, and the path with it
passed the two checks of `management_function`. -/
def Accepted (homedir sel : CStr) : Prop :=
  ∃ stream outcomes ret out, Schedule (inputSize homedir) stream outcomes ∧
    readRequest (List.replicate (inputSize homedir) NUL) (inputSize homedir) outcomes =
      some (ret, out) ∧
    ret ≠ -1 ∧ sel = CStr.ofBuffer out ∧ homedir.strlen + sel.strlen < pathMax ∧
    checkSecurityPath (pathFile homedir sel) = false

/-- A selector that can be sent back: `read_request` returns it unchanged from any pieces of it and
its CR LF that bring all that the buffer takes, and the filter passes it. -/
def Requestable (homedir sel : CStr) : Prop :=
  (∀ outcomes, Schedule (inputSize homedir) (sel.chars ++ crlf) outcomes →
      delivered outcomes = (sel.chars ++ crlf).take (inputSize homedir) →
      readRequest (List.replicate (inputSize homedir) NUL) (inputSize homedir) outcomes =
        some ((sel.strlen : Int) + 1, sel.chars ++ [NUL])) ∧
    checkSecurityPath (pathFile homedir sel) = false

/-! ### Reading it back -/

theorem firstCrlf_closed (s : List Byte) :
    ∃ k, FirstCrlf (s ++ crlf) k ∧ (k = s.length ↔ ¬ crlf <:+: s) := by
  have hend : CrlfAt (s ++ crlf) s.length := by simp [CrlfAt, crlf]
  obtain ⟨k, hk⟩ := exists_firstCrlf hend
  refine ⟨k, hk, ?_⟩
  rw [← exists_crlfAt_iff]
  constructor
  · rintro rfl ⟨j, hj⟩
    have hlt := hj.lt_length
    exact hk.2 j (by omega) ((crlfAt_append hlt).mpr hj)
  · intro hno
    by_contra hne
    have hlt : k < s.length := by
      by_contra hge
      exact hk.2 s.length (by omega) hend
    by_cases hlast : k + 1 < s.length
    · exact hno ⟨k, (crlfAt_append hlast).mp hk.1⟩
    · -- the byte behind the string is CR, which is not LF
      have hlf := hk.1.2
      rw [show k + 1 = s.length by omega] at hlf
      simp [crlf, CR, LF] at hlf

/-- A string sent with CR LF behind it is returned unchanged when it contains no CR LF and the
buffer holds both. -/
theorem readRequest_closed_iff {buflen : Nat} (hroom : 0 < buflen) (s : List Byte) :
    (∀ outcomes, Schedule buflen (s ++ crlf) outcomes →
        delivered outcomes = (s ++ crlf).take buflen →
        readRequest (List.replicate buflen NUL) buflen outcomes =
          some ((s.length : Int) + 1, s ++ [NUL])) ↔
      ¬ crlf <:+: s ∧ s.length + 1 < buflen := by
  obtain ⟨k, hk, hno⟩ := firstCrlf_closed s
  have hbuf : (List.replicate buflen NUL).length = buflen := List.length_replicate
  have hlen : (s ++ crlf).length = s.length + 2 := List.length_append
  constructor
  · intro h
    obtain ⟨first, more, hpiece⟩ : ∃ first more, (s ++ crlf).take buflen = first :: more := by
      refine List.exists_cons_of_ne_nil fun hnil => ?_
      have := congrArg List.length hnil
      rw [List.length_take, List.length_nil] at this
      omega
    have hs : Schedule buflen (s ++ crlf) [.data first more] := by
      have hsplit : first :: more ++ (s ++ crlf).drop buflen = s ++ crlf := by
        rw [← hpiece, List.take_append_drop]
      rw [← hsplit]
      exact .data (hpiece ▸ List.length_take_le _ _) .waiting
    have hdelivered : delivered [.data first more] = (s ++ crlf).take buflen := by
      rw [hpiece, delivered, delivered, List.append_nil]
    have hframe := framed_of_readRequest hs hbuf (h _ hs hdelivered)
    rw [hdelivered, List.length_take, hlen] at hframe
    by_cases hkroom : k + 1 < min buflen (s.length + 2)
    · have hret := (hframe.1 k hk (by omega) hkroom).1
      exact ⟨hno.mp (by omega), by omega⟩
    · have hret := hframe.2 ?_
      · omega
      · rintro ⟨j, hj, -, hjroom⟩
        exact hkroom (hj.unique hk ▸ hjroom)
  · rintro ⟨hplain, hfit⟩ outcomes hs hdelivered
    obtain rfl := hno.mpr hplain
    rw [readRequest_of_firstCrlf hs hbuf hk (by rw [hdelivered, List.length_take]; omega),
      List.take_left]

/-! ### The filter on an entry -/

theorem checkSecurityPath_name (entry : DirEntry) :
    checkSecurityPath entry.name = false ↔ ¬ bytes "..\\" <:+: entry.name.chars := by
  have hup : ¬ bytes "../" <:+: entry.name.chars := fun h => entry.noSlash (h.subset (by decide))
  rw [checkSecurityPath_eq_false, and_iff_right hup]

/-- The slash put behind a selector turns two dots at its end into what the filter looks for. -/
theorem checkSecurityPath_slash {sel : CStr} (hsel : checkSecurityPath sel = false) :
    checkSecurityPath (sel ++ CStr.lit "/") = false ↔ ¬ bytes ".." <:+ sel.chars := by
  obtain ⟨hup, hback⟩ := checkSecurityPath_eq_false.mp hsel
  have hone : (CStr.lit "/").chars = [slash] := by decide
  have hends : ∀ c, bytes ".." ++ [c] <:+ sel.chars ++ [slash] ↔
      bytes ".." <:+ sel.chars ∧ c = slash := by
    intro c
    rw [List.suffix_concat_iff]
    constructor
    · rintro (hnil | ⟨t, happend, hsuffix⟩)
      · simp at hnil
      · obtain ⟨rfl, hc⟩ := List.append_inj' happend rfl
        exact ⟨hsuffix, List.singleton_inj.mp hc⟩
    · rintro ⟨hsuffix, rfl⟩
      exact .inr ⟨bytes "..", rfl, hsuffix⟩
  have hslash : bytes "../" <:+ sel.chars ++ [slash] ↔ bytes ".." <:+ sel.chars :=
    (hends slash).trans (and_iff_left rfl)
  have hbackslash : ¬ bytes "..\\" <:+ sel.chars ++ [slash] := fun h =>
    absurd ((hends backslash).mp h).2 (by decide)
  rw [checkSecurityPath_eq_false, CStr.chars_append, hone, List.infix_concat_iff,
    List.infix_concat_iff, hslash]
  tauto

/-- What the filter says about the selector of an entry, when it passed the one of the directory. -/
theorem checkSecurityPath_below {sel : CStr} (hsel : checkSecurityPath sel = false)
    (entry : DirEntry) :
    checkSecurityPath (below sel entry.name) = false ↔
      ¬ bytes ".." <:+ sel.chars ∧ ¬ bytes "..\\" <:+: entry.name.chars := by
  rw [below]
  split
  · rename_i hlast
    have hdots : ¬ bytes ".." <:+ sel.chars := by
      intro hsuffix
      have hone : [dot] <:+ bytes ".." := by decide
      have hdot := List.singleton_suffix_iff_getLast?_eq_some.mp (hone.trans hsuffix)
      rw [hlast] at hdot
      exact absurd hdot (by decide)
    rw [checkSecurityPath_append hlast, hsel, Bool.false_or, checkSecurityPath_name,
      and_iff_right hdots]
  · rw [checkSecurityPath_append (by rw [CStr.chars_append]; exact List.getLast?_concat),
      Bool.or_eq_false_iff, checkSecurityPath_slash hsel, checkSecurityPath_name]

/-! ### The items of a menu -/

theorem Accepted.no_crlf {homedir sel : CStr} (h : Accepted homedir sel) : ¬ crlf <:+: sel.chars := by
  obtain ⟨stream, outcomes, ret, out, hs, hread, hret, rfl, -, -⟩ := h
  obtain ⟨hframed, hnone⟩ := framed_of_readRequest hs List.length_replicate hread
  obtain ⟨k, hk, hroom, hlt⟩ := Classical.not_not.mp fun h => hret (hnone h)
  obtain ⟨-, rfl, -⟩ := hframed k hk hroom hlt
  intro hinfix
  have hstored : crlf <:+: stream.take k ++ [NUL] := hinfix.trans (CStr.ofBuffer_prefix _).isInfix
  have hnul : ¬ [CR, LF] <:+: [NUL] := by decide
  have hhead : ¬ [NUL].head? = some LF := by decide
  rw [crlf, Split.pair_infix_append_iff] at hstored
  simp only [hnul, hhead, and_false, or_false] at hstored
  obtain ⟨j, hj⟩ := (exists_crlfAt_iff _).mpr hstored
  have hjk := hj.lt_length
  rw [List.length_take] at hjk
  exact hk.2 j (by omega) ((crlfAt_take (by omega)).mp hj)

/-- Exactly the items whose name holds neither CR LF nor two dots and a backslash can be requested,
in a directory whose selector does not end in two dots, when the path leaves a byte of `PATH_MAX`
free besides its NUL. -/
theorem requestable_iff {homedir sel : CStr} (hslash : homedir.chars.getLast? = some slash)
    (hsel : Accepted homedir sel) {folder : List DirEntry} {name : CStr} (hname : name ∈ listed folder)
    (hlen : homedir.strlen + (below sel name).strlen < pathMax) :
    Requestable homedir (below sel name) ↔
      ¬ crlf <:+: name.chars ∧ ¬ bytes "..\\" <:+: name.chars ∧ ¬ bytes ".." <:+ sel.chars ∧
        homedir.strlen + (below sel name).strlen + 1 < pathMax := by
  obtain ⟨entry, rfl⟩ : ∃ entry : DirEntry, entry.name = name := by
    obtain ⟨entry, -, hentry⟩ := List.mem_map.mp (List.mem_filter.mp hname).1
    exact ⟨entry, hentry⟩
  have hcheck : checkSecurityPath homedir = false ∧ checkSecurityPath sel = false := by
    obtain ⟨_, _, _, _, -, -, -, -, -, hcheck⟩ := hsel
    rwa [pathFile, checkSecurityPath_append hslash, Bool.or_eq_false_iff] at hcheck
  have hcrlf : crlf <:+: (below sel entry.name).chars ↔ crlf <:+: entry.name.chars := by
    rw [crlf_infix_below_iff, or_iff_right hsel.no_crlf]
  have hroom : 0 < inputSize homedir := by
    rw [inputSize, maxRequestLen]
    rw [pathMax] at hlen
    omega
  have hfit : (below sel entry.name).chars.length + 1 < inputSize homedir ↔
      homedir.strlen + (below sel entry.name).strlen + 1 < pathMax := by
    rw [inputSize, maxRequestLen, pathMax, CStr.strlen, CStr.strlen]
    omega
  rw [Requestable, CStr.strlen, readRequest_closed_iff hroom, hcrlf, hfit, pathFile,
    checkSecurityPath_append hslash, hcheck.1, Bool.false_or, checkSecurityPath_below hcheck.2]
  tauto

/-- In the directory `a..` of `/srv/`, which the server lists, the file `x` cannot be requested: the
filter finds `../` in `a../x`. -/
theorem listed_not_requestable :
    Accepted (CStr.lit "/srv/") (CStr.lit "a..") ∧
      CStr.lit "x" ∈ listed [⟨CStr.lit "x", by decide, by decide, by decide⟩] ∧
      (CStr.lit "/srv/").strlen + (below (CStr.lit "a..") (CStr.lit "x")).strlen < pathMax ∧
      ¬ Requestable (CStr.lit "/srv/") (below (CStr.lit "a..") (CStr.lit "x")) := by
  refine ⟨⟨bytes "a..\r\n", [.data 97 [dot, dot, CR, LF]], 4, bytes "a.." ++ [NUL], ?_, by decide,
    by decide, by decide, by decide, by decide⟩, by decide, by decide, ?_⟩
  · change Schedule 4091 (97 :: [dot, dot, CR, LF] ++ []) _
    exact .data (by decide) .waiting
  · rintro ⟨-, hcheck⟩
    revert hcheck
    decide

theorem requestable_iff_readme :
    Requestable (CStr.lit "/srv/") (below (CStr.lit "docs") (CStr.lit "README")) := by
  have hs : Schedule 4091 (100 :: bytes "ocs\r\n" ++ []) [.data 100 (bytes "ocs\r\n")] :=
    .data (by decide) .waiting
  have hdocs : Accepted (CStr.lit "/srv/") (CStr.lit "docs") :=
    ⟨_, _, 5, bytes "docs" ++ [NUL], hs, by decide, by decide, by decide, by decide, by decide⟩
  have hlisted : CStr.lit "README" ∈ listed [⟨CStr.lit "README", by decide, by decide, by decide⟩] := by
    decide
  exact (requestable_iff (by decide) hdocs hlisted (by decide)).mpr (by decide)

end Sacagawea
