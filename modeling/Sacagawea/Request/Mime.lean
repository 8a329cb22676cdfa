import Sacagawea.Lib.PrefixTable
import Sacagawea.Request.FailedProbe
import Sacagawea.Request.Navigation

/-!
# The table of MIME types

The `if`-chain of `type_path` is a table of prefixes in which the first match counts. Two things set
it apart from the table that gives the most specific type: `application/` stands in front of
`application/mac`, and when `file` prints nothing the array still holds what was on the stack.

A MIME type that is not in the table is the type of an error, whether the file exists or not.
-/

namespace Sacagawea

/-- The tests of `type_path`, in their order. -/
def mimeTable : List (List Byte × GopherType) :=
  [(dir1, .directory), (gopher1, .search), (multipartM, .multipart), (application9, .binary),
    (audioS, .audio), (htmlH, .html), (text0, .text), (empty0, .text), (gifG, .gif),
    (imageI, .image), (mac4, .mac)]

/-- The type of the most specific entry of the table, and the error without one. -/
def specificType (text : List Byte) : GopherType := (PrefixTable.longest mimeTable text).getD .error

/-! ### What is classified -/

theorem classify_eq_first (text : List Byte) :
    classify text = (PrefixTable.first mimeTable text).getD .error := by
  rw [classify, mimeTable]
  simp only [PrefixTable.getD_first_cons, PrefixTable.first_nil, Option.getD_none, Bool.or_eq_true,
    ite_or, startsWith]
  rfl

/-- The array that is read into starts with a word exactly when the text does. -/
theorem startsWith_fgets {text word : List Byte} (hnul : NUL ∉ word) (hline : LF ∉ word)
    (hlength : word.length ≤ 63) (rest : List Byte) :
    startsWith ((fgetsTake 63 text).1 ++ NUL :: rest) word = startsWith text word := by
  rw [startsWith_append_nul hnul, startsWith, startsWith, Bool.eq_iff_iff,
    List.isPrefixOf_iff_prefix, List.isPrefixOf_iff_prefix]
  constructor
  · intro h
    exact h.trans ⟨_, fgetsTake_append 63 text⟩
  · exact prefix_fgetsTake hline hlength

/-- A text is classified as it is, if there is one and it is not a message. -/
theorem typePath_eq_classify {text : List Byte} (htext : text ≠ []) (hcannot : ¬ bytes "cannot" <+: text)
    (stack : CharArray 64) : typePath stack (.output text) = .ok (classify text) := by
  set buffer := (fgetsTake 63 text).1 ++ NUL :: stack.cells.drop ((fgetsTake 63 text).1.length + 1)
    with hbuffer
  have hread : fgets stack.cells 64 text = some (buffer, (fgetsTake 63 text).2) := if_neg htext
  have hmessage : startsWith buffer (bytes "cannot") = false := by
    rw [hbuffer, startsWith_fgets (by decide) (by decide) (by decide), startsWith, ← Bool.not_eq_true,
      List.isPrefixOf_iff_prefix]
    exact hcannot
  have hwords : ∀ mime ∈ mimePrefixes, NUL ∉ mime ∧ LF ∉ mime ∧ mime.length ≤ 63 := by decide
  have hclass : classify buffer = classify text := by
    apply classify_congr
    intro mime hmime
    obtain ⟨hnul, hline, hlength⟩ := hwords mime hmime
    exact startsWith_fgets hnul hline hlength _
  simp only [typePath, hread, Option.getD_some, hmessage, Bool.false_eq_true, if_false, ok_bind, hclass]
  rfl

/-! ### What was on the stack -/

/-- A text that is there leaves nothing of what was on the stack to the type. -/
theorem typePath_congr {text : List Byte} (htext : text ≠ []) (stack stack' : CharArray 64) :
    typePath stack (.output text) = typePath stack' (.output text) := by
  by_cases hcannot : bytes "cannot" <+: text
  · rw [typePath_message stack hcannot, typePath_message stack' hcannot]
  · rw [typePath_eq_classify htext hcannot, typePath_eq_classify htext hcannot]

/-- The type does not depend on the stack exactly when `file` prints something, and when `write_log`
has something to print in each piece of a message. -/
theorem typePath_stack_iff (text : List Byte) :
    (∀ stack stack' : CharArray 64, ∃ type, typePath stack (.output text) = .ok type ∧
        typePath stack' (.output text) = .ok type) ↔
      text ≠ [] ∧ (bytes "cannot" <+: text →
        ∀ piece ∈ (fgetsPieces 64 text).tail, Loggable (CStr.ofBuffer piece)) := by
  constructor
  · intro h
    have htext : text ≠ [] := by
      rintro rfl
      obtain ⟨type, hzero, hstale⟩ := h (.zero 64) ⟨bytes "text/" ++ List.replicate 59 NUL, by decide⟩
      have herror : typePath (.zero 64) (.output []) = .ok .error := by decide
      rw [← Except.ok.inj (herror.symm.trans hzero)] at hstale
      exact absurd hstale (by decide)
    refine ⟨htext, fun hcannot => ?_⟩
    obtain ⟨type, htype, -⟩ := h (.zero 64) (.zero 64)
    rw [typePath_message _ hcannot] at htype
    split_ifs at htype with hall
    exact hall
  · rintro ⟨htext, hall⟩ stack stack'
    suffices htype : ∃ type, typePath stack (.output text) = .ok type by
      obtain ⟨type, htype⟩ := htype
      exact ⟨type, htype, (typePath_congr htext stack' stack).trans htype⟩
    by_cases hcannot : bytes "cannot" <+: text
    · exact ⟨_, by rw [typePath_message stack hcannot, if_pos (hall hcannot)]⟩
    · exact ⟨_, typePath_eq_classify htext hcannot stack⟩

/-- When `file` prints nothing, the path has the type of the one before it. -/
theorem stale_type_returned :
    typePath ⟨bytes "text/html; charset=utf-8\n" ++ List.replicate 39 NUL, by decide⟩ (.output []) =
        .ok .html ∧
      typePath (.zero 64) (.output []) = .ok .error := by
  decide +kernel

/-! ### The most specific type -/

/-- Only `application/mac` is shadowed. -/
theorem unshadowed_mimeTable {text : List Byte} (hmac : ¬ mac4 <+: text) :
    PrefixTable.Unshadowed mimeTable text := by
  have hpairs : mimeTable.Pairwise fun earlier later =>
      earlier.1 <+: later.1 → earlier.2 = later.2 ∨ later.1 = mac4 := by decide
  apply hpairs.imp
  intro earlier later hpair hkeys hmatch
  rcases hpair hkeys with hvalue | hkey
  · exact hvalue
  · exact absurd (hkey ▸ hmatch) hmac

theorem classify_mac {text : List Byte} (hmac : mac4 <+: text) :
    classify text = .binary ∧ specificType text = .mac := by
  constructor
  · have happlication : application9 <+: text := .trans (by decide) hmac
    have hfront : ∀ entry ∈ mimeTable.take 3, ¬ entry.1 <+: mac4 ∧ ¬ mac4 <+: entry.1 := by decide
    have hsplit : mimeTable = mimeTable.take 3 ++ (application9, .binary) :: mimeTable.drop 4 := rfl
    rw [classify_eq_first, hsplit, PrefixTable.first_eq_some happlication]
    · rfl
    · intro entry hentry
      exact PrefixTable.not_prefix_of_incomparable hmac (hfront entry hentry)
  · have hlongest : PrefixTable.longest mimeTable text = some (mac4, GopherType.mac).2 :=
      PrefixTable.longest_eq_some (by decide) hmac (by decide)
    rw [specificType, hlongest]
    rfl

theorem classify_specific {text : List Byte} (hmac : ¬ mac4 <+: text) :
    classify text = specificType text := by
  rw [classify_eq_first, specificType, PrefixTable.first_eq_longest (unshadowed_mimeTable hmac)]

/-- The type of a path is the most specific one for every text but none at all, which leaves what was
on the stack, and the texts of `application/mac`. -/
theorem typePath_specific_iff {text : List Byte} (hcannot : ¬ bytes "cannot" <+: text) :
    (∀ stack, typePath stack (.output text) = .ok (specificType text)) ↔
      text ≠ [] ∧ ¬ mac4 <+: text := by
  constructor
  · intro h
    have htext : text ≠ [] := by
      rintro rfl
      have hstack := h ⟨bytes "text/" ++ List.replicate 59 NUL, by decide⟩
      exact absurd hstack (by decide)
    refine ⟨htext, fun hmac => ?_⟩
    obtain ⟨hbinary, hspecific⟩ := classify_mac hmac
    have htype := h (.zero 64)
    rw [typePath_eq_classify htext hcannot, hbinary, hspecific] at htype
    cases htype
  · rintro ⟨htext, hmac⟩ stack
    rw [typePath_eq_classify htext hcannot, classify_specific hmac]

/-- What `file` says of a BinHex archive. -/
theorem mac_taken_for_binary :
    typePath (.zero 64) (.output (bytes "application/mac-binhex40; charset=us-ascii\n")) = .ok .binary ∧
      specificType (bytes "application/mac-binhex40; charset=us-ascii\n") = .mac := by
  decide +kernel

theorem typePath_specific_html :
    typePath (.zero 64) (.output (bytes "text/html; charset=utf-8\n")) = .ok .html :=
  (typePath_specific_iff (by decide)).mpr (by decide) (.zero 64)

/-! ### Files of other types -/

/-- A text `type/subtype; charset=…` whose type is not `inode`. -/
structure OrdinaryType (type text : List Byte) : Prop where
  noSlash : slash ∉ type
  notInode : type ≠ bytes "inode"
  form : ∃ subtype charset, text = type ++ slash :: (subtype ++ bytes "; charset=" ++ charset)

/-- A path that is not taken for an error: the request for it gets the file, and every menu that lists
it shows another type. -/
structure ServedAsFile (disk : Disk) (stack : (n : Nat) → CharArray n) (settings : Settings)
    (path input : CStr) : Prop where
  type : disk.typeOf path ≠ .ok .error
  reply : respond disk stack settings path input = .ok (.file path)
  menus : ∀ dir clientSelector hostname port name line, pathOfSubfile dir name = .ok path →
    entryLine disk.typeOf dir clientSelector hostname port name = .ok line →
    line.chars.head? ≠ some GopherType.error.char

/-- The MIME types of which the table has every subtype. -/
def servedTypes : List (List Byte) := [bytes "text", bytes "image", bytes "audio", bytes "application"]

/-- A text that is read as a message, but whose last piece is taken for the type of a file. -/
def MessageServed (text : List Byte) : Prop :=
  (∀ piece ∈ (fgetsPieces 64 text).tail, Loggable (CStr.ofBuffer piece)) ∧
    Recognised ((fgetsPieces 64 text).getLastD []) ∧ ¬ dir1 <+: (fgetsPieces 64 text).getLastD []

theorem classify_eq_directory_iff (text : List Byte) : classify text = .directory ↔ dir1 <+: text := by
  rw [← List.isPrefixOf_iff_prefix, ← startsWith, classify]
  by_cases hdir : startsWith text dir1 = true
  · rw [if_pos hdir]
    exact iff_of_true rfl hdir
  · rw [if_neg hdir]
    simp (disch := decide) only [ite_eq_iff_of_ne]
    exact iff_of_false (by simp) hdir

theorem head_entryLine {typeOf : CStr → Except Stop GopherType} {dir clientSelector hostname name line : CStr}
    {port : Int} (hline : entryLine typeOf dir clientSelector hostname port name = .ok line) :
    ∃ path type, pathOfSubfile dir name = .ok path ∧ typeOf path = .ok type ∧
      line.chars.head? = some type.char := by
  obtain ⟨path, hpath, hline⟩ := bind_eq_ok_iff.mp hline
  obtain ⟨type, htype, hline⟩ := bind_eq_ok_iff.mp hline
  have hwritten := hline
  rw [responseLine_eq_lineWith] at hwritten
  obtain ⟨_, -, hwritten⟩ := bind_eq_ok_iff.mp hwritten
  obtain ⟨next, hnext, -⟩ := bind_eq_ok_iff.mp hwritten
  obtain ⟨rest, hrest⟩ := offered_in_line hnext hline
  exact ⟨path, type, hpath, htype, by rw [← hrest]; rfl⟩

theorem servedAsFile_iff (disk : Disk) (stack : (n : Nat) → CharArray n) (settings : Settings)
    (path input : CStr) :
    ServedAsFile disk stack settings path input ↔
      ∃ type, disk.typeOf path = .ok type ∧ type ≠ .error ∧ type ≠ .directory := by
  constructor
  · intro h
    have hreply := h.reply
    rw [respond] at hreply
    obtain ⟨type, htype, hreply⟩ := bind_eq_ok_iff.mp hreply
    refine ⟨type, htype, fun herror => h.type (herror ▸ htype), fun hdir => ?_⟩
    rw [if_pos hdir] at hreply
    obtain ⟨response, -, hreply⟩ := bind_eq_ok_iff.mp hreply
    cases response with
    | none => cases hreply
    | some response => cases hreply
  · rintro ⟨type, htype, herror, hdir⟩
    refine ⟨?_, ?_, ?_⟩
    · rw [htype]
      exact fun h => herror (Except.ok.inj h)
    · rw [respond, htype, ok_bind, if_neg hdir, if_neg herror]
      rfl
    · intro dir clientSelector hostname port name line hpath hline
      obtain ⟨path', type', hpath', htype', hhead⟩ := head_entryLine hline
      obtain rfl := Except.ok.inj (hpath.symm.trans hpath')
      obtain rfl := Except.ok.inj (htype.symm.trans htype')
      rw [hhead, ne_eq, Option.some.injEq]
      intro hchar
      cases type <;> first | exact herror rfl | exact absurd hchar (by decide)

theorem typed_as_file_iff (piece : List Byte) :
    (∃ type, (Except.ok (classify piece) : Except Stop GopherType) = .ok type ∧ type ≠ .error ∧
        type ≠ .directory) ↔
      Recognised piece ∧ ¬ dir1 <+: piece := by
  rw [← @not_not (Recognised piece), not_recognised_iff, ← classify_eq_directory_iff]
  constructor
  · rintro ⟨type, htype, hne⟩
    obtain rfl := Except.ok.inj htype
    exact hne
  · exact fun hne => ⟨classify piece, rfl, hne⟩

/-- The table knows the type of a text by what stands in front of the slash. -/
theorem takeWhile_eq_type {type text mime : List Byte} (h : OrdinaryType type text) (hslash : slash ∈ mime)
    (hmime : mime <+: text) : mime.takeWhile (· != slash) = type := by
  obtain ⟨subtype, charset, hform⟩ := h.form
  have htext : text.takeWhile (· != slash) = type := by
    rw [hform, List.takeWhile_append_of_pos (forall_bne_of_not_mem h.noSlash),
      List.takeWhile_cons_of_neg (by simp), List.append_nil]
  have hpart : ¬ (mime.takeWhile (· != slash)).length = mime.length := by
    intro hlength
    have hall := (List.takeWhile_prefix (p := (· != slash))).eq_of_length hlength
    rw [← hall] at hslash
    exact absurd (List.mem_takeWhile_imp hslash) (by simp)
  obtain ⟨rest, rfl⟩ := hmime
  rw [← htext, List.takeWhile_append, if_neg hpart]

theorem recognised_ordinary_iff {type text : List Byte} (h : OrdinaryType type text) :
    Recognised text ∧ ¬ dir1 <+: text ↔ type ∈ servedTypes ∨ multipartM <+: text := by
  have htable : ∀ mime ∈ mimePrefixes, slash ∈ mime ∧ (mime.takeWhile (· != slash) ∈ servedTypes ∨
      mime = multipartM ∨ mime.takeWhile (· != slash) = bytes "inode") := by decide
  have hdir : ¬ dir1 <+: text := fun hmime => h.notInode (takeWhile_eq_type h (by decide) hmime).symm
  rw [and_iff_left hdir]
  constructor
  · rintro ⟨mime, hmem, hmime⟩
    obtain ⟨hslash, hkind⟩ := htable mime hmem
    rw [takeWhile_eq_type h hslash hmime] at hkind
    rcases hkind with hserved | rfl | hinode
    · exact .inl hserved
    · exact .inr hmime
    · exact absurd hinode h.notInode
  · rintro (hserved | hmultipart)
    · have hwhole : ∀ type ∈ servedTypes, type ++ [slash] ∈ mimePrefixes := by decide
      obtain ⟨subtype, charset, rfl⟩ := h.form
      exact ⟨type ++ [slash], hwhole type hserved, _, List.append_assoc ..⟩
    · exact ⟨multipartM, by decide, hmultipart⟩

/-- Of the ordinary files, those of four types are served, and those of `multipart/mixed`. -/
theorem servedAsFile_ordinary_iff {disk : Disk} {path : CStr} {type text : List Byte}
    (hprobe : disk.probe path = .output text) (h : OrdinaryType type text)
    (stack : (n : Nat) → CharArray n) (settings : Settings) (input : CStr) :
    ServedAsFile disk stack settings path input ↔
      if bytes "cannot" <+: text then MessageServed text
      else type ∈ servedTypes ∨ multipartM <+: text := by
  rw [servedAsFile_iff, Disk.typeOf, hprobe]
  split_ifs with hcannot
  · rw [typePath_message _ hcannot, MessageServed]
    split_ifs with hall
    · rw [typed_as_file_iff, and_iff_right hall]
    · refine iff_of_false ?_ fun hserved => hall hserved.1
      rintro ⟨type, herror, -⟩
      cases herror
  · have htext : text ≠ [] := by
      obtain ⟨subtype, charset, rfl⟩ := h.form
      exact List.append_ne_nil_of_right_ne_nil _ (List.cons_ne_nil _ _)
    rw [typePath_eq_classify htext hcannot, typed_as_file_iff, recognised_ordinary_iff h]

/-- What `file` says of a film. -/
def filmText : List Byte := bytes "video/mp4; charset=binary\n"

def filmDisk : Disk := ⟨fun _ => .output filmText, fun _ => .zero 64, fun _ => none⟩

theorem film_answered_as_error :
    OrdinaryType (bytes "video") filmText ∧
      filmDisk.typeOf (CStr.lit "/srv/film.mp4") = .ok .error ∧
      respond filmDisk CharArray.zero ⟨7070, 3, 116, .zero _, .zero _⟩ (CStr.lit "/srv/film.mp4")
        (CStr.lit "film.mp4") = .ok (.text (CStr.lit "3\tfilm.mp4\r\n.\r\n")) ∧
      ¬ ServedAsFile filmDisk CharArray.zero ⟨7070, 3, 116, .zero _, .zero _⟩
        (CStr.lit "/srv/film.mp4") (CStr.lit "film.mp4") := by
  have htype : filmDisk.typeOf (CStr.lit "/srv/film.mp4") = .ok .error := by decide +kernel
  refine ⟨⟨by decide, by decide, bytes "mp4", bytes "binary\n", by decide⟩, htype, ?_, fun h => h.type htype⟩
  rw [respond, htype, ok_bind, if_neg (by decide), if_pos rfl, errorReply_eq]
  decide

theorem servedAsFile_plain :
    ServedAsFile ⟨fun _ => .output (bytes "text/plain; charset=us-ascii\n"), fun _ => .zero 64,
        fun _ => none⟩ CharArray.zero ⟨7070, 3, 116, .zero _, .zero _⟩ (CStr.lit "/srv/readme")
      (CStr.lit "readme") := by
  have hordinary : OrdinaryType (bytes "text") (bytes "text/plain; charset=us-ascii\n") :=
    ⟨by decide, by decide, bytes "plain", bytes "us-ascii\n", by decide⟩
  apply (servedAsFile_ordinary_iff rfl hordinary _ _ _).mpr
  rw [if_neg (by decide)]
  exact .inl (by decide)

end Sacagawea
