import Sacagawea.Request.Management

/-!
# The probe of a path that cannot be opened

When `file` cannot open the path it says so, in a text that starts with `cannot` and quotes the path.
`type_path` then logs the text piece by piece, and reads each piece into the array that it classifies
afterwards. So it is the last piece that decides the type, and the client chooses where in its path
the pieces are cut.
-/

namespace Sacagawea

/-- The prefixes `type_path` knows. -/
def mimePrefixes : List (List Byte) :=
  [dir1, gopher1, multipartM, application9, audioS, htmlH, text0, empty0, gifG, imageI, mac4]

def Recognised (piece : List Byte) : Prop := ∃ mime ∈ mimePrefixes, mime <+: piece

instance (piece : List Byte) : Decidable (Recognised piece) :=
  inferInstanceAs (Decidable (∃ mime ∈ mimePrefixes, mime <+: piece))

/-- The last piece of the text is none of the MIME types, and there is something to log in each of
the pieces behind the first. -/
def StaysError (text : List Byte) : Prop :=
  (∀ piece ∈ (fgetsPieces 64 text).tail, Loggable (CStr.ofBuffer piece)) ∧
    ¬ Recognised ((fgetsPieces 64 text).getLastD [])

/-! ### Logging the text -/

theorem stripNewlines_cases (message : List Byte) :
    (∃ c ∈ message, c ≠ LF) ∧ (∃ rest, stripNewlines message = .ok rest) ∨
      (∀ c ∈ message, c = LF) ∧ stripNewlines message = .error .undefined := by
  induction message with
  | nil => exact .inr ⟨nofun, rfl⟩
  | cons c message ih =>
    rw [stripNewlines]
    by_cases hc : c = LF
    · rw [if_pos hc]
      rcases ih with ⟨⟨d, hd, hne⟩, hrest⟩ | ⟨hall, herror⟩
      · exact .inl ⟨⟨d, List.mem_cons_of_mem _ hd, hne⟩, hrest⟩
      · exact .inr ⟨List.forall_mem_cons.mpr ⟨hc, hall⟩, herror⟩
    · rw [if_neg hc]
      exact .inl ⟨⟨c, List.mem_cons_self, hc⟩, _, rfl⟩

theorem writeLog_cases (message : CStr) :
    Loggable message ∧ (∃ printed, writeLog message = .ok printed) ∨
      ¬ Loggable message ∧ writeLog message = .error .undefined := by
  rw [writeLog, Loggable]
  rcases stripNewlines_cases message.chars.reverse with ⟨⟨c, hc, hne⟩, rest, hrest⟩ | ⟨hall, herror⟩
  · refine .inl ⟨⟨c, List.mem_reverse.mp hc, hne⟩, rest.reverse, ?_⟩
    rw [hrest, ok_bind]
    rfl
  · refine .inr ⟨fun ⟨c, hc, hne⟩ => hne (hall c (List.mem_reverse.mpr hc)), ?_⟩
    rw [herror, error_bind]

/-- What lies behind the NUL in the array does not matter to `strncmp`. -/
theorem startsWith_append_nul {mime : List Byte} (hmime : NUL ∉ mime) (piece rest : List Byte) :
    startsWith (piece ++ NUL :: rest) mime = startsWith piece mime := by
  rw [startsWith, startsWith, Bool.eq_iff_iff, List.isPrefixOf_iff_prefix, List.isPrefixOf_iff_prefix]
  constructor
  · intro h
    have hnul : ¬ piece ++ [NUL] <+: mime := fun hsub => hmime (hsub.subset (by simp))
    have hterminated : piece ++ [NUL] <+: piece ++ NUL :: rest := ⟨rest, by simp⟩
    rcases List.prefix_or_prefix_of_prefix h hterminated with hshort | hlong
    · rcases List.prefix_concat_iff.mp hshort with rfl | hpiece
      · exact absurd (List.prefix_refl _) hnul
      · exact hpiece
    · exact absurd hlong hnul
  · intro h
    exact h.trans (List.prefix_append _ _)

theorem startsWith_getLastD {mime : List Byte} (hmime : NUL ∉ mime) (pieces : List (List Byte))
    (piece rest : List Byte) :
    startsWith (pieces.getLastD (piece ++ NUL :: rest)) mime = startsWith (pieces.getLastD piece) mime := by
  cases pieces with
  | nil => exact startsWith_append_nul hmime piece rest
  | cons last pieces => rw [List.getLastD_cons, List.getLastD_cons]

theorem prefix_fgetsTake {word : List Byte} (hword : LF ∉ word) {room : Nat} (hroom : word.length ≤ room)
    {input : List Byte} (h : word <+: input) : word <+: (fgetsTake room input).1 := by
  induction word generalizing room input with
  | nil => exact List.nil_prefix
  | cons c word ih =>
    obtain ⟨input, rfl⟩ : ∃ rest, input = c :: rest := by
      obtain ⟨rest, rfl⟩ := h
      exact ⟨_, rfl⟩
    obtain ⟨room, rfl⟩ := Nat.exists_eq_add_of_le' (Nat.lt_of_lt_of_le (Nat.succ_pos _) hroom)
    rw [List.mem_cons, not_or] at hword
    rw [fgetsTake, if_neg (Ne.symm hword.1), List.prefix_cons_inj]
    apply ih hword.2 (Nat.le_of_succ_le_succ hroom)
    exact (List.prefix_cons_inj c).mp h

/-- The loop leaves the last piece in the array, and in front of what was there. It stops at a piece
with nothing to log. -/
theorem drainOutput_cases {rounds : Nat} {stream : List Byte} (hrounds : stream.length ≤ rounds)
    (popenOutput : List Byte) :
    (∀ piece ∈ fgetsPieces 64 stream, Loggable (CStr.ofBuffer piece)) ∧
        (∃ left, drainOutput rounds popenOutput stream = .ok left ∧ ∀ mime, NUL ∉ mime →
          startsWith left mime = startsWith ((fgetsPieces 64 stream).getLastD popenOutput) mime) ∨
      (∃ piece ∈ fgetsPieces 64 stream, ¬ Loggable (CStr.ofBuffer piece)) ∧
        drainOutput rounds popenOutput stream = .error .undefined := by
  induction rounds generalizing stream popenOutput with
  | zero =>
    obtain rfl := List.length_eq_zero_iff.mp (Nat.le_zero.mp hrounds)
    exact .inl ⟨nofun, popenOutput, rfl, fun _ _ => rfl⟩
  | succ rounds ih =>
    by_cases hstream : stream = []
    · subst hstream
      exact .inl ⟨nofun, popenOutput, rfl, fun _ _ => rfl⟩
    · set piece := (fgetsTake 63 stream).1 with hpiece
      set rest := (fgetsTake 63 stream).2 with hrest
      set buffer := piece ++ NUL :: popenOutput.drop (piece.length + 1) with hbuffer
      have hpieces : fgetsPieces 64 stream = piece :: fgetsPieces 64 rest :=
        fgetsPieces_eq (by decide) hstream
      have hread : fgets popenOutput 64 stream = some (buffer, rest) := if_neg hstream
      have hshort : rest.length ≤ rounds :=
        Nat.le_of_lt_succ (Nat.lt_of_lt_of_le (length_fgetsTake_snd (by decide) hstream) hrounds)
      have hstep : drainOutput (rounds + 1) popenOutput stream = (do
          let _ ← writeLog (CStr.ofBuffer piece)
          drainOutput rounds buffer rest) := by
        rw [drainOutput, hread, hbuffer, ← CStr.ofBuffer_append_nul]
      rw [hstep, hpieces]
      rcases writeLog_cases (CStr.ofBuffer piece) with ⟨hlog, printed, hprinted⟩ | ⟨hlog, herror⟩
      · rw [hprinted, ok_bind]
        rcases ih hshort buffer with ⟨hall, left, hleft, hstarts⟩ | ⟨⟨bad, hbad, hnot⟩, herror⟩
        · refine .inl ⟨List.forall_mem_cons.mpr ⟨hlog, hall⟩, left, hleft, fun mime hmime => ?_⟩
          rw [hstarts mime hmime, List.getLastD_cons]
          exact startsWith_getLastD hmime _ piece _
        · exact .inr ⟨⟨bad, List.mem_cons_of_mem _ hbad, hnot⟩, herror⟩
      · rw [herror, error_bind]
        exact .inr ⟨⟨piece, List.mem_cons_self, hlog⟩, rfl⟩

/-! ### The type that is found -/

theorem ite_eq_iff_of_ne {c : Prop} [Decidable c] {type rest other : GopherType} (htype : type ≠ other) :
    (if c then type else rest) = other ↔ ¬ c ∧ rest = other := by
  split_ifs with h
  · exact iff_of_false htype fun hno => hno.1 h
  · exact (and_iff_right h).symm

theorem classify_eq_error_iff (popenOutput : List Byte) :
    classify popenOutput = .error ↔ ∀ mime ∈ mimePrefixes, startsWith popenOutput mime = false := by
  rw [classify]
  simp (disch := decide) only [ite_eq_iff_of_ne]
  simp only [mimePrefixes, List.forall_mem_cons, Bool.or_eq_true, not_or, Bool.not_eq_true, and_assoc,
    List.not_mem_nil, false_implies, implies_true, and_true]

/-- Only how the array starts decides the type. -/
theorem classify_congr {buffer text : List Byte}
    (h : ∀ mime ∈ mimePrefixes, startsWith buffer mime = startsWith text mime) :
    classify buffer = classify text := by
  simp only [mimePrefixes, List.forall_mem_cons] at h
  obtain ⟨h₁, h₂, h₃, h₄, h₅, h₆, h₇, h₈, h₉, h₁₀, h₁₁, -⟩ := h
  simp only [classify, h₁, h₂, h₃, h₄, h₅, h₆, h₇, h₈, h₉, h₁₀, h₁₁]

/-- The first piece of a message is logged without fail: it has the `c` of `cannot`. -/
theorem loggable_of_cannot {piece : List Byte} (h : bytes "cannot" <+: piece) :
    Loggable (CStr.ofBuffer piece) := by
  obtain ⟨tail, htail⟩ := h
  refine ⟨99, ?_, by decide⟩
  rw [CStr.chars_ofBuffer, ← htail]
  exact List.mem_cons_self

/-- A message gets the type of its last piece, if each piece can be logged. -/
theorem typePath_message (stack : CharArray 64) {text : List Byte} (hcannot : bytes "cannot" <+: text) :
    typePath stack (.output text) =
      if ∀ piece ∈ (fgetsPieces 64 text).tail, Loggable (CStr.ofBuffer piece) then
        .ok (classify ((fgetsPieces 64 text).getLastD []))
      else .error .undefined := by
  have htext : text ≠ [] := by
    intro hnil
    rw [hnil] at hcannot
    exact absurd (List.prefix_nil.mp hcannot) (by decide)
  set piece := (fgetsTake 63 text).1 with hpiece
  set rest := (fgetsTake 63 text).2 with hrest
  set buffer := piece ++ NUL :: stack.cells.drop (piece.length + 1) with hbuffer
  have hpieces : fgetsPieces 64 text = piece :: fgetsPieces 64 rest := fgetsPieces_eq (by decide) htext
  have hread : fgets stack.cells 64 text = some (buffer, rest) := if_neg htext
  have hfirst : bytes "cannot" <+: piece := prefix_fgetsTake (by decide) (by decide) hcannot
  have hstarts : startsWith buffer (bytes "cannot") = true := by
    rw [hbuffer, startsWith_append_nul (by decide), startsWith, List.isPrefixOf_iff_prefix]
    exact hfirst
  have hprobe : typePath stack (.output text) = (do
      let _ ← writeLog (CStr.ofBuffer piece)
      let popenOutput ← drainOutput rest.length buffer rest
      return classify popenOutput) := by
    simp only [typePath, hread, Option.getD_some, hstarts, if_true]
    rw [hbuffer, CStr.ofBuffer_append_nul]
  obtain ⟨printed, hprinted⟩ : ∃ printed, writeLog (CStr.ofBuffer piece) = .ok printed := by
    rcases writeLog_cases (CStr.ofBuffer piece) with ⟨-, hprinted⟩ | ⟨hno, -⟩
    · exact hprinted
    · exact absurd (loggable_of_cannot hfirst) hno
  have hclean : ∀ mime ∈ mimePrefixes, NUL ∉ mime := by decide
  rw [hprobe, hprinted, ok_bind, hpieces, List.tail_cons, List.getLastD_cons]
  rcases drainOutput_cases le_rfl buffer with ⟨hall, left, hleft, hsame⟩ | ⟨⟨bad, hbad, hnot⟩, herror⟩
  · have hlast : classify left = classify ((fgetsPieces 64 rest).getLastD piece) := by
      apply classify_congr
      intro mime hmime
      rw [hsame mime (hclean mime hmime)]
      exact startsWith_getLastD (hclean mime hmime) _ piece _
    rw [if_pos hall, hleft, ok_bind, hlast]
    rfl
  · rw [if_neg fun hall => hnot (hall bad hbad), herror, error_bind]

theorem not_recognised_iff (piece : List Byte) : ¬ Recognised piece ↔ classify piece = .error := by
  simp only [Recognised, classify_eq_error_iff, startsWith, ← Bool.not_eq_true, List.isPrefixOf_iff_prefix,
    not_exists, not_and]

theorem typePath_cannot_iff (stack : CharArray 64) {text : List Byte} (hcannot : bytes "cannot" <+: text) :
    typePath stack (.output text) = .ok .error ↔ StaysError text := by
  rw [typePath_message stack hcannot, StaysError, not_recognised_iff]
  split_ifs with hall
  · rw [Except.ok.injEq, and_iff_right hall]
  · exact iff_of_false nofun fun h => hall h.1

/-- A path that cannot be opened is answered with an error exactly when the last piece of what `file`
says is not taken for a MIME type, and no piece leaves `write_log` without anything to print. -/
theorem cannot_answered_iff (disk : Disk) (stack : (n : Nat) → CharArray n) (settings : Settings)
    (path input : CStr) {text : List Byte} (hprobe : disk.probe path = .output text)
    (hcannot : bytes "cannot" <+: text) :
    disk.typeOf path = .ok .error ∧ respond disk stack settings path input =
        .ok (.text (CStr.lit "3\t" ++ input ++ CStr.lit "\r\n.\r\n")) ↔ StaysError text := by
  have htype : disk.typeOf path = .ok .error ↔ StaysError text := by
    rw [Disk.typeOf, hprobe]
    exact typePath_cannot_iff (disk.stack path) hcannot
  rw [← htype]
  constructor
  · exact And.left
  · intro herror
    refine ⟨herror, ?_⟩
    rw [respond, herror, ok_bind, if_neg (by decide), if_pos rfl, errorReply_eq]
    rfl

/-- What `file` says of `text/readme` in `/srv/` and forty-four more bytes, where there is none. -/
def cannotOpen : List Byte :=
  bytes "cannot open `/srv/" ++ List.replicate 44 97 ++
    bytes "/text/readme' (No such file or directory)\n"

/-- The second piece is `text/readme' (No such file or directory)`, so the path is a text. -/
theorem cannot_taken_for_text :
    bytes "cannot" <+: cannotOpen ∧ typePath (.zero 64) (.output cannotOpen) = .ok .text := by
  decide +kernel

theorem cannot_answered_readme :
    respond ⟨fun _ => .output (bytes "cannot open `/srv/readme' (No such file or directory)\n"),
        fun _ => .zero 64, fun _ => none⟩ CharArray.zero ⟨7070, 3, 116, .zero _, .zero _⟩
        (CStr.lit "/srv/readme") (CStr.lit "readme") =
      .ok (.text (CStr.lit "3\t" ++ CStr.lit "readme" ++ CStr.lit "\r\n.\r\n")) :=
  ((cannot_answered_iff ⟨fun _ => .output (bytes "cannot open `/srv/readme' (No such file or directory)\n"),
    fun _ => .zero 64, fun _ => none⟩ CharArray.zero ⟨7070, 3, 116, .zero _, .zero _⟩
    (CStr.lit "/srv/readme") (CStr.lit "readme") rfl (by decide)).mpr
      (by rw [StaysError]; decide +kernel)).2

end Sacagawea
