import Sacagawea.Request.Management

/-!
# What a request may be

`read_request` keeps the bytes in front of the first CR LF, which lies inside the buffer with its NUL.
The buffer has the bytes that the home directory leaves of `MAX_REQUEST_LEN`. So the path has room in
`PATH_MAX` bytes, and the line of an error, which brings the selector back, stays one line.
-/

namespace Sacagawea

variable {buflen : Nat} {stream buf : List Byte} {outcomes : List Recv} {check : Int}

/-- A request that is returned is what stands in front of the first CR LF. -/
theorem readRequest_returned (hs : Schedule buflen stream outcomes)
    (hread : readRequest (List.replicate buflen NUL) buflen outcomes = some (check, buf))
    (hcheck : check ≠ -1) :
    ∃ k, FirstCrlf stream k ∧ k + 1 < buflen ∧ check = k + 1 ∧ buf = stream.take k ++ [NUL] := by
  obtain ⟨hfound, hnone⟩ := framed_of_readRequest hs List.length_replicate hread
  obtain ⟨k, hk, hroom, hdelivered⟩ : ∃ k, FirstCrlf stream k ∧ k + 1 < buflen ∧
      k + 1 < (delivered outcomes).length := by
    by_contra hno
    exact hcheck (hnone hno)
  obtain ⟨hret, hbuf, -⟩ := hfound k hk hroom hdelivered
  exact ⟨k, hk, hroom, hret, hbuf⟩

theorem chars_selector (stream : List Byte) (k : Nat) :
    (CStr.ofBuffer (stream.take k ++ [NUL])).chars = (stream.take k).takeWhile (· != NUL) := by
  rw [CStr.ofBuffer_append_nul, CStr.chars_ofBuffer]

theorem strlen_selector_le (stream : List Byte) (k : Nat) :
    (CStr.ofBuffer (stream.take k ++ [NUL])).strlen ≤ k := by
  rw [CStr.strlen, chars_selector]
  exact (List.takeWhile_prefix _).length_le.trans (List.length_take_le k stream)

/-- Nothing in front of the first CR LF is one. -/
theorem selector_no_crlf {k : Nat} (hk : FirstCrlf stream k) :
    ¬ crlf <:+: (CStr.ofBuffer (stream.take k ++ [NUL])).chars := by
  intro h
  rw [chars_selector] at h
  obtain ⟨j, hj⟩ := (exists_crlfAt_iff _).mpr (h.trans (List.takeWhile_prefix _).isInfix)
  have hlt := hj.lt_length
  rw [List.length_take] at hlt
  exact hk.2 j (by omega) ((crlfAt_take (by omega)).mp hj)

/-! ### The path -/

variable {settings : Settings}

theorem strlen_pathFile_le (stream : List Byte) {k : Nat} (hroom : k + 1 < inputSize settings.homedir.str) :
    settings.homedir.str.strlen + (CStr.ofBuffer (stream.take k ++ [NUL])).strlen + 1 ≤ pathMax := by
  have hlength := strlen_selector_le stream k
  rw [inputSize, maxRequestLen] at hroom
  change _ ≤ 4096
  omega

/-- With room for the path there is an answer, or the filter closes the connection. -/
theorem managementFunction_of_read (hhome : settings.homedir.str.strlen ≤ 4095)
    (hread : readRequest (List.replicate (inputSize settings.homedir.str) NUL)
      (inputSize settings.homedir.str) outcomes = some (check, buf))
    (hcheck : check ≠ -1)
    (hfits : settings.homedir.str.strlen + (CStr.ofBuffer buf).strlen + 1 ≤ pathMax) (disk : Disk)
    (stack : (n : Nat) → CharArray n) :
    managementFunction disk stack settings outcomes =
      if checkSecurityPath (pathFile settings.homedir.str (CStr.ofBuffer buf)) then .ok (some .closed)
      else do
        let reply ← respond disk stack settings (pathFile settings.homedir.str (CStr.ofBuffer buf))
          (CStr.ofBuffer buf)
        return some reply := by
  simp only [managementFunction, hread]
  rw [if_neg hcheck, answer_eq _ _ _ _ (Nat.lt_succ_of_le hhome)]
  cases checkSecurityPath (pathFile settings.homedir.str (CStr.ofBuffer buf)) with
  | true =>
    rw [if_neg fun h => Bool.false_ne_true h.2.symm]
    rfl
  | false =>
    rw [if_pos ⟨hfits, rfl⟩]
    rfl

/-- The path of a request that was read has room, so the request goes on to the filter. -/
theorem request_fits (hhome : settings.homedir.str.strlen ≤ 4095)
    (hs : Schedule (inputSize settings.homedir.str) stream outcomes)
    (hread : readRequest (List.replicate (inputSize settings.homedir.str) NUL)
      (inputSize settings.homedir.str) outcomes = some (check, buf))
    (hcheck : check ≠ -1) :
    settings.homedir.str.strlen < maxRequestLen ∧
      settings.homedir.str.strlen + (CStr.ofBuffer buf).strlen + 1 ≤ pathMax ∧
      ∀ disk stack, managementFunction disk stack settings outcomes =
        if checkSecurityPath (pathFile settings.homedir.str (CStr.ofBuffer buf)) then .ok (some .closed)
        else do
          let reply ← respond disk stack settings (pathFile settings.homedir.str (CStr.ofBuffer buf))
            (CStr.ofBuffer buf)
          return some reply := by
  obtain ⟨k, -, hroom, -, rfl⟩ := readRequest_returned hs hread hcheck
  have hfits := strlen_pathFile_le stream hroom
  exact ⟨Nat.lt_succ_of_le hhome, hfits, managementFunction_of_read hhome hread hcheck hfits⟩

/-- The settings of the witnesses, with `/srv/` for the home directory. -/
def plainSettings : Settings where
  port := 7070
  socket := 3
  mode := 116
  homedir := ⟨bytes "/srv/" ++ List.replicate 4091 NUL, by decide +kernel⟩
  hostname := .zero _

theorem schedule_readme : Schedule (inputSize plainSettings.homedir.str) (bytes "readme\r\n")
    [.data 114 (bytes "eadme\r\n")] := by
  have hsplit : bytes "readme\r\n" = 114 :: bytes "eadme\r\n" ++ [] := by decide
  rw [hsplit]
  exact .data (by decide +kernel) .waiting

theorem readRequest_readme :
    readRequest (List.replicate (inputSize plainSettings.homedir.str) NUL)
        (inputSize plainSettings.homedir.str) [.data 114 (bytes "eadme\r\n")] =
      some (7, bytes "readme" ++ [NUL]) := by
  decide +kernel

theorem request_fits_readme :
    plainSettings.homedir.str.strlen + (CStr.ofBuffer (bytes "readme" ++ [NUL])).strlen + 1 ≤ pathMax :=
  (request_fits (by decide +kernel) schedule_readme readRequest_readme (by decide)).2.1

/-! ### The line of an error -/

/-- The reply to a path of type `3` fills its array, and a client reads two lines: the selector behind
`3` and a TAB, and the dot. Behind the CR LF of the dot there is nothing. -/
theorem errorReply_two_lines (disk : Disk) (stack : (n : Nat) → CharArray n)
    (hs : Schedule (inputSize settings.homedir.str) stream outcomes)
    (hread : readRequest (List.replicate (inputSize settings.homedir.str) NUL)
      (inputSize settings.homedir.str) outcomes = some (check, buf))
    (hcheck : check ≠ -1)
    (hpass : checkSecurityPath (pathFile settings.homedir.str (CStr.ofBuffer buf)) = false)
    (htype : disk.typeOf (pathFile settings.homedir.str (CStr.ofBuffer buf)) = .ok .error) :
    ∃ k reply, FirstCrlf stream k ∧
      managementFunction disk stack settings outcomes = .ok (some (.text reply)) ∧
      errorReply stack (CStr.ofBuffer buf) = .ok reply ∧
      reply.strlen + 1 = (CStr.ofBuffer buf).strlen + 8 ∧
      Split.splitPair CR LF reply.chars =
        [bytes "3\t" ++ (stream.take k).takeWhile (· != NUL), bytes ".", []] := by
  obtain ⟨k, hk, hroom, -, rfl⟩ := readRequest_returned hs hread hcheck
  have hhome : settings.homedir.str.strlen ≤ 4095 := by
    rw [inputSize, maxRequestLen] at hroom
    omega
  have hanswer := managementFunction_of_read hhome hread hcheck (strlen_pathFile_le stream hroom)
  set input := CStr.ofBuffer (stream.take k ++ [NUL]) with hinput
  refine ⟨k, CStr.lit "3\t" ++ input ++ CStr.lit "\r\n.\r\n", hk, ?_, errorReply_eq stack input, ?_, ?_⟩
  · rw [hanswer disk stack, hpass, if_neg Bool.false_ne_true, respond, htype, ok_bind,
      if_neg (by decide), if_pos rfl, errorReply_eq]
    rfl
  · rw [CStr.strlen_append, CStr.strlen_append]
    change 2 + _ + 5 + 1 = _
    omega
  · have hlines : (CStr.lit "3\t" ++ input ++ CStr.lit "\r\n.\r\n").chars =
        [bytes "3\t" ++ input.chars, bytes "."].flatMap (· ++ [CR, LF]) := by
      simp only [CStr.chars_append, List.flatMap_cons, List.flatMap_nil, List.append_assoc]
      rfl
    have hplain : ∀ l ∈ [bytes "3\t" ++ input.chars, bytes "."], ¬ [CR, LF] <:+: l := by
      refine List.forall_mem_cons.mpr ⟨fun h => ?_, List.forall_mem_singleton.mpr (by decide)⟩
      rcases Split.pair_infix_append_iff.mp h with h | h | ⟨h, -⟩
      · exact absurd h (by decide)
      · exact selector_no_crlf hk h
      · exact absurd h (by decide)
    rw [hlines, Split.splitPair_lines (by decide) hplain, hinput, chars_selector]
    rfl

/-- Every path is of type `3`. -/
def modelDisk : Disk :=
  ⟨fun _ => .output (bytes "model/vrml; charset=us-ascii\n"), fun _ => .zero 64, fun _ => none⟩

theorem errorReply_two_lines_model :
    ∃ reply, managementFunction modelDisk CharArray.zero plainSettings
        [.data 114 (bytes "eadme\r\n")] = .ok (some (.text reply)) ∧ reply.strlen + 1 = 14 := by
  obtain ⟨-, reply, -, hreply, -, hlength, -⟩ := errorReply_two_lines modelDisk CharArray.zero
    schedule_readme readRequest_readme (by decide) (by decide +kernel) (by decide +kernel)
  exact ⟨reply, hreply, hlength⟩

end Sacagawea
