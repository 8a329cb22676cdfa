import Sacagawea.Server.Main

/-!
# What a reading of the configuration reports

`read_and_check_conf` adds up the changes of its lines, and each line is compared with the port as the
lines before it left it. A file that names two ports reports a change each time it is read, also when
the port it ends with is the one before, and `universal_handler` then gives up a socket that listens
on the right port already.
-/

namespace Sacagawea

/-- The numbers the lines of a file name. -/
def filePorts (fopen : Option ConfStream) : List Nat :=
  namedPorts ((fopen.map ConfStream.strings).getD [])

/-- The file names one port at most, however often. -/
def OnePort (ports : List Nat) : Prop := ∀ a ∈ ports, ∀ b ∈ ports, a < 65536 → b < 65536 → a = b

instance (ports : List Nat) : Decidable (OnePort ports) :=
  inferInstanceAs (Decidable (∀ a ∈ ports, ∀ b ∈ ports, a < 65536 → b < 65536 → a = b))

/-! ### The lines of a file -/

theorem movesPort_append_iff (port : Int) (ports ports' : List Nat) :
    MovesPort port (ports ++ ports') ↔
      MovesPort port ports ∨ MovesPort (lastPort port ports) ports' := by
  by_cases hmoves : MovesPort port ports
  · obtain ⟨val, hval, hport⟩ := hmoves
    exact iff_of_true ⟨val, List.mem_append_left _ hval, hport⟩ (.inl ⟨val, hval, hport⟩)
  · rw [lastPort_of_not_movesPort hmoves]
    simp only [MovesPort, List.mem_append, or_and_right, exists_or]

/-- What the lines read so far have done to the port and to the flag. -/
structure Reported (port : Int) (ports : List Nat) (before : Bool) (result : Settings × Bool) : Prop where
  nonzero : 0 ∉ ports
  final : result.1.port = lastPort port ports
  change : result.2 = (before || decide (MovesPort port ports))

theorem readLine_reported {opendir : CStr → Bool} {calledFromHandler : Bool} {line : CStr}
    {settings : Settings} {portChange : Bool} {result : Settings × Bool}
    (h : readLine opendir calledFromHandler line settings portChange = .ok result) :
    Reported settings.port (namedPort line).toList portChange result := by
  obtain ⟨settings₁, flag⟩ := result
  obtain ⟨settings₀, change, hread, hcheck, rfl⟩ := readLine_cases h
  have hsame : settings₀.port = settings.port := by
    rcases hread with ⟨-, rfl⟩ | ⟨-, hconf⟩
    · rfl
    · exact readConfLine_port hconf
  rw [checkIfPortChange_eq, hsame] at hcheck
  cases hport : namedPort line with
  | none =>
    rw [hport] at hcheck
    cases hcheck
    exact ⟨List.not_mem_nil, hsame, rfl⟩
  | some val =>
    rw [hport] at hcheck
    simp only at hcheck
    rw [Option.toList_some]
    split_ifs at hcheck with hzero hchange
    · cases hcheck
      have hmoves : MovesPort settings.port [val] := (movesPort_cons ..).mpr (.inl ⟨hchange.2, hchange.1⟩)
      refine ⟨by simpa using Ne.symm hzero, ?_, by rw [decide_eq_true hmoves]⟩
      rw [lastPort_cons, if_pos hchange.2]
      rfl
    · cases hcheck
      have hstays : ¬ MovesPort settings.port [val] := by
        rw [movesPort_cons]
        rintro (hmoves | ⟨_, hmem, -⟩)
        · exact hchange ⟨hmoves.2, hmoves.1⟩
        · exact absurd hmem List.not_mem_nil
      refine ⟨by simpa using Ne.symm hzero, ?_, by rw [decide_eq_false hstays]⟩
      rw [lastPort_of_not_movesPort hstays, hsame]

theorem Reported.append {port : Int} {ports ports' : List Nat} {before : Bool}
    {result result' : Settings × Bool} (h : Reported port ports before result)
    (h' : Reported result.1.port ports' result.2 result') :
    Reported port (ports ++ ports') before result' where
  nonzero := List.not_mem_append h.nonzero h'.nonzero
  final := by rw [h'.final, h.final, lastPort_append]
  change := by
    rw [h'.change, h.change, h.final, Bool.or_assoc]
    congr 1
    rw [Bool.eq_iff_iff, Bool.or_eq_true, decide_eq_true_iff, decide_eq_true_iff, decide_eq_true_iff,
      movesPort_append_iff]

/-- The lines of a file report what their ports do one after the other. -/
theorem foldlM_confStep_reported {opendir : CStr → Bool} {calledFromHandler : Bool} {strs : List CStr}
    {result result' : Settings × Bool}
    (h : strs.foldlM (confStep opendir calledFromHandler) result = .ok result') :
    (∀ str ∈ strs, str.chars ≠ []) ∧ Reported result.1.port (namedPorts strs) result.2 result' := by
  induction strs generalizing result with
  | nil =>
    cases h
    exact ⟨nofun, List.not_mem_nil, rfl, (Bool.or_false _).symm⟩
  | cons str strs ih =>
    rw [List.foldlM_cons] at h
    obtain ⟨mid, hstep, hrest⟩ := bind_eq_ok_iff.mp h
    rw [confStep] at hstep
    split_ifs at hstep with hstr
    obtain ⟨hstrs, hreported⟩ := ih hrest
    rw [namedPorts_cons]
    exact ⟨List.forall_mem_cons.mpr ⟨hstr, hstrs⟩, (readLine_reported hstep).append hreported⟩

/-- What a reading that returns has read, and that it reports. -/
theorem readAndCheckConf_reported {opendir : CStr → Bool} {fopen : Option ConfStream}
    {line : CharArray 512} {settings : Settings} {calledFromHandler : Bool} {result : Settings × Bool}
    (h : readAndCheckConf opendir fopen line settings calledFromHandler = .ok result) :
    (∃ fp, fopen = some fp ∧ fp.broken = false ∧ ∀ str ∈ fp.strings, str.chars ≠ []) ∧
      Reported settings.port (filePorts fopen) false result := by
  cases fopen with
  | none => cases h
  | some fp =>
    rw [readAndCheckConf, readLines_eq _ _ (Nat.lt_succ_self _)] at h
    obtain ⟨last, hfold, h⟩ := bind_eq_ok_iff.mp h
    split_ifs at h with hbroken
    obtain rfl := Except.ok.inj h
    obtain ⟨hstrs, hreported⟩ := foldlM_confStep_reported hfold
    exact ⟨⟨fp, rfl, Bool.eq_false_iff.mpr hbroken, hstrs⟩, hreported⟩

/-! ### Reading the file again -/

/-- Read again, a file reports no change exactly when it names one port at most. -/
theorem not_movesPort_lastPort_iff (port : Int) {ports : List Nat} (hzero : 0 ∉ ports) :
    ¬ MovesPort (lastPort port ports) ports ↔ OnePort ports := by
  constructor
  · intro hstays a ha b hb hlta hltb
    have hlast : ∀ val ∈ ports, val < 65536 → (val : Int) = lastPort port ports :=
      fun val hval hlt => not_not.mp fun hne => hstays ⟨val, hval, hlt, hne⟩
    exact Int.ofNat.inj ((hlast a ha hlta).trans (hlast b hb hltb).symm)
  · intro hone hmoves
    have hagain := hmoves
    obtain ⟨val, hval, hlt, hne⟩ := hmoves
    by_cases hfirst : MovesPort port ports
    · obtain ⟨last, hmem, hlast, -, hltLast⟩ := lastPort_of_movesPort hzero hfirst
      exact hne (by rw [hlast, hone val hval last hmem hlt hltLast])
    · rw [lastPort_of_not_movesPort hfirst] at hagain
      exact hfirst hagain

theorem movesPort_iff_of_onePort {port : Int} {ports : List Nat} (hzero : 0 ∉ ports) (h : OnePort ports) :
    MovesPort port ports ↔ lastPort port ports ≠ port := by
  constructor
  · intro hmoves
    obtain ⟨last, hmem, hlast, -, hltLast⟩ := lastPort_of_movesPort hzero hmoves
    obtain ⟨val, hval, hlt, hne⟩ := hmoves
    rw [hlast, ← h val hval last hmem hlt hltLast]
    exact hne
  · intro hne
    exact by_contra fun hstays => hne (lastPort_of_not_movesPort hstays)

theorem readAndCheckConf_again {opendir : CStr → Bool} {fp : ConfStream} (hbroken : fp.broken = false)
    (hstrs : ∀ str ∈ fp.strings, str.chars ≠ []) (hzero : 0 ∉ filePorts (some fp))
    (line : CharArray 512) (settings : Settings) :
    readAndCheckConf opendir (some fp) line settings true =
      .ok ({ settings with port := lastPort settings.port (filePorts (some fp)) },
        decide (MovesPort settings.port (filePorts (some fp)))) := by
  have hports : filePorts (some fp) = namedPorts fp.strings := rfl
  rw [hports] at hzero ⊢
  rw [readAndCheckConf, readLines_eq _ _ (Nat.lt_succ_self _), foldlM_confStep_handler _ hstrs,
    if_neg hzero, ok_bind, hbroken]
  rfl

/-- A reading reports a change exactly when there is one, and reading the same file again reports none
and leaves the server alone, exactly when the file names one port at most. -/
theorem change_reported_iff {opendir : CStr → Bool} {fopen : Option ConfStream} {line : CharArray 512}
    {settings settings' : Settings} {calledFromHandler change : Bool}
    (h : readAndCheckConf opendir fopen line settings calledFromHandler = .ok (settings', change)) :
    ((change = true ↔ settings'.port ≠ settings.port) ∧
        (∀ opendir line calledFromHandler again change',
          readAndCheckConf opendir fopen line settings' calledFromHandler = .ok (again, change') →
            change' = false) ∧
        ∀ (calls : Outcomes) (line : CharArray 512) (s : ServerProcess), calls.fopen = fopen →
          s.settings = settings' → universalHandler calls line s = .ok s) ↔
      OnePort (filePorts fopen) := by
  obtain ⟨⟨fp, rfl, hbroken, hstrs⟩, hzero, hport, hchange⟩ := readAndCheckConf_reported h
  simp only [Bool.false_or] at hport hchange
  constructor
  · rintro ⟨-, hagain, -⟩
    have hread := @readAndCheckConf_again opendir fp hbroken hstrs hzero line settings'
    have hstays := hagain opendir line true _ _ hread
    rw [decide_eq_false_iff_not, hport] at hstays
    exact (not_movesPort_lastPort_iff settings.port hzero).mp hstays
  · intro hone
    have hstays : ¬ MovesPort settings'.port (filePorts (some fp)) := by
      rw [hport]
      exact (not_movesPort_lastPort_iff settings.port hzero).mpr hone
    refine ⟨?_, ?_, ?_⟩
    · rw [hchange, decide_eq_true_iff, hport]
      exact movesPort_iff_of_onePort hzero hone
    · intro opendir line calledFromHandler again change' hread
      have hreported := (readAndCheckConf_reported hread).2.change
      rw [decide_eq_false hstays] at hreported
      exact hreported
    · intro calls line s hfopen hsettings
      rw [universalHandler, hfopen, readAndCheckConf_again hbroken hstrs hzero, ok_bind]
      subst hsettings
      simp only [hstays, decide_false, lastPort_of_not_movesPort hstays]
      rfl

/-- A file with two ports, the second of which is in force: a change is reported at each reading. -/
theorem change_reported_without_change :
    (readAndCheckConf (fun _ => true) (some ⟨bytes "port 80\nport 7070\n", false⟩) (.zero 512)
        onPort7070.settings true).map (fun result => (result.1.port, result.2)) = .ok (7070, true) := by
  decide +kernel

theorem change_reported_port80 :
    ∃ settings', readAndCheckConf (fun _ => true) (some ⟨bytes "port 80\n", false⟩) (.zero 512)
        onPort7070.settings true = .ok (settings', true) ∧
      settings'.port ≠ onPort7070.settings.port := by
  have hread := @readAndCheckConf_again (fun _ => true) ⟨bytes "port 80\n", false⟩ rfl
    (by decide) (by decide) (.zero 512) onPort7070.settings
  exact ⟨_, hread, ((change_reported_iff hread).mpr (by decide)).1.mp rfl⟩

end Sacagawea
