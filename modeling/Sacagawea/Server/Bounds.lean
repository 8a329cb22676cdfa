import Sacagawea.Server.Stored

/-!
# The indices of the configuration code

The indices are `strlen` minus or plus one. They stay in their arrays unless the working directory
takes all the room `getcwd` has, or a string that `fgets` has read is empty, which it is when it starts
with a NUL byte. In front of such a string a line may have ended the program.
-/

namespace Sacagawea

/-- The line ends the program: its directory cannot be opened, or its port is 0. -/
def Ends (opendir : CStr → Bool) (calledFromHandler : Bool) (line : CStr) : Prop :=
  (calledFromHandler = false ∧ (doRegex homedirPattern line).chars ≠ [] ∧
    opendir (doRegex homedirPattern line) = false) ∨ namedPort line = some 0

theorem checkIfPortChange_ends (line : CStr) (settings : Settings) :
    namedPort line = some 0 ∧ checkIfPortChange line settings = .error (.exit 1) ∨
      namedPort line ≠ some 0 ∧ ∃ result, checkIfPortChange line settings = .ok result ∧
        result.1.homedir = settings.homedir := by
  rw [checkIfPortChange_eq]
  cases namedPort line with
  | none => exact .inr ⟨(Option.some_ne_none 0).symm, _, rfl, rfl⟩
  | some val =>
    by_cases hzero : val = 0
    · exact .inl ⟨congrArg some hzero, if_pos hzero⟩
    · refine .inr ⟨fun h => hzero (Option.some.inj h), ?_⟩
      by_cases hchange : (val : Int) ≠ settings.port ∧ val < 65536
      · exact ⟨_, (if_neg hzero).trans (if_pos hchange), rfl⟩
      · exact ⟨_, (if_neg hzero).trans (if_neg hchange), rfl⟩

section

variable (opendir : CStr → Bool) (calledFromHandler : Bool)

/-- The port of a line ends the program, or the home directory is the same behind it. -/
theorem readLine_handler_kept (line : CStr) {settings : Settings} (h : KeptHomedir settings.homedir)
    (portChange : Bool) :
    namedPort line = some 0 ∧ readLine opendir true line settings portChange = .error (.exit 1) ∨
      namedPort line ≠ some 0 ∧ ∃ result, readLine opendir true line settings portChange = .ok result ∧
        KeptHomedir result.1.homedir := by
  have hread : readLine opendir true line settings portChange = (do
      let result ← checkIfPortChange line settings
      .ok (result.1, portChange || result.2)) := rfl
  rw [hread]
  rcases checkIfPortChange_ends line settings with ⟨hzero, herror⟩ | ⟨hzero, result, hok, hsame⟩
  · exact .inl ⟨hzero, by rw [herror, error_bind]⟩
  · exact .inr ⟨hzero, (result.1, portChange || result.2), by rw [hok, ok_bind], hsame ▸ h⟩

/-- A line ends the program, or it leaves the home directory as it should be. -/
theorem readLine_kept (line : CStr) {settings : Settings} (h : KeptHomedir settings.homedir)
    (portChange : Bool) :
    Ends opendir calledFromHandler line ∧
        readLine opendir calledFromHandler line settings portChange = .error (.exit 1) ∨
      ¬ Ends opendir calledFromHandler line ∧
        ∃ result, readLine opendir calledFromHandler line settings portChange = .ok result ∧
          KeptHomedir result.1.homedir := by
  cases calledFromHandler with
  | true =>
    rcases readLine_handler_kept opendir line h portChange with
      ⟨hzero, herror⟩ | ⟨hzero, hok⟩
    · exact .inl ⟨.inr hzero, herror⟩
    · exact .inr ⟨fun hends => hends.elim (fun hno => Bool.noConfusion hno.1) hzero, hok⟩
  | false =>
    have hread : readLine opendir false line settings portChange = (do
        let settings ← readConfLine opendir line settings
        readLine opendir true line settings portChange) := rfl
    rw [hread]
    rcases readConfLine_kept opendir line h with
      ⟨hclosed, herror⟩ | ⟨hopen, settings', hconf, hkept⟩
    · exact .inl ⟨.inl ⟨rfl, hclosed⟩, by rw [herror, error_bind]⟩
    · rw [hconf, ok_bind]
      rcases readLine_handler_kept opendir line hkept portChange with
        ⟨hzero, herror⟩ | ⟨hzero, hok⟩
      · exact .inl ⟨.inr hzero, herror⟩
      · exact .inr ⟨fun hends => hends.elim (fun hno => hopen hno.2) hzero, hok⟩

theorem exists_first_cons_iff {α : Type} {p q : α → Prop} {a : α} {l : List α} :
    (∃ front x back, a :: l = front ++ x :: back ∧ p x ∧ ∀ y ∈ front, ¬ q y) ↔
      p a ∨ ¬ q a ∧ ∃ front x back, l = front ++ x :: back ∧ p x ∧ ∀ y ∈ front, ¬ q y := by
  constructor
  · rintro ⟨_ | ⟨b, front⟩, x, back, hsplit, hx, hfront⟩
    · obtain ⟨rfl, -⟩ := List.cons.inj hsplit
      exact .inl hx
    · obtain ⟨rfl, rfl⟩ := List.cons.inj hsplit
      obtain ⟨ha, hfront⟩ := List.forall_mem_cons.mp hfront
      exact .inr ⟨ha, front, x, back, rfl, hx, hfront⟩
  · rintro (ha | ⟨ha, front, x, back, rfl, hx, hfront⟩)
    · exact ⟨[], a, l, rfl, ha, List.forall_mem_nil _⟩
    · exact ⟨a :: front, x, back, rfl, hx, List.forall_mem_cons.mpr ⟨ha, hfront⟩⟩

/-- The loop leaves its array at the first empty string, unless it has been left before. -/
theorem foldlM_confStep_undefined_iff {strs : List CStr} {result : Settings × Bool}
    (h : KeptHomedir result.1.homedir) :
    strs.foldlM (confStep opendir calledFromHandler) result = .error .undefined ↔
      ∃ front str back, strs = front ++ str :: back ∧ str.chars = [] ∧
        ∀ s ∈ front, ¬ Ends opendir calledFromHandler (chomp s) := by
  induction strs generalizing result with
  | nil =>
    refine iff_of_false (by simp [pure, Except.pure]) ?_
    rintro ⟨front, str, back, hsplit, -⟩
    exact List.append_ne_nil_of_right_ne_nil front (List.cons_ne_nil _ _) hsplit.symm
  | cons str strs ih =>
    rw [exists_first_cons_iff (p := fun str : CStr => str.chars = [])
      (q := fun s => Ends opendir calledFromHandler (chomp s)), List.foldlM_cons, confStep]
    by_cases hnil : str.chars = []
    · rw [if_pos hnil, error_bind]
      exact iff_of_true rfl (.inl hnil)
    rw [if_neg hnil]
    rcases readLine_kept opendir calledFromHandler (chomp str) h result.2 with
      ⟨hends, herror⟩ | ⟨hends, result', hok, hkept⟩
    · rw [herror, error_bind]
      exact iff_of_false (by simp) fun hor => hor.elim hnil fun hno => hno.1 hends
    · rw [hok, ok_bind, ih hkept, or_iff_right hnil, and_iff_right hends]

end

/-- `main` sets up the home directory and reads the configuration inside of its arrays exactly when
the working directory leaves room for a slash and a NUL, and no string of the file is empty unless a
line in front of it ends the program. -/
theorem config_inBounds_iff (cwd : CStr) (opendir : CStr → Bool) (fp : ConfStream)
    (line : CharArray 512) (port socket : Int) (mode : Byte) (name : CharArray 256)
    (calledFromHandler : Bool) :
    (do
      let homedir ← defaultHomedir (some cwd)
      readAndCheckConf opendir (some fp) line ⟨port, socket, mode, homedir, name⟩
        calledFromHandler) ≠ .error .undefined ↔
      cwd.strlen ≤ 4093 ∧ ∀ front str back, fp.strings = front ++ str :: back → str.chars = [] →
        ∃ s ∈ front, Ends opendir calledFromHandler (chomp s) := by
  rcases defaultHomedir_cases cwd with ⟨hroom, homedir, hok, hkept⟩ | ⟨hlong, herror⟩
  · rw [and_iff_right hroom, hok, ok_bind, readAndCheckConf, readLines_eq _ _ (Nat.lt_succ_self _)]
    rw [← not_iff_not, not_not]
    have hbroken : (do
        let result ← fp.strings.foldlM (confStep opendir calledFromHandler)
          (⟨port, socket, mode, homedir, name⟩, false)
        if fp.broken then .error (.exit 5) else .ok result) = Except.error Stop.undefined ↔
        fp.strings.foldlM (confStep opendir calledFromHandler)
          (⟨port, socket, mode, homedir, name⟩, false) = .error .undefined := by
      cases fp.strings.foldlM (confStep opendir calledFromHandler)
        (⟨port, socket, mode, homedir, name⟩, false) with
      | error stop => rfl
      | ok result =>
        rw [ok_bind]
        cases fp.broken <;> exact iff_of_false (by simp) (by simp)
    rw [hbroken, foldlM_confStep_undefined_iff opendir calledFromHandler hkept]
    push Not
    rfl
  · rw [herror, error_bind]
    exact iff_of_false (fun hno => hno rfl) fun h => Nat.not_le_of_lt hlong h.1

/-- The longest directory `getcwd` has room for. -/
def longestCwd : CStr := ⟨slash :: List.replicate 4093 97, by decide +kernel⟩

/-- Behind this directory the NUL is written to `homedir[4096]`, and in a file that starts with a NUL
the source looks for the newline in front of the array. -/
theorem config_leaves_arrays :
    longestCwd.strlen = 4094 ∧ defaultHomedir (some longestCwd) = .error .undefined ∧
      (do
        let homedir ← defaultHomedir (some (CStr.lit "/srv"))
        readAndCheckConf (fun _ => true) (some ⟨[NUL, LF], false⟩) (.zero 512)
          ⟨7070, 0, 116, homedir, .zero 256⟩ false) = .error .undefined := by
  have hlength : longestCwd.strlen = 4094 := by
    change (List.replicate 4093 (97 : Byte)).length + 1 = 4094
    rw [List.length_replicate]
  refine ⟨hlength, ?_, by decide +kernel⟩
  rcases defaultHomedir_cases longestCwd with ⟨hroom, -⟩ | ⟨-, herror⟩
  · rw [hlength] at hroom
    exact absurd hroom (by decide)
  · exact herror

end Sacagawea
