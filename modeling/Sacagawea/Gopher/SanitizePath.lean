import Sacagawea.Base.Settings
import Sacagawea.Lib.Shell

/-!
# The command that probes a file

`type_path` hands the path, which the client chose, to a shell: it runs `file -bi '...'` with what
`sanitize_path` makes of the path between the quotes. `sanitize_path` counts the quotes to size its
result and then writes the result byte by byte. The sizes are `int`s in the source; they are natural
numbers here, since a path is bounded by `PATH_MAX` and a file name (`sanitizePath_size_lt`).
-/

namespace Sacagawea

/-! ### The code -/

/-- The first loop of `sanitize_path`. -/
def countQuotes (input : CStr) : Nat :=
  input.chars.foldl (fun count c => count + if c = quote then 1 else 0) 0

/-- The four writes for a quote. -/
def putQuote {n : Nat} (ret : CharArray n) (retIndex : Nat) : Except Stop (CharArray n) := do
  let ret ← ret.put (retIndex + 0) quote
  let ret ← ret.put (retIndex + 1) backslash
  let ret ← ret.put (retIndex + 2) quote
  ret.put (retIndex + 3) quote

/-- The second loop of `sanitize_path`, over the bytes still to copy. -/
def sanitizeLoop {n : Nat} : (input : List Byte) → (ret : CharArray n) → (retIndex : Nat) →
    Except Stop (CharArray n)
  | [], ret, _ => .ok ret
  | c :: input, ret, retIndex =>
    if c = quote then do
      let ret ← putQuote ret retIndex
      sanitizeLoop input ret (retIndex + 4)
    else do
      let ret ← ret.put retIndex c
      sanitizeLoop input ret (retIndex + 1)

def sanitizedSize (input : CStr) : Nat := input.strlen + countQuotes input * 3 + 1

def sanitizePath (input : CStr) : Except Stop (CharArray (sanitizedSize input)) :=
  sanitizeLoop input.chars (.zero _) 0

/-- The command `type_path` gives to `popen`. The array it is built in is on the stack, with `stack`
in it. -/
def typeCommand (stack : (n : Nat) → CharArray n) (path : CStr) : Except Stop CStr := do
  let sanitized ← sanitizePath path
  let command ← (stack (sanitized.str.strlen + 12)).strcpy (CStr.lit "file -bi '")
  let command ← command.strcat sanitized.str
  let command ← command.strcat (CStr.lit "'")
  return command.str

/-! ### What it computes -/

theorem countQuotes_eq (input : CStr) : countQuotes input = input.chars.count Shell.singleQuote := by
  have hfold : ∀ (l : List Byte) (n : Nat),
      l.foldl (fun count c => count + if c = quote then 1 else 0) n = n + l.count quote := by
    intro l
    induction l with
    | nil => simp
    | cons c l ih =>
      intro n
      rw [List.foldl_cons, ih, List.count_cons]
      by_cases hc : c = quote
      · simp [hc]
        omega
      · simp [hc]
  rw [countQuotes, hfold, Nat.zero_add]
  rfl

def Filled {n : Nat} (a : CharArray n) (text : List Byte) : Prop :=
  a.cells = text ++ List.replicate (n - text.length) NUL

theorem Filled.put {n : Nat} {a : CharArray n} {text : List Byte} (h : Filled a text)
    (hroom : text.length < n) (c : Byte) :
    ∃ b, a.put text.length c = .ok b ∧ Filled b (text ++ [c]) := by
  refine ⟨_, if_pos hroom, ?_⟩
  obtain ⟨m, hm⟩ : ∃ m, n - text.length = m + 1 := ⟨n - text.length - 1, by omega⟩
  have hrest : n - (text ++ [c]).length = m := by
    rw [List.length_append, List.length_singleton]
    omega
  change a.cells.set text.length c = _
  rw [hrest, h, hm, List.replicate_succ, List.set_append_right _ _ le_rfl, Nat.sub_self,
    List.set_cons_zero, List.append_assoc, List.singleton_append]

theorem Filled.putQuote {n : Nat} {a : CharArray n} {text : List Byte} (h : Filled a text)
    (hroom : text.length + 4 ≤ n) :
    ∃ b, putQuote a text.length = .ok b ∧ Filled b (text ++ Shell.escapeQuote) := by
  obtain ⟨a₀, h₀, f₀⟩ := h.put (by omega) quote
  obtain ⟨a₁, h₁, f₁⟩ := f₀.put (by simp; omega) backslash
  obtain ⟨a₂, h₂, f₂⟩ := f₁.put (by simp; omega) quote
  obtain ⟨a₃, h₃, f₃⟩ := f₂.put (by simp; omega) quote
  simp only [List.length_append, List.length_singleton] at h₁ h₂ h₃
  have hfilled : Filled a₃ (text ++ [quote, backslash, quote, quote]) := by simpa using f₃
  refine ⟨a₃, ?_, hfilled⟩
  simp only [Sacagawea.putQuote, Nat.add_zero, h₀, h₁, h₂, h₃, bind, Except.bind]

theorem sanitizeLoop_spec {n : Nat} (input : List Byte) {ret : CharArray n} {text : List Byte}
    (h : Filled ret text) (hroom : text.length + (Shell.escape input).length ≤ n) :
    ∃ b, sanitizeLoop input ret text.length = .ok b ∧ Filled b (text ++ Shell.escape input) := by
  induction input generalizing ret text with
  | nil => exact ⟨ret, rfl, by simpa [Shell.escape] using h⟩
  | cons c input ih =>
    have hescape : Shell.escape (c :: input) =
        (if c = quote then Shell.escapeQuote else [c]) ++ Shell.escape input := List.flatMap_cons
    rw [hescape, List.length_append] at hroom
    by_cases hc : c = quote
    · rw [if_pos hc] at hescape hroom
      have hlen : (text ++ Shell.escapeQuote).length = text.length + 4 := by
        simp [Shell.escapeQuote]
      obtain ⟨mid, hput, hmid⟩ := h.putQuote (by simp [Shell.escapeQuote] at hroom; omega)
      obtain ⟨b, hb, hfilled⟩ := ih hmid (by simp [Shell.escapeQuote] at hroom ⊢; omega)
      rw [hlen] at hb
      refine ⟨b, ?_, by rwa [hescape, ← List.append_assoc]⟩
      simp only [sanitizeLoop, if_pos hc, hput, bind, Except.bind, hb]
    · rw [if_neg hc] at hescape hroom
      obtain ⟨mid, hput, hmid⟩ := h.put (by simp at hroom; omega) c
      obtain ⟨b, hb, hfilled⟩ := ih hmid (by simp at hroom ⊢; omega)
      rw [List.length_append, List.length_singleton] at hb
      refine ⟨b, ?_, by rwa [hescape, ← List.append_assoc]⟩
      simp only [sanitizeLoop, if_neg hc, hput, bind, Except.bind, hb]

theorem noNul_escape (path : CStr) : NUL ∉ Shell.escape path.chars := by
  intro h
  rcases Shell.mem_escape h with h | h | h
  · exact path.noNul h
  · exact absurd h (by decide)
  · exact absurd h (by decide)

theorem sanitizedSize_eq (path : CStr) : sanitizedSize path = (Shell.escape path.chars).length + 1 := by
  rw [sanitizedSize, countQuotes_eq, Shell.length_escape, CStr.strlen, Nat.mul_comm]

/-- `sanitize_path` escapes the path, and with its NUL the result fills what was allocated. -/
theorem sanitizePath_spec (path : CStr) :
    ∃ ret, sanitizePath path = .ok ret ∧ ret.str.chars = Shell.escape path.chars ∧
      ret.str.strlen + 1 = sanitizedSize path := by
  have hsize := sanitizedSize_eq path
  have hzero : Filled (.zero (sanitizedSize path)) [] := by simp [Filled, CharArray.zero]
  obtain ⟨ret, hret, hfilled⟩ := sanitizeLoop_spec path.chars hzero (by simp; omega)
  have hstr : ret.str = ⟨Shell.escape path.chars, noNul_escape path⟩ := by
    have hone : sanitizedSize path - (Shell.escape path.chars).length = 1 := by omega
    rw [Filled, List.nil_append, hone] at hfilled
    rw [CharArray.str, hfilled]
    exact CStr.ofBuffer_terminated ⟨_, noNul_escape path⟩ []
  exact ⟨ret, hret, by rw [hstr], by rw [hstr, hsize]; rfl⟩

/-- On the paths the server forms, the sizes stay in the range of an `int`. -/
theorem sanitizePath_size_lt {path : CStr} (h : path.strlen ≤ pathMax + maxFileName + 1) :
    sanitizedSize path + 12 < 2 ^ 31 := by
  have hcount : countQuotes path ≤ path.strlen := by
    rw [countQuotes_eq]
    exact List.count_le_length
  simp only [sanitizedSize, pathMax, maxFileName] at *
  omega

/-! ### What the shell reads -/

/-- The shell reads the command as the three words `file`, `-bi` and the path itself, and both
strings fit their arrays, whose sizes are in the range of an `int` for the paths the server forms. -/
theorem typeCommand_three_words (stack : (n : Nat) → CharArray n) (path : CStr) :
    ∃ ret command, sanitizePath path = .ok ret ∧
      ret.str.strlen + 1 ≤ path.strlen + 3 * path.chars.count quote + 1 ∧
      typeCommand stack path = .ok command ∧ command.strlen + 1 ≤ ret.str.strlen + 12 ∧
      Shell.simpleCommand command.chars = some [bytes "file", bytes "-bi", path.chars] ∧
      (path.strlen ≤ pathMax + maxFileName + 1 →
        sanitizedSize path < 2 ^ 31 ∧ ret.str.strlen + 12 < 2 ^ 31) := by
  obtain ⟨ret, hret, hchars, hsize⟩ := sanitizePath_spec path
  obtain ⟨c₀, hc₀, hs₀⟩ := (stack (ret.str.strlen + 12)).strcpy_spec (s := CStr.lit "file -bi '")
    (by change 10 + 1 ≤ _; omega)
  obtain ⟨c₁, hc₁, hs₁⟩ := c₀.strcpy_spec (s := CStr.lit "file -bi '" ++ ret.str)
    (by rw [CStr.strlen_append]; change 10 + _ + 1 ≤ _; omega)
  obtain ⟨c₂, hc₂, hs₂⟩ := c₁.strcpy_spec (s := CStr.lit "file -bi '" ++ ret.str ++ CStr.lit "'")
    (by rw [CStr.strlen_append, CStr.strlen_append]; change 10 + _ + 1 + 1 ≤ _; omega)
  refine ⟨ret, CStr.lit "file -bi '" ++ ret.str ++ CStr.lit "'", hret, ?_, ?_, ?_, ?_, fun hpath => ?_⟩
  · rw [hsize, sanitizedSize, countQuotes_eq, Nat.mul_comm]
    exact le_rfl
  · simp only [typeCommand, hret, hc₀, CharArray.strcat, hs₀, hc₁, hs₁, hc₂, hs₂, bind, Except.bind,
      pure, Except.pure]
  · rw [CStr.strlen_append, CStr.strlen_append]
    change 10 + _ + 1 + 1 ≤ _
    omega
  · have hline : (CStr.lit "file -bi '" ++ ret.str ++ CStr.lit "'").chars =
        bytes "file" ++ Shell.space :: (bytes "-bi" ++ Shell.space ::
          (Shell.quoteWord path.chars ++ [])) := by
      have hfront : (CStr.lit "file -bi '").chars =
          bytes "file" ++ Shell.space :: (bytes "-bi" ++ Shell.space :: [Shell.singleQuote]) := by
        decide
      have hback : (CStr.lit "'").chars = [Shell.singleQuote] := by decide
      simp only [CStr.chars_append, hchars, hfront, hback, Shell.quoteWord, List.append_assoc,
        List.cons_append, List.nil_append, List.append_nil]
    have hfile : ∀ c ∈ bytes "file", Shell.plain c = true := List.all_eq_true.mp (by decide)
    have hoption : ∀ c ∈ bytes "-bi", Shell.plain c = true := List.all_eq_true.mp (by decide)
    rw [hline, Shell.simpleCommand, Shell.read_plain hfile (by decide),
      Shell.read_plain hoption (by decide), Shell.read_quoteWord, Shell.read]
    exact if_neg (by decide)
  · have hlt := sanitizePath_size_lt hpath
    omega

end Sacagawea
