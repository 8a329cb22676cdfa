import Sacagawea.Gopher.Menu

/-!
# Answering a request

`management_function` of children.c: read the selector, build the path behind `homedir`, check it,
find the gopher type of what is there, and send the menu of a directory, the line of an error, or
the file. Both modes run it, in a thread or in a process of the connection.
-/

namespace Sacagawea

/-- What the server finds on the disk: what `file -bi` prints for a path, with what is on the stack
when its output is read, and the entries of a directory. -/
structure Disk where
  probe : CStr → Probe
  stack : CStr → CharArray 64
  folder : CStr → Option (List DirEntry)

def Disk.typeOf (disk : Disk) (path : CStr) : Except Stop GopherType :=
  typePath (disk.stack path) (disk.probe path)

/-- What the client gets: the connection closed, a text, or the file at a path. -/
inductive Reply where
  | closed
  | text (response : CStr)
  | file (path : CStr)
  deriving DecidableEq

/-! ### The code -/

def inputSize (homedir : CStr) : Nat := maxRequestLen - homedir.strlen

/-- The line of an error, in the array `temp`. -/
def errorReply (stack : (n : Nat) → CharArray n) (input : CStr) : Except Stop CStr := do
  let temp ← (stack (input.strlen + 8)).strcpy (CStr.lit "3\t")
  let temp ← temp.strcat input
  let temp ← temp.strcat (CStr.lit "\r\n.\r\n")
  return temp.str

/-- The dispatch on the type of the path. -/
def respond (disk : Disk) (stack : (n : Nat) → CharArray n) (settings : Settings)
    (path input : CStr) : Except Stop Reply := do
  let type ← disk.typeOf path
  if type = .directory then
    match ← sendContentOfDir disk.typeOf path input settings.hostname.str settings.port
        (disk.folder path) with
    | none => return .closed
    | some response => return .text response
  else if type = .error then
    return .text (← errorReply stack input)
  else
    return .file path

/-- What follows the reading of the selector. -/
def answer (disk : Disk) (stack : (n : Nat) → CharArray n) (settings : Settings) (input : CStr) :
    Except Stop Reply := do
  let path ← (CharArray.zero pathMax).strcpy settings.homedir.str
  if pathMax ≤ path.str.strlen + input.strlen then return .closed
  let path ← path.strcat input
  if checkSecurityPath path.str then return .closed
  respond disk stack settings path.str input

/-- `management_function`. There is no reply yet while `read_request` waits. -/
def managementFunction (disk : Disk) (stack : (n : Nat) → CharArray n) (settings : Settings)
    (outcomes : List Recv) : Except Stop (Option Reply) :=
  let buflen := inputSize settings.homedir.str
  match readRequest (List.replicate buflen NUL) buflen outcomes with
  | none => .ok none
  | some (check, input) =>
    if check = -1 then .ok (some .closed)
    else do
      let reply ← answer disk stack settings (CStr.ofBuffer input)
      return some reply

/-! ### What it does -/

theorem errorReply_eq (stack : (n : Nat) → CharArray n) (input : CStr) :
    errorReply stack input = .ok (CStr.lit "3\t" ++ input ++ CStr.lit "\r\n.\r\n") := by
  obtain ⟨t₀, h₀, s₀⟩ := (stack (input.strlen + 8)).strcpy_spec (s := CStr.lit "3\t")
    (by change 2 + 1 ≤ _; omega)
  obtain ⟨t₁, h₁, s₁⟩ := t₀.strcpy_spec (s := CStr.lit "3\t" ++ input)
    (by rw [CStr.strlen_append]; change 2 + _ + 1 ≤ _; omega)
  obtain ⟨t₂, h₂, s₂⟩ := t₁.strcpy_spec (s := CStr.lit "3\t" ++ input ++ CStr.lit "\r\n.\r\n")
    (by rw [CStr.strlen_append, CStr.strlen_append]; change 2 + _ + 5 + 1 ≤ _; omega)
  rw [errorReply, h₀, ok_bind, CharArray.strcat, s₀, h₁, ok_bind, CharArray.strcat, s₁, h₂, ok_bind,
    s₂]
  rfl

/-- The path is `homedir` with the selector behind it. A selector that makes it too long, or that
the filter finds something in, is not answered. -/
theorem answer_eq (disk : Disk) (stack : (n : Nat) → CharArray n) (settings : Settings) (input : CStr)
    (hhome : settings.homedir.str.strlen < pathMax) :
    answer disk stack settings input =
      if settings.homedir.str.strlen + input.strlen < pathMax ∧
          checkSecurityPath (pathFile settings.homedir.str input) = false then
        respond disk stack settings (pathFile settings.homedir.str input) input
      else .ok .closed := by
  obtain ⟨path, hpath, hstr⟩ := (CharArray.zero pathMax).strcpy_spec hhome
  rw [answer, hpath, ok_bind, hstr]
  by_cases hlen : settings.homedir.str.strlen + input.strlen < pathMax
  · obtain ⟨path', hpath', hstr'⟩ := path.strcpy_spec (s := settings.homedir.str ++ input)
      (by rw [CStr.strlen_append]; exact hlen)
    rw [if_neg (Nat.not_le_of_lt hlen), CharArray.strcat, hstr, hpath', ok_bind, hstr']
    cases hcheck : checkSecurityPath (settings.homedir.str ++ input) with
    | false =>
      rw [if_neg Bool.false_ne_true, if_pos ⟨hlen, hcheck⟩]
      rfl
    | true =>
      have hno : ¬ (settings.homedir.str.strlen + input.strlen < pathMax ∧
          checkSecurityPath (pathFile settings.homedir.str input) = false) :=
        fun h => Bool.false_ne_true (h.2.symm.trans hcheck)
      rw [if_pos rfl, if_neg hno]
      rfl
  · rw [if_pos (Nat.le_of_not_lt hlen), if_neg (fun h => hlen h.1)]
    rfl

end Sacagawea
