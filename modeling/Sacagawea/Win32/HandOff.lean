import Sacagawea.Lib.Transition
import Sacagawea.Server.Rendered

/-!
# Handing a connection to a process on Windows

There is no `fork` on Windows. In mode `p` the server writes the arguments of a client into a file mapping
and starts `sacagawea-mp.exe`, which inherits the handles of the server and is told the number of the
handle of the mapping on its command line. The server goes on at once: it closes the handle and the
socket, and gets their numbers again for the next client, before or after the process has begun.

A process has handles of its own, as they were when it was started. So each process finds the arguments
of its client, and the socket of its client under the number that stands there.
-/

namespace Sacagawea

namespace Win32

/-! ### The command line -/

/-- `strtoll(s, NULL, 10)`: spaces, a sign and digits. -/
def strtoll (s : CStr) : Int :=
  let rest := s.chars.dropWhile isSpace
  let digits := if rest.head? = some 45 ∨ rest.head? = some 43 then rest.tail else rest
  let val : Nat := numeral (digits.takeWhile isDigit)
  if rest.head? = some 45 then max (-2 ^ 63) (-val) else min (2 ^ 63 - 1) val

def mpProgram : CStr := CStr.lit "sacagawea-mp.exe "

/-- `sprintf` of the handle. -/
def formatCmdline (szCmdline : CharArray 64) (hMapFile : Int) : Except Stop (CharArray 64) :=
  szCmdline.strcpy (mpProgram ++ decimal hMapFile)

/-- `argv[1]`: what stands behind the program, up to the next space. -/
def argv1 (cmdline : CStr) : CStr :=
  .ofBuffer (((cmdline.chars.dropWhile (· != 32)).dropWhile (· == 32)).takeWhile (· != 32))

/-- The numbers of handles that are not NULL. -/
structure IsHandle (h : Int) : Prop where
  ne : h ≠ 0
  low : -2 ^ 63 ≤ h
  high : h < 2 ^ 63

theorem isDigit_of_mem_digits {n : Nat} {c : Byte} (h : c ∈ digits n) : isDigit c = true :=
  cls_portPattern_of_mem_digits h

theorem numeral_takeWhile_digits (n : Nat) : numeral ((digits n).takeWhile isDigit) = n := by
  rw [List.takeWhile_eq_self_iff.mpr fun c hc => isDigit_of_mem_digits hc, numeral_digits]

theorem dropWhile_isSpace_digits (n : Nat) : (digits n).dropWhile isSpace = digits n := by
  refine List.dropWhile_eq_self_iff.mpr fun hpos => ?_
  rw [isSpace_of_mem_digits (List.getElem_mem hpos)]
  exact Bool.false_ne_true

theorem head?_digits_ne (n : Nat) {c : Byte} (hc : ¬ (48 ≤ c ∧ c ≤ 57)) : (digits n).head? ≠ some c :=
  fun h => hc (mem_digits (List.mem_of_mem_head? h))

/-- A number that has been written is read back. -/
theorem strtoll_decimal {n : Int} (hlow : -2 ^ 63 ≤ n) (hhigh : n < 2 ^ 63) : strtoll (decimal n) = n := by
  cases n with
  | ofNat m =>
    have hminus : (digits m).head? ≠ some 45 := head?_digits_ne m (by decide)
    have hplus : (digits m).head? ≠ some 43 := head?_digits_ne m (by decide)
    simp only [strtoll, decimal, dropWhile_isSpace_digits, hminus, hplus, or_self, if_false,
      numeral_takeWhile_digits]
    exact min_eq_right (by simp only [Int.ofNat_eq_natCast] at hhigh; omega)
  | negSucc m =>
    have hspace : (45 :: digits (m + 1)).dropWhile isSpace = 45 :: digits (m + 1) :=
      List.dropWhile_cons_of_neg (by decide)
    simp only [strtoll, decimal, hspace, List.head?_cons, true_or, if_true, List.tail_cons,
      numeral_takeWhile_digits]
    exact max_eq_right (by omega)

theorem argv1_mpProgram (n : Int) : argv1 (mpProgram ++ decimal n) = decimal n := by
  have hne : ∀ c ∈ (decimal n).chars, c ≠ 32 := by
    rintro c hc rfl
    exact absurd (mem_decimal hc) (by decide)
  have hprogram : (mpProgram ++ decimal n).chars.dropWhile (· != 32) = 32 :: (decimal n).chars := rfl
  have hspaces : (32 :: (decimal n).chars).dropWhile (· == 32) = (decimal n).chars := by
    rw [List.dropWhile_cons_of_pos (by decide)]
    refine List.dropWhile_eq_self_iff.mpr fun hpos => ?_
    rw [beq_iff_eq]
    exact hne _ (List.getElem_mem hpos)
  rw [argv1, hprogram, hspaces, List.takeWhile_eq_self_iff.mpr fun c hc => bne_iff_ne.mpr (hne c hc)]
  exact CStr.ext (CStr.chars_ofBuffer_chars _)

/-- The command line fits into its array, and the process finds the handle in it. -/
theorem handle_of_cmdline {h : Int} (hh : IsHandle h) (szCmdline : CharArray 64) :
    ∃ cmdline, formatCmdline szCmdline h = .ok cmdline ∧ strtoll (argv1 cmdline.str) = h := by
  have hshort : (decimal h).strlen ≤ 20 :=
    (strlen_decimal_le_iff (k := 19) (by decide)).mpr ⟨by have := hh.low; omega, by have := hh.high; omega⟩
  have hroom : (mpProgram ++ decimal h).strlen + 1 ≤ 64 := by
    have hprogram : mpProgram.strlen = 17 := by decide
    rw [CStr.strlen_append, hprogram]
    omega
  obtain ⟨cmdline, hok, hstr⟩ := szCmdline.strcpy_spec hroom
  refine ⟨cmdline, hok, ?_⟩
  rw [hstr, argv1_mpProgram, strtoll_decimal hh.low hh.high]

/-! ### The code -/

/-- What a handle is for: the file mappings and the connections are numbered. -/
inductive Object where
  | mapping (n : Nat)
  | socket (k : Nat)
  | other
  deriving DecidableEq, Repr

abbrev Handles := Int → Option Object

/-- The arguments of a client are not looked at here but for its socket. -/
class ClientArgs (A : Type) where
  socket : A → Int

/-- A process that has begun, or serves the client with the arguments it has copied, or has ended. It is
astray when it has copied what nobody has written. -/
inductive MpPc (A : Type) where
  | begun
  | serving (args : A)
  | astray
  | ended

/-- `sacagawea-mp.exe`. -/
structure MpProcess (A : Type) where
  cmdline : CStr
  handles : Handles
  pc : MpPc A

/-- Where the server is in `process_management`. It has ended behind a call that has failed. -/
inductive HandOffPc (A : Type) where
  | waiting
  | accepted (args : A)
  | mapped (args : A) (hMapFile : Int)
  | written (args : A) (hMapFile : Int)
  | created (args : A) (hMapFile : Int)
  | closed (args : A)
  | ended

/-- The server and its processes, with what is in the file mappings and the arguments of all clients. -/
structure HandOff (A : Type) where
  pc : HandOffPc A
  handles : Handles
  contents : List (Option A)
  clients : List A
  processes : List (MpProcess A)

/-- The steps. The server opens and closes other handles too, and a process can end at any time. -/
inductive HandOffAction (A : Type) where
  | accept (args : A)
  | createFileMapping (hMapFile : Option Int)
  | mapViewOfFile (succeeds : Bool)
  | createProcess (szCmdline : CharArray 64) (succeeds : Bool)
  | closeHandle (succeeds : Bool)
  | closesocket (succeeds : Bool)
  | openOther (h : Int)
  | closeOther (h : Int)
  | copy (k : Nat) (mapped : Bool)
  | finish (k : Nat)

variable {A : Type} [ClientArgs A]

namespace HandOff

/-- Nothing has been accepted. -/
def start (handles : Int → Bool) : HandOff A where
  pc := .waiting
  handles h := if handles h then some .other else none
  contents := []
  clients := []
  processes := []

def assign (s : HandOff A) (h : Int) (object : Option Object) : HandOff A :=
  { s with handles := Function.update s.handles h object }

/-- The process is told the handle, and has the handles of the server. -/
def spawn (s : HandOff A) (args : A) (hMapFile : Int) (szCmdline : CharArray 64) : HandOff A :=
  match formatCmdline szCmdline hMapFile with
  | .error _ => { s with pc := .ended }
  | .ok cmdline =>
    { s with pc := .created args hMapFile, processes := s.processes ++ [⟨cmdline.str, s.handles, .begun⟩] }

/-- `memcpy` into the file mapping. -/
def memcpy (s : HandOff A) (args : A) (hMapFile : Int) : HandOff A :=
  match s.handles hMapFile with
  | some (.mapping n) => { s with pc := .written args hMapFile, contents := s.contents.set n (some args) }
  | _ => { s with pc := .ended }

end HandOff

/-- `main` of `sacagawea-mp.exe`, up to `management_function`. -/
def MpProcess.copy (p : MpProcess A) (contents : List (Option A)) (mapped : Bool) : MpProcess A :=
  let hMapFile := strtoll (argv1 p.cmdline)
  if hMapFile = 0 ∨ mapped = false then { p with pc := .ended }
  else
    match p.handles hMapFile with
    | some (.mapping n) => { p with pc := contents[n]?.join.elim .astray .serving }
    | _ => { p with pc := .ended }

def handOff (A : Type) [ClientArgs A] (handles : Int → Bool) : Transition (HandOff A) (HandOffAction A) where
  init := .start handles
  enabled s
    | .accept args => s.pc = .waiting ∧ s.handles (ClientArgs.socket args) = none
    | .createFileMapping hMapFile => (∃ args, s.pc = .accepted args) ∧
      ∀ h ∈ hMapFile, IsHandle h ∧ s.handles h = none
    | .mapViewOfFile _ => ∃ args h, s.pc = .mapped args h
    | .createProcess .. => ∃ args h, s.pc = .written args h
    | .closeHandle _ => ∃ args h, s.pc = .created args h
    | .closesocket _ => ∃ args, s.pc = .closed args
    | .openOther h => s.handles h = none
    | .closeOther h => s.handles h = some .other
    | .copy k _ => ∃ p, s.processes[k]? = some p ∧ p.pc = .begun
    | .finish k => k < s.processes.length
  next s
    | .accept args =>
      { s.assign (ClientArgs.socket args) (some (.socket s.clients.length)) with
        pc := .accepted args, clients := s.clients ++ [args] }
    | .createFileMapping hMapFile => match s.pc, hMapFile with
      | .accepted args, some h =>
        { s.assign h (some (.mapping s.contents.length)) with
          pc := .mapped args h, contents := s.contents ++ [none] }
      | _, _ => { s with pc := .ended }
    | .mapViewOfFile succeeds => match s.pc with
      | .mapped args h => if succeeds then s.memcpy args h else { s with pc := .ended }
      | _ => s
    | .createProcess szCmdline succeeds => match s.pc with
      | .written args h => if succeeds then s.spawn args h szCmdline else { s with pc := .ended }
      | _ => s
    | .closeHandle succeeds => match s.pc with
      | .created args h => { (if succeeds then s.assign h none else s) with pc := .closed args }
      | _ => s
    | .closesocket succeeds => match s.pc with
      | .closed args =>
        { (if succeeds then s.assign (ClientArgs.socket args) none else s) with pc := .waiting }
      | _ => s
    | .openOther h => s.assign h (some .other)
    | .closeOther h => s.assign h none
    | .copy k mapped => { s with processes := s.processes.modify k fun p => p.copy s.contents mapped }
    | .finish k => { s with processes := s.processes.modify k fun p => { p with pc := .ended } }

/-! ### What each process finds -/

/-- The process finds the arguments in the file mapping of its handle, and its handles have the socket. -/
structure MpProcess.For (p : MpProcess A) (contents : List (Option A)) (k : Nat) (args : A) : Prop where
  handle : ∃ h n, IsHandle h ∧ strtoll (argv1 p.cmdline) = h ∧ p.handles h = some (.mapping n) ∧
    contents[n]? = some (some args)
  socket : p.handles (ClientArgs.socket args) = some (.socket k)
  serving : p.pc = .begun ∨ p.pc = .serving args ∨ p.pc = .ended

namespace HandOff

/-- The arguments of the last client, for which there is no process yet. -/
@[mk_iff] structure Pending (s : HandOff A) (args : A) : Prop where
  last : s.clients[s.processes.length]? = some args
  count : s.clients.length = s.processes.length + 1
  socket : s.handles (ClientArgs.socket args) = some (.socket s.processes.length)

/-- What holds at a place in `process_management`. -/
def At (s : HandOff A) : HandOffPc A → Prop
  | .waiting | .created .. | .closed _ => s.clients.length = s.processes.length
  | .accepted args => s.Pending args
  | .mapped args h => s.Pending args ∧ IsHandle h ∧
    ∃ n, s.handles h = some (.mapping n) ∧ s.contents[n]? = some none
  | .written args h => s.Pending args ∧ IsHandle h ∧
    ∃ n, s.handles h = some (.mapping n) ∧ s.contents[n]? = some (some args)
  | .ended => s.processes.length ≤ s.clients.length ∧ s.clients.length ≤ s.processes.length + 1

structure Sound (s : HandOff A) : Prop where
  processes : ∀ k (p : MpProcess A), s.processes[k]? = some p →
    ∃ args, s.clients[k]? = some args ∧ p.For s.contents k args
  here : s.At s.pc

end HandOff

variable {s : HandOff A} {args : A} {p : MpProcess A} {contents : List (Option A)} {k : Nat}

theorem MpProcess.For.copy (h : p.For contents k args) (mapped : Bool) :
    p.copy contents mapped = { p with pc := if mapped then .serving args else .ended } := by
  obtain ⟨number, n, hnumber, hread, hmapping, hcontents⟩ := h.handle
  cases mapped with
  | false => exact if_pos (.inr rfl)
  | true =>
    rw [MpProcess.copy, hread, if_neg (not_or.mpr ⟨hnumber.ne, nofun⟩)]
    simp only [hmapping, hcontents]
    rfl

/-- What has been written into a file mapping stays there. -/
def Keeps (contents contents' : List (Option A)) : Prop :=
  ∀ (n : Nat) (args : A), contents[n]? = some (some args) → contents'[n]? = some (some args)

theorem MpProcess.For.mono {contents' : List (Option A)} (h : p.For contents k args)
    (hkeeps : Keeps contents contents') : p.For contents' k args := by
  obtain ⟨number, n, hnumber, hread, hmapping, hcontents⟩ := h.handle
  exact ⟨⟨number, n, hnumber, hread, hmapping, hkeeps n args hcontents⟩, h.socket, h.serving⟩

namespace HandOff

/-- A step of the server that starts no process. -/
theorem Sound.server {s' : HandOff A} (h : s.Sound) (hprocesses : s'.processes = s.processes)
    (hclients : s.clients <+: s'.clients)
    (hkeeps : Keeps s.contents s'.contents) (here : s'.At s'.pc) : s'.Sound where
  processes k p hp := by
    rw [hprocesses] at hp
    obtain ⟨args, hargs, hfor⟩ := h.processes k p hp
    obtain ⟨more, hmore⟩ := hclients
    refine ⟨args, ?_, hfor.mono hkeeps⟩
    rw [← hmore, List.getElem?_append_left (List.getElem?_eq_some_iff.mp hargs).1]
    exact hargs
  here := here

/-- A step of a process. -/
theorem Sound.modify (h : s.Sound) (k : Nat) {f : MpProcess A → MpProcess A}
    (hf : ∀ j p args, p.For s.contents j args → (f p).For s.contents j args) :
    Sound { s with processes := s.processes.modify k f } where
  processes j p hp := by
    rw [List.getElem?_modify] at hp
    obtain ⟨q, hq, rfl⟩ := Option.map_eq_some_iff.mp hp
    obtain ⟨args, hargs, hfor⟩ := h.processes j q hq
    refine ⟨args, hargs, ?_⟩
    split_ifs
    · exact hf j q args hfor
    · exact hfor
  here := by
    have hhere := h.here
    change At _ s.pc
    generalize s.pc = pc at hhere ⊢
    cases pc <;> simp only [At, pending_iff, List.length_modify] at hhere ⊢ <;> exact hhere

omit [ClientArgs A] in
/-- A handle that is for a mapping or a connection is not touched when another one changes. -/
theorem handles_assign {h h' : Int} {object : Option Object} {o : Object} (ho : s.handles h' = some o)
    (hne : s.handles h ≠ some o) : (s.assign h object).handles h' = some o := by
  refine (Function.update_of_ne ?_ ..).trans ho
  rintro rfl
  exact hne ho

/-- The server opens or closes a handle for something else. -/
theorem Sound.assign (h : s.Sound) {number : Int} {object : Option Object}
    (hother : ∀ o, s.handles number = some o → o = .other) : (s.assign number object).Sound := by
  have hkeeps : ∀ h' o, o ≠ .other → s.handles h' = some o → (s.assign number object).handles h' = some o :=
    fun h' o ho hh => handles_assign hh fun hnumber => ho (hother o hnumber)
  have hpending : ∀ args, s.Pending args → (s.assign number object).Pending args :=
    fun args hp => ⟨hp.last, hp.count, hkeeps _ _ nofun hp.socket⟩
  refine h.server rfl (List.prefix_rfl) (fun _ _ => id) ?_
  have hhere := h.here
  change (s.assign number object).At s.pc
  generalize s.pc = pc at hhere ⊢
  cases pc with
  | waiting | created | closed | ended => exact hhere
  | accepted args => exact hpending args hhere
  | mapped args hMapFile | written args hMapFile =>
    obtain ⟨hp, hh, n, hmapping, hcontents⟩ := hhere
    exact ⟨hpending args hp, hh, n, hkeeps _ _ nofun hmapping, hcontents⟩

omit [ClientArgs A] in
theorem keeps_append_none (contents : List (Option A)) : Keeps contents (contents ++ [none]) := by
  intro n args hargs
  rw [List.getElem?_append_left (List.getElem?_eq_some_iff.mp hargs).1]
  exact hargs

omit [ClientArgs A] in
/-- What has not been written is written. -/
theorem keeps_set {contents : List (Option A)} {n : Nat} (hn : contents[n]? = some none) (args : A) :
    Keeps contents (contents.set n (some args)) := by
  intro m x hx
  rw [List.getElem?_set_ne]
  · exact hx
  · rintro rfl
    rw [hn] at hx
    cases hx

end HandOff

open HandOff

theorem HandOff.Pending.ended (h : s.Pending args) : s.At .ended :=
  ⟨h.count ▸ Nat.le_succ _, h.count.le⟩

theorem sound_start (handles : Int → Bool) : (HandOff.start handles : HandOff A).Sound where
  processes k p hp := by cases hp
  here := rfl

theorem sound_next {handles : Int → Bool} {a : HandOffAction A} (h : s.Sound)
    (henabled : (handOff A handles).enabled s a) : ((handOff A handles).next s a).Sound := by
  have hhere := h.here
  cases a with
  | accept args =>
    obtain ⟨hpc, hfree⟩ := henabled
    rw [hpc] at hhere
    have hcount : s.clients.length = s.processes.length := hhere
    refine h.server rfl (List.prefix_append ..) (fun _ _ => id) ⟨?_, ?_, ?_⟩
    · change (s.clients ++ [args])[s.processes.length]? = some args
      rw [← hcount, List.getElem?_concat_length]
    · change (s.clients ++ [args]).length = s.processes.length + 1
      rw [List.length_append, hcount, List.length_singleton]
    · change (s.assign (ClientArgs.socket args) _).handles _ = some (.socket s.processes.length)
      rw [← hcount]
      exact Function.update_self ..
  | createFileMapping hMapFile =>
    obtain ⟨⟨args, hpc⟩, hnew⟩ := henabled
    rw [hpc] at hhere
    have hp : s.Pending args := hhere
    simp only [handOff, hpc]
    cases hMapFile with
    | none => exact h.server rfl List.prefix_rfl (fun _ _ => id) hp.ended
    | some number =>
      obtain ⟨hnumber, hfree⟩ := hnew number rfl
      refine h.server rfl List.prefix_rfl (keeps_append_none _) ⟨⟨hp.last, hp.count, ?_⟩, hnumber, ?_⟩
      · exact handles_assign hp.socket (hfree ▸ nofun)
      · exact ⟨s.contents.length, Function.update_self .., List.getElem?_concat_length⟩
  | mapViewOfFile succeeds =>
    obtain ⟨args, number, hpc⟩ := henabled
    rw [hpc] at hhere
    obtain ⟨hp, hnumber, n, hmapping, hcontents⟩ : s.Pending args ∧ IsHandle number ∧
      ∃ n, s.handles number = some (.mapping n) ∧ s.contents[n]? = some none := hhere
    simp only [handOff, hpc]
    cases succeeds with
    | false => exact h.server rfl List.prefix_rfl (fun _ _ => id) hp.ended
    | true =>
      simp only [if_true, memcpy, hmapping]
      refine h.server rfl List.prefix_rfl (keeps_set hcontents args) ⟨⟨hp.last, hp.count, hp.socket⟩, hnumber,
        n, hmapping, ?_⟩
      exact List.getElem?_set_self (List.getElem?_eq_some_iff.mp hcontents).1
  | createProcess szCmdline succeeds =>
    obtain ⟨args, number, hpc⟩ := henabled
    rw [hpc] at hhere
    obtain ⟨hp, hnumber, n, hmapping, hcontents⟩ : s.Pending args ∧ IsHandle number ∧
      ∃ n, s.handles number = some (.mapping n) ∧ s.contents[n]? = some (some args) := hhere
    simp only [handOff, hpc]
    cases succeeds with
    | false => exact h.server rfl List.prefix_rfl (fun _ _ => id) hp.ended
    | true =>
      obtain ⟨cmdline, hcmdline, hread⟩ := handle_of_cmdline hnumber szCmdline
      simp only [if_true, spawn, hcmdline]
      refine ⟨fun k p hk => ?_, ?_⟩
      · rcases Nat.lt_or_ge k s.processes.length with hold | hnew
        · rw [List.getElem?_append_left hold] at hk
          exact h.processes k p hk
        · rw [List.getElem?_append_right hnew, List.getElem?_singleton] at hk
          split_ifs at hk with hzero
          cases hk
          obtain rfl : k = s.processes.length := by omega
          exact ⟨args, hp.last, ⟨number, n, hnumber, hread, hmapping, hcontents⟩, hp.socket, .inl rfl⟩
      · change s.clients.length = (s.processes ++ [_]).length
        rw [hp.count, List.length_append, List.length_singleton]
  | closeHandle succeeds =>
    obtain ⟨args, number, hpc⟩ := henabled
    rw [hpc] at hhere
    have hcount : s.clients.length = s.processes.length := hhere
    simp only [handOff, hpc]
    cases succeeds with
    | false => exact h.server rfl List.prefix_rfl (fun _ _ => id) hcount
    | true => exact h.server rfl List.prefix_rfl (fun _ _ => id) hcount
  | closesocket succeeds =>
    obtain ⟨args, hpc⟩ := henabled
    rw [hpc] at hhere
    have hcount : s.clients.length = s.processes.length := hhere
    simp only [handOff, hpc]
    cases succeeds with
    | false => exact h.server rfl List.prefix_rfl (fun _ _ => id) hcount
    | true => exact h.server rfl List.prefix_rfl (fun _ _ => id) hcount
  | openOther number => exact h.assign fun o ho => nomatch henabled.symm.trans ho
  | closeOther number => exact h.assign fun o ho => (Option.some.inj (henabled.symm.trans ho)).symm
  | copy k mapped =>
    refine h.modify k fun j p args hfor => ?_
    rw [hfor.copy]
    refine ⟨hfor.handle, hfor.socket, ?_⟩
    cases mapped with
    | false => exact .inr (.inr rfl)
    | true => exact .inr (.inl rfl)
  | finish k =>
    exact h.modify k fun j p args hfor => ⟨hfor.handle, hfor.socket, .inr (.inr rfl)⟩

theorem sound_of_reach {handles : Int → Bool} {ok : HandOff A → HandOffAction A → Prop}
    (hs : (handOff A handles).Reach ok s) : s.Sound :=
  hs.invariant (sound_start handles) fun _ _ _ ih _ henabled => sound_next ih henabled

theorem HandOff.Sound.count (h : s.Sound) :
    s.processes.length ≤ s.clients.length ∧ s.clients.length ≤ s.processes.length + 1 := by
  have hhere := h.here
  generalize s.pc = pc at hhere
  cases pc with
  | waiting | created | closed =>
    have hcount : s.clients.length = s.processes.length := hhere
    omega
  | accepted => exact hhere.ended
  | mapped | written => exact hhere.1.ended
  | ended => exact hhere

/-- The processes are those of the clients in their order, but for the last one while it is handed off.
Each has the socket of its client under the number in the arguments. If it has copied arguments it is
those of its client, and if it has not it finds them, whenever it begins. -/
theorem hand_off {handles : Int → Bool} {ok : HandOff A → HandOffAction A → Prop}
    (hs : (handOff A handles).Reach ok s) :
    (s.processes.length ≤ s.clients.length ∧ s.clients.length ≤ s.processes.length + 1) ∧
      (s.pc = .waiting → s.clients.length = s.processes.length) ∧
      ∀ k (p : MpProcess A), s.processes[k]? = some p → ∃ args, s.clients[k]? = some args ∧
        p.handles (ClientArgs.socket args) = some (.socket k) ∧
        (p.pc = .begun ∨ p.pc = .serving args ∨ p.pc = .ended) ∧
        p.copy s.contents true = { p with pc := .serving args } := by
  have hsound := sound_of_reach hs
  refine ⟨hsound.count, fun hpc => ?_, fun k p hp => ?_⟩
  · have hhere := hsound.here
    rw [hpc] at hhere
    exact hhere
  obtain ⟨args, hargs, hfor⟩ := hsound.processes k p hp
  exact ⟨args, hargs, hfor.socket, hfor.serving, hfor.copy true⟩

/-- The arguments of a client, as a number of a socket only. -/
structure SocketOnly where
  number : Int
  deriving DecidableEq

instance : ClientArgs SocketOnly := ⟨SocketOnly.number⟩

/-- The server gets the number of the socket and that of the mapping again before the process begins. -/
theorem reach_small : ∃ s, (handOff SocketOnly fun _ => false).Reach (fun _ _ => True) s ∧
    s.handles 5 = some (.socket 1) ∧ ∃ p, s.processes[0]? = some p ∧ s.clients[0]? = some ⟨5⟩ := by
  have hnumber : ∀ h ∈ some (8 : Int), IsHandle h := by
    rintro h ⟨⟩
    exact ⟨by decide, by decide, by decide⟩
  have hinit : (handOff SocketOnly fun _ => false).Reach (fun _ _ => True) _ := .init
  have hfirst := hinit.next (.accept ⟨5⟩) trivial ⟨rfl, rfl⟩
  have hmapped := hfirst.next (.createFileMapping (some 8)) trivial
    ⟨⟨_, rfl⟩, fun h hh => ⟨hnumber h hh, by cases hh; rfl⟩⟩
  have hwritten := hmapped.next (.mapViewOfFile true) trivial ⟨_, _, rfl⟩
  have hcreated := hwritten.next (.createProcess (.zero 64) true) trivial ⟨_, _, rfl⟩
  have hclosed := hcreated.next (.closeHandle true) trivial ⟨_, _, rfl⟩
  have hwaiting := hclosed.next (.closesocket true) trivial ⟨_, rfl⟩
  have hsecond := hwaiting.next (.accept ⟨5⟩) trivial ⟨rfl, rfl⟩
  have hagain := hsecond.next (.createFileMapping (some 8)) trivial
    ⟨⟨_, rfl⟩, fun h hh => ⟨hnumber h hh, by cases hh; rfl⟩⟩
  exact ⟨_, hagain, rfl, _, rfl, rfl⟩

theorem hand_off_small : ∃ (s : HandOff SocketOnly) (p : MpProcess SocketOnly),
    (handOff SocketOnly fun _ => false).Reach (fun _ _ => True) s ∧ s.processes[0]? = some p ∧
      s.handles 5 = some (.socket 1) ∧ p.handles 5 = some (.socket 0) ∧
      p.copy s.contents true = { p with pc := .serving ⟨5⟩ } := by
  obtain ⟨s, hs, hreused, p, hp, hclient⟩ := reach_small
  obtain ⟨-, -, hprocesses⟩ := hand_off hs
  obtain ⟨args, hargs, hsocket, -, hcopy⟩ := hprocesses 0 p hp
  obtain rfl : args = ⟨5⟩ := Option.some.inj (hargs.symm.trans hclient)
  exact ⟨s, p, hs, hp, hreused, hsocket, hcopy⟩

end Win32

end Sacagawea
