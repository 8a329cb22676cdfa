import Sacagawea.Base.Settings
import Sacagawea.Lib.Transition

/-!
# The descriptors of the connections

`accept_wrapper` hands each connection to `thread_management` or `process_management` and does not
look back. In mode `p` the server closes its copy of the descriptor after a `fork`, and in mode `t`
the thread that was started closes it. When `fork` or `pthread_create` fails, both functions log that
and go on, and nobody is left to close it.
-/

namespace Sacagawea

/-- Where the server is in `accept_wrapper` and the two functions it calls. `created` is between
`pthread_create` and `pthread_detach`, with whether `tid` was set. -/
inductive WrapperPc where
  | top
  | copied
  | accepted (newS : Nat)
  | created (tid : Bool)
  | returned
  | ended

/-- A descriptor of the server: free, or of a connection, with whether a thread was started for it. -/
inductive Descriptor where
  | free
  | connection (handled : Bool)
  deriving DecidableEq

structure Wrapper where
  pc : WrapperPc
  table : Nat → Descriptor

/-- The calls with their results, the steps of the threads, and the next call of `accept_wrapper` by
the main loop. -/
inductive WrapperAction where
  | calloc (succeeds : Bool)
  | accept (newS : Option Nat)
  | pthreadCreate (succeeds : Bool)
  | pthreadDetach (crashes : Bool)
  | fork (succeeds : Bool)
  | modeNotSet
  | handlerCloses (fd : Nat)
  | callAgain

namespace Wrapper

def assign (s : Wrapper) (pc : WrapperPc) (fd : Nat) (descriptor : Descriptor) : Wrapper :=
  ⟨pc, Function.update s.table fd descriptor⟩

/-- `accept` gives a descriptor, or ends the loop. -/
def stepAccept (s : Wrapper) : Option Nat → Wrapper
  | none => { s with pc := .returned }
  | some newS => s.assign (.accepted newS) newS (.connection false)

/-- `thread_management` up to `pthread_detach`. -/
def stepPthreadCreate (s : Wrapper) (succeeds : Bool) : Wrapper :=
  match s.pc with
  | .accepted newS =>
    if succeeds then s.assign (.created true) newS (.connection true)
    else { s with pc := .created false }
  | _ => s

/-- `process_management` in the server. -/
def stepFork (s : Wrapper) (succeeds : Bool) : Wrapper :=
  match s.pc with
  | .accepted newS => if succeeds then s.assign .top newS .free else { s with pc := .top }
  | _ => s

end Wrapper

/-- `accept_wrapper`, called again and again, and the handler threads. `accept` returns a descriptor
that is not in use. What `pthread_detach` does with a `tid` that was not set is undefined. -/
def acceptWrapper (settings : Settings) : Transition Wrapper WrapperAction where
  init := ⟨.top, fun _ => .free⟩
  enabled s a := match a, s.pc with
    | .calloc _, .top => True
    | .accept newS, .copied => ∀ fd ∈ newS, s.table fd = .free
    | .pthreadCreate _, .accepted _ => settings.mode = 116
    | .pthreadDetach crashes, .created tid => crashes = true → tid = false
    | .fork _, .accepted _ => settings.mode = 112
    | .modeNotSet, .accepted _ => settings.mode ≠ 116 ∧ settings.mode ≠ 112
    | .handlerCloses fd, _ => s.table fd = .connection true
    | .callAgain, .returned => True
    | _, _ => False
  next s
    | .calloc succeeds => { s with pc := if succeeds then .copied else .ended }
    | .accept newS => s.stepAccept newS
    | .pthreadCreate succeeds => s.stepPthreadCreate succeeds
    | .pthreadDetach crashes => { s with pc := if crashes then .ended else .top }
    | .fork succeeds => s.stepFork succeeds
    | .modeNotSet => { s with pc := .ended }
    | .handlerCloses fd => s.assign s.pc fd .free
    | .callAgain => { s with pc := .top }

/-! ### When no connection is leaked -/

/-- Each descriptor of a connection has its thread, and in mode `p` there is none. -/
structure NoLeak (settings : Settings) (s : Wrapper) : Prop where
  handled : ∀ fd, s.table fd ≠ .connection false
  closed : settings.mode = 112 → ∀ fd, s.table fd = .free

/-- `fork` and `pthread_create` do not fail. -/
def WrapperAction.Succeeds : WrapperAction → Prop
  | .pthreadCreate succeeds => succeeds = true
  | .fork succeeds => succeeds = true
  | _ => True

/-- The descriptor that the server has accepted and not given to anybody yet. -/
def WrapperPc.newS : WrapperPc → Option Nat
  | .accepted newS => some newS
  | _ => none

/-- There is no thread for that descriptor yet. -/
def Wrapper.Waiting (s : Wrapper) : Prop := ∀ fd, s.pc.newS = some fd → s.table fd = .connection false

/-- The server holds a connection that it will not give to anybody. -/
def Wrapper.Lost (s : Wrapper) (fd : Nat) : Prop :=
  s.table fd = .connection false ∧ s.pc.newS ≠ some fd

/-- The server is at work on each connection without a thread, unless it has exited, and has no
threads in mode `p`. -/
structure Wrapper.Kept (settings : Settings) (s : Wrapper) : Prop where
  working : ∀ fd, s.table fd = .connection false → s.pc.newS = some fd ∨ s.pc = .ended
  unthreaded : settings.mode = 112 → ∀ fd, s.table fd ≠ .connection true

namespace Wrapper

variable {s : Wrapper} {pc : WrapperPc} {fd other : Nat} {descriptor : Descriptor}

@[simp] theorem assign_pc : (s.assign pc fd descriptor).pc = pc := rfl

@[simp] theorem assign_self : (s.assign pc fd descriptor).table fd = descriptor :=
  Function.update_self ..

theorem assign_of_ne (h : other ≠ fd) : (s.assign pc fd descriptor).table other = s.table other :=
  Function.update_of_ne h ..

end Wrapper

variable {settings : Settings} {s : Wrapper} {a : WrapperAction}

/-- What a step does. Away from a new descriptor the server moves on or accepts one. It then gives
the descriptor away, or it drops it, which it only does after a failure or to exit. -/
theorem wrapper_cases (henabled : (acceptWrapper settings).enabled s a) :
    (∃ pc, s.pc.newS = none ∧ s.pc ≠ .ended ∧ pc.newS = none ∧ a.Succeeds ∧
      (acceptWrapper settings).next s a = { s with pc := pc }) ∨
    (∃ newS, s.pc = .copied ∧ s.table newS = .free ∧ a.Succeeds ∧
      (acceptWrapper settings).next s a = s.assign (.accepted newS) newS (.connection false)) ∨
    (∃ newS pc descriptor, s.pc = .accepted newS ∧ pc.newS = none ∧ a.Succeeds ∧
      descriptor ≠ .connection false ∧ (settings.mode = 112 → descriptor = .free) ∧
      (acceptWrapper settings).next s a = s.assign pc newS descriptor) ∨
    (∃ newS pc, s.pc = .accepted newS ∧ pc.newS = none ∧ (a.Succeeds → pc = .ended) ∧
      (acceptWrapper settings).next s a = { s with pc := pc }) ∨
    (∃ fd, s.table fd = .connection true ∧ a.Succeeds ∧
      (acceptWrapper settings).next s a = s.assign s.pc fd .free) := by
  obtain ⟨pc, table⟩ := s
  cases a with
  | calloc succeeds =>
    cases pc <;> try exact henabled.elim
    exact .inl ⟨_, rfl, by simp, by cases succeeds <;> rfl, trivial, rfl⟩
  | accept newS =>
    cases pc <;> try exact henabled.elim
    cases newS with
    | none => exact .inl ⟨.returned, rfl, by simp, rfl, trivial, rfl⟩
    | some newS => exact .inr (.inl ⟨newS, rfl, henabled newS rfl, trivial, rfl⟩)
  | pthreadCreate succeeds =>
    cases pc <;> try exact henabled.elim
    next newS =>
    cases succeeds with
    | true =>
      have hmode : settings.mode = 116 := henabled
      refine .inr (.inr (.inl ⟨newS, .created true, .connection true, rfl, rfl, rfl, by simp, ?_, rfl⟩))
      intro h
      rw [hmode] at h
      cases h
    | false => exact .inr (.inr (.inr (.inl ⟨newS, .created false, rfl, rfl, nofun, rfl⟩)))
  | pthreadDetach crashes =>
    cases pc <;> try exact henabled.elim
    exact .inl ⟨_, rfl, by simp, by cases crashes <;> rfl, trivial, rfl⟩
  | fork succeeds =>
    cases pc <;> try exact henabled.elim
    next newS =>
    cases succeeds with
    | true => exact .inr (.inr (.inl ⟨newS, .top, .free, rfl, rfl, rfl, by simp, fun _ => rfl, rfl⟩))
    | false => exact .inr (.inr (.inr (.inl ⟨newS, .top, rfl, rfl, nofun, rfl⟩)))
  | modeNotSet =>
    cases pc <;> try exact henabled.elim
    next newS => exact .inr (.inr (.inr (.inl ⟨newS, .ended, rfl, rfl, fun _ => rfl, rfl⟩)))
  | handlerCloses fd =>
    have hhandled : table fd = .connection true := by cases pc <;> exact henabled
    exact .inr (.inr (.inr (.inr ⟨fd, hhandled, trivial, rfl⟩)))
  | callAgain =>
    cases pc <;> try exact henabled.elim
    exact .inl ⟨.top, rfl, by simp, rfl, trivial, rfl⟩

theorem Wrapper.Waiting.step (hs : s.Waiting) (henabled : (acceptWrapper settings).enabled s a) :
    ((acceptWrapper settings).next s a).Waiting := by
  intro fd hfd
  rcases wrapper_cases henabled with ⟨pc, -, -, hpc, -, hnext⟩ | ⟨newS, -, -, -, hnext⟩ |
    ⟨newS, pc, descriptor, -, hpc, -, -, -, hnext⟩ | ⟨newS, pc, -, hpc, -, hnext⟩ |
    ⟨closed, hclosed, -, hnext⟩ <;> rw [hnext] at hfd ⊢
  · exact nomatch hpc.symm.trans hfd
  · obtain rfl := Option.some.inj hfd
    exact Wrapper.assign_self
  · exact nomatch hpc.symm.trans hfd
  · exact nomatch hpc.symm.trans hfd
  · have hwaits : s.table fd = .connection false := hs fd hfd
    rw [Wrapper.assign_of_ne, hwaits]
    intro h
    rw [h, hclosed] at hwaits
    cases hwaits

/-- A descriptor that was dropped stays. -/
theorem Wrapper.Lost.step {fd : Nat} (hs : s.Lost fd)
    (henabled : (acceptWrapper settings).enabled s a) : ((acceptWrapper settings).next s a).Lost fd := by
  obtain ⟨htable, hfd⟩ := hs
  rcases wrapper_cases henabled with ⟨pc, -, -, hpc, -, hnext⟩ | ⟨newS, -, hfree, -, hnext⟩ |
    ⟨newS, pc, descriptor, hat, hpc, -, -, -, hnext⟩ | ⟨newS, pc, -, hpc, -, hnext⟩ |
    ⟨closed, hclosed, -, hnext⟩ <;> rw [hnext]
  · exact ⟨htable, by simp [hpc]⟩
  · have hne : fd ≠ newS := by
      intro h
      rw [h, hfree] at htable
      cases htable
    exact ⟨(Wrapper.assign_of_ne hne).trans htable, fun h => hne (Option.some.inj h).symm⟩
  · have hne : fd ≠ newS := by
      intro h
      rw [hat, h] at hfd
      exact hfd rfl
    exact ⟨(Wrapper.assign_of_ne hne).trans htable, by simp [hpc]⟩
  · exact ⟨htable, by simp [hpc]⟩
  · have hne : fd ≠ closed := by
      intro h
      rw [h, hclosed] at htable
      cases htable
    exact ⟨(Wrapper.assign_of_ne hne).trans htable, hfd⟩

/-- After a failure the server drops the descriptor it has just accepted. -/
theorem Wrapper.Waiting.lost (hs : s.Waiting) (henabled : (acceptWrapper settings).enabled s a)
    (ha : ¬ a.Succeeds) : ∃ fd, ((acceptWrapper settings).next s a).Lost fd := by
  rcases wrapper_cases henabled with ⟨-, -, -, -, hok, -⟩ | ⟨-, -, -, hok, -⟩ |
    ⟨-, -, -, -, -, hok, -⟩ | ⟨newS, pc, hat, hpc, -, hnext⟩ | ⟨-, -, hok, -⟩
  · exact absurd hok ha
  · exact absurd hok ha
  · exact absurd hok ha
  · refine ⟨newS, ?_⟩
    rw [hnext]
    exact ⟨hs newS (by rw [hat, WrapperPc.newS]), by simp [hpc]⟩
  · exact absurd hok ha

/-- The server can change the descriptor it is at work on, and that of a thread. -/
theorem Wrapper.Kept.assign {pc : WrapperPc} {fd : Nat} {descriptor : Descriptor}
    (hs : s.Kept settings) (hat : ∀ other, other ≠ fd → s.pc.newS = some other ∨ s.pc = .ended →
      pc.newS = some other ∨ pc = .ended)
    (hworking : descriptor = .connection false → pc.newS = some fd)
    (hmode : settings.mode = 112 → descriptor ≠ .connection true) :
    (s.assign pc fd descriptor).Kept settings := by
  refine ⟨?_, ?_⟩
  · intro other hother
    by_cases hne : other = fd
    · rw [hne, Wrapper.assign_self] at hother
      rw [hne]
      exact .inl (hworking hother)
    · rw [Wrapper.assign_of_ne hne] at hother
      exact hat other hne (hs.working other hother)
  · intro h other
    by_cases hne : other = fd
    · rw [hne, Wrapper.assign_self]
      exact hmode h
    · rw [Wrapper.assign_of_ne hne]
      exact hs.unthreaded h other

theorem Wrapper.Kept.step (hs : s.Kept settings) (henabled : (acceptWrapper settings).enabled s a)
    (ha : a.Succeeds) : ((acceptWrapper settings).next s a).Kept settings := by
  rcases wrapper_cases henabled with ⟨pc, hat, hlive, -, -, hnext⟩ | ⟨newS, hat, -, -, hnext⟩ |
    ⟨newS, pc, descriptor, hat, -, -, hgiven, hfree, hnext⟩ | ⟨newS, pc, -, -, hpc, hnext⟩ |
    ⟨closed, -, -, hnext⟩ <;> rw [hnext]
  · refine ⟨?_, hs.unthreaded⟩
    intro fd hfd
    rcases hs.working fd hfd with h | h
    · exact nomatch hat.symm.trans h
    · exact absurd h hlive
  · refine hs.assign ?_ (fun _ => rfl) (by simp)
    intro other _ h
    rcases h with h | h <;> rw [hat] at h <;> cases h
  · refine hs.assign ?_ (fun h => absurd h hgiven) ?_
    · intro other hne h
      rcases h with h | h <;> rw [hat] at h
      · exact absurd (Option.some.inj h).symm hne
      · cases h
    · intro hmode
      rw [hfree hmode]
      simp
  · exact ⟨fun fd _ => .inr (hpc ha), hs.unthreaded⟩
  · exact hs.assign (fun other _ h => h) (by simp) (by simp)

variable {actions : List WrapperAction} {ok : Wrapper → WrapperAction → Prop}

/-- A failure in a run leaves a descriptor to nobody. -/
theorem lost_of_failure (hs : s.Waiting) (hruns : (acceptWrapper settings).Runs ok s actions)
    (hfails : ∃ a ∈ actions, ¬ a.Succeeds) :
    ∃ fd, ((acceptWrapper settings).after s actions).Lost fd := by
  induction actions generalizing s with
  | nil =>
    obtain ⟨a, ha, -⟩ := hfails
    cases ha
  | cons a actions ih =>
    obtain ⟨-, henabled, hruns⟩ := hruns
    by_cases ha : a.Succeeds
    · refine ih (hs.step henabled) hruns ?_
      obtain ⟨b, hb, hfails⟩ := hfails
      rcases List.mem_cons.mp hb with rfl | hb
      · exact absurd ha hfails
      · exact ⟨b, hb, hfails⟩
    · obtain ⟨fd, hlost⟩ := hs.lost henabled ha
      exact ⟨fd, hruns.invariant (I := (·.Lost fd)) hlost fun s b _ hs _ henabled => hs.step henabled⟩

/-- When `accept_wrapper` returns, each connection that is open in the server has its thread, and none
is open in mode `p`, exactly when no `fork` and no `pthread_create` has failed before. -/
theorem no_leak_iff (hruns : (acceptWrapper settings).Runs ok (acceptWrapper settings).init actions)
    (hreturned : ((acceptWrapper settings).after (acceptWrapper settings).init actions).pc = .returned) :
    NoLeak settings ((acceptWrapper settings).after (acceptWrapper settings).init actions) ↔
      ∀ a ∈ actions, a.Succeeds := by
  constructor
  · intro h a ha
    by_contra hfails
    have hwaiting : (acceptWrapper settings).init.Waiting := nofun
    obtain ⟨fd, htable, -⟩ := lost_of_failure hwaiting hruns ⟨a, ha, hfails⟩
    exact h.handled fd htable
  · intro hok
    have hstart : (acceptWrapper settings).init.Kept settings := ⟨nofun, fun _ => nofun⟩
    have hkept := hruns.invariant (I := (·.Kept settings)) hstart
      fun s a ha hs _ henabled => hs.step henabled (hok a ha)
    have hhandled : ∀ fd, ((acceptWrapper settings).after (acceptWrapper settings).init actions).table
        fd ≠ .connection false := by
      intro fd hfd
      rcases hkept.working fd hfd with h | h <;> rw [hreturned] at h <;> cases h
    refine ⟨hhandled, ?_⟩
    intro hmode fd
    cases hfd : ((acceptWrapper settings).after (acceptWrapper settings).init actions).table fd with
    | free => rfl
    | connection handled =>
      cases handled
      · exact absurd hfd (hhandled fd)
      · exact absurd hfd (hkept.unthreaded hmode fd)

/-- The settings of a server in mode `p`. -/
def forkingSettings : Settings := ⟨7070, 3, 112, .zero _, .zero _⟩

/-- One client connects, and no other. -/
def oneClient (forks : Bool) : List WrapperAction :=
  [.calloc true, .accept (some 4), .fork forks, .calloc true, .accept none]

/-- The system has no process left for the client, and the server keeps the descriptor. -/
theorem leaked_after_fork_failure :
    (acceptWrapper forkingSettings).Runs (fun _ _ => True) (acceptWrapper forkingSettings).init
        (oneClient false) ∧
      ((acceptWrapper forkingSettings).after (acceptWrapper forkingSettings).init
        (oneClient false)).pc = .returned ∧
      ¬ NoLeak forkingSettings ((acceptWrapper forkingSettings).after
        (acceptWrapper forkingSettings).init (oneClient false)) := by
  refine ⟨⟨trivial, trivial, trivial, ?_, trivial, rfl, trivial, trivial, trivial, nofun, trivial⟩,
    rfl, ?_⟩
  · exact fun _ _ => rfl
  · exact fun h => h.handled 4 rfl

theorem no_leak_oneClient :
    NoLeak forkingSettings ((acceptWrapper forkingSettings).after
      (acceptWrapper forkingSettings).init (oneClient true)) := by
  have hruns : (acceptWrapper forkingSettings).Runs (fun _ _ => True)
      (acceptWrapper forkingSettings).init (oneClient true) :=
    ⟨trivial, trivial, trivial, fun _ _ => rfl, trivial, rfl, trivial, trivial, trivial, nofun, trivial⟩
  refine (no_leak_iff hruns rfl).mpr ?_
  intro a ha
  simp only [oneClient, List.mem_cons, List.not_mem_nil, or_false] at ha
  rcases ha with rfl | rfl | rfl | rfl | rfl
  · trivial
  · trivial
  · rfl
  · trivial
  · trivial

end Sacagawea
