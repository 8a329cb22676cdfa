import Mathlib.Data.List.Basic

/-!
# Programs that make calls

A program returns, ends early, or makes a call and goes on with the answer. What it does with all the
answers there can be is a tree. A run is the trace of the calls and their answers, and where in the
tree it leads.

`MakesOnly` says which calls a program can make. `Watched` says that a program ends badly after the
answers that are named as fatal, and only then. Both pass through the composition of programs, so a
program is checked by its parts.
-/

/-- Programs whose call `c` is answered by an `R c`, that return an `α` or end with an `ε`. -/
inductive Program {C : Type} (R : C → Type) (ε α : Type) where
  | ret (a : α)
  | halt (e : ε)
  | call (c : C) (next : R c → Program R ε α)

namespace Program

variable {C : Type} {R : C → Type} {ε α β : Type}

def bind : Program R ε α → (α → Program R ε β) → Program R ε β
  | .ret a, f => f a
  | .halt e, _ => .halt e
  | .call c next, f => .call c fun r => (next r).bind f

instance : Monad (Program R ε) where
  pure := .ret
  bind := bind

/-- Make a call and return the answer. -/
def ask (c : C) : Program R ε (R c) := .call c .ret

/-- The calls of a run and their answers. -/
abbrev Trace (R : C → Type) := List (Σ c, R c)

/-- From the first program a run with this trace leads to the second. -/
inductive Steps : Program R ε α → Trace R → Program R ε α → Prop
  | refl (p : Program R ε α) : Steps p [] p
  | call (c : C) {next : R c → Program R ε α} (r : R c) {trace : Trace R} {q : Program R ε α} :
      Steps (next r) trace q → Steps (.call c next) (⟨c, r⟩ :: trace) q

def ofExcept : Except ε α → Program R ε α
  | .ok a => .ret a
  | .error e => .halt e

/-- The run with this trace is over. -/
def Leads (p : Program R ε α) (trace : Trace R) (out : Except ε α) : Prop := p.Steps trace (ofExcept out)

theorem Steps.trans {p p' q : Program R ε α} {front back : Trace R} (h : p.Steps front p')
    (h' : p'.Steps back q) : p.Steps (front ++ back) q := by
  induction h with
  | refl => exact h'
  | call c r _ ih => exact .call c r (ih h')

/-! ### Runs of a composition -/

@[simp] theorem steps_ret_iff {a : α} {trace : Trace R} {q : Program R ε α} :
    Steps (.ret a) trace q ↔ trace = [] ∧ q = .ret a := by
  constructor
  · intro h
    cases h
    exact ⟨rfl, rfl⟩
  · intro ⟨htrace, hq⟩
    rw [htrace, hq]
    exact .refl _

@[simp] theorem steps_halt_iff {e : ε} {trace : Trace R} {q : Program R ε α} :
    Steps (.halt e) trace q ↔ trace = [] ∧ q = .halt e := by
  constructor
  · intro h
    cases h
    exact ⟨rfl, rfl⟩
  · intro ⟨htrace, hq⟩
    rw [htrace, hq]
    exact .refl _

theorem bind_ne_ret {p : Program R ε α} (hp : ∀ a, p ≠ .ret a) (f : α → Program R ε β) (b : β) :
    p.bind f ≠ .ret b := by
  cases p with
  | ret a => exact absurd rfl (hp a)
  | halt | call => exact nofun

/-- A run of a composition is a run of the first part that has not returned, or a whole one and a run
of the second. -/
theorem Steps.of_bind {p : Program R ε α} {f : α → Program R ε β} {trace : Trace R}
    {q : Program R ε β} (h : (p >>= f).Steps trace q) :
    (∃ p', p.Steps trace p' ∧ q = p'.bind f ∧ ∀ a, p' ≠ .ret a) ∨
      ∃ front back a, trace = front ++ back ∧ p.Steps front (.ret a) ∧ (f a).Steps back q := by
  induction p generalizing trace with
  | ret a => exact .inr ⟨[], trace, a, rfl, .refl _, h⟩
  | halt e =>
    obtain ⟨rfl, rfl⟩ := steps_halt_iff.mp h
    exact .inl ⟨.halt e, .refl _, rfl, nofun⟩
  | call c next ih =>
    cases h with
    | refl => exact .inl ⟨.call c next, .refl _, rfl, nofun⟩
    | call _ r h =>
      rcases ih r h with ⟨p', hp', hq⟩ | ⟨front, back, a, rfl, hfront, hback⟩
      · exact .inl ⟨p', .call c r hp', hq⟩
      · exact .inr ⟨⟨c, r⟩ :: front, back, a, rfl, .call c r hfront, hback⟩

/-- A whole run of a composition is that of its two parts, or the first part ends it. -/
theorem Leads.of_bind {p : Program R ε α} {f : α → Program R ε β} {trace : Trace R}
    {out : Except ε β} (h : (p >>= f).Leads trace out) :
    (∃ e, out = .error e ∧ p.Leads trace (.error e)) ∨
      ∃ front back a, trace = front ++ back ∧ p.Leads front (.ok a) ∧ (f a).Leads back out := by
  rcases Steps.of_bind h with ⟨p', hp', hout, hret⟩ | hparts
  · cases p' with
    | ret a => exact absurd rfl (hret a)
    | halt e =>
      cases out with
      | ok b => cases hout
      | error e' =>
        cases hout
        exact .inl ⟨e, rfl, hp'⟩
    | call c next => cases out <;> cases hout
  · exact .inr hparts

theorem leads_ok_iff {p : Program R ε α} {trace : Trace R} {a : α} :
    p.Leads trace (.ok a) ↔ p.Steps trace (.ret a) := Iff.rfl

/-- A composition that returns is a whole run of both parts. -/
theorem Steps.of_bind_ret {p : Program R ε α} {f : α → Program R ε β} {trace : Trace R} {b : β}
    (h : (p >>= f).Steps trace (.ret b)) :
    ∃ front back a, trace = front ++ back ∧ p.Steps front (.ret a) ∧ (f a).Steps back (.ret b) := by
  rcases Leads.of_bind (leads_ok_iff.mpr h) with ⟨e, he, -⟩ | hparts
  · cases he
  · exact hparts

@[simp] theorem leads_ret_iff {a : α} {trace : Trace R} {out : Except ε α} :
    Leads (.ret a) trace out ↔ trace = [] ∧ out = .ok a := by
  rw [Leads, steps_ret_iff]
  cases out <;> simp [ofExcept]

theorem eq_of_leads_ret {a b : α} {trace : Trace R} (h : Leads (ret a : Program R ε α) trace (.ok b)) :
    a = b :=
  (Except.ok.inj (leads_ret_iff.mp h).2).symm

@[simp] theorem leads_halt_iff {e : ε} {trace : Trace R} {out : Except ε α} :
    Leads (.halt e) trace out ↔ trace = [] ∧ out = .error e := by
  rw [Leads, steps_halt_iff]
  cases out <;> simp [ofExcept]

/-- A call is still to be made, or comes first, with its answer. -/
theorem steps_ask_bind {c : C} {f : R c → Program R ε α} {trace : Trace R} {q : Program R ε α}
    (h : (ask c >>= f).Steps trace q) :
    trace = [] ∧ q = (ask c >>= f) ∨ ∃ r rest, trace = ⟨c, r⟩ :: rest ∧ (f r).Steps rest q := by
  cases h with
  | refl => exact .inl ⟨rfl, rfl⟩
  | call _ r h => exact .inr ⟨r, _, rfl, h⟩

/-- A call comes first, with its answer. -/
theorem leads_ask_bind_iff {c : C} {f : R c → Program R ε α} {trace : Trace R} {out : Except ε α} :
    (ask c >>= f).Leads trace out ↔ ∃ r rest, trace = ⟨c, r⟩ :: rest ∧ (f r).Leads rest out := by
  constructor
  · intro h
    cases out <;> cases h with
    | call _ r h => exact ⟨r, _, rfl, h⟩
  · intro ⟨r, rest, htrace, h⟩
    rw [htrace]
    exact .call c r h

/-- The call that comes first meets what all the calls of the run do. -/
theorem leads_ask_bind_of_forall {P : (Σ c, R c) → Prop} {c : C} {f : R c → Program R ε α}
    {trace : Trace R} {out : Except ε α} (h : (ask c >>= f).Leads trace out)
    (hall : ∀ event ∈ trace, P event) :
    ∃ r rest, trace = ⟨c, r⟩ :: rest ∧ P ⟨c, r⟩ ∧ (∀ event ∈ rest, P event) ∧
      (f r).Leads rest out := by
  obtain ⟨r, rest, rfl, hrest⟩ := leads_ask_bind_iff.mp h
  obtain ⟨hfirst, hall⟩ := List.forall_mem_cons.mp hall
  exact ⟨r, rest, rfl, hfirst, hall, hrest⟩

/-- The answers determine where a program returns, and what. -/
theorem Steps.ret_unique {p : Program R ε α} {front back front' back' : Trace R} {a a' : α}
    (h : p.Steps front (.ret a)) (h' : p.Steps front' (.ret a')) (heq : front ++ back = front' ++ back') :
    a = a' ∧ back = back' := by
  induction p generalizing front front' with
  | ret b =>
    obtain ⟨rfl, hb⟩ := steps_ret_iff.mp h
    obtain ⟨rfl, hb'⟩ := steps_ret_iff.mp h'
    cases hb
    cases hb'
    exact ⟨rfl, heq⟩
  | halt e =>
    obtain ⟨-, hb⟩ := steps_halt_iff.mp h
    cases hb
  | call c next ih =>
    cases h with
    | call _ r h =>
      cases h' with
      | call _ r' h' =>
        rw [List.cons_append, List.cons_append] at heq
        obtain ⟨hevent, hrest⟩ := List.cons.inj heq
        cases hevent
        exact ih r h h' hrest

/-! ### The calls a program can make -/

/-- Every call of the program meets the condition. -/
def MakesOnly (Q : C → Prop) : Program R ε α → Prop
  | .ret _ => True
  | .halt _ => True
  | .call c next => Q c ∧ ∀ r, (next r).MakesOnly Q

theorem MakesOnly.bind {Q : C → Prop} {p : Program R ε α} {f : α → Program R ε β}
    (hp : p.MakesOnly Q) (hf : ∀ a, (f a).MakesOnly Q) : (p >>= f).MakesOnly Q := by
  induction p with
  | ret a => exact hf a
  | halt e => trivial
  | call c next ih => exact ⟨hp.1, fun r => ih r (hp.2 r)⟩

theorem MakesOnly.ask_bind {Q : C → Prop} {c : C} {f : R c → Program R ε α} (hc : Q c)
    (hf : ∀ r, (f r).MakesOnly Q) : (ask c >>= f).MakesOnly Q :=
  ⟨hc, hf⟩

theorem MakesOnly.mono {Q Q' : C → Prop} {p : Program R ε α} (hp : p.MakesOnly Q)
    (h : ∀ c, Q c → Q' c) : p.MakesOnly Q' := by
  induction p with
  | ret | halt => trivial
  | call c next ih => exact ⟨h c hp.1, fun r => ih r (hp.2 r)⟩

theorem MakesOnly.of_mem {Q : C → Prop} {p q : Program R ε α} {trace : Trace R} (hp : p.MakesOnly Q)
    (h : p.Steps trace q) : ∀ event ∈ trace, Q event.1 := by
  induction h with
  | refl => exact nofun
  | call c r _ ih => exact List.forall_mem_cons.mpr ⟨hp.1, ih (hp.2 r)⟩

/-- Every run of the program keeps to one of the conditions. -/
def KeepsToOne {ι : Type*} (Q : ι → C → Prop) (p : Program R ε α) : Prop :=
  ∀ trace q, p.Steps trace q → ∃ i, ∀ event ∈ trace, Q i event.1

theorem MakesOnly.keepsToOne {ι : Type*} {Q : ι → C → Prop} {i : ι} {p : Program R ε α}
    (hp : p.MakesOnly (Q i)) : p.KeepsToOne Q :=
  fun _ _ h => ⟨i, hp.of_mem h⟩

/-- What keeps to all of them can come first. -/
theorem KeepsToOne.bind {ι : Type*} [Nonempty ι] {Q : ι → C → Prop} {p : Program R ε α}
    {f : α → Program R ε β} (hp : ∀ i, p.MakesOnly (Q i)) (hf : ∀ a, (f a).KeepsToOne Q) :
    (p >>= f).KeepsToOne Q := by
  intro trace q h
  rcases Steps.of_bind h with ⟨p', hrun, -, -⟩ | ⟨front, back, a, rfl, hfront, hback⟩
  · exact ⟨Classical.arbitrary ι, (hp _).of_mem hrun⟩
  · obtain ⟨i, hi⟩ := hf a back q hback
    exact ⟨i, List.forall_mem_append.mpr ⟨(hp i).of_mem hfront, hi⟩⟩

/-- Every ending of the program meets the condition. -/
def HaltsOnly (Q : ε → Prop) : Program R ε α → Prop
  | .ret _ => True
  | .halt e => Q e
  | .call _ next => ∀ r, (next r).HaltsOnly Q

theorem HaltsOnly.bind {Q : ε → Prop} {p : Program R ε α} {f : α → Program R ε β} (hp : p.HaltsOnly Q)
    (hf : ∀ a, (f a).HaltsOnly Q) : (p >>= f).HaltsOnly Q := by
  induction p with
  | ret a => exact hf a
  | halt e => exact hp
  | call c next ih => exact fun r => ih r (hp r)

theorem HaltsOnly.ask_bind {Q : ε → Prop} {c : C} {f : R c → Program R ε α}
    (hf : ∀ r, (f r).HaltsOnly Q) : (ask c >>= f).HaltsOnly Q :=
  hf

/-- Every result of the program meets the condition. -/
def ReturnsOnly (Q : α → Prop) : Program R ε α → Prop
  | .ret a => Q a
  | .halt _ => True
  | .call _ next => ∀ r, (next r).ReturnsOnly Q

/-- The results are those of what comes last. -/
theorem ReturnsOnly.of_bind {Q : β → Prop} {p : Program R ε α} {f : α → Program R ε β}
    (hf : ∀ a, (f a).ReturnsOnly Q) : (p >>= f).ReturnsOnly Q := by
  induction p with
  | ret a => exact hf a
  | halt e => trivial
  | call c next ih => exact ih

theorem returnsOnly_true (p : Program R ε α) : p.ReturnsOnly fun _ => True := by
  induction p with
  | ret | halt => trivial
  | call c next ih => exact ih

/-! ### Fatal answers -/

section

variable (dead : ε → Prop) (fatal : (c : C) → R c → Prop)

/-- However the program goes on, it ends badly. -/
def Doomed : Program R ε α → Prop
  | .ret _ => False
  | .halt e => dead e
  | .call _ next => ∀ r, (next r).Doomed

/-- The program ends badly when it has been given a fatal answer, and does not otherwise. -/
def Watched : Program R ε α → Prop
  | .ret _ => True
  | .halt e => ¬ dead e
  | .call c next => ∀ r, (fatal c r → (next r).Doomed dead) ∧ (¬ fatal c r → (next r).Watched)

variable {dead fatal} {p : Program R ε α} {f : α → Program R ε β} {c : C} {g : R c → Program R ε α}

theorem Doomed.bind (h : p.Doomed dead) : (p >>= f).Doomed dead := by
  induction p with
  | ret a => exact h.elim
  | halt e => exact h
  | call c next ih => exact fun r => ih r (h r)

/-- What comes first may end the program too, as long as that is badly. -/
theorem Doomed.of_bind (hp : p.HaltsOnly dead) (hf : ∀ a, (f a).Doomed dead) :
    (p >>= f).Doomed dead := by
  induction p with
  | ret a => exact hf a
  | halt e => exact hp
  | call c next ih => exact fun r => ih r (hp r)

theorem Doomed.ask_bind (hg : ∀ r, (g r).Doomed dead) : (ask c >>= g).Doomed dead := hg

theorem Watched.bind_of_returns {Q : α → Prop} (h : p.Watched dead fatal) (hp : p.ReturnsOnly Q)
    (hf : ∀ a, Q a → (f a).Watched dead fatal) : (p >>= f).Watched dead fatal := by
  induction p with
  | ret a => exact hf a hp
  | halt e => exact h
  | call c next ih =>
    exact fun r => ⟨fun hfatal => ((h r).1 hfatal).bind, fun hno => ih r ((h r).2 hno) (hp r)⟩

theorem Watched.bind (h : p.Watched dead fatal) (hf : ∀ a, (f a).Watched dead fatal) :
    (p >>= f).Watched dead fatal :=
  h.bind_of_returns (returnsOnly_true p) fun a _ => hf a

theorem Watched.ask_bind (hfatal : ∀ r, fatal c r → (g r).Doomed dead)
    (hrest : ∀ r, ¬ fatal c r → (g r).Watched dead fatal) : (ask c >>= g).Watched dead fatal :=
  fun r => ⟨hfatal r, hrest r⟩

/-- A call no answer of which is fatal. -/
theorem Watched.harmless (hc : ∀ r, ¬ fatal c r) (hg : ∀ r, (g r).Watched dead fatal) :
    (ask c >>= g).Watched dead fatal :=
  Watched.ask_bind (fun r hfatal => absurd hfatal (hc r)) fun r _ => hg r

theorem Doomed.dead_of_leads (h : p.Doomed dead) {trace : Trace R} {out : Except ε α}
    (hleads : p.Leads trace out) : ∃ e, out = .error e ∧ dead e := by
  induction p generalizing trace with
  | ret a => exact h.elim
  | halt e => exact ⟨e, (leads_halt_iff.mp hleads).2, h⟩
  | call c next ih =>
    cases out <;> cases hleads with
    | call _ r hleads => exact ih r (h r) hleads

/-- A whole run of a watched program ends badly exactly when one of its answers is fatal. -/
theorem Watched.dead_iff (h : p.Watched dead fatal) {trace : Trace R} {out : Except ε α}
    (hleads : p.Leads trace out) :
    (∃ e, out = .error e ∧ dead e) ↔ ∃ event ∈ trace, fatal event.1 event.2 := by
  induction p generalizing trace with
  | ret a =>
    obtain ⟨rfl, rfl⟩ := leads_ret_iff.mp hleads
    exact iff_of_false nofun nofun
  | halt e =>
    obtain ⟨rfl, rfl⟩ := leads_halt_iff.mp hleads
    refine iff_of_false ?_ nofun
    intro ⟨e', he, hdead⟩
    cases he
    exact h hdead
  | call c next ih =>
    obtain ⟨r, rest, rfl, hrest⟩ : ∃ r rest, trace = ⟨c, r⟩ :: rest ∧ (next r).Leads rest out := by
      cases out <;> cases hleads with
      | call _ r hleads => exact ⟨r, _, rfl, hleads⟩
    rw [List.exists_mem_cons_iff]
    by_cases hfatal : fatal c r
    · exact iff_of_true (((h r).1 hfatal).dead_of_leads hrest) (.inl hfatal)
    · rw [ih r ((h r).2 hfatal) hrest, or_iff_right hfatal]

end

end Program
