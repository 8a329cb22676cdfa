import Sacagawea.Lib.Program

/-!
# Typestates of programs

What a program holds often decides which calls it may make next: a file has to be open to be locked, and
a lock is not taken twice. A typestate says for each state which calls it allows, and what their answers
make of it. `Typed` is checked along the composition of programs like a triple of Hoare logic, and then
holds at every call of every run.
-/

/-- The calls that are allowed in a state, and the state behind an answer. -/
structure Typestate {C : Type} (R : C → Type) (Q : Type) where
  may : Q → C → Prop
  next : Q → (c : C) → R c → Q

namespace Typestate

variable {C Q : Type} {R : C → Type} (T : Typestate R Q)

/-- The state behind the calls of a trace. -/
def after (q : Q) (trace : Program.Trace R) : Q :=
  trace.foldl (fun q event => T.next q event.1 event.2) q

@[simp] theorem after_nil (q : Q) : T.after q [] = q := rfl

@[simp] theorem after_cons (q : Q) (c : C) (r : R c) (trace : Program.Trace R) :
    T.after q (⟨c, r⟩ :: trace) = T.after (T.next q c r) trace := rfl

@[simp] theorem after_append (q : Q) (front back : Program.Trace R) :
    T.after q (front ++ back) = T.after (T.after q front) back :=
  List.foldl_append

/-- A call that a state allows and no answer of which changes it. -/
def Keeps (q : Q) (c : C) : Prop := T.may q c ∧ ∀ r, T.next q c r = q

end Typestate

namespace Program

variable {C Q ε α β : Type} {R : C → Type}

/-- From the state, the program makes calls that are allowed, and what it returns meets the postcondition
in the state that is left. -/
def Typed (T : Typestate R Q) (post : α → Q → Prop) : Program R ε α → Q → Prop
  | .ret a, q => post a q
  | .halt _, _ => True
  | .call c next, q => T.may q c ∧ ∀ r, (next r).Typed T post (T.next q c r)

variable {T : Typestate R Q} {post post' : α → Q → Prop} {p : Program R ε α} {q : Q}

/-! ### The rules -/

theorem Typed.weaken (h : p.Typed T post q) (hpost : ∀ a q, post a q → post' a q) :
    p.Typed T post' q := by
  induction p generalizing q with
  | ret a => exact hpost a q h
  | halt e => trivial
  | call c next ih => exact ⟨h.1, fun r => ih r (h.2 r)⟩

theorem Typed.bind {last : β → Q → Prop} {f : α → Program R ε β} (h : p.Typed T post q)
    (hf : ∀ a q, post a q → (f a).Typed T last q) : (p >>= f).Typed T last q := by
  induction p generalizing q with
  | ret a => exact hf a q h
  | halt e => trivial
  | call c next ih => exact ⟨h.1, fun r => ih r (h.2 r)⟩

theorem Typed.ask_bind {c : C} {f : R c → Program R ε α} (hmay : T.may q c)
    (hf : ∀ r, (f r).Typed T post (T.next q c r)) : (ask c >>= f).Typed T post q :=
  ⟨hmay, hf⟩

/-- Calls that keep the state keep it through the program. -/
theorem Typed.of_keeps (h : p.MakesOnly (T.Keeps q)) : p.Typed T (fun _ q' => q' = q) q := by
  induction p with
  | ret a => rfl
  | halt e => trivial
  | call c next ih =>
    refine ⟨h.1.1, fun r => ?_⟩
    rw [h.1.2 r]
    exact ih r (h.2 r)

/-- A part that keeps the state can come first. -/
theorem Typed.keeps_bind {last : β → Q → Prop} {f : α → Program R ε β} (h : p.MakesOnly (T.Keeps q))
    (hf : ∀ a, (f a).Typed T last q) : (p >>= f).Typed T last q :=
  (Typed.of_keeps h).bind fun a _ hq => hq ▸ hf a

/-! ### Runs -/

/-- Where a run leads is typed in the state behind its trace. -/
theorem Typed.steps {p' : Program R ε α} {trace : Trace R} (h : p.Typed T post q)
    (hsteps : p.Steps trace p') : p'.Typed T post (T.after q trace) := by
  induction hsteps generalizing q with
  | refl => exact h
  | call c r _ ih => exact ih (h.2 r)

/-- What a run returns meets the postcondition. -/
theorem Typed.post_of_steps {a : α} {trace : Trace R} (h : p.Typed T post q)
    (hsteps : p.Steps trace (.ret a)) : post a (T.after q trace) :=
  h.steps hsteps

/-- What the calls that are allowed make of a trace and a state. -/
theorem Typed.along {J : Trace R → Q → Prop} {p' : Program R ε α} {trace : Trace R}
    (h : p.Typed T post q) (hsteps : p.Steps trace p') (hinit : J [] q)
    (hstep : ∀ front q c r, J front q → T.may q c → J (front ++ [⟨c, r⟩]) (T.next q c r)) :
    J trace (T.after q trace) := by
  suffices hfrom : ∀ front, J front q → J (front ++ trace) (T.after q trace) from hfrom [] hinit
  clear hinit
  induction hsteps generalizing q with
  | refl =>
    intro front hfront
    rwa [List.append_nil]
  | call c r _ ih =>
    intro front hfront
    rw [List.append_cons]
    exact ih (h.2 r) _ (hstep front q c r hfront h.1)

end Program
