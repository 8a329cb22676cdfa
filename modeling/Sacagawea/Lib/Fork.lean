import Sacagawea.Lib.Program

/-!
# Programs that fork

A process runs a program. Most of its calls are answered once, and change the process. A fork is
answered twice, in the process and in the child that it makes, and both go on with the same program
from there. So a program comes to many processes, which are the leaves of a tree.

In a program that detaches the process that forks always ends, and its child goes on. `Detaches` is
checked along the composition of programs, and one process is left of each of its trees.
-/

/-- What the calls of a process do: a call that is answered once leaves one state, and a fork gives the
answers and the states of the process and of its child. -/
structure Kernel {C : Type} (R : C → Type) (σ : Type) where
  answers : σ → (c : C) → R c → σ → Prop
  forks : σ → (c : C) → R c × σ → R c × σ → Prop

namespace Kernel

variable {C σ : Type} {R : C → Type}

/-- A call that is no fork. -/
def Single (K : Kernel R σ) (c : C) : Prop := ∀ s parent child, ¬ K.forks s c parent child

end Kernel

namespace Program

variable {C σ ε α β : Type} {R : C → Type}

/-- The processes a program comes to, each with its state and the end of its program. -/
inductive Spawns (K : Kernel R σ) : σ → Program R ε α → List (σ × Except ε α) → Prop
  | ret (s : σ) (a : α) : Spawns K s (.ret a) [(s, .ok a)]
  | halt (s : σ) (e : ε) : Spawns K s (.halt e) [(s, .error e)]
  | call {s s' : σ} {c : C} {next : R c → Program R ε α} {r : R c} {leaves : List (σ × Except ε α)} :
      K.answers s c r s' → Spawns K s' (next r) leaves → Spawns K s (.call c next) leaves
  | fork {s : σ} {c : C} {next : R c → Program R ε α} {parent child : R c × σ}
      {parents children : List (σ × Except ε α)} :
      K.forks s c parent child → Spawns K parent.2 (next parent.1) parents →
      Spawns K child.2 (next child.1) children → Spawns K s (.call c next) (parents ++ children)

/-- A process that forks ends in `done`. The one that is left when nobody forks any more ends in `bad` or
returns in `post`. -/
def Detaches (K : Kernel R σ) (done : σ → ε → Prop) :
    Program R ε α → (bad : σ → ε → Prop) → (post : σ → α → Prop) → σ → Prop
  | .ret a, _, post, s => post s a
  | .halt e, bad, _, s => bad s e
  | .call c next, bad, post, s =>
    (∀ r s', K.answers s c r s' → (next r).Detaches K done bad post s') ∧
      ∀ parent child, K.forks s c parent child →
        (next parent.1).Detaches K done done (fun _ _ => False) parent.2 ∧
          (next child.1).Detaches K done bad post child.2

variable {K : Kernel R σ} {done bad : σ → ε → Prop} {post : σ → α → Prop} {p : Program R ε α} {s : σ}

/-! ### The rules -/

theorem Detaches.weaken {bad' : σ → ε → Prop} {post' : σ → α → Prop} (h : p.Detaches K done bad post s)
    (hbad : ∀ s e, bad s e → bad' s e) (hpost : ∀ s a, post s a → post' s a) :
    p.Detaches K done bad' post' s := by
  induction p generalizing s with
  | ret a => exact hpost s a h
  | halt e => exact hbad s e h
  | call c next ih =>
    refine ⟨fun r s' hr => ih r (h.1 r s' hr), fun parent child hfork => ?_⟩
    exact ⟨(h.2 parent child hfork).1, ih child.1 (h.2 parent child hfork).2⟩

theorem Detaches.bind {f : α → Program R ε β} {last : σ → β → Prop} (h : p.Detaches K done bad post s)
    (hf : ∀ s a, post s a → (f a).Detaches K done bad last s) :
    (p >>= f).Detaches K done bad last s := by
  induction p generalizing s bad post last with
  | ret a => exact hf s a h
  | halt e => exact h
  | call c next ih =>
    refine ⟨fun r s' hr => ih r (h.1 r s' hr) hf, fun parent child hfork => ?_⟩
    obtain ⟨hparent, hchild⟩ := h.2 parent child hfork
    exact ⟨ih parent.1 hparent fun _ _ hno => hno.elim, ih child.1 hchild hf⟩

/-- A call that is answered once. -/
theorem Detaches.ask_bind {c : C} {f : R c → Program R ε α}
    (hsingle : K.Single c) (hf : ∀ r s', K.answers s c r s' → (f r).Detaches K done bad post s') :
    (ask c >>= f).Detaches K done bad post s :=
  ⟨hf, fun parent child hfork => absurd hfork (hsingle s parent child)⟩

/-! ### The processes -/

/-- The processes of a composition are those of the first part that have ended, and one that has ended
too, or that goes on with the second part. -/
theorem Detaches.of_bind {f : α → Program R ε β} {leaves : List (σ × Except ε β)}
    (h : p.Detaches K done bad post s) (hleaves : Spawns K s (p >>= f) leaves) :
    ∃ ended rest, leaves = ended ++ rest ∧ (∀ leaf ∈ ended, ∃ e, leaf.2 = .error e ∧ done leaf.1 e) ∧
      ((∃ s' e, bad s' e ∧ rest = [(s', .error e)]) ∨ ∃ s' a, post s' a ∧ Spawns K s' (f a) rest) := by
  induction p generalizing s bad post leaves with
  | ret a => exact ⟨[], leaves, rfl, nofun, .inr ⟨s, a, h, hleaves⟩⟩
  | halt e =>
    cases hleaves
    exact ⟨[], _, rfl, nofun, .inl ⟨s, e, h, rfl⟩⟩
  | call c next ih =>
    cases hleaves with
    | call hr hrest => exact ih _ (h.1 _ _ hr) hrest
    | fork hfork hparents hchildren =>
      obtain ⟨hparent, hchild⟩ := h.2 _ _ hfork
      obtain ⟨front, last, rfl, hfront, ⟨s', e, he, rfl⟩ | ⟨-, -, hno, -⟩⟩ := ih _ hparent hparents
      · obtain ⟨ended, rest, rfl, hended, hlast⟩ := ih _ hchild hchildren
        refine ⟨front ++ [(s', .error e)] ++ ended, rest, (List.append_assoc ..).symm, ?_, hlast⟩
        simp only [List.forall_mem_append, List.forall_mem_singleton]
        exact ⟨⟨hfront, e, rfl, he⟩, hended⟩
      · exact hno.elim

theorem bind_ret (p : Program R ε α) : (p >>= .ret) = p := by
  induction p with
  | ret | halt => rfl
  | call c next ih => exact congrArg (Program.call c) (funext ih)

/-- One process is left. -/
theorem Detaches.leaves {leaves : List (σ × Except ε α)} (h : p.Detaches K done bad post s)
    (hleaves : Spawns K s p leaves) :
    ∃ ended last, leaves = ended ++ [last] ∧ (∀ leaf ∈ ended, ∃ e, leaf.2 = .error e ∧ done leaf.1 e) ∧
      ((∃ s' e, last = (s', .error e) ∧ bad s' e) ∨ ∃ s' a, last = (s', .ok a) ∧ post s' a) := by
  rw [← bind_ret p] at hleaves
  obtain ⟨ended, rest, rfl, hended, ⟨s', e, he, rfl⟩ | ⟨s', a, ha, hrest⟩⟩ := h.of_bind hleaves
  · exact ⟨ended, _, rfl, hended, .inl ⟨s', e, rfl, he⟩⟩
  · cases hrest
    exact ⟨ended, _, rfl, hended, .inr ⟨s', a, rfl, ha⟩⟩

/-- A program that cannot fork is one process. -/
theorem Detaches.leaf {leaves : List (σ × Except ε α)} (h : p.Detaches K (fun _ _ => False) bad post s)
    (hleaves : Spawns K s p leaves) :
    ∃ last, leaves = [last] ∧
      ((∃ s' e, last = (s', .error e) ∧ bad s' e) ∨ ∃ s' a, last = (s', .ok a) ∧ post s' a) := by
  obtain ⟨ended, last, rfl, hended, hlast⟩ := h.leaves hleaves
  cases ended with
  | nil => exact ⟨last, rfl, hlast⟩
  | cons first ended =>
    obtain ⟨_, -, hno⟩ := hended first List.mem_cons_self
    exact hno.elim

end Program
