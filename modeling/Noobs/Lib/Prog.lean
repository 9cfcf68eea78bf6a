import Mathlib.Data.Nat.Notation
import Mathlib.Logic.Basic

/-!
# Programs that issue commands

`Prog C R α` is a program that issues commands of `C`, is answered a value of `R c` for
each command `c`, and ends with a value of `α`. A machine is a function `step` that
answers a command and moves on. `run` is the whole run on a machine, `stop k` the state
in which a machine is found that was stopped after `k` commands.

`p.Sat P Q` says that every command `p` can issue satisfies `P` and every value it can end
with satisfies `Q`, whatever the answers. An invariant that commands of `P` preserve then
holds whenever `p` is stopped (`stop_inv`) and when it ends (`run_inv`).

`p.Throughout step R s` says that `R` holds wherever `p`, started in `s`, is stopped. It is
shown part by part, from the states the parts really start in.
-/

inductive Prog (C : Type) (R : C → Type) (α : Type) where
  | ret (a : α)
  | call (c : C) (next : R c → Prog C R α)

namespace Prog

variable {C : Type} {R : C → Type} {α β S : Type}

def bind : Prog C R α → (α → Prog C R β) → Prog C R β
  | ret a, f => f a
  | call c next, f => call c fun r => (next r).bind f

instance : Monad (Prog C R) where
  pure := ret
  bind := bind

/-- The program that issues one command. -/
def issue (c : C) : Prog C R (R c) := call c ret

theorem bind_assoc {γ : Type} (p : Prog C R α) (f : α → Prog C R β) (g : β → Prog C R γ) :
    p >>= f >>= g = p >>= fun a => f a >>= g := by
  show (p.bind f).bind g = p.bind fun a => (f a).bind g
  induction p with
  | ret a => rfl
  | call c next ih => exact congrArg (call c) (funext ih)

/-- Two programs that begin alike are compared behind that. -/
theorem bind_eq_bind_bind {γ : Type} {p : Prog C R α} {f : α → Prog C R β} {g : β → Prog C R γ}
    {f' : α → Prog C R γ} (h : ∀ a, f' a = f a >>= g) : p >>= f' = p >>= f >>= g := by
  rw [bind_assoc, funext h]

/-! ## Runs -/

variable (step : (c : C) → S → R c × S)

def run : Prog C R α → S → α × S
  | ret a, s => (a, s)
  | call c next, s => (next (step c s).1).run (step c s).2

/-- The state after `k` commands, or at the end of a shorter run. -/
def stop : ℕ → Prog C R α → S → S
  | _, ret _, s => s
  | 0, call _ _, s => s
  | k + 1, call c next, s => (next (step c s).1).stop k (step c s).2

@[simp] theorem run_pure (a : α) (s : S) : (pure a : Prog C R α).run step s = (a, s) := rfl

@[simp] theorem run_issue (c : C) (s : S) : (issue c : Prog C R _).run step s = step c s := rfl

@[simp] theorem run_bind (p : Prog C R α) (f : α → Prog C R β) (s : S) :
    (p >>= f).run step s = (f (p.run step s).1).run step (p.run step s).2 := by
  show (p.bind f).run step s = _
  induction p generalizing s with
  | ret a => rfl
  | call c next ih => exact ih _ _

/-- A program that fails if its first part does succeeds just if both parts do. -/
theorem run_guard {p q : Prog C R Bool} {s : S}
    (h : ((p >>= fun ok => if (!ok) = true then pure false else q).run step s).1 = true) :
    (p.run step s).1 = true ∧
      (p >>= fun ok => if (!ok) = true then pure false else q).run step s = q.run step (p.run step s).2 := by
  rw [run_bind] at h ⊢
  cases hok : (p.run step s).1 with
  | false =>
    rw [hok] at h
    cases h
  | true => exact ⟨rfl, rfl⟩

/-- A run is a machine that was stopped late enough. -/
theorem run_eq_stop (p : Prog C R α) (s : S) : ∃ k, ∀ j ≥ k, p.stop step j s = (p.run step s).2 := by
  induction p generalizing s with
  | ret a => exact ⟨0, fun j _ => by cases j <;> rfl⟩
  | call c next ih =>
    obtain ⟨k, hk⟩ := ih (step c s).1 (step c s).2
    refine ⟨k + 1, fun j hj => ?_⟩
    obtain ⟨j, rfl⟩ := Nat.exists_eq_succ_of_ne_zero (Nat.ne_zero_of_lt hj)
    exact hk j (Nat.le_of_succ_le_succ hj)

/-- A program that is stopped has come to its second part, or it is stopped in the first. -/
theorem stop_bind (p : Prog C R α) (f : α → Prog C R β) (k : ℕ) (s : S) :
    (p >>= f).stop step k s = p.stop step k s ∨
      ∃ j, (p >>= f).stop step k s = (f (p.run step s).1).stop step j (p.run step s).2 := by
  show (p.bind f).stop step k s = _ ∨ ∃ j, (p.bind f).stop step k s = _
  induction p generalizing k s with
  | ret a => exact Or.inr ⟨k, rfl⟩
  | call c next ih =>
    cases k with
    | zero => exact Or.inl rfl
    | succ k => exact ih _ k _

/-! ## Invariants -/

/-- Every command the program can issue satisfies `P`, and every value it can end with `Q`. -/
def Sat (P : C → Prop) (Q : α → Prop) : Prog C R α → Prop
  | ret a => Q a
  | call c next => P c ∧ ∀ r, (next r).Sat P Q

variable {step} {P P' : C → Prop} {Q Q' : α → Prop} {I : S → Prop} {p : Prog C R α}

theorem sat_pure {a : α} (h : Q a) : (pure a : Prog C R α).Sat P Q := h

theorem sat_issue {c : C} {Q : R c → Prop} (h : P c) (hQ : ∀ r, Q r) : (issue c : Prog C R _).Sat P Q :=
  ⟨h, hQ⟩

theorem sat_bind {f : α → Prog C R β} {Q' : β → Prop} (hp : p.Sat P Q)
    (hf : ∀ a, Q a → (f a).Sat P Q') : (p >>= f).Sat P Q' := by
  show (p.bind f).Sat P Q'
  induction p with
  | ret a => exact hf a hp
  | call c next ih => exact ⟨hp.1, fun r => ih r (hp.2 r)⟩

theorem Sat.mono (h : p.Sat P Q) (hP : ∀ c, P c → P' c) (hQ : ∀ a, Q a → Q' a) : p.Sat P' Q' := by
  induction p with
  | ret a => exact hQ a h
  | call c next ih => exact ⟨hP c h.1, fun r => ih r (h.2 r)⟩

/-- A program that fails if its first part does. -/
theorem sat_guard {p q : Prog C R Bool} {Q Q' : Bool → Prop} (hfail : Q' false) (hp : p.Sat P Q)
    (hq : q.Sat P Q') : (p >>= fun ok => if (!ok) = true then pure false else q).Sat P Q' := by
  refine sat_bind hp fun ok _ => ?_
  cases ok with
  | false => exact sat_pure hfail
  | true => exact hq

/-- **The value of a run** is one the program can end with. -/
theorem Sat.run (h : p.Sat P Q) (s : S) : Q (p.run step s).1 := by
  induction p generalizing s with
  | ret a => exact h
  | call c next ih => exact ih _ (h.2 _) _

/-- **An invariant holds whenever the program is stopped.** -/
theorem stop_inv (hstep : ∀ c s, P c → I s → I (step c s).2) (hp : p.Sat P Q) (k : ℕ) {s : S}
    (hs : I s) : I (p.stop step k s) := by
  induction p generalizing k s with
  | ret a => cases k <;> exact hs
  | call c next ih =>
    cases k with
    | zero => exact hs
    | succ k => exact ih _ (hp.2 _) k (hstep c s hp.1 hs)

/-- **An invariant holds when the program has ended.** -/
theorem run_inv (hstep : ∀ c s, P c → I s → I (step c s).2) (hp : p.Sat P Q) {s : S} (hs : I s) :
    I (p.run step s).2 := by
  obtain ⟨k, hk⟩ := run_eq_stop step p s
  rw [← hk k (Nat.le_refl k)]
  exact stop_inv hstep hp k hs

theorem sat_true (p : Prog C R α) : p.Sat (fun _ => True) fun _ => True := by
  induction p with
  | ret a => trivial
  | call c next ih => exact ⟨trivial, ih⟩

/-! ## Wherever a program is stopped -/

/-- The predicate holds wherever the program, started in `s`, is stopped. -/
def Throughout (step : (c : C) → S → R c × S) (I : S → Prop) (p : Prog C R α) (s : S) : Prop :=
  ∀ k, I (p.stop step k s)

theorem throughout_pure {a : α} {s : S} (h : I s) : (pure a : Prog C R α).Throughout step I s := by
  intro k
  cases k <;> exact h

theorem throughout_issue {c : C} {s : S} (h : I s) (h' : I (step c s).2) :
    (issue c : Prog C R _).Throughout step I s := by
  intro k
  cases k with
  | zero => exact h
  | succ k => exact throughout_pure h' k

theorem throughout_bind {f : α → Prog C R β} {s : S} (hp : p.Throughout step I s)
    (hf : (f (p.run step s).1).Throughout step I (p.run step s).2) :
    (p >>= f).Throughout step I s := by
  intro k
  rcases stop_bind step p f k s with h | ⟨j, h⟩
  · rw [h]
    exact hp k
  · rw [h]
    exact hf j

theorem Throughout.mono {I' : S → Prop} {s : S} (h : p.Throughout step I s) (hI : ∀ s, I s → I' s) :
    p.Throughout step I' s :=
  fun k => hI _ (h k)

theorem Sat.throughout {s : S} (h : p.Sat P Q) (hstep : ∀ c s, P c → I s → I (step c s).2) (hs : I s) :
    p.Throughout step I s :=
  fun k => stop_inv hstep h k hs

/-- A predicate that holds wherever a program is stopped holds when it has ended. -/
theorem Throughout.run {s : S} (h : p.Throughout step I s) : I (p.run step s).2 := by
  obtain ⟨k, hk⟩ := run_eq_stop step p s
  rw [← hk k (Nat.le_refl k)]
  exact h k

end Prog
