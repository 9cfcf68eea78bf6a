import Noobs.Proof.Steps

/-!
# Programs that follow a plan

A plan lists the steps a program takes as long as none of those it needs fails, and the
conditions it checks in between. `Follows p m plan Q`: started on `m`, the program `p`
returns a value of `Q` just when the plan succeeds, and then leaves the machine the plan
leaves.

`follows_bind` composes plans along a program. A plan is a list of inputs of the machine:
what it takes to succeed is a condition on the machine's `outcome`.
-/

namespace Noobs

variable {α β : Type} {m m' : Machine}

/-! ## Plans -/

/-- A condition that is checked, or a step that is taken if it applies and may be needed
to succeed. -/
inductive Item where
  | check (holds : World → Bool)
  | step (needed : Bool) (applies : World → Bool) (s : Step) (d : World → Data)

/-- A step that is always taken and must succeed. -/
abbrev Item.needs (s : Step) (d : World → Data := fun _ => .empty) : Item :=
  .step true (fun _ => true) s d

/-- A step whose result nobody looks at. -/
abbrev Item.tries (s : Step) (d : World → Data := fun _ => .empty) : Item :=
  .step false (fun _ => true) s d

/-- The machine after the steps of a plan. -/
def Machine.perform : Machine → List Item → Machine
  | m, [] => m
  | m, .check _ :: plan => m.perform plan
  | m, .step _ applies s d :: plan =>
    (if applies m.world then (m.act s (d m.world)).2 else m).perform plan

/-- Every condition of the plan holds and every step it needs succeeds. -/
def Machine.Succeeds : Machine → List Item → Prop
  | _, [] => True
  | m, .check holds :: plan => holds m.world = true ∧ m.Succeeds plan
  | m, .step needed applies s d :: plan =>
    if applies m.world then
      (needed = true → (m.act s (d m.world)).1 = true) ∧ (m.act s (d m.world)).2.Succeeds plan
    else m.Succeeds plan

theorem perform_append (plan plan' : List Item) : m.perform (plan ++ plan') = (m.perform plan).perform plan' := by
  induction plan generalizing m with
  | nil => rfl
  | cons item plan ih =>
    cases item with
    | check holds => exact ih
    | step needed applies s d => exact ih

theorem succeeds_append (plan plan' : List Item) :
    m.Succeeds (plan ++ plan') ↔ m.Succeeds plan ∧ (m.perform plan).Succeeds plan' := by
  induction plan generalizing m with
  | nil => exact ⟨fun h => ⟨trivial, h⟩, fun h => h.2⟩
  | cons item plan ih =>
    cases item with
    | check holds =>
      simp only [List.cons_append, Machine.Succeeds, Machine.perform, ih, and_assoc]
    | step needed applies s d =>
      simp only [List.cons_append, Machine.Succeeds, Machine.perform]
      split_ifs
      · rw [ih, and_assoc]
      · exact ih

/-! ## Following a plan -/

/-- The program returns a value of `Q` just when the plan succeeds, and then leaves the
machine the plan leaves. -/
structure Follows (p : Sys α) (m : Machine) (plan : List Item) (Q : α → Prop) : Prop where
  done : m.Succeeds plan → Q (m.run p).1 ∧ (m.run p).2 = m.perform plan
  only : Q (m.run p).1 → m.Succeeds plan

variable {p : Sys α} {plan plan' : List Item} {Q : α → Prop} {Q' : β → Prop}

theorem Follows.run_eq (h : Follows p m plan Q) (hQ : Q (m.run p).1) : (m.run p).2 = m.perform plan :=
  (h.done (h.only hQ)).2

theorem follows_pure {a : α} (h : Q a) : Follows (pure a) m [] Q :=
  ⟨fun _ => ⟨h, rfl⟩, fun _ => trivial⟩

/-- A program that goes on if the first part returns a value of `Q` and fails otherwise. -/
theorem follows_bind {f : α → Sys β} (hp : Follows p m plan Q)
    (hf : ∀ a, Q a → Follows (f a) (m.perform plan) plan' Q')
    (hfail : ¬Q (m.run p).1 → ¬Q' ((m.run p).2.run (f (m.run p).1)).1) :
    Follows (p >>= f) m (plan ++ plan') Q' := by
  constructor
  · intro h
    obtain ⟨h1, h2⟩ := (succeeds_append plan plan').1 h
    obtain ⟨hQ, hm⟩ := hp.done h1
    obtain ⟨hQ', hm'⟩ := (hf _ hQ).done h2
    rw [run_bind, perform_append]
    rw [← hm] at hQ' hm' ⊢
    exact ⟨hQ', hm'⟩
  · intro h
    rw [run_bind] at h
    by_cases hQ : Q (m.run p).1
    · have hm := hp.run_eq hQ
      refine (succeeds_append plan plan').2 ⟨hp.only hQ, (hf _ hQ).only ?_⟩
      rw [← hm]
      exact h
    · exact absurd h (hfail hQ)

/-- A program that fails if its first part does. -/
theorem follows_guard {p : Sys Bool} {f : Bool → Sys β} (hp : Follows p m plan (· = true))
    (hf : Follows (f true) (m.perform plan) plan' Q') (hfail : ∀ m, ¬Q' (Machine.run m (f false)).1) :
    Follows (p >>= f) m (plan ++ plan') Q' := by
  apply follows_bind hp
  · rintro _ rfl
    exact hf
  · intro h
    rw [Bool.not_eq_true] at h
    rw [h]
    exact hfail _

/-- A program whose first part only asks. -/
theorem follows_asks {f : α → Sys β} (hp : (m.run p).2 = m)
    (h : Follows (f (m.run p).1) m plan' Q') : Follows (p >>= f) m plan' Q' := by
  have hrun : m.run (p >>= f) = m.run (f (m.run p).1) := by
    rw [run_bind, hp]
  constructor
  · rw [hrun]
    exact h.done
  · rw [hrun]
    exact h.only

/-- A program that takes a step first and fails if it does. -/
theorem follows_step {s : Step} {d : Data} {e : World → Data} {f : Bool → Sys β}
    (h : Follows (f true) (m.act s d).2 plan' Q')
    (hfail : (m.act s d).1 = false → ¬Q' ((m.act s d).2.run (f false)).1)
    (hd : m.act s (e m.world) = m.act s d := by rfl) :
    Follows (act s d >>= f) m (.needs s e :: plan') Q' := by
  constructor
  · intro hs
    change (true = true → (m.act s (e m.world)).1 = true) ∧ (m.act s (e m.world)).2.Succeeds plan' at hs
    rw [hd] at hs
    obtain ⟨hQ, hm⟩ := h.done hs.2
    rw [run_act_bind, hs.1 rfl]
    refine ⟨hQ, hm.trans ?_⟩
    show _ = (m.act s (e m.world)).2.perform plan'
    rw [hd]
  · intro hQ
    show (true = true → (m.act s (e m.world)).1 = true) ∧ (m.act s (e m.world)).2.Succeeds plan'
    rw [run_act_bind] at hQ
    rw [hd]
    cases hok : (m.act s d).1 with
    | true => rw [hok] at hQ; exact ⟨fun _ => rfl, h.only hQ⟩
    | false => rw [hok] at hQ; exact absurd hQ (hfail hok)

/-- A program that takes a step first and goes on as well if it fails. -/
theorem follows_try {s : Step} {d : Data} {e : World → Data} {f : Bool → Sys β}
    (h : ∀ ok, Follows (f ok) (m.act s d).2 plan' Q')
    (hd : m.act s (e m.world) = m.act s d := by rfl) :
    Follows (act s d >>= f) m (.tries s e :: plan') Q' := by
  constructor
  · rintro ⟨-, hs⟩
    rw [hd] at hs
    obtain ⟨hQ, hm⟩ := (h (m.act s d).1).done hs
    refine ⟨hQ, hm.trans ?_⟩
    show _ = (m.act s (e m.world)).2.perform plan'
    rw [hd]
  · intro hQ
    refine ⟨fun hneeded => absurd hneeded Bool.false_ne_true, ?_⟩
    rw [hd]
    exact (h _).only hQ

/-- A program that fails unless a condition holds. -/
theorem follows_check {holds : World → Bool} (h : holds m.world = true → Follows p m plan Q)
    (hfail : holds m.world = false → ¬Q (m.run p).1) : Follows p m (.check holds :: plan) Q := by
  constructor
  · rintro ⟨hc, hs⟩
    exact (h hc).done hs
  · intro hQ
    cases hc : holds m.world with
    | true => exact ⟨hc, (h hc).only hQ⟩
    | false => exact absurd hQ (hfail hc)

/-- A step that applies. -/
theorem follows_when {needed : Bool} {applies : World → Bool} {s : Step} {e : World → Data}
    (ha : applies m.world = true) (h : Follows p m (.step needed (fun _ => true) s e :: plan) Q) :
    Follows p m (.step needed applies s e :: plan) Q := by
  constructor
  · intro hs
    simp only [Machine.Succeeds, ha, if_true] at hs
    have := h.done hs
    simpa only [Machine.perform, ha, if_true] using this
  · intro hQ
    simp only [Machine.Succeeds, ha, if_true]
    exact h.only hQ

/-- A step that does not apply. -/
theorem follows_unless {needed : Bool} {applies : World → Bool} {s : Step} {e : World → Data}
    (ha : applies m.world = false) (h : Follows p m plan Q) :
    Follows p m (.step needed applies s e :: plan) Q := by
  constructor
  · intro hs
    simp only [Machine.Succeeds, ha, Bool.false_eq_true, if_false] at hs
    simpa only [Machine.perform, ha, Bool.false_eq_true, if_false] using h.done hs
  · intro hQ
    simp only [Machine.Succeeds, ha, Bool.false_eq_true, if_false]
    exact h.only hQ

/-- A program that ends with a step. -/
theorem follows_act {s : Step} {d : Data} {e : World → Data} (hd : m.act s (e m.world) = m.act s d := by rfl) :
    Follows (act s d) m [.needs s e] (· = true) :=
  have h : Follows (act s d >>= pure) m [.needs s e] (· = true) :=
    follows_step (follows_pure rfl) (fun _ => Bool.false_ne_true) hd
  ⟨h.done, h.only⟩

/-- A program that returns what another one does, in another form. -/
theorem follows_map {f : α → β} (h : Follows p m plan Q) (hf : ∀ a, Q' (f a) ↔ Q a) :
    Follows (p >>= fun a => pure (f a)) m plan Q' := by
  have hrun : m.run (p >>= fun a => pure (f a)) = (f (m.run p).1, (m.run p).2) := by
    rw [run_bind]
    rfl
  constructor
  · intro hs
    rw [hrun]
    exact ⟨(hf _).2 (h.done hs).1, (h.done hs).2⟩
  · intro hQ
    rw [hrun] at hQ
    exact h.only ((hf _).1 hQ)

end Noobs
