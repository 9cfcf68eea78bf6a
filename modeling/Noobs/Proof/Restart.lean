import Noobs.Proof.Number
import Noobs.Spec.PreSetup

/-!
# Preparing the card again

Whether the card is prepared is read off the partitions it has. `sfdisk` creates the
settings partition, and only a later step formats it: a run that ends in between leaves a
card that every later run takes for a prepared one.

* `serveCard_at`: what one step does to the card, by what is logged of it.
* `on_blank`: at which stage a run leaves a card that has to be prepared.
* `preparation_restartable`: **the preparation can be started again** after any runs, just
  if none of them was interrupted there and the first card was not half prepared.
-/

namespace Noobs

open Prog
open PreSetup (initialLines checkAndPrepareSDCard)

variable {m : CardMachine} {c : Card} {r : CardRun} {log : List (CardStep × Bool)} {s : CardStep}

/-! ## Cards -/

/-- The settings partition is there, and was formatted since it was created. -/
def Card.Prepared (c : Card) : Prop := c.partitions 5 = true ∧ c.formatted = true

/-- The card looks prepared, and is not. -/
def Card.Bare (c : Card) : Prop := (c.partitions 2 = true ∨ c.partitions 5 = true) ∧ ¬c.Prepared

/-- A run that is not stopped leaves the card prepared, or reports that it did not. -/
def Card.RestartSafe (c : Card) : Prop :=
  ∀ env, (checkAndPrepareSDCard.run serveCard { card := c, env := env }).1 = true →
    (checkAndPrepareSDCard.run serveCard { card := c, env := env }).2.card.Prepared

/-- What was logged ends between `sfdisk` and `mkfs`: the settings partition was created,
and behind that neither formatted nor removed. -/
def Interrupted (log : List (CardStep × Bool)) : Prop :=
  ∃ before table behind, log = before ++ (.sfdisk table, true) :: behind ∧
    ∀ e ∈ behind, e ≠ (.zeroEntries, true) ∧ ∀ command, e ≠ (.mkfs command, true)

/-! ## Stages -/

/-- How far the preparation of a card has got. -/
inductive Stage where
  | blank
  | created
  | prepared
  deriving DecidableEq, Repr

def Card.At (c : Card) : Stage → Prop
  | .blank => c.partitions 2 = false ∧ c.partitions 5 = false
  | .created => c.partitions 5 = true ∧ c.formatted = false
  | .prepared => c.Prepared

/-- The stage after a step, by whether it succeeded. -/
def Stage.after (stage : Stage) (e : CardStep × Bool) : Stage :=
  match stage, e with
  | _, (.zeroEntries, true) => .blank
  | _, (.sfdisk _, true) => .created
  | .created, (.mkfs _, true) => .prepared
  | stage, _ => stage

/-- The stage a log of steps leads to, from a blank card. -/
def stageOf (log : List (CardStep × Bool)) : Stage := log.foldl Stage.after .blank

@[simp] theorem stageOf_concat (e : CardStep × Bool) : stageOf (log ++ [e]) = (stageOf log).after e := by
  unfold stageOf
  rw [List.foldl_append]
  rfl

/-- The settings partition is created by this step, or was created before and stays as it is. -/
theorem after_eq_created {stage : Stage} {e : CardStep × Bool} : stage.after e = .created ↔
    (∃ table, e = (.sfdisk table, true)) ∨
      (stage = .created ∧ e ≠ (.zeroEntries, true) ∧ ∀ command, e ≠ (.mkfs command, true)) := by
  obtain ⟨s, ok⟩ := e
  cases ok <;> cases s <;> cases stage <;> simp [Stage.after]

theorem stageOf_eq_created : stageOf log = .created ↔ Interrupted log := by
  induction log using List.reverseRecOn with
  | nil =>
    constructor
    · intro h
      cases h
    · rintro ⟨before, table, behind, heq, -⟩
      exact absurd heq.symm (by simp)
  | append_singleton log e ih =>
    rw [stageOf_concat, after_eq_created, ih]
    constructor
    · rintro (⟨table, rfl⟩ | ⟨⟨before, table, behind, rfl, hbehind⟩, he⟩)
      · exact ⟨log, table, [], rfl, fun e he => absurd he List.not_mem_nil⟩
      · refine ⟨before, table, behind ++ [e], by simp, fun e' he' => ?_⟩
        rcases List.mem_append.1 he' with he' | he'
        · exact hbehind e' he'
        · rw [List.mem_singleton.1 he']
          exact he
    · rintro ⟨before, table, behind, heq, hbehind⟩
      rcases List.eq_nil_or_concat behind with rfl | ⟨behind, e', rfl⟩
      · exact Or.inl ⟨table, List.singleton_inj.1 (List.append_inj' heq rfl).2⟩
      · -- the last entry stands behind `sfdisk`, and leaves what was there
        rw [List.concat_eq_append] at heq hbehind
        rw [← List.cons_append, ← List.append_assoc] at heq
        obtain ⟨rfl, he⟩ := List.append_inj' heq rfl
        rw [List.singleton_inj.1 he]
        refine Or.inr ⟨⟨before, table, behind, rfl, fun e he => ?_⟩, ?_⟩
        · exact hbehind e (List.mem_append_left _ he)
        · exact hbehind e' (List.mem_append_right _ List.mem_cons_self)

/-! ## What a step does -/

theorem newline_not_mem_initialLines (start size : ℤ) : ∀ l ∈ initialLines start size, '\n' ∉ l := by
  intro l hl
  have hzero : '\n' ∉ "0,0".toList := by decide
  simp only [initialLines, List.mem_cons, List.not_mem_nil, or_false] at hl
  rcases hl with rfl | rfl | rfl | rfl | rfl
  · simp [newline_not_mem_number]
  · simp [newline_not_mem_number]
  · exact hzero
  · exact hzero
  · simp [newline_not_mem_number]

/-- `sfdisk` is told to make the settings partition. -/
theorem initial_partitions (start size : ℤ) :
    tablePartitions (terminated '\n' (initialLines start size)) 5 = true := by
  have hlast : ∀ a b : Text, a ++ ',' :: b ++ ",L".toList ≠ "0,0".toList := by
    intro a b heq
    have h := congrArg List.getLast? heq
    rw [List.getLast?_append_of_ne_nil _ (by decide)] at h
    exact absurd h (by decide)
  unfold tablePartitions
  simp only [lines_terminated (newline_not_mem_initialLines start size)]
  simp only [initialLines, List.getElem?_cons_succ, List.getElem?_cons_zero, decide_eq_true_eq]
  exact hlast _ _

/-- A table that is written makes the settings partition. -/
def CardCall.Sound : CardCall → Prop
  | .act (.sfdisk table) => tablePartitions table 5 = true
  | _ => True

/-- The call leaves the partitions as they are. -/
def CardCall.Quiet : CardCall → Prop
  | .act .zeroEntries => False
  | .act (.sfdisk _) => False
  | .act (.mkfs _) => False
  | _ => True

theorem apply_at {stage : Stage} (h : c.At stage) (hs : (CardCall.act s).Sound) :
    (c.apply s).At (stage.after (s, true)) := by
  cases s with
  | zeroEntries => exact ⟨by simp [Card.apply], by simp [Card.apply]⟩
  | sfdisk table =>
    have hafter : stage.after (.sfdisk table, true) = .created := by cases stage <;> rfl
    rw [hafter]
    exact ⟨hs, rfl⟩
  | mkfs command =>
    cases stage with
    | blank => exact h
    | created => exact ⟨h.1, h.1⟩
    | prepared => exact ⟨h.1, h.1⟩
  | _ => cases stage <;> exact h

/-- **What one step does to the card**, by what is logged of it. -/
theorem serveCard_at {call : CardCall} (hs : call.Sound) (h : m.card.At (stageOf m.log)) :
    (serveCard call m).2.card.At (stageOf (serveCard call m).2.log) := by
  cases call with
  | ask q => exact h
  | act s =>
    show Card.At (if m.env.outcome s m.log.length then m.card.apply s else m.card) (stageOf (m.log ++ [_]))
    rw [stageOf_concat]
    cases m.env.outcome s m.log.length with
    | true => exact apply_at h hs
    | false =>
      have hafter : (stageOf m.log).after (s, false) = stageOf m.log := by
        cases s <;> cases stageOf m.log <;> rfl
      rw [hafter]
      exact h

theorem serveCard_quiet {call : CardCall} {stage : Stage} (hq : call.Quiet) (h : stageOf m.log = stage) :
    stageOf (serveCard call m).2.log = stage := by
  cases call with
  | ask q => exact h
  | act s =>
    show stageOf (m.log ++ [_]) = stage
    rw [stageOf_concat, h]
    cases s <;> first | exact hq.elim | (cases stage <;> cases m.env.outcome _ _ <;> rfl)

namespace PreSetup

/-! ## The parts of a run -/

theorem sound_ask (q : CardQuery) : (ask q).Sat CardCall.Sound fun _ => True :=
  sat_issue trivial fun _ => trivial

theorem sound_act (h : (CardCall.act s).Sound) : (act s).Sat CardCall.Sound fun _ => True :=
  sat_issue h fun _ => trivial

theorem quiet_ask (q : CardQuery) : (ask q).Sat CardCall.Quiet fun _ => True :=
  sat_issue trivial fun _ => trivial

theorem quiet_act (h : (CardCall.act s).Quiet) : (act s).Sat CardCall.Quiet fun _ => True :=
  sat_issue h fun _ => trivial

theorem sound_of_quiet {call : CardCall} (h : call.Quiet) : call.Sound := by
  cases call with
  | ask q => trivial
  | act s =>
    cases s with
    | sfdisk table => exact h.elim
    | _ => trivial

theorem writeRiscOSblob_quiet : writeRiscOSblob.Sat CardCall.Quiet fun _ => True := by
  refine sat_bind (quiet_ask _) fun there _ => ?_
  split_ifs
  · exact quiet_act trivial
  · exact sat_pure trivial

theorem checkChanges_quiet : checkChanges.Sat CardCall.Quiet fun _ => True := by
  refine sat_bind (quiet_act trivial) fun _ _ => sat_bind (quiet_act trivial) fun _ _ => ?_
  exact sat_guard trivial (quiet_act trivial) (sat_bind (quiet_act trivial) fun _ _ => sat_pure trivial)

/-- What `resizePartitions` does behind `sfdisk`. -/
def labelSystems : CardSys Bool := do
  if ← ask .rescueExists then
    let _ ← act .mlabel
    act .mountSystems
  else
    let _ ← act .partprobe
    let _ ← act .mlabel
    act .mountSystems

theorem labelSystems_quiet : labelSystems.Sat CardCall.Quiet fun _ => True := by
  refine sat_bind (quiet_ask _) fun there _ => ?_
  split_ifs
  · exact sat_bind (quiet_act trivial) fun _ _ => quiet_act trivial
  · exact sat_bind (quiet_act trivial) fun _ _ => sat_bind (quiet_act trivial) fun _ _ => quiet_act trivial

/-- What holds of the first table and of every step that leaves the partitions as they are
holds of all that `resizePartitions` calls. -/
theorem resizePartitions_sat {P : CardCall → Prop} (hquiet : ∀ call : CardCall, call.Quiet → P call)
    (hzero : P (.act .zeroEntries))
    (hfirst : ∀ start size, P (.act (.sfdisk (terminated '\n' (initialLines start size))))) :
    resizePartitions.Sat P fun _ => True := by
  have hask : ∀ q, (ask q).Sat P fun _ => True := fun q => sat_issue (hquiet _ trivial) fun _ => trivial
  have hact : ∀ {s}, P (.act s) → (act s).Sat P fun _ => True := fun h => sat_issue h fun _ => trivial
  refine sat_bind (hask _) fun newStart _ => sat_bind (hask _) fun newSize _ => ?_
  refine sat_guard trivial (hact (hquiet _ trivial)) (sat_guard trivial (hask _) ?_)
  refine sat_bind (hact hzero) fun _ _ => sat_guard trivial (hact (hquiet _ trivial)) ?_
  refine sat_bind (hask _) fun start _ => sat_bind (hask _) fun size _ => ?_
  refine sat_guard trivial (hact (hfirst start size)) ?_
  exact labelSystems_quiet.mono hquiet fun _ _ => trivial

theorem resizePartitions_sound : resizePartitions.Sat CardCall.Sound fun _ => True :=
  resizePartitions_sat (fun _ => sound_of_quiet) trivial initial_partitions

/-- What `checkAndPrepareSDCard` does with a card that has to be prepared. -/
def prepareSDCard : CardSys Bool := do
  if !(← act .mountSystems) then return false
  else if !(← resizePartitions) then return false
  else if !(← formatSettingsPartition) then return false
  else if !(← writeRiscOSblob) then return false
  else checkChanges

theorem prepareSDCard_sound : prepareSDCard.Sat CardCall.Sound fun _ => True := by
  refine sat_guard trivial (sound_act trivial) (sat_guard trivial resizePartitions_sound ?_)
  refine sat_guard trivial (sound_act trivial) (sat_guard (Q := fun _ => True) trivial ?_ ?_)
  · exact writeRiscOSblob_quiet.mono (fun _ h => sound_of_quiet h) fun _ _ => trivial
  · exact checkChanges_quiet.mono (fun _ h => sound_of_quiet h) fun _ _ => trivial

/-! ## Runs on a card -/

theorem run_ask (q : CardQuery) : (ask q).run serveCard m = (m.answer q, m) := rfl

/-- A card with one of the two partitions is taken for a prepared one. -/
theorem check_taken (h : m.card.partitions 2 = true ∨ m.card.partitions 5 = true) :
    checkAndPrepareSDCard.Throughout serveCard (· = m) m := by
  have hstop : ∀ q, (ask q).Throughout serveCard (· = m) m := fun q => throughout_issue rfl rfl
  unfold checkAndPrepareSDCard
  refine throughout_bind (hstop _) ?_
  show (if m.card.partitions 2 = true then _ else _ : CardSys Bool).Throughout serveCard (· = m) m
  split_ifs with h2
  · exact throughout_pure rfl
  · -- both questions leave the machine as it is
    refine throughout_bind (hstop _) ?_
    show (if m.card.partitions 5 = true then _ else _ : CardSys Bool).Throughout serveCard (· = m) m
    rw [if_pos (h.resolve_left h2)]
    exact throughout_pure rfl

theorem run_taken (h : m.card.partitions 2 = true ∨ m.card.partitions 5 = true) :
    (checkAndPrepareSDCard.run serveCard m).1 = true := by
  unfold checkAndPrepareSDCard
  rw [Prog.run_bind, run_ask]
  show (run serveCard (if m.card.partitions 2 = true then _ else _ : CardSys Bool) m).1 = true
  split_ifs with h2
  · rfl
  · rw [Prog.run_bind, run_ask]
    show (run serveCard (if m.card.partitions 5 = true then _ else _ : CardSys Bool) m).1 = true
    rw [if_pos (h.resolve_left h2)]
    rfl

/-- A card with neither is prepared. -/
theorem run_blank (h : m.card.At .blank) :
    checkAndPrepareSDCard.run serveCard m = prepareSDCard.run serveCard m := by
  have h2 : m.answer (.partitionExists 2) = false := h.1
  have h5 : m.answer (.partitionExists 5) = false := h.2
  unfold checkAndPrepareSDCard
  rw [Prog.run_bind, run_ask, h2, if_neg Bool.false_ne_true, Prog.run_bind, run_ask, h5, if_neg Bool.false_ne_true]
  rfl

theorem check_sound : checkAndPrepareSDCard.Sat CardCall.Sound fun _ => True := by
  unfold checkAndPrepareSDCard
  refine sat_bind (sound_ask _) fun two _ => ?_
  split_ifs
  · exact sat_pure trivial
  · refine sat_bind (sound_ask _) fun five _ => ?_
    split_ifs
    · exact sat_pure trivial
    · exact prepareSDCard_sound

/-! ## Where a run succeeds -/

/-- A quiet part does not change the stage. -/
theorem quiet_stage {p : CardSys Bool} {Q : Bool → Prop} (h : p.Sat CardCall.Quiet Q) (m : CardMachine) :
    stageOf (p.run serveCard m).2.log = stageOf m.log := by
  have hstep : ∀ call (m' : CardMachine), CardCall.Quiet call → stageOf m'.log = stageOf m.log →
      stageOf (serveCard call m').2.log = stageOf m.log := fun _ _ hq hI => serveCard_quiet hq hI
  exact run_inv (I := fun m' : CardMachine => stageOf m'.log = stageOf m.log) hstep h rfl

theorem stage_act (s : CardStep) (h : ((act s).run serveCard m).1 = true) :
    stageOf ((act s).run serveCard m).2.log = (stageOf m.log).after (s, true) := by
  have hok : m.env.outcome s m.log.length = true := h
  show stageOf (m.log ++ [(s, m.env.outcome s m.log.length)]) = _
  rw [stageOf_concat, hok]

/-- Where `resizePartitions` succeeds, it has created the settings partition. -/
theorem resizePartitions_created (h : (resizePartitions.run serveCard m).1 = true) :
    stageOf (resizePartitions.run serveCard m).2.log = .created := by
  -- it succeeds, so each of its guards does
  unfold resizePartitions at h ⊢
  rw [Prog.run_bind, run_ask, Prog.run_bind, run_ask] at h ⊢
  obtain ⟨-, hunmount⟩ := run_guard _ h
  rw [hunmount] at h ⊢
  obtain ⟨-, hthere⟩ := run_guard _ h
  rw [hthere, Prog.run_bind] at h ⊢
  obtain ⟨-, hparted⟩ := run_guard _ h
  rw [hparted, Prog.run_bind, run_ask, Prog.run_bind, run_ask] at h ⊢
  obtain ⟨hok, hsfdisk⟩ := run_guard _ h
  rw [hsfdisk]
  -- behind `sfdisk` nothing changes the partitions
  refine (quiet_stage labelSystems_quiet _).trans ?_
  rw [stage_act _ hok]
  exact after_eq_created.2 (Or.inl ⟨_, rfl⟩)

/-- Where the whole preparation succeeds, the settings partition is formatted behind that. -/
theorem prepareSDCard_prepared (h : (prepareSDCard.run serveCard m).1 = true) :
    stageOf (prepareSDCard.run serveCard m).2.log = .prepared := by
  unfold prepareSDCard at h ⊢
  obtain ⟨-, hmount⟩ := run_guard _ h
  rw [hmount] at h ⊢
  obtain ⟨hresized, hresize⟩ := run_guard _ h
  rw [hresize] at h ⊢
  obtain ⟨hformatted, hformat⟩ := run_guard _ h
  rw [hformat] at h ⊢
  obtain ⟨-, hblob⟩ := run_guard _ h
  rw [hblob, quiet_stage checkChanges_quiet, quiet_stage writeRiscOSblob_quiet]
  refine (stage_act _ hformatted).trans ?_
  rw [resizePartitions_created hresized]
  rfl

end PreSetup

/-! ## Any number of runs -/

open PreSetup

/-- A card that does not look prepared is found at the stage that the run's log gives. -/
theorem on_blank (h : c.At .blank) (r : CardRun) : (r.on c).card.At (stageOf (r.on c).log) := by
  have hstep : ∀ call (m : CardMachine), call.Sound → m.card.At (stageOf m.log) →
      (serveCard call m).2.card.At (stageOf (serveCard call m).2.log) := fun _ _ hs hI => serveCard_at hs hI
  unfold CardRun.on
  cases r.cut with
  | none => exact run_inv (I := fun m : CardMachine => m.card.At (stageOf m.log)) hstep check_sound h
  | some k => exact stop_inv (I := fun m : CardMachine => m.card.At (stageOf m.log)) hstep check_sound k h

/-- A card that looks prepared is left as it is. -/
theorem on_taken (h : c.partitions 2 = true ∨ c.partitions 5 = true) (r : CardRun) :
    r.on c = { card := c, env := r.env } := by
  have hthroughout := check_taken (m := { card := c, env := r.env }) h
  unfold CardRun.on
  cases r.cut with
  | none => exact hthroughout.run
  | some k => exact hthroughout k

theorem blank_or_taken (c : Card) : c.At .blank ∨ (c.partitions 2 = true ∨ c.partitions 5 = true) := by
  unfold Card.At
  cases c.partitions 2 <;> cases c.partitions 5 <;> simp

/-- A card can be prepared again just if it is not taken for a prepared one wrongly. -/
theorem restartSafe_iff : c.RestartSafe ↔ ¬c.Bare := by
  constructor
  · rintro hsafe ⟨htaken, hbare⟩
    -- the next run finds the partition and returns at once
    refine hbare ?_
    have h := hsafe {} (run_taken htaken)
    rwa [(check_taken htaken).run] at h
  · intro hbare env htrue
    rcases blank_or_taken c with hblank | htaken
    · have hstage := on_blank hblank { env := env }
      rw [run_blank hblank] at htrue
      have hprepared : stageOf (CardRun.on { env := env } c).log = .prepared := by
        show stageOf (checkAndPrepareSDCard.run serveCard _).2.log = .prepared
        rw [run_blank hblank]
        exact prepareSDCard_prepared htrue
      rw [hprepared] at hstage
      exact hstage
    · rw [(check_taken htaken).run]
      exact not_not.1 fun hnot => hbare ⟨htaken, hnot⟩

theorem bare_iff {stage : Stage} (h : c.At stage) : c.Bare ↔ stage = .created := by
  cases stage with
  | blank =>
    refine iff_of_false ?_ (by decide)
    rintro ⟨h2 | h5, -⟩
    · exact absurd (h.1.symm.trans h2) Bool.false_ne_true
    · exact absurd (h.2.symm.trans h5) Bool.false_ne_true
  | created =>
    refine iff_of_true ⟨Or.inr h.1, fun hprepared => ?_⟩ rfl
    exact absurd (h.2.symm.trans hprepared.2) Bool.false_ne_true
  | prepared => exact iff_of_false (fun hbare => hbare.2 h) (by decide)

/-- A run makes a card half prepared just if it is interrupted there. -/
theorem bare_on_iff (hbare : ¬c.Bare) : (r.on c).card.Bare ↔ Interrupted (r.on c).log := by
  rcases blank_or_taken c with hblank | htaken
  · rw [bare_iff (on_blank hblank r), stageOf_eq_created]
  · rw [on_taken htaken]
    refine iff_of_false hbare ?_
    rintro ⟨before, table, behind, heq, -⟩
    exact absurd heq.symm (by simp)

theorem after_concat (c : Card) (rs : List CardRun) (r : CardRun) :
    c.after (rs ++ [r]) = (r.on (c.after rs)).card := by
  unfold Card.after
  rw [List.foldl_append]
  rfl

/-- **The preparation can be started again**, however often and wherever runs are stopped or
fail, just if the first card did not look prepared without being it, and no run was
interrupted between the creation of the settings partition and its formatting. -/
theorem preparation_restartable (c : Card) (rs : List CardRun) :
    (∀ rs', rs' <+: rs → (c.after rs').RestartSafe) ↔
      ¬c.Bare ∧ ∀ rs' r, rs' ++ [r] <+: rs → ¬Interrupted (r.on (c.after rs')).log := by
  simp only [restartSafe_iff]
  constructor
  · intro h
    refine ⟨h [] List.nil_prefix, fun rs' r hbegins hcut => ?_⟩
    -- the run starts on a card that is not bare, and so does the next
    have hbefore := h rs' ((List.prefix_append rs' [r]).trans hbegins)
    refine h _ hbegins ?_
    rw [after_concat]
    exact (bare_on_iff hbefore).2 hcut
  · -- by induction over the runs, the last one first
    rintro ⟨hfirst, hruns⟩ rs'
    induction rs' using List.reverseRecOn with
    | nil => exact fun _ => hfirst
    | append_singleton rs' r ih =>
      intro hbegins hbare
      have hbefore := ih ((List.prefix_append rs' [r]).trans hbegins)
      rw [after_concat] at hbare
      exact hruns rs' r hbegins ((bare_on_iff hbefore).1 hbare)

/-- A card with one partition. -/
def freshCard : Card := { partitions := fun n => decide (n = 1), formatted := false }

/-- Everything succeeds until the power is cut right behind `sfdisk`. -/
def cutRun : CardRun := { env := {}, cut := some 12 }

/-- The next run then reports success, and the settings partition was never formatted. -/
theorem unformatted_settings : ¬(freshCard.after [cutRun]).RestartSafe := by
  have hcard : freshCard.after [cutRun] =
      (freshCard.apply .zeroEntries).apply (.sfdisk (terminated '\n' (initialLines 8192 204800))) := rfl
  rw [restartSafe_iff, hcard, not_not]
  exact ⟨Or.inr (initial_partitions 8192 204800), fun hprepared => absurd hprepared.2 Bool.false_ne_true⟩

end Noobs
