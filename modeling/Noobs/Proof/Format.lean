import Noobs.Proof.Crash
import Noobs.Spec.Parse
import Noobs.Spec.Process

/-!
# Making file systems

`mkfs` puts a command together from the type's program, the label, the options and the
device. For a type it does not know there is no program: the first word of the options is
started instead, or the device itself if there are none. That fails to start, and counts
as a success.

* `Between`: what has been split before the device.
* `made_or_reported_iff`: **every type is made or reported** just where the command
  begins with a program of the type and its quotes do not swallow the device.
-/

namespace Noobs

variable {s s' : Splitter} {c : Char} {args : List Text} {b : Bool}

/-! ## Splitting a command -/

theorem args_push (s : Splitter) (c : Char) : s.args <+: (s.push c).args := by
  have hflush : s.args <+: s.flush := by
    unfold Splitter.flush
    split_ifs
    · exact List.prefix_refl _
    · exact List.prefix_append _ _
  unfold Splitter.push
  dsimp only
  split_ifs <;> first | exact hflush | exact List.prefix_refl _

theorem args_foldl (t : Text) (s : Splitter) : s.args <+: (t.foldl Splitter.push s).args := by
  induction t generalizing s with
  | nil => exact List.prefix_refl _
  | cons c t ih => exact (args_push s c).trans (ih _)

theorem quoteCount_push (s : Splitter) (c : Char) : (s.push c).quoteCount =
    if c = '"' then if s.quoteCount = 2 then 0 else s.quoteCount + 1 else 0 := by
  unfold Splitter.push
  dsimp only
  split_ifs <;> rfl

theorem inQuote_push (s : Splitter) (c : Char) : (s.push c).inQuote =
    (s.inQuote ^^ decide (c ≠ '"' ∧ s.quoteCount = 1)) := by
  unfold Splitter.push
  dsimp only
  split_ifs <;> simp_all

/-- Whether a text, with the blank behind it, begins or ends a quotation. -/
def unclosed (t : Text) : Bool := ((t ++ [' ']).foldl Splitter.push {}).inQuote

/-- It does so wherever it stands. -/
theorem inQuote_foldl (t : Text) (h : s.quoteCount = s'.quoteCount) :
    (t.foldl Splitter.push s).quoteCount = (t.foldl Splitter.push s').quoteCount ∧
      ((t.foldl Splitter.push s).inQuote ^^ s.inQuote) = ((t.foldl Splitter.push s').inQuote ^^ s'.inQuote) := by
  induction t generalizing s s' with
  | nil => exact ⟨h, by rw [List.foldl_nil, List.foldl_nil, Bool.xor_self, Bool.xor_self]⟩
  | cons c t ih =>
    have hcount : (s.push c).quoteCount = (s'.push c).quoteCount := by
      rw [quoteCount_push, quoteCount_push, h]
    obtain ⟨hend, hquote⟩ := ih hcount
    rw [inQuote_push, inQuote_push, h, ← Bool.xor_assoc, ← Bool.xor_assoc] at hquote
    exact ⟨hend, Bool.xor_left_inj.1 hquote⟩

/-- The text splits into whole arguments, these first, up to an open quotation. -/
structure Between (s : Splitter) (args : List Text) (quoting : Bool) : Prop where
  quoteCount : s.quoteCount = 0
  inQuote : s.inQuote = quoting
  args : args <+: s.args
  tmp : s.tmp = [] ↔ quoting = false

/-- A blank ends an argument, if it is not quoted. -/
theorem push_blank (s : Splitter) : ((s.push ' ').tmp = [] ↔ (s.push ' ').inQuote = false) ∧
    ((s.push ' ').inQuote = false → (s.push ' ').args = s.flush) := by
  have hblank : isSeparator ' ' = true := by decide
  have hquote : ' ' ≠ '"' := by decide
  unfold Splitter.push
  rw [if_neg hquote, hblank]
  dsimp only
  split_ifs <;> simp_all

/-- A text with a blank behind it, added to what was split. -/
theorem between_blank (h : s.quoteCount = 0) (hargs : args <+: s.args) (t : Text) :
    Between ((t ++ [' ']).foldl Splitter.push s) args (s.inQuote ^^ unclosed t) := by
  have hfold : (t ++ [' ']).foldl Splitter.push s = (t.foldl Splitter.push s).push ' ' := by
    rw [List.foldl_append]
    rfl
  have hquote := (@inQuote_foldl s {} (t ++ [' ']) h).2
  rw [Bool.xor_false] at hquote
  have hin : ((t ++ [' ']).foldl Splitter.push s).inQuote = (s.inQuote ^^ unclosed t) := by
    unfold unclosed
    rw [← hquote, Bool.xor_comm _ s.inQuote, ← Bool.xor_assoc, Bool.xor_self, Bool.false_xor]
  refine ⟨?_, hin, hargs.trans (args_foldl _ _), ?_⟩
  · rw [hfold, quoteCount_push]
    rfl
  · rw [← hin, hfold]
    exact (push_blank _).1

/-- A word, without blanks and quotes. -/
def OneWord (w : Text) : Prop := ∀ c ∈ w, c ≠ '"' ∧ isSeparator c = false

theorem foldl_oneWord {w : Text} (hw : OneWord w) (h : s.quoteCount = 0) :
    w.foldl Splitter.push s = { s with tmp := s.tmp ++ w } := by
  induction w generalizing s with
  | nil => rw [List.append_nil]; rfl
  | cons c w ih =>
    obtain ⟨hc, hrest⟩ := List.forall_mem_cons.1 hw
    have hpush : s.push c = { s with tmp := s.tmp ++ [c] } := by
      simp [Splitter.push, hc.1, hc.2, h]
    rw [List.foldl_cons, hpush]
    refine (ih (s := { s with tmp := s.tmp ++ [c] }) hrest h).trans ?_
    rw [List.append_assoc]
    rfl

/-- The device is the last argument, or the end of one that is quoted. -/
theorem flush_device {w : Text} (h : Between s args b) (hw : OneWord w) (hne : w ≠ []) :
    ∃ t, (w.foldl Splitter.push s).flush = s.args ++ [t ++ w] ∧ (t = [] ↔ b = false) := by
  refine ⟨s.tmp, ?_, h.tmp⟩
  rw [foldl_oneWord hw h.quoteCount]
  exact if_neg (List.append_ne_nil_of_right_ne_nil _ hne)

/-! ## The command -/

/-- The program `mkfs` knows for a type. -/
def mkfsProgram (fstype : Text) : Option Text :=
  if fstype = "fat".toList ∨ fstype = "FAT".toList then some "/sbin/mkfs.fat".toList
  else if fstype = "ext4".toList then some "/usr/sbin/mkfs.ext4".toList
  else if fstype = "ntfs".toList then some "/sbin/mkfs.ntfs".toList
  else none

/-- The command but for the device. -/
def commandHead (fstype label mkfsopt : Text) : Text :=
  (if fstype = "fat".toList ∨ fstype = "FAT".toList then
      "/sbin/mkfs.fat ".toList ++ if label = [] then [] else "-n ".toList ++ label ++ [' ']
    else if fstype = "ext4".toList then
      "/usr/sbin/mkfs.ext4 ".toList ++ if label = [] then [] else "-L ".toList ++ label ++ [' ']
    else if fstype = "ntfs".toList then
      "/sbin/mkfs.ntfs --fast ".toList ++ if label = [] then [] else "-L ".toList ++ label ++ [' ']
    else []) ++
    (if mkfsopt = [] then [] else mkfsopt ++ [' '])

theorem mkfsCommand_eq (device fstype label mkfsopt : Text) :
    mkfsCommand device fstype label mkfsopt = commandHead fstype label mkfsopt ++ device := rfl

theorem between_options (h : Between s args b) (mkfsopt : Text) :
    Between ((if mkfsopt = [] then [] else mkfsopt ++ [' ']).foldl Splitter.push s) args
      (b ^^ unclosed mkfsopt) := by
  split_ifs with hopt
  · rw [hopt, show unclosed [] = false by decide, Bool.xor_false]
    exact h
  · have hblank := between_blank h.quoteCount h.args mkfsopt
    rw [h.inQuote] at hblank
    exact hblank

/-- A program that is given a label, if there is one. -/
theorem between_label {program flag : Text} (hprogram : Between (program.foldl Splitter.push {}) args false)
    (hflag : Between ((program ++ flag).foldl Splitter.push {}) args false) (label : Text) :
    Between ((program ++ if label = [] then [] else flag ++ label ++ [' ']).foldl Splitter.push {}) args
      (unclosed label) := by
  split_ifs with hlabel
  · rw [hlabel, List.append_nil]
    exact hprogram
  · have hblank := between_blank hflag.quoteCount hflag.args label
    rw [hflag.inQuote, Bool.false_xor] at hblank
    rw [List.append_assoc flag, ← List.append_assoc program, List.foldl_append]
    exact hblank

/-- The command of a known type begins with its program, which a flag announces the label
to. -/
theorem commandHead_known {fstype program : Text} (h : mkfsProgram fstype = some program) :
    ∃ text flag args args', flag ≠ [] ∧
      (∀ label mkfsopt, commandHead fstype label mkfsopt =
        (text ++ if label = [] then [] else flag ++ label ++ [' ']) ++
          if mkfsopt = [] then [] else mkfsopt ++ [' ']) ∧
      text.foldl Splitter.push {} = { args := program :: args } ∧
      (text ++ flag).foldl Splitter.push {} = { args := program :: args' } := by
  unfold mkfsProgram at h
  unfold commandHead
  by_cases hfat : fstype = "fat".toList ∨ fstype = "FAT".toList
  · rw [if_pos hfat] at h
    obtain rfl := Option.some.inj h
    simp only [if_pos hfat]
    exact ⟨_, _, [], ["-n".toList], by decide, fun _ _ => rfl, by decide +kernel, by decide +kernel⟩
  rw [if_neg hfat] at h
  by_cases hext4 : fstype = "ext4".toList
  · rw [if_pos hext4] at h
    obtain rfl := Option.some.inj h
    simp only [if_neg hfat, if_pos hext4]
    exact ⟨_, _, [], ["-L".toList], by decide, fun _ _ => rfl, by decide +kernel, by decide +kernel⟩
  rw [if_neg hext4] at h
  by_cases hntfs : fstype = "ntfs".toList
  · rw [if_pos hntfs] at h
    obtain rfl := Option.some.inj h
    simp only [if_neg hfat, if_neg hext4, if_pos hntfs]
    exact ⟨_, _, ["--fast".toList], ["--fast".toList, "-L".toList], by decide, fun _ _ => rfl,
      by decide +kernel, by decide +kernel⟩
  · rw [if_neg hntfs] at h
    cases h

theorem between_known {fstype program : Text} (h : mkfsProgram fstype = some program) (label mkfsopt : Text) :
    Between ((commandHead fstype label mkfsopt).foldl Splitter.push {}) [program]
      (unclosed label ^^ unclosed mkfsopt) := by
  have hbetween : ∀ args, Between { args := program :: args } [program] false := fun args =>
    ⟨rfl, rfl, List.prefix_append [program] args, iff_of_true rfl rfl⟩
  obtain ⟨text, flag, args, args', -, hhead, htext, hflag⟩ := commandHead_known h
  rw [hhead, List.foldl_append]
  refine between_options (between_label ?_ ?_ label) mkfsopt
  · rw [htext]
    exact hbetween args
  · rw [hflag]
    exact hbetween args'

/-- The command of any other type begins with its options. -/
theorem between_unknown {fstype : Text} (h : mkfsProgram fstype = none) (label mkfsopt : Text) :
    Between ((commandHead fstype label mkfsopt).foldl Splitter.push {}) [] (unclosed mkfsopt) ∧
      (unclosed mkfsopt = false →
        ((commandHead fstype label mkfsopt).foldl Splitter.push {}).args = parseCombinedArgString mkfsopt) := by
  have hhead : commandHead fstype label mkfsopt = if mkfsopt = [] then [] else mkfsopt ++ [' '] := by
    unfold commandHead
    unfold mkfsProgram at h
    split_ifs at h ⊢ <;> rfl
  have hstart : Between {} [] false := ⟨rfl, rfl, List.nil_prefix, iff_of_true rfl rfl⟩
  have hoptions := between_options hstart mkfsopt
  rw [Bool.false_xor] at hoptions
  rw [hhead]
  refine ⟨hoptions, fun hclosed => ?_⟩
  rw [hclosed] at hoptions
  have hin := hoptions.inQuote
  split_ifs at hin ⊢ with hopt
  · rw [hopt]
    rfl
  · rw [List.foldl_append] at hin ⊢
    exact (push_blank _).2 hin

theorem isSeparator_of_isDigit {c : Char} (h : c.isDigit = true) : isSeparator c = false := by
  have hd := (isDigit_iff c).1 h
  unfold isSeparator
  rw [isSpace_of_isDigit h, Bool.false_or, Bool.or_eq_false_iff]
  constructor
  · simp only [Bool.and_eq_false_iff, decide_eq_false_iff_not]
    omega
  · simp only [List.contains_eq_mem, decide_eq_false_iff_not, List.mem_cons, List.not_mem_nil, or_false]
    omega

theorem oneWord_device (n : ℤ) : OneWord (devicePrefix ++ number n) := by
  have hfront : (devicePrefix.all fun c => decide (c ≠ '"' ∧ isSeparator c = false)) = true := by decide
  intro c hc
  rcases List.mem_append.1 hc with hc | hc
  · exact of_decide_eq_true (List.all_eq_true.1 hfront c hc)
  rcases mem_number hc with hdigit | rfl
  · refine ⟨?_, isSeparator_of_isDigit hdigit⟩
    rintro rfl
    exact absurd hdigit (by decide)
  · decide

/-! ## What is started -/

variable {e : Processes} {maker : Text → Text → Prop} {fstype label mkfsopt : Text}

/-- The program makes file systems of the type: `mkfs` says so, or it does anyway. -/
def Makes (maker : Text → Text → Prop) (program fstype : Text) : Prop :=
  mkfsProgram fstype = some program ∨ maker program fstype

/-- `mkfs` reports a failure, or starts a program that makes file systems of that type, with
the device as its last argument. -/
def MadeOrReported (e : Processes) (maker : Text → Text → Prop) (m : Machine)
    (device fstype label mkfsopt : Text) : Prop :=
  let r := m.run (mkfs device fstype label mkfsopt)
  r.1 = false ∨ ∃ command entry program args, r.2.log = m.log ++ [entry] ∧
    entry.step = .mkfs device command ∧ e.Starts command program args ∧
    Makes maker program fstype ∧ args.getLast? = some device

/-- The command begins with a program of the type, and ends with the device: no quotation
is open where it begins. -/
def WellPut (e : Processes) (maker : Text → Text → Prop) (fstype label mkfsopt : Text) : Prop :=
  match mkfsProgram fstype with
  | some program => e.startable program = true ∧ unclosed label = unclosed mkfsopt
  | none => unclosed mkfsopt = false ∧ ∃ program, (parseCombinedArgString mkfsopt).head? = some program ∧
      e.startable program = true ∧ maker program fstype

/-- The words of a command that begins like this. -/
theorem starts_iff {n : ℤ} {args : List Text}
    (h : Between ((commandHead fstype label mkfsopt).foldl Splitter.push {}) args b) :
    (∃ program rest, e.Starts (mkfsCommand (devicePrefix ++ number n) fstype label mkfsopt) program rest ∧
        Makes maker program fstype ∧ rest.getLast? = some (devicePrefix ++ number n)) ↔
      b = false ∧ ∃ program, ((commandHead fstype label mkfsopt).foldl Splitter.push {}).args.head? = some program ∧
        e.startable program = true ∧ Makes maker program fstype := by
  have hne : devicePrefix ++ number n ≠ [] := List.append_ne_nil_of_left_ne_nil (by decide) _
  obtain ⟨t, hflush, ht⟩ := flush_device h (oneWord_device n) hne
  have hsplit : parseCombinedArgString (mkfsCommand (devicePrefix ++ number n) fstype label mkfsopt) =
      ((commandHead fstype label mkfsopt).foldl Splitter.push {}).args ++ [t ++ (devicePrefix ++ number n)] := by
    unfold parseCombinedArgString
    rw [mkfsCommand_eq, List.foldl_append]
    exact hflush
  generalize ((commandHead fstype label mkfsopt).foldl Splitter.push {}).args = front at hsplit
  unfold Processes.Starts
  rw [hsplit, ← ht]
  constructor
  · rintro ⟨program, rest, ⟨heq, hstart⟩, hmakes, hlast⟩
    cases front with
    | nil =>
      -- the device itself is started, and on nothing
      obtain ⟨-, rfl⟩ := List.cons.inj heq
      cases hlast
    | cons first front =>
      rw [List.cons_append] at heq
      obtain ⟨rfl, rfl⟩ := List.cons.inj heq
      rw [List.getLast?_concat] at hlast
      exact ⟨List.append_left_eq_self.1 (Option.some.inj hlast), first, rfl, hstart, hmakes⟩
  · rintro ⟨rfl, program, hhead, hstart, hmakes⟩
    cases front with
    | nil => cases hhead
    | cons first front =>
      obtain rfl := Option.some.inj hhead
      exact ⟨first, front ++ [devicePrefix ++ number n], ⟨rfl, hstart⟩, hmakes,
        List.getLast?_concat⟩

theorem starts_iff_wellPut (e : Processes) (maker : Text → Text → Prop) (n : ℤ) (fstype label mkfsopt : Text) :
    (∃ program rest, e.Starts (mkfsCommand (devicePrefix ++ number n) fstype label mkfsopt) program rest ∧
        Makes maker program fstype ∧ rest.getLast? = some (devicePrefix ++ number n)) ↔
      WellPut e maker fstype label mkfsopt := by
  unfold WellPut
  cases hknown : mkfsProgram fstype with
  | some program =>
    have hbetween := between_known hknown label mkfsopt
    obtain ⟨rest, hargs⟩ := hbetween.args
    rw [starts_iff hbetween, ← hargs]
    show _ ∧ (∃ p, some program = some p ∧ _) ↔ _ ∧ _
    constructor
    · rintro ⟨hclosed, _, hp, hstart, -⟩
      obtain rfl := Option.some.inj hp
      exact ⟨hstart, by simpa using hclosed⟩
    · rintro ⟨hstart, hclosed⟩
      refine ⟨?_, program, rfl, hstart, Or.inl hknown⟩
      rw [hclosed, Bool.xor_self]
  | none =>
    obtain ⟨hbetween, hargs⟩ := between_unknown hknown label mkfsopt
    rw [starts_iff hbetween]
    refine and_congr_right fun hclosed => ?_
    rw [hargs hclosed]
    refine exists_congr fun program => and_congr_right fun _ => and_congr_right fun _ => ?_
    unfold Makes
    rw [hknown]
    exact or_iff_right (fun h => by cases h)

/-- **Every type is made or reported** just where the process that `mkfs` starts fails, or
the command begins with a program of the type and ends with the device. -/
theorem made_or_reported_iff (e : Processes) (maker : Text → Text → Prop) (m : Machine) (n : ℤ)
    (fstype label mkfsopt : Text) :
    let device := devicePrefix ++ number n
    let command := mkfsCommand device fstype label mkfsopt
    MadeOrReported e maker (m.withProcesses e) device fstype label mkfsopt ↔
      e.exitCode command (m.taken (.mkfs device command)) ≠ 0 ∨ WellPut e maker fstype label mkfsopt := by
  intro device command
  have hok : ((m.withProcesses e).run (mkfs device fstype label mkfsopt)).1 = false ↔
      e.exitCode command (m.taken (.mkfs device command)) ≠ 0 := decide_eq_false_iff_not
  unfold MadeOrReported
  dsimp only
  rw [hok, ← starts_iff_wellPut e maker n]
  refine or_congr_right ?_
  constructor
  · rintro ⟨_, entry, program, args, hlog, hstep, hstarts⟩
    obtain rfl := List.singleton_injective (List.append_cancel_left hlog)
    obtain ⟨-, rfl⟩ := Step.mkfs.inj hstep
    exact ⟨program, args, hstarts⟩
  · rintro ⟨program, args, hstarts⟩
    exact ⟨command, _, program, args, rfl, rfl, hstarts⟩

/-- A system with the programs that `mkfs` knows, which never fail. -/
def mkfsPrograms : Processes :=
  { startable := fun program => ["/sbin/mkfs.fat".toList, "/usr/sbin/mkfs.ext4".toList,
      "/sbin/mkfs.ntfs".toList].contains program
    exit := fun _ _ => 0 }

/-- A type that counts as FAT, and of which nothing is made and nothing reported. -/
theorem vfat_not_made : typeOf "vfat".toList = typeOf "fat".toList ∧
    ¬MadeOrReported mkfsPrograms (fun _ _ => True) (listingDevice.withProcesses mkfsPrograms)
      "/dev/mmcblk0p6".toList "vfat".toList [] [] := by
  refine ⟨by decide, ?_⟩
  rintro (hfailed | ⟨command, entry, program, args, hlog, hstep, ⟨hsplit, -⟩, -, hlast⟩)
  · exact absurd hfailed (by decide)
  · obtain rfl := List.singleton_injective (List.append_cancel_left hlog)
    obtain ⟨-, rfl⟩ := Step.mkfs.inj hstep
    have hdevice : parseCombinedArgString (mkfsCommand "/dev/mmcblk0p6".toList "vfat".toList [] []) =
        ["/dev/mmcblk0p6".toList] := by
      decide
    obtain ⟨-, rfl⟩ := List.cons.inj (hsplit.symm.trans hdevice)
    cases hlast

end Noobs
