import Noobs.Lib.Fuel
import Noobs.Proof.Receive

/-!
# What a client can do to the server

* `continueReading_ends`: the `do … while` loop ends in a fault, reads on for ever, or
  returns.
* `receive_ends`: **`receive` ends** unless the client announces more bytes than it ever
  sends (`Starved`).
* `request_safe`: **no request ends the process** unless it is one of those in `Crashes`:
  a `Content-Length` that is no `int`, or a chunk that fills the buffer.
-/

namespace Noobs

open Fuel

variable {s s' : Socket} {w w' : Web} {size : ℤ}

/-! ## The loop -/

/-- The events read up to an error or the first pause that finds `size` bytes, if `t`
were read before. -/
def eventsUntil (size : ℤ) (t : ℕ) : List Event → List Event
  | [] => []
  | .chunk c :: es => .chunk c :: eventsUntil size (t + c.bytes.length) es
  | .pause p :: es => .pause p :: if p = .error ∨ size ≤ t then [] else eventsUntil size t es

/-- Neither the events nor the idle socket report an error. -/
def NoError (s : Socket) : Prop := s.idle ≠ .error ∧ Event.pause .error ∉ s.events

/-- The loop awaits more bytes than ever come. -/
def Waits (size : ℤ) (t : ℕ) (s : Socket) : Prop :=
  size ≠ -1 ∧ NoError s ∧ (t : ℤ) + (delivered s.events).length < size

theorem chunksOf_eventsUntil (idle : Pause) (size : ℤ) (t : ℕ) (events : List Event) :
    chunksOf (eventsUntil size t events) = (phase idle events).1 ++
      if (phase idle events).2.1 = .error ∨ size ≤ (t + (bytesOf (phase idle events).1).length : ℕ) then []
      else chunksOf (eventsUntil size (t + (bytesOf (phase idle events).1).length)
        (phase idle events).2.2) := by
  induction events generalizing t with
  | nil => simp [eventsUntil, phase, chunksOf]
  | cons e es ih =>
    cases e with
    | pause p =>
      by_cases hp : p = .error ∨ size ≤ t
      · simp [eventsUntil, phase, chunksOf, bytesOf, hp]
      · simp [eventsUntil, phase, chunksOf, bytesOf, hp]
    | chunk c =>
      have hlen : t + (bytesOf (phase idle (.chunk c :: es)).1).length =
          t + c.bytes.length + (bytesOf (phase idle es).1).length := by
        simp [phase, bytesOf, Nat.add_assoc]
      rw [eventsUntil, chunksOf, ih, hlen]
      rfl

theorem noError_iff : NoError s ↔ s.pause ≠ .error ∧ NoError s.next := by
  have key : ∀ (idle : Pause) (events : List Event), (idle ≠ .error ∧ Event.pause .error ∉ events) ↔
      (phase idle events).2.1 ≠ .error ∧ idle ≠ .error ∧ Event.pause .error ∉ (phase idle events).2.2 := by
    intro idle events
    induction events with
    | nil => simp [phase]
    | cons e es ih =>
      cases e with
      | pause p =>
        simp only [phase, List.mem_cons, Event.pause.injEq, not_or]
        constructor
        · rintro ⟨h1, h2, h3⟩; exact ⟨Ne.symm h2, h1, h3⟩
        · rintro ⟨h1, h2, h3⟩; exact ⟨h2, Ne.symm h1, h3⟩
      | chunk c => simpa [phase] using ih
  exact key s.idle s.events

theorem next_shorter (h : s.events ≠ []) : s.next.events.length < s.events.length := by
  rcases phase_shorter s.idle s.events with h1 | h1 | h1
  · exact h1
  · exact absurd h1 h
  · have : s.next.events = [] := h1
    rw [this]
    exact List.length_pos_iff.2 h

theorem continueReading_stable (size : ℤ) (w : Web) (s : Socket) (buffer : Text) :
    Stable fun fuel => continueReading size fuel w s buffer := by
  intro fuel r h k
  simp only at h ⊢
  induction fuel generalizing w s buffer with
  | zero => cases h
  | succ fuel ih =>
    rw [Nat.succ_add]
    unfold continueReading at h ⊢
    cases hr : readReceive w s buffer with
    | error f => rw [hr] at h; exact h
    | ok r' =>
      obtain ⟨ok, buffer₁, w₁, s₁⟩ := r'
      rw [hr] at h
      cases ok with
      | false => exact h
      | true =>
        simp only at h ⊢
        split_ifs at h ⊢ with hmore
        · exact ih _ _ _ h
        · exact h

theorem continueReading_fault (fuel : ℕ) (w : Web) (buffer : Text) (h : ∃ c ∈ s.chunks, c.Overlong) :
    continueReading size (fuel + 1) w s buffer = some (.error .bufferOverread) := by
  unfold continueReading
  rw [readReceive_fault _ _ h]

/-- One round of the loop. -/
theorem continueReading_succ (size : ℤ) (w : Web) (fuel : ℕ) (buffer : Text) (h : ∀ c ∈ s.chunks, ¬c.Overlong) :
    (s.pause = .error ∧ ∃ r, continueReading size (fuel + 1) w s buffer = some (.ok r)) ∨
    (s.pause ≠ .error ∧ (size ≠ -1 ∧ w.bytesRead + (bytesOf s.chunks).length < size) ∧
      continueReading size (fuel + 1) w s buffer = continueReading size fuel
        { w with bytesRead := w.bytesRead + (bytesOf s.chunks).length } s.next
        (buffer ++ textOf s.chunks)) ∨
    (s.pause ≠ .error ∧ ¬(size ≠ -1 ∧ w.bytesRead + (bytesOf s.chunks).length < size) ∧
      ∃ r, continueReading size (fuel + 1) w s buffer = some (.ok r)) := by
  rw [continueReading, readReceive_ok _ _ h]
  by_cases hpause : s.pause = .error
  · rw [decide_eq_false (thisRoundRead_nonneg.not.2 (not_not.2 hpause))]
    exact Or.inl ⟨hpause, _, rfl⟩
  · rw [decide_eq_true (thisRoundRead_nonneg.2 hpause), thisRoundRead_of_ne hpause, add_zero]
    by_cases hmore : size ≠ -1 ∧ w.bytesRead + (bytesOf s.chunks).length < size
    · exact Or.inr (Or.inl ⟨hpause, hmore, if_pos hmore⟩)
    · exact Or.inr (Or.inr ⟨hpause, hmore, _, if_neg hmore⟩)

/-- The first phase of a socket that reports nothing but its idle pause. -/
theorem silent_phase (hev : s.events = []) : s.chunks = [] ∧ s.pause = s.idle ∧ s.next = s := by
  unfold Socket.chunks Socket.pause Socket.next
  rw [hev]
  refine ⟨rfl, rfl, ?_⟩
  simp only [phase]
  rw [← hev]

/-- A silent socket that never brings the awaited bytes. -/
theorem continueReading_silent (hev : s.events = []) (hidle : s.idle ≠ .error)
    (hmore : size ≠ -1 ∧ w.bytesRead < size) (fuel : ℕ) (buffer : Text) :
    continueReading size fuel w s buffer = none := by
  obtain ⟨hchunks, hpause, hnext⟩ := silent_phase hev
  have hread : w.bytesRead + (bytesOf s.chunks).length = w.bytesRead := by
    rw [hchunks]; simp [bytesOf]
  induction fuel generalizing buffer with
  | zero => rfl
  | succ fuel ih =>
    rcases continueReading_succ size w fuel buffer (by rw [hchunks]; simp) with
      ⟨h, -⟩ | ⟨-, -, h⟩ | ⟨-, h, -⟩
    · exact absurd (hpause ▸ h) hidle
    · rw [h, hread, hnext]
      exact ih _
    · rw [hread] at h
      exact absurd hmore h

theorem eventsUntil_eq (size : ℤ) (t : ℕ) (s : Socket) : chunksOf (eventsUntil size t s.events) =
    s.chunks ++ if s.pause = .error ∨ size ≤ ((t + (bytesOf s.chunks).length : ℕ) : ℤ) then []
      else chunksOf (eventsUntil size (t + (bytesOf s.chunks).length) s.next.events) :=
  chunksOf_eventsUntil s.idle size t s.events

/-- A loop whose first phase is not its last reads what this phase and the rest read. -/
theorem eventsUntil_more {t : ℕ} (hpause : s.pause ≠ .error)
    (hlt : ((t + (bytesOf s.chunks).length : ℕ) : ℤ) < size) :
    chunksOf (eventsUntil size t s.events) = s.chunks ++
      chunksOf (eventsUntil size (t + (bytesOf s.chunks).length) s.next.events) := by
  rw [eventsUntil_eq, if_neg]
  rintro (h | h)
  · exact hpause h
  · exact absurd hlt (not_lt.2 h)

/-- A loop whose first phase is its last reads just this. -/
theorem eventsUntil_done {t : ℕ}
    (h : s.pause = .error ∨ size ≤ ((t + (bytesOf s.chunks).length : ℕ) : ℤ)) :
    chunksOf (eventsUntil size t s.events) = s.chunks := by
  rw [eventsUntil_eq, if_pos h, List.append_nil]

theorem waits_next {t : ℕ} (hpause : s.pause ≠ .error) :
    Waits size t s ↔ Waits size (t + (bytesOf s.chunks).length) s.next := by
  have hdel : (delivered s.events).length =
      (bytesOf s.chunks).length + (delivered s.next.events).length := by
    rw [delivered_next, List.length_append]
  unfold Waits
  rw [noError_iff, hdel]
  push_cast
  simp only [hpause, ne_eq, not_false_eq_true, true_and, add_assoc]

/-- The loop on a socket that reports nothing but its idle pause. -/
theorem continueReading_ends_nil (hev : s.events = []) {t : ℕ} (buffer : Text) (ht : w.bytesRead = t) :
    Ends (∃ c ∈ chunksOf (eventsUntil size t s.events), c.Overlong) (Waits size t s)
      fun fuel => continueReading size fuel w s buffer := by
  obtain ⟨hchunks, hpause, -⟩ := silent_phase hev
  have hover : ¬∃ c ∈ chunksOf (eventsUntil size t s.events), c.Overlong := by
    rw [hev]; simp [eventsUntil, chunksOf]
  have hwaits : Waits size t s ↔ s.idle ≠ .error ∧ size ≠ -1 ∧ w.bytesRead < size := by
    unfold Waits NoError
    rw [hev, ht]
    simp [delivered, chunksOf, bytesOf, and_left_comm]
  by_cases hw : Waits size t s
  · obtain ⟨hidle, hmore⟩ := hwaits.1 hw
    exact ends_none hover hw fun fuel => continueReading_silent hev hidle hmore fuel buffer
  rcases continueReading_succ size w 0 buffer (by rw [hchunks]; simp) with
    ⟨-, r, hr⟩ | ⟨hp, hmore, -⟩ | ⟨-, -, r, hr⟩
  · exact ends_ok _ hover hw hr
  · rw [hchunks, hpause] at *
    exact absurd (hwaits.2 ⟨hp, by simpa [bytesOf] using hmore⟩) hw
  · exact ends_ok _ hover hw hr

/-- **The loop** ends in a fault if a chunk it reads is overlong, else reads on for ever
if it waits, else returns. -/
theorem continueReading_ends (size : ℤ) : ∀ (k : ℕ) {s : Socket}, s.events.length ≤ k →
    ∀ {t : ℕ} {w : Web} (buffer : Text), w.bytesRead = t →
    Ends (∃ c ∈ chunksOf (eventsUntil size t s.events), c.Overlong) (Waits size t s)
      fun fuel => continueReading size fuel w s buffer := by
  intro k
  induction k with
  | zero =>
    intro s hk t w buffer ht
    exact continueReading_ends_nil (List.length_eq_zero_iff.1 (Nat.le_zero.1 hk)) buffer ht
  | succ k ih =>
    intro s hk t w buffer ht
    by_cases hev : s.events = []
    · exact continueReading_ends_nil hev buffer ht
    by_cases hover : ∃ c ∈ s.chunks, c.Overlong
    · have hmem : ∀ c ∈ s.chunks, c ∈ chunksOf (eventsUntil size t s.events) := by
        intro c hc
        rw [eventsUntil_eq]
        exact List.mem_append_left _ hc
      obtain ⟨c, hc, hco⟩ := hover
      exact ends_error _ ⟨c, hmem c hc, hco⟩ (continueReading_fault 0 w buffer ⟨c, hc, hco⟩)
    push Not at hover
    rcases continueReading_succ size w 0 buffer hover with
      ⟨hpause, r, hr⟩ | ⟨hpause, hmore, -⟩ | ⟨hpause, hmore, r, hr⟩
    · refine ends_ok _ ?_ ?_ hr
      · rw [eventsUntil_done (Or.inl hpause)]
        push Not
        exact hover
      · rintro ⟨-, herr, -⟩
        exact (noError_iff.1 herr).1 hpause
    · rw [ht] at hmore
      -- the rest of the loop is a loop on fewer events
      have hrest := @ih s.next (by have := next_shorter hev; omega) (t + (bytesOf s.chunks).length)
        { w with bytesRead := w.bytesRead + (bytesOf s.chunks).length } (buffer ++ textOf s.chunks)
        (by simp only; rw [ht]; push_cast; rfl)
      refine (hrest.congr ?_ fun _ => waits_next hpause).step rfl ?_
      · rw [eventsUntil_more hpause (by push_cast; exact hmore.2)]
        constructor
        · rintro ⟨c, hc, hco⟩
          rcases List.mem_append.1 hc with hc | hc
          · exact absurd hco (hover c hc)
          · exact ⟨c, hc, hco⟩
        · rintro ⟨c, hc, hco⟩
          exact ⟨c, List.mem_append_right _ hc, hco⟩
      · intro fuel
        rcases continueReading_succ size w fuel buffer hover with
          ⟨h, -⟩ | ⟨-, -, h⟩ | ⟨-, h, -⟩
        · exact absurd h hpause
        · exact h
        · rw [ht] at h; exact absurd hmore h
    · have hle : size ≤ ((t + (bytesOf s.chunks).length : ℕ) : ℤ) := by
        by_cases hsize : size = -1
        · omega
        · have := not_and.1 hmore hsize
          omega
      refine ends_ok _ ?_ ?_ hr
      · rw [eventsUntil_done (Or.inr hle)]
        push Not
        exact hover
      · rintro ⟨hsize, -, hlt⟩
        rw [delivered_next, List.length_append] at hlt
        omega

/-! ## The whole receive -/

/-- The size the header announces, or 0. -/
def Socket.announced (s : Socket) : ℤ :=
  match s.contentLength with
  | some (.ok n) => n
  | _ => 0

/-- The events `receive` reads behind the first phase. -/
def Socket.later (s : Socket) : List Event :=
  let t := (bytesOf s.chunks).length
  if s.expects ∨ s.announced > t then eventsUntil s.announced t s.next.events else []

/-- A request that ends the process: a chunk that is read fills the buffer without a
NUL, or the `Content-Length` is not the text of an `int`. -/
def Crashes (s : Socket) : Prop :=
  (∃ c ∈ s.chunks, c.Overlong) ∨
    s.HasHeader ∧ ((∃ f, s.contentLength = some (.error f)) ∨ ∃ c ∈ chunksOf s.later, c.Overlong)

/-- A request that announces more bytes than ever come. -/
def Starved (s : Socket) : Prop :=
  s.HasHeader ∧ NoError s ∧ (∀ c ∈ chunksOf s.events, ¬c.Overlong) ∧
    ∃ n, s.contentLength = some (.ok n) ∧ n > (delivered s.events).length

theorem eventsUntil_of_le {size' : ℤ} {t : ℕ} {events : List Event} (h : size ≤ t) (h' : size' ≤ t) :
    eventsUntil size t events = eventsUntil size' t events := by
  induction events generalizing t with
  | nil => rfl
  | cons e es ih =>
    cases e with
    | pause p => rw [eventsUntil, eventsUntil, if_pos (Or.inr h), if_pos (Or.inr h')]
    | chunk c => rw [eventsUntil, eventsUntil, ih (by omega) (by omega)]

theorem chunksOf_eventsUntil_subset {t : ℕ} {events : List Event} :
    ∀ c ∈ chunksOf (eventsUntil size t events), c ∈ chunksOf events := by
  induction events generalizing t with
  | nil => simp [eventsUntil]
  | cons e es ih =>
    cases e with
    | pause p =>
      intro c hc
      rw [eventsUntil, chunksOf] at hc
      split_ifs at hc
      · simp [chunksOf] at hc
      · exact ih c hc
    | chunk c => simpa [eventsUntil, chunksOf] using fun d hd => Or.inr (ih d hd)

/-- A loop that waits reads everything. -/
theorem chunksOf_eventsUntil_of_lt {t : ℕ} {events : List Event} (herr : Event.pause .error ∉ events)
    (hlt : (t : ℤ) + (delivered events).length < size) :
    chunksOf (eventsUntil size t events) = chunksOf events := by
  induction events generalizing t with
  | nil => rfl
  | cons e es ih =>
    rw [List.mem_cons, not_or] at herr
    cases e with
    | pause p =>
      have hp : p ≠ .error := fun h => herr.1 (by rw [h])
      have hdel : delivered (.pause p :: es) = delivered es := rfl
      rw [hdel] at hlt
      rw [eventsUntil, chunksOf, if_neg (by rintro (h | h) <;> [exact hp h; omega])]
      exact ih herr.2 hlt
    | chunk c =>
      have hdel : (delivered (.chunk c :: es)).length = c.bytes.length + (delivered es).length := by
        simp [delivered, chunksOf, bytesOf]
      rw [hdel] at hlt
      rw [eventsUntil, chunksOf, chunksOf, ih herr.2 (by push_cast at hlt ⊢; omega)]

theorem starved_iff : Starved s ↔ ¬Crashes s ∧ s.HasHeader ∧ NoError s ∧
    ∃ n, s.contentLength = some (.ok n) ∧ n > (delivered s.events).length := by
  have hlen : (delivered s.events).length = (bytesOf s.chunks).length + (delivered s.next.events).length := by
    rw [delivered_next, List.length_append]
  constructor
  · rintro ⟨hheader, herr, hover, n, hn, hlt⟩
    refine ⟨?_, hheader, herr, n, hn, hlt⟩
    rw [chunksOf_next] at hover
    rintro (⟨c, hc, hco⟩ | ⟨-, ⟨f, hf⟩ | ⟨c, hc, hco⟩⟩)
    · exact hover c (List.mem_append_left _ hc) hco
    · rw [hn] at hf; cases hf
    · refine hover c (List.mem_append_right _ ?_) hco
      simp only [Socket.later] at hc
      split_ifs at hc
      · exact chunksOf_eventsUntil_subset c hc
      · simp [chunksOf] at hc
  · rintro ⟨hcrash, hheader, herr, n, hn, hlt⟩
    refine ⟨hheader, herr, ?_, n, hn, hlt⟩
    have hann : s.announced = n := by unfold Socket.announced; rw [hn]
    have hlater : chunksOf s.later = chunksOf s.next.events := by
      unfold Socket.later
      rw [hann, if_pos (Or.inr (by omega))]
      exact chunksOf_eventsUntil_of_lt (noError_iff.1 herr).2.2 (by omega)
    rw [chunksOf_next]
    intro c hc hco
    apply hcrash
    rcases List.mem_append.1 hc with hc | hc
    · exact Or.inl ⟨c, hc, hco⟩
    · exact Or.inr ⟨hheader, Or.inr ⟨c, by rw [hlater]; exact hc, hco⟩⟩

theorem stable_of_const {α : Type} {run : ℕ → Option (Except Fault α)} {r : Option (Except Fault α)}
    (h : ∀ fuel, run fuel = r) : Stable run := by
  intro fuel r' hr k
  rw [h] at hr ⊢
  exact hr

/-- The size awaited behind the header: what it announces if this exceeds what was read. -/
theorem awaited_size {first : Text} {fs bs : List Text} (hlines : HeaderLines (textOf s.chunks) first fs bs)
    (hgood : ¬∃ f, s.contentLength = some (.error f)) :
    ∃ size, (firstParse s first fs bs).messageSize = .ok size ∧
      (size = -1 ∧ s.announced ≤ (bytesOf s.chunks).length ∨
        size = s.announced ∧ (bytesOf s.chunks).length < s.announced ∧
          s.contentLength = some (.ok s.announced)) := by
  unfold Socket.announced
  rw [messageSize_eq hlines]
  rcases hcl : s.contentLength with _ | f | n
  · exact ⟨-1, rfl, Or.inl ⟨rfl, by simp⟩⟩
  · exact absurd ⟨f, hcl⟩ hgood
  · by_cases hn : n > (bytesOf s.chunks).length
    · exact ⟨n, by simp only [if_pos hn], Or.inr ⟨rfl, hn, rfl⟩⟩
    · exact ⟨-1, by simp only [if_neg hn], Or.inl ⟨rfl, not_lt.1 hn⟩⟩

/-- **How a receive ends**, and that more fuel changes nothing. -/
theorem receive_run (s : Socket) :
    Ends (Crashes s) (s.HasHeader ∧ NoError s ∧
      ∃ n, s.contentLength = some (.ok n) ∧ n > (delivered s.events).length)
      (fun fuel => receive fuel {} s) ∧ Stable fun fuel => receive fuel {} s := by
  by_cases hover : ∃ c ∈ s.chunks, c.Overlong
  · have hrun := fun fuel => receive_fault (s := s) fuel hover
    exact ⟨ends_error 0 (Or.inl hover) (hrun 0), stable_of_const hrun⟩
  by_cases hheader : s.HasHeader
  swap
  · obtain ⟨w, s', hrun⟩ := receive_incomplete (by push Not at hover; exact hover) hheader
    refine ⟨ends_ok 0 ?_ (fun h => hheader h.1) (hrun 0), stable_of_const hrun⟩
    rintro (h | h)
    · exact hover h
    · exact hheader h.1
  obtain ⟨hpause, first, fs, bs, hlines⟩ := hasHeader_iff.1 hheader
  have hrun := fun fuel => receive_eq (s := s) fuel (by push Not at hover; exact hover) hpause hlines
  have hsize := messageSize_eq hlines
  set t := (bytesOf s.chunks).length with ht
  have hlen : (delivered s.events).length = t + (delivered s.next.events).length := by
    rw [delivered_next, List.length_append]
  by_cases hbad : ∃ f, s.contentLength = some (.error f)
  · obtain ⟨f, hf⟩ := hbad
    rw [hf] at hsize
    -- `std::stoi` throws in the first phase already
    have hfault : ∀ fuel, receive fuel {} s = some (.error f) := by
      intro fuel
      rw [hrun]; unfold receiveBody; rw [hsize]
    exact ⟨ends_error 0 (Or.inr ⟨hheader, Or.inl ⟨f, hf⟩⟩) (hfault 0), stable_of_const hfault⟩
  obtain ⟨size, hok, hsize⟩ := awaited_size hlines hbad
  have hcrash : Crashes s ↔ ∃ c ∈ chunksOf s.later, c.Overlong := by
    unfold Crashes
    rw [or_iff_right hover, and_iff_right hheader, or_iff_right hbad]
  have hwaits : (s.HasHeader ∧ NoError s ∧
      ∃ n, s.contentLength = some (.ok n) ∧ n > (delivered s.events).length) ↔ Waits size t s.next := by
    unfold Waits
    rw [and_iff_right hheader, noError_iff, and_iff_right hpause, hlen]
    constructor
    · rintro ⟨herr, n, hn, hlt⟩
      have hann : s.announced = n := by unfold Socket.announced; rw [hn]
      rw [hann] at hsize
      rcases hsize with ⟨-, h⟩ | ⟨h, -, -⟩
      · omega
      · exact ⟨by omega, herr, by omega⟩
    · rintro ⟨hne, herr, hlt⟩
      rcases hsize with ⟨h, -⟩ | ⟨h, -, hcl⟩
      · exact absurd h hne
      · exact ⟨herr, s.announced, hcl, by omega⟩
  have hexp := expects_eq hlines
  rcases receiveBody_eq s.next hok with ⟨hno, hneg, hbody⟩ | ⟨hmore, s₁, hev, hidle, hbody⟩
  -- without a further phase, `receive` returns at once
  · have hlater : s.later = [] := by
      simp only [Socket.later]
      rw [← hexp, hno, if_neg]
      rintro (h | h)
      · cases h
      · rcases hsize with ⟨-, h'⟩ | ⟨h', -, -⟩ <;> omega
    have hreturn : ∀ fuel, receive fuel {} s = some (.ok (true, firstParse s first fs bs, s.next)) :=
      fun fuel => (hrun fuel).trans (hbody fuel)
    refine ⟨ends_ok 0 ?_ ?_ (hreturn 0), stable_of_const hreturn⟩
    · rw [hcrash, hlater]
      simp [chunksOf]
    · rw [hwaits]
      exact fun h => h.1 hneg
  -- the loop ends as it does from any socket with these events
  · have hlater : s.later = eventsUntil size t s₁.events := by
      simp only [Socket.later]
      rw [hev, ← hexp, if_pos]
      · rcases hsize with ⟨h, h'⟩ | ⟨h, -, -⟩
        · exact eventsUntil_of_le h' (by omega)
        · rw [h]
      · rcases hsize with ⟨h, -⟩ | ⟨-, h, -⟩
        · exact Or.inl (hmore.resolve_right (not_not.2 h))
        · exact Or.inr h
    have hloop := continueReading_ends size s₁.events.length (le_refl _) (t := t)
      (w := { firstParse s first fs bs with
        body := if size ≠ -1 then (firstParse s first fs bs).body.dropLast
          else (firstParse s first fs bs).body }) [] rfl
    have hwaits₁ : Waits size t s₁ ↔ Waits size t s.next := by
      unfold Waits NoError
      rw [hev, hidle]
    have hmap := fun fuel => (hrun fuel).trans (hbody fuel)
    refine ⟨(hloop.congr ?_ fun _ => ?_).map afterReading hmap,
      (continueReading_stable size _ s₁ []).map afterReading hmap⟩
    · rw [hcrash, hlater]
    · rw [hwaits, hwaits₁]

/-- **`receive` ends**, whatever is sent and however it is cut and delayed, unless the
client announces more bytes than ever come. It then returns, unless it crashes. -/
theorem receive_ends (s : Socket) :
    ((∃ fuel, receive fuel {} s ≠ none) ↔ ¬Starved s) ∧
      ((∃ fuel r, receive fuel {} s = some (.ok r)) ↔ ¬Crashes s ∧ ¬Starved s) := by
  obtain ⟨hends, hstable⟩ := receive_run s
  rw [starved_iff]
  refine ⟨hends.finishes_iff, (hends.returns_iff hstable).trans ?_⟩
  exact and_congr_right fun h => ⟨fun h' hc => h' hc.2, fun h' hw => h' ⟨h, hw⟩⟩

/-- A client that announces a thousand bytes, sends none and closes. -/
def starvedSocket : Socket :=
  { events :=
      [.chunk ⟨"POST /os HTTP/1.1\r\nContent-Length: 1000\r\n\r\n".toList, by decide, by decide⟩]
    idle := .eof }

theorem starvedSocket_starved : Starved starvedSocket :=
  ⟨by decide, ⟨by decide, by decide⟩, by decide, 1000, rfl, by decide⟩

/-- The end of the stream reads as zero bytes, again and again. -/
theorem starved_hangs : ¬∃ fuel, receive fuel {} starvedSocket ≠ none := by
  rw [(receive_run starvedSocket).1.finishes_iff, not_not]
  exact starved_iff.1 starvedSocket_starved

/-! ## The whole request -/

/-- What `receiveRequest` makes of the received message. -/
def parseRequestLine (r : Bool × Web × Socket) : Bool × Request × Socket :=
  match r with
  | (false, w, s) => (false, { toWeb := w }, s)
  | (true, w, s) => match split w.headerLine ' ' with
    | [method, path, version] =>
      if version ≠ "HTTP/1.1\r".toList then (false, { toWeb := w }, s)
      else (true, { toWeb := w, method := method, path := path }, s)
    | _ => (false, { toWeb := w }, s)

theorem receiveRequest_eq (fuel : ℕ) (s : Socket) :
    receiveRequest fuel s = (receive fuel {} s).map (Except.map parseRequestLine) := by
  unfold receiveRequest
  rcases receive fuel {} s with _ | f | ⟨_ | _, w, s'⟩
  · rfl
  · rfl
  · rfl
  · simp only [Option.map_some, Except.map, parseRequestLine]
    rcases split w.headerLine ' ' with _ | ⟨method, _ | ⟨path, _ | ⟨version, _ | ⟨more, rest⟩⟩⟩⟩
    · rfl
    · rfl
    · rfl
    · by_cases hversion : version = "HTTP/1.1\r".toList
      · simp only [hversion, ne_eq, not_true_eq_false, if_false]
      · simp only [hversion, ne_eq, not_false_eq_true, if_true]
    · rfl

/-- **No request ends the process** but those in `Crashes`, and `receiveRequest` returns
for all others that are not starved. -/
theorem request_safe (s : Socket) :
    ((∀ fuel f, receiveRequest fuel s ≠ some (.error f)) ↔ ¬Crashes s) ∧
      ((∃ fuel r, receiveRequest fuel s = some (.ok r)) ↔ ¬Crashes s ∧ ¬Starved s) := by
  obtain ⟨hends, hstable⟩ := receive_run s
  have hends' := hends.map parseRequestLine fun fuel => receiveRequest_eq fuel s
  have hstable' := hstable.map parseRequestLine fun fuel => receiveRequest_eq fuel s
  rw [starved_iff]
  refine ⟨hends'.never_fails_iff hstable', (hends'.returns_iff hstable').trans ?_⟩
  exact and_congr_right fun h => ⟨fun h' hc => h' hc.2, fun h' hw => h' ⟨h, hw⟩⟩

/-- A client whose `Content-Length` is no number. -/
def wordSocket : Socket :=
  { events := [.chunk ⟨"GET / HTTP/1.1\r\nContent-Length: many\r\n\r\n".toList, by decide, by decide⟩]
    idle := .eof }

/-- `std::stoi` throws, and nothing catches it. -/
theorem word_crashes : ¬∀ fuel f, receiveRequest fuel wordSocket ≠ some (.error f) := by
  intro h
  exact h 0 .invalidArgument rfl

end Noobs
