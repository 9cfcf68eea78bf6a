import Noobs.Spec.Web
import Mathlib.Data.List.TakeWhile

/-!
# Receiving a message

A socket's events are read in phases: a run of chunks, ended by a pause (`phase`).

* `readReceive_ok`: what one phase reads.
* `reads_exactly_iff`: **it reads exactly what is sent** just if no read fills the buffer.
* `continueReading_true`: the `do … while` loop, if it succeeds, stops at the first
  pause that finds the awaited size.
* `parseReceive_header`: the first parse goes through the header iff the blank line
  has arrived.
* `receive_true`: what a successful `receive` read, and how it put the body together.
-/

namespace Noobs

variable {idle : Pause} {events : List Event} {s s' : Socket} {w w' : Web}

/-! ## C strings -/

theorem nul_notin_cString (t : Text) : nul ∉ cString t := by
  intro h
  have hne := List.mem_takeWhile_imp h
  simp at hne

theorem cString_subset {t : Text} {c : Char} (h : c ∈ cString t) : c ∈ t := List.takeWhile_subset _ h

theorem cString_eq {t : Text} (h : nul ∉ t) : cString t = t := by
  refine List.takeWhile_eq_self_iff.2 fun c hc => decide_eq_true ?_
  rintro rfl
  exact h hc

/-! ## Phases -/

/-- The chunks among the events. -/
def chunksOf : List Event → List Chunk
  | [] => []
  | .chunk c :: es => c :: chunksOf es
  | .pause _ :: es => chunksOf es

def bytesOf (cs : List Chunk) : Text := cs.flatMap Chunk.bytes

/-- The text of some chunks, each up to its first NUL. -/
def textOf (cs : List Chunk) : Text := cs.flatMap fun c => c.bytes.takeWhile (· ≠ nul)

/-- The bytes the events deliver. -/
def delivered (events : List Event) : Text := bytesOf (chunksOf events)

/-- The chunks before the first pause, this pause, and the events behind it. -/
def phase (idle : Pause) : List Event → List Chunk × Pause × List Event
  | [] => ([], idle, [])
  | .chunk c :: es => (c :: (phase idle es).1, (phase idle es).2)
  | .pause p :: es => ([], p, es)

/-- How many bytes each pause finds delivered, if `t` were before. -/
def pauseMarks (t : ℕ) : List Event → List ℕ
  | [] => [t]
  | .chunk c :: es => pauseMarks (t + c.bytes.length) es
  | .pause _ :: es => t :: pauseMarks t es

/-- A chunk that fills the buffer and leaves no end of string in it. -/
def Chunk.Overlong (c : Chunk) : Prop := c.bytes.length = bufferSize ∧ nul ∉ c.bytes

instance (c : Chunk) : Decidable c.Overlong := by unfold Chunk.Overlong; infer_instance

/-- The first phase of a socket. -/
def Socket.chunks (s : Socket) : List Chunk := (phase s.idle s.events).1

def Socket.pause (s : Socket) : Pause := (phase s.idle s.events).2.1

/-- The socket behind its first phase. -/
def Socket.next (s : Socket) : Socket := { s with events := (phase s.idle s.events).2.2 }

theorem scan_eq (c : Chunk) : c.scan =
    if c.Overlong then .error .bufferOverread else .ok (c.bytes.takeWhile (· ≠ nul)) := by
  have hiff : (c.bytes.length < bufferSize ∨ nul ∈ c.bytes) ↔ ¬c.Overlong := by
    have hfits := c.fits
    unfold Chunk.Overlong
    rw [not_and_or, not_not]
    exact or_congr_left (by omega)
  unfold Chunk.scan
  by_cases h : c.Overlong
  · rw [if_neg (hiff.not.2 (not_not.2 h)), if_pos h]
  · rw [if_pos (hiff.2 h), if_neg h]

theorem phase_shorter (idle : Pause) (events : List Event) :
    (phase idle events).2.2.length < events.length ∨ events = [] ∨ (phase idle events).2.2 = [] := by
  induction events with
  | nil => exact Or.inr (Or.inl rfl)
  | cons e es ih =>
    cases e with
    | pause p => exact Or.inl (by simp [phase])
    | chunk c =>
      simp only [phase, List.length_cons]
      rcases ih with h | h | h
      · exact Or.inl (by omega)
      · subst h; exact Or.inr (Or.inr rfl)
      · exact Or.inr (Or.inr h)

/-- A phase is a first part of the events. -/
theorem phase_split (idle : Pause) (events : List Event) :
    ∃ used, events = used ++ (phase idle events).2.2 ∧ chunksOf used = (phase idle events).1 := by
  induction events with
  | nil => exact ⟨[], rfl, rfl⟩
  | cons e es ih =>
    cases e with
    | pause p => exact ⟨[.pause p], rfl, rfl⟩
    | chunk c =>
      obtain ⟨used, h1, h2⟩ := ih
      refine ⟨.chunk c :: used, by rw [phase, List.cons_append, ← h1], ?_⟩
      rw [chunksOf, h2]; rfl

theorem chunksOf_append (es es' : List Event) : chunksOf (es ++ es') = chunksOf es ++ chunksOf es' := by
  induction es with
  | nil => rfl
  | cons e es ih =>
    cases e with
    | pause p => exact ih
    | chunk c => rw [List.cons_append, chunksOf, chunksOf, ih, List.cons_append]

theorem bytesOf_append (cs cs' : List Chunk) : bytesOf (cs ++ cs') = bytesOf cs ++ bytesOf cs' :=
  List.flatMap_append

theorem textOf_append (cs cs' : List Chunk) : textOf (cs ++ cs') = textOf cs ++ textOf cs' :=
  List.flatMap_append

theorem delivered_append (es es' : List Event) : delivered (es ++ es') = delivered es ++ delivered es' := by
  unfold delivered
  rw [chunksOf_append, bytesOf_append]

theorem chunksOf_next (s : Socket) : chunksOf s.events = s.chunks ++ chunksOf s.next.events := by
  obtain ⟨used, h1, h2⟩ := phase_split s.idle s.events
  conv_lhs => rw [h1]
  rw [chunksOf_append, h2]
  rfl

theorem delivered_next (s : Socket) : delivered s.events = bytesOf s.chunks ++ delivered s.next.events := by
  unfold delivered
  rw [chunksOf_next, bytesOf_append]

theorem textOf_eq {cs : List Chunk} (h : ∀ c ∈ cs, nul ∉ c.bytes) : textOf cs = bytesOf cs := by
  unfold textOf bytesOf
  apply List.flatMap_congr
  intro c hc
  rw [List.takeWhile_eq_self_iff]
  intro b hb
  simpa using fun hbn : b = nul => h c hc (hbn ▸ hb)

/-- The marks of a phase: its own pause, and those behind it. -/
theorem mem_pauseMarks_phase (idle : Pause) {events : List Event} {t x : ℕ} :
    x ∈ pauseMarks t events ↔ x = t + (bytesOf (phase idle events).1).length ∨
      x ∈ pauseMarks (t + (bytesOf (phase idle events).1).length) (phase idle events).2.2 := by
  induction events generalizing t with
  | nil => simp [pauseMarks, phase, bytesOf]
  | cons e es ih =>
    cases e with
    | pause p => simp [pauseMarks, phase, bytesOf]
    | chunk c =>
      have hlen : (bytesOf (phase idle (.chunk c :: es)).1).length =
          c.bytes.length + (bytesOf (phase idle es).1).length := by simp [phase, bytesOf]
      rw [pauseMarks, ih, hlen, Nat.add_assoc]
      rfl

theorem le_of_mem_pauseMarks {events : List Event} {t x : ℕ} (h : x ∈ pauseMarks t events) : t ≤ x := by
  induction events generalizing t with
  | nil => simp [pauseMarks] at h; omega
  | cons e es ih =>
    cases e with
    | pause p =>
      rcases List.mem_cons.1 h with rfl | h
      · exact le_rfl
      · exact ih h
    | chunk c => have := ih h; omega

/-! ## One phase -/

/-- **What one phase reads**, unless a chunk makes the scan leave the buffer. -/
theorem readEvents_ok {idle : Pause} {events : List Event} (buffer : Text) (t : ℤ)
    (h : ∀ c ∈ (phase idle events).1, ¬c.Overlong) : readEvents idle events buffer t =
      .ok ⟨(phase idle events).2.1.thisRoundRead, buffer ++ textOf (phase idle events).1,
        t + (bytesOf (phase idle events).1).length + (phase idle events).2.1.thisRoundRead,
        (phase idle events).2.2⟩ := by
  induction events generalizing buffer t with
  | nil => simp [readEvents, phase, textOf, bytesOf]
  | cons e es ih =>
    cases e with
    | pause p => simp [readEvents, phase, textOf, bytesOf]
    | chunk c =>
      rw [phase, List.forall_mem_cons] at h
      rw [readEvents, scan_eq, if_neg h.1]
      refine (ih _ _ h.2).trans ?_
      simp only [phase, textOf, bytesOf, List.flatMap_cons, List.length_append, Int.natCast_add,
        List.append_assoc, add_assoc]

theorem readEvents_fault {idle : Pause} {events : List Event} (buffer : Text) (t : ℤ)
    (h : ∃ c ∈ (phase idle events).1, c.Overlong) :
    readEvents idle events buffer t = .error .bufferOverread := by
  induction events generalizing buffer t with
  | nil => simp [phase] at h
  | cons e es ih =>
    cases e with
    | pause p => simp [phase] at h
    | chunk c =>
      rw [readEvents, scan_eq]
      by_cases hc : c.Overlong
      · rw [if_pos hc]; rfl
      · rw [if_neg hc]
        refine ih _ _ ?_
        obtain ⟨d, hd, hover⟩ := h
        rcases List.mem_cons.1 hd with rfl | hd
        · exact absurd hover hc
        · exact ⟨d, hd, hover⟩

theorem readReceive_ok (w : Web) {s : Socket} (buffer : Text) (h : ∀ c ∈ s.chunks, ¬c.Overlong) :
    readReceive w s buffer = .ok (decide (0 ≤ s.pause.thisRoundRead), buffer ++ textOf s.chunks,
      { w with bytesRead := w.bytesRead + (bytesOf s.chunks).length + s.pause.thisRoundRead }, s.next) := by
  unfold readReceive
  rw [readEvents_ok _ _ h]
  rfl

theorem readReceive_fault (w : Web) {s : Socket} (buffer : Text) (h : ∃ c ∈ s.chunks, c.Overlong) :
    readReceive w s buffer = .error .bufferOverread := by
  unfold readReceive
  rw [readEvents_fault _ _ h]
  rfl

theorem thisRoundRead_nonneg {p : Pause} : 0 ≤ p.thisRoundRead ↔ p ≠ .error := by
  cases p <;> simp [Pause.thisRoundRead]

theorem thisRoundRead_of_ne {p : Pause} (h : p ≠ .error) : p.thisRoundRead = 0 := by
  cases p with
  | timeout => rfl
  | eof => rfl
  | error => exact absurd rfl h

/-- A successful phase. -/
theorem readReceive_true {buffer buffer' : Text} (h : readReceive w s buffer = .ok (true, buffer', w', s')) :
    (∀ c ∈ s.chunks, ¬c.Overlong) ∧ s.pause ≠ .error ∧ buffer' = buffer ++ textOf s.chunks ∧
      w' = { w with bytesRead := w.bytesRead + (bytesOf s.chunks).length } ∧ s' = s.next := by
  by_cases hover : ∃ c ∈ s.chunks, c.Overlong
  · rw [readReceive_fault _ _ hover] at h; cases h
  push Not at hover
  rw [readReceive_ok _ _ hover] at h
  simp only [Except.ok.injEq, Prod.mk.injEq, decide_eq_true_eq, thisRoundRead_nonneg] at h
  obtain ⟨h1, rfl, rfl, rfl⟩ := h
  rw [thisRoundRead_of_ne h1, add_zero]
  exact ⟨hover, h1, rfl, rfl, rfl⟩

/-- The read succeeds, adds the bytes of the phase to the text, and counts them. -/
def ReadsExactly (w : Web) (s : Socket) (buffer : Text) : Prop :=
  ∃ text w', readReceive w s buffer = .ok (true, buffer ++ text, w', s.next) ∧
    text = bytesOf s.chunks ∧ (text.length : ℤ) = w'.bytesRead - w.bytesRead

/-- **The reader loses and invents nothing** just if no read fills the buffer. -/
theorem reads_exactly_iff (w : Web) {s : Socket} (buffer : Text) (hnul : ∀ c ∈ s.chunks, nul ∉ c.bytes)
    (hend : s.pause ≠ .error) : ReadsExactly w s buffer ↔ ∀ c ∈ s.chunks, c.bytes.length < bufferSize := by
  constructor
  · rintro ⟨text, w', h, -, -⟩ c hc
    by_contra hfull
    have hover : c.Overlong := ⟨le_antisymm c.fits (not_lt.1 hfull), hnul c hc⟩
    rw [readReceive_fault _ _ ⟨c, hc, hover⟩] at h
    cases h
  · intro hshort
    have hover : ∀ c ∈ s.chunks, ¬c.Overlong := fun c hc h => (hshort c hc).ne h.1
    refine ⟨bytesOf s.chunks, { w with bytesRead := w.bytesRead + (bytesOf s.chunks).length }, ?_, rfl, ?_⟩
    · rw [readReceive_ok _ _ hover, decide_eq_true (thisRoundRead_nonneg.2 hend),
        thisRoundRead_of_ne hend, textOf_eq hnul, add_zero]
    · simp only
      omega

/-- A request that comes in two reads. -/
def twoReads : Socket :=
  { events := [.chunk ⟨"POST /os ".toList, by decide, by decide⟩,
      .chunk ⟨"HTTP/1.1\r\n\r\n".toList, by decide, by decide⟩, .pause .timeout]
    idle := .eof }

theorem two_reads_exact : ReadsExactly {} twoReads [] :=
  (reads_exactly_iff {} [] (by decide) (by decide)).2 (by decide)

/-- A request that fills the buffer. -/
def fullRead : Socket :=
  { events := [.chunk ⟨List.replicate bufferSize 'a',
      List.ne_nil_of_length_pos (by rw [List.length_replicate]; decide), List.length_replicate.le⟩]
    idle := .timeout }

/-- No byte is left for the end of the string. -/
theorem full_read_overruns :
    (∀ c ∈ fullRead.chunks, nul ∉ c.bytes) ∧ fullRead.pause ≠ .error ∧ ¬ReadsExactly {} fullRead [] := by
  have hchunk : ∀ c ∈ fullRead.chunks, c.Overlong := by
    intro c hc
    rw [List.mem_singleton.1 hc]
    refine ⟨List.length_replicate, fun h => ?_⟩
    exact absurd (List.eq_of_mem_replicate h) (by decide)
  refine ⟨fun c hc => (hchunk c hc).2, by decide, ?_⟩
  rintro ⟨text, w', h, -⟩
  rw [readReceive_fault _ _ ⟨_, List.mem_singleton_self _, hchunk _ (List.mem_singleton_self _)⟩] at h
  cases h

/-! ## The do-while loop -/

/-- **A successful loop** reads to the first pause that finds the awaited size, or to
the first pause if it awaits none. -/
theorem continueReading_true {size : ℤ} : ∀ {fuel t : ℕ} {w w' : Web} {s s' : Socket}
    {buffer buffer' : Text}, w.bytesRead = t →
    continueReading size fuel w s buffer = some (.ok (true, buffer', w', s')) →
    ∃ used, s.events = used ++ s'.events ∧ (∀ c ∈ chunksOf used, ¬c.Overlong) ∧
      buffer' = buffer ++ textOf (chunksOf used) ∧
      w' = { w with bytesRead := ((t + (delivered used).length : ℕ) : ℤ) } ∧
      t + (delivered used).length ∈ pauseMarks t s.events ∧
      (size ≠ -1 → size ≤ ((t + (delivered used).length : ℕ) : ℤ)) ∧
      ∀ x ∈ pauseMarks t s.events, (size ≠ -1 ∧ (x : ℤ) < size) ∨ t + (delivered used).length ≤ x := by
  intro fuel
  induction fuel with
  | zero => intro t w w' s s' buffer buffer' _ h; cases h
  | succ fuel ih =>
    intro t w w' s s' buffer buffer' ht h
    unfold continueReading at h
    cases hr : readReceive w s buffer with
    | error f => rw [hr] at h; cases h
    | ok r =>
      rw [hr] at h
      obtain ⟨ok, buffer₁, w₁, s₁⟩ := r
      cases ok with
      | false => cases h
      | true =>
        obtain ⟨hover, hpause, rfl, rfl, rfl⟩ := readReceive_true hr
        simp only at h
        obtain ⟨used, hused, hchunks⟩ := phase_split s.idle s.events
        have hlen : (delivered used).length = (bytesOf s.chunks).length := by
          unfold delivered; rw [hchunks]; rfl
        have hmarks : ∀ x, x ∈ pauseMarks t s.events ↔ x = t + (bytesOf s.chunks).length ∨
            x ∈ pauseMarks (t + (bytesOf s.chunks).length) s.next.events :=
          fun x => mem_pauseMarks_phase s.idle
        -- this phase ends at the first pause: before the awaited size, the loop goes on behind it
        by_cases hmore : size ≠ -1 ∧ w.bytesRead + (bytesOf s.chunks).length < size
        · rw [if_pos hmore] at h
          obtain ⟨used', h1, h2, rfl, rfl, h5, h6, h7⟩ :=
            @ih (t + (bytesOf s.chunks).length) _ _ _ _ _ _ (by simp only; rw [ht]; rfl) h
          have hlen' : t + (delivered (used ++ used')).length =
              t + (bytesOf s.chunks).length + (delivered used').length := by
            rw [delivered_append, List.length_append, hlen, Nat.add_assoc]
          refine ⟨used ++ used', ?_, ?_, ?_, ?_, ?_, ?_, ?_⟩
          · rw [List.append_assoc, ← h1]; exact hused
          · rw [chunksOf_append, hchunks]
            intro c hc
            rcases List.mem_append.1 hc with hc | hc
            · exact hover c hc
            · exact h2 c hc
          · rw [chunksOf_append, hchunks, textOf_append, List.append_assoc]; rfl
          · rw [hlen']
          · rw [hlen', hmarks]; exact Or.inr h5
          · rw [hlen']; exact h6
          · rw [hlen']
            intro x hx
            rcases (hmarks x).1 hx with rfl | hx
            · left
              rw [ht] at hmore
              exact ⟨hmore.1, by exact_mod_cast hmore.2⟩
            · exact h7 x hx
        · rw [if_neg hmore] at h
          simp only [Option.some.injEq, Except.ok.injEq, Prod.mk.injEq, true_and] at h
          obtain ⟨rfl, rfl, rfl⟩ := h
          rw [ht] at hmore
          refine ⟨used, hused, ?_, ?_, ?_, ?_, ?_, ?_⟩
          · rw [hchunks]; exact hover
          · rw [hchunks]; rfl
          · rw [hlen, ht]; rfl
          · rw [hlen, hmarks]; exact Or.inl rfl
          · rw [hlen]
            intro hsize
            push_cast
            exact not_lt.1 fun hlt => hmore ⟨hsize, hlt⟩
          · rw [hlen]
            intro x hx
            right
            rcases (hmarks x).1 hx with rfl | hx
            · exact le_rfl
            · exact le_of_mem_pauseMarks hx

/-! ## Parsing -/

/-- The header fields of some lines. -/
def fieldsOf (ls : List Text) : SortedMap Text Text := SortedMap.empty.insertAll (ls.filterMap headerField)

/-- A line with a colon is a field: the value is merged again from what its colons split,
and loses one blank. -/
theorem headerField_colon {key rest : Text} (h : ':' ∉ key) : headerField (key ++ ':' :: rest) =
    some (key, if rest.head? = some ' ' then rest.tail else rest) := by
  have hmerged : [':'].intercalate (rest.splitOn ':') = rest := List.intercalate_splitOn ':'
  unfold headerField split
  rw [List.splitOn_append_cons_self_of_not_mem h]
  cases hsplit : rest.splitOn ':' with
  | nil => exact absurd hsplit (List.splitOn_ne_nil _ _)
  | cons value more =>
    rw [hsplit] at hmerged
    simp only [hmerged]

theorem parseLines_body (methodLine : Bool) (w : Web) (ls : List Text) :
    parseLines false methodLine w ls = (true, { w with body := w.body ++ terminated '\n' ls }) := by
  induction ls generalizing w with
  | nil => simp [parseLines]
  | cons l ls ih =>
    rw [parseLines, ih, terminated_cons]
    simp [Web.parseBodyLine]

/-- Lines up to the blank line are header fields, those behind it the body. -/
theorem parseLines_fields (w : Web) {fs : List Text} (bs : List Text) (h : ['\r'] ∉ fs) :
    parseLines true false w (fs ++ ['\r'] :: bs) = (true, { w with
      header := w.header.insertAll (fs.filterMap headerField)
      body := w.body ++ terminated '\n' bs }) := by
  induction fs generalizing w with
  | nil =>
    rw [List.nil_append, parseLines, if_pos rfl, parseLines_body]
    rfl
  | cons f fs ih =>
    rw [List.mem_cons, not_or] at h
    rw [List.cons_append, parseLines, if_neg (Ne.symm h.1), ih _ h.2]
    unfold Web.parseHeaderLine
    cases hf : headerField f with
    | none => rw [List.filterMap_cons_none hf]
    | some e => rw [List.filterMap_cons_some hf]; rfl

theorem parseLines_incomplete (w : Web) {ls : List Text} (h : ['\r'] ∉ ls) :
    (parseLines true false w ls).1 = false := by
  induction ls generalizing w with
  | nil => rfl
  | cons l ls ih =>
    rw [List.mem_cons, not_or] at h
    rw [parseLines, if_neg (Ne.symm h.1)]
    exact ih _ h.2

/-- The lines of a text with a whole header: the request line, the fields, the rest. -/
def HeaderLines (text : Text) (first : Text) (fs bs : List Text) : Prop :=
  lines '\n' text = first :: (fs ++ ['\r'] :: bs) ∧ ['\r'] ∉ fs

/-- **The first parse** leaves the header iff the blank line has arrived. -/
theorem parseReceive_header {w : Web} {text first : Text} {fs bs : List Text}
    (h : HeaderLines text first fs bs) : w.parseReceive text false = (true, { w with
      headerLine := first
      header := w.header.insertAll (fs.filterMap headerField)
      body := w.body ++ terminated '\n' bs }) := by
  unfold Web.parseReceive
  rw [h.1]
  exact parseLines_fields _ bs h.2

theorem parseReceive_incomplete {w : Web} {text : Text}
    (h : ¬∃ first fs bs, HeaderLines text first fs bs) : (w.parseReceive text false).1 = false := by
  unfold Web.parseReceive
  cases hl : lines '\n' text with
  | nil => rfl
  | cons first ls =>
    refine parseLines_incomplete _ ?_
    intro hmem
    obtain ⟨fs, bs, heq, hnot⟩ := List.eq_append_cons_of_mem hmem
    exact h ⟨first, fs, bs, by rw [hl, heq], hnot⟩

theorem parseReceive_body (w : Web) (text : Text) : w.parseReceive text true =
    (true, { w with body := w.body ++ terminated '\n' (lines '\n' text) }) :=
  parseLines_body true w _

/-! ## The whole message -/

/-- The message after the first parse. -/
def firstParse (s : Socket) (first : Text) (fs bs : List Text) : Web :=
  { headerLine := first, header := fieldsOf fs, body := terminated '\n' bs,
    bytesRead := (bytesOf s.chunks).length }

/-- Whether the first phase succeeds and brings a whole header. -/
def Socket.HasHeader (s : Socket) : Prop := s.pause ≠ .error ∧ ['\r'] ∈ (lines '\n' (textOf s.chunks)).tail

instance (s : Socket) : Decidable s.HasHeader := by unfold Socket.HasHeader; infer_instance

/-- The lines of the header that the first phase brings, but for the blank one. -/
def Socket.headerLines (s : Socket) : List Text :=
  let ls := lines '\n' (textOf s.chunks)
  ls.take 1 ++ ls.tail.takeWhile (· ≠ ['\r'])

/-- Whether the header asks for `100 Continue`. -/
def Socket.expects (s : Socket) : Bool :=
  (fieldsOf s.headerLines.tail).find? "Expect".toList = some "100-continue\r".toList

/-- The `Content-Length` of the header, as `std::stoi` reads it. -/
def Socket.contentLength (s : Socket) : Option (Except Fault ℤ) :=
  ((fieldsOf s.headerLines.tail).find? "Content-Length".toList).map stoi

theorem hasHeader_iff : s.HasHeader ↔
    s.pause ≠ .error ∧ ∃ first fs bs, HeaderLines (textOf s.chunks) first fs bs := by
  unfold Socket.HasHeader HeaderLines
  refine and_congr_right fun _ => ?_
  constructor
  · intro h
    cases hl : lines '\n' (textOf s.chunks) with
    | nil => rw [hl] at h; simp at h
    | cons first ls =>
      rw [hl, List.tail_cons] at h
      obtain ⟨fs, bs, heq, hnot⟩ := List.eq_append_cons_of_mem h
      exact ⟨first, fs, bs, by rw [heq], hnot⟩
  · rintro ⟨first, fs, bs, heq, -⟩
    rw [heq]
    simp

/-- The fields of a header are its lines up to the blank one. -/
theorem takeWhile_fields {fs : List Text} (bs : List Text) (h : ['\r'] ∉ fs) :
    (fs ++ ['\r'] :: bs).takeWhile (· ≠ ['\r']) = fs := by
  have hfield : ∀ f ∈ fs, decide (f ≠ ['\r']) = true := by
    intro f hf
    rw [decide_eq_true_eq]
    rintro rfl
    exact h hf
  rw [List.takeWhile_append_of_pos hfield]
  simp

theorem headerLines_eq {first : Text} {fs bs : List Text} (h : HeaderLines (textOf s.chunks) first fs bs) :
    s.headerLines = first :: fs := by
  unfold Socket.headerLines
  simp only [h.1, List.take_succ_cons, List.take_zero, List.tail_cons, takeWhile_fields bs h.2]
  rfl

theorem expects_eq {first : Text} {fs bs : List Text} (h : HeaderLines (textOf s.chunks) first fs bs) :
    (firstParse s first fs bs).expectsContinue = s.expects := by
  unfold Socket.expects
  rw [headerLines_eq h]
  rfl

theorem messageSize_eq {first : Text} {fs bs : List Text} (h : HeaderLines (textOf s.chunks) first fs bs) :
    (firstParse s first fs bs).messageSize = match s.contentLength with
      | none => .ok (-1)
      | some (.error f) => .error f
      | some (.ok n) => .ok (if n > (bytesOf s.chunks).length then n else -1) := by
  unfold Web.messageSize Socket.contentLength
  rw [headerLines_eq h, List.tail_cons]
  simp only [firstParse]
  cases (fieldsOf fs).find? "Content-Length".toList with
  | none => rfl
  | some value =>
    simp only [Option.map_some]
    cases stoi value <;> rfl

/-- **A receive up to the header**, if its first phase succeeds and brings the whole header. -/
theorem receive_eq (fuel : ℕ) {first : Text} {fs bs : List Text} (hover : ∀ c ∈ s.chunks, ¬c.Overlong)
    (hpause : s.pause ≠ .error) (hlines : HeaderLines (textOf s.chunks) first fs bs) :
    receive fuel {} s = receiveBody fuel (firstParse s first fs bs) s.next := by
  unfold receive
  rw [readReceive_ok _ _ hover, decide_eq_true (thisRoundRead_nonneg.2 hpause)]
  simp only [List.nil_append, parseReceive_header hlines, zero_add, thisRoundRead_of_ne hpause, add_zero]
  rfl

/-- A receive whose first phase brings no whole header fails. -/
theorem receive_incomplete (hover : ∀ c ∈ s.chunks, ¬c.Overlong) (h : ¬s.HasHeader) :
    ∃ w s', ∀ fuel, receive fuel {} s = some (.ok (false, w, s')) := by
  rw [hasHeader_iff, not_and_or, not_not] at h
  unfold receive
  rw [readReceive_ok _ _ hover]
  by_cases hpause : s.pause = .error
  · rw [decide_eq_false (thisRoundRead_nonneg.not.2 (not_not.2 hpause))]
    exact ⟨_, _, fun fuel => rfl⟩
  · rw [decide_eq_true (thisRoundRead_nonneg.2 hpause)]
    have hfalse := parseReceive_incomplete (w := { bytesRead := 0 + (bytesOf s.chunks).length +
      s.pause.thisRoundRead }) (h.resolve_left hpause)
    simp only [List.nil_append]
    cases hp : Web.parseReceive { bytesRead := 0 + (bytesOf s.chunks).length + s.pause.thisRoundRead }
        (textOf s.chunks) false with
    | mk ok w =>
      rw [hp] at hfalse
      simp only at hfalse
      subst hfalse
      exact ⟨_, _, fun fuel => rfl⟩

theorem receive_fault (fuel : ℕ) (h : ∃ c ∈ s.chunks, c.Overlong) :
    receive fuel {} s = some (.error .bufferOverread) := by
  unfold receive
  rw [readReceive_fault _ _ h]

/-- What `receive` returns from has no overlong chunk in its first phase. -/
theorem notOverlong_of_receive {fuel : ℕ} {r : Bool × Web × Socket}
    (h : receive fuel {} s = some (.ok r)) : ∀ c ∈ s.chunks, ¬c.Overlong := by
  by_contra hover
  push Not at hover
  rw [receive_fault fuel hover] at h
  cases h

/-- What `receive` makes of the result of its loop. -/
def afterReading (r : Bool × Text × Web × Socket) : Bool × Web × Socket :=
  (r.1, if r.1 then { r.2.2.1 with body := r.2.2.1.body ++ terminated '\n' (lines '\n' r.2.1) }
    else r.2.2.1, r.2.2.2)

/-- **A receive from the header on**: it is done, or goes on reading, with the newline
removed if it awaits a size. -/
theorem receiveBody_eq {w₁ : Web} {size : ℤ} (s : Socket) (hsize : w₁.messageSize = .ok size) :
    (w₁.expectsContinue = false ∧ size = -1 ∧ ∀ fuel, receiveBody fuel w₁ s = some (.ok (true, w₁, s))) ∨
    ((w₁.expectsContinue = true ∨ size ≠ -1) ∧ ∃ s₁, s₁.events = s.events ∧ s₁.idle = s.idle ∧
      ∀ fuel, receiveBody fuel w₁ s = (continueReading size fuel
        { w₁ with body := if size ≠ -1 then w₁.body.dropLast else w₁.body } s₁ []).map
          (Except.map afterReading)) := by
  unfold receiveBody
  rw [hsize]
  simp only
  set s₁ := if w₁.expectsContinue = true then
    s.send { headerLine := "HTTP/1.0 100 Continue".toList } else s with hs₁
  have hw₂ : (if size ≠ -1 then { w₁ with body := w₁.body.dropLast } else w₁) =
      { w₁ with body := if size ≠ -1 then w₁.body.dropLast else w₁.body } := by
    split_ifs <;> rfl
  have hexp : Web.expectsContinue
      { w₁ with body := if size ≠ -1 then w₁.body.dropLast else w₁.body } = w₁.expectsContinue := rfl
  rw [hw₂, hexp]
  by_cases hmore : w₁.expectsContinue = true ∨ size ≠ -1
  · refine Or.inr ⟨hmore, s₁, by rw [hs₁]; split_ifs <;> rfl, by rw [hs₁]; split_ifs <;> rfl, ?_⟩
    intro fuel
    rw [if_pos hmore]
    rcases continueReading size fuel
        { w₁ with body := if size ≠ -1 then w₁.body.dropLast else w₁.body } s₁ [] with
      -- only a loop that succeeds is parsed
      _ | f | ⟨_ | _, buffer, w₃, s₃⟩
    · rfl
    · rfl
    · rfl
    · simp only [parseReceive_body]
      rfl
  · push Not at hmore
    have hnot : w₁.expectsContinue = false := by simpa using hmore.1
    refine Or.inl ⟨hnot, hmore.2, ?_⟩
    intro fuel
    rw [if_neg (by simpa using hmore), if_neg (not_not.2 hmore.2), hs₁, hnot]
    rfl

/-- A successful `receive` from where the header was parsed. -/
theorem receiveBody_true {fuel : ℕ} {w₁ : Web} (h : receiveBody fuel w₁ s = some (.ok (true, w, s'))) :
    ∃ size, w₁.messageSize = .ok size ∧
      (w₁.expectsContinue = false ∧ size = -1 ∧ w = w₁ ∧ s'.events = s.events ∨
        (w₁.expectsContinue = true ∨ size ≠ -1) ∧ ∃ s₁ w₃ buffer, s₁.events = s.events ∧
          continueReading size fuel { w₁ with body := if size ≠ -1 then w₁.body.dropLast else w₁.body }
            s₁ [] = some (.ok (true, buffer, w₃, s')) ∧
          w = { w₃ with body := w₃.body ++ terminated '\n' (lines '\n' buffer) }) := by
  cases hsize : w₁.messageSize with
  | error f =>
    unfold receiveBody at h
    rw [hsize] at h
    cases h
  | ok size =>
    refine ⟨size, rfl, ?_⟩
    rcases receiveBody_eq s hsize with ⟨hexp, hno, heq⟩ | ⟨hmore, s₁, hev, -, heq⟩
    · rw [heq] at h
      simp only [Option.some.injEq, Except.ok.injEq, Prod.mk.injEq, true_and] at h
      exact Or.inl ⟨hexp, hno, h.1.symm, by rw [← h.2]⟩
    · rw [heq] at h
      obtain ⟨r, hr, hmap⟩ := Option.map_eq_some_iff.1 h
      rcases r with f | ⟨_ | _, buffer, w₃, s₃⟩
      · cases hmap
      · cases hmap
      · simp only [Except.map, afterReading, Except.ok.injEq, Prod.mk.injEq, true_and, if_true] at hmap
        obtain ⟨rfl, rfl⟩ := hmap
        exact Or.inr ⟨hmore, s₁, w₃, buffer, hev, hr, rfl⟩

/-- **A successful receive** has read a whole header in its first phase, then `used`
more events: none if it had no reason to go on, else up to the first pause that finds
the awaited size. -/
theorem receive_true {fuel : ℕ} (h : receive fuel {} s = some (.ok (true, w, s'))) :
    (∀ c ∈ s.chunks, ¬c.Overlong) ∧ s.pause ≠ .error ∧
    ∃ first fs bs, HeaderLines (textOf s.chunks) first fs bs ∧
    ∃ size used, (firstParse s first fs bs).messageSize = .ok size ∧
      s.next.events = used ++ s'.events ∧ w.headerLine = first ∧ w.header = fieldsOf fs ∧
      w.body = (if size ≠ -1 then (terminated '\n' bs).dropLast else terminated '\n' bs) ++
        terminated '\n' (lines '\n' (textOf (chunksOf used))) ∧
      ((firstParse s first fs bs).expectsContinue = false ∧ size = -1 ∧ used = [] ∨
        ((firstParse s first fs bs).expectsContinue = true ∨ size ≠ -1) ∧
        (bytesOf s.chunks).length + (delivered used).length ∈
          pauseMarks (bytesOf s.chunks).length s.next.events ∧
        (size ≠ -1 → size ≤ (((bytesOf s.chunks).length + (delivered used).length : ℕ) : ℤ)) ∧
        ∀ x ∈ pauseMarks (bytesOf s.chunks).length s.next.events, (size ≠ -1 ∧ (x : ℤ) < size) ∨
          (bytesOf s.chunks).length + (delivered used).length ≤ x) := by
  have hover := notOverlong_of_receive h
  by_cases hfirst : s.HasHeader
  swap
  · obtain ⟨w', s'', hf⟩ := receive_incomplete hover hfirst
    rw [hf] at h; cases h
  obtain ⟨hpause, first, fs, bs, hlines⟩ := hasHeader_iff.1 hfirst
  rw [receive_eq fuel hover hpause hlines] at h
  refine ⟨hover, hpause, first, fs, bs, hlines, ?_⟩
  set w₁ := firstParse s first fs bs with hw₁
  obtain ⟨size, hsize, hcase⟩ := receiveBody_true h
  rcases hcase with ⟨hexp, rfl, rfl, hev⟩ | ⟨hmore, s₁, w₃, buffer, hs₁, hc, rfl⟩
  -- it returned behind the first phase, or the loop read on
  · refine ⟨-1, [], hsize, hev.symm, rfl, rfl, ?_, Or.inl ⟨hexp, rfl, rfl⟩⟩
    simp [hw₁, firstParse, chunksOf, textOf]
  · obtain ⟨used, h1, -, rfl, rfl, h5, h6, h7⟩ := continueReading_true (t := (bytesOf s.chunks).length) rfl hc
    rw [hs₁] at h1 h5 h7
    exact ⟨size, used, hsize, h1, rfl, rfl, rfl, Or.inr ⟨hmore, h5, h6, h7⟩⟩

end Noobs
