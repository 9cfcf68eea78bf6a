import Noobs.Proof.Receive
import Mathlib.Tactic.Linarith

/-!
# What timing does to a message

A message arrives in chunks, with pauses in between. `receive` decides at pauses
whether it is done, by the number of bytes read in all, header included; and it
parses what came before the first pause and what came later separately.

* `body_complete`: **a received body is complete** iff no pause at which `receive`
  might stop finds `n` bytes of the message but fewer of its body (`BodyFirst`).
* `same_message`: **two deliveries of a message** are received alike iff their first
  pauses fall where the two parts of the body join alike (`JoinAlike`).
-/

namespace Noobs

variable {s s' : Socket} {w : Web}

/-! ## Completeness -/

/-- What stands behind the CR of the blank line, at `k`: the body, behind the LF if it
has arrived. -/
def behindHeader (k : ℕ) (text : Text) : Text :=
  if text[k]? = some '\n' then text.drop (k + 1) else text.drop k

/-- Where the blank line's CR ends. -/
def Socket.headerSize (s : Socket) : ℕ := (terminated '\n' s.headerLines).length + 1

/-- The bytes of the body among the first `t` bytes delivered. -/
def Socket.bodyAt (s : Socket) (t : ℕ) : Text := behindHeader s.headerSize ((delivered s.events).take t)

/-- How many bytes every pause finds delivered at which `receive` might stop: all
pauses, except the first if the header asks for `100 Continue`. -/
def Socket.stops (s : Socket) : List ℕ :=
  let t := (bytesOf s.chunks).length
  if s.expects then pauseMarks t s.next.events else t :: pauseMarks t s.next.events

/-- No such pause finds `n` bytes of the message but fewer of its body. -/
def BodyFirst (s : Socket) (n : ℤ) : Prop := ∀ t ∈ s.stops, n ≤ t → n ≤ (s.bodyAt t).length

instance (s : Socket) (n : ℤ) : Decidable (BodyFirst s n) := by unfold BodyFirst; infer_instance

/-- How many bytes were read between two states of a socket. -/
def readLength (s s' : Socket) : ℕ := (delivered s.events).length - (delivered s'.events).length

/-- More bytes show more of the body. -/
theorem behindHeader_mono (k : ℕ) (text : Text) {t t' : ℕ} (h : t ≤ t') :
    (behindHeader k (text.take t)).length ≤ (behindHeader k (text.take t')).length := by
  have hlen : ∀ x, (behindHeader k (text.take x)).length =
      if x ≤ k then 0 else min x text.length - if text[k]? = some '\n' then k + 1 else k := by
    intro x
    unfold behindHeader
    rw [List.getElem?_take]
    by_cases hx : k < x
    · rw [if_pos hx, if_neg (not_le.2 hx)]
      by_cases hc : text[k]? = some '\n'
      · rw [if_pos hc, if_pos hc, List.length_drop, List.length_take]
      · rw [if_neg hc, if_neg hc, List.length_drop, List.length_take]
    · rw [if_neg hx, if_pos (not_lt.1 hx), if_neg (by simp), List.length_drop, List.length_take]
      omega
  rw [hlen, hlen]
  split_ifs <;> omega

/-- **A received body is complete** iff no pause at which `receive` might stop finds
`n` bytes of the message but fewer of its body. -/
theorem body_complete {fuel : ℕ} {value : Text} {n : ℤ}
    (h : receive fuel {} s = some (.ok (true, w, s')))
    (hvalue : w.header.find? "Content-Length".toList = some value) (hn : stoi value = .ok n) :
    n ≤ (s.bodyAt (readLength s s')).length ↔ BodyFirst s n := by
  obtain ⟨-, -, first, fs, bs, hlines, size, used, hsize, hused, -, hheader, -, hcase⟩ := receive_true h
  set t := (bytesOf s.chunks).length with ht
  have hread : readLength s s' = t + (delivered used).length := by
    have hall : delivered s.events = bytesOf s.chunks ++ (delivered used ++ delivered s'.events) := by
      rw [← delivered_append, ← hused]; exact delivered_next s
    unfold readLength
    rw [hall, List.length_append, List.length_append]
    omega
  have hsize' : size = if n > t then n else -1 := by
    unfold Web.messageSize at hsize
    rw [hheader] at hvalue
    simp only [firstParse, hvalue, hn] at hsize
    exact (Except.ok.inj hsize).symm
  have hstop : s.stops = if s.expects = true then pauseMarks t s.next.events
      else t :: pauseMarks t s.next.events := rfl
  rw [expects_eq hlines] at hcase
  -- `receive` stops at one of the stops, the first with `n` bytes
  have hkey : readLength s s' ∈ s.stops ∧ n ≤ readLength s s' ∧
      ∀ x ∈ s.stops, (x : ℤ) < n ∨ readLength s s' ≤ x := by
    rw [hread, hstop]
    rcases hcase with ⟨hexp, rfl, rfl⟩ | ⟨hmore, h5, h6, h7⟩
    · have hnt : ¬n > t := by
        intro hgt
        rw [if_pos hgt] at hsize'
        omega
      rw [if_neg (by simp [hexp])]
      refine ⟨List.mem_cons_self, by simp [delivered, chunksOf, bytesOf]; omega, ?_⟩
      intro x hx
      right
      rcases List.mem_cons.1 hx with rfl | hx
      · exact le_rfl
      · exact le_of_mem_pauseMarks hx
    · have hle : n ≤ ((t + (delivered used).length : ℕ) : ℤ) := by
        by_cases hgt : n > t
        · rw [if_pos hgt] at hsize'
          subst hsize'
          exact h6 (by omega)
        · push_cast; omega
      have hmarks : ∀ x ∈ pauseMarks t s.next.events, (x : ℤ) < n ∨ t + (delivered used).length ≤ x := by
        intro x hx
        rcases h7 x hx with ⟨hne, hlt⟩ | hge
        · left
          by_cases hgt : n > t
          · rw [if_pos hgt] at hsize'; omega
          · rw [if_neg hgt] at hsize'; exact absurd hsize' hne
        · exact Or.inr hge
      by_cases hexp : s.expects = true
      · rw [if_pos hexp]
        exact ⟨h5, hle, hmarks⟩
      · rw [if_neg hexp]
        refine ⟨List.mem_cons_of_mem _ h5, hle, ?_⟩
        intro x hx
        rcases List.mem_cons.1 hx with rfl | hx
        · -- it went on for the size
          left
          by_cases hgt : n > t
          · exact hgt
          · rw [if_neg hgt] at hsize'
            rcases hmore with hmore | hmore
            · exact absurd hmore hexp
            · exact absurd hsize' hmore
        · exact hmarks x hx
  obtain ⟨hmem, hle, hall⟩ := hkey
  constructor
  · intro hbody x hx hnx
    have hge : readLength s s' ≤ x := (hall x hx).resolve_left (not_lt.2 hnx)
    have := behindHeader_mono s.headerSize (delivered s.events) hge
    unfold Socket.bodyAt at hbody ⊢
    omega
  · intro hfirst
    exact hfirst _ hmem hle

/-- What a receive leaves of the message and the socket. -/
def received (fuel : ℕ) (s : Socket) : Web × Socket :=
  match receive fuel {} s with
  | some (.ok (_, w, s')) => (w, s')
  | _ => ({}, s)

/-- A header that announces five bytes. -/
def demoHeader : Chunk :=
  ⟨"POST /os HTTP/1.1\r\nContent-Length: 5\r\n\r\n".toList, by decide, by decide⟩

/-- The five bytes. -/
def demoBody : Chunk := ⟨"hello".toList, by decide, by decide⟩

/-- The body comes after a second of silence. -/
def lateSocket : Socket :=
  { events := [.chunk demoHeader, .pause .timeout, .chunk demoBody], idle := .timeout }

/-- The body comes at once. -/
def promptSocket : Socket := { events := [.chunk demoHeader, .chunk demoBody], idle := .timeout }

/-- The header alone is longer than the body, so `receive` does not wait for it. -/
theorem late_body :
    receive 1 {} lateSocket = some (.ok (true, received 1 lateSocket)) ∧
    (received 1 lateSocket).1.header.find? "Content-Length".toList = some "5\r".toList ∧
    stoi "5\r".toList = .ok 5 ∧
    ¬(5 : ℤ) ≤ (lateSocket.bodyAt (readLength lateSocket (received 1 lateSocket).2)).length :=
  ⟨rfl, by decide, rfl, by decide⟩

theorem prompt_body :
    (5 : ℤ) ≤ (promptSocket.bodyAt (readLength promptSocket (received 1 promptSocket).2)).length := by
  have hreceive : receive 1 {} promptSocket = some (.ok (true, received 1 promptSocket)) := rfl
  have hvalue : (received 1 promptSocket).1.header.find? "Content-Length".toList = some "5\r".toList := by
    decide
  exact (body_complete hreceive hvalue rfl).2 (by decide)

/-! ## Joining the body -/

/-- The body as parsed in one piece: ended by a newline. -/
def parsed (text : Text) : Text := terminated '\n' (lines '\n' text)

/-- The body as received when `i` of its bytes were there at the first pause; the
header has `h` bytes. -/
def joined (h : ℕ) (body : Text) (i : ℕ) : Text :=
  (if h + i < body.length then (parsed (body.take i)).dropLast else parsed (body.take i)) ++
    parsed (body.drop i)

/-- A newline of the body is taken for the one `parseBodyLine` added. -/
def LosesNewline (h : ℕ) (body : Text) (i : ℕ) : Prop :=
  h + i < body.length ∧ body.take i ≠ [] ∧ Ended '\n' (body.take i)

/-- The newline `parseBodyLine` added stays inside a line of the body. -/
def GainsNewline (h : ℕ) (body : Text) (i : ℕ) : Prop :=
  body.length ≤ h + i ∧ i < body.length ∧ ¬Ended '\n' (body.take i)

instance (h i : ℕ) (body : Text) : Decidable (LosesNewline h body i) := by
  unfold LosesNewline; infer_instance

instance (h i : ℕ) (body : Text) : Decidable (GainsNewline h body i) := by
  unfold GainsNewline; infer_instance

/-- The body joins alike for first pauses behind `i` and `j` of its bytes: they fall at
the same byte; or neither loses nor gains a newline; or both lose one, out of the same
run of newlines. -/
def JoinAlike (h : ℕ) (body : Text) (i j : ℕ) : Prop :=
  i = j ∨
  (¬LosesNewline h body i ∧ ¬GainsNewline h body i ∧ ¬LosesNewline h body j ∧ ¬GainsNewline h body j) ∨
  (LosesNewline h body i ∧ LosesNewline h body j ∧
    ∀ c ∈ (body.take (max i j)).drop (min i j), c = '\n')

instance (h i j : ℕ) (body : Text) : Decidable (JoinAlike h body i j) :=
  -- over the text, not over all characters
  letI : Decidable (∀ c ∈ (body.take (max i j)).drop (min i j), c = '\n') := List.decidableBAll _ _
  inferInstanceAs (Decidable (_ ∨ _ ∨ _))

theorem parsed_eq (text : Text) : parsed text = if Ended '\n' text then text else text ++ ['\n'] :=
  terminated_lines text

theorem parsed_append (a : Text) {b : Text} (hb : b ≠ []) : parsed (a ++ b) = a ++ parsed b := by
  have hend : Ended '\n' (a ++ b) ↔ Ended '\n' b := by
    unfold Ended
    rw [List.getLast?_append_of_ne_nil _ hb]
    simp [hb]
  rw [parsed_eq, parsed_eq]
  by_cases h : Ended '\n' b
  · rw [if_pos h, if_pos (hend.2 h)]
  · rw [if_neg h, if_neg (hend.not.2 h), List.append_assoc]

/-- A list that a letter may be moved through consists of this letter. -/
theorem cons_eq_concat {α : Type*} {a : α} {l : List α} : a :: l = l ++ [a] ↔ ∀ c ∈ l, c = a := by
  induction l with
  | nil => simp
  | cons c l ih =>
    rw [List.cons_append, List.cons.injEq, List.forall_mem_cons, ← ih]
    constructor
    · rintro ⟨rfl, h⟩; exact ⟨rfl, h⟩
    · rintro ⟨rfl, h⟩; exact ⟨rfl, h⟩

variable {h i j : ℕ} {body : Text}

/-- A pause that loses a newline: all of the body but the newline before the pause. -/
theorem joined_loses (hl : LosesNewline h body i) :
    joined h body i = (body.take i).dropLast ++ parsed (body.drop i) ∧
      parsed body = (body.take i).dropLast ++ '\n' :: parsed (body.drop i) := by
  obtain ⟨hlt, hne, hend⟩ := hl
  have hdrop : body.drop i ≠ [] := by
    rw [Ne, List.drop_eq_nil_iff]; omega
  obtain ⟨x, hx⟩ := List.getLast?_eq_some_iff.1 (hend.resolve_left hne)
  refine ⟨?_, ?_⟩
  · unfold joined
    rw [if_pos hlt, parsed_eq, if_pos hend]
  · conv_lhs => rw [← List.take_append_drop i body]
    rw [parsed_append _ hdrop, hx, List.dropLast_concat, List.append_assoc]
    rfl

/-- A pause that gains a newline. -/
theorem joined_gains (hg : GainsNewline h body i) :
    joined h body i = body.take i ++ '\n' :: parsed (body.drop i) ∧
      parsed body = body.take i ++ parsed (body.drop i) := by
  obtain ⟨hle, hlt, hend⟩ := hg
  have hdrop : body.drop i ≠ [] := by
    rw [Ne, List.drop_eq_nil_iff]; omega
  refine ⟨?_, ?_⟩
  · unfold joined
    rw [if_neg (not_lt.2 hle), parsed_eq, if_neg hend, List.append_assoc]
    rfl
  · conv_lhs => rw [← List.take_append_drop i body]
    rw [parsed_append _ hdrop]

/-- **A pause that does neither** does not show. -/
theorem joined_clean (hl : ¬LosesNewline h body i) (hg : ¬GainsNewline h body i) :
    joined h body i = parsed body := by
  unfold joined
  by_cases hdrop : body.drop i = []
  · rw [List.drop_eq_nil_iff] at hdrop
    rw [List.take_of_length_le hdrop, List.drop_of_length_le hdrop, if_neg (by omega)]
    simp [parsed]
  · have hi : i < body.length := by
      rw [List.drop_eq_nil_iff] at hdrop; omega
    conv_rhs => rw [← List.take_append_drop i body]
    rw [parsed_append _ hdrop]
    congr 1
    by_cases hlt : h + i < body.length
    · rw [if_pos hlt]
      by_cases hnil : body.take i = []
      · rw [hnil]; rfl
      · have hend : ¬Ended '\n' (body.take i) := fun hend => hl ⟨hlt, hnil, hend⟩
        rw [parsed_eq, if_neg hend, List.dropLast_concat]
    · rw [if_neg hlt]
      have hend : Ended '\n' (body.take i) := by
        by_contra hend
        exact hg ⟨not_lt.1 hlt, hi, hend⟩
      rw [parsed_eq, if_pos hend]

theorem length_joined (h : ℕ) (body : Text) (i : ℕ) :
    (LosesNewline h body i ∧ (joined h body i).length + 1 = (parsed body).length) ∨
    (GainsNewline h body i ∧ (joined h body i).length = (parsed body).length + 1) ∨
    (¬LosesNewline h body i ∧ ¬GainsNewline h body i ∧ joined h body i = parsed body) := by
  by_cases hl : LosesNewline h body i
  · obtain ⟨h1, h2⟩ := joined_loses hl
    refine Or.inl ⟨hl, ?_⟩
    rw [h1, h2]
    simp only [List.length_append, List.length_cons]
    omega
  by_cases hg : GainsNewline h body i
  · obtain ⟨h1, h2⟩ := joined_gains hg
    refine Or.inr (Or.inl ⟨hg, ?_⟩)
    rw [h1, h2]
    simp only [List.length_append, List.length_cons]
    omega
  · exact Or.inr (Or.inr ⟨hl, hg, joined_clean hl hg⟩)

/-- What stands between two bytes of a text. -/
theorem take_drop_between (text : Text) (hij : i ≤ j) (hj : j ≤ text.length) :
    text.take j = text.take i ++ (text.take j).drop i ∧
      text.drop i = (text.take j).drop i ++ text.drop j := by
  refine ⟨?_, ?_⟩
  · conv_lhs => rw [← List.take_append_drop i (text.take j)]
    rw [List.take_take, min_eq_left hij]
  · conv_lhs => rw [← List.take_append_drop j text]
    rw [List.drop_append_of_le_length (by rw [List.length_take]; omega)]

/-- Two losses are the same iff only newlines stand between them. -/
theorem joined_loses_eq (hij : i ≤ j) (hi : LosesNewline h body i) (hj : LosesNewline h body j) :
    joined h body i = joined h body j ↔ ∀ c ∈ (body.take j).drop i, c = '\n' := by
  obtain ⟨htake, hdrop⟩ := take_drop_between body hij (by have := hj.1; omega)
  have hne : body.drop j ≠ [] := by
    have := hj.1
    rw [Ne, List.drop_eq_nil_iff]; omega
  obtain ⟨x, hx⟩ := List.getLast?_eq_some_iff.1 (hi.2.2.resolve_left hi.2.1)
  obtain ⟨z, hz⟩ := List.getLast?_eq_some_iff.1 (hj.2.2.resolve_left hj.2.1)
  rw [(joined_loses hi).1, (joined_loses hj).1]
  set y := (body.take j).drop i
  rw [hdrop, parsed_append _ hne, htake, hx, List.dropLast_concat]
  rcases List.eq_nil_or_concat' y with hy | ⟨y', c, hy⟩
  · rw [hy]; simp
  · have hc : c = '\n' := by
      rw [htake, hy, ← List.append_assoc] at hz
      exact (List.append_inj' hz rfl).2 |> List.singleton_inj.1
    subst hc
    have hlast : (x ++ ['\n'] ++ (y' ++ ['\n'])).dropLast = x ++ '\n' :: y' := by
      rw [← List.append_assoc, List.dropLast_concat, List.append_assoc]; rfl
    rw [hy, hlast, List.append_assoc x, List.append_cancel_left_eq,
      List.append_cancel_right_eq, eq_comm, cons_eq_concat, List.forall_mem_append]
    simp

/-- Two gains are the same only at the same byte. -/
theorem joined_gains_eq (hij : i ≤ j) (hi : GainsNewline h body i) (hj : GainsNewline h body j)
    (heq : joined h body i = joined h body j) : i = j := by
  obtain ⟨htake, hdrop⟩ := take_drop_between body hij hj.2.1.le
  have hne : body.drop j ≠ [] := by
    have := hj.2.1
    rw [Ne, List.drop_eq_nil_iff]; omega
  rw [(joined_gains hi).1, (joined_gains hj).1] at heq
  set y := (body.take j).drop i with hy
  rw [hdrop, parsed_append _ hne, htake, List.append_assoc, List.append_cancel_left_eq,
    ← List.cons_append, ← List.singleton_append (l := parsed _), ← List.append_assoc,
    List.append_cancel_right_eq, cons_eq_concat] at heq
  -- the part between them is a run of newlines, but does not end with one
  by_cases hnil : y = []
  · have hlen := congrArg List.length hnil
    rw [hy, List.length_drop, List.length_take, List.length_nil] at hlen
    have := hj.2.1
    omega
  · refine absurd (Or.inr ?_) hj.2.2
    rw [htake, List.getLast?_append_of_ne_nil _ hnil, List.getLast?_eq_some_getLast hnil]
    exact congrArg some (heq _ (List.getLast_mem hnil))

/-- **When two first pauses join the body alike.** -/
theorem joined_eq_iff :
    joined h body i = joined h body j ↔ JoinAlike h body i j := by
  constructor
  · intro heq
    have hlen := congrArg List.length heq
    -- losing a line feed, gaining one and neither give different lengths
    rcases length_joined h body i with ⟨h1, h2⟩ | ⟨h1, h2⟩ | ⟨h1, h2, h3⟩ <;>
      rcases length_joined h body j with ⟨g1, g2⟩ | ⟨g1, g2⟩ | ⟨g1, g2, g3⟩
    · refine Or.inr (Or.inr ⟨h1, g1, ?_⟩)
      rcases le_total i j with hij | hij
      · rw [max_eq_right hij, min_eq_left hij]
        exact (joined_loses_eq hij h1 g1).1 heq
      · rw [max_eq_left hij, min_eq_right hij]
        exact (joined_loses_eq hij g1 h1).1 heq.symm
    · omega
    · rw [g3] at hlen; omega
    · omega
    · left
      rcases le_total i j with hij | hij
      · exact joined_gains_eq hij h1 g1 heq
      · exact (joined_gains_eq hij g1 h1 heq.symm).symm
    · rw [g3] at hlen; omega
    · rw [h3] at hlen; omega
    · rw [h3] at hlen; omega
    · exact Or.inr (Or.inl ⟨h1, h2, g1, g2⟩)
  · rintro (rfl | ⟨h1, h2, h3, h4⟩ | ⟨h1, h2, h3⟩)
    · rfl
    · rw [joined_clean h1 h2, joined_clean h3 h4]
    · rcases le_total i j with hij | hij
      · rw [max_eq_right hij, min_eq_left hij] at h3
        exact (joined_loses_eq hij h1 h2).2 h3
      · rw [max_eq_left hij, min_eq_right hij] at h3
        exact ((joined_loses_eq hij h2 h1).2 h3).symm

/-! ## Two deliveries of a message -/

/-- A message whose header announces its body's length. -/
structure Message where
  first : Text
  fields : List Text
  body : Text
  first_line : '\n' ∉ first
  field_lines : ∀ f ∈ fields, '\n' ∉ f
  no_blank : ['\r'] ∉ fields
  no_nul : nul ∉ terminated '\n' (first :: (fields ++ [['\r']])) ++ body
  length : ∃ value, (fieldsOf fields).find? "Content-Length".toList = some value ∧
    stoi value = .ok body.length

/-- The header with its blank line. -/
def Message.header (m : Message) : Text := terminated '\n' (m.first :: (m.fields ++ [['\r']]))

def Message.bytes (m : Message) : Text := m.header ++ m.body

/-- How many bytes of the body are there at the first pause. -/
def Message.firstBody (m : Message) (s : Socket) : ℕ := (bytesOf s.chunks).length - m.header.length

/-- A socket delivers the message, in chunks that leave room in the buffer, with no
pause but timeouts, and none before the header is there; and a receive reads all of it. -/
structure Delivered (m : Message) (s s' : Socket) (w : Web) : Prop where
  bytes : delivered s.events = m.bytes
  short : ∀ c ∈ chunksOf s.events, c.bytes.length < bufferSize
  timeouts : ∀ p, Event.pause p ∈ s.events → p = .timeout
  header : m.header.length ≤ (bytesOf s.chunks).length
  success : ∃ fuel, receive fuel {} s = some (.ok (true, w, s'))
  whole : delivered s'.events = []

theorem lines_header (m : Message) (text : Text) :
    HeaderLines (m.header ++ text) m.first m.fields (lines '\n' text) := by
  refine ⟨?_, m.no_blank⟩
  unfold Message.header
  rw [lines_terminated_append, List.cons_append, List.append_assoc, List.singleton_append]
  intro l hl
  rcases List.mem_cons.1 hl with rfl | hl
  · exact m.first_line
  · rcases List.mem_append.1 hl with hl | hl
    · exact m.field_lines l hl
    · rw [List.mem_singleton.1 hl]; decide

/-- The lines of a header are one request line, some fields and the rest. -/
theorem HeaderLines.unique {text first first' : Text} {fs fs' bs bs' : List Text}
    (h : HeaderLines text first fs bs) (h' : HeaderLines text first' fs' bs') :
    first = first' ∧ fs = fs' ∧ bs = bs' := by
  have heq := h.1.symm.trans h'.1
  rw [List.cons.injEq] at heq
  refine ⟨heq.1, ?_⟩
  have hfs : fs = fs' := by rw [← takeWhile_fields bs h.2, heq.2, takeWhile_fields bs' h'.2]
  subst hfs
  exact ⟨rfl, (List.cons.inj (List.append_cancel_left heq.2)).2⟩

/-- **What a delivery leaves**: header and request line as sent, the body joined where
the first pause fell. -/
theorem Delivered.result {m : Message} (h : Delivered m s s' w) :
    w.headerLine = m.first ∧ w.header = fieldsOf m.fields ∧
      w.body = joined m.header.length m.body (m.firstBody s) := by
  obtain ⟨fuel, hrec⟩ := h.success
  obtain ⟨-, -, first, fs, bs, hlines, size, used, hsize, hused, hfirst, hheader, hbody, hcase⟩ :=
    receive_true hrec
  have hnul : ∀ c ∈ chunksOf s.events, nul ∉ c.bytes := by
    intro c hc hmem
    have : nul ∈ delivered s.events := List.mem_flatMap.2 ⟨c, hc, hmem⟩
    rw [h.bytes] at this
    exact m.no_nul this
  have hchunks := chunksOf_next s
  have hnext : chunksOf s.next.events = chunksOf used ++ chunksOf s'.events := by
    rw [hused, chunksOf_append]
  have htext : textOf s.chunks = bytesOf s.chunks :=
    textOf_eq fun c hc => hnul c (by rw [hchunks]; exact List.mem_append_left _ hc)
  have htext' : textOf (chunksOf used) = delivered used :=
    textOf_eq fun c hc => hnul c (by
      rw [hchunks, hnext]
      exact List.mem_append_right _ (List.mem_append_left _ hc))
  have hrest : delivered s.next.events = delivered used := by
    rw [hused, delivered_append, h.whole, List.append_nil]
  -- the first phase brings the header and the first bytes of the body
  set i := m.firstBody s with hi
  have hlen : (bytesOf s.chunks).length = m.header.length + i := by
    have := h.header
    rw [hi]; unfold Message.firstBody; omega
  have hsplit : bytesOf s.chunks ++ delivered used = m.header ++ m.body := by
    rw [← hrest, ← delivered_next]; exact h.bytes
  have hphase : bytesOf s.chunks = m.header ++ m.body.take i := by
    have := congrArg (List.take (m.header.length + i)) hsplit
    rwa [← hlen, List.take_left, hlen, List.take_append, List.take_of_length_le (by omega),
      Nat.add_sub_cancel_left] at this
  have hlater : delivered used = m.body.drop i := by
    have := congrArg (List.drop (m.header.length + i)) hsplit
    rwa [← hlen, List.drop_left, hlen, List.drop_append, List.drop_of_length_le (by omega),
      List.nil_append, Nat.add_sub_cancel_left] at this
  rw [htext, hphase] at hlines
  obtain ⟨rfl, rfl, rfl⟩ := hlines.unique (lines_header m _)
  obtain ⟨value, hvalue, hn⟩ := m.length
  have hsize' : size = if (m.body.length : ℤ) > (bytesOf s.chunks).length then (m.body.length : ℤ) else -1 := by
    unfold Web.messageSize at hsize
    simp only [firstParse, hvalue, hn] at hsize
    exact (Except.ok.inj hsize).symm
  refine ⟨hfirst, hheader, ?_⟩
  rw [hbody, htext', hlater]
  unfold joined
  congr 1
  by_cases hlt : m.header.length + i < m.body.length
  · rw [if_pos (by omega)] at hsize'
    rw [if_pos hlt, if_pos (by omega)]
    rfl
  · rw [if_neg (by omega)] at hsize'
    rw [if_neg hlt, if_neg (by omega)]
    rfl

/-- **Two deliveries of one message** are received as the same message iff their first
pauses join its body alike. -/
theorem same_message {m : Message} {s₁ s₁' s₂ s₂' : Socket} {w₁ w₂ : Web} (h₁ : Delivered m s₁ s₁' w₁)
    (h₂ : Delivered m s₂ s₂' w₂) :
    (w₁.headerLine = w₂.headerLine ∧ w₁.header = w₂.header ∧ w₁.body = w₂.body) ↔
      JoinAlike m.header.length m.body (m.firstBody s₁) (m.firstBody s₂) := by
  obtain ⟨f₁, g₁, b₁⟩ := h₁.result
  obtain ⟨f₂, g₂, b₂⟩ := h₂.result
  rw [f₁, f₂, g₁, g₂, b₁, b₂, ← joined_eq_iff]
  simp

/-- A message with a newline behind the first byte of its body. -/
def demoMessage : Message where
  first := "POST /os HTTP/1.1\r".toList
  fields := ["Content-Length: 60\r".toList]
  body := "\x7b\n".toList ++ List.replicate 58 ' '
  first_line := by decide
  field_lines := by decide
  no_blank := by decide
  no_nul := by decide
  length := ⟨"60\r".toList, by decide, rfl⟩

/-- The message with a second of silence behind `i` bytes of its body. -/
def pausedSocket (i : Fin 60) : Socket :=
  { events :=
      [.chunk ⟨demoMessage.header ++ demoMessage.body.take i, by revert i; decide, by revert i; decide⟩,
        .pause .timeout,
        .chunk ⟨demoMessage.body.drop i, by revert i; decide, by revert i; decide⟩]
    idle := .timeout }

theorem pausedSocket_delivered {i : Fin 60} (hi : i = 1 ∨ i = 2 ∨ i = 3) :
    Delivered demoMessage (pausedSocket i) (received 2 (pausedSocket i)).2
      (received 2 (pausedSocket i)).1 where
  bytes := by rcases hi with rfl | rfl | rfl <;> decide
  short := by rcases hi with rfl | rfl | rfl <;> decide
  timeouts := by
    intro p
    cases p <;> rcases hi with rfl | rfl | rfl <;> decide
  header := by rcases hi with rfl | rfl | rfl <;> decide
  success := ⟨2, by rcases hi with rfl | rfl | rfl <;> rfl⟩
  whole := by rcases hi with rfl | rfl | rfl <;> rfl

/-- A pause right behind the newline loses it, a pause before it does not. -/
theorem newline_lost :
    Delivered demoMessage (pausedSocket 1) (received 2 (pausedSocket 1)).2
      (received 2 (pausedSocket 1)).1 ∧
    Delivered demoMessage (pausedSocket 2) (received 2 (pausedSocket 2)).2
      (received 2 (pausedSocket 2)).1 ∧
    ¬((received 2 (pausedSocket 1)).1.headerLine = (received 2 (pausedSocket 2)).1.headerLine ∧
      (received 2 (pausedSocket 1)).1.header = (received 2 (pausedSocket 2)).1.header ∧
      (received 2 (pausedSocket 1)).1.body = (received 2 (pausedSocket 2)).1.body) := by
  refine ⟨pausedSocket_delivered (by decide), pausedSocket_delivered (by decide), ?_⟩
  rintro ⟨-, -, h⟩
  revert h
  decide

theorem newline_kept :
    (received 2 (pausedSocket 1)).1.body = (received 2 (pausedSocket 3)).1.body :=
  ((same_message (pausedSocket_delivered (i := 1) (by decide))
    (pausedSocket_delivered (i := 3) (by decide))).2 (by decide)).2.2

end Noobs
