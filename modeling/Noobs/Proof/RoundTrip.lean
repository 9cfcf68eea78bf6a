import Noobs.Proof.Delivery
import Noobs.Spec.Client
import Noobs.Spec.Server

/-!
# What is sent and what is received

A message is its header line, its fields in the order of their keys, a blank line and the
body. Whoever receives it whole, in one phase, reads these parts back.

* `message_lines`: the lines of a message that was sent.
* `receive_whole`: **a message is received as it was sent**, but for the ends of its lines.
* `request_round_trip`: so the server gets the request of the client.
* `response_not_understood`: the client gets no response of the server, whose header line
  is one of `HTTP/1.0`.
-/

namespace Noobs

variable {w : Web} {s : Socket}

/-! ## Messages as lines -/

/-- A field as it is sent, without its line feed. -/
def fieldLine (e : Text × Text) : Text := cString e.1 ++ ": ".toList ++ cString e.2 ++ ['\r']

/-- The lines of a header that is sent, but for the blank one. -/
def Web.sentLines (w : Web) : List Text := w.header.entries.map fieldLine

theorem message_eq (w : Web) : w.message =
    terminated '\n' ((cString w.headerLine ++ ['\r']) :: (w.sentLines ++ [['\r']])) ++ cString w.body := by
  unfold Web.message Web.sentLines
  rw [terminated_cons, terminated_append]
  have hfields : ∀ es : List (Text × Text),
      terminated '\n' (es.map fieldLine) =
        es.flatMap fun e => cString e.1 ++ ": ".toList ++ cString e.2 ++ "\r\n".toList := by
    intro es
    unfold terminated
    rw [List.flatMap_map]
    refine List.flatMap_congr fun e _ => ?_
    simp [fieldLine]
  rw [hfields]
  simp

theorem fieldLine_ne_blank (e : Text × Text) : fieldLine e ≠ ['\r'] := by
  intro h
  have hlen := congrArg List.length h
  simp only [fieldLine, List.length_append, List.length_singleton] at hlen
  have hsep : ": ".toList.length = 2 := rfl
  omega

/-- **The lines of a message** that was sent. -/
theorem message_lines (hfirst : '\n' ∉ w.headerLine)
    (hfields : ∀ e ∈ w.header.entries, '\n' ∉ e.1 ∧ '\n' ∉ e.2) :
    HeaderLines w.message (cString w.headerLine ++ ['\r']) w.sentLines (lines '\n' (cString w.body)) := by
  constructor
  · rw [message_eq, lines_terminated_append, List.cons_append, List.append_assoc, List.singleton_append]
    intro l hl
    rcases List.mem_cons.1 hl with rfl | hl
    · simp [mt cString_subset hfirst]
    rcases List.mem_append.1 hl with hl | hl
    · obtain ⟨e, he, rfl⟩ := List.mem_map.1 hl
      obtain ⟨h1, h2⟩ := hfields e he
      simp [fieldLine, mt cString_subset h1, mt cString_subset h2]
    · rw [List.mem_singleton.1 hl]
      decide
  · intro h
    obtain ⟨e, -, he⟩ := List.mem_map.1 h
    exact fieldLine_ne_blank e he

/-- What is sent ends at the first NUL of each part. -/
theorem nul_notin_message (w : Web) : nul ∉ w.message := by
  have hsep : nul ∉ ": ".toList := by decide
  have hend : nul ∉ "\r\n".toList := by decide
  intro h
  unfold Web.message at h
  simp only [List.mem_append, List.mem_flatMap, nul_notin_cString, hend, hsep, or_false,
    and_false, exists_false] at h

/-! ## Messages that arrive whole -/

/-- The first reading phase delivers the text, in chunks that leave room in the buffer. -/
structure OnePhase (s : Socket) (text : Text) : Prop where
  bytes : bytesOf s.chunks = text
  pause : s.pause ≠ .error
  short : ∀ c ∈ s.chunks, c.bytes.length < bufferSize

theorem OnePhase.notOverlong {text : Text} (h : OnePhase s text) : ∀ c ∈ s.chunks, ¬c.Overlong := by
  intro c hc hover
  exact absurd hover.1 (h.short c hc).ne

theorem OnePhase.text {text : Text} (h : OnePhase s text) (hnul : nul ∉ text) : textOf s.chunks = text := by
  rw [textOf_eq, h.bytes]
  intro c hc hmem
  rw [← h.bytes] at hnul
  exact hnul (List.mem_flatMap.2 ⟨c, hc, hmem⟩)

/-- The field a line that was sent is read as. -/
theorem headerField_fieldLine {e : Text × Text} (hkey : ':' ∉ e.1) :
    headerField (fieldLine e) = some (cString e.1, cString e.2 ++ ['\r']) := by
  have hline : fieldLine e = cString e.1 ++ ':' :: ' ' :: (cString e.2 ++ ['\r']) := by
    simp [fieldLine]
  rw [hline, headerField_colon (mt cString_subset hkey)]
  rfl

/-- The fields of a header that was sent: as they were, but for a carriage return. -/
theorem fieldsOf_sent (hkeys : ∀ e ∈ w.header.entries, ':' ∉ e.1 ∧ nul ∉ e.1 ∧ nul ∉ e.2) :
    (fieldsOf w.sentLines).entries = w.header.entries.map fun e => (e.1, e.2 ++ ['\r']) := by
  have hfields : w.sentLines.filterMap headerField = w.header.entries.map fun e => (e.1, e.2 ++ ['\r']) := by
    unfold Web.sentLines
    rw [List.filterMap_map, ← List.filterMap_eq_map]
    refine List.filterMap_congr fun e he => ?_
    obtain ⟨h1, h2, h3⟩ := hkeys e he
    show headerField (fieldLine e) = some (e.1, e.2 ++ ['\r'])
    rw [headerField_fieldLine h1, cString_eq h2, cString_eq h3]
  unfold fieldsOf
  rw [hfields, SortedMap.entries_insertAll]
  · rfl
  · rw [SortedMap.entries_empty, List.nil_append, List.pairwise_map]
    exact w.header.sorted

/-- A field that can be sent as it is, and by which the receiver does not go. -/
structure PlainField (e : Text × Text) : Prop where
  key : ':' ∉ e.1 ∧ '\n' ∉ e.1 ∧ nul ∉ e.1
  value : '\n' ∉ e.2 ∧ nul ∉ e.2
  not_expect : e.1 ≠ "Expect".toList
  not_length : e.1 ≠ "Content-Length".toList

theorem find?_sent {k : Text} (hfields : ∀ e ∈ w.header.entries, PlainField e) (hk : ∀ e, PlainField e → e.1 ≠ k) :
    (fieldsOf w.sentLines).find? k = none := by
  have hentries := fieldsOf_sent fun e he => ⟨(hfields e he).key.1, (hfields e he).key.2.2, (hfields e he).value.2⟩
  rw [SortedMap.find?_eq_none, SortedMap.contains_eq_false_iff]
  intro v hv
  rw [hentries] at hv
  obtain ⟨e, he, heq⟩ := List.mem_map.1 hv
  exact hk e (hfields e he) (congrArg Prod.fst heq)

/-- **A message that arrives whole is received as it was sent**, with a carriage return
behind the header line and each value, and the last line of the body ended. -/
theorem receive_whole (h : OnePhase s w.message) (hfirst : '\n' ∉ w.headerLine ∧ nul ∉ w.headerLine)
    (hfields : ∀ e ∈ w.header.entries, PlainField e) (hbody : nul ∉ w.body) :
    ∃ w', (∀ fuel, receive fuel {} s = some (.ok (true, w', s.next))) ∧
      w'.headerLine = w.headerLine ++ ['\r'] ∧
      w'.header.entries = w.header.entries.map (fun e => (e.1, e.2 ++ ['\r'])) ∧
      w'.body = if Ended '\n' w.body then w.body else w.body ++ ['\n'] := by
  have hlines := message_lines hfirst.1 fun e he => ⟨(hfields e he).key.2.1, (hfields e he).value.1⟩
  rw [← h.text (nul_notin_message w), cString_eq hfirst.2, cString_eq hbody] at hlines
  set w₁ := firstParse s (w.headerLine ++ ['\r']) w.sentLines (lines '\n' w.body) with hw₁
  have hexpects : w₁.expectsContinue = false := by
    unfold Web.expectsContinue
    rw [hw₁, firstParse, find?_sent hfields fun e he => he.not_expect]
    rfl
  have hsize : w₁.messageSize = .ok (-1) := by
    unfold Web.messageSize
    rw [hw₁, firstParse, find?_sent hfields fun e he => he.not_length]
  refine ⟨w₁, fun fuel => ?_, rfl, ?_, terminated_lines w.body⟩
  · rw [receive_eq fuel h.notOverlong h.pause hlines]
    rcases receiveBody_eq s.next hsize with ⟨-, -, heq⟩ | ⟨hmore, -⟩
    · exact heq fuel
    · rw [hexpects] at hmore
      simp at hmore
  · exact fieldsOf_sent fun e he => ⟨(hfields e he).key.1, (hfields e he).key.2.2, (hfields e he).value.2⟩

/-! ## Requests -/

theorem split_line {a b c : Text} (ha : ' ' ∉ a) (hb : ' ' ∉ b) (hc : ' ' ∉ c) :
    split (a ++ ' ' :: b ++ ' ' :: c) ' ' = [a, b, c] := by
  unfold split
  rw [List.append_assoc, List.cons_append, List.splitOn_append_cons_self_of_not_mem ha,
    List.splitOn_append_cons_self_of_not_mem hb, List.splitOn_eq_singleton hc]

/-- A word of a request line. -/
def Word (t : Text) : Prop := ' ' ∉ t ∧ '\n' ∉ t ∧ nul ∉ t

instance (t : Text) : Decidable (Word t) := by unfold Word; infer_instance

/-- **The server gets the request of the client.** -/
theorem request_round_trip {r : ClientRequest} (hmethod : Word r.method) (hpath : Word r.path)
    (hfields : ∀ e ∈ r.prepared.header.entries, PlainField e) (hbody : nul ∉ r.body)
    (h : OnePhase s r.prepared.message) :
    ∃ request, (∀ fuel, receiveRequest fuel s = some (.ok (true, request, s.next))) ∧
      request.method = r.method ∧ request.path = r.path ∧
      request.header.entries = r.prepared.header.entries.map (fun e => (e.1, e.2 ++ ['\r'])) ∧
      request.body = if Ended '\n' r.body then r.body else r.body ++ ['\n'] := by
  have hversion : '\n' ∉ " HTTP/1.1".toList ∧ nul ∉ " HTTP/1.1".toList := by decide
  have hline : '\n' ∉ r.prepared.headerLine ∧ nul ∉ r.prepared.headerLine := by
    have hsp : '\n' ≠ ' ' ∧ nul ≠ ' ' := by decide
    unfold ClientRequest.prepared
    simp only [List.mem_append, List.mem_cons, not_or]
    exact ⟨⟨⟨hmethod.2.1, hsp.1, hpath.2.1⟩, hversion.1⟩, ⟨⟨hmethod.2.2, hsp.2, hpath.2.2⟩, hversion.2⟩⟩
  obtain ⟨w, hreceive, hheader, hentries, hbody'⟩ := receive_whole h hline hfields hbody
  have hsplit : split w.headerLine ' ' = [r.method, r.path, "HTTP/1.1\r".toList] := by
    have hform : w.headerLine = r.method ++ ' ' :: r.path ++ ' ' :: "HTTP/1.1\r".toList := by
      rw [hheader]
      unfold ClientRequest.prepared
      simp
    rw [hform]
    exact split_line hmethod.1 hpath.1 (by decide)
  refine ⟨{ toWeb := w, method := r.method, path := r.path }, fun fuel => ?_, rfl, rfl, hentries, hbody'⟩
  unfold receiveRequest
  rw [hreceive]
  simp only [hsplit]
  rw [if_neg (not_not.2 rfl)]

/-- A request as the client sends it for an image's partitions. -/
def demoRequest : ClientRequest :=
  { method := "GET".toList, path := "/partitions.json".toList, host := "localhost".toList
    body := "none".toList }

def demoRequestSocket : Socket :=
  { events := [.chunk ⟨demoRequest.prepared.message, by decide, by decide⟩], idle := .timeout }

theorem demo_request : ∃ request,
    (∀ fuel, receiveRequest fuel demoRequestSocket = some (.ok (true, request, demoRequestSocket.next))) ∧
      request.method = demoRequest.method ∧ request.path = demoRequest.path ∧
      request.header.entries =
        demoRequest.prepared.header.entries.map (fun e => (e.1, e.2 ++ ['\r'])) ∧
      request.body = if Ended '\n' demoRequest.body then demoRequest.body else demoRequest.body ++ ['\n'] := by
  refine request_round_trip (by decide) (by decide) ?_ (by decide) ⟨by decide, by decide, by decide⟩
  have hfields : ∀ e ∈ demoRequest.prepared.header.entries,
      (':' ∉ e.1 ∧ '\n' ∉ e.1 ∧ nul ∉ e.1) ∧ ('\n' ∉ e.2 ∧ nul ∉ e.2) ∧
        e.1 ≠ "Expect".toList ∧ e.1 ≠ "Content-Length".toList := by decide
  intro e he
  obtain ⟨hkey, hvalue, hexpect, hlength⟩ := hfields e he
  exact ⟨hkey, hvalue, hexpect, hlength⟩

/-! ## Responses -/

/-- The client gets the response: its code, its phrase, and its body up to a newline. -/
def Understood (r : Response) (s : Socket) : Prop :=
  ∃ fuel response s', receiveResponse fuel s = some (.ok (true, response, s')) ∧
    response.code = r.code ∧ response.phrase = r.phrase ∧
    (response.body = r.body ∨ response.body = r.body ++ ['\n'])

/-- What begins with a word and a blank is split there. -/
theorem split_prefix {a line : Text} (ha : ' ' ∉ a) (h : a ++ [' '] <+: line) :
    ∃ words, split line ' ' = a :: words := by
  obtain ⟨rest, rfl⟩ := h
  unfold split
  rw [List.append_assoc, List.singleton_append, List.splitOn_append_cons_self_of_not_mem ha]
  exact ⟨_, rfl⟩

/-- A message begins with its header line. -/
theorem headerLine_begins (w : Web) : cString w.headerLine <+: w.message :=
  (((List.prefix_append _ _).trans (List.prefix_append _ _)).trans (List.prefix_append _ _)).trans
    (List.prefix_append _ _)

/-- **The client understands no response of the server**: it expects another version. -/
theorem response_not_understood {r : Response} {date : Text} (h : OnePhase s (r.prepared date).message) :
    ¬Understood r s := by
  rintro ⟨fuel, response, s', hreceived, -⟩
  unfold receiveResponse at hreceived
  rcases hr : receive fuel {} s with _ | f | ⟨_ | _, w, s₁⟩
  · rw [hr] at hreceived; cases hreceived
  · rw [hr] at hreceived; cases hreceived
  · rw [hr] at hreceived; cases hreceived
  obtain ⟨-, -, first, fs, bs, hlines, -, -, -, -, rfl, -⟩ := receive_true hr
  rw [h.text (nul_notin_message _)] at hlines
  -- the first line begins with the version of the server
  have hversion : ∀ c ∈ "HTTP/1.0 ".toList, decide (c ≠ nul) = true := List.all_eq_true.1 (by decide)
  have hline : cString (r.prepared date).headerLine =
      "HTTP/1.0 ".toList ++ cString (number r.code ++ ' ' :: r.phrase) := by
    show cString ("HTTP/1.0 ".toList ++ number r.code ++ ' ' :: r.phrase) = _
    rw [List.append_assoc]
    exact List.takeWhile_append_of_pos hversion
  obtain ⟨rest, hmessage⟩ : "HTTP/1.0 ".toList <+: (r.prepared date).message := by
    refine List.IsPrefix.trans ?_ (headerLine_begins _)
    rw [hline]
    exact List.prefix_append _ _
  have hfirst : "HTTP/1.0".toList ++ [' '] <+: w.headerLine := by
    have hl := hlines.1
    rw [← hmessage] at hl
    exact prefix_of_lines (by decide) hl
  obtain ⟨words, hsplit⟩ := split_prefix (by decide) hfirst
  rw [hr] at hreceived
  simp only [hsplit] at hreceived
  split at hreceived
  · rename_i version code phrase heq
    obtain ⟨rfl, -⟩ := List.cons.inj heq
    rw [if_pos (by decide)] at hreceived
    cases hreceived
  · cases hreceived

def demoResponse : Response := { body := "Successfully installed OS\n".toList }

def demoResponseSocket : Socket :=
  { events := [.chunk ⟨(demoResponse.prepared "Mon".toList).message, by decide, by decide⟩]
    idle := .timeout }

/-- The response to a successful installation. -/
theorem demo_not_understood : ¬Understood demoResponse demoResponseSocket :=
  have h : OnePhase demoResponseSocket (demoResponse.prepared "Mon".toList).message :=
    ⟨by decide, by decide, by decide⟩
  response_not_understood h

/-- Its header line has three words, and yet the client refuses it. -/
theorem ok_refused : OnePhase demoResponseSocket (demoResponse.prepared "Mon".toList).message ∧
    ¬Understood demoResponse demoResponseSocket := by
  refine ⟨⟨by decide, by decide, by decide⟩, ?_⟩
  rintro ⟨fuel, response, s', hreceived, -⟩
  have hrefused : ∃ response' s₁, receiveResponse fuel demoResponseSocket = some (.ok (false, response', s₁)) :=
    ⟨_, _, rfl⟩
  obtain ⟨response', s₁, hrefused⟩ := hrefused
  rw [hrefused] at hreceived
  cases hreceived

end Noobs
