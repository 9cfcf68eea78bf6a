import Noobs.Proof.Delivery
import Noobs.Proof.Number
import Noobs.Proof.Robust
import Noobs.Spec.Client

/-!
# What a download is worth

`WebClient::get` gives the body of every response whose status line has three words, the
first `HTTP/1.1` and the second a number. The number is not looked at.

* `gets_iff`: which answers give a text, and which text.
* `gets_success_iff`: when the body of a successful response is what is returned.
* `successful_only_iff`: **only successful downloads are used** just where no other
  answer has a status line of three words, and a successful one has no more.
-/

namespace Noobs

/-! ## Answers -/

/-- What a server answers: the chunks of one reading phase, and the pause behind them. -/
structure Answer where
  chunks : List Chunk
  idle : Pause

def Answer.socket (a : Answer) : Socket := { events := a.chunks.map .chunk, idle := a.idle }

variable {a : Answer} {s s' : Socket} {w : Web} {first : Text} {fs bs : List Text}

/-- All a socket has to deliver is an answer. -/
def Answer.On (a : Answer) (s : Socket) : Prop := s.events = a.chunks.map .chunk ∧ s.idle = a.idle

theorem Answer.On.phase (h : a.On s) : s.chunks = a.chunks ∧ s.pause = a.idle ∧ s.next.events = [] := by
  have hphase : ∀ cs : List Chunk, Noobs.phase a.idle (cs.map .chunk) = (cs, a.idle, []) := by
    intro cs
    induction cs with
    | nil => rfl
    | cons c cs ih =>
      rw [List.map_cons, Noobs.phase, ih]
  unfold Socket.chunks Socket.pause Socket.next
  rw [h.1, h.2, hphase]
  exact ⟨rfl, rfl, rfl⟩

/-- The `Content-Length` of some header lines is not there, or a number that is not too large. -/
def LengthRead (fs : List Text) (size : ℕ) : Prop :=
  ∀ value, (fieldsOf fs).find? "Content-Length".toList = some value → ∃ n, stoi value = .ok n ∧ n ≤ size

/-- What is received as a message with the header line `first` and the body lines `bs`. -/
structure Received (a : Answer) (first : Text) (bs : List Text) : Prop where
  notOverlong : ∀ c ∈ a.chunks, ¬c.Overlong
  idle : a.idle ≠ .error
  header : ∃ fs, HeaderLines (textOf a.chunks) first fs bs ∧ LengthRead fs (bytesOf a.chunks).length

/-- A size that is awaited, but not more than has been read, is none. -/
theorem lengthRead_of_size {size : ℤ} (h : (firstParse s first fs bs).messageSize = .ok size)
    (hle : size ≤ (bytesOf s.chunks).length) : size = -1 ∧ LengthRead fs (bytesOf s.chunks).length := by
  unfold Web.messageSize at h
  simp only [firstParse] at h
  unfold LengthRead
  cases hfind : (fieldsOf fs).find? "Content-Length".toList with
  | none =>
    rw [hfind] at h
    exact ⟨(Except.ok.inj h).symm, fun value hvalue => by cases hvalue⟩
  | some value =>
    rw [hfind] at h
    cases hstoi : stoi value with
    | error f =>
      simp only [hstoi] at h
      cases h
    | ok n =>
      simp only [hstoi] at h
      have hif : (if n > (bytesOf s.chunks).length then n else -1) = size := Except.ok.inj h
      split_ifs at hif with hgt
      · omega
      · refine ⟨hif.symm, fun value' hvalue' => ?_⟩
        rw [← Option.some.inj hvalue', hstoi]
        exact ⟨n, rfl, not_lt.1 hgt⟩

theorem size_of_lengthRead (h : LengthRead fs (bytesOf s.chunks).length) :
    (firstParse s first fs bs).messageSize = .ok (-1) := by
  unfold Web.messageSize
  simp only [firstParse]
  cases hfind : (fieldsOf fs).find? "Content-Length".toList with
  | none => rfl
  | some value =>
    obtain ⟨n, hstoi, hn⟩ := h value hfind
    simp only [hstoi]
    show Except.ok (if n > (bytesOf s.chunks).length then n else -1) = _
    rw [if_neg (not_lt.2 hn)]

/-- **An answer is received** just if its header is complete and names no length that is
not reached. -/
theorem receive_answer (h : a.On s) (body : Text) :
    (∃ fuel w s', receive fuel {} s = some (.ok (true, w, s')) ∧ w.headerLine = first ∧ w.body = body) ↔
      ∃ bs, Received a first bs ∧ body = terminated '\n' bs := by
  obtain ⟨hchunks, hpause, hnext⟩ := h.phase
  constructor
  · rintro ⟨fuel, w, s', hr, rfl, rfl⟩
    obtain ⟨hover, hidle, first, fs, bs, hlines, size, used, hsize, hused, rfl, -, hbody, hcase⟩ := receive_true hr
    rw [hnext] at hused
    obtain ⟨rfl, -⟩ := List.append_eq_nil_iff.1 hused.symm
    -- nothing comes behind the first phase, so nothing can have been awaited
    have hle : size ≤ (bytesOf s.chunks).length := by
      rcases hcase with ⟨-, rfl, -⟩ | ⟨-, -, hle, -⟩
      · omega
      · by_cases hsome : size = -1
        · omega
        · have := hle hsome
          simpa [delivered, chunksOf, bytesOf] using this
    obtain ⟨rfl, hlength⟩ := lengthRead_of_size hsize hle
    rw [hchunks] at hover hlines hlength
    rw [hpause] at hidle
    refine ⟨bs, ⟨hover, hidle, fs, hlines, hlength⟩, ?_⟩
    rw [hbody]
    simp [chunksOf, textOf]
  · rintro ⟨bs, ⟨hover, hidle, fs, hlines, hlength⟩, rfl⟩
    rw [← hchunks] at hover hlines hlength
    rw [← hpause] at hidle
    have hsize : (firstParse s first fs bs).messageSize = .ok (-1) := size_of_lengthRead hlength
    rcases receiveBody_eq s.next hsize with ⟨-, -, heq⟩ | ⟨-, s₁, hevents, hidle₁, heq⟩
    · exact ⟨0, _, _, (receive_eq 0 hover hidle hlines).trans (heq 0), rfl, rfl⟩
    · -- told to go on, the client reads one more phase, which is empty
      obtain ⟨hchunks₁, hpause₁, -⟩ := silent_phase (hevents.trans hnext)
      have hgo : 0 ≤ s₁.pause.thisRoundRead := by
        have hsame : s₁.idle = s.pause := by rw [hidle₁, hpause, ← h.2]; rfl
        rw [hpause₁, hsame]
        exact thisRoundRead_nonneg.2 hidle
      have hread : ∀ w : Web, continueReading (-1) 1 w s₁ [] =
          some (.ok (true, [], { w with bytesRead := w.bytesRead + s₁.pause.thisRoundRead }, s₁.next)) := by
        intro w
        rw [continueReading, readReceive_ok _ _ (by rw [hchunks₁]; simp), decide_eq_true hgo, hchunks₁]
        simp [bytesOf, textOf]
      have hreceive := (receive_eq 1 hover hidle hlines).trans (heq 1)
      rw [hread] at hreceive
      refine ⟨1, _, _, hreceive, rfl, ?_⟩
      simp [firstParse]

/-! ## Downloads -/

/-- The line has three words, the first `HTTP/1.1` and the second a number. -/
def ThreeWords (line : Text) : Prop :=
  ∃ code phrase n, split line ' ' = ["HTTP/1.1".toList, code, phrase] ∧ stoi code = .ok n

/-- A response is received from a message with such a status line. -/
theorem receiveResponse_true (body : Text) :
    (∃ fuel response s', receiveResponse fuel s = some (.ok (true, response, s')) ∧ response.body = body) ↔
      ∃ first, ThreeWords first ∧
        ∃ fuel w s', receive fuel {} s = some (.ok (true, w, s')) ∧ w.headerLine = first ∧ w.body = body := by
  constructor
  · rintro ⟨fuel, response, s', h, rfl⟩
    unfold receiveResponse at h
    rcases hr : receive fuel {} s with _ | f | ⟨_ | _, w, s₁⟩
    · rw [hr] at h; cases h
    · rw [hr] at h; cases h
    · rw [hr] at h; cases h
    rw [hr] at h
    simp only at h
    split at h
    -- three words, the first of them the version, and a number
    · rename_i version code phrase hsplit
      by_cases hversion : version = "HTTP/1.1".toList
      swap
      · rw [if_pos hversion] at h
        cases h
      rw [if_neg (not_not.2 hversion)] at h
      subst hversion
      cases hstoi : stoi code with
      | error f =>
        rw [hstoi] at h
        cases h
      | ok n =>
        rw [hstoi] at h
        obtain ⟨rfl, rfl⟩ := Prod.mk.inj (Prod.mk.inj (Except.ok.inj (Option.some.inj h))).2
        exact ⟨_, ⟨code, phrase, n, hsplit, hstoi⟩, fuel, w, s₁, hr, rfl, rfl⟩
    · cases h
  · rintro ⟨first, ⟨code, phrase, n, hsplit, hstoi⟩, fuel, w, s', hr, rfl, rfl⟩
    refine ⟨fuel, { toWeb := w, code := n, phrase := phrase.dropLast }, s', ?_, rfl⟩
    unfold receiveResponse
    rw [hr]
    simp only [hsplit, hstoi]
    rw [if_neg (not_not.2 rfl)]

variable {openSocket : Text → ℕ → Option Socket} {url r : Text}

/-- A URL is cut at its first slash, and the rest is merged again. -/
theorem split_url {host : Text} (hhost : '/' ∉ host) (path : Text) :
    ∃ p more, split (host ++ '/' :: path) '/' = host :: p :: more ∧ ['/'].intercalate (p :: more) = path := by
  have hmerged : ['/'].intercalate (path.splitOn '/') = path := List.intercalate_splitOn '/'
  unfold split
  rw [List.splitOn_append_cons_self_of_not_mem hhost]
  cases hsplit : path.splitOn '/' with
  | nil => exact absurd hsplit (List.splitOn_ne_nil _ _)
  | cons p more =>
    rw [hsplit] at hmerged
    exact ⟨p, more, rfl, hmerged⟩

theorem get_eq {host path : Text} (hurl : WebClient.withoutScheme url = some (host ++ '/' :: path))
    (hhost : '/' ∉ host) (fuel : ℕ) : WebClient.get openSocket fuel url =
      WebClient.getFrom openSocket fuel host ('/' :: path) 80 := by
  obtain ⟨p, more, hsplit, hmerged⟩ := split_url hhost path
  unfold WebClient.get
  rw [hurl]
  simp only [hsplit, hmerged]

/-- The URL leads to a server that answers this. -/
def Reaches (openSocket : Text → ℕ → Option Socket) (url : Text) (a : Answer) : Prop :=
  ∃ host path s, WebClient.withoutScheme url = some (host ++ '/' :: path) ∧ '/' ∉ host ∧
    openSocket host 80 = some s ∧ a.On s

/-- `WebClient::get` returns the text. -/
def Gets (openSocket : Text → ℕ → Option Socket) (url r : Text) : Prop :=
  ∃ fuel, WebClient.get openSocket fuel url = some (.ok r)

/-- **What is downloaded** is the body of an answer with such a status line. -/
theorem gets_iff (h : Reaches openSocket url a) (hr : r ≠ []) : Gets openSocket url r ↔
    ∃ first bs, Received a first bs ∧ ThreeWords first ∧ r = terminated '\n' bs := by
  obtain ⟨host, path, s, hurl, hhost, hopen, hon⟩ := h
  have hget : ∀ fuel, WebClient.get openSocket fuel url =
      WebClient.getFrom openSocket fuel host ('/' :: path) 80 := get_eq hurl hhost
  have hon' : a.On (({ method := "GET".toList, path := '/' :: path, host := host } : ClientRequest).sendRequest s) :=
    hon
  have hresponse : Gets openSocket url r ↔ ∃ fuel response s',
      receiveResponse fuel (({ method := "GET".toList, path := '/' :: path, host := host } :
        ClientRequest).sendRequest s) = some (.ok (true, response, s')) ∧ response.body = r := by
    refine exists_congr fun fuel => ?_
    rw [hget]
    unfold WebClient.getFrom
    rw [hopen]
    simp only
    rcases receiveResponse fuel _ with _ | f | ⟨_ | _, response, s₁⟩
    · simp
    · simp
    · simp [Ne.symm hr]
    · simp
  rw [hresponse, receiveResponse_true]
  constructor
  · rintro ⟨first, hwords, hreceive⟩
    obtain ⟨bs, hreceived, rfl⟩ := (receive_answer hon' r).1 hreceive
    exact ⟨first, bs, hreceived, hwords, rfl⟩
  · rintro ⟨first, bs, hreceived, hwords, rfl⟩
    exact ⟨first, hwords, (receive_answer hon' _).2 ⟨bs, hreceived, rfl⟩⟩

/-! ## Successful responses -/

/-- The status line of a response of `HTTP/1.1` with a code from 200 to 299. -/
def Successful (line : Text) : Prop :=
  ∃ d e phrase, d.isDigit = true ∧ e.isDigit = true ∧ line = "HTTP/1.1 2".toList ++ d :: e :: ' ' :: phrase

/-- A well-formed response with such a status line. A field is kept as its key and what
stands behind the colon; a `Content-Length` is that of the body. -/
structure SuccessResponse where
  d : Char
  e : Char
  phrase : Text
  fields : List (Text × Text)
  body : Text
  digits : d.isDigit = true ∧ e.isDigit = true
  phrase_chars : '\r' ∉ phrase ∧ '\n' ∉ phrase ∧ nul ∉ phrase
  key_chars : ∀ f ∈ fields, ':' ∉ f.1 ∧ '\n' ∉ f.1 ∧ nul ∉ f.1
  value_chars : ∀ f ∈ fields, '\r' ∉ f.2 ∧ '\n' ∉ f.2 ∧ nul ∉ f.2
  length : ∀ f ∈ fields, f.1 = "Content-Length".toList →
    f.2.dropWhile (fun c => c = ' ' ∨ c = '\t') = number body.length

namespace SuccessResponse

def statusLine (r : SuccessResponse) : Text := "HTTP/1.1 2".toList ++ r.d :: r.e :: ' ' :: r.phrase ++ ['\r']

def fieldLines (r : SuccessResponse) : List Text := r.fields.map fun f => f.1 ++ ':' :: f.2 ++ ['\r']

def bytes (r : SuccessResponse) : Text :=
  terminated '\n' (r.statusLine :: (r.fieldLines ++ [['\r']])) ++ r.body

/-- The client can read the response: its phrase is one word, its body a text of whole
lines, and it comes in chunks that leave room, before any error; a length it names is an
`int`. -/
structure Readable (r : SuccessResponse) (a : Answer) : Prop where
  phrase : ' ' ∉ r.phrase
  body : nul ∉ r.body ∧ Ended '\n' r.body
  notOverlong : ∀ c ∈ a.chunks, ¬c.Overlong
  idle : a.idle ≠ .error
  length : (∃ f ∈ r.fields, f.1 = "Content-Length".toList) → r.body.length < 2 ^ 31

end SuccessResponse

variable {R : SuccessResponse}

theorem digit_ne {c : Char} (h : c.isDigit = true) : c ≠ '\n' ∧ c ≠ nul ∧ c ≠ ' ' := by
  refine ⟨?_, ?_, ?_⟩ <;> rintro rfl <;> exact absurd h (by decide)

theorem statusLine_chars (R : SuccessResponse) : '\n' ∉ R.statusLine ∧ nul ∉ R.statusLine := by
  obtain ⟨hd, he⟩ := R.digits
  have hnl : '\n' ∉ "HTTP/1.1 2".toList ∧ '\n' ≠ ' ' ∧ '\n' ≠ '\r' := by decide
  have hnul : nul ∉ "HTTP/1.1 2".toList ∧ nul ≠ ' ' ∧ nul ≠ '\r' := by decide
  unfold SuccessResponse.statusLine
  simp only [List.mem_append, List.mem_cons, List.not_mem_nil, or_false, not_or]
  exact ⟨⟨⟨hnl.1, (digit_ne hd).1.symm, (digit_ne he).1.symm, hnl.2.1, R.phrase_chars.2.1⟩, hnl.2.2⟩,
    ⟨hnul.1, (digit_ne hd).2.1.symm, (digit_ne he).2.1.symm, hnul.2.1, R.phrase_chars.2.2⟩, hnul.2.2⟩

theorem nul_notin_bytes (h : nul ∉ R.body) : nul ∉ R.bytes := by
  have hchars : nul ≠ '\n' ∧ nul ≠ '\r' ∧ nul ≠ ':' := by decide
  intro hmem
  unfold SuccessResponse.bytes at hmem
  rcases List.mem_append.1 hmem with hmem | hmem
  swap
  · exact h hmem
  obtain ⟨l, hl, hmem⟩ := List.mem_flatMap.1 hmem
  rcases List.mem_append.1 hmem with hmem | hmem
  swap
  · exact hchars.1 (List.mem_singleton.1 hmem)
  rcases List.mem_cons.1 hl with rfl | hl
  · exact (statusLine_chars R).2 hmem
  rcases List.mem_append.1 hl with hl | hl
  · obtain ⟨f, hf, rfl⟩ := List.mem_map.1 hl
    simp [(R.key_chars f hf).2.2, (R.value_chars f hf).2.2, hchars.2.1, hchars.2.2] at hmem
  · rw [List.mem_singleton.1 hl] at hmem
    exact hchars.2.1 (List.mem_singleton.1 hmem)

/-- **The lines of a successful response.** -/
theorem success_lines (R : SuccessResponse) :
    HeaderLines R.bytes R.statusLine R.fieldLines (lines '\n' R.body) := by
  constructor
  · unfold SuccessResponse.bytes
    rw [lines_terminated_append, List.cons_append, List.append_assoc, List.singleton_append]
    intro l hl
    rcases List.mem_cons.1 hl with rfl | hl
    · exact (statusLine_chars R).1
    rcases List.mem_append.1 hl with hl | hl
    · obtain ⟨f, hf, rfl⟩ := List.mem_map.1 hl
      simp [(R.key_chars f hf).2.1, (R.value_chars f hf).2.1]
    · rw [List.mem_singleton.1 hl]
      decide
  · intro h
    obtain ⟨f, -, hf⟩ := List.mem_map.1 h
    have hlen := congrArg List.length hf
    simp only [List.length_append, List.length_cons, List.length_nil] at hlen
    omega

/-! ### Numbers in a header -/

/-- `std::stoi` skips blanks and reads digits up to what is none. -/
theorem stoi_digits {blanks digits rest : Text} (hblanks : ∀ c ∈ blanks, isSpace c = true) (hne : digits ≠ [])
    (hdigits : ∀ c ∈ digits, c.isDigit = true) (hrest : ∀ c, rest.head? = some c → c.isDigit = false) :
    stoi (blanks ++ (digits ++ rest)) = if Nat.ofDigitChars 10 digits 0 < 2 ^ 31 then
      .ok (Nat.ofDigitChars 10 digits 0) else .error .outOfRange := by
  obtain ⟨c, cs, rfl⟩ := List.exists_cons_of_ne_nil hne
  have hc := hdigits c List.mem_cons_self
  have hdrop : (blanks ++ (c :: cs ++ rest)).dropWhile isSpace = c :: cs ++ rest := by
    rw [List.dropWhile_append_of_pos hblanks, List.cons_append,
      List.dropWhile_cons_of_neg (by rw [isSpace_of_isDigit hc]; exact Bool.false_ne_true)]
  have htake : (c :: cs ++ rest).takeWhile Char.isDigit = c :: cs := by
    rw [List.takeWhile_append_of_pos hdigits]
    have hnone : rest.takeWhile Char.isDigit = [] := by
      cases rest with
      | nil => rfl
      | cons r rs => exact List.takeWhile_cons_of_neg (by rw [hrest r rfl]; exact Bool.false_ne_true)
    rw [hnone, List.append_nil]
  have hsign : c ≠ '-' ∧ c ≠ '+' := by
    constructor <;> rintro rfl <;> exact absurd hc (by decide)
  have hvalue : (-2 ^ 31 ≤ (Nat.ofDigitChars 10 (c :: cs) 0 : ℤ) ∧ (Nat.ofDigitChars 10 (c :: cs) 0 : ℤ) < 2 ^ 31) ↔
      Nat.ofDigitChars 10 (c :: cs) 0 < 2 ^ 31 := by omega
  have hhead : (c :: cs ++ rest).head? = some c := rfl
  unfold stoi
  simp only [hdrop, hhead, Option.some.injEq, hsign.1, hsign.2, or_self, if_false, htake,
    List.cons_ne_nil, hvalue]

theorem stoi_length {blanks : Text} (hblanks : ∀ c ∈ blanks, isSpace c = true) (n : ℕ) :
    stoi (blanks ++ (number n ++ ['\r'])) = if n < 2 ^ 31 then .ok n else .error .outOfRange := by
  have hnumber : number n = Nat.toDigits 10 n := by
    rw [number_eq, if_pos (Int.natCast_nonneg n), Int.toNat_natCast]
  have hcr : ∀ c, ['\r'].head? = some c → c.isDigit = false := by
    rintro c ⟨⟩
    decide
  rw [hnumber, stoi_digits hblanks Nat.toDigits_ne_nil (fun c hc => isDigit_toDigits hc) hcr,
    Nat.ofDigitChars_ten_toDigits]

/-- The code of a successful response is a number. -/
theorem stoi_code (R : SuccessResponse) : ∃ n, stoi ['2', R.d, R.e] = .ok n := by
  obtain ⟨hd, he⟩ := R.digits
  have hdigits : ∀ c ∈ ['2', R.d, R.e], c.isDigit = true := by
    intro c hc
    simp only [List.mem_cons, List.not_mem_nil, or_false] at hc
    rcases hc with rfl | rfl | rfl
    · decide
    · exact hd
    · exact he
  have hsmall : Nat.ofDigitChars 10 ['2', R.d, R.e] 0 < 2 ^ 31 := by
    have h1 := (isDigit_iff R.d).1 hd
    have h2 := (isDigit_iff R.e).1 he
    have h48 : '0'.toNat = 48 ∧ '2'.toNat = 50 := by decide
    simp only [Nat.ofDigitChars_cons, Nat.ofDigitChars_nil, h48.1, h48.2]
    omega
  have h := @stoi_digits [] ['2', R.d, R.e] [] (by simp) (by simp) hdigits (by simp)
  rw [if_pos hsmall] at h
  exact ⟨_, by simpa using h⟩

/-! ### Reading a successful response -/

/-- A value as it is received. -/
def receivedValue (value : Text) : Text :=
  if (value ++ ['\r']).head? = some ' ' then (value ++ ['\r']).tail else value ++ ['\r']

theorem fields_success (R : SuccessResponse) : R.fieldLines.filterMap headerField =
    R.fields.map fun f => (f.1, receivedValue f.2) := by
  unfold SuccessResponse.fieldLines
  rw [List.filterMap_map, ← List.filterMap_eq_map]
  refine List.filterMap_congr fun f hf => ?_
  show headerField (f.1 ++ ':' :: f.2 ++ ['\r']) = some (f.1, receivedValue f.2)
  rw [List.append_assoc, List.cons_append, headerField_colon (R.key_chars f hf).1]
  rfl

/-- A length is received as blanks, its digits and a carriage return. -/
theorem receivedValue_length {value : Text} {n : ℕ}
    (h : value.dropWhile (fun c => c = ' ' ∨ c = '\t') = number n) :
    ∃ blanks, (∀ c ∈ blanks, isSpace c = true) ∧ receivedValue value = blanks ++ (number n ++ ['\r']) := by
  have hsplit : value = value.takeWhile (fun c => c = ' ' ∨ c = '\t') ++ number n := by
    rw [← h, List.takeWhile_append_dropWhile]
  have hblank : ∀ c ∈ value.takeWhile (fun c => c = ' ' ∨ c = '\t'), isSpace c = true := by
    intro c hc
    have hor := List.mem_takeWhile_imp hc
    rw [decide_eq_true_eq] at hor
    rcases hor with rfl | rfl <;> decide
  generalize value.takeWhile (fun c => c = ' ' ∨ c = '\t') = blanks at hsplit hblank
  subst hsplit
  unfold receivedValue
  cases blanks with
  | nil =>
    have hhead : (number n ++ ['\r']).head? ≠ some ' ' := by
      intro hhead
      rcases List.mem_append.1 (List.mem_of_head? hhead) with hmem | hmem
      · rcases mem_number hmem with hdigit | hminus
        · exact absurd hdigit (by decide)
        · exact absurd hminus (by decide)
      · exact absurd (List.mem_singleton.1 hmem) (by decide)
    exact ⟨[], hblank, if_neg hhead⟩
  | cons b bs =>
    split_ifs
    · exact ⟨bs, fun c hc => hblank c (List.mem_cons_of_mem b hc), List.append_assoc _ _ _⟩
    · exact ⟨b :: bs, hblank, List.append_assoc _ _ _⟩

/-- The length of a successful response is read unless it is no `int`. -/
theorem lengthRead_success {size : ℕ} (hsize : R.body.length ≤ size) : LengthRead R.fieldLines size ↔
    ((∃ f ∈ R.fields, f.1 = "Content-Length".toList) → R.body.length < 2 ^ 31) := by
  have hvalue : ∀ value, (fieldsOf R.fieldLines).find? "Content-Length".toList = some value →
      stoi value = if R.body.length < 2 ^ 31 then .ok (R.body.length : ℤ) else .error .outOfRange := by
    intro value hfind
    unfold fieldsOf at hfind
    rw [fields_success] at hfind
    rcases SortedMap.find?_insertAll hfind with hmem | hnone
    · obtain ⟨f, hf, heq⟩ := List.mem_map.1 hmem
      -- each `Content-Length` that is received is a text of the body's length
      obtain ⟨hkey, rfl⟩ := Prod.mk.inj heq
      obtain ⟨blanks, hblanks, hreceived⟩ := receivedValue_length (R.length f hf hkey)
      rw [hreceived]
      exact stoi_length hblanks _
    · cases hnone
  constructor
  · rintro hread ⟨f, hf, hkey⟩
    have hcontains : (fieldsOf R.fieldLines).contains "Content-Length".toList = true := by
      unfold fieldsOf
      rw [fields_success]
      exact SortedMap.contains_insertAll (Or.inr (by
        rw [List.map_map]
        exact List.mem_map.2 ⟨f, hf, hkey⟩))
    cases hfind : (fieldsOf R.fieldLines).find? "Content-Length".toList with
    | none =>
      rw [SortedMap.find?_eq_none, hcontains] at hfind
      cases hfind
    | some value =>
      obtain ⟨n, hok, -⟩ := hread value hfind
      rw [hvalue value hfind] at hok
      by_contra hlarge
      rw [if_neg hlarge] at hok
      cases hok
  · intro hsmall value hfind
    rw [hvalue value hfind]
    have hthere : ∃ f ∈ R.fields, f.1 = "Content-Length".toList := by
      unfold fieldsOf at hfind
      rw [fields_success] at hfind
      rcases SortedMap.find?_insertAll hfind with hmem | hnone
      · obtain ⟨f, hf, heq⟩ := List.mem_map.1 hmem
        exact ⟨f, hf, congrArg Prod.fst heq⟩
      · cases hnone
    exact ⟨R.body.length, if_pos (hsmall hthere), by omega⟩

/-- The status line has three words just if the phrase is one. -/
theorem threeWords_success (R : SuccessResponse) : ThreeWords R.statusLine ↔ ' ' ∉ R.phrase := by
  obtain ⟨hd, he⟩ := R.digits
  have hcode : ' ' ∉ ['2', R.d, R.e] := by
    simp [(digit_ne hd).2.2.symm, (digit_ne he).2.2.symm]
  have hline : R.statusLine = "HTTP/1.1".toList ++ ' ' :: (['2', R.d, R.e] ++ ' ' :: (R.phrase ++ ['\r'])) := by
    unfold SuccessResponse.statusLine
    simp
  have hsplit : split R.statusLine ' ' =
      "HTTP/1.1".toList :: ['2', R.d, R.e] :: (R.phrase ++ ['\r']).splitOn ' ' := by
    unfold split
    rw [hline, List.splitOn_append_cons_self_of_not_mem (by decide),
      List.splitOn_append_cons_self_of_not_mem hcode]
  unfold ThreeWords
  rw [hsplit]
  constructor
  · rintro ⟨code, phrase, n, heq, -⟩ hmem
    obtain ⟨-, heq⟩ := List.cons.inj heq
    obtain ⟨-, heq⟩ := List.cons.inj heq
    obtain ⟨before, behind, hphrase, hbefore⟩ := List.eq_append_cons_of_mem hmem
    rw [hphrase, List.append_assoc, List.cons_append, List.splitOn_append_cons_self_of_not_mem hbefore] at heq
    exact List.splitOn_ne_nil _ _ (List.cons.inj heq).2
  · intro hword
    obtain ⟨n, hn⟩ := stoi_code R
    refine ⟨['2', R.d, R.e], R.phrase ++ ['\r'], n, ?_, hn⟩
    rw [List.splitOn_eq_singleton (by simp [hword])]

theorem nul_notin_textOf (cs : List Chunk) : nul ∉ textOf cs := by
  intro h
  obtain ⟨c, -, hc⟩ := List.mem_flatMap.1 h
  have hne := List.mem_takeWhile_imp hc
  simp at hne

/-- The body lines of what was received come from the text. -/
theorem Received.no_nul (h : Received a first bs) : nul ∉ terminated '\n' bs := by
  obtain ⟨fs, hlines, -⟩ := h.header
  have hend : nul ≠ '\n' := by decide
  intro hmem
  obtain ⟨l, hl, hmem⟩ := List.mem_flatMap.1 hmem
  rcases List.mem_append.1 hmem with hmem | hmem
  · have hline : l ∈ lines '\n' (textOf a.chunks) := by
      rw [hlines.1]
      exact List.mem_cons_of_mem _ (List.mem_append_right _ (List.mem_cons_of_mem _ hl))
    rcases mem_of_mem_lines hline hmem with h | h
    · exact nul_notin_textOf _ h
    · exact hend h
  · exact hend (List.mem_singleton.1 hmem)

/-- **The body of a successful response is returned** just if the client can read it. -/
theorem gets_success_iff (h : Reaches openSocket url a) (hbytes : bytesOf a.chunks = R.bytes)
    (hne : R.body ≠ []) : Gets openSocket url R.body ↔ R.Readable a := by
  have hsize : R.body.length ≤ (bytesOf a.chunks).length := by
    rw [hbytes]
    unfold SuccessResponse.bytes
    rw [List.length_append]
    omega
  have htext : nul ∉ R.body → textOf a.chunks = R.bytes := by
    intro hnul
    have hbytes' := nul_notin_bytes hnul
    rw [← hbytes] at hbytes' ⊢
    exact textOf_eq fun c hc hmem => hbytes' (List.mem_flatMap.2 ⟨c, hc, hmem⟩)
  rw [gets_iff h hne]
  constructor
  · rintro ⟨first, bs, hreceived, hwords, hbody⟩
    have hnul : nul ∉ R.body := by
      rw [hbody]
      exact hreceived.no_nul
    obtain ⟨fs, hlines, hlength⟩ := hreceived.header
    rw [htext hnul] at hlines
    obtain ⟨rfl, rfl, rfl⟩ := hlines.unique (success_lines R)
    -- what is received ends with a line feed
    have hended : Ended '\n' R.body := by
      by_contra hopen
      rw [terminated_lines, if_neg hopen] at hbody
      have := congrArg List.length hbody
      simp at this
    exact ⟨(threeWords_success R).1 hwords, ⟨hnul, hended⟩, hreceived.notOverlong, hreceived.idle,
      (lengthRead_success hsize).1 hlength⟩
  · rintro ⟨hphrase, ⟨hnul, hended⟩, hover, hidle, hlength⟩
    have hlines := success_lines R
    rw [← htext hnul] at hlines
    refine ⟨R.statusLine, lines '\n' R.body, ⟨hover, hidle, R.fieldLines, hlines, ?_⟩, ?_, ?_⟩
    · exact (lengthRead_success hsize).2 hlength
    · exact (threeWords_success R).2 hphrase
    · rw [terminated_lines, if_pos hended]

/-- What is returned comes from successful responses, and all of these are returned. -/
def SuccessfulOnly (openSocket : Text → ℕ → Option Socket) (url : Text) (a : Answer) : Prop :=
  (∀ r, Gets openSocket url r → r ≠ [] →
    ∃ line, (lines '\n' (textOf a.chunks)).head? = some line ∧ Successful line) ∧
  ∀ R : SuccessResponse, bytesOf a.chunks = R.bytes → R.body ≠ [] → Gets openSocket url R.body

/-- **Only successful downloads are used** just if no other answer with a body has a status
line of three words, and a successful one can be read. -/
theorem successful_only_iff (h : Reaches openSocket url a) : SuccessfulOnly openSocket url a ↔
    (∀ first bs, Received a first bs → ThreeWords first → bs ≠ [] → Successful first) ∧
    ∀ R : SuccessResponse, bytesOf a.chunks = R.bytes → R.body ≠ [] → R.Readable a := by
  have hhead : ∀ {first bs}, Received a first bs → (lines '\n' (textOf a.chunks)).head? = some first := by
    rintro first bs ⟨-, -, fs, hlines, -⟩
    rw [hlines.1]
    rfl
  refine and_congr ⟨fun hgets first bs hreceived hwords hbs => ?_, fun hall r hget hr => ?_⟩ ?_
  · have hne : terminated '\n' bs ≠ [] := by
      cases bs with
      | nil => exact absurd rfl hbs
      | cons b bs => simp
    obtain ⟨line, hline, hok⟩ := hgets _ ((gets_iff h hne).2 ⟨first, bs, hreceived, hwords, rfl⟩) hne
    rw [hhead hreceived] at hline
    rw [Option.some.inj hline]
    exact hok
  · obtain ⟨first, bs, hreceived, hwords, rfl⟩ := (gets_iff h hr).1 hget
    refine ⟨first, hhead hreceived, hall first bs hreceived hwords ?_⟩
    rintro rfl
    exact hr rfl
  · exact forall_congr' fun R => forall_congr' fun hbytes => forall_congr' fun hne =>
      gets_success_iff h hbytes hne

def demoUrl : Text := "http://localhost/os_info.json".toList

/-- An error page of a server that gives its reason in two words. -/
def notFoundAnswer : Answer :=
  { chunks := [⟨"HTTP/1.1 404 Not Found\r\n\r\noops\n".toList, by decide, by decide⟩], idle := .eof }

/-- An error page of a server that gives its reason in one. -/
def missingAnswer : Answer :=
  { chunks := [⟨"HTTP/1.1 404 Missing\r\n\r\noops\n".toList, by decide, by decide⟩], idle := .eof }

/-- The first ten characters of a successful response. -/
theorem success_prefix (R : SuccessResponse) : R.bytes.take 10 = "HTTP/1.1 2".toList := by
  unfold SuccessResponse.bytes SuccessResponse.statusLine
  rw [terminated_cons, List.append_assoc, List.append_assoc, List.append_assoc]
  rfl

theorem demo_refused : SuccessfulOnly (fun _ _ => some notFoundAnswer.socket) demoUrl notFoundAnswer := by
  have h : Reaches (fun _ _ => some notFoundAnswer.socket) demoUrl notFoundAnswer :=
    ⟨"localhost".toList, "os_info.json".toList, _, rfl, by decide, rfl, rfl, rfl⟩
  have hhead : (lines '\n' (textOf notFoundAnswer.chunks)).head? = some "HTTP/1.1 404 Not Found\r".toList := by
    decide
  refine (successful_only_iff h).2 ⟨fun first bs hreceived hwords => ?_, fun R hbytes => ?_⟩
  · obtain ⟨fs, hlines, -⟩ := hreceived.header
    obtain ⟨code, phrase, n, hsplit, -⟩ := hwords
    rw [hlines.1] at hhead
    rw [Option.some.inj hhead] at hsplit
    have hfour : (split "HTTP/1.1 404 Not Found\r".toList ' ').length = 4 := by decide
    rw [hsplit] at hfour
    cases hfour
  · have hcode : (bytesOf notFoundAnswer.chunks).take 10 ≠ "HTTP/1.1 2".toList := by decide
    rw [hbytes, success_prefix] at hcode
    exact absurd rfl hcode

/-- The page is taken for the resource. -/
theorem error_page_used : Reaches (fun _ _ => some missingAnswer.socket) demoUrl missingAnswer ∧
    ¬SuccessfulOnly (fun _ _ => some missingAnswer.socket) demoUrl missingAnswer := by
  refine ⟨⟨"localhost".toList, "os_info.json".toList, _, rfl, by decide, rfl, rfl, rfl⟩, ?_⟩
  rintro ⟨hgets, -⟩
  have hgot : Gets (fun _ _ => some missingAnswer.socket) demoUrl "oops\n".toList := ⟨1, rfl⟩
  obtain ⟨line, hline, d, e, phrase, -, -, rfl⟩ := hgets _ hgot (by decide)
  have hhead : ((lines '\n' (textOf missingAnswer.chunks)).head?.map (List.take 10)) ≠
      some "HTTP/1.1 2".toList := by decide
  rw [hline] at hhead
  exact hhead rfl

end Noobs
