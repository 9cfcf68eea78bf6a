import Noobs.Proof.Download
import Noobs.Proof.Robust

/-!
# Downloads that end well

A URL comes from JSON, and what is behind it may answer anything.

* `receive_result`: **what `receive` reports**, if it returns: a whole header has come, and
  no error before the rest.
* `receiveResponse_returns`: a response is read to its end unless it crashes or starves the
  client, or the code in its status line is no number.
* `target_iff`: the host and the path are cut at the first slash, which has to be there.
* `safe_get_iff`: **a download does no harm** iff its URL has a slash behind the host and is
  not too long, and the answer is read to its end.
-/

namespace Noobs

variable {s s' : Socket} {w : Web} {size : ℤ}

/-! ## What a receive reports -/

/-- Whether an error comes before the pause that finds `size` bytes, if `t` were read before. -/
def breaksOff (idle : Pause) (size : ℤ) : ℕ → List Event → Bool
  | _, [] => decide (idle = .error)
  | t, .chunk c :: es => breaksOff idle size (t + c.bytes.length) es
  | t, .pause p :: es => decide (p = .error) || (decide ((t : ℤ) < size) && breaksOff idle size t es)

theorem breaksOff_phase (idle : Pause) (size : ℤ) (t : ℕ) (events : List Event) :
    breaksOff idle size t events = true ↔ (phase idle events).2.1 = .error ∨
      ((t + (bytesOf (phase idle events).1).length : ℕ) : ℤ) < size ∧
        breaksOff idle size (t + (bytesOf (phase idle events).1).length) (phase idle events).2.2 = true := by
  induction events generalizing t with
  | nil => simp [breaksOff, phase]
  | cons e es ih =>
    cases e with
    | pause p => simp [breaksOff, phase, bytesOf]
    | chunk c =>
      have hlen : t + (bytesOf (phase idle (.chunk c :: es)).1).length =
          t + c.bytes.length + (bytesOf (phase idle es).1).length := by
        simp [phase, bytesOf, Nat.add_assoc]
      rw [breaksOff, ih, hlen]
      rfl

theorem breaksOff_of_le {size' : ℤ} {idle : Pause} {t : ℕ} {events : List Event} (h : size ≤ t)
    (h' : size' ≤ t) : breaksOff idle size t events = breaksOff idle size' t events := by
  induction events generalizing t with
  | nil => rfl
  | cons e es ih =>
    cases e with
    | pause p => rw [breaksOff, breaksOff, decide_eq_false (not_lt.2 h), decide_eq_false (not_lt.2 h')]; rfl
    | chunk c => rw [breaksOff, breaksOff, ih (by omega) (by omega)]

/-- What the loop reports, if it returns. -/
theorem continueReading_result : ∀ {fuel t : ℕ} {w w' : Web} {s s' : Socket} {ok : Bool}
    {buffer buffer' : Text}, w.bytesRead = t →
    continueReading size fuel w s buffer = some (.ok (ok, buffer', w', s')) →
    (ok = true ↔ ¬breaksOff s.idle size t s.events = true) := by
  intro fuel
  induction fuel with
  | zero =>
    intro t w w' s s' ok buffer buffer' _ h
    cases h
  | succ fuel ih =>
    intro t w w' s s' ok buffer buffer' ht h
    have hover : ∀ c ∈ s.chunks, ¬c.Overlong := by
      by_contra hover
      push Not at hover
      rw [continueReading_fault fuel w buffer hover] at h
      cases h
    -- an error that ends this phase, or a later one that is still read, breaks the message off
    have hbreaks := breaksOff_phase s.idle size t s.events
    rw [continueReading, readReceive_ok _ _ hover] at h
    by_cases hpause : s.pause = .error
    · rw [decide_eq_false (thisRoundRead_nonneg.not.2 (not_not.2 hpause))] at h
      obtain rfl : false = ok := (Prod.mk.inj (Except.ok.inj (Option.some.inj h))).1
      exact iff_of_false Bool.false_ne_true (not_not.2 (hbreaks.2 (Or.inl hpause)))
    · rw [decide_eq_true (thisRoundRead_nonneg.2 hpause), thisRoundRead_of_ne hpause, add_zero, ht] at h
      simp only at h
      split_ifs at h with hmore
      · have hrest := ih (t := t + (bytesOf s.chunks).length) (by push_cast; rfl) h
        have hlt : ((t + (bytesOf s.chunks).length : ℕ) : ℤ) < size := by exact_mod_cast hmore.2
        refine hrest.trans (not_congr ?_)
        rw [hbreaks]
        exact ⟨fun hrest => Or.inr ⟨hlt, hrest⟩, fun hor => (hor.resolve_left hpause).2⟩
      · obtain rfl : true = ok := (Prod.mk.inj (Except.ok.inj (Option.some.inj h))).1
        refine iff_of_true rfl fun hbreak => ?_
        rcases hbreaks.1 hbreak with hp | ⟨hlt, -⟩
        · exact hpause hp
        · have hlt' : (t : ℤ) + (bytesOf s.chunks).length < size := by exact_mod_cast hlt
          exact hmore ⟨by omega, hlt'⟩

/-- Whether an error comes before the rest that the header lets `receive` read. -/
def Socket.BrokenOff (s : Socket) : Prop :=
  (s.expects = true ∨ s.announced > (bytesOf s.chunks).length) ∧
    breaksOff s.idle s.announced (bytesOf s.chunks).length s.next.events = true

instance (s : Socket) : Decidable s.BrokenOff := by unfold Socket.BrokenOff; infer_instance

/-- **What `receive` reports**, if it returns: a whole header has come, and no error before
the rest. -/
theorem receive_result {fuel : ℕ} {ok : Bool} (h : receive fuel {} s = some (.ok (ok, w, s'))) :
    ok = true ↔ s.HasHeader ∧ ¬s.BrokenOff := by
  have hover := notOverlong_of_receive h
  by_cases hheader : s.HasHeader
  swap
  -- without a whole header it reports a failure
  · obtain ⟨w', s'', hfalse⟩ := receive_incomplete hover hheader
    rw [hfalse] at h
    obtain rfl : false = ok := (Prod.mk.inj (Except.ok.inj (Option.some.inj h))).1
    exact iff_of_false Bool.false_ne_true fun hc => hheader hc.1
  rw [and_iff_right hheader]
  obtain ⟨hpause, first, fs, bs, hlines⟩ := hasHeader_iff.1 hheader
  -- with one, it returns only if the announced length is a number
  rw [receive_eq fuel hover hpause hlines] at h
  have hgood : ¬∃ f, s.contentLength = some (.error f) := by
    rintro ⟨f, hf⟩
    unfold receiveBody at h
    rw [messageSize_eq hlines, hf] at h
    cases h
  obtain ⟨size, hok, hsize⟩ := awaited_size hlines hgood
  have hexp := expects_eq hlines
  unfold Socket.BrokenOff
  rcases receiveBody_eq s.next hok with ⟨hno, hneg, hbody⟩ | ⟨hmore, s₁, hev, hidle, hbody⟩
  · rw [hbody] at h
    obtain rfl : true = ok := (Prod.mk.inj (Except.ok.inj (Option.some.inj h))).1
    refine iff_of_true rfl fun hc => ?_
    rw [← hexp, hno] at hc
    rcases hc.1 with hc | hc
    · cases hc
    · rcases hsize with ⟨-, h'⟩ | ⟨h', -, -⟩ <;> omega
  · rw [hbody] at h
    obtain ⟨r, hr, hmap⟩ := Option.map_eq_some_iff.1 h
    rcases r with f | ⟨ok', buffer, w₃, s₃⟩
    · cases hmap
    obtain rfl : ok' = ok := (Prod.mk.inj (Except.ok.inj hmap)).1
    have hloop := continueReading_result (t := (bytesOf s.chunks).length) rfl hr
    rw [hloop, hev, hidle]
    have hreads : s.expects = true ∨ s.announced > (bytesOf s.chunks).length := by
      rcases hsize with ⟨hneg, -⟩ | ⟨-, hlt, -⟩
      · exact Or.inl (hexp ▸ hmore.resolve_right (not_not.2 hneg))
      · exact Or.inr hlt
    rw [and_iff_right hreads]
    rcases hsize with ⟨hneg, hle⟩ | ⟨heq, -, -⟩
    -- with `Expect` alone, -1 and an announced length that has come await no more
    · rw [breaksOff_of_le (by omega) hle]
      rfl
    · rw [heq]
      rfl

/-- The header line of a message that was received is the first of its lines. -/
theorem receive_headerLine {fuel : ℕ} (h : receive fuel {} s = some (.ok (true, w, s'))) :
    w.headerLine = s.headerLines.headD [] := by
  obtain ⟨-, -, first, fs, bs, hlines, size, used, -, -, hfirst, -⟩ := receive_true h
  rw [headerLines_eq hlines]
  exact hfirst

/-! ## The response -/

/-- A status line of `HTTP/1.1` whose code is not the text of an `int`. -/
def BadLine (line : Text) : Prop :=
  ∃ code phrase f, split line ' ' = ["HTTP/1.1".toList, code, phrase] ∧ stoi code = .error f

/-- An answer that is received and has such a status line. -/
def BadStatus (s : Socket) : Prop := s.HasHeader ∧ ¬s.BrokenOff ∧ BadLine (s.headerLines.headD [])

/-- What `receiveResponse` makes of the received message. -/
def parseStatus (r : Bool × Web × Socket) : Except Fault (Bool × ClientResponse × Socket) :=
  match r with
  | (false, w, s) => .ok (false, { toWeb := w }, s)
  | (true, w, s) =>
    match split w.headerLine ' ' with
    | [version, code, phrase] =>
      if version ≠ "HTTP/1.1".toList then .ok (false, { toWeb := w }, s)
      else
        match stoi code with
        | .error f => .error f
        | .ok n => .ok (true, { toWeb := w, code := n, phrase := phrase.dropLast }, s)
    | _ => .ok (false, { toWeb := w }, s)

theorem receiveResponse_eq (fuel : ℕ) (s : Socket) :
    receiveResponse fuel s = (receive fuel {} s).map fun r => r.bind parseStatus := by
  unfold receiveResponse
  rcases receive fuel {} s with _ | f | ⟨_ | _, w, s'⟩
  · rfl
  · rfl
  · rfl
  · simp only [Option.map_some, Except.bind, parseStatus]
    rcases split w.headerLine ' ' with _ | ⟨version, _ | ⟨code, _ | ⟨phrase, _ | ⟨more, rest⟩⟩⟩⟩
    · rfl
    · rfl
    · rfl
    · by_cases hversion : version = "HTTP/1.1".toList
      · simp only [hversion, ne_eq, not_true_eq_false, if_false]
        cases stoi code <;> rfl
      · simp only [hversion, ne_eq, not_false_eq_true, if_true]
    · rfl

/-- The code of a bad status line is the only thing that ends the process here. -/
theorem parseStatus_error (r : Bool × Web × Socket) :
    (∃ f, parseStatus r = .error f) ↔ r.1 = true ∧ BadLine r.2.1.headerLine := by
  obtain ⟨ok, w, s'⟩ := r
  cases ok with
  | false => simp [parseStatus]
  | true =>
    unfold BadLine
    simp only [parseStatus, true_and]
    rcases split w.headerLine ' ' with _ | ⟨version, _ | ⟨code, _ | ⟨phrase, _ | ⟨more, rest⟩⟩⟩⟩
    · exact iff_of_false nofun nofun
    · exact iff_of_false nofun nofun
    · exact iff_of_false nofun nofun
    -- only a status line of three words is looked at
    · by_cases hversion : version = "HTTP/1.1".toList
      · simp only [hversion, ne_eq, not_true_eq_false, if_false]
        cases hstoi : stoi code with
        | error f => exact iff_of_true ⟨f, rfl⟩ ⟨code, phrase, f, rfl, hstoi⟩
        | ok n =>
          refine iff_of_false nofun ?_
          rintro ⟨code', phrase', f, heq, hf⟩
          obtain ⟨rfl, -⟩ := List.cons.inj (List.cons.inj heq).2
          rw [hstoi] at hf
          cases hf
      · simp only [hversion, ne_eq, not_false_eq_true, if_true]
        refine iff_of_false nofun ?_
        rintro ⟨code', phrase', f, heq, -⟩
        exact hversion (List.cons.inj heq).1
    · exact iff_of_false nofun nofun

/-- **A response is read to its end** unless it crashes or starves the client, or the code in
its status line is no number. -/
theorem receiveResponse_returns (s : Socket) :
    (∃ fuel r, receiveResponse fuel s = some (.ok r)) ↔ ¬Crashes s ∧ ¬Starved s ∧ ¬BadStatus s := by
  obtain ⟨-, hreturns⟩ := receive_ends s
  have hbad : ∀ {fuel r}, receive fuel {} s = some (.ok r) → ((∃ f, parseStatus r = .error f) ↔ BadStatus s) := by
    intro fuel r hr
    obtain ⟨ok, w, s'⟩ := r
    have hresult := receive_result hr
    unfold BadStatus
    rw [parseStatus_error, ← and_assoc, ← hresult]
    refine and_congr_right fun hok => ?_
    obtain rfl : ok = true := hok
    rw [receive_headerLine hr]
  constructor
  · rintro ⟨fuel, r, h⟩
    rw [receiveResponse_eq] at h
    obtain ⟨r', hr, hparse⟩ := Option.map_eq_some_iff.1 h
    cases r' with
    | error f => cases hparse
    | ok r' =>
      obtain ⟨hcrash, hstarved⟩ := hreturns.1 ⟨fuel, r', hr⟩
      refine ⟨hcrash, hstarved, fun hstatus => ?_⟩
      obtain ⟨f, hf⟩ := (hbad hr).2 hstatus
      have hok : parseStatus r' = .ok r := hparse
      rw [hf] at hok
      cases hok
  · rintro ⟨hcrash, hstarved, hstatus⟩
    obtain ⟨fuel, r, hr⟩ := hreturns.2 ⟨hcrash, hstarved⟩
    cases hparse : parseStatus r with
    | error f => exact absurd ((hbad hr).1 ⟨f, hparse⟩) hstatus
    | ok r' =>
      refine ⟨fuel, r', ?_⟩
      rw [receiveResponse_eq, hr]
      exact congrArg some hparse

/-! ## The URL -/

/-- `HEADER_BUFFER`. -/
def headerBuffer : ℕ := 4096

namespace WebClient

variable {openSocket : Text → ℕ → Option Socket} {url : Text}

/-- The host and the path that `get` uses, if it gets as far. -/
def target (url : Text) : Option (Text × Text) :=
  (withoutScheme url).bind fun url =>
    match split url '/' with
    | host :: path :: more => some (host, '/' :: ['/'].intercalate (path :: more))
    | _ => none

/-- The request for a path, which has no body: what `send` puts into its buffer. -/
def requestText (host path : Text) : Text :=
  ({ method := "GET".toList, path := path, host := host } : ClientRequest).prepared.message

theorem length_requestText {host path : Text} (hhost : nul ∉ host) (hpath : nul ∉ path) :
    (requestText host path).length = (host ++ path).length + 66 := by
  have hentries : ({ method := "GET".toList, path := path, host := host } : ClientRequest).prepared.header.entries =
      [("Accept".toList, "*/*".toList), ("Host".toList, host),
        ("User-Agent".toList, "NOOBS4IoT 0.1a".toList)] := rfl
  have hline : nul ∉ "GET".toList ++ ' ' :: path ++ " HTTP/1.1".toList := by
    simp only [List.mem_append, List.mem_cons, not_or]
    exact ⟨⟨by decide, by decide, hpath⟩, by decide⟩
  have hfirst : ({ method := "GET".toList, path := path, host := host } : ClientRequest).prepared.headerLine =
      "GET".toList ++ ' ' :: path ++ " HTTP/1.1".toList := rfl
  have hbody : ({ method := "GET".toList, path := path, host := host } : ClientRequest).prepared.body = [] := rfl
  unfold requestText Web.message
  rw [hentries, hfirst, hbody, cString_eq hline]
  simp only [List.flatMap_cons, List.flatMap_nil, cString_eq hhost]
  have hfixed : (cString "Accept".toList).length = 6 ∧ (cString "*/*".toList).length = 3 ∧
      (cString "Host".toList).length = 4 ∧ (cString "User-Agent".toList).length = 10 ∧
      (cString "NOOBS4IoT 0.1a".toList).length = 14 := by decide
  obtain ⟨h1, h2, h3, h4, h5⟩ := hfixed
  have hends : "GET".toList.length = 3 ∧ " HTTP/1.1".toList.length = 9 ∧ "\r\n".toList.length = 2 ∧
      ": ".toList.length = 2 ∧ (cString []).length = 0 := by decide
  obtain ⟨e1, e2, e3, e4, e5⟩ := hends
  simp only [List.length_append, List.length_cons, List.length_nil, h1, h2, h3, h4, h5, e1, e2, e3, e4, e5]
  omega

/-- What `get` does with a target, and without one. -/
theorem get_target {host path : Text} (h : target url = some (host, path)) (fuel : ℕ) :
    get openSocket fuel url = getFrom openSocket fuel host path 80 := by
  unfold target at h
  unfold get
  cases hu : withoutScheme url with
  | none =>
    rw [hu] at h
    cases h
  | some u =>
    rw [hu] at h
    simp only [Option.bind_some] at h ⊢
    generalize split u '/' = pieces at h ⊢
    rcases pieces with _ | ⟨host', _ | ⟨p, more⟩⟩
    · cases h
    · cases h
    · obtain ⟨rfl, rfl⟩ := Prod.mk.inj (Option.some.inj h)
      rfl

theorem target_of_slash {host path : Text} (hurl : withoutScheme url = some (host ++ '/' :: path))
    (hhost : '/' ∉ host) : target url = some (host, '/' :: path) := by
  obtain ⟨p, more, hsplit, hmerged⟩ := split_url hhost path
  unfold target
  rw [hurl, Option.bind_some, hsplit]
  simp only [hmerged]

/-- Without a slash behind the host there is no path to be read. -/
theorem get_of_no_slash {u : Text} (hurl : withoutScheme url = some u) (hu : '/' ∉ u) (fuel : ℕ) :
    target url = none ∧ get openSocket fuel url = some (.error .bufferOverread) := by
  have hsplit : split u '/' = [u] := List.splitOn_eq_singleton hu
  unfold target get
  rw [hurl]
  simp only [Option.bind_some, hsplit]
  exact ⟨trivial, trivial⟩

/-- **The host and the path are cut at the first slash**. -/
theorem target_iff {host path : Text} : target url = some (host, path) ↔
    ∃ rest, path = '/' :: rest ∧ '/' ∉ host ∧ withoutScheme url = some (host ++ path) := by
  constructor
  · intro h
    cases hu : withoutScheme url with
    | none =>
      unfold target at h
      rw [hu] at h
      cases h
    | some u =>
      by_cases hslash : '/' ∈ u
      · obtain ⟨host', rest, rfl, hhost⟩ := List.eq_append_cons_of_mem hslash
        rw [target_of_slash hu hhost] at h
        obtain ⟨rfl, rfl⟩ := Prod.mk.inj (Option.some.inj h)
        exact ⟨rest, rfl, hhost, rfl⟩
      · have hnone : target url = none := (@get_of_no_slash (fun _ _ => none) url u hu hslash 0).1
        rw [hnone] at h
        cases h
  · rintro ⟨rest, rfl, hhost, hurl⟩
    exact target_of_slash hurl hhost

end WebClient

/-! ## Downloads -/

open WebClient

variable {openSocket : Text → ℕ → Option Socket}

/-- A download that does no harm: it returns, its request fits into the buffer, and the host
and the path it uses are those of the URL. -/
structure SafeGet (openSocket : Text → ℕ → Option Socket) (url : Text) : Prop where
  returns : ∃ fuel body, WebClient.get openSocket fuel url = some (.ok body)
  fits : ∀ host path s, target url = some (host, path) → openSocket host 80 = some s →
    (requestText host path).length < headerBuffer
  address : ∀ host path u, target url = some (host, path) → withoutScheme url = some u →
    '/' ∉ host ∧ (host ++ path = u ∨ '/' ∉ u ∧ host = u ∧ path = ['/'])

/-- There is a slash behind the host, and if the host can be reached, the request fits into
the buffer and the answer is read to its end. -/
def EndsWell (openSocket : Text → ℕ → Option Socket) (url : Text) : Prop :=
  ∀ u, withoutScheme url = some u → '/' ∈ u ∧
    ∀ s, openSocket (u.takeWhile (· ≠ '/')) 80 = some s →
      u.length + 66 < headerBuffer ∧ ¬Crashes s ∧ ¬Starved s ∧ ¬BadStatus s

/-- What is sent changes nothing about the answer. -/
theorem getFrom_returns {host path : Text} : (∃ fuel body, getFrom openSocket fuel host path 80 = some (.ok body)) ↔
    ∀ s, openSocket host 80 = some s → ¬Crashes s ∧ ¬Starved s ∧ ¬BadStatus s := by
  unfold getFrom
  cases hopen : openSocket host 80 with
  | none => exact iff_of_true ⟨0, [], rfl⟩ nofun
  | some s =>
    -- the request is written to the same socket, whose events stay as they are
    have hsame := receiveResponse_returns
      (({ method := "GET".toList, path := path, host := host } : ClientRequest).sendRequest s)
    have hanswer : (∀ s', some s = some s' → ¬Crashes s' ∧ ¬Starved s' ∧ ¬BadStatus s') ↔
        ¬Crashes s ∧ ¬Starved s ∧ ¬BadStatus s :=
      ⟨fun h => h s rfl, fun h s' hs' => Option.some.inj hs' ▸ h⟩
    rw [hanswer]
    refine Iff.trans ?_ hsame
    simp only
    constructor
    · rintro ⟨fuel, body, h⟩
      refine ⟨fuel, ?_⟩
      rcases hr : receiveResponse fuel
          (({ method := "GET".toList, path := path, host := host } : ClientRequest).sendRequest s) with _ | f | r
      · rw [hr] at h
        cases h
      · rw [hr] at h
        cases h
      · exact ⟨r, rfl⟩
    · rintro ⟨fuel, ⟨ok, response, s'⟩, hr⟩
      cases ok with
      | false => exact ⟨fuel, [], by rw [hr]⟩
      | true => exact ⟨fuel, response.body, by rw [hr]⟩

/-- A C string has no NUL, nor has what is left of it. -/
theorem nul_notin_withoutScheme {url u : Text} (h : withoutScheme (cString url) = some u) : nul ∉ u := by
  have hnul := nul_notin_cString url
  unfold withoutScheme at h
  split_ifs at h
  · obtain rfl := Option.some.inj h
    exact fun hmem => hnul (List.mem_of_mem_drop hmem)
  · obtain rfl := Option.some.inj h
    exact hnul

theorem takeWhile_host {host : Text} (hhost : '/' ∉ host) (rest : Text) :
    (host ++ '/' :: rest).takeWhile (· ≠ '/') = host := by
  have hpos : ∀ c ∈ host, decide (c ≠ '/') = true := by
    intro c hc
    rw [decide_eq_true_eq]
    rintro rfl
    exact hhost hc
  rw [List.takeWhile_append_of_pos hpos]
  simp

/-- **A download does no harm** iff its URL has a slash behind the host and is not too long,
and the answer is read to its end. -/
theorem safe_get_iff (openSocket : Text → ℕ → Option Socket) (url : Text) :
    SafeGet openSocket (cString url) ↔ EndsWell openSocket (cString url) := by
  cases hu : withoutScheme (cString url) with
  | none =>
    have hnone : target (cString url) = none := by
      unfold target
      rw [hu]
      rfl
    refine iff_of_true ⟨⟨0, [], ?_⟩, ?_, ?_⟩ ?_
    · unfold WebClient.get
      -- `https://` is refused before anything is read of it
      rw [hu]
    · intro host path s h
      rw [hnone] at h
      cases h
    · intro host path u h
      rw [hnone] at h
      cases h
    · intro u h
      rw [hu] at h
      cases h
  | some u =>
    have hends : EndsWell openSocket (cString url) ↔ '/' ∈ u ∧
        ∀ s, openSocket (u.takeWhile (· ≠ '/')) 80 = some s →
          u.length + 66 < headerBuffer ∧ ¬Crashes s ∧ ¬Starved s ∧ ¬BadStatus s := by
      unfold EndsWell
      rw [hu]
      exact ⟨fun h => h u rfl, fun h u' hu' => Option.some.inj hu' ▸ h⟩
    rw [hends]
    by_cases hslash : '/' ∈ u
    swap
    -- `urlVector[1]` is read of a vector of one element
    · refine iff_of_false (fun h => ?_) fun h => hslash h.1
      obtain ⟨fuel, body, hget⟩ := h.returns
      rw [(get_of_no_slash hu hslash fuel).2] at hget
      cases hget
    · have hnul := nul_notin_withoutScheme hu
      obtain ⟨host, rest, rfl, hhost⟩ := List.eq_append_cons_of_mem hslash
      have htarget := target_of_slash hu hhost
      have hlength : (requestText host ('/' :: rest)).length = (host ++ '/' :: rest).length + 66 :=
        length_requestText (fun h => hnul (List.mem_append_left _ h)) fun h => hnul (List.mem_append_right _ h)
      rw [takeWhile_host hhost, and_iff_right hslash]
      constructor
      · rintro ⟨⟨fuel, body, hget⟩, hfits, -⟩ s hs
        rw [get_target htarget] at hget
        exact ⟨hlength ▸ hfits host _ s htarget hs, getFrom_returns.1 ⟨fuel, body, hget⟩ s hs⟩
      · intro h
        refine ⟨?_, ?_, ?_⟩
        · obtain ⟨fuel, body, hget⟩ := getFrom_returns.2 fun s hs => (h s hs).2
          exact ⟨fuel, body, (get_target htarget fuel).trans hget⟩
        · intro host' path' s ht hs
          obtain ⟨rfl, rfl⟩ := Prod.mk.inj (Option.some.inj (htarget.symm.trans ht))
          rw [hlength]
          exact (h s hs).1
        · intro host' path' u ht hu'
          obtain ⟨rest', -, hhost', hurl⟩ := target_iff.1 ht
          exact ⟨hhost', Or.inl (Option.some.inj (hurl.symm.trans hu'))⟩

/-- A URL of a host alone. -/
theorem bare_host_overruns : (∀ fuel, WebClient.get (fun _ _ => none) fuel (cString "http://localhost".toList) =
      some (.error .bufferOverread)) ∧
    ¬SafeGet (fun _ _ => none) (cString "http://localhost".toList) := by
  have hget : ∀ fuel, WebClient.get (fun _ _ => none) fuel (cString "http://localhost".toList) =
      some (.error .bufferOverread) := by
    have hurl : withoutScheme (cString "http://localhost".toList) = some "localhost".toList := by decide
    exact fun fuel => (get_of_no_slash hurl (by decide) fuel).2
  refine ⟨hget, fun h => ?_⟩
  obtain ⟨fuel, body, hok⟩ := h.returns
  rw [hget] at hok
  cases hok

end Noobs
