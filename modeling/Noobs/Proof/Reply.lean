import Mathlib.Data.Nat.Digits.Defs
import Noobs.Proof.Get
import Noobs.Proof.Listen
import Noobs.Proof.RoundTrip
import Noobs.Spec.Reply

/-!
# What a server's clients read

What a client sends may come back to it in the body of a response, but the header is the
server's own, and it says how long the body is.

* `readReply_message`: a message of printable fields is taken off whatever follows it.
* `serveConnection_proper`: the responses are of the few kinds there are, and at most two to
  a connection.
* `responses_read_back`: **what a client is sent reads back as the responses made**, and no
  header outgrows its buffer, whatever the clients of the server send.
-/

namespace Noobs

open Prog

variable {w : Web} {r : Response} {t : Text}

/-! ## Printable text -/

/-- No character of it is one for control. -/
def Printable (t : Text) : Prop := ∀ c ∈ t, 32 ≤ c.toNat

-- by the characters of the text, not by those there are
instance (t : Text) : Decidable (Printable t) :=
  decidable_of_iff ((t.all fun c => decide (32 ≤ c.toNat)) = true) (by simp [Printable])

theorem printable_append {t t' : Text} : Printable (t ++ t') ↔ Printable t ∧ Printable t' :=
  List.forall_mem_append

theorem printable_cons {c : Char} : Printable (c :: t) ↔ 32 ≤ c.toNat ∧ Printable t := List.forall_mem_cons

theorem Printable.not_mem (h : Printable t) {c : Char} (hc : c.toNat < 32) : c ∉ t := by
  intro hmem
  have hle := h c hmem
  omega

theorem Printable.cString (h : Printable t) : cString t = t := cString_eq (h.not_mem (by decide))

theorem printable_number (n : ℤ) : Printable (number n) := by
  intro c hc
  rcases mem_number hc with h | rfl
  · have hd := (isDigit_iff c).1 h
    omega
  · decide

/-- A number of at most `k` digits. -/
theorem length_number {n : ℤ} {k : ℕ} (h : n.natAbs < 10 ^ k) (hk : 0 < k) : (number n).length ≤ k + 1 := by
  rw [number_eq]
  split_ifs with hn
  · have hlen := Nat.toDigits_length 10 n.toNat k hk (by omega)
    omega
  · have hlen := Nat.toDigits_length 10 (-n).toNat k hk (by omega)
    rw [List.length_cons]
    omega

/-- Text that begins and ends with something to see is left as it is. -/
theorem trim_eq {c d : Char} {t' : Text} (hc : isSpace c = false) (hd : isSpace d = false)
    (h : t = c :: t') (h' : t.getLast? = some d) : trim (' ' :: t) = t := by
  subst h
  have hdrop : (' ' :: c :: t').dropWhile isSpace = c :: t' := by
    rw [List.dropWhile_cons_of_pos (by decide), List.dropWhile_cons_of_neg (by simp [hc])]
  unfold trim
  rw [hdrop, List.rdropWhile_eq_self_iff]
  intro hne
  rw [List.getLast?_eq_some_getLast hne, Option.some.injEq] at h'
  rw [h', hd]
  exact Bool.false_ne_true

theorem trim_number (n : ℤ) : trim (' ' :: number n) = number n := by
  have hplain : ∀ c ∈ number n, isSpace c = false := by
    intro c hc
    rcases mem_number hc with h | rfl
    · exact isSpace_of_isDigit h
    · decide
  unfold trim
  rw [List.dropWhile_cons_of_pos (by decide)]
  exact trim_eq_self hplain

/-! ## Dates -/

theorem trim_date (t : Tm) : trim (' ' :: t.date) = t.date := by
  -- in front is the letter of a day, at the end that of the zone
  have hday : ∀ i : Fin 7, ((threeLetters "SunMonTueWedThuFriSat" i).head?.any fun c => !isSpace c) = true := by
    decide
  obtain ⟨c, rest, hname, hc⟩ : ∃ c rest, threeLetters "SunMonTueWedThuFriSat" t.wday = c :: rest ∧ isSpace c = false := by
    have hfirst := hday t.wday
    cases hname : threeLetters "SunMonTueWedThuFriSat" t.wday with
    | nil =>
      rw [hname] at hfirst
      cases hfirst
    | cons c rest =>
      rw [hname] at hfirst
      exact ⟨c, rest, rfl, by simpa using hfirst⟩
  have hfirst : ∃ rest, t.date = c :: rest := by
    unfold Tm.date
    rw [hname]
    exact ⟨_, rfl⟩
  have hlast : ∃ front, t.date = front ++ " GMT".toList := ⟨_, rfl⟩
  obtain ⟨rest, hfirst⟩ := hfirst
  obtain ⟨front, hlast⟩ := hlast
  refine trim_eq hc (by decide) hfirst (d := 'T') ?_
  rw [hlast, List.getLast?_append_of_ne_nil _ (by decide)]
  rfl

theorem printable_date (t : Tm) : Printable t.date := by
  have hdays : ∀ i : Fin 7, Printable (threeLetters "SunMonTueWedThuFriSat" i) := by decide
  have hmonths : ∀ i : Fin 12, Printable (threeLetters "JanFebMarAprMayJunJulAugSepOctNovDec" i) := by decide
  have hnumbers : ∀ i : Fin 61, Printable (twoDigits i) := by decide
  have htwo : ∀ n < 61, Printable (twoDigits n) := fun n hn => hnumbers ⟨n, hn⟩
  have hzone : Printable ", ".toList ∧ Printable " GMT".toList := by decide
  have hseps : 32 ≤ ' '.toNat ∧ 32 ≤ ':'.toNat := by decide
  unfold Tm.date
  simp only [printable_append, printable_cons, hdays, hmonths, hzone, hseps, printable_number, and_true,
    htwo t.sec (by omega), htwo t.min (by omega), htwo t.hour (by omega), htwo t.mday (by omega)]

/-- The date fits into its buffer of 100 characters. -/
theorem length_date (t : Tm) : t.date.length < 100 := by
  have hthree : ∀ names i, (threeLetters names i).length ≤ 3 := by
    intro names i
    exact List.length_take_le _ _
  have hday := hthree "SunMonTueWedThuFriSat" t.wday
  have hmonth := hthree "JanFebMarAprMayJunJulAugSepOctNovDec" t.mon
  have hyear : (number (t.year + 1900)).length ≤ 12 := by
    obtain ⟨h1, h2⟩ := t.year_int
    refine length_number ?_ (by decide)
    omega
  have hfixed : ", ".toList.length = 2 ∧ " GMT".toList.length = 4 := by decide
  unfold Tm.date
  simp only [List.length_append, List.length_cons, hfixed, twoDigits, List.length_nil]
  omega

/-! ## Messages -/

theorem withoutReturn_append (t : Text) : withoutReturn (t ++ ['\r']) = t := by
  unfold withoutReturn
  rw [if_pos (by simp), List.dropLast_concat]

/-- A field that reads back as it was sent. -/
structure Readable (e : Text × Text) : Prop where
  key : Printable e.1 ∧ ':' ∉ e.1
  value : Printable e.2 ∧ trim (' ' :: e.2) = e.2

theorem withoutReturn_fieldLine {e : Text × Text} (h : Readable e) :
    withoutReturn (fieldLine e) = e.1 ++ ':' :: ' ' :: e.2 := by
  have hline : fieldLine e = (e.1 ++ ':' :: ' ' :: e.2) ++ ['\r'] := by
    unfold fieldLine
    rw [h.key.1.cString, h.value.1.cString]
    simp
  rw [hline, withoutReturn_append]

theorem readField_fieldLine {e : Text × Text} (h : Readable e) : readField (withoutReturn (fieldLine e)) = some e := by
  unfold readField
  rw [withoutReturn_fieldLine h, takeLine_append h.key.2]
  simp [h.value.2]

theorem readFields_sent (h : ∀ e ∈ w.header.entries, Readable e) :
    (w.sentLines.map withoutReturn).mapM readField = some w.header.entries := by
  unfold Web.sentLines
  generalize w.header.entries = es at h ⊢
  induction es with
  | nil => rfl
  | cons e es ih =>
    obtain ⟨he, hes⟩ := List.forall_mem_cons.1 h
    rw [List.map_cons, List.map_cons, List.mapM_cons, readField_fieldLine he, ih hes]
    rfl

theorem newline_not_mem_fieldLine {e : Text × Text} (h : Readable e) : '\n' ∉ fieldLine e := by
  have hkey : '\n' ∉ cString e.1 := mt cString_subset (h.key.1.not_mem (by decide))
  have hvalue : '\n' ∉ cString e.2 := mt cString_subset (h.value.1.not_mem (by decide))
  unfold fieldLine
  simp [hkey, hvalue]

/-- **A message is taken off** whatever follows it. -/
theorem readReply_message {version phrase : Text} {code : ℤ} (hprint : Printable w.headerLine)
    (hline : readStatus w.headerLine = some (version, code, phrase))
    (hfields : ∀ e ∈ w.header.entries, Readable e)
    (hlength : contentLength w.header.entries = some (cString w.body).length) :
    ReadsAs readReply w.message
      { version, code, phrase, fields := w.header.entries, body := cString w.body } := by
  have hne : w.headerLine ≠ [] := by
    intro hnil
    rw [hnil] at hline
    cases hline
  have hfirst : '\n' ∉ cString w.headerLine := mt cString_subset (hprint.not_mem (by decide))
  have hhead : ∀ l ∈ (cString w.headerLine ++ ['\r']) :: w.sentLines, '\n' ∉ l ∧ endsHeader l = false := by
    intro l hl
    rcases List.mem_cons.1 hl with rfl | hl
    · refine ⟨by simp [hfirst], decide_eq_false ?_⟩
      rwa [withoutReturn_append, hprint.cString]
    · obtain ⟨e, he, rfl⟩ := List.mem_map.1 hl
      refine ⟨newline_not_mem_fieldLine (hfields e he), decide_eq_false ?_⟩
      rw [withoutReturn_fieldLine (hfields e he)]
      simp
  have hreturn : '\n' ∉ ['\r'] ∧ endsHeader ['\r'] = true := by decide
  refine ⟨by rw [message_eq]; simp, fun rest => ?_⟩
  have hmessage : w.message ++ rest = terminated '\n' ((cString w.headerLine ++ ['\r']) :: w.sentLines ++ [['\r']]) ++
      (cString w.body ++ rest) := by
    rw [message_eq, List.append_assoc]
    rfl
  have hlen : ((cString w.headerLine ++ ['\r']) :: w.sentLines).length < (w.message ++ rest).length := by
    have hlines := length_terminated_le '\n' ((cString w.headerLine ++ ['\r']) :: w.sentLines ++ [['\r']])
    rw [hmessage, List.length_append]
    rw [List.length_append, List.length_singleton] at hlines
    omega
  have hblock := takeBlock_terminated hhead hreturn.1 hreturn.2 hlen (cString w.body ++ rest)
  unfold readReply
  rw [← hmessage] at hblock
  rw [hblock]
  simp [withoutReturn_append, hprint.cString, hline, readFields_sent hfields, hlength]

/-! ## Responses -/

/-- One of the few kinds of response there are. -/
structure Standard (r : Response) : Prop where
  status : (r.code, r.phrase) ∈ [(200, "OK".toList), (400, "Bad Request".toList),
    (404, "Not Found".toList), (500, "Internal Server Error".toList)]
  type : r.type = "text/plain".toList

/-- What the header of such a response is put together from. -/
theorem Standard.header (h : Standard r) : Printable r.phrase ∧ (number r.code).length = 3 ∧ r.phrase.length ≤ 21 := by
  have hkinds : ∀ k ∈ [(200, "OK".toList), (400, "Bad Request".toList), (404, "Not Found".toList),
      (500, "Internal Server Error".toList)],
      Printable k.2 ∧ (number (k.1 : ℕ)).length = 3 ∧ k.2.length ≤ 21 := by decide
  exact hkinds _ h.status

theorem entries_prepared (r : Response) (date : Text) : (r.prepared date).header.entries =
    [("Content-Length".toList, number (cString r.body).length), ("Content-Type".toList, r.type),
      ("Date".toList, date), ("Server".toList, "NOOBS4IoT 0.1a".toList)] := rfl

/-- **A response reads back as it was made**, up to a NUL in its body. -/
theorem readsAs_prepared (h : Standard r) (t : Tm) :
    ReadsAs readReply (r.prepared t.date).message (r.reply t) := by
  have hline : (r.prepared t.date).headerLine =
      "HTTP/1.0".toList ++ ' ' :: (number r.code ++ ' ' :: r.phrase) := rfl
  have hprefix : Printable "HTTP/1.0".toList ∧ 32 ≤ ' '.toNat := by decide
  have hspace : ' ' ∉ number r.code := by
    intro hmem
    rcases mem_number hmem with hd | hd <;> exact absurd hd (by decide)
  refine readReply_message (w := r.prepared t.date) ?_ ?_ ?_ ?_
  · rw [hline]
    simp only [printable_append, printable_cons, hprefix, printable_number, h.header.1, and_true]
  · rw [hline]
    unfold readStatus
    rw [takeLine_append (by decide)]
    simp [takeLine_append hspace, integer_number]
  · have hsize : Printable "Content-Length".toList ∧ ':' ∉ "Content-Length".toList := by decide
    have htype : Readable ("Content-Type".toList, "text/plain".toList) := ⟨by decide, by decide⟩
    have hdate : Printable "Date".toList ∧ ':' ∉ "Date".toList := by decide
    have hserver : Readable ("Server".toList, "NOOBS4IoT 0.1a".toList) := ⟨by decide, by decide⟩
    rw [entries_prepared, h.type]
    simp only [List.forall_mem_cons, List.not_mem_nil, false_imp_iff, implies_true, and_true]
    exact ⟨⟨hsize, printable_number _, trim_number _⟩, htype, ⟨hdate, printable_date t, trim_date t⟩, hserver⟩
  · have hfind : (r.prepared t.date).header.entries.find?
        (fun field => equalsInsensitive field.1 "Content-Length".toList) =
          some ("Content-Length".toList, number (cString r.body).length) := by
      have hsame : equalsInsensitive "Content-Length".toList "Content-Length".toList = true := by decide
      rw [entries_prepared]
      exact List.find?_cons_of_pos hsame
    unfold contentLength
    rw [hfind]
    simp only [integer_number, Option.bind_some]
    rw [if_pos (by omega)]
    rfl

/-- The interim message has no fields, and no body. -/
theorem readsAs_expectResponse : ReadsAs readReply expectResponse.message
    { version := "HTTP/1.0".toList, code := 100, phrase := "Continue".toList, fields := [], body := [] } :=
  readReply_message (w := expectResponse) (by decide) (by decide) (fun _ he => absurd he List.not_mem_nil) rfl

/-- What is sent is the header, and the body behind it. -/
theorem message_headerText (w : Web) : w.message = w.headerText ++ cString w.body := rfl

theorem length_cString_le (t : Text) : (cString t).length ≤ t.length := (List.takeWhile_prefix _).length_le

/-- The parts of a header, with what is put between them. -/
theorem length_headerText_le (w : Web) : w.headerText.length ≤
    w.headerLine.length + (w.header.entries.map fun e => e.1.length + e.2.length + 4).sum + 4 := by
  have hfixed : "\r\n".toList.length = 2 ∧ ": ".toList.length = 2 := by decide
  have hfields : ∀ es : List (Text × Text),
      (es.flatMap fun e => cString e.1 ++ ": ".toList ++ cString e.2 ++ "\r\n".toList).length ≤
        (es.map fun e => e.1.length + e.2.length + 4).sum := by
    intro es
    induction es with
    | nil => exact Nat.le_refl 0
    | cons e es ih =>
      have hkey := length_cString_le e.1
      have hvalue := length_cString_le e.2
      rw [List.flatMap_cons, List.map_cons, List.sum_cons, List.length_append]
      simp only [List.length_append, hfixed]
      omega
  have hline := length_cString_le w.headerLine
  have hall := hfields w.header.entries
  unfold Web.headerText
  simp only [List.length_append, hfixed] at hall ⊢
  omega

/-- **No header outgrows its buffer**, the size of the body being one of 64 bits. -/
theorem headerText_fits (h : Standard r) (hbody : (cString r.body).length < 2 ^ 64) (t : Tm) :
    (r.prepared t.date).headerText.length < headerBuffer := by
  have hsize : (number (cString r.body).length).length ≤ 21 := by
    refine length_number ?_ (by decide)
    simp only [Int.natAbs_natCast]
    omega
  have hdate := length_date t
  have hline : (r.prepared t.date).headerLine.length = 10 + (number r.code).length + r.phrase.length := by
    have hversion : "HTTP/1.0 ".toList.length = 9 := by decide
    show ("HTTP/1.0 ".toList ++ number r.code ++ ' ' :: r.phrase).length = _
    simp only [List.length_append, List.length_cons, hversion]
    omega
  have hfixed : "Content-Length".toList.length = 14 ∧ "Content-Type".toList.length = 12 ∧
      "text/plain".toList.length = 10 ∧ "Date".toList.length = 4 ∧ "Server".toList.length = 6 ∧
      "NOOBS4IoT 0.1a".toList.length = 14 := by decide
  have hle := length_headerText_le (r.prepared t.date)
  obtain ⟨-, hcode, hphrase⟩ := h.header
  rw [hline, entries_prepared, h.type] at hle
  simp only [List.map_cons, List.map_nil, List.sum_cons, List.sum_nil, hfixed] at hle
  have hbuffer : headerBuffer = 4096 := rfl
  omega

/-! ## What reading sends -/

section

variable {w' : Web} {s s' : Socket} {ok : Bool} {fuel : ℕ} {size : ℤ} {buffer buffer' : Text}

/-- Reading sends nothing. -/
theorem readReceive_sent (h : readReceive w s buffer = .ok (ok, buffer', w', s')) : s'.sent = s.sent := by
  unfold readReceive at h
  cases hread : readEvents s.idle s.events buffer w.bytesRead with
  | error f =>
    rw [hread] at h
    cases h
  | ok r =>
    rw [hread] at h
    cases h
    rfl

theorem continueReading_sent (h : continueReading size fuel w s buffer = some (.ok (ok, buffer', w', s'))) :
    s'.sent = s.sent := by
  induction fuel generalizing w s buffer with
  | zero => cases h
  | succ fuel ih =>
    rw [continueReading] at h
    rcases hread : readReceive w s buffer with f | ⟨_ | _, buffer₁, w₁, s₁⟩
    · rw [hread] at h
      cases h
    · rw [hread] at h
      cases h
      exact readReceive_sent hread
    · rw [hread] at h
      simp only at h
      split_ifs at h
      · exact (ih h).trans (readReceive_sent hread)
      · cases h
        exact readReceive_sent hread

theorem receiveBody_sent (h : receiveBody fuel w s = some (.ok (ok, w', s'))) :
    s'.sent = s.sent ++ if w.expectsContinue then [expectResponse.message] else [] := by
  have hsent : (if w.expectsContinue then s.send { headerLine := "HTTP/1.0 100 Continue".toList } else s).sent =
      s.sent ++ if w.expectsContinue then [expectResponse.message] else [] := by
    split_ifs
    · rfl
    · exact (List.append_nil _).symm
  unfold receiveBody at h
  generalize (if w.expectsContinue then s.send { headerLine := "HTTP/1.0 100 Continue".toList } else s) = s₁ at h hsent
  rw [← hsent]
  cases hsize : w.messageSize with
  | error f =>
    rw [hsize] at h
    cases h
  | ok size =>
    rw [hsize] at h
    simp only at h
    generalize (if size ≠ -1 then { w with body := w.body.dropLast } else w) = w₂ at h
    by_cases hmore : w₂.expectsContinue = true ∨ size ≠ -1
    · rw [if_pos hmore] at h
      rcases hread : continueReading size fuel w₂ s₁ [] with _ | f | ⟨_ | _, buffer, w₃, s₃⟩
      · rw [hread] at h
        cases h
      · rw [hread] at h
        cases h
      · rw [hread] at h
        cases h
        exact continueReading_sent hread
      · rw [hread] at h
        cases h
        exact continueReading_sent hread
    · rw [if_neg hmore] at h
      cases h
      rfl

theorem receive_sent (h : receive fuel {} s = some (.ok (ok, w', s'))) :
    ∃ expects : Bool, s'.sent = s.sent ++ if expects then [expectResponse.message] else [] := by
  have hnone : s.sent = s.sent ++ if (false : Bool) then [expectResponse.message] else [] :=
    (List.append_nil _).symm
  unfold receive at h
  rcases hread : readReceive ({} : Web) s [] with f | ⟨_ | _, buffer, w₁, s₁⟩
  · rw [hread] at h
    cases h
  · rw [hread] at h
    cases h
    exact ⟨false, (readReceive_sent hread).trans hnone⟩
  rw [hread] at h
  simp only at h
  rcases hparse : w₁.parseReceive buffer false with ⟨_ | _, w₂⟩
  · rw [hparse] at h
    cases h
    exact ⟨false, (readReceive_sent hread).trans hnone⟩
  · rw [hparse] at h
    refine ⟨w₂.expectsContinue, ?_⟩
    rw [← readReceive_sent hread]
    exact receiveBody_sent h

/-- **What is sent while a request is read** is one interim message, or nothing. -/
theorem receiveRequest_sent {request : Request} (h : receiveRequest fuel s = some (.ok (ok, request, s'))) :
    ∃ expects : Bool, s'.sent = s.sent ++ if expects then [expectResponse.message] else [] := by
  unfold receiveRequest at h
  rcases hr : receive fuel {} s with _ | f | ⟨_ | _, w, s₁⟩
  · rw [hr] at h
    cases h
  · rw [hr] at h
    cases h
  · rw [hr] at h
    cases h
    exact receive_sent hr
  rw [hr] at h
  have hsame : s' = s₁ := by
    simp only at h
    split at h
    · split_ifs at h
      · cases h
        rfl
      · cases h
        rfl
    · cases h
      rfl
  rw [hsame]
  exact receive_sent hr

/-- The interim message, if there is one. -/
theorem interim_eq (fuel : ℕ) (a : Arrival) :
    ∃ expects : Bool, a.interim fuel = if expects then [expectResponse.message] else [] := by
  cases a with
  | failed => exact ⟨false, rfl⟩
  | connection socket sys parseOS =>
    rcases hr : receiveRequest fuel socket with _ | f | ⟨ok, request, s⟩
    · exact ⟨false, by simp [Arrival.interim, hr]⟩
    · exact ⟨false, by simp [Arrival.interim, hr]⟩
    · obtain ⟨expects, hsent⟩ := receiveRequest_sent hr
      refine ⟨expects, ?_⟩
      simp only [Arrival.interim, hr, hsent, List.drop_left]

end

/-! ## Whole runs -/

/-- The responses to a connection: at most two, each of one of the kinds there are. -/
structure Proper (responses : List Response) : Prop where
  standard : ∀ r ∈ responses, Standard r
  few : responses.length ≤ 2

theorem proper_nil : Proper [] := ⟨by simp, by simp⟩

theorem standard_ok (body : Text) : Standard { body := body } := ⟨List.mem_cons_self, rfl⟩

theorem standard_badRequest (body : Text) : Standard (badRequest body) :=
  ⟨List.mem_cons_of_mem _ List.mem_cons_self, rfl⟩

theorem setDefaultBootPartitionREST_standard (request : Request) :
    (setDefaultBootPartitionREST request).Sat (fun _ => True) Standard := by
  refine sat_bind (sat_true _) fun ok _ => ?_
  split_ifs
  · exact sat_pure (standard_ok _)
  · exact sat_pure (standard_badRequest _)

theorem installOSREST_standard (I : IntType) (sys : Sysfs) (autoReboot : Bool) (osInfo : Option OSInfo) :
    (installOSREST I sys autoReboot osInfo).Sat (fun _ => True) Standard := by
  cases osInfo with
  | none => exact sat_pure (standard_badRequest _)
  | some os =>
    refine sat_bind (sat_true _) fun _ _ => sat_bind (sat_true _) fun ok _ => ?_
    split_ifs
    · exact sat_pure ⟨by decide, rfl⟩
    · exact sat_pure ⟨by decide, rfl⟩
    · exact sat_pure ⟨by decide, rfl⟩

section

variable {I : IntType} {sys : Sysfs} {parseOS : Text → Except Fault (Option OSInfo)} {fuel : ℕ}
  {m : Machine} {request : Request} {c : Connection} {socket : Socket} {s : Serving} {a : Arrival}

theorem response_proper (hr : Standard r) (hc : c.responses = []) :
    Proper (afterCallback (.response r, c)).2.responses := by
  have hone : (afterCallback (.response r, c)).2.responses = [r] := by
    simp [afterCallback, Connection.sendResponse, hc]
  rw [hone]
  exact ⟨by simp [hr], by simp⟩

/-- Where a boot fails, the response is sent once more. -/
theorem sendAndBoot_proper (hr : Standard r) (hc : c.responses = []) :
    Proper (afterCallback (sendAndBoot r c)).2.responses := by
  have hresponses : (afterCallback (sendAndBoot r c)).2.responses = [r] ∨
      (afterCallback (sendAndBoot r c)).2.responses = [r, r] := by
    unfold sendAndBoot
    simp only
    split_ifs
    · exact Or.inl (by simp [afterCallback, Connection.sendResponse, hc])
    · exact Or.inr (by simp [afterCallback, Connection.sendResponse, hc])
  rcases hresponses with h | h
  · rw [h]
    exact ⟨by simp [hr], by simp⟩
  · rw [h]
    exact ⟨by simp [hr], by simp⟩

theorem installOSCallback_proper (request : Request) (hc : c.responses = []) :
    Proper (afterCallback (installOSCallback I sys parseOS request c)).2.responses := by
  unfold installOSCallback
  cases parseOS (cString request.body) with
  | error f =>
    show Proper c.responses
    rw [hc]
    exact proper_nil
  | ok osInfo =>
    have hstandard : Standard
        (c.machine.run (installOSREST I sys (request.header.contains "AutoReboot".toList) osInfo)).1 :=
      (installOSREST_standard I sys _ osInfo).run c.machine
    simp only
    split_ifs
    · exact sendAndBoot_proper hstandard hc
    · exact response_proper hstandard hc

/-- What a connection is answered. -/
theorem serveConnection_proper {ending : Ending}
    (h : serveConnection I sys parseOS fuel socket m = some (ending, c)) : Proper c.responses := by
  unfold serveConnection at h
  rcases hr : receiveRequest fuel socket with _ | f | ⟨_ | _, request, socket'⟩
  · rw [hr] at h
    cases h
  · rw [hr] at h
    obtain rfl := congrArg Prod.snd (Option.some.inj h)
    exact proper_nil
  · rw [hr] at h
    obtain rfl := congrArg Prod.snd (Option.some.inj h)
    exact response_proper (standard_badRequest _) rfl
  rw [hr] at h
  simp only [matchRoute_routes] at h
  by_cases hos : request.PostsTo "/os"
  · rw [if_pos hos] at h
    obtain rfl := congrArg Prod.snd (Option.some.inj h)
    exact installOSCallback_proper request rfl
  rw [if_neg hos] at h
  by_cases hset : request.PostsTo "/bootPartition"
  · rw [if_pos hset] at h
    obtain rfl := congrArg Prod.snd (Option.some.inj h)
    have hstandard : Standard (m.run (setDefaultBootPartitionREST request)).1 :=
      (setDefaultBootPartitionREST_standard request).run m
    exact response_proper hstandard rfl
  rw [if_neg hset] at h
  by_cases hboot : request.PostsTo "/reboot"
  · rw [if_pos hboot] at h
    obtain rfl := congrArg Prod.snd (Option.some.inj h)
    exact sendAndBoot_proper (standard_ok _) rfl
  rw [if_neg hboot] at h
  by_cases hexit : request.PostsTo "/exit"
  · rw [if_pos hexit] at h
    obtain rfl := congrArg Prod.snd (Option.some.inj h)
    exact response_proper (standard_ok _) rfl
  · rw [if_neg hexit] at h
    obtain rfl := congrArg Prod.snd (Option.some.inj h)
    exact response_proper ⟨by decide, rfl⟩ rfl

/-- The arrival is a connection that was served, with these responses. -/
def Served (I : IntType) (fuel : ℕ) : Arrival → List Response → Prop
  | .failed, _ => False
  | .connection socket sys parseOS, rs =>
    ∃ m ending c, serveConnection I sys parseOS fuel socket m = some (ending, c) ∧ c.responses = rs

/-- One more arrival. -/
theorem accept_served (s : Serving) (a : Arrival) : (s.accept I fuel a).responses = s.responses ∨
    ∃ rs, (s.accept I fuel a).responses = s.responses ++ [rs] ∧ Served I fuel a rs := by
  unfold Serving.accept
  split
  · rename_i socket sys parseOS _
    cases hserve : serveConnection I sys parseOS fuel socket s.machine with
    | none => exact Or.inl rfl
    | some r => exact Or.inr ⟨r.2.responses, rfl, s.machine, r.1, r.2, hserve, rfl⟩
  · exact Or.inl rfl

/-- The responses are those to connections, in their order. -/
theorem accepts_served (s : Serving) (arrivals : List Arrival) : ∃ served new, served.Sublist arrivals ∧
    (arrivals.foldl (Serving.accept I fuel) s).responses = s.responses ++ new ∧
    List.Forall₂ (Served I fuel) served new := by
  induction arrivals generalizing s with
  | nil => exact ⟨[], [], List.Sublist.refl _, (List.append_nil _).symm, List.Forall₂.nil⟩
  | cons a arrivals ih =>
    obtain ⟨served, new, hsub, hnew, hserved⟩ := ih (s.accept I fuel a)
    rw [List.foldl_cons, hnew]
    rcases accept_served s a with h | ⟨rs, h, ha⟩
    · exact ⟨served, new, hsub.cons a, by rw [h], hserved⟩
    · refine ⟨a :: served, rs :: new, hsub.cons_cons a, ?_, List.Forall₂.cons ha hserved⟩
      rw [h, List.append_assoc]
      rfl

theorem Served.proper {rs : List Response} (h : Served I fuel a rs) : Proper rs := by
  cases a with
  | failed => exact h.elim
  | connection socket sys parseOS =>
    obtain ⟨m, ending, c, hserve, rfl⟩ := h
    exact serveConnection_proper hserve

/-- A client that reads what it is sent, whenever the responses are made, gets just these,
behind an interim message perhaps; they are two at most, and the header of each fits into
its buffer. -/
structure ReadBack (fuel : ℕ) (a : Arrival) (rs : List Response) : Prop where
  read : ∀ responses : List (Response × Tm), responses.map Prod.fst = rs →
    ∃ expects, readReplies (a.stream fuel responses) = some (replies expects responses)
  few : rs.length ≤ 2
  fits : ∀ r ∈ rs, (cString r.body).length < 2 ^ 64 → ∀ t : Tm,
    (r.prepared t.date).headerText.length < headerBuffer

theorem Proper.readBack {rs : List Response} (h : Proper rs) (fuel : ℕ) (a : Arrival) : ReadBack fuel a rs := by
  refine ⟨?_, h.few, fun r hr hbody t => headerText_fits (h.standard r hr) hbody t⟩
  rintro responses rfl
  obtain ⟨expects, hinterim⟩ := interim_eq fuel a
  refine ⟨expects, readFrames_flatten ?_ (Nat.le_refl _)⟩
  rw [hinterim]
  refine List.rel_append ?_ ?_
  · split_ifs
    · exact List.Forall₂.cons readsAs_expectResponse List.Forall₂.nil
    · exact List.Forall₂.nil
  · rw [List.forall₂_map_left_iff, List.forall₂_map_right_iff, List.forall₂_same]
    exact fun r hr => readsAs_prepared (h.standard r.1 (List.mem_map_of_mem hr)) r.2

/-- **What a client is sent reads back as the responses made**, whatever arrives: the server
answers connections one after the other, and nothing in a request can get into a header, or
make of a response anything but one response. -/
theorem responses_read_back (I : IntType) (fuel : ℕ) (arrivals : List Arrival) (m : Machine) :
    ∃ served, served.Sublist arrivals ∧
      List.Forall₂ (fun a rs => Served I fuel a rs ∧ ReadBack fuel a rs) served
        (start I fuel arrivals m).responses := by
  obtain ⟨served, new, hsub, hnew, hserved⟩ := @accepts_served I fuel { machine := m } arrivals
  have hresponses : (start I fuel arrivals m).responses = new := hnew.trans (List.nil_append new)
  rw [hresponses]
  exact ⟨served, hsub, hserved.imp fun a rs h => ⟨h, h.proper.readBack fuel a⟩⟩

end

end Noobs
