import Noobs.Proof.Number
import Noobs.Proof.Parse
import Noobs.Spec.Scalar

/-!
# What is made of an operating system's JSON

* `numbers_exact_iff`: **numbers are stored exactly or rejected** just for integers of an
  `int`.
* `model_step_iff`: **unsupported hardware is refused** just for JSON whose list of models
  cannot be read, or names the device's.
* `metadata_failure_iff`: **a failed download invalidates the operating system** just if it
  is not that of `os_info`, or something else is wrong.
-/

namespace Noobs

open Attempt

variable {S : Type} {json : Json S} {openSocket : ℕ → Text → ℕ → Option Socket} {fuel : ℕ}
  {parse : Text → Option (Variant Scalar)} {shown : ℚ → Text}

/-! ## Numbers -/

/-- The keys of the integers among a partition's fields, and the fields. -/
def integerFields : List (String × (PartitionInfo → ℤ)) :=
  [("offset_in_sectors", PartitionInfo.offset),
    ("partition_size_nominal", PartitionInfo.partitionSizeNominal),
    ("requires_partition_number", PartitionInfo.requiresPartitionNumber),
    ("uncompressed_tarball_size", PartitionInfo.uncompressedTarballSize)]

/-- The value is a number, and an integer that an `int` can hold. -/
def IntValue (v : Variant Scalar) (n : ℤ) : Prop :=
  (v = .scalar (.long n) ∨ v = .scalar (.double n)) ∧ -2 ^ 31 ≤ n ∧ n < 2 ^ 31

/-- A valid partition's fields are what `parseEntry` wrote to them. -/
theorem parse_integerFields {partInfo : VariantMap S} {tarball : Text} {p : PartitionInfo}
    (h : PartitionInfo.parse json partInfo tarball = some p) :
    ∀ f ∈ integerFields, f.2 p = (parseEntry json.int partInfo f.1 0 true).getD 0 := by
  obtain ⟨fsType, -, hp⟩ := Option.bind_eq_some_iff.1 h
  obtain rfl := Option.some.inj hp
  intro f hf
  simp only [integerFields, List.mem_cons, List.not_mem_nil, or_false] at hf
  rcases hf with rfl | rfl | rfl | rfl <;> rfl

/-- Only the file system type decides whether a partition is valid. -/
theorem parse_isSome_iff {partInfo : VariantMap S} (tarball : Text) :
    (PartitionInfo.parse json partInfo tarball).isSome ↔
      (parseEntry json.bytes partInfo "filesystem_type" [] false).isSome := by
  unfold PartitionInfo.parse
  cases parseEntry json.bytes partInfo "filesystem_type" [] false <;> simp

/-- **An integer of an `int` is read as it is.** -/
theorem int_of_intValue {v : Variant Scalar} {n : ℤ} (h : IntValue v n) :
    (qt4 parse shown).int v = some n := by
  obtain ⟨hv, h1, h2⟩ := h
  have hn : int32 n = n := int32_eq h1 h2
  rcases hv with rfl | rfl
  · exact congrArg some hn
  · have hround : Scalar.qRound64 n = n := by
      unfold Scalar.qRound64
      rw [Int.floor_intCast_add]
      norm_num
    show some (int32 (Scalar.qRound64 n)) = some n
    rw [hround, hn]

/-- **Numbers are stored exactly or rejected**, just if each is an integer of an `int`, or
the file system type leaves the partition invalid. -/
theorem numbers_exact_iff (parse : Text → Option (Variant Scalar)) (shown : ℚ → Text)
    (partInfo : VariantMap Scalar) (tarball : Text) :
    (∀ p, PartitionInfo.parse (qt4 parse shown) partInfo tarball = some p → ∀ f ∈ integerFields,
      ∀ v, partInfo.lookup f.1.toList = some v → IntValue v (f.2 p)) ↔
    parseEntry (qt4 parse shown).bytes partInfo "filesystem_type" [] false = none ∨
      ∀ f ∈ integerFields, ∀ v, partInfo.lookup f.1.toList = some v → ∃ n, IntValue v n := by
  cases hfs : parseEntry (qt4 parse shown).bytes partInfo "filesystem_type" [] false with
  | none =>
    refine iff_of_true (fun p hp => ?_) (Or.inl rfl)
    have hsome := (parse_isSome_iff _).1 (Option.isSome_iff_exists.2 ⟨p, hp⟩)
    rw [hfs] at hsome
    cases hsome
  | some fsType =>
    have hvalid := (parse_isSome_iff tarball).2 (Option.isSome_iff_exists.2 ⟨fsType, hfs⟩)
    obtain ⟨p, hp⟩ := Option.isSome_iff_exists.1 hvalid
    constructor
    · intro h
      exact Or.inr fun f hf v hv => ⟨f.2 p, h p hp f hf v hv⟩
    · intro h q hq f hf v hv
      have hints := h.resolve_left fun h => by cases h
      obtain ⟨n, hn⟩ := hints f hf v hv
      have hentry : parseEntry (qt4 parse shown).int partInfo f.1 0 true = some n := by
        unfold parseEntry
        rw [hv]
        exact int_of_intValue hn
      rw [parse_integerFields hq f hf, hentry]
      exact hn

/-- A size of 2^32 + 2 MB and an offset that is no number. -/
def truncatedPartition : VariantMap Scalar :=
  [("filesystem_type".toList, .scalar (.string "ext4".toList)),
    ("partition_size_nominal".toList, .scalar (.long 4294967298)),
    ("offset_in_sectors".toList, .list [])]

/-- The size is cut off and the offset ignored, and the partition is valid. -/
theorem truncated_is_valid :
    ∃ p, PartitionInfo.parse (qt4 (fun _ => none) fun _ => []) truncatedPartition [] = some p ∧
      p.partitionSizeNominal = 2 ∧ p.offset = 0 :=
  ⟨_, rfl, by decide, rfl⟩

/-! ## The device model -/

/-- The model-support step of `parseOS` lets the JSON pass. -/
def PassesModelStep (json : Json S) (model : Text) (source : VariantMap S) : Prop :=
  ∃ models, parseEntry json.texts source "supported_models" [] true = some models ∧
    modelSupported model models = true

/-- A list of strings. -/
def strings (texts : List Text) : Variant Scalar := .list (texts.map fun t => .scalar (.string t))

/-- What the step is there for: no models are listed, or one of them is contained in the
device's. -/
def ModelListed (contained : Text → Text → Prop) (model : Text) (source : VariantMap Scalar) : Prop :=
  source.lookup "supported_models".toList = none ∨
    ∃ texts, source.lookup "supported_models".toList = some (strings texts) ∧ ∃ t ∈ texts, contained model t

theorem strings_injective {texts texts' : List Text} (h : strings texts = strings texts') : texts = texts' := by
  refine List.map_injective_iff.2 (fun t t' ht => ?_) (Variant.list.inj h)
  exact Scalar.string.inj (Variant.scalar.inj ht)

/-- The value is neither a list nor a string. -/
def NoStrings : Variant Scalar → Prop
  | .list _ => False
  | .scalar (.string _) => False
  | _ => True

/-- The loop starts from `true`, so no model is refused. -/
theorem modelSupported_eq (model : Text) (models : List Text) : modelSupported model models = true := by
  unfold modelSupported
  induction models with
  | nil => rfl
  | cons m models ih => exact ih

/-- The step is one of those of `parseOS`. -/
theorem passes_of_parseOS {model : Text} {source : VariantMap S} {os : OSInfo}
    (h : parseOS json openSocket fuel model source = .done os) : PassesModelStep json model source := by
  obtain ⟨name, -, h⟩ := bind_eq_done.1 h
  dsimp only at h
  split_ifs at h
  obtain ⟨models, hmodels, -⟩ := bind_eq_done.1 h
  exact ⟨models, ofOption_eq_done.1 hmodels, modelSupported_eq model models⟩

theorem texts_eq_none (parse : Text → Option (Variant Scalar)) (shown : ℚ → Text) {v : Variant Scalar} :
    (qt4 parse shown).texts v = none ↔ NoStrings v := by
  cases v with
  | scalar s => cases s <;> simp [Json.texts, qt4, Scalar.toTexts, NoStrings]
  | list vs => simp [Json.texts, NoStrings]
  | map entries => simp [Json.texts, NoStrings]

/-- **Every model passes** unless the list of models cannot be read. -/
theorem passesModelStep_iff {model : Text} {source : VariantMap Scalar} :
    PassesModelStep (qt4 parse shown) model source ↔
      ∀ v, source.lookup "supported_models".toList = some v → ¬NoStrings v := by
  unfold PassesModelStep parseEntry
  cases hlookup : source.lookup "supported_models".toList with
  | none => simp [modelSupported_eq]
  | some v =>
    simp only [modelSupported_eq, and_true, Option.some.injEq, forall_eq', ← texts_eq_none parse shown]
    exact Option.ne_none_iff_exists'.symm

/-- **Unsupported hardware is refused** just for JSON without a list of models, with one
that cannot be read, or with one that names the device's model, whatever it means to be
contained in it. -/
theorem model_step_iff (parse : Text → Option (Variant Scalar)) (shown : ℚ → Text)
    (contained : Text → Text → Prop) (model : Text) (source : VariantMap Scalar) :
    (PassesModelStep (qt4 parse shown) model source ↔ ModelListed contained model source) ↔
      ∀ v, source.lookup "supported_models".toList = some v →
        NoStrings v ∨ ∃ texts, v = strings texts ∧ ∃ t ∈ texts, contained model t := by
  rw [passesModelStep_iff]
  unfold ModelListed
  cases hlookup : source.lookup "supported_models".toList with
  | none => simp
  | some v =>
    simp only [Option.some.injEq, forall_eq', reduceCtorEq, false_or]
    constructor
    · intro h
      by_cases hv : NoStrings v
      · exact Or.inl hv
      · exact Or.inr (h.1 hv)
    · rintro (hv | ⟨texts, rfl, ht⟩)
      · refine iff_of_false (not_not.2 hv) ?_
        rintro ⟨texts, rfl, -⟩
        exact hv
      · exact iff_of_true id ⟨texts, rfl, ht⟩

/-- An image for the Raspberry Pi 2 passes on the first one. -/
theorem wrong_model_passes :
    PassesModelStep (qt4 (fun _ => none) fun _ => []) "Raspberry Pi Model B Rev 2".toList
        [("supported_models".toList, strings ["Pi 2".toList])] ∧
      ¬ModelListed (fun s needle => containsInsensitive s needle = true) "Raspberry Pi Model B Rev 2".toList
        [("supported_models".toList, strings ["Pi 2".toList])] := by
  refine ⟨⟨["Pi 2".toList], rfl, rfl⟩, ?_⟩
  rintro (h | ⟨texts, h, t, ht, hcontained⟩)
  · have hsome : some (strings ["Pi 2".toList]) = none := h
    cases hsome
  · obtain rfl := strings_injective (Option.some.inj h)
    obtain rfl := List.mem_singleton.1 ht
    exact absurd hcontained (by decide)

/-! ## Downloads that fail -/

/-- The answer to a download is empty, or no JSON object. -/
def NoObject (json : Json S) (response : Text) : Prop :=
  response = [] ∨ (json.parse response).bind Json.map = none

/-- The download of `os_info` fails. -/
def InfoFailed (json : Json S) (openSocket : ℕ → Text → ℕ → Option Socket) (fuel : ℕ)
    (source : VariantMap S) : Prop :=
  ∃ url response, parseEntry json.text source "os_info" [] false = some url ∧
    downloadRessource (openSocket 0) fuel url = .done response ∧ NoObject json response

/-- The download of `partitions_info` fails. -/
def PartitionsFailed (json : Json S) (openSocket : ℕ → Text → ℕ → Option Socket) (fuel : ℕ)
    (source : VariantMap S) : Prop :=
  ∃ url response, parseEntry json.text source "partitions_info" [] false = some url ∧
    downloadRessource (openSocket 1) fuel url = .done response ∧ NoObject json response

/-- The download of a `partition_setup` that is not empty fails. -/
def SetupFailed (json : Json S) (openSocket : ℕ → Text → ℕ → Option Socket) (fuel : ℕ)
    (source : VariantMap S) : Prop :=
  ∃ url, parseEntry json.text source "partition_setup" [] true = some url ∧ url ≠ [] ∧
    downloadRessource (openSocket 2) fuel url = .done []

/-- Nothing but `os_info` can leave the operating system invalid. -/
structure OtherwiseValid (json : Json S) (openSocket : ℕ → Text → ℕ → Option Socket) (fuel : ℕ)
    (source : VariantMap S) : Prop where
  bootable : ∃ name, ((parseEntry json.text source "name" [] false).orElse fun _ =>
      parseEntry json.text source "os_name" [] false) = some name ∧
    (parseEntry json.bool source "bootable" false false).getD
      (!containsInsensitive name "Data Partition".toList) = true
  models : (parseEntry json.texts source "supported_models" [] true).isSome
  partitions : ∃ tarballs url list, parseEntry json.texts source "tarballs" [] false = some tarballs ∧
    parseEntry json.text source "partitions_info" [] false = some url ∧
    downloadPartitions json openSocket fuel url = .done list ∧ tarballs.length ≤ list.length ∧
    ∀ v ∈ list, ∃ partInfo, Json.map v = some partInfo ∧
      (parseEntry json.bytes partInfo "filesystem_type" [] false).isSome
  setup : ∃ url, parseEntry json.text source "partition_setup" [] true = some url ∧
    (url = [] ∨ ∃ script, script ≠ [] ∧ downloadRessource (openSocket 2) fuel url = .done script)

variable {source : VariantMap S} {url model : Text}

theorem parseJson_noObject (hempty : json.parse [] = none) {response : Text} (h : NoObject json response) :
    json.parseJson response = [] := by
  unfold Json.parseJson
  rcases h with rfl | h
  · rw [hempty]
    rfl
  · rw [h]
    rfl

theorem parseEntry_nil {α : Type} (value : Variant S → Option α) (key : String) (target : α) (optional : Bool) :
    parseEntry value [] key target optional = if optional then some target else none := rfl

theorem done_bind {α β : Type} (a : α) (f : α → Attempt β) : Attempt.done a >>= f = f a := rfl

/-- **An `os_info` that fails changes nothing.** -/
theorem parseOSInfo_failed (hempty : json.parse [] = none) {response : Text} (os : OSInfo)
    (hdone : downloadRessource (openSocket 0) fuel url = .done response) (h : NoObject json response)
    (hboot : os.bootable = true) : os.parseOSInfo json openSocket fuel url = .done os := by
  unfold OSInfo.parseOSInfo
  simp only [hdone, done_bind, parseJson_noObject hempty h, parseEntry_nil, if_true, Option.getD_some, hboot]
  have heta : os = { os with bootable := true } := by rw [← hboot]
  exact congrArg Attempt.done heta.symm

theorem downloadPartitions_failed (hempty : json.parse [] = none) {response : Text}
    (hdone : downloadRessource (openSocket 1) fuel url = .done response) (h : NoObject json response) :
    downloadPartitions json openSocket fuel url = .invalid := by
  unfold downloadPartitions
  simp only [hdone, done_bind, parseJson_noObject hempty h, parseEntry_nil]
  rfl

/-- A list is read just if all of it are partitions with a file system type. -/
theorem readPartitions_isSome_iff (tarballs : List Text) {list : List (Variant S)} (i : ℕ) :
    (readPartitions json tarballs i list).isSome ↔ ∀ v ∈ list, ∃ partInfo, Json.map v = some partInfo ∧
      (parseEntry json.bytes partInfo "filesystem_type" [] false).isSome := by
  induction list generalizing i with
  | nil => simp [readPartitions]
  | cons v list ih =>
    rw [readPartitions, List.forall_mem_cons, ← ih (i := i + 1)]
    constructor
    · intro h
      obtain ⟨ps, hps⟩ := Option.isSome_iff_exists.1 h
      obtain ⟨partInfo, hmap, hps⟩ := Option.bind_eq_some_iff.1 hps
      obtain ⟨p, hp, hps⟩ := Option.bind_eq_some_iff.1 hps
      obtain ⟨rest, hrest, -⟩ := Option.bind_eq_some_iff.1 hps
      exact ⟨⟨partInfo, hmap, (parse_isSome_iff _).1 (Option.isSome_iff_exists.2 ⟨p, hp⟩)⟩,
        Option.isSome_iff_exists.2 ⟨rest, hrest⟩⟩
    · rintro ⟨⟨partInfo, hmap, hfs⟩, hrest⟩
      obtain ⟨p, hp⟩ := Option.isSome_iff_exists.1
        ((parse_isSome_iff (tarballs.getD i [])).2 hfs)
      obtain ⟨rest, hrest⟩ := Option.isSome_iff_exists.1 hrest
      rw [hmap]
      show (PartitionInfo.parse json partInfo (tarballs.getD i []) >>= fun p =>
        readPartitions json tarballs (i + 1) list >>= fun ps => pure (p :: ps)).isSome = true
      rw [hp, hrest]
      rfl

/-- The partitions are valid just if the list was downloaded, is long enough and can be read. -/
theorem parsePartitionInfo_done_iff {tarballs : List Text} :
    (∃ ps, parsePartitionInfo json openSocket fuel tarballs url = .done ps) ↔
      ∃ list, downloadPartitions json openSocket fuel url = .done list ∧ tarballs.length ≤ list.length ∧
        ∀ v ∈ list, ∃ partInfo, Json.map v = some partInfo ∧
          (parseEntry json.bytes partInfo "filesystem_type" [] false).isSome := by
  constructor
  · rintro ⟨ps, h⟩
    obtain ⟨list, hlist, h⟩ := bind_eq_done.1 h
    split_ifs at h with hlen
    exact ⟨list, hlist, not_lt.1 hlen,
      (readPartitions_isSome_iff _ _).1 (Option.isSome_iff_exists.2 ⟨ps, ofOption_eq_done.1 h⟩)⟩
  · rintro ⟨list, hlist, hlen, hall⟩
    obtain ⟨ps, hps⟩ := Option.isSome_iff_exists.1
      ((readPartitions_isSome_iff (fillTarballs tarballs list.length) 0).2 hall)
    refine ⟨ps, ?_⟩
    unfold parsePartitionInfo
    rw [hlist, done_bind, if_neg (not_lt.2 hlen), hps]
    rfl

/-- The script is there just if none is named, or something was downloaded. -/
theorem downloadSetup_done_iff : (∃ script, downloadSetup openSocket fuel url = .done script) ↔
    url = [] ∨ ∃ script, script ≠ [] ∧ downloadRessource (openSocket 2) fuel url = .done script := by
  unfold downloadSetup
  by_cases hurl : url = []
  · rw [if_pos hurl]
    exact iff_of_true ⟨[], rfl⟩ (Or.inl hurl)
  · rw [if_neg hurl]
    constructor
    · rintro ⟨script, h⟩
      obtain ⟨script, hdone, h⟩ := bind_eq_done.1 h
      split_ifs at h with hempty
      exact Or.inr ⟨script, hempty, hdone⟩
    · rintro (h | ⟨script, hne, hdone⟩)
      · exact absurd h hurl
      · refine ⟨script, ?_⟩
        rw [hdone, done_bind, if_neg hne]
        rfl

/-- What holds of every valid operating system. -/
theorem otherwiseValid_of_parseOS {os : OSInfo} (h : parseOS json openSocket fuel model source = .done os) :
    OtherwiseValid json openSocket fuel source := by
  obtain ⟨name, hname, h⟩ := bind_eq_done.1 h
  dsimp only at h
  split_ifs at h with hboot
  obtain ⟨models, hmodels, h⟩ := bind_eq_done.1 h
  split_ifs at h
  obtain ⟨tarballs, htarballs, h⟩ := bind_eq_done.1 h
  obtain ⟨_, -, h⟩ := bind_eq_done.1 h
  obtain ⟨_, -, h⟩ := bind_eq_done.1 h
  obtain ⟨url, hurl, h⟩ := bind_eq_done.1 h
  obtain ⟨ps, hps, h⟩ := bind_eq_done.1 h
  obtain ⟨setupUrl, hsetup, h⟩ := bind_eq_done.1 h
  obtain ⟨script, hscript, -⟩ := bind_eq_done.1 h
  obtain ⟨list, hlist⟩ := parsePartitionInfo_done_iff.1 ⟨ps, hps⟩
  refine ⟨⟨name, ofOption_eq_done.1 hname, by simpa using hboot⟩, ?_, ?_, ?_⟩
  · exact Option.isSome_iff_exists.2 ⟨models, ofOption_eq_done.1 hmodels⟩
  · exact ⟨tarballs, url, list, ofOption_eq_done.1 htarballs, ofOption_eq_done.1 hurl, hlist⟩
  · exact ⟨setupUrl, ofOption_eq_done.1 hsetup, downloadSetup_done_iff.1 ⟨script, hscript⟩⟩

/-- **An operating system that is otherwise valid** is valid although its `os_info` fails. -/
theorem parseOS_of_infoFailed (hempty : json.parse [] = none) (h : InfoFailed json openSocket fuel source)
    (hvalid : OtherwiseValid json openSocket fuel source) :
    ∃ os, parseOS json openSocket fuel model source = .done os := by
  obtain ⟨infoUrl, response, hinfo, hdone, hfailed⟩ := h
  obtain ⟨⟨name, hname, hboot⟩, hmodels, ⟨tarballs, url, list, htarballs, hurl, hlist⟩, setupUrl, hsetup, hscript⟩ :=
    hvalid
  obtain ⟨models, hmodels⟩ := Option.isSome_iff_exists.1 hmodels
  obtain ⟨ps, hps⟩ := parsePartitionInfo_done_iff.2 ⟨list, hlist⟩
  obtain ⟨script, hscript⟩ := downloadSetup_done_iff.2 hscript
  have hos := parseOSInfo_failed hempty { name := name, bootable := true } hdone hfailed rfl
  refine ⟨{ name := name, partitions := ps, partitionSetupScript := script }, ?_⟩
  unfold parseOS
  simp only [hname, hboot, hmodels, htarballs, hinfo, hurl, hsetup, ofOption, done_bind, Bool.not_true,
    Bool.false_eq_true, if_false, modelSupported_eq, hos, hps, hscript]
  rfl

/-- **A failed download invalidates the operating system** just if it is not that of
`os_info`, or something else is wrong. -/
theorem metadata_failure_iff (json : Json S) (hempty : json.parse [] = none)
    (openSocket : ℕ → Text → ℕ → Option Socket) (fuel : ℕ) (model : Text) (source : VariantMap S) :
    (InfoFailed json openSocket fuel source ∨ PartitionsFailed json openSocket fuel source ∨
        SetupFailed json openSocket fuel source →
      ¬∃ os, parseOS json openSocket fuel model source = .done os) ↔
    (InfoFailed json openSocket fuel source → ¬OtherwiseValid json openSocket fuel source) := by
  constructor
  · intro h hinfo hvalid
    exact h (Or.inl hinfo) (parseOS_of_infoFailed hempty hinfo hvalid)
  · rintro h hfailed ⟨os, hos⟩
    have hvalid := otherwiseValid_of_parseOS hos
    rcases hfailed with hinfo | ⟨url, response, hurl, hdone, hfailed⟩ | ⟨url, hurl, hne, hdone⟩
    · exact h hinfo hvalid
    · -- without an object there is no list of partitions
      obtain ⟨tarballs, url', list, -, hurl', hlist, -⟩ := hvalid.partitions
      obtain rfl : url = url' := Option.some.inj (hurl.symm.trans hurl')
      rw [downloadPartitions_failed hempty hdone hfailed] at hlist
      cases hlist
    · obtain ⟨url', hurl', hscript⟩ := hvalid.setup
      obtain rfl : url = url' := Option.some.inj (hurl.symm.trans hurl')
      obtain ⟨script, hscript, hdone'⟩ := hscript.resolve_left hne
      exact hscript (Attempt.done.inj (hdone'.symm.trans hdone))

/-- JSON whose only document lists one partition. -/
def onePartitionJson : Json Scalar :=
  qt4 (fun t => if t = [] then none else
    some (.map [("partitions".toList, .list [.map [("filesystem_type".toList, .scalar (.string "ext4".toList))]])]))
    fun _ => []

/-- Nothing can be downloaded but that document, in place of the list of partitions. -/
def onePartitionSocket (n : ℕ) : Option Socket :=
  if n = 1 then
    some { events := [.chunk ⟨("HTTP/1.1 200 OK\r\n\r\n\x7b\"partitions\":" ++
        "[\x7b\"filesystem_type\":\"ext4\"\x7d]\x7d\n").toList, by decide, by decide⟩], idle := .eof }
  else none

def onePartitionSource : VariantMap Scalar :=
  [("name".toList, .scalar (.string "Demo".toList)), ("tarballs".toList, .list []),
    ("os_info".toList, .scalar (.string "http://localhost/os_info.json".toList)),
    ("partitions_info".toList, .scalar (.string "http://localhost/partitions.json".toList))]

/-- The operating system is valid, and nothing is known of it. -/
theorem unknown_os_valid :
    InfoFailed onePartitionJson (fun n _ _ => onePartitionSocket n) 2 onePartitionSource ∧
      ∃ os, parseOS onePartitionJson (fun n _ _ => onePartitionSocket n) 2 [] onePartitionSource = .done os :=
  ⟨⟨_, [], rfl, rfl, Or.inl rfl⟩, _, rfl⟩

theorem demo_invalidated :
    ¬∃ os, parseOS onePartitionJson (fun _ _ _ => none) 2 [] onePartitionSource = .done os := by
  refine (metadata_failure_iff onePartitionJson rfl (fun _ _ _ => none) 2 [] onePartitionSource).2 ?_
    (Or.inr (Or.inl ⟨_, [], rfl, rfl, Or.inl rfl⟩))
  intro _ hvalid
  obtain ⟨tarballs, url, list, -, hurl, hlist, -⟩ := hvalid.partitions
  obtain rfl : "http://localhost/partitions.json".toList = url := Option.some.inj hurl
  have hinvalid : downloadPartitions onePartitionJson (fun _ _ _ => none) 2
      "http://localhost/partitions.json".toList = .invalid := rfl
  rw [hinvalid] at hlist
  cases hlist

end Noobs
