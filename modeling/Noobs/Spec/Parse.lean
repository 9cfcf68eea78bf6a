import Noobs.Spec.Client

/-!
# Parsing an operating system

`OSInfo::OSInfo` (`recovery/OSInfo.cpp`) and `PartitionInfo::PartitionInfo`
(`recovery/PartitionInfo.cpp`) read from JSON what is to be installed, and download the
rest of what they need to know.

The JSON parser and the conversions of what is neither a list nor an object are
parameters, as is what each download (`os_info`, the partitions, the setup script)
connects to. Logging is left out, and with it the fields that nobody else reads.
-/

namespace Noobs

/-! ## JSON -/

/-- A `QVariant` that comes of JSON. The entries of an object are found by their keys. -/
inductive Variant (S : Type) where
  | scalar (s : S)
  | list (vs : List (Variant S))
  | map (entries : List (Text × Variant S))

/-- A `QVariantMap`. -/
abbrev VariantMap (S : Type) := List (Text × Variant S)

/-- `QJson::Parser::parse`, and `QVariant`'s `canConvert` and `value` for scalars. -/
structure Json (S : Type) where
  parse : Text → Option (Variant S)
  toText : S → Option Text
  toBytes : S → Option Text
  toTexts : S → Option (List Text)
  toInt : S → Option ℤ
  toBool : S → Option Bool

namespace Json

variable {S : Type} (json : Json S)

def scalar {α : Type} (convert : S → Option α) : Variant S → Option α
  | .scalar s => convert s
  | _ => none

/-- `QString` -/
def text : Variant S → Option Text := scalar json.toText

/-- `QByteArray` -/
def bytes : Variant S → Option Text := scalar json.toBytes

/-- `int` -/
def int : Variant S → Option ℤ := scalar json.toInt

/-- `bool` -/
def bool : Variant S → Option Bool := scalar json.toBool

/-- `QStringList`. What is no string in a list becomes the empty one. -/
def texts : Variant S → Option (List Text)
  | .scalar s => json.toTexts s
  | .list vs => some (vs.map fun v => (json.text v).getD [])
  | .map _ => none

/-- `QVariantList` -/
def list : Variant S → Option (List (Variant S))
  | .list vs => some vs
  | _ => none

/-- `QVariantMap` -/
def map : Variant S → Option (VariantMap S)
  | .map entries => some entries
  | _ => none

/-- `Utility::Json::parseJson`. What is no object becomes the empty one. -/
def parseJson (jsonArray : Text) : VariantMap S :=
  ((json.parse jsonArray).bind map).getD []

end Json

/-- `Utility::Json::parseEntry`: what is in the target if it returns `true`. -/
def parseEntry {S α : Type} (value : Variant S → Option α) (source : VariantMap S) (key : String)
    (target : α) (optional : Bool) : Option α :=
  match source.lookup key.toList with
  | some v => value v
  | none => if optional then some target else none

/-! ## Partitions -/

section

variable {S : Type} (json : Json S)

/-- The partition type that a file system type suggests. -/
def typeOf (fsType : Text) : Text :=
  if containsInsensitive fsType "fat".toList then "0c".toList
  else if containsInsensitive fsType "swap".toList then "82".toList
  else if containsInsensitive fsType "ntfs".toList then "07".toList
  else "83".toList

/-- `PartitionInfo::PartitionInfo` with `PartitionInfo::parsePartitionInfo`, if what it makes
is valid. Only the file system type has to be there and of the right type. -/
def PartitionInfo.parse (partInfo : VariantMap S) (tarball : Text) : Option PartitionInfo := do
  let fsType ← parseEntry json.bytes partInfo "filesystem_type" [] false
  return {
    fsType := fsType
    partitionType := (parseEntry json.bytes partInfo "partition_type" [] false).getD (typeOf fsType)
    mkfsOptions := (parseEntry json.bytes partInfo "mkfs_options" [] true).getD []
    label := (parseEntry json.bytes partInfo "label" [] true).getD []
    tarball := tarball
    offset := (parseEntry json.int partInfo "offset_in_sectors" 0 true).getD 0
    partitionSizeNominal := (parseEntry json.int partInfo "partition_size_nominal" 0 true).getD 0
    requiresPartitionNumber :=
      (parseEntry json.int partInfo "requires_partition_number" 0 true).getD 0
    uncompressedTarballSize :=
      (parseEntry json.int partInfo "uncompressed_tarball_size" 0 true).getD 0
    wantMaximised := (parseEntry json.bool partInfo "want_maximised" false true).getD false
    emptyFS := (parseEntry json.bool partInfo "empty_fs" false true).getD false
    active := (parseEntry json.bool partInfo "active" false true).getD false }

/-- The loop of `OSInfo::parsePartitionInfo` over the list; `i` counts the partitions. -/
def readPartitions (tarballs : List Text) : (i : ℕ) → List (Variant S) → Option (List PartitionInfo)
  | _, [] => some []
  | i, partition :: rest => do
    let partInfo ← Json.map partition
    let p ← PartitionInfo.parse json partInfo (tarballs.getD i [])
    let ps ← readPartitions tarballs (i + 1) rest
    return p :: ps

/-- The list of tarballs, filled up with empty ones for a list of so many partitions. -/
def fillTarballs (tarballs : List Text) (size : ℕ) : List Text :=
  tarballs ++ List.replicate (size - tarballs.length) []

end

/-! ## Downloads -/

/-- How parsing goes: it ends with a value, or leaves the object invalid; a download may end
the process, or never be answered. -/
inductive Attempt (α : Type) where
  | done (a : α)
  | invalid
  | crashed (f : Fault)
  | unanswered

namespace Attempt

variable {α β : Type}

def bind : Attempt α → (α → Attempt β) → Attempt β
  | done a, f => f a
  | invalid, _ => invalid
  | crashed e, _ => crashed e
  | unanswered, _ => unanswered

instance : Monad Attempt where
  pure := done
  bind := bind

def ofOption : Option α → Attempt α
  | some a => done a
  | none => invalid

end Attempt

/-- `OSInfo::downloadRessource`: empty if there is no answer that is used. -/
def downloadRessource (openSocket : Text → ℕ → Option Socket) (fuel : ℕ) (url : Text) : Attempt Text :=
  match WebClient.get openSocket fuel (cString url) with
  | none => .unanswered
  | some (.error f) => .crashed f
  | some (.ok response) => .done (cString response)

/-! ## Operating systems -/

section

variable {S : Type} (json : Json S) (openSocket : ℕ → Text → ℕ → Option Socket) (fuel : ℕ)

/-- `OSInfo::parseOSInfo`: the operating system with what `os_info` says of it. What is of
the wrong type is as if it were not there. -/
def OSInfo.parseOSInfo (os : OSInfo) (url : Text) : Attempt OSInfo := do
  let osInfo := json.parseJson (← downloadRessource (openSocket 0) fuel url)
  let os := { os with name := (parseEntry json.text osInfo "name" os.name true).getD os.name }
  match parseEntry json.bool osInfo "bootable" os.bootable true with
  | some false => .invalid
  | _ =>
    return { os with
      description := (parseEntry json.text osInfo "description" os.description true).getD os.description
      releaseDate := (parseEntry json.text osInfo "release_date" os.releaseDate true).getD os.releaseDate }

/-- The list of partitions that `OSInfo::parsePartitionInfo` downloads. -/
def downloadPartitions (url : Text) : Attempt (List (Variant S)) := do
  let partitionInfo := json.parseJson (← downloadRessource (openSocket 1) fuel url)
  .ofOption (parseEntry Json.list partitionInfo "partitions" [] false)

/-- `OSInfo::parsePartitionInfo`. -/
def parsePartitionInfo (tarballs : List Text) (url : Text) : Attempt (List PartitionInfo) := do
  let list ← downloadPartitions json openSocket fuel url
  if list.length < tarballs.length then .invalid
  else .ofOption (readPartitions json (fillTarballs tarballs list.length) 0 list)

/-- The step of `OSInfo::parseOS` that downloads the partition setup script. -/
def downloadSetup (url : Text) : Attempt Text :=
  if url = [] then return []
  else do
    let script ← downloadRessource (openSocket 2) fuel url
    if script = [] then .invalid else return script

/-- Whether the device model is supported. The loop over the list starts from `true`. -/
def modelSupported (model : Text) (supportedModels : List Text) : Bool :=
  supportedModels.foldl (fun supported m => supported || containsInsensitive model m) true

/-- `OSInfo::parseOS`, for a device model. -/
def parseOS (model : Text) (os : VariantMap S) : Attempt OSInfo := do
  let name ← .ofOption <| (parseEntry json.text os "name" [] false).orElse fun _ =>
    parseEntry json.text os "os_name" [] false
  let bootable := (parseEntry json.bool os "bootable" false false).getD
    (!containsInsensitive name "Data Partition".toList)
  if !bootable then .invalid
  else
    let supportedModels ← .ofOption (parseEntry json.texts os "supported_models" [] true)
    if !modelSupported model supportedModels then .invalid
    else
      let tarballs ← .ofOption (parseEntry json.texts os "tarballs" [] false)
      let infoUrl ← .ofOption (parseEntry json.text os "os_info" [] false)
      let osInfo ← OSInfo.parseOSInfo json openSocket fuel { name := name, bootable := bootable } infoUrl
      let partitionUrl ← .ofOption (parseEntry json.text os "partitions_info" [] false)
      let partitions ← parsePartitionInfo json openSocket fuel tarballs partitionUrl
      let setupUrl ← .ofOption (parseEntry json.text os "partition_setup" [] true)
      let script ← downloadSetup openSocket fuel setupUrl
      return { osInfo with partitions := partitions, partitionSetupScript := script }

end

end Noobs
