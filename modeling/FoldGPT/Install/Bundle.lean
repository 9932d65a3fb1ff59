import Mathlib.Algebra.GroupWithZero.Nat
import Mathlib.Algebra.Ring.Int.Defs
import FoldGPT.Install.Text
import FoldGPT.Lib.Checks
import FoldGPT.Lib.SortedMap

/-!
# The integration container

`InactiveIntegrationBundle.java` reads a release container: a line with the format, the length of a
manifest, the manifest, and the contents of the installed files one after the other. A line of the
manifest is a record of seven fields, for a file or link to be installed or for an entry of the
Debian keyboard tree to be verified in place.

`inactive_integration_bundle.py` builds the containers; of it, `encode` is modelled here. The hash
is a parameter, and so are the tables of what belongs into a container: `release` holds those of the
source.
-/

namespace FoldGPT.Install.Integration

open FoldGPT.Lib

/-! ### What belongs into a container -/

inductive Format
  | v1
  | v2
  deriving DecidableEq, Repr

/-- `FORMAT` and `FORMAT_WITH_CONTEXT`. -/
def Format.text : Format → Text
  | .v1 => "foldgpt.inactive-integration.v1".toList
  | .v2 => "foldgpt.inactive-integration.v2".toList

def gpuPrefix : Text := "opt/foldgpt-gpu/mesa-26.2.2-foldgpt5".toList

def gpuSha : Text := "e02091631e5f16efbc3678373b2c048ebf81b10d551caf210d61b1954b7671d4".toList

/-- `XKB`. -/
def xkb : Text := "usr/share/X11/xkb".toList

/-- `CONTRACT_PATH` and `CONTEXT_CONTRACT_PATH`. -/
def Format.contractPath : Format → Text
  | .v1 => "usr/local/share/foldgpt/launch-contract.v1".toList
  | .v2 => "usr/local/share/foldgpt/launch-contract.v2".toList

def contextHelper : Text := "usr/local/lib/foldgpt/foldgpt_agent_context.py".toList

def contextManifest : Text := "usr/local/share/foldgpt/agent-environment.v1.json".toList

/-- The lines the two contracts share after their first. -/
def contractLines : Text :=
  "scope=declared-launch-inputs-only\nguest=/usr/local/bin/foldgpt-session\n".toList ++
  "guest-shell=/bin/bash\nguest-identity=etc/foldgpt-user-and-passwd-and-group\n".toList ++
  "guest-display=:2\nnative-xkb=usr/share/X11/xkb\ngpu-prefix=/".toList ++ gpuPrefix ++
  "\ngpu-driver=zink\nvulkan-icd=/".toList ++ gpuPrefix ++
  "/share/vulkan/icd.d/freedreno_icd.aarch64.json\ncdp-loopback=127.0.0.1:9223\n".toList ++
  "scale=android-display-density\nbridges=android-process-uid\nandroid-root=not-required\n".toList ++
  "activation=separate-validator-required\n".toList

/-- `CONTRACT` and `CONTEXT_CONTRACT`. -/
def Format.contract : Format → Text
  | .v1 => "foldgpt.launch-contract.v1\n".toList ++ contractLines
  | .v2 =>
    "foldgpt.launch-contract.v2\n".toList ++ contractLines ++
    "agent-context-generator=/".toList ++ contextHelper ++
    "\nagent-context-manifest=/".toList ++ contextManifest ++
    "\nagent-context-consumer=local-codex-global-agents-md\n".toList ++
    "agent-context-selection=first-nonempty-override-then-agents\n".toList ++
    "agent-context-delivery=separate-runtime-observation-required\n".toList

/-- A path of the GPU artifact. -/
def gpuPath (name : String) : Text := gpuPrefix ++ '/' :: name.toList

/-- The installed files of both formats, with their modes. -/
def sharedFiles : Dict Text Nat :=
  [("usr/local/bin/foldgpt-session".toList, 0o700), ("usr/local/bin/xdg-open".toList, 0o755),
    ("usr/local/lib/foldgpt/foldgpt_keyring.py".toList, 0o644),
    ("usr/local/lib/foldgpt/foldgpt_ime.py".toList, 0o644),
    ("usr/local/lib/foldgpt/keyboard-focus.js".toList, 0o644),
    ("usr/local/lib/foldgpt/install/initialize_keyring.py".toList, 0o600),
    ("usr/local/lib/foldgpt/install/supervise_keyring.py".toList, 0o600),
    ("usr/local/share/doc/foldgpt/LICENSE".toList, 0o644),
    (gpuPath "lib/dri/libdril_dri.so", 0o755), (gpuPath "lib/libEGL.so.1.0.0", 0o755),
    (gpuPath "lib/libgallium-26.2.2.so", 0o755), (gpuPath "lib/libGL.so.1.2.0", 0o755),
    (gpuPath "lib/libGLESv1_CM.so.1.1.0", 0o755), (gpuPath "lib/libGLESv2.so.2.0.0", 0o755),
    (gpuPath "lib/libvulkan_freedreno.so", 0o755),
    (gpuPath "share/drirc.d/00-mesa-defaults.conf", 0o644),
    (gpuPath "share/drirc.d/00-turnip-defaults.conf", 0o644),
    (gpuPath "share/drirc.d/00-zink-defaults.conf", 0o644),
    (gpuPath "share/vulkan/icd.d/freedreno_icd.aarch64.json", 0o644)]

/-- `FILES` and `FILES_WITH_CONTEXT`. -/
def Format.files : Format → Dict Text Nat
  | .v1 => sharedFiles ++ [(Format.v1.contractPath, 0o644)]
  | .v2 =>
    sharedFiles ++
      [(contextHelper, 0o644), (contextManifest, 0o644), (Format.v2.contractPath, 0o644)]

/-- `LINKS`. -/
def linkTargets : Dict Text Text :=
  [(gpuPath "lib/dri/zink_dri.so", "libdril_dri.so".toList),
    (gpuPath "lib/libEGL.so", "libEGL.so.1".toList),
    (gpuPath "lib/libEGL.so.1", "libEGL.so.1.0.0".toList),
    (gpuPath "lib/libGL.so", "libGL.so.1".toList),
    (gpuPath "lib/libGL.so.1", "libGL.so.1.2.0".toList),
    (gpuPath "lib/libGLESv1_CM.so", "libGLESv1_CM.so.1".toList),
    (gpuPath "lib/libGLESv1_CM.so.1", "libGLESv1_CM.so.1.1.0".toList),
    (gpuPath "lib/libGLESv2.so", "libGLESv2.so.2".toList),
    (gpuPath "lib/libGLESv2.so.2", "libGLESv2.so.2.0.0".toList)]

/-- The tables that say what belongs into a container. -/
structure Release where
  files : Format → Dict Text Nat
  links : Dict Text Text
  contractPath : Format → Text
  contract : Format → Text

/-- The tables of the source. -/
def release : Release := ⟨Format.files, linkTargets, Format.contractPath, Format.contract⟩

def maxBytes : Nat := 64 * 1024 * 1024

/-! ### Records -/

/-- To be installed, or to be verified in place. -/
inductive Scope
  | installed
  | verified
  deriving DecidableEq, Repr

def Scope.letter : Scope → Text
  | .installed => ['I']
  | .verified => ['V']

def Scope.ofText (text : Text) : Option Scope := [Scope.installed, .verified].find? (·.letter == text)

inductive Kind
  | file
  | directory
  | link
  deriving DecidableEq, Repr

def Kind.letter : Kind → Text
  | .file => ['F']
  | .directory => ['D']
  | .link => ['L']

def Kind.ofText (text : Text) : Option Kind :=
  [Kind.file, .directory, .link].find? (·.letter == text)

structure Entry where
  scope : Scope
  kind : Kind
  mode : Nat
  size : Nat
  sha : Text
  path : Text
  link : Text
  offset : Nat
  deriving DecidableEq

def dash : Text := ['-']

/-- `0[0-7]{3}`, as a number. -/
def octalMode : Text → Option Nat
  | ['0', a, b, c] =>
    if [a, b, c].all (fun d => decide ('0' ≤ d) && decide (d ≤ '7')) then
      some (Nat.ofDigitChars 8 [a, b, c] 0)
    else none
  | _ => none

/-- `0|[1-9][0-9]{0,7}`, as a number. -/
def decimalSize : Text → Option Nat
  | [] => none
  | first :: rest =>
    if (first == '0' && rest.isEmpty) || (first.isDigit && first != '0' &&
        decide (rest.length ≤ 7) && rest.all Char.isDigit) then
      some (Nat.ofDigitChars 10 (first :: rest) 0)
    else none

/-- Letters, digits and `_`, `+`, `.`, `/`, `-`. -/
def pathChar (c : Char) : Bool :=
  c.isAlphanum || c == '_' || c == '+' || c == '.' || c == '/' || c == '-'

/-- `path`. -/
def checkPath (value : Text) : Except String Unit := do
  require (decide (1 ≤ value.length) && decide (value.length ≤ 256) && value.all pathChar &&
    value.head? != some '/' && value.getLast? != some '/') "Invalid integration path"
  checkAll (fun part : Text => require (!part.isEmpty && part != ['.'] && part != ['.', '.'])
    "Noncanonical integration path") (value.splitOn '/')

/-- What the constructor of `Entry` asks of the hash and the link of its kind. -/
def checkKind (kind : Kind) (size : Nat) (sha link : Text) : Except String Unit :=
  match kind with
  | .file => require (digest sha && link == dash) "Invalid regular integration entry"
  | .directory =>
    require (decide (size = 0) && sha == dash && link == dash) "Invalid non-file integration entry"
  | .link => do
    require (decide (size = 0) && sha == dash) "Invalid non-file integration entry"
    checkPath link
    require (!link.contains '/') "Only same-directory integration links are accepted"

/-- The constructor of `Entry`. -/
def readEntry : List Text → Except String Entry
  | [scopeText, kindText, modeText, sizeText, sha, path, link] => do
    checkPath path
    match octalMode modeText, decimalSize sizeText with
    | some mode, some size =>
      match Scope.ofText scopeText with
      | some scope => do
        require (decide (size ≤ 32 * 1024 * 1024)) "Invalid integration scope or file bound"
        match Kind.ofText kindText with
        | some kind => do
          checkKind kind size sha link
          pure ⟨scope, kind, mode, size, sha, path, link, 0⟩
        | none => .error "Unknown integration entry kind"
      | none => .error "Invalid integration scope or file bound"
    | _, _ => .error "Invalid integration size or mode"
  | _ => .error "Invalid integration record width"

/-! ### The loop over the records -/

structure Scan where
  entries : SortedMap Text Entry
  previous : Text
  files : List Text
  links : List Text
  offset : Nat

def slice (bytes : List UInt8) (offset size : Nat) : List UInt8 := (bytes.drop offset).take size

section Reading

variable (tables : Release) (hash : List UInt8 → Text) (format : Format) (bytes : List UInt8)

/-- What is asked of a record at the place it has, and what it adds. -/
def scanEntry (scan : Scan) (entry : Entry) : Except String Scan := do
  require (decide (scan.previous < entry.path)) "Integration entries must be unique and sorted"
  match entry.scope, entry.kind with
  | .installed, .file => do
    require ((tables.files format).get entry.path == some entry.mode && decide (entry.size ≠ 0))
      "Unexpected installed integration file or mode"
    require (decide (scan.offset + entry.size ≤ bytes.length) &&
        hash (slice bytes scan.offset entry.size) == entry.sha)
      "Integration payload hash or length differs"
    pure ⟨scan.entries.put entry.path { entry with offset := scan.offset }, entry.path,
      scan.files ++ [entry.path], scan.links, scan.offset + entry.size⟩
  | .installed, _ => do
    require (entry.kind == .link && decide (entry.mode = 0o777) &&
        tables.links.get entry.path == some entry.link)
      "Unexpected installed integration link or directory"
    pure ⟨scan.entries.put entry.path entry, entry.path, scan.files, scan.links ++ [entry.path],
      scan.offset⟩
  | .verified, _ => do
    require (entry.path == xkb || (xkb ++ ['/']).isPrefixOf entry.path)
      "Verification scope is restricted to Debian XKB"
    require (decide (entry.mode = match entry.kind with
        | .directory => 0o755
        | .link => 0o777
        | .file => 0o644)) "Unexpected reviewed XKB mode"
    pure ⟨scan.entries.put entry.path entry, entry.path, scan.files, scan.links, scan.offset⟩

def scanLine (scan : Scan) (line : Text) : Except String Scan := do
  let entry ← readEntry (line.splitOn '\t')
  scanEntry tables hash format bytes scan entry

/-! ### The reader -/

/-- `new String(bytes, US_ASCII)`: other bytes become the replacement character. -/
def asciiString (bytes : List UInt8) : Text :=
  bytes.map fun b => if b.toNat < 128 then Char.ofNat b.toNat else Char.ofNat 0xfffd

def Format.magic (format : Format) : Text := format.text ++ ['\n']

def readFormat (magic : List UInt8) : Except String Format :=
  if asciiString magic = Format.v1.magic then .ok .v1
  else if asciiString magic = Format.v2.magic then .ok .v2
  else .error "Invalid integration framing"

/-- `DataInputStream.readInt`, whose `EOFException` has no text. -/
def readInt : List UInt8 → Except String Int
  | a :: b :: c :: d :: _ =>
    .ok (Int.bmod (a.toNat * 2 ^ 24 + b.toNat * 2 ^ 16 + c.toNat * 2 ^ 8 + d.toNat) (2 ^ 32))
  | _ => .error "null"

/-- `binding`. -/
def binding (name line : Text) : Except String Text := do
  require ((name ++ ['\t']).isPrefixOf line && digest (line.drop (name.length + 1)))
    "Invalid integration input binding"
  pure (line.drop (name.length + 1))

/-- The first lines of a manifest, and the records after them. -/
structure Header where
  base : Text
  guest : Text
  records : List Text

/-- The bindings at the head of the manifest. -/
def readHeader (format : Format) (encoded : List UInt8) : Except String Header := do
  require (encoded.all fun b => decide (b.toNat < 128) && decide (b ≠ 0) && decide (b ≠ 13))
    "Integration manifest must be canonical ASCII"
  let lines := (asciiString encoded).splitOn '\n'
  require (decide (8 ≤ lines.length) && lines.head? == some format.text &&
    lines.getLast? == some []) "Invalid integration manifest header"
  let base ← binding "base".toList (lines.getD 1 [])
  let guest ← binding "guest".toList (lines.getD 2 [])
  let gpu ← binding "gpu".toList (lines.getD 3 [])
  require (gpu == gpuSha) "Only the reviewed foldgpt5 GPU artifact is accepted"
  pure ⟨base, guest, (lines.drop 4).dropLast⟩

/-- The path up to its last slash, and with it. -/
def parentPath (path : Text) : Text := (path.rdropWhile (· != '/')).dropLast

def siblingPath (path link : Text) : Text := path.rdropWhile (· != '/') ++ link

/-- What is asked of a verified entry once all are known. -/
def checkVerified (entries : SortedMap Text Entry) (entry : Entry) : Except String Unit := do
  whenever (entry.scope == .verified) do
    whenever (entry.path != xkb) do
      require ((entries.get (parentPath entry.path)).any (·.kind == .directory))
        "XKB manifest parent is not a directory"
    whenever (entry.kind == .link) do
      require ((entries.get (siblingPath entry.path entry.link)).any (·.kind == .file))
        "XKB native link target is not an inventoried file"

def checkRequired (entries : SortedMap Text Entry) (path : Text) : Except String Unit :=
  require ((entries.get path).any fun entry => entry.scope == .verified &&
    entry.kind == if path == xkb then .directory else .file) "Required XKB record absent"

/-- The checks after the loop. -/
def checkScan (scan : Scan) : Except String Unit := do
  require (sameKeys scan.files (tables.files format).keys && sameKeys scan.links tables.links.keys &&
    decide (scan.offset = bytes.length)) "Missing payload or trailing integration bytes"
  checkAll (checkRequired scan.entries)
    [xkb, xkb ++ "/rules/base".toList, xkb ++ "/rules/evdev".toList]
  checkAll (checkVerified scan.entries) (scan.entries.entries.map Prod.snd)
  require ((scan.entries.get (tables.contractPath format)).any fun contract =>
    hash (asciiEncode (tables.contract format)) == contract.sha)
    "Launch contract differs from runtime integration contract"

structure Bundle where
  bytes : List UInt8
  format : Format
  sha256 : Text
  baseSha256 : Text
  guestSha256 : Text
  manifestSha256 : Text
  entries : SortedMap Text Entry

/-- The part of `read` after the container has been authenticated. -/
def readBytes (trustedSha256 : Text) : Except String Bundle := do
  let format ← readFormat (bytes.take Format.v1.magic.length)
  let length ← readInt (bytes.drop Format.v1.magic.length)
  require (decide (0 < length) && decide (length ≤ 512 * 1024)) "Integration manifest exceeds bound"
  let encoded := slice bytes (Format.v1.magic.length + 4) length.toNat
  require (decide (encoded.length = length.toNat)) "Truncated integration manifest"
  let header ← readHeader format encoded
  let scan ← header.records.foldlM (scanLine tables hash format bytes)
    ⟨SortedMap.empty, [], [], [], Format.v1.magic.length + 4 + length.toNat⟩
  checkScan tables hash format bytes scan
  pure ⟨bytes, format, trustedSha256, header.base, header.guest, hash encoded, scan.entries⟩

/-- `read`, of an input that holds these bytes. -/
def read (input : List UInt8) (trustedSha256 : Text) (trustedBytes : Int) :
    Except String Bundle := do
  require (digest trustedSha256 && decide (0 < trustedBytes) &&
    decide (trustedBytes ≤ maxBytes)) "Independent integration digest and size are required"
  let bytes := input.take (trustedBytes.toNat + 1)
  require (decide (bytes.length = trustedBytes.toNat) && hash bytes == trustedSha256)
    "Integration container authentication failed"
  readBytes tables hash bytes trustedSha256

end Reading

/-! ### The writer -/

/-- A record of the builder. -/
structure Record where
  scope : Text
  kind : Text
  mode : Nat
  size : Nat
  sha256 : Text
  link : Text

/-- `format(mode, "04o")`. -/
def formatOctal (mode : Nat) : Text := (Nat.toDigits 8 mode).leftpad 4 '0'

/-- A record joined by tabs. -/
def recordLine (path : Text) (record : Record) : Text :=
  List.intercalate ['\t'] [record.scope, record.kind, formatOctal record.mode,
    Nat.toDigits 10 record.size, record.sha256, path, record.link]

/-- `sorted` of the items of a dictionary. -/
def sortedItems {ν : Type} (items : Dict Text ν) : Dict Text ν :=
  items.mergeSort fun a b => decide (a.1 ≤ b.1)

/-- `struct.pack(">I", n)`. -/
def pack (n : Nat) : List UInt8 :=
  [UInt8.ofNat (n / 2 ^ 24), UInt8.ofNat (n / 2 ^ 16), UInt8.ofNat (n / 2 ^ 8), UInt8.ofNat n]

/-- The text of the manifest. -/
def manifestText (records : Dict Text Record) (baseSha guestSha gpuSha : Text) : Text :=
  List.intercalate ['\n'] ([Format.v2.text, "base\t".toList ++ baseSha,
    "guest\t".toList ++ guestSha, "gpu\t".toList ++ gpuSha] ++
    (sortedItems records).map fun item => recordLine item.1 item.2) ++ ['\n']

def encode (records : Dict Text Record) (payload : Dict Text (List UInt8))
    (baseSha guestSha gpuSha : Text) : Except String (List UInt8 × List UInt8) := do
  let text := manifestText records baseSha guestSha gpuSha
  require (text.all fun c => decide (c.toNat < 128)) "ordinal not in range(128)"
  let manifest := asciiEncode text
  require (decide (manifest.length ≤ 512 * 1024)) "Integration manifest exceeds bound"
  let data := asciiEncode Format.v2.magic ++ pack manifest.length ++ manifest ++
    (sortedItems payload).flatMap Prod.snd
  require (decide (data.length ≤ maxBytes)) "Integration container exceeds bound"
  pure (data, manifest)

end FoldGPT.Install.Integration
