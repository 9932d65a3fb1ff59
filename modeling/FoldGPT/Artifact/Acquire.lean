import FoldGPT.Lib.Mortal
import FoldGPT.Lib.Transition
import Mathlib.Data.Nat.Digits.Defs

/-!
# Acquiring a trusted artifact

`TrustedHttpsArtifact.Acquisition`: a cache entry of five files, filled from a server that nobody
trusts. A call is a change of the cache, a step of the transfer or a test for cancellation; before
each the process may die, and each may fail.

Files keep their owner, their one link and their inode, so `regular` looks at the mode. Bytes are
written one by one, which is the finest a short write can be. `InputStream.read` gives at least one
byte, as its contract says.
-/

namespace FoldGPT.Artifact

open FoldGPT.Lib

/-- `st_mode & 07777`. -/
abbrev Mode := BitVec 12

structure File where
  mode : Mode
  bytes : List UInt8
  deriving DecidableEq

/-- The managed directory's entry `foldgpt-acquisition`, the directory of the descriptor in it, and
the files of that directory. -/
structure Cache where
  cache : Option Mode
  directory : Option Mode
  lease : Option Mode
  descriptor : Option File
  pending : Option File
  part : Option File
  target : Option File
  deriving DecidableEq

def Cache.empty : Cache := ⟨none, none, none, none, none, none, none⟩

/-- Digits of a number, as Java writes it. -/
def decimal (n : Nat) : List Char := Nat.toDigits 10 n

/-- `getBytes(StandardCharsets.US_ASCII)`. -/
def ascii (text : List Char) : List UInt8 := text.map fun c => UInt8.ofNat c.toNat

/-- The trusted descriptor: `https(url)` bounds the address, a size is a positive `long`, and a
SHA-256 has 64 digits. -/
structure Descriptor where
  url : List Char
  bytes : Nat
  sha256 : List Char
  url_le : url.length ≤ 8192
  bytes_pos : 0 < bytes
  bytes_lt : bytes < 2 ^ 63
  sha256_length : sha256.length = 64

def Descriptor.document (d : Descriptor) : List UInt8 :=
  ascii ("foldgpt.https-artifact.v1\n".toList ++ d.url ++ ['\n'] ++ decimal d.bytes ++ ['\n'] ++
    d.sha256 ++ ['\n'])

/-- What the acquisitions of one cache share: the hash function, `https(location.resolve(next))`,
the umask, and the mode of the managed directory, in which others may not write. -/
structure Setting where
  sha : List UInt8 → List Char
  resolve : List Char → List Char → Option (List Char)
  umask : Mode
  parent : Mode
  parent_closed : parent &&& 0o002#12 = 0#12

/-- What a server answers, before the body. -/
structure Response where
  status : Nat
  location : Option (List Char)
  encoding : Option (List Char)
  contentRange : Option (List Char)
  contentLength : Int

/-- What a read of the body gives. -/
inductive Reading
  | chunk (first : UInt8) (rest : List UInt8)
  | eof
  | broken

/-- What the environment has for a call: whether the acquisition is cancelled or its time is over,
whether the operation fails, whether another acquisition has the lease, and the server. -/
structure Answer where
  cancelled : Bool
  fails : Bool
  busy : Bool
  respond : List Char → Nat → Response
  read : Nat → Reading

inductive Failure
  | integrity (message : String)
  | interrupted
  | io (message : String)
  deriving DecidableEq

abbrev Program := Mortal Answer Failure Cache

section Calls

/-- A file operation. -/
def change (f : Cache → Cache) : Program Unit :=
  Mortal.call fun c s => if c.fails then (.error (.io "I/O error"), s) else (.ok (), f s)

/-- `force`, `fsync`: it changes nothing a later process would not find anyway. -/
def sync : Program Unit := change id

/-- `check`. -/
def check : Program Unit :=
  Mortal.call fun c s => if c.cancelled then (.error .interrupted, s) else (.ok (), s)

end Calls

variable (g : Setting) (d : Descriptor)

/-- The mode a new file or directory gets. -/
def Setting.created (mode : Mode) : Mode := mode &&& ~~~g.umask

/-- The set-group-id bit a new directory gets from its parent. -/
def inherited (parent : Mode) : Mode := parent &&& 0o2000#12

def isRegular (mode : Mode) : Bool := decide (mode = 0o600#12)

def regular (mode : Mode) : Program Unit :=
  Mortal.demand (isRegular mode) (.io "Artifact cache file must be private, owned and single-link")

/-- `regular` of a file that may be absent. -/
def regularIfAny : Option Mode → Program Unit
  | none => pure ()
  | some mode => regular mode

/-- A file is opened, and made if it is absent. -/
def openFile (get : Cache → Option Mode) (make : Mode → Cache → Cache) : Program Unit := do
  match get (← Mortal.look) with
  | some _ => pure ()
  | none => change (make (g.created 0o600#12))

/-- `finishCreatedDirectory`. -/
def finishCreatedDirectory (get : Cache → Option Mode) (set : Mode → Cache → Cache) :
    Program Unit := do
  let s ← Mortal.look
  Mortal.demand ((get s).any fun mode => decide (mode &&& ~~~0o2700#12 = 0#12))
    (.io "New acquisition directory identity, owner or initial mode differs")
  change (set 0o700#12)
  sync

/-- A directory that is absent is made and finished; one that is there is left alone. -/
def makeDirectory (get : Cache → Option Mode) (set : Mode → Cache → Cache)
    (parent : Cache → Mode) : Program Unit := do
  let s ← Mortal.look
  match get s with
  | some _ => pure ()
  | none =>
    change (set (g.created 0o700#12 ||| inherited (parent s)))
    finishCreatedDirectory get set

def createPrivate (get : Cache → Option Mode) (set : Mode → Cache → Cache)
    (parent : Cache → Mode) : Program Unit := do
  makeDirectory g get set parent
  let s ← Mortal.look
  Mortal.demand (decide (get s = some 0o700#12))
    (.io "Artifact cache directory must be private and owned")

/-! ### The descriptor -/

/-- A byte is written to `descriptor.next`. -/
def Cache.appendPending (byte : UInt8) (s : Cache) : Cache :=
  { s with pending := s.pending.map fun file => { file with bytes := file.bytes ++ [byte] } }

/-- A byte is written to `download.part`. -/
def Cache.appendPart (byte : UInt8) (s : Cache) : Cache :=
  { s with part := s.part.map fun file => { file with bytes := file.bytes ++ [byte] } }

/-- `while(bytes.hasRemaining()) output.write(bytes)`. -/
def writeAll (put : UInt8 → Cache → Cache) (bytes : List UInt8) : Program Unit :=
  Mortal.each (fun byte c s =>
    if c.fails then (.error (.io "I/O error"), s) else (.ok (), put byte s)) bytes

/-- The bound of `readSmall` for a descriptor. -/
def maxDocument : Nat := 16384

/-- A `descriptor.next` that was left is deleted. -/
def deletePending (behind : Program Unit) : Program Unit := do
  match (← Mortal.look).pending with
  | none => pure ()
  | some pending =>
    regular pending.mode
    change fun s => { s with pending := none }
    behind

def bindDescriptor : Program Unit := do
  let s ← Mortal.look
  match s.descriptor with
  | some file =>
    regular file.mode
    Mortal.demand (decide (file.bytes.length ≤ maxDocument))
      (.io "Oversized cached artifact descriptor")
    Mortal.demand (decide (file.bytes = d.document)) (.io "Cached acquisition descriptor differs")
    deletePending sync
  | none =>
    Mortal.demand (s.part.isNone && s.target.isNone)
      (.io "Artifact data has no durable trusted descriptor binding")
    deletePending (pure ())
    change fun s => { s with pending := some ⟨g.created 0o600#12, []⟩ }
    writeAll Cache.appendPending d.document
    sync
    check
    let s ← Mortal.look
    Mortal.demand s.descriptor.isNone (.io "Acquisition descriptor appeared while leased")
    change fun s => { s with descriptor := s.pending, pending := none }
    sync

/-! ### The transfer -/

/-- The loop of `transfer`, from `received` bytes on; every turn takes a byte at least, so the
turns are bounded. -/
def receive : Nat → Nat → Program Nat
  | 0, received => pure received
  | fuel + 1, received => do
    check
    let reading ← Mortal.call fun c s =>
      if c.cancelled then (.error .interrupted, s) else (.ok (c.read received), s)
    match reading with
    | .broken => Mortal.raise (.io "I/O error")
    | .eof => pure received
    | .chunk first rest =>
      let count := rest.length + 1
      Mortal.demand (decide (count ≤ d.bytes - received))
        (.integrity "Artifact response exceeds the trusted byte count")
      writeAll Cache.appendPart (first :: rest)
      -- `progress.received` may raise
      sync
      receive fuel (received + count)

/-- The partial artifact is emptied, or must end where the transfer starts. -/
def position (start : Nat) : Program Unit := do
  if start = 0 then
    change fun s => { s with part := s.part.map fun file => { file with bytes := [] } }
  else
    let s ← Mortal.look
    Mortal.demand (s.part.any fun file => decide (file.bytes.length = start))
      (.io "Partial artifact changed before range transfer")

def transfer (start : Nat) : Program Unit := do
  let s ← Mortal.look
  regularIfAny (s.part.map File.mode)
  -- `getInputStream`
  sync
  openFile g (fun s => s.part.map File.mode) fun mode s => { s with part := some ⟨mode, []⟩ }
  let s ← Mortal.look
  regularIfAny (s.part.map File.mode)
  sync
  position start
  Mortal.cleanup
    (do
      let received ← receive d (d.bytes + 1) start
      Mortal.demand (decide (received = d.bytes))
        (.io "Artifact transfer ended before the trusted byte count"))
    sync

/-- What an exchange with a server comes to. -/
inductive Exchange
  | redirect (location : List Char)
  | done (start : Nat)

def redirectCodes : List Nat := [301, 302, 303, 307, 308]

/-- The `Content-Range` of the bytes from `start` on. -/
def wantedRange (start : Nat) : List Char :=
  "bytes ".toList ++ decimal start ++ ['-'] ++ decimal (d.bytes - 1) ++ ['/'] ++ decimal d.bytes

/-- `equalsIgnoreCase("identity")`. -/
def isIdentity (encoding : List Char) : Bool :=
  decide (encoding.map Char.toLower = "identity".toList)

def checkRange (response : Response) (start : Nat) : Program Unit :=
  if response.status = 206 then
    Mortal.demand (decide (response.contentRange = some (wantedRange d start)))
      (.io "Artifact Content-Range differs from trusted size and offset")
  else Mortal.demand response.contentRange.isNone (.io "Unexpected artifact Content-Range")

/-- The body of the redirection loop of `download`. -/
def exchange (offset : Nat) (location : List Char) : Program Exchange := do
  let response ← Mortal.call fun c s =>
    if c.cancelled then (.error .interrupted, s)
    else if c.fails then (.error (.io "I/O error"), s)
    else (.ok (c.respond location offset), s)
  check
  if response.status ∈ redirectCodes then
    match response.location with
    | none => Mortal.raise (.io "Invalid artifact redirect location")
    | some next =>
      Mortal.demand (decide (next.length ≤ 8192)) (.io "Invalid artifact redirect location")
      match g.resolve location next with
      | none => Mortal.raise (.io "Invalid HTTPS artifact redirect")
      | some location => pure (.redirect location)
  else
    Mortal.demand (decide (response.status = 200 ∨ response.status = 206 ∧ 0 < offset))
      (.io "HTTPS artifact status differs")
    Mortal.demand (response.encoding.all isIdentity)
      (.io "Encoded artifact response is unsupported")
    let start := if response.status = 200 then 0 else offset
    checkRange d response start
    Mortal.demand (decide (response.contentLength = -1 ∨
      response.contentLength = ((d.bytes - start : Nat) : Int)))
      (.io "Artifact HTTP length differs from trusted size")
    transfer g d start
    pure (.done start)

/-- `download`, with the redirections that are left and the locations that were visited. -/
def download (offset : Nat) : Nat → List (List Char) → List Char → Program Nat
  | 0, _, _ => Mortal.raise (.io "Too many HTTPS artifact redirects")
  | redirects + 1, visited, location => do
    check
    Mortal.demand (decide (location ∉ visited)) (.io "HTTPS artifact redirect loop")
    let outcome ← Mortal.handle (exchange g d offset location) fun failure => do
      -- a cancelled acquisition says so, whatever else went wrong
      check
      Mortal.raise failure
    match outcome with
    | .redirect next => download offset redirects (location :: visited) next
    | .done start => pure start

/-! ### The acquisition -/

def verify (get : Cache → Option File) : Program Unit := do
  check
  match get (← Mortal.look) with
  | none => Mortal.raise (.io "Artifact cache file must be private, owned and single-link")
  | some file =>
    regular file.mode
    Mortal.demand (decide (file.bytes.length = d.bytes))
      (.integrity "Artifact size does not match its trusted descriptor")
    check
    Mortal.demand (decide (g.sha file.bytes = d.sha256))
      (.integrity "Artifact SHA-256 differs from the independently trusted descriptor")
    sync

/-- The partial artifact of a failed verification is discarded. -/
def discard : Program Unit := do
  match (← Mortal.look).part with
  | none => pure ()
  | some file =>
    regular file.mode
    change fun s => { s with part := none }
    sync

/-- Only a failed verification discards. -/
def discardOn : Failure → Program Unit
  | .integrity _ => discard
  | _ => pure ()

/-- What is missing is downloaded. -/
def downloadRest (offset : Nat) : Program Nat :=
  if offset < d.bytes then download g d offset 6 [] d.url else pure offset

/-- The partial artifact is completed and verified. -/
def complete (offset : Nat) : Program Nat := do
  let offset ← downloadRest g d offset
  verify g d Cache.part
  pure offset

/-- The rest of `run`, when there is no artifact yet; the offset the download started from. -/
def fetch : Program Nat := do
  let s ← Mortal.look
  let offset := s.part.elim 0 fun file => file.bytes.length
  Mortal.demand (decide (offset ≤ d.bytes)) (.io "Partial artifact exceeds its trusted size")
  let offset ← Mortal.handle (complete g d offset) fun failure => do
    discardOn failure
    Mortal.raise failure
  check
  let s ← Mortal.look
  regularIfAny (s.part.map File.mode)
  Mortal.demand s.target.isNone (.io "Artifact publication target appeared while leased")
  change fun s => { s with target := s.part, part := none }
  sync
  verify g d Cache.target
  pure offset

/-- Every file of the directory is regular. -/
def regularFiles (s : Cache) : Bool :=
  ([s.lease, s.descriptor.map File.mode, s.pending.map File.mode, s.part.map File.mode,
    s.target.map File.mode].filterMap id).all isRegular

/-- `Acquisition.run`, with the offset it resumed from. -/
def run : Program Nat := do
  check
  createPrivate g Cache.cache (fun mode s => { s with cache := some mode }) fun _ => g.parent
  sync
  createPrivate g Cache.directory (fun mode s => { s with directory := some mode })
    fun s => s.cache.getD 0#12
  sync
  let s ← Mortal.look
  regularIfAny s.lease
  openFile g Cache.lease fun mode s => { s with lease := some mode }
  let s ← Mortal.look
  regularIfAny s.lease
  Mortal.call fun c s =>
    if c.busy then (.error (.io "Another acquisition holds this artifact lease"), s)
    else (.ok (), s)
  check
  let s ← Mortal.look
  Mortal.demand (regularFiles s) (.io "Artifact cache file must be private, owned and single-link")
  bindDescriptor g d
  let s ← Mortal.look
  match s.target with
  | some _ =>
    Mortal.demand s.part.isNone (.io "Published artifact and competing partial coexist")
    verify g d Cache.target
    sync
    pure 0
  | none => fetch g d

/-- The acquisitions of one descriptor, one after the other, each with its environment. -/
def acquiring : LTS Cache (Env Answer) :=
  .ofFun (· = Cache.empty) fun s env => some ((run g d).store env s)

end FoldGPT.Artifact
