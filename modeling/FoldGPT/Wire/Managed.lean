import FoldGPT.Wire.Launch

/-!
# The managed launch envelope

`wire.py` writes the envelope of a managed process, `runner.c` reads it. It has three counted
lists of strings; the third, the runtime grants, carries a flag in front of every path. The
supervisor's caller guarantees what the runner checks and `envelope` does not: absolute paths,
and a name in every entry of the environment.

Main result: `managed_round_trip`.
-/

namespace FoldGPT.Wire.Managed

open FoldGPT.Lib FoldGPT.Lib.Encoding FoldGPT.Lib.Reader List

/-- `FGBP0001`. -/
def magic : Bytes := [70, 71, 66, 80, 48, 48, 48, 49]

/-- A runtime path with its execute flag. -/
structure Grant where
  execute : Nat
  path : Bytes
  deriving DecidableEq

/-- The fields of `struct configuration`. -/
structure Launch where
  /-- `wall`, `data`, `file`, `output`, `tasks`, `cpu`, `descriptors`. -/
  limits : List Nat
  workspace : Bytes
  cwd : Bytes
  executable : Bytes
  argv : List Bytes
  env : List Bytes
  runtime : List Grant
  deriving DecidableEq

/-! ### The runner -/

/-- The numbers in front of the strings. -/
structure Header where
  limits : List Nat
  argc : Nat
  envc : Nat
  grants : Nat

/-- The ranges of `configuration`. -/
def admittedLimits : List Nat → Bool
  | [wall, data, file, output, tasks, cpu, descriptors] =>
    wall ≠ 0 && wall ≤ 3600000 && 16777216 ≤ data && data ≤ 2147483648 && file ≠ 0 &&
      file ≤ 1073741824 && output ≠ 0 && output ≤ 67108864 && tasks ≠ 0 && tasks ≤ 128 &&
      cpu ≠ 0 && cpu ≤ 3600 && 16 ≤ descriptors && descriptors ≤ 1024
  | _ => false

/-- `configuration` from the magic to the first string. An error is the number in `errno`,
`none` where the function sets none. -/
def header : Reader (Option Errno) Header := do
  let found ← copy 8
  ensure (found = magic) (some .eproto)
  let limits ← times 7 (word 8)
  let argc ← word 4
  let envc ← word 4
  let grants ← word 4
  ensure (argc ≠ 0 && argc ≤ 256 && envc ≤ 128 && grants ≤ 64 && admittedLimits limits)
    (some .einval)
  pure { limits, argc, envc, grants }

/-- One turn of the loop over the arguments. -/
def argument : Reader (Option Errno) Bytes := stringOr none

/-- One turn of the loop over the environment. -/
def entry : Reader (Option Errno) Bytes := do
  let value ← stringOr none
  ensure (strchr equalsSign value).isSome none
  pure value

/-- One turn of the loop over the grants. -/
def grant : Reader (Option Errno) Grant := do
  let left ← remaining
  ensure (4 ≤ left) none
  let execute ← word 4
  ensure (execute ≤ 1) none
  let path ← stringOr none
  ensure (first path = slash) none
  pure { execute, path }

/-- `configuration` from the first string on. -/
def strings (header : Header) : Reader (Option Errno) Launch := do
  let workspace ← string
  let cwd ← string
  -- all three are read before the first is looked at
  let executable ← string
  let workspace ← given workspace none
  let cwd ← given cwd none
  let executable ← given executable none
  ensure (first workspace = slash && first executable = slash) none
  let argv ← times header.argc argument
  let env ← times header.envc entry
  let runtime ← times header.grants grant
  let left ← remaining
  ensure (left = 0) (some .eproto)
  pure { limits := header.limits, workspace, cwd, executable, argv, env, runtime }

def parse : Reader (Option Errno) Launch := do
  let header ← header
  strings header

/-- `configuration` on the content of the sealed file. -/
def configuration (data : Bytes) : Except (Fault (Option Errno)) Launch := do
  require (76 ≤ data.length && data.length ≤ maxFrame) (.refused none)
  (parse data).map Prod.fst

/-! ### What the runner accepts -/

/-- The bytes of a grant. -/
def Grant.packed (grant : Grant) : Bytes := le 4 grant.execute ++ Wire.packed grant.path

/-- The bytes of the numbers. -/
def Header.layout (header : Header) : Bytes :=
  magic ++ (header.limits.flatMap (le 8) ++ (le 4 header.argc ++ (le 4 header.envc ++
    le 4 header.grants)))

def Launch.header (launch : Launch) : Header :=
  { limits := launch.limits, argc := launch.argv.length, envc := launch.env.length
    grants := launch.runtime.length }

/-- The bytes of a launch. -/
def Launch.layout (launch : Launch) : Bytes :=
  launch.header.layout ++ (packed launch.workspace ++ (packed launch.cwd ++
    (packed launch.executable ++ (launch.argv.flatMap packed ++ (launch.env.flatMap packed ++
      launch.runtime.flatMap Grant.packed)))))

structure Header.Valid (header : Header) : Prop where
  limits : admittedLimits header.limits
  argc : header.argc ≠ 0 ∧ header.argc ≤ 256
  envc : header.envc ≤ 128
  grants : header.grants ≤ 64

/-- An absolute path. -/
def Rooted (path : Bytes) : Prop := Framed path ∧ first path = slash

/-- An entry of the environment. -/
def Entry (value : Bytes) : Prop := Framed value ∧ (strchr equalsSign value).isSome

def Grant.Valid (grant : Grant) : Prop := grant.execute ≤ 1 ∧ Rooted grant.path

/-- The launches the runner admits. -/
structure Launch.Valid (launch : Launch) : Prop where
  header : launch.header.Valid
  workspace : Rooted launch.workspace
  cwd : Framed launch.cwd
  executable : Rooted launch.executable
  argv : ∀ value ∈ launch.argv, Framed value
  env : ∀ value ∈ launch.env, Entry value
  runtime : ∀ grant ∈ launch.runtime, grant.Valid

section Accepted

variable {input rest : Bytes}

theorem entry_eq_ok {value : Bytes} :
    entry input = .ok (value, rest) ↔ Entry value ∧ input = packed value ++ rest := by
  simp only [entry, Reader.bind_eq_ok, stringOr_eq_ok, ensure_eq_ok, Reader.pure_eq_ok]
  constructor
  · rintro ⟨_, _, ⟨hframed, hinput⟩, _, _, ⟨hsign, rfl⟩, rfl, rfl⟩
    exact ⟨⟨hframed, hsign⟩, hinput⟩
  · rintro ⟨⟨hframed, hsign⟩, hinput⟩
    exact ⟨value, rest, ⟨hframed, hinput⟩, (), rest, ⟨hsign, rfl⟩, rfl, rfl⟩

theorem grant_eq_ok {found : Grant} :
    grant input = .ok (found, rest) ↔ found.Valid ∧ input = found.packed ++ rest := by
  simp only [grant, Reader.bind_eq_ok, stringOr_eq_ok, ensure_eq_ok, remaining_eq_ok, word_eq_ok,
    Reader.pure_eq_ok, decide_eq_true_eq]
  constructor
  · rintro ⟨_, _, ⟨rfl, rfl⟩, _, _, ⟨-, rfl⟩, execute, _, ⟨-, rfl⟩, _, _, ⟨hexecute, rfl⟩, path,
      _, ⟨hframed, rfl⟩, _, _, ⟨hfirst, rfl⟩, rfl, rfl⟩
    exact ⟨⟨hexecute, hframed, hfirst⟩, by rw [Grant.packed, append_assoc]⟩
  · rintro ⟨⟨hexecute, hframed, hfirst⟩, rfl⟩
    have hleft : 4 ≤ (found.packed ++ rest).length := by
      rw [Grant.packed, append_assoc, length_append, length_le]
      omega
    have hword : found.execute < 256 ^ 4 := Nat.lt_of_le_of_lt hexecute (by decide)
    refine ⟨_, _, ⟨rfl, rfl⟩, (), _, ⟨hleft, rfl⟩, found.execute, packed found.path ++ rest,
      ⟨hword, ?_⟩, (), _, ⟨hexecute, rfl⟩, _, _, ⟨hframed, rfl⟩, (), _, ⟨hfirst, rfl⟩, rfl, rfl⟩
    rw [Grant.packed, append_assoc]

theorem admittedLimits_word {limits : List Nat} (h : admittedLimits limits) :
    limits.length = 7 ∧ ∀ limit ∈ limits, limit < 256 ^ 8 := by
  revert h
  fun_cases admittedLimits limits with
  | case1 wall data file output tasks cpu descriptors =>
    intro h
    simp only [Bool.and_eq_true, decide_eq_true_eq] at h
    refine ⟨rfl, ?_⟩
    simp only [forall_mem_cons]
    exact ⟨by omega, by omega, by omega, by omega, by omega, by omega, by omega, nofun⟩
  | case2 => nofun

theorem header_eq_ok {found : Header} :
    header input = .ok (found, rest) ↔ found.Valid ∧ input = found.layout ++ rest := by
  simp only [header, Reader.bind_eq_ok, copy_eq_ok, ensure_eq_ok, words_eq_ok, word_eq_ok,
    Reader.pure_eq_ok, decide_eq_true_eq, Bool.and_eq_true, decide_not, Bool.not_eq_true',
    decide_eq_false_iff_not]
  constructor
  · rintro ⟨_, _, ⟨-, rfl⟩, _, _, ⟨rfl, rfl⟩, limits, _, ⟨-, -, rfl⟩, argc, _, ⟨-, rfl⟩, envc, _,
      ⟨-, rfl⟩, grants, _, ⟨-, rfl⟩, _, _, ⟨⟨⟨⟨⟨hargc, hargc'⟩, henvc⟩, hgrants⟩, hlimits⟩, rfl⟩,
      rfl, rfl⟩
    refine ⟨⟨hlimits, ⟨hargc, hargc'⟩, henvc, hgrants⟩, ?_⟩
    simp only [Header.layout, append_assoc]
  · rintro ⟨hvalid, rfl⟩
    obtain ⟨hseven, hword⟩ := admittedLimits_word hvalid.limits
    have hargc : found.argc < 256 ^ 4 := Nat.lt_of_le_of_lt hvalid.argc.2 (by decide)
    have henvc : found.envc < 256 ^ 4 := Nat.lt_of_le_of_lt hvalid.envc (by decide)
    have hgrants : found.grants < 256 ^ 4 := Nat.lt_of_le_of_lt hvalid.grants (by decide)
    simp only [Header.layout, append_assoc]
    exact ⟨_, _, ⟨rfl, rfl⟩, (), _, ⟨rfl, rfl⟩, _, _, ⟨hseven, hword, rfl⟩, _, _, ⟨hargc, rfl⟩, _, _,
      ⟨henvc, rfl⟩, _, _, ⟨hgrants, rfl⟩, (), _,
      ⟨⟨⟨⟨hvalid.argc, hvalid.envc⟩, hvalid.grants⟩, hvalid.limits⟩, rfl⟩, rfl, rfl⟩

theorem environment_eq_ok {n : Nat} {values : List Bytes} :
    times n entry input = .ok (values, rest) ↔ values.length = n ∧
      (∀ value ∈ values, Entry value) ∧ input = values.flatMap packed ++ rest :=
  times_eq_ok fun _ _ _ => entry_eq_ok

theorem grants_eq_ok {n : Nat} {grants : List Grant} :
    times n grant input = .ok (grants, rest) ↔ grants.length = n ∧
      (∀ grant ∈ grants, grant.Valid) ∧ input = grants.flatMap Grant.packed ++ rest :=
  times_eq_ok fun _ _ _ => grant_eq_ok

theorem strings_eq_ok {header : Header} {launch : Launch} :
    strings header input = .ok (launch, rest) ↔
      (launch.header = header ∧ Rooted launch.workspace ∧ Framed launch.cwd ∧
        Rooted launch.executable ∧ (∀ value ∈ launch.argv, Framed value) ∧
        (∀ value ∈ launch.env, Entry value) ∧ ∀ grant ∈ launch.runtime, grant.Valid) ∧
      rest = [] ∧
      input = packed launch.workspace ++ (packed launch.cwd ++ (packed launch.executable ++
        (launch.argv.flatMap packed ++ (launch.env.flatMap packed ++
          launch.runtime.flatMap Grant.packed)))) := by
  simp only [strings, argument, Reader.bind_eq_ok, given_eq_ok, ensure_eq_ok, arguments_eq_ok,
    environment_eq_ok, grants_eq_ok, remaining_eq_ok, Reader.pure_eq_ok, decide_eq_true_eq,
    Bool.and_eq_true]
  constructor
  · rintro ⟨_, _, hread, _, _, hread', _, _, hread'', workspace, _, hgiven, cwd, _, hgiven',
      executable, _, hgiven'', _, _, hensure, argv, _, hargs, env, _, henvs, runtime, _, hruntimes,
      _, _, hremaining, _, _, hend, hpure⟩
    -- substituted from the front, one read at a time
    obtain ⟨rfl, rfl⟩ := hgiven
    obtain ⟨rfl, rfl⟩ := hgiven'
    obtain ⟨rfl, rfl⟩ := hgiven''
    obtain ⟨⟨hfirst, hfirst'⟩, rfl⟩ := hensure
    obtain ⟨hargc, hargv, rfl⟩ := hargs
    obtain ⟨henvc, henv, rfl⟩ := henvs
    obtain ⟨hruntimec, hruntime, rfl⟩ := hruntimes
    obtain ⟨rfl, rfl⟩ := hremaining
    obtain ⟨hleft, rfl⟩ := hend
    obtain ⟨rfl, rfl⟩ := hpure
    obtain ⟨hworkspace, rfl⟩ := string_eq_ok.mp hread
    obtain ⟨hcwd, rfl⟩ := string_eq_ok.mp hread'
    obtain ⟨hexecutable, rfl⟩ := string_eq_ok.mp hread''
    obtain rfl := length_eq_zero_iff.mp hleft
    obtain ⟨limits, argc, envc, grants⟩ := header
    obtain rfl : argv.length = argc := hargc
    obtain rfl : env.length = envc := henvc
    obtain rfl : runtime.length = grants := hruntimec
    refine ⟨⟨rfl, ⟨hworkspace, hfirst⟩, hcwd, ⟨hexecutable, hfirst'⟩, hargv, henv, hruntime⟩, rfl,
      ?_⟩
    rw [append_nil]
  · rintro ⟨⟨rfl, hworkspace, hcwd, hexecutable, hargv, henv, hruntime⟩, rfl, rfl⟩
    exact ⟨_, _, string_eq_ok.mpr ⟨hworkspace.1, rfl⟩, _, _, string_eq_ok.mpr ⟨hcwd, rfl⟩, _, _,
      string_eq_ok.mpr ⟨hexecutable.1, rfl⟩, _, _, ⟨rfl, rfl⟩, _, _, ⟨rfl, rfl⟩, _, _, ⟨rfl, rfl⟩,
      (), _, ⟨⟨hworkspace.2, hexecutable.2⟩, rfl⟩, _, _, ⟨rfl, hargv, rfl⟩, _, _, ⟨rfl, henv, rfl⟩,
      _, _, ⟨rfl, hruntime, (append_nil _).symm⟩, _, _, ⟨rfl, rfl⟩, (), _, ⟨rfl, rfl⟩, rfl, rfl⟩

end Accepted

theorem length_layout {header : Header} (h : header.Valid) : header.layout.length = 76 := by
  simp only [Header.layout, length_append, length_flatMap_le, length_le,
    (admittedLimits_word h.limits).1]
  rfl

/-- **What the runner accepts**: the layouts of valid launches, up to the bound on the size. -/
theorem configuration_eq_ok {data : Bytes} {launch : Launch} :
    configuration data = .ok launch ↔
      launch.Valid ∧ data = launch.layout ∧ data.length ≤ maxFrame := by
  simp only [configuration, Lib.bind_eq_ok, require_eq_ok, exists_unit, Lib.map_eq_ok, parse,
    Bool.and_eq_true, decide_eq_true_eq]
  constructor
  · rintro ⟨⟨-, hbound⟩, ⟨found, rest⟩, hparse, rfl⟩
    obtain ⟨header, mid, hheader, hstrings⟩ := Reader.bind_eq_ok.mp hparse
    obtain ⟨hvalid, rfl⟩ := header_eq_ok.mp hheader
    obtain ⟨⟨rfl, hworkspace, hcwd, hexecutable, hargv, henv, hruntime⟩, -, rfl⟩ :=
      strings_eq_ok.mp hstrings
    exact ⟨⟨hvalid, hworkspace, hcwd, hexecutable, hargv, henv, hruntime⟩, rfl, hbound⟩
  · rintro ⟨hvalid, rfl, hbound⟩
    refine ⟨⟨?_, hbound⟩, (launch, []), ?_, rfl⟩
    · rw [Launch.layout, length_append, length_layout hvalid.header]
      omega
    · refine Reader.bind_eq_ok.mpr ⟨launch.header, _, header_eq_ok.mpr ⟨hvalid.header, rfl⟩, ?_⟩
      exact strings_eq_ok.mpr ⟨⟨rfl, hvalid.workspace, hvalid.cwd, hvalid.executable, hvalid.argv,
        hvalid.env, hvalid.runtime⟩, rfl, rfl⟩

/-! ### The supervisor -/

/-- The keyword arguments of `envelope`. -/
structure Intent where
  workspace : Text
  cwdRelative : Text
  executable : Text
  argv : List Text
  environment : List Text
  runtime : List (Text × Bool)
  wallMs : Int
  dataBytes : Int
  fileBytes : Int
  outputBytes : Int
  uidTasks : Int
  cpuSeconds : Int
  descriptors : Int

def Intent.numeric (intent : Intent) : List Int :=
  [intent.wallMs, intent.dataBytes, intent.fileBytes, intent.outputBytes, intent.uidTasks,
    intent.cpuSeconds, intent.descriptors]

def bounds : List (Int × Int) :=
  [(1, 3600000), (16777216, 2147483648), (1, 1073741824), (1, 67108864), (1, 128), (1, 3600),
    (16, 1024)]

/-- `struct.pack("<I", int(execute)) + frame(path)`. -/
def frameGrant (grant : Text × Bool) : Except String Bytes := do
  let framed ← frame grant.1
  pure (le 4 grant.2.toNat ++ framed)

/-- `wire.envelope`. -/
def envelope (intent : Intent) : Except String Bytes := do
  require (intent.argv.length ≠ 0 && intent.argv.length ≤ 256 && intent.environment.length ≤ 128 &&
    intent.runtime.length ≤ 64) "Native envelope cardinality is outside its bounds"
  require ((intent.numeric.zip bounds).all fun p => p.2.1 ≤ p.1 && p.1 ≤ p.2.2)
    "Native resource allowance is outside its bounds"
  let header := magic ++ (intent.numeric.map Int.toNat).flatMap (le 8) ++
    le 4 intent.argv.length ++ le 4 intent.environment.length ++ le 4 intent.runtime.length
  let paths ← [intent.workspace, intent.cwdRelative, intent.executable].mapM frame
  let argv ← intent.argv.mapM frame
  let environment ← intent.environment.mapM frame
  let runtime ← intent.runtime.mapM frameGrant
  let payload := header ++ paths.flatten ++ argv.flatten ++ environment.flatten ++ runtime.flatten
  require (payload.length ≤ 196608) "Native launch envelope exceeds its bound"
  pure payload

/-- What the caller of `envelope` guarantees. -/
structure Intent.Guaranteed (intent : Intent) : Prop where
  workspace : intent.workspace.head? = some '/'
  executable : intent.executable.head? = some '/'
  runtime : ∀ grant ∈ intent.runtime, grant.1.head? = some '/'
  environment : ∀ value ∈ intent.environment, '=' ∈ value

/-- The launch an intent describes. -/
def Intent.launch (intent : Intent) : Launch where
  limits := intent.numeric.map Int.toNat
  workspace := utf8Encode intent.workspace
  cwd := utf8Encode intent.cwdRelative
  executable := utf8Encode intent.executable
  argv := intent.argv.map utf8Encode
  env := intent.environment.map utf8Encode
  runtime := intent.runtime.map fun grant => ⟨grant.2.toNat, utf8Encode grant.1⟩

theorem mapM_frameGrant_eq_ok {grants : List (Text × Bool)} {frames : List Bytes} :
    grants.mapM frameGrant = .ok frames ↔ (∀ grant ∈ grants, Framed (utf8Encode grant.1)) ∧
      frames = grants.map fun grant => Grant.packed ⟨grant.2.toNat, utf8Encode grant.1⟩ := by
  induction grants generalizing frames with
  | nil =>
    rw [mapM_nil, Lib.pure_eq_ok]
    simp [eq_comm]
  | cons grant grants ih =>
    simp only [mapM_cons, Lib.bind_eq_ok, Lib.pure_eq_ok, frameGrant, frame_eq_ok, ih,
      forall_mem_cons, map_cons]
    constructor
    · rintro ⟨_, ⟨_, ⟨hgrant, rfl⟩, rfl⟩, _, ⟨hgrants, rfl⟩, rfl⟩
      exact ⟨⟨hgrant, hgrants⟩, rfl⟩
    · rintro ⟨⟨hgrant, hgrants⟩, rfl⟩
      exact ⟨_, ⟨_, ⟨hgrant, rfl⟩, rfl⟩, _, ⟨hgrants, rfl⟩, rfl⟩

/-- The ranges of the two sides are the same. -/
theorem admitted_numeric {intent : Intent}
    (h : (intent.numeric.zip bounds).all fun p => p.2.1 ≤ p.1 && p.1 ≤ p.2.2) :
    admittedLimits (intent.numeric.map Int.toNat) := by
  simp only [Intent.numeric, bounds, zip_cons_cons, zip_nil_right, all_cons,
    all_nil, Bool.and_eq_true, decide_eq_true_eq] at h
  simp only [Intent.numeric, map_cons, map_nil, admittedLimits, Bool.and_eq_true,
    decide_eq_true_eq]
  omega

theorem envelope_eq_ok {intent : Intent} {payload : Bytes} (hguaranteed : intent.Guaranteed)
    (h : envelope intent = .ok payload) :
    intent.launch.Valid ∧ payload = intent.launch.layout ∧ payload.length ≤ maxFrame := by
  simp only [envelope, Lib.bind_eq_ok, require_eq_ok, exists_unit, Lib.pure_eq_ok, mapM_frame_eq_ok,
    mapM_frameGrant_eq_ok, Bool.and_eq_true, decide_eq_true_eq, decide_not, Bool.not_eq_true',
    decide_eq_false_iff_not, forall_mem_cons] at h
  obtain ⟨⟨⟨⟨hargc, hargc'⟩, henvc⟩, hgrants⟩, hnumeric, _, ⟨⟨hworkspace, hcwd, hexecutable, -⟩,
    rfl⟩, _, ⟨hargv, rfl⟩, _, ⟨henv, rfl⟩, _, ⟨hruntime, rfl⟩, hbound, rfl⟩ := h
  have hheader : intent.launch.header.Valid := {
    limits := admitted_numeric hnumeric
    argc := by simpa [Launch.header, Intent.launch] using And.intro hargc hargc'
    envc := by simpa [Launch.header, Intent.launch] using henvc
    grants := by simpa [Launch.header, Intent.launch] using hgrants }
  refine ⟨{
    header := hheader
    workspace := ⟨hworkspace, first_utf8Encode hguaranteed.workspace⟩
    cwd := hcwd
    executable := ⟨hexecutable, first_utf8Encode hguaranteed.executable⟩
    argv := by simpa [Intent.launch] using hargv
    env := ?_
    runtime := ?_ }, ?_, hbound⟩
  · intro bytes hbytes
    obtain ⟨value, hvalue, rfl⟩ := mem_map.mp hbytes
    obtain ⟨rest, hrest⟩ := utf8Encode_entry (hguaranteed.environment value hvalue)
    refine ⟨henv value hvalue, ?_⟩
    rw [hrest, strchr_append (not_mem_utf8Encode_key value)]
    rfl
  · intro found hfound
    obtain ⟨grant, hgrant, rfl⟩ := mem_map.mp hfound
    exact ⟨Bool.toNat_le grant.2, hruntime grant hgrant,
      first_utf8Encode (hguaranteed.runtime grant hgrant)⟩
  · simp only [Launch.layout, Header.layout, Launch.header, Intent.launch, flatMap_map,
      length_map, map_cons, map_nil, flatten_cons, flatten_nil,
      ← flatMap_def, append_assoc, nil_append]

/-- **The managed envelope.** On every guaranteed intent the supervisor encodes, the runner
decodes the same limits, paths, arguments, environment and grants; every envelope it accepts is
the encoding of what it decodes. -/
theorem managed_round_trip :
    (∀ intent payload, intent.Guaranteed → envelope intent = .ok payload →
      configuration payload = .ok intent.launch) ∧
    ∀ data launch, configuration data = .ok launch → launch.layout = data := by
  constructor
  · intro intent payload hguaranteed h
    exact configuration_eq_ok.mpr (envelope_eq_ok hguaranteed h)
  · intro data launch h
    exact (configuration_eq_ok.mp h).2.1.symm

/-- A shell with one executable and one plain runtime path. -/
def shell : Intent where
  workspace := "/w".toList
  cwdRelative := ".".toList
  executable := "/bin/sh".toList
  argv := ["sh".toList]
  environment := ["A=1".toList]
  runtime := [("/system/bin".toList, true), ("/etc".toList, false)]
  wallMs := 1000
  dataBytes := 16777216
  fileBytes := 1
  outputBytes := 1
  uidTasks := 1
  cpuSeconds := 1
  descriptors := 16

theorem managed_round_trip_shell : ∃ payload, envelope shell = .ok payload ∧
    configuration payload = .ok shell.launch ∧ shell.launch.layout = payload := by
  have hguaranteed : shell.Guaranteed :=
    ⟨by decide +kernel, by decide +kernel, by decide +kernel, by decide +kernel⟩
  obtain ⟨payload, h⟩ := exists_ok_of_isOk (x := envelope shell) (by decide +kernel)
  have hdecoded := managed_round_trip.1 shell payload hguaranteed h
  exact ⟨payload, h, hdecoded, managed_round_trip.2 _ _ hdecoded⟩

end FoldGPT.Wire.Managed
