import FoldGPT.Wire.Frame

/-!
# The direct and the terminal launch envelope

`direct_wire.py` and `tty_wire.py` write an envelope, `direct-runner.c` and `tty-runner.c` read
it. The two formats differ in the magic and in the two words of the terminal size, so there is
one definition for each side, with the profile as its parameter.

Main result: `launch_round_trip`.
-/

namespace FoldGPT.Wire

open FoldGPT.Lib FoldGPT.Lib.Encoding FoldGPT.Lib.Reader
open List hiding utf8Encode

/-- What distinguishes the two formats. -/
structure Profile where
  magic : Bytes
  /-- The words behind the counts. -/
  dimensions : Nat
  sized : magic.length = 8

/-- `FGBD0001`. -/
def direct : Profile := ⟨[70, 71, 66, 68, 48, 48, 48, 49], 0, rfl⟩

/-- `FGBT0001`, with the rows and columns. -/
def tty : Profile := ⟨[70, 71, 66, 84, 48, 48, 48, 49], 2, rfl⟩

/-- The fields of `struct configuration`. -/
structure Launch where
  /-- `wall`, `data`, `file`, `output`, `tasks`, `cpu`, `descriptors`, `grace`. -/
  limits : List Nat
  /-- `rows`, `cols`. -/
  dimensions : List Nat
  cwd : Bytes
  executable : Bytes
  argv : List Bytes
  env : List Bytes
  deriving DecidableEq

/-! ### The runner -/

inductive Errno
  | eproto
  | einval
  deriving DecidableEq

def maxFrame : Nat := 196608

/-- The bytes before the first string. -/
def Profile.header (profile : Profile) : Nat := 80 + 4 * profile.dimensions

/-- `'='`. -/
def equalsSign : UInt8 := 61

/-- `'/'`. -/
def slash : UInt8 := 47

/-- One turn of the loop over the environment. -/
def entry (before : List Bytes) : Reader Errno Bytes := do
  let value ← stringOr .einval
  let equals ← given (strchr equalsSign value) .einval
  ensure (equals ≠ 0) .einval
  ensure (before.all fun earlier => !strncmpZero (equals + 1) earlier value) .einval
  pure value

/-- One turn of the loop over the arguments. -/
def argument : Reader Errno Bytes := stringOr .eproto

/-- The numbers in front of the strings. -/
structure Header where
  limits : List Nat
  argc : Nat
  envc : Nat
  dimensions : List Nat

def Header.descriptors (header : Header) : Nat := header.limits.getD 6 0

def Header.grace (header : Header) : Nat := header.limits.getD 7 0

/-- The bytes of the numbers. -/
def Header.layout (profile : Profile) (header : Header) : Bytes :=
  profile.magic ++ (header.limits.flatMap (le 8) ++ (le 4 header.argc ++ (le 4 header.envc ++
    header.dimensions.flatMap (le 4))))

/-- `configuration` from the magic to the first string. -/
def header (profile : Profile) : Reader Errno Header := do
  let magic ← copy 8
  ensure (magic = profile.magic) .eproto
  let limits ← times 8 (word 8)
  ensure (limits.all fun limit => limit ≤ 9007199254740991) .einval
  let argc ← word 4
  let envc ← word 4
  let dimensions ← times profile.dimensions (word 4)
  ensure (dimensions.all fun size => size ≠ 0 && size ≤ 65535) .einval
  let header := { limits, argc, envc, dimensions : Header }
  ensure (header.grace ≠ 0 && argc ≠ 0 && argc ≤ 256 && envc ≤ 128 &&
    (header.descriptors = 0 || 8 ≤ header.descriptors)) .einval
  pure header

/-- `configuration` from the first string on. -/
def strings (header : Header) : Reader Errno Launch := do
  let cwd ← string
  -- the second string is read before the first is looked at
  let executable ← string
  let cwd ← given cwd .einval
  let executable ← given executable .einval
  ensure (first cwd = slash && first executable = slash) .einval
  let argv ← times header.argc argument
  let env ← collect entry header.envc []
  let left ← remaining
  ensure (left = 0) .eproto
  pure { limits := header.limits, dimensions := header.dimensions, cwd, executable, argv, env }

def parse (profile : Profile) : Reader Errno Launch := do
  let header ← header profile
  strings header

/-- `configuration` of the runners on the content of the sealed file. -/
def configuration (profile : Profile) (data : Bytes) : Except (Fault Errno) Launch := do
  require (profile.header ≤ data.length && data.length ≤ maxFrame) (.refused .eproto)
  (parse profile data).map Prod.fst

def directConfiguration : Bytes → Except (Fault Errno) Launch := configuration direct

def ttyConfiguration : Bytes → Except (Fault Errno) Launch := configuration tty

/-- An entry of the environment the runner admits after the earlier ones. -/
def Entry (before : List Bytes) (value : Bytes) : Prop :=
  Framed value ∧ ∃ equals, strchr equalsSign value = some equals ∧ equals ≠ 0 ∧
    ∀ earlier ∈ before, earlier.take (equals + 1) ≠ value.take (equals + 1)

def Launch.header (launch : Launch) : Header :=
  { limits := launch.limits, argc := launch.argv.length, envc := launch.env.length
    dimensions := launch.dimensions }

/-- The bytes of a launch. -/
def Launch.layout (profile : Profile) (launch : Launch) : Bytes :=
  launch.header.layout profile ++ (packed launch.cwd ++ (packed launch.executable ++
    (launch.argv.flatMap packed ++ launch.env.flatMap packed)))

structure Header.Valid (profile : Profile) (header : Header) : Prop where
  eight : header.limits.length = 8
  limit : ∀ limit ∈ header.limits, limit ≤ 9007199254740991
  sizes : header.dimensions.length = profile.dimensions
  size : ∀ size ∈ header.dimensions, size ≠ 0 ∧ size ≤ 65535
  grace : header.grace ≠ 0
  descriptors : header.descriptors = 0 ∨ 8 ≤ header.descriptors
  argc : header.argc ≠ 0 ∧ header.argc ≤ 256
  envc : header.envc ≤ 128

/-- The launches the runner admits. -/
structure Launch.Valid (profile : Profile) (launch : Launch) : Prop where
  header : launch.header.Valid profile
  cwd : Framed launch.cwd ∧ first launch.cwd = slash
  executable : Framed launch.executable ∧ first launch.executable = slash
  argv : ∀ value ∈ launch.argv, Framed value
  env : Admitted Entry [] launch.env

variable {input rest : Bytes}

theorem entry_eq_ok {before : List Bytes} {value : Bytes} :
    entry before input = .ok (value, rest) ↔ Entry before value ∧ input = packed value ++ rest := by
  simp only [entry, Reader.bind_eq_ok, stringOr_eq_ok, given_eq_ok, ensure_eq_ok,
    Reader.pure_eq_ok, all_eq_true, Bool.not_eq_true', Bool.eq_false_iff, ne_eq, strncmpZero_iff,
    decide_not, decide_eq_true_eq]
  constructor
  · rintro ⟨_, _, ⟨hframed, hinput⟩, equals, _, ⟨hequals, rfl⟩, _, _, ⟨hne, rfl⟩, _, _,
      ⟨hfresh, rfl⟩, rfl, rfl⟩
    exact ⟨⟨hframed, equals, hequals, hne, hfresh⟩, hinput⟩
  · rintro ⟨⟨hframed, equals, hequals, hne, hfresh⟩, hinput⟩
    exact ⟨value, rest, ⟨hframed, hinput⟩, equals, rest, ⟨hequals, rfl⟩, (), rest, ⟨hne, rfl⟩, (),
      rest, ⟨hfresh, rfl⟩, rfl, rfl⟩

variable {profile : Profile}

/-- **The numbers** are accepted when they are valid, and are then the bytes in front. -/
theorem header_eq_ok {found : Header} :
    header profile input = .ok (found, rest) ↔
      found.Valid profile ∧ input = found.layout profile ++ rest := by
  simp only [header, Reader.bind_eq_ok, copy_eq_ok, ensure_eq_ok, words_eq_ok, word_eq_ok,
    Reader.pure_eq_ok, decide_eq_true_eq, all_eq_true, Bool.and_eq_true, Bool.or_eq_true,
    decide_not, Bool.not_eq_true', decide_eq_false_iff_not]
  constructor
  · rintro ⟨_, _, ⟨-, rfl⟩, _, _, ⟨rfl, rfl⟩, limits, _, ⟨height, -, rfl⟩, _, _, ⟨hlimit, rfl⟩,
      argc, _, ⟨-, rfl⟩, envc, _, ⟨-, rfl⟩, dimensions, _, ⟨hsizes, -, rfl⟩, _, _,
      ⟨hsize, rfl⟩, _, _, ⟨⟨⟨⟨⟨hgrace, hargc⟩, hargc'⟩, henvc⟩, hdescriptors⟩, rfl⟩, rfl, rfl⟩
    refine ⟨⟨height, hlimit, hsizes, hsize, hgrace, hdescriptors, ⟨hargc, hargc'⟩, henvc⟩, ?_⟩
    simp only [Header.layout, append_assoc]
  · rintro ⟨hvalid, rfl⟩
    have hargc : found.argc < 256 ^ 4 := Nat.lt_of_le_of_lt hvalid.argc.2 (by decide)
    have henvc : found.envc < 256 ^ 4 := Nat.lt_of_le_of_lt hvalid.envc (by decide)
    have hlimit : ∀ limit ∈ found.limits, limit < 256 ^ 8 := fun limit hmem =>
      Nat.lt_of_le_of_lt (hvalid.limit limit hmem) (by decide)
    have hsize : ∀ size ∈ found.dimensions, size < 256 ^ 4 := fun size hmem =>
      Nat.lt_of_le_of_lt (hvalid.size size hmem).2 (by decide)
    simp only [Header.layout, append_assoc]
    exact ⟨_, _, ⟨profile.sized, rfl⟩, (), _, ⟨rfl, rfl⟩, _, _, ⟨hvalid.eight, hlimit, rfl⟩, (), _,
      ⟨hvalid.limit, rfl⟩, _, _, ⟨hargc, rfl⟩, _, _, ⟨henvc, rfl⟩, _, _,
      ⟨hvalid.sizes, hsize, rfl⟩, (), _, ⟨hvalid.size, rfl⟩, (), _,
      ⟨⟨⟨⟨⟨hvalid.grace, hvalid.argc.1⟩, hvalid.argc.2⟩, hvalid.envc⟩, hvalid.descriptors⟩, rfl⟩,
      rfl, rfl⟩

theorem arguments_eq_ok {ε : Type} {error : ε} {n : Nat} {values : List Bytes} :
    times n (stringOr error) input = .ok (values, rest) ↔ values.length = n ∧
      (∀ value ∈ values, Framed value) ∧ input = values.flatMap packed ++ rest :=
  times_eq_ok fun _ _ _ => stringOr_eq_ok

theorem environment_eq_ok {n : Nat} {before all : List Bytes} :
    collect entry n before input = .ok (all, rest) ↔ ∃ values, all = before ++ values ∧
      values.length = n ∧ Admitted Entry before values ∧
        input = values.flatMap packed ++ rest := by
  have hentry : ∀ before input value rest, entry before input = .ok (value, rest) ↔
      Entry before value ∧ input = packed value ++ rest := fun _ _ _ _ => entry_eq_ok
  exact collect_eq_ok hentry

/-- **The strings** are accepted when they are valid and nothing follows them. -/
theorem strings_eq_ok {header : Header} {launch : Launch} :
    strings header input = .ok (launch, rest) ↔
      (launch.header = header ∧ (Framed launch.cwd ∧ first launch.cwd = slash) ∧
        (Framed launch.executable ∧ first launch.executable = slash) ∧
        (∀ value ∈ launch.argv, Framed value) ∧ Admitted Entry [] launch.env) ∧ rest = [] ∧
      input = packed launch.cwd ++ (packed launch.executable ++
        (launch.argv.flatMap packed ++ launch.env.flatMap packed)) := by
  simp only [strings, argument, Reader.bind_eq_ok, given_eq_ok, ensure_eq_ok, arguments_eq_ok,
    environment_eq_ok, remaining_eq_ok, Reader.pure_eq_ok, decide_eq_true_eq, Bool.and_eq_true,
    nil_append]
  constructor
  · rintro ⟨_, _, hread, _, _, hread', cwd, _, ⟨rfl, rfl⟩, executable, _, ⟨rfl, rfl⟩, _, _,
      ⟨⟨hfirst, hfirst'⟩, rfl⟩, argv, _, ⟨hargc, hargv, rfl⟩, env, _, ⟨_, rfl, henvc, henv, rfl⟩,
      _, _, ⟨rfl, rfl⟩, _, _, ⟨hleft, rfl⟩, rfl, rfl⟩
    obtain ⟨hcwd, rfl⟩ := string_eq_ok.mp hread
    obtain ⟨hexecutable, rfl⟩ := string_eq_ok.mp hread'
    obtain rfl := length_eq_zero_iff.mp hleft
    obtain ⟨limits, argc, envc, dimensions⟩ := header
    obtain rfl : argv.length = argc := hargc
    obtain rfl : env.length = envc := henvc
    refine ⟨⟨rfl, ⟨hcwd, hfirst⟩, ⟨hexecutable, hfirst'⟩, hargv, henv⟩, rfl, ?_⟩
    rw [append_nil]
  · rintro ⟨⟨rfl, ⟨hcwd, hfirst⟩, ⟨hexecutable, hfirst'⟩, hargv, henv⟩, rfl, rfl⟩
    exact ⟨_, _, string_eq_ok.mpr ⟨hcwd, rfl⟩, _, _, string_eq_ok.mpr ⟨hexecutable, rfl⟩, _, _,
      ⟨rfl, rfl⟩, _, _, ⟨rfl, rfl⟩, (), _, ⟨⟨hfirst, hfirst'⟩, rfl⟩, _, _, ⟨rfl, hargv, rfl⟩, _, _,
      ⟨_, rfl, rfl, henv, (append_nil _).symm⟩, _, _, ⟨rfl, rfl⟩, (), _, ⟨rfl, rfl⟩, rfl, rfl⟩

theorem length_layout (profile : Profile) {header : Header} (h : header.Valid profile) :
    (header.layout profile).length = profile.header := by
  simp only [Header.layout, length_append, length_flatMap_le, length_le, profile.sized,
    h.eight, h.sizes, Profile.header]
  omega

/-- **What the runner accepts**: the layouts of valid launches, up to the bound on the size. -/
theorem configuration_eq_ok {data : Bytes} {launch : Launch} :
    configuration profile data = .ok launch ↔
      launch.Valid profile ∧ data = launch.layout profile ∧ data.length ≤ maxFrame := by
  simp only [configuration, Lib.bind_eq_ok, require_eq_ok, exists_unit, Lib.map_eq_ok, parse,
    Bool.and_eq_true, decide_eq_true_eq]
  constructor
  · rintro ⟨⟨-, hbound⟩, ⟨found, rest⟩, hparse, rfl⟩
    obtain ⟨header, mid, hheader, hstrings⟩ := Reader.bind_eq_ok.mp hparse
    obtain ⟨hvalid, rfl⟩ := header_eq_ok.mp hheader
    obtain ⟨⟨rfl, hcwd, hexecutable, hargv, henv⟩, -, rfl⟩ := strings_eq_ok.mp hstrings
    exact ⟨⟨hvalid, hcwd, hexecutable, hargv, henv⟩, rfl, hbound⟩
  · rintro ⟨hvalid, rfl, hbound⟩
    refine ⟨⟨?_, hbound⟩, (launch, []), ?_, rfl⟩
    · rw [Launch.layout, length_append, length_layout profile hvalid.header]
      omega
    · refine Reader.bind_eq_ok.mpr ⟨launch.header, _, header_eq_ok.mpr ⟨hvalid.header, rfl⟩, ?_⟩
      exact strings_eq_ok.mpr
        ⟨⟨rfl, hvalid.cwd, hvalid.executable, hvalid.argv, hvalid.env⟩, rfl, rfl⟩

/-! ### No byte outside the envelope -/

theorem header_inside (h : profile.header ≤ input.length) : Inside (header profile) input := by
  rw [Profile.header] at h
  refine (copy_inside (by omega)).bind fun magic mid hmagic => ?_
  obtain ⟨hmagic, rfl⟩ := copy_eq_ok.mp hmagic
  rw [length_append] at h
  refine ensure_inside.bind fun _ mid henough => ?_
  obtain ⟨-, rfl⟩ := ensure_eq_ok.mp henough
  refine (words_inside (by omega)).bind fun limits mid hlimits => ?_
  obtain ⟨height, -, rfl⟩ := words_eq_ok.mp hlimits
  rw [length_append, length_flatMap_le, height] at h
  refine ensure_inside.bind fun _ mid hbound => ?_
  obtain ⟨-, rfl⟩ := ensure_eq_ok.mp hbound
  refine (word_inside (by omega)).bind fun argc mid hargc => ?_
  obtain ⟨-, rfl⟩ := word_eq_ok.mp hargc
  rw [length_append, length_le] at h
  refine (word_inside (by omega)).bind fun envc mid henvc => ?_
  obtain ⟨-, rfl⟩ := word_eq_ok.mp henvc
  rw [length_append, length_le] at h
  refine (words_inside (by omega)).bind fun dimensions mid _ => ?_
  exact ensure_inside.bind fun _ _ _ => ensure_inside.bind fun _ _ _ => pure_inside _

theorem entry_inside (before : List Bytes) (input : Bytes) : Inside (entry before) input :=
  stringOr_inside.bind fun _ _ _ => given_inside.bind fun _ _ _ =>
    ensure_inside.bind fun _ _ _ => ensure_inside.bind fun _ _ _ => pure_inside _

theorem strings_inside (header : Header) (input : Bytes) : Inside (strings header) input := by
  refine string_inside.bind fun _ _ _ => string_inside.bind fun _ _ _ => ?_
  refine given_inside.bind fun _ _ _ => given_inside.bind fun _ _ _ => ?_
  refine ensure_inside.bind fun _ _ _ => ?_
  refine (collect_inside fun _ _ => stringOr_inside).bind fun _ _ _ => ?_
  refine (collect_inside entry_inside).bind fun _ _ _ => ?_
  exact remaining_inside.bind fun _ _ _ => ensure_inside.bind fun _ _ _ => pure_inside _

theorem configuration_inside (profile : Profile) (data : Bytes) :
    configuration profile data ≠ .error .outside := by
  intro h
  rw [configuration, require] at h
  split at h
  next hsize =>
    have hinside : Inside (parse profile) data := by
      simp only [Bool.and_eq_true, decide_eq_true_eq] at hsize
      exact (header_inside hsize.1).bind fun header mid _ => strings_inside header mid
    cases hparse : parse profile data with
    | ok found => rw [hparse] at h; cases h
    | error fault =>
      rw [hparse] at h
      exact hinside (hparse.trans (congrArg _ (Except.error.inj h)))
  · cases h

/-! ### The supervisor -/

/-- The keyword arguments of `envelope`. -/
structure Intent where
  cwd : Text
  executable : Text
  argv : List Text
  environment : List Text
  wallMs : Option Int := none
  dataBytes : Option Int := none
  fileBytes : Option Int := none
  outputBytes : Option Int := none
  uidTasks : Option Int := none
  cpuSeconds : Option Int := none
  descriptors : Option Int := none
  cleanupGraceMs : Option Int := some 5000

/-- `values`. -/
def Intent.values (intent : Intent) : List (Option Int) :=
  [intent.wallMs, intent.dataBytes, intent.fileBytes, intent.outputBytes, intent.uidTasks,
    intent.cpuSeconds, intent.descriptors, intent.cleanupGraceMs]

/-- `value or 0`, an admitted value being positive. -/
def orZero (value : Option Int) : Nat := (value.getD 0).toNat

/-- `value.split("=", 1)[0]`. -/
def key (value : Text) : Text := value.takeWhile (· ≠ '=')

/-- `envelope`, with the words behind the counts. -/
def envelope (profile : Profile) (dimensions : List Int) (intent : Intent) :
    Except String Bytes := do
  require (intent.cwd.head? = some '/' && intent.executable.head? = some '/' &&
      1 ≤ intent.argv.length && intent.argv.length ≤ 256 && intent.environment.length ≤ 128)
    "Explicit native cwd, executable, argv and environment required"
  require ((intent.values.all fun value => value.all fun n => 1 ≤ n && n < 2 ^ 53) &&
      intent.cleanupGraceMs.isSome) "Resource limits must be positive integers or None"
  require (intent.descriptors.all fun n => 8 ≤ n)
    "At least eight descriptors are required for child setup"
  require (intent.environment.all fun value => value.contains '=' && value.head? ≠ some '=')
    "Environment must contain explicit nonempty names"
  require (decide (intent.environment.map key).Nodup) "Duplicate environment name"
  require (dimensions.all fun n => 1 ≤ n && n ≤ 65535)
    "Explicit nonzero native terminal rows and columns required"
  let frames ← (intent.cwd :: intent.executable :: (intent.argv ++ intent.environment)).mapM frame
  let payload := profile.magic ++ (intent.values.map orZero).flatMap (le 8) ++
    le 4 intent.argv.length ++ le 4 intent.environment.length ++
    (dimensions.map Int.toNat).flatMap (le 4) ++ frames.flatten
  require (payload.length ≤ 196608) "Native launch envelope exceeds its bound"
  pure payload

/-- `direct_wire.envelope`. -/
def directEnvelope : Intent → Except String Bytes := envelope direct []

/-- `tty_wire.envelope`. -/
def ttyEnvelope (rows cols : Int) : Intent → Except String Bytes := envelope tty [rows, cols]

/-- The launch an intent describes. -/
def Intent.launch (intent : Intent) (dimensions : List Int) : Launch where
  limits := intent.values.map orZero
  dimensions := dimensions.map Int.toNat
  cwd := utf8Encode intent.cwd
  executable := utf8Encode intent.executable
  argv := intent.argv.map utf8Encode
  env := intent.environment.map utf8Encode

/-! ### Names of variables -/

variable {value : Text}

theorem exists_key (h : '=' ∈ value) : ∃ rest, value = key value ++ '=' :: rest := by
  induction value with
  | nil => cases h
  | cons c value ih =>
    by_cases hc : c = '='
    · subst hc
      exact ⟨value, by simp [key]⟩
    · obtain ⟨rest, hrest⟩ := ih ((mem_cons.mp h).resolve_left (Ne.symm hc))
      refine ⟨rest, ?_⟩
      have hkey : key (c :: value) = c :: key value := by simp [key, hc]
      rw [hkey, cons_append, ← hrest]

theorem not_mem_key (value : Text) : '=' ∉ key value := fun h => by
  simpa using all_eq_true.mp all_takeWhile _ h

theorem utf8Encode_entry (h : '=' ∈ value) : ∃ rest,
    utf8Encode value = utf8Encode (key value) ++ equalsSign :: rest := by
  obtain ⟨rest, hrest⟩ := exists_key h
  refine ⟨utf8Encode rest, ?_⟩
  conv_lhs => rw [hrest]
  rw [Encoding.utf8Encode_append, Encoding.utf8Encode_cons, utf8EncodeChar_ascii (by decide)]
  rfl

theorem not_mem_utf8Encode_key (value : Text) : equalsSign ∉ utf8Encode (key value) :=
  fun h => not_mem_key value ((mem_utf8Encode (a := '=') (by decide)).mp h)

/-- Two texts that agree up to and with the first separator have the same part before it. -/
theorem eq_of_take_eq {x : UInt8} {a b s t : Bytes} (ha : x ∉ a) (hb : x ∉ b)
    (h : (a ++ x :: s).take (b.length + 1) = (b ++ x :: t).take (b.length + 1)) : a = b := by
  induction b generalizing a with
  | nil =>
    cases a with
    | nil => rfl
    | cons y a => exact absurd (head_eq_of_cons_eq h).symm fun hx => ha (hx ▸ mem_cons_self)
  | cons z b ih =>
    cases a with
    | nil => exact absurd (head_eq_of_cons_eq h) fun hx => hb (hx ▸ mem_cons_self)
    | cons y a =>
      obtain ⟨rfl, hrest⟩ := List.cons.inj h
      rw [ih (fun hmem => ha (mem_cons_of_mem _ hmem))
        (fun hmem => hb (mem_cons_of_mem _ hmem)) hrest]

theorem entry_utf8Encode {before : List Text}
    (hframed : Framed (utf8Encode value)) (hmem : '=' ∈ value) (hhead : value.head? ≠ some '=')
    (hbefore : ∀ earlier ∈ before, '=' ∈ earlier ∧ key earlier ≠ key value) :
    Entry (before.map utf8Encode) (utf8Encode value) := by
  obtain ⟨rest, hrest⟩ := utf8Encode_entry hmem
  have hsign := not_mem_utf8Encode_key value
  refine ⟨hframed, (utf8Encode (key value)).length, ?_, ?_, ?_⟩
  · rw [hrest]
    exact strchr_append hsign rest
  · intro hnil
    have hkey : key value = [] := utf8Encode_injective (length_eq_zero_iff.mp hnil)
    obtain ⟨tail, htail⟩ := exists_key hmem
    rw [hkey] at htail
    exact hhead (htail ▸ rfl)
  · intro earlier hearlier htake
    obtain ⟨text, htext, rfl⟩ := mem_map.mp hearlier
    obtain ⟨hsame, hne⟩ := hbefore text htext
    obtain ⟨rest', hrest'⟩ := utf8Encode_entry hsame
    rw [hrest, hrest'] at htake
    exact hne (utf8Encode_injective (eq_of_take_eq (not_mem_utf8Encode_key text) hsign htake))

/-- **Distinct names.** The loop of the runner admits every environment the supervisor admits. -/
theorem admitted_environment {before values : List Text}
    (hframed : ∀ value ∈ values, Framed (utf8Encode value))
    (hnamed : ∀ value ∈ before ++ values, '=' ∈ value)
    (hhead : ∀ value ∈ values, value.head? ≠ some '=')
    (hnodup : ((before ++ values).map key).Nodup) :
    Admitted Entry (before.map utf8Encode) (values.map utf8Encode) := by
  induction values generalizing before with
  | nil => trivial
  | cons value values ih =>
    refine ⟨entry_utf8Encode (hframed value mem_cons_self) (hnamed value (by simp))
      (hhead value mem_cons_self) fun earlier hearlier => ?_, ?_⟩
    · refine ⟨hnamed earlier (mem_append_left _ hearlier), ?_⟩
      rw [map_append] at hnodup
      exact (nodup_append.mp hnodup).2.2 _ (mem_map_of_mem hearlier) _
        (mem_map_of_mem mem_cons_self)
    · have hshift : before ++ value :: values = before ++ [value] ++ values := by simp
      rw [hshift] at hnamed hnodup
      have hrest := ih (fun v hv => hframed v (mem_cons_of_mem _ hv)) hnamed
        (fun v hv => hhead v (mem_cons_of_mem _ hv)) hnodup
      rwa [map_append] at hrest

/-! ### The two sides -/

theorem first_utf8Encode {text : Text} (h : text.head? = some '/') :
    first (utf8Encode text) = slash := by
  cases text with
  | nil => cases h
  | cons c text =>
    obtain rfl : c = '/' := Option.some.inj h
    rfl

/-- An admitted limit fits the runner's bound; none is written as zero. -/
theorem orZero_le {value : Option Int}
    (h : ∀ hsome : value.isSome, 1 ≤ value.get hsome ∧ value.get hsome < 2 ^ 53) :
    orZero value ≤ 9007199254740991 := by
  cases value with
  | none => exact Nat.zero_le _
  | some n =>
    obtain ⟨hlow, hhigh⟩ := h rfl
    simp only [orZero, Option.getD_some, Option.get_some] at *
    omega

theorem orZero_ge {value : Option Int} {low : Nat} (hsome : value.isSome)
    (h : (low : Int) ≤ value.get hsome) : low ≤ orZero value := by
  obtain ⟨n, rfl⟩ := Option.isSome_iff_exists.mp hsome
  simp only [orZero, Option.getD_some, Option.get_some] at *
  omega

theorem envelope_eq_ok {dimensions : List Int} {intent : Intent}
    {payload : Bytes} (hdimensions : dimensions.length = profile.dimensions)
    (h : envelope profile dimensions intent = .ok payload) :
    (intent.launch dimensions).Valid profile ∧
      payload = (intent.launch dimensions).layout profile ∧ payload.length ≤ maxFrame := by
  simp only [envelope, Lib.bind_eq_ok, require_eq_ok, exists_unit, Lib.pure_eq_ok, mapM_frame_eq_ok,
    Bool.and_eq_true, decide_eq_true_eq, all_eq_true, Option.all_eq_true_iff_get,
    contains_eq_mem, decide_not, Bool.not_eq_true', decide_eq_false_iff_not] at h
  obtain ⟨⟨⟨⟨⟨hcwd, hexecutable⟩, hargc⟩, hargc'⟩, henvc⟩, ⟨hvalues, hgrace⟩, hdescriptors, hnamed,
    hnodup, hsize, frames, ⟨hframed, rfl⟩, hbound, rfl⟩ := h
  simp only [forall_mem_cons, forall_mem_append] at hframed
  obtain ⟨hframedCwd, hframedExecutable, hframedArgv, hframedEnv⟩ := hframed
  have hheader : (intent.launch dimensions).header.Valid profile := {
    eight := rfl
    limit := by
      intro limit hlimit
      obtain ⟨value, hvalue, rfl⟩ := mem_map.mp hlimit
      exact orZero_le (hvalues value hvalue)
    sizes := (length_map _).trans hdimensions
    size := by
      intro size hmem
      obtain ⟨n, hn, rfl⟩ := mem_map.mp hmem
      have := hsize n hn
      omega
    grace := by
      have hpositive : 1 ≤ orZero _ :=
        orZero_ge hgrace (hvalues _ (by simp [Intent.values]) hgrace).1
      exact Nat.ne_of_gt hpositive
    descriptors := by
      show orZero intent.descriptors = 0 ∨ 8 ≤ orZero intent.descriptors
      by_cases hsome : intent.descriptors.isSome
      · exact .inr (orZero_ge hsome (hdescriptors hsome))
      · rw [Option.not_isSome_iff_eq_none.mp hsome]
        exact .inl rfl
    argc := by
      simp only [Launch.header, Intent.launch, length_map]
      omega
    envc := by simpa [Launch.header, Intent.launch] using henvc }
  refine ⟨⟨hheader, ⟨hframedCwd, first_utf8Encode hcwd⟩, ⟨hframedExecutable,
    first_utf8Encode hexecutable⟩, ?_, ?_⟩, ?_, hbound⟩
  · simpa [Intent.launch] using hframedArgv
  · exact @admitted_environment [] _ hframedEnv (fun value hv => (hnamed value hv).1)
      (fun value hv => (hnamed value hv).2) hnodup
  · simp only [Launch.layout, Header.layout, Launch.header, Intent.launch, flatMap_map,
      length_map, map_cons, map_append, flatten_cons, flatten_append,
      ← flatMap_def, append_assoc]

/-- **The launch envelopes.** On every intent the supervisor encodes, the runner decodes the
same limits, terminal size, strings, arguments and environment; every envelope it accepts is the
encoding of what it decodes; and it reads no byte outside one. -/
theorem launch_round_trip :
    (∀ intent payload, directEnvelope intent = .ok payload →
      directConfiguration payload = .ok (intent.launch [])) ∧
    (∀ rows cols intent payload, ttyEnvelope rows cols intent = .ok payload →
      ttyConfiguration payload = .ok (intent.launch [rows, cols])) ∧
    (∀ data launch, directConfiguration data = .ok launch → launch.layout direct = data) ∧
    (∀ data launch, ttyConfiguration data = .ok launch → launch.layout tty = data) ∧
    (∀ data, directConfiguration data ≠ .error .outside) ∧
    ∀ data, ttyConfiguration data ≠ .error .outside := by
  refine ⟨?_, ?_, ?_, ?_, configuration_inside direct, configuration_inside tty⟩
  · intro intent payload h
    exact configuration_eq_ok.mpr (envelope_eq_ok rfl h)
  · intro rows cols intent payload h
    exact configuration_eq_ok.mpr (envelope_eq_ok rfl h)
  · intro data launch h
    exact (configuration_eq_ok.mp h).2.1.symm
  · intro data launch h
    exact (configuration_eq_ok.mp h).2.1.symm

/-- A shell in a terminal of 24 rows. -/
def shell : Intent where
  cwd := "/".toList
  executable := "/bin/sh".toList
  argv := ["sh".toList]
  environment := ["A=1".toList, "AB=".toList]
  descriptors := some 64

theorem launch_round_trip_shell : ∃ payload, ttyEnvelope 24 80 shell = .ok payload ∧
    ttyConfiguration payload = .ok (shell.launch [24, 80]) ∧
    (shell.launch [24, 80]).layout tty = payload := by
  obtain ⟨payload, h⟩ := exists_ok_of_isOk (x := ttyEnvelope 24 80 shell) (by decide +kernel)
  have hdecoded := launch_round_trip.2.1 24 80 shell payload h
  exact ⟨payload, h, hdecoded, launch_round_trip.2.2.2.1 _ _ hdecoded⟩

end FoldGPT.Wire
