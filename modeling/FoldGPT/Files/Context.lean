import FoldGPT.Files.Policy
import FoldGPT.Json

/-!
# Policy contexts

`parse_context` checks a portable policy document member by member and resolves its
entries; `to_context_dict` writes a parsed policy down again in one normal form.
`PolicyIntent` keeps that form as JSON text, and parses its own text once more
when it is built.

Main result: `context_reparsed`.
-/

namespace FoldGPT.Files

open FoldGPT.Lib FoldGPT.Lib.Encoding FoldGPT.Lib.Url List Option

inductive Special
  | root
  | projectRoots
  | tmpdir
  | slashTmp
  deriving DecidableEq, Repr

/-- The `kind` of an entry with the fields that go with it. -/
inductive Target
  | path (path : GuestPath)
  | special (special : Special) (subpath : Option Path)
  deriving DecidableEq, Repr

structure Entry where
  access : Access
  target : Target
  deriving DecidableEq, Repr

/-- A resolved entry with its `source_index`. -/
structure SourcedEntry extends ResolvedEntry where
  sourceIndex : Nat
  deriving DecidableEq, Repr

inductive ProxyMode
  | reconcile
  | preserve
  deriving DecidableEq, Repr

/-- All fields of the class `ManagedPolicy`. -/
structure Context where
  cwd : GuestPath
  workspaceRoots : List GuestPath
  userHomeDir : Option GuestPath
  temporaryDirectories : Option (List GuestPath)
  entries : List Entry
  resolvedEntries : List SourcedEntry
  privateDesktop : Bool
  proxyMode : Option ProxyMode
  deriving DecidableEq, Repr

/-- The part of a context that decisions read. -/
def Context.policy (context : Context) : ManagedPolicy :=
  ⟨context.cwd, context.resolvedEntries.map (·.toResolvedEntry)⟩

/-- `decide`. -/
def Context.decide (context : Context) (absolute : List Char) : Except PolicyError Decision := do
  let path ← GuestPath.fromAbsolute absolute "path"
  pure (context.policy.decide path)

/-! ### Reading -/

/-- `value == text`. -/
def isText (value : Json) (text : String) : Bool :=
  match value with
  | .str s => s = text
  | _ => false

/-- `_object`. -/
def object (value : Json) (field : String) (allowed required : List String) :
    Except PolicyError Members :=
  match value with
  | .obj members => do
    checkAll (fun key => require (allowed.contains key) ⟨field ++ "." ++ key, "unsupported field"⟩)
      (Dict.keys members)
    checkAll (fun key => require (Dict.get members key).isSome
      ⟨field ++ "." ++ key, "required field is missing"⟩) required
    pure members
  | _ => .error ⟨field, "expected a JSON object"⟩

/-- `_array`. -/
def array (value : Json) (field : String) : Except PolicyError (List Json) :=
  match value with
  | .arr items => .ok items
  | _ => .error ⟨field, "expected a JSON array"⟩

/-- `_false_option`. -/
def falseOption (value : Json) (field : String) : Except PolicyError Unit :=
  match value with
  | .bool b => require (!b) ⟨field, "enabled option is unsupported"⟩
  | _ => .error ⟨field, "expected a boolean"⟩

/-- `_only_null`. -/
def onlyNull (value : Json) (field : String) : Except PolicyError Unit :=
  require value.isNull ⟨field, "non-null option is unsupported"⟩

/-- `GuestPath.from_uri` of any value. -/
def pathOf (rules : NetlocRules) (value : Json) (field : String) : Except PolicyError GuestPath :=
  match value with
  | .str s => GuestPath.fromUri rules s.toList field
  | _ => .error ⟨field, "expected a string"⟩

/-- The `access` of an entry; `none` is an alias of `deny`. -/
def accessOf (value : Json) (field : String) : Except PolicyError Access :=
  if isText value "read" then .ok .read
  else if isText value "write" then .ok .write
  else if isText value "deny" || isText value "none" then .ok .deny
  else .error ⟨field, "expected read, write, deny or the upstream none alias"⟩

/-- The `kind` of a special path. -/
def specialOf (value : Json) (field : String) : Except PolicyError Special :=
  if isText value "current_working_directory" || isText value "project_roots" then
    .ok .projectRoots
  else if isText value "root" then .ok .root
  else if isText value "tmpdir" then .ok .tmpdir
  else if isText value "slash_tmp" then .ok .slashTmp
  else .error ⟨field, "unsupported special path; no platform defaults or unknown-token fallback"⟩

/-- The `subpath` of the project roots, as native text. -/
def subpathOf (value : Json) (field : String) : Except PolicyError (Option Path) :=
  match value with
  | .null => .ok none
  | .str s => do
    let raw := s.toList
    text raw field
    require (!(raw.head? = some '/' || (raw.splitOn '/').contains dotDot))
      ⟨field, "absolute and parent-traversing subpaths are unsupported"⟩
    pure (some ((raw.splitOn '/').filter fun part => part != [] && part != dot))
  | _ => .error ⟨field, "expected a string"⟩

/-- The branch of `_entry` for special paths. -/
def specialEntry (field : String) (access : Access) (path : Members) :
    Except PolicyError Entry := do
  require (isText (path.read "type") "special") ⟨field ++ ".path.type",
    "only literal and supported special paths are accepted; globs are unsupported"⟩
  let _ ← object (.obj path) (field ++ ".path") ["type", "value"] ["value"]
  let special ← object (path.read "value") (field ++ ".path.value") ["kind", "subpath"] ["kind"]
  let kind ← specialOf (special.read "kind") (field ++ ".path.value.kind")
  require (!(kind = .root && access = .write)) ⟨field ++ ".access",
    "special root write requires the upstream full-disk narrowing analysis and is unsupported"⟩
  if kind = .projectRoots then do
    let subpath ← subpathOf (special.read "subpath") (field ++ ".path.value.subpath")
    pure ⟨access, .special kind subpath⟩
  else do
    let _ ← object (.obj special) (field ++ ".path.value") ["kind"] []
    pure ⟨access, .special kind none⟩

/-- The branch of `_entry` for literal paths. -/
def literalEntry (rules : NetlocRules) (field : String) (access : Access) (path : Members) :
    Except PolicyError Entry := do
  let _ ← object (.obj path) (field ++ ".path") ["type", "path"] ["path"]
  let guest ← pathOf rules (path.read "path") (field ++ ".path.path")
  pure ⟨access, .path guest⟩

/-- `_entry`. -/
def entryOf (rules : NetlocRules) (value : Json) (index : Nat) : Except PolicyError Entry := do
  let field := "$.permissions.file_system.entries[" ++ toString index ++ "]"
  let value ← object value field ["path", "access", "missing_path_behavior"] ["path", "access"]
  onlyNull (value.read "missing_path_behavior") (field ++ ".missing_path_behavior")
  let access ← accessOf (value.read "access") (field ++ ".access")
  let path ← object (value.read "path") (field ++ ".path") ["type", "path", "value", "pattern"]
    ["type"]
  if isText (path.read "type") "path" then literalEntry rules field access path
  else specialEntry field access path

/-- `paths` on the array of a member, with the indices in the names of the fields. -/
def pathsOf (rules : NetlocRules) (key : String) (value : Json) :
    Except PolicyError (List GuestPath) := do
  let values ← array value ("$." ++ key)
  values.zipIdx.mapM fun (value, index) =>
    pathOf rules value ("$." ++ key ++ "[" ++ toString index ++ "]")

/-- `windowsSandboxProxySettingsMode`. -/
def proxyModeOf (value : Json) : Except PolicyError (Option ProxyMode) :=
  if value.isNull then .ok none
  else if isText value "reconcile" then .ok (some .reconcile)
  else if isText value "preserve" then .ok (some .preserve)
  else .error ⟨"$.windowsSandboxProxySettingsMode",
    "expected null or a supported Windows proxy preference"⟩

/-- `windowsSandboxPrivateDesktop`. -/
def privateDesktopOf (value : Json) : Except PolicyError Bool :=
  match value with
  | .bool b => .ok b
  | _ => .error ⟨"$.windowsSandboxPrivateDesktop", "expected a boolean"⟩

/-- The paths an entry stands for. -/
def Target.resolve (roots : List GuestPath) (temps : Option (List GuestPath)) :
    Target → List GuestPath
  | .path guest => [guest]
  | .special .root _ => [⟨[]⟩]
  | .special .projectRoots subpath => roots.map (·.append (subpath.getD []))
  | .special .tmpdir _ => temps.getD []
  | .special .slashTmp _ => [⟨[['t', 'm', 'p']]⟩]

/-- The loop that makes `resolved`. -/
def resolve (roots : List GuestPath) (temps : Option (List GuestPath)) (entries : List Entry) :
    List SourcedEntry :=
  entries.zipIdx.flatMap fun (entry, index) =>
    (entry.target.resolve roots temps).map fun path => ⟨⟨path, entry.access⟩, index⟩

/-- The `entries` of the `permissions`, whose other members are checked. -/
def entriesOf (value : Json) : Except PolicyError Json := do
  let permissions ← object value "$.permissions" ["type", "file_system", "network"] ["type"]
  require (isText (permissions.read "type") "managed")
    ⟨"$.permissions.type", "only managed policies are accepted"⟩
  let _ ← object (.obj permissions) "$.permissions" ["type", "file_system", "network"]
    ["file_system", "network"]
  require (isText (permissions.read "network") "restricted") ⟨"$.permissions.network",
    "only restricted network intent is accepted; no networking is enforced here"⟩
  let fs ← object (permissions.read "file_system") "$.permissions.file_system"
    ["type", "entries", "glob_scan_max_depth"] ["type"]
  require (isText (fs.read "type") "restricted") ⟨"$.permissions.file_system.type",
    "only restricted filesystem policies are accepted"⟩
  let _ ← object (.obj fs) "$.permissions.file_system" ["type", "entries", "glob_scan_max_depth"]
    ["entries"]
  onlyNull (fs.read "glob_scan_max_depth") "$.permissions.file_system.glob_scan_max_depth"
  pure (fs.read "entries")

/-- `userHomeDir`. -/
def homeOf (rules : NetlocRules) (value : Json) : Except PolicyError (Option GuestPath) :=
  if value.isNull then .ok none else (pathOf rules value "$.userHomeDir").map some

/-- `temporaryDirectories`. -/
def tempsOf (rules : NetlocRules) (value : Json) : Except PolicyError (Option (List GuestPath)) :=
  if value.isNull then .ok none else (pathsOf rules "temporaryDirectories" value).map some

def contextKeys : List String :=
  ["permissions", "cwd", "workspaceRoots", "userHomeDir", "temporaryDirectories",
    "windowsSandboxLevel", "windowsSandboxPrivateDesktop", "windowsSandboxProxySettingsMode",
    "useLegacyLandlock"]

/-- `parse_context` of a decoded document. -/
def parseContext (rules : NetlocRules) (document : Json) : Except PolicyError Context := do
  let context ← object document "$" contextKeys ["permissions", "cwd", "windowsSandboxLevel"]
  require (isText (context.read "windowsSandboxLevel") "disabled") ⟨"$.windowsSandboxLevel",
    "only disabled Windows settings are accepted for this POSIX resolver"⟩
  let privateDesktop ←
    privateDesktopOf ((Dict.get context "windowsSandboxPrivateDesktop").getD (.bool false))
  let proxyMode ← proxyModeOf (context.read "windowsSandboxProxySettingsMode")
  falseOption ((Dict.get context "useLegacyLandlock").getD (.bool false)) "$.useLegacyLandlock"
  let listed ← entriesOf (context.read "permissions")
  let cwd ← pathOf rules (context.read "cwd") "$.cwd"
  let roots ← pathsOf rules "workspaceRoots" ((Dict.get context "workspaceRoots").getD (.arr []))
  let home ← homeOf rules (context.read "userHomeDir")
  let temps ← tempsOf rules (context.read "temporaryDirectories")
  let items ← array listed "$.permissions.file_system.entries"
  let entries ← items.zipIdx.mapM fun (value, index) => entryOf rules value index
  pure ⟨cwd, roots, home, temps, entries, resolve roots temps entries, privateDesktop, proxyMode⟩

/-! ### Writing -/

def GuestPath.json (path : GuestPath) : Json := .str (String.ofList path.uri)

def Access.value : Access → String
  | .read => "read"
  | .write => "write"
  | .deny => "deny"

def Special.value : Special → String
  | .root => "root"
  | .projectRoots => "project_roots"
  | .tmpdir => "tmpdir"
  | .slashTmp => "slash_tmp"

def ProxyMode.value : ProxyMode → String
  | .reconcile => "reconcile"
  | .preserve => "preserve"

/-- A member that is written only if it has a value. -/
def optional (key : String) (value : Option Json) : Members :=
  match value with
  | none => []
  | some value => [(key, value)]

def Target.toDict : Target → Json
  | .path guest => .obj [("type", .str "path"), ("path", guest.json)]
  | .special kind subpath =>
    .obj [("type", .str "special"), ("value", .obj (("kind", .str kind.value) ::
      optional "subpath"
        (subpath.map fun parts => .str (String.ofList (['/'].intercalate parts)))))]

/-- `Entry.to_dict`. -/
def Entry.toDict (entry : Entry) : Json :=
  .obj [("path", entry.target.toDict), ("access", .str entry.access.value)]

def Context.permissions (context : Context) : Json :=
  .obj [("type", .str "managed"),
    ("file_system", .obj [("type", .str "restricted"),
      ("entries", .arr (context.entries.map Entry.toDict))]),
    ("network", .str "restricted")]

def Context.members (context : Context) : Members :=
  [("permissions", context.permissions), ("cwd", context.cwd.json),
    ("workspaceRoots", .arr (context.workspaceRoots.map GuestPath.json)),
    ("windowsSandboxLevel", .str "disabled"),
    ("windowsSandboxPrivateDesktop", .bool context.privateDesktop),
    ("useLegacyLandlock", .bool false)] ++
  (optional "userHomeDir" (context.userHomeDir.map GuestPath.json) ++
  (optional "windowsSandboxProxySettingsMode" (context.proxyMode.map (.str ·.value)) ++
  optional "temporaryDirectories"
    (context.temporaryDirectories.map fun paths => .arr (paths.map GuestPath.json))))

/-- `to_context_dict`. -/
def Context.toContextDict (context : Context) : Json := .obj context.members

/-! ### What a parsed context keeps of the checks -/

/-- A component of a subpath. -/
def SubpathPart (part : Name) : Prop :=
  part ≠ [] ∧ '/' ∉ part ∧ part ≠ dot ∧ part ≠ dotDot ∧ part.any isControl = false

def Entry.Valid (entry : Entry) : Prop :=
  match entry.target with
  | .path path => path.Clean
  | .special kind subpath => (kind = .root → entry.access ≠ .write) ∧
      (kind ≠ .projectRoots → subpath = none) ∧
      ∀ parts, subpath = some parts → ∀ part ∈ parts, SubpathPart part

structure Context.Valid (context : Context) : Prop where
  cwd : context.cwd.Clean
  roots : ∀ path ∈ context.workspaceRoots, path.Clean
  home : ∀ path, context.userHomeDir = some path → path.Clean
  temps : ∀ paths, context.temporaryDirectories = some paths → ∀ path ∈ paths, path.Clean
  entries : ∀ entry ∈ context.entries, entry.Valid
  resolved : context.resolvedEntries =
    resolve context.workspaceRoots context.temporaryDirectories context.entries

variable {rules : NetlocRules}

variable {value : Json} {field : String}

theorem pathOf_clean {path : GuestPath} (h : pathOf rules value field = .ok path) : path.Clean := by
  unfold pathOf at h
  split at h
  · exact fromUri_clean h
  · cases h

theorem pathsOf_clean {key : String} {paths : List GuestPath}
    (h : pathsOf rules key value = .ok paths) : ∀ path ∈ paths, path.Clean := by
  simp only [pathsOf, bind_eq_ok] at h
  obtain ⟨values, -, h⟩ := h
  intro path hpath
  obtain ⟨x, -, hx⟩ := mem_of_mapM_eq_ok h hpath
  exact pathOf_clean hx

theorem subpathOf_parts {subpath : Option Path} (h : subpathOf value field = .ok subpath) :
    ∀ parts, subpath = some parts → ∀ part ∈ parts, SubpathPart part := by
  intro parts hparts part hpart
  unfold subpathOf at h
  split at h
  · cases h
    cases hparts
  next s =>
    simp only [text, bind_eq_ok, require_eq_ok, exists_const, pure_eq_ok, Bool.not_eq_true',
      Bool.or_eq_false_iff] at h
    obtain ⟨hplain, ⟨-, hparent⟩, hsubpath⟩ := h
    rw [hparts, Option.some.injEq] at hsubpath
    rw [← hsubpath] at hpart
    obtain ⟨hsplit, hkeep⟩ := mem_filter.mp hpart
    simp only [Bool.and_eq_true, bne_iff_ne] at hkeep
    refine ⟨hkeep.1, not_mem_of_mem_splitOn hsplit, hkeep.2, ?_, ?_⟩
    · rintro rfl
      rw [contains_eq_mem, decide_eq_false_iff_not] at hparent
      exact hparent hsplit
    · rw [List.any_eq_false] at hplain ⊢
      exact fun c hc => hplain c (mem_of_mem_splitOn hsplit hc)
  · cases h

theorem entryOf_valid {index : Nat} {entry : Entry}
    (h : entryOf rules value index = .ok entry) : entry.Valid := by
  simp only [entryOf, bind_eq_ok] at h
  obtain ⟨_, -, _, -, access, -, path, -, h⟩ := h
  split at h
  · simp only [literalEntry, bind_eq_ok, pure_eq_ok] at h
    obtain ⟨_, -, guest, hguest, rfl⟩ := h
    exact pathOf_clean hguest
  · simp only [specialEntry, bind_eq_ok, require_eq_ok, exists_const] at h
    obtain ⟨-, _, -, special, -, kind, -, hroot, h⟩ := h
    have hroot : kind = .root → access ≠ .write := by
      rintro rfl rfl
      exact absurd hroot (by decide)
    split at h
    next hkind =>
      simp only [bind_eq_ok, pure_eq_ok] at h
      obtain ⟨subpath, hsubpath, rfl⟩ := h
      exact ⟨hroot, fun hne => absurd hkind hne, subpathOf_parts hsubpath⟩
    · simp only [bind_eq_ok, pure_eq_ok] at h
      obtain ⟨_, -, rfl⟩ := h
      exact ⟨hroot, fun _ => rfl, by rintro _ ⟨⟩⟩

variable {context : Context}

theorem parseContext_valid {document : Json}
    (h : parseContext rules document = .ok context) : context.Valid := by
  simp only [parseContext, bind_eq_ok, pure_eq_ok] at h
  obtain ⟨_, -, _, -, desktop, -, proxy, -, _, -, _, -, cwd, hcwd, roots, hroots, home, hhome, temps,
    htemps, items, -, entries, hentries, rfl⟩ := h
  refine ⟨pathOf_clean hcwd, pathsOf_clean hroots, ?_, ?_, ?_, rfl⟩
  · rintro path rfl
    unfold homeOf at hhome
    split at hhome
    · cases hhome
    · obtain ⟨path', hpath, heq⟩ := map_eq_ok.mp hhome
      rw [← Option.some.inj heq]
      exact pathOf_clean hpath
  · rintro paths rfl
    unfold tempsOf at htemps
    split at htemps
    · cases htemps
    · obtain ⟨paths', hpaths, heq⟩ := map_eq_ok.mp htemps
      rw [← Option.some.inj heq]
      exact pathsOf_clean hpaths
  · intro entry hentry
    obtain ⟨x, -, hx⟩ := mem_of_mapM_eq_ok hentries hentry
    exact entryOf_valid hx

/-! ### Documents that are passed on -/

/-- Passing a document on may reorder the members of its objects. -/
structure Rewrite (f : Json → Json) : Prop where
  str : ∀ s, f (.str s) = .str s
  bool : ∀ b, f (.bool b) = .bool b
  arr : ∀ items, f (.arr items) = .arr (items.map f)
  obj : ∀ members : Members, (Dict.keys members).Nodup → ∃ members' : Members,
    f (.obj members) = .obj members' ∧
      ∀ key, Dict.get members' key = (Dict.get members key).map f

theorem rewrite_id : Rewrite id where
  str := fun _ => rfl
  bool := fun _ => rfl
  arr := fun items => by rw [List.map_id]; rfl
  obj := fun members _ => ⟨members, rfl, fun key => by rw [Option.map_id]; rfl⟩

theorem rewrite_sorted : Rewrite Json.sorted where
  str := fun _ => by simp [Json.sorted]
  bool := fun _ => by simp [Json.sorted]
  arr := fun items => by rw [Json.sorted, sortedItems_eq]
  obj := fun members h => ⟨_, by rw [Json.sorted], get_sorted h⟩

theorem object_eq_ok {members : Members} {allowed required : List String}
    (hallowed : ∀ key, Dict.get members key ≠ none → key ∈ allowed)
    (hrequired : ∀ key ∈ required, Dict.get members key ≠ none) :
    object (.obj members) field allowed required = .ok members := by
  simp only [object, bind_eq_ok, checkAll_eq_ok, pure_eq_ok, exists_unit, and_true, require_eq_ok]
  refine ⟨fun key hkey => ?_, fun key hkey => ?_⟩
  · rw [contains_iff_mem]
    exact hallowed key fun hnone => Dict.get_eq_none.mp hnone hkey
  · exact isSome_iff_ne_none.mpr (hrequired key hkey)

variable {f : Json → Json}

theorem Rewrite.object (hf : Rewrite f) (members : Members) (hnodup : (Dict.keys members).Nodup) :
    ∃ members' : Members, f (.obj members) = .obj members' ∧
      (∀ key, Dict.get members' key = (Dict.get members key).map f) ∧
      ∀ field allowed required, (∀ key ∈ Dict.keys members, key ∈ allowed) →
        (∀ key ∈ required, key ∈ Dict.keys members) →
        object (.obj members') field allowed required = .ok members' := by
  obtain ⟨members', hobj, hget⟩ := hf.obj members hnodup
  have hkey : ∀ key, Dict.get members' key ≠ none ↔ key ∈ Dict.keys members := by
    intro key
    rw [hget, ne_eq, map_eq_none_iff, Dict.get_eq_none, not_not]
  refine ⟨members', hobj, hget, fun field allowed required hallowed hrequired => ?_⟩
  exact object_eq_ok (fun key h => hallowed key ((hkey key).mp h))
    fun key h => (hkey key).mpr (hrequired key h)

theorem read_of_get {members : Members} {key : String}
    (h : Dict.get members key = some value) : members.read key = value := by
  rw [Members.read, h]
  rfl

/-! ### Parsing the normal form -/

theorem pathOf_json {path : GuestPath} (h : path.Clean) (field : String) :
    pathOf rules path.json field = .ok path := by
  rw [GuestPath.json, pathOf, String.toList_ofList]
  exact fromUri_uri_clean rules h field

theorem pathsOf_json (hf : Rewrite f) {paths : List GuestPath} (h : ∀ path ∈ paths, path.Clean)
    (key : String) : pathsOf rules key (f (.arr (paths.map GuestPath.json))) = .ok paths := by
  have hmap : (paths.map GuestPath.json).map f = paths.map GuestPath.json := by
    rw [List.map_map]
    exact map_congr_left fun path _ => hf.str _
  rw [hf.arr, hmap, pathsOf, array, ok_bind]
  exact mapM_zipIdx_eq_ok fun path hpath i => pathOf_json (h path hpath) _

theorem accessOf_value (access : Access) (field : String) :
    accessOf (.str access.value) field = .ok access := by
  cases access <;> simp [accessOf, isText, Access.value]

theorem specialOf_value (special : Special) (field : String) :
    specialOf (.str special.value) field = .ok special := by
  cases special <;> simp [specialOf, isText, Special.value]

/-- A written subpath is read back. -/
theorem subpathOf_joined {parts : Path} (h : ∀ part ∈ parts, SubpathPart part) (field : String) :
    subpathOf (.str (String.ofList (['/'].intercalate parts))) field = .ok (some parts) := by
  have hplain : (['/'].intercalate parts).any isControl = false := by
    rw [List.any_eq_false]
    intro c hc
    rcases mem_intercalate hc with hc | ⟨part, hpart, hc⟩
    · rw [mem_singleton.mp hc]
      decide
    · exact List.any_eq_false.mp (h part hpart).2.2.2.2 c hc
  have hsplit : (['/'].intercalate parts).splitOn '/' = if parts = [] then [[]] else parts := by
    split
    next hnil =>
      rw [hnil]
      rfl
    next hne => exact splitOn_intercalate '/' (fun part hpart => (h part hpart).2.1) hne
  have hhead : (['/'].intercalate parts).head? ≠ some '/' := by
    match parts, h with
    | [], _ => nofun
    | [] :: _, h => exact absurd rfl (h [] mem_cons_self).1
    | (c :: part) :: rest, h =>
      have hc : c ≠ '/' := fun hc => (h _ mem_cons_self).2.1 (hc ▸ mem_cons_self)
      cases rest with
      | nil => simpa using hc
      | cons next rest => simpa [intercalate_cons_cons] using hc
  have hparent : (if parts = [] then [[]] else parts).contains dotDot = false := by
    rw [contains_eq_mem, decide_eq_false_iff_not]
    split
    · decide
    · exact fun hmem => (h dotDot hmem).2.2.2.1 rfl
  have hfilter : (if parts = [] then [[]] else parts).filter (fun part => part != [] && part != dot) =
      parts := by
    split
    next hnil =>
      rw [hnil]
      rfl
    next =>
      rw [filter_eq_self]
      intro part hpart
      simp [(h part hpart).1, (h part hpart).2.2.1]
  simp only [subpathOf, String.toList_ofList, text, hplain, hsplit, hparent, hfilter, hhead,
    require, decide_false, Bool.or_self, Bool.not_false, if_true, ok_bind]
  rfl

theorem specialEntry_toDict (hf : Rewrite f) {access : Access} {special : Special}
    {subpath : Option Path} (hvalid : (Entry.mk access (.special special subpath)).Valid)
    (field : String) {path : Members} (htype : Dict.get path "type" = some (.str "special"))
    {value : Members} (hvalue : Dict.get path "value" = some (f (.obj value)))
    (hkeys : ∀ key, Dict.get path key ≠ none → key ∈ ["type", "value"])
    (hfields : value = ("kind", .str special.value) ::
      optional "subpath" (subpath.map fun parts => .str (String.ofList (['/'].intercalate parts)))) :
    specialEntry field access path = .ok ⟨access, .special special subpath⟩ := by
  obtain ⟨hroot, hnone, hparts⟩ := hvalid
  have hnodup : (Dict.keys value).Nodup := by
    rw [hfields]
    cases subpath <;> simp [Dict.keys, optional]
  obtain ⟨members, hobj, hget, hobject⟩ := hf.object value hnodup
  have hkind : members.read "kind" = .str special.value := by
    simp [Members.read, hget, hfields, Dict.get, hf.str]
  have hread : members.read "subpath" =
      (subpath.map fun parts => Json.str (String.ofList (['/'].intercalate parts))).getD .null := by
    cases subpath <;> simp [Members.read, hget, hfields, Dict.get, optional, hf.str]
  have hpath : object (.obj path) (field ++ ".path") ["type", "value"] ["value"] = .ok path := by
    refine object_eq_ok hkeys fun key hkey => ?_
    rw [mem_singleton.mp hkey, hvalue]
    rintro ⟨⟩
  have hspecial : object (.obj members) (field ++ ".path.value") ["kind", "subpath"] ["kind"] =
      .ok members := by
    refine hobject _ _ _ (fun key hkey => ?_) fun key hkey => ?_
    · rw [hfields] at hkey
      cases subpath with
      | none => exact mem_cons.mpr (.inl (mem_singleton.mp hkey))
      | some parts => exact hkey
    · rw [hfields, mem_singleton.mp hkey]
      exact mem_cons_self
  have hwrite : (!(decide (special = .root) && decide (access = .write))) = true := by
    cases special <;> simp_all
  rw [specialEntry, read_of_get htype, read_of_get hvalue, hobj]
  simp only [isText, decide_true, require, if_true, ok_bind, hpath, hspecial, hkind,
    specialOf_value, hwrite]
  by_cases hproject : special = .projectRoots
  · rw [if_pos hproject, hread]
    cases subpath with
    | none => rfl
    | some parts =>
      rw [map_some, getD_some, subpathOf_joined (hparts parts rfl)]
      rfl
  · have hsub := hnone hproject
    subst hsub
    have honly : object (.obj members) (field ++ ".path.value") ["kind"] [] = .ok members := by
      refine hobject _ _ _ (fun key hkey => ?_) (by simp)
      rw [hfields] at hkey
      exact hkey
    rw [if_neg hproject, honly]
    rfl

theorem literalEntry_toDict {access : Access} {guest : GuestPath} (hclean : guest.Clean)
    (field : String) {path : Members} (hvalue : Dict.get path "path" = some guest.json)
    (hkeys : ∀ key, Dict.get path key ≠ none → key ∈ ["type", "path"]) :
    literalEntry rules field access path = .ok ⟨access, .path guest⟩ := by
  have hpath : object (.obj path) (field ++ ".path") ["type", "path"] ["path"] = .ok path := by
    refine object_eq_ok hkeys fun key hkey => ?_
    rw [mem_singleton.mp hkey, hvalue]
    nofun
  rw [literalEntry, hpath, ok_bind, read_of_get hvalue, pathOf_json hclean]
  rfl

/-- **A written entry is read back.** -/
theorem entryOf_toDict (hf : Rewrite f) {entry : Entry} (hvalid : entry.Valid) (index : Nat) :
    entryOf rules (f entry.toDict) index = .ok entry := by
  obtain ⟨access, target⟩ := entry
  obtain ⟨members, hobj, hget, hobject⟩ := hf.object
    [("path", target.toDict), ("access", .str access.value)] (by simp [Dict.keys])
  have hmissing : members.read "missing_path_behavior" = .null := by
    simp [Members.read, hget, Dict.get]
  have haccess : members.read "access" = .str access.value := by
    simp [Members.read, hget, Dict.get, hf.str]
  have hpath : members.read "path" = f target.toDict := by simp [Members.read, hget, Dict.get]
  rw [entryOf, Entry.toDict, hobj, hobject _ _ _ (by simp [Dict.keys]) (by simp [Dict.keys])]
  simp only [ok_bind, hmissing, haccess, hpath, onlyNull, Json.isNull, require, if_true,
    accessOf_value]
  cases target with
  | path guest =>
    obtain ⟨inner, hinner, hread, hchecks⟩ := hf.object
      [("type", .str "path"), ("path", guest.json)] (by simp [Dict.keys])
    have htype : inner.read "type" = .str "path" := by
      simp [Members.read, hread, Dict.get, hf.str]
    have hguest : Dict.get inner "path" = some guest.json := by
      simp [hread, Dict.get, GuestPath.json, hf.str]
    have hkeys : ∀ key, Dict.get inner key ≠ none → key ∈ ["type", "path"] := by
      intro key hkey
      rw [hread, ne_eq, map_eq_none_iff, Dict.get_eq_none, not_not] at hkey
      exact hkey
    rw [Target.toDict, hinner, hchecks _ _ _ (by simp [Dict.keys]) (by simp [Dict.keys]), ok_bind,
      htype]
    exact literalEntry_toDict hvalid _ hguest hkeys
  | special kind subpath =>
    obtain ⟨inner, hinner, hread, hchecks⟩ := hf.object
      [("type", .str "special"), ("value", .obj (("kind", .str kind.value) :: optional "subpath"
        (subpath.map fun parts => .str (String.ofList (['/'].intercalate parts)))))]
      (by simp [Dict.keys])
    have htype : Dict.get inner "type" = some (.str "special") := by
      simp [hread, Dict.get, hf.str]
    have hkeys : ∀ key, Dict.get inner key ≠ none → key ∈ ["type", "value"] := by
      intro key hkey
      rw [hread, ne_eq, map_eq_none_iff, Dict.get_eq_none, not_not] at hkey
      exact hkey
    rw [Target.toDict, hinner, hchecks _ _ _ (by simp [Dict.keys]) (by simp [Dict.keys]), ok_bind,
      read_of_get htype]
    exact specialEntry_toDict hf hvalid _ htype (by simp [hread, Dict.get]) hkeys rfl

theorem entriesOf_permissions (hf : Rewrite f) (context : Context) :
    entriesOf (f context.permissions) = .ok (f (.arr (context.entries.map Entry.toDict))) := by
  obtain ⟨permissions, hobj, hget, hobject⟩ := hf.object
    [("type", .str "managed"),
      ("file_system", .obj [("type", .str "restricted"),
        ("entries", .arr (context.entries.map Entry.toDict))]),
      ("network", .str "restricted")] (by simp [Dict.keys])
  obtain ⟨fs, hfs, hread, hchecks⟩ := hf.object
    [("type", .str "restricted"), ("entries", .arr (context.entries.map Entry.toDict))]
    (by simp [Dict.keys])
  have htype : permissions.read "type" = .str "managed" := by
    simp [Members.read, hget, Dict.get, hf.str]
  have hnetwork : permissions.read "network" = .str "restricted" := by
    simp [Members.read, hget, Dict.get, hf.str]
  have hsystem : permissions.read "file_system" = .obj fs := by
    simp [Members.read, hget, Dict.get, hfs]
  have hrestricted : fs.read "type" = .str "restricted" := by
    simp [Members.read, hread, Dict.get, hf.str]
  have hentries : fs.read "entries" = f (.arr (context.entries.map Entry.toDict)) := by
    simp [Members.read, hread, Dict.get]
  have hdepth : fs.read "glob_scan_max_depth" = .null := by simp [Members.read, hread, Dict.get]
  have hfirst := hobject "$.permissions" ["type", "file_system", "network"] ["type"]
    (by simp [Dict.keys]) (by simp [Dict.keys])
  have hsecond := hobject "$.permissions" ["type", "file_system", "network"]
    ["file_system", "network"] (by simp [Dict.keys]) (by simp [Dict.keys])
  have hthird := hchecks "$.permissions.file_system" ["type", "entries", "glob_scan_max_depth"]
    ["type"] (by simp [Dict.keys]) (by simp [Dict.keys])
  have hfourth := hchecks "$.permissions.file_system" ["type", "entries", "glob_scan_max_depth"]
    ["entries"] (by simp [Dict.keys]) (by simp [Dict.keys])
  rw [entriesOf, Context.permissions, hobj]
  simp only [hfirst, hsecond, hthird, hfourth, ok_bind, htype, hnetwork, hsystem, hrestricted,
    hentries, hdepth, isText, decide_true, require, if_true, onlyNull, Json.isNull]
  rfl

theorem nodup_keys_members (context : Context) : (Dict.keys context.members).Nodup := by
  obtain ⟨cwd, roots, home, temps, entries, resolved, desktop, proxy⟩ := context
  cases home <;> cases temps <;> cases proxy <;>
    simp [Context.members, Dict.keys, optional]

theorem keys_members_allowed (context : Context) :
    ∀ key ∈ Dict.keys context.members, key ∈ contextKeys := by
  obtain ⟨cwd, roots, home, temps, entries, resolved, desktop, proxy⟩ := context
  cases home <;> cases temps <;> cases proxy <;>
    simp [Context.members, Dict.keys, optional, contextKeys]

theorem get_members_optional (context : Context) :
    Dict.get context.members "userHomeDir" = context.userHomeDir.map GuestPath.json ∧
    Dict.get context.members "windowsSandboxProxySettingsMode" =
      context.proxyMode.map (.str ·.value) ∧
    Dict.get context.members "temporaryDirectories" =
      context.temporaryDirectories.map fun paths => .arr (paths.map GuestPath.json) := by
  obtain ⟨cwd, roots, home, temps, entries, resolved, desktop, proxy⟩ := context
  cases home <;> cases temps <;> cases proxy <;> simp [Context.members, Dict.get, optional]

/-- **The normal form of a valid context, passed on, parses to the context.** -/
theorem parseContext_rewritten (hf : Rewrite f) (hvalid : context.Valid) :
    parseContext rules (f context.toContextDict) = .ok context := by
  obtain ⟨members, hobj, hget, hobject⟩ :=
    hf.object context.members (nodup_keys_members context)
  have hchecked := hobject "$" contextKeys ["permissions", "cwd", "windowsSandboxLevel"]
    (keys_members_allowed context) (by simp [Context.members, Dict.keys])
  have hlevel : members.read "windowsSandboxLevel" = .str "disabled" := by
    simp [Members.read, hget, Context.members, Dict.get, hf.str]
  have hdesktop : Dict.get members "windowsSandboxPrivateDesktop" =
      some (.bool context.privateDesktop) := by
    simp [hget, Context.members, Dict.get, hf.bool]
  have hlandlock : Dict.get members "useLegacyLandlock" = some (.bool false) := by
    simp [hget, Context.members, Dict.get, hf.bool]
  have hpermissions : members.read "permissions" = f context.permissions := by
    simp [Members.read, hget, Context.members, Dict.get]
  have hcwd : members.read "cwd" = context.cwd.json := by
    simp [Members.read, hget, Context.members, Dict.get, GuestPath.json, hf.str]
  have hroots : Dict.get members "workspaceRoots" =
      some (f (.arr (context.workspaceRoots.map GuestPath.json))) := by
    simp [hget, Context.members, Dict.get]
  obtain ⟨hgetHome, hgetProxy, hgetTemps⟩ := get_members_optional context
  have hproxy : proxyModeOf (members.read "windowsSandboxProxySettingsMode") =
      .ok context.proxyMode := by
    rw [Members.read, hget, hgetProxy]
    cases context.proxyMode with
    | none => rfl
    | some mode => cases mode <;> simp [proxyModeOf, Json.isNull, isText, hf.str, ProxyMode.value]
  have hhome : homeOf rules (members.read "userHomeDir") = .ok context.userHomeDir := by
    rw [Members.read, hget, hgetHome]
    cases hpath : context.userHomeDir with
    | none => rfl
    | some path =>
      have hstr : f path.json = path.json := hf.str _
      rw [map_some, map_some, getD_some, hstr, homeOf,
        pathOf_json (hvalid.home path hpath)]
      rfl
  have htemps : tempsOf rules (members.read "temporaryDirectories") =
      .ok context.temporaryDirectories := by
    rw [Members.read, hget, hgetTemps]
    cases hpaths : context.temporaryDirectories with
    | none => rfl
    | some paths =>
      have hnull : (f (.arr (paths.map GuestPath.json))).isNull = false := by rw [hf.arr]; rfl
      rw [map_some, map_some, getD_some, tempsOf, hnull,
        pathsOf_json hf (hvalid.temps paths hpaths)]
      rfl
  have hitems : array (f (.arr (context.entries.map Entry.toDict)))
      "$.permissions.file_system.entries" = .ok ((context.entries.map Entry.toDict).map f) := by
    rw [hf.arr]
    rfl
  have hentries : ((context.entries.map Entry.toDict).map f).zipIdx.mapM
      (fun (value, index) => entryOf rules value index) = .ok context.entries := by
    rw [List.map_map]
    exact mapM_zipIdx_eq_ok fun entry hentry i => entryOf_toDict hf (hvalid.entries entry hentry) i
  rw [parseContext, Context.toContextDict, hobj, hchecked]
  simp only [ok_bind, hlevel, isText, decide_true, require, if_true, hdesktop, hlandlock, hroots,
    getD_some, privateDesktopOf, falseOption, Bool.not_false, hproxy, hpermissions,
    entriesOf_permissions hf, hcwd, pathOf_json hvalid.cwd, pathsOf_json hf hvalid.roots, hhome,
    htemps, hitems, hentries, ← hvalid.resolved]
  rfl

/-! ### Intents -/

/-- JSON text. The one thing asked of it: what was written for a context is read back, with
the members of every object sorted. -/
structure JsonCodec (Text : Type) where
  /-- `_json_bytes`. -/
  dumps : Json → Text
  /-- `_decode_json`. -/
  loads : Text → Except PolicyError Json
  loads_dumps : ∀ context : Context,
    loads (dumps context.toContextDict) = .ok context.toContextDict.sorted

/-- What `parse_context` accepts: a text or a decoded document. -/
inductive Document (Text : Type)
  | text (text : Text)
  | decoded (value : Json)

variable {Text : Type}

/-- `parse_context`. -/
def parseDocument (rules : NetlocRules) (codec : JsonCodec Text) :
    Document Text → Except PolicyError Context
  | .text text => do
    let value ← codec.loads text
    parseContext rules value
  | .decoded value => parseContext rules value

/-- `POLICY_BEARING_METHODS`. -/
def policyBearingMethods : List String :=
  ["process/start", "fs/readFile", "fs/open", "fs/writeFile", "fs/createDirectory",
    "fs/getMetadata", "fs/canonicalize", "fs/readDirectory", "fs/walk", "fs/remove", "fs/copy"]

structure PolicyIntent (Text : Type) where
  sessionId : List Char
  requestId : List Char
  method : String
  contextJson : Text

/-- `_identifier`. -/
def identifier (value : List Char) (field : String) : Except PolicyError Unit := do
  require (value != []) ⟨field, "expected a nonempty connection-local identifier"⟩
  text value field

/-- The constructor of `PolicyIntent`, with its `__post_init__`. -/
def PolicyIntent.make (rules : NetlocRules) (codec : JsonCodec Text)
    (sessionId requestId : List Char) (method : String) (contextJson : Text) :
    Except PolicyError (PolicyIntent Text) := do
  identifier sessionId "$.sessionId"
  identifier requestId "$.requestId"
  require (policyBearingMethods.contains method)
    ⟨"$.method", "expected a supported policy-bearing exec-server method"⟩
  let context ← parseDocument rules codec (.text contextJson)
  pure ⟨sessionId, requestId, method, codec.dumps context.toContextDict⟩

/-- `prepare_policy_intent`. -/
def preparePolicyIntent (rules : NetlocRules) (codec : JsonCodec Text) (document : Document Text)
    (sessionId requestId : List Char) (method : String) :
    Except PolicyError (PolicyIntent Text) := do
  let context ← parseDocument rules codec document
  PolicyIntent.make rules codec sessionId requestId method (codec.dumps context.toContextDict)

theorem parseDocument_valid {codec : JsonCodec Text} {document : Document Text}
    (h : parseDocument rules codec document = .ok context) : context.Valid := by
  cases document with
  | text text =>
    obtain ⟨value, -, h⟩ := bind_eq_ok.mp h
    exact parseContext_valid h
  | decoded value => exact parseContext_valid h

theorem parseDocument_dumps (codec : JsonCodec Text) (h : context.Valid) :
    parseDocument rules codec (.text (codec.dumps context.toContextDict)) = .ok context := by
  rw [parseDocument, codec.loads_dumps, ok_bind]
  exact parseContext_rewritten rewrite_sorted h

/-- **A policy parses back from its normal form, and an intent from its own text.** For
every document that parses, the normal form of the policy parses to the same policy:
the same entries in the same order, the same resolved entries, and for every path the
same decision. The intent prepared for it keeps the text of that form, and building
an intent again from its own text gives the same intent. -/
theorem context_reparsed (rules : NetlocRules) (codec : JsonCodec Text) :
    (∀ document context, parseDocument rules codec document = .ok context →
      parseContext rules context.toContextDict = .ok context ∧
      ∀ context', parseContext rules context.toContextDict = .ok context' →
        context'.entries = context.entries ∧
        context'.resolvedEntries = context.resolvedEntries ∧
        ∀ absolute, context'.decide absolute = context.decide absolute) ∧
    (∀ document sessionId requestId method intent,
      preparePolicyIntent rules codec document sessionId requestId method = .ok intent →
      ∃ context, parseDocument rules codec document = .ok context ∧
        intent.contextJson = codec.dumps context.toContextDict) ∧
    ∀ sessionId requestId method contextJson intent,
      PolicyIntent.make rules codec sessionId requestId method contextJson = .ok intent →
      PolicyIntent.make rules codec intent.sessionId intent.requestId intent.method
        intent.contextJson = .ok intent := by
  refine ⟨?_, ?_, ?_⟩
  · intro document context h
    have hback : parseContext rules context.toContextDict = .ok context :=
      parseContext_rewritten rewrite_id (parseDocument_valid h)
    refine ⟨hback, fun context' h' => ?_⟩
    obtain rfl := Except.ok.inj (hback.symm.trans h')
    exact ⟨rfl, rfl, fun _ => rfl⟩
  · intro document sessionId requestId method intent h
    obtain ⟨context, hparse, h⟩ := bind_eq_ok.mp h
    refine ⟨context, hparse, ?_⟩
    simp only [PolicyIntent.make, bind_eq_ok, pure_eq_ok] at h
    obtain ⟨_, -, _, -, _, -, again, hagain, rfl⟩ := h
    rw [parseDocument_dumps codec (parseDocument_valid hparse)] at hagain
    rw [Except.ok.inj hagain]
  · intro sessionId requestId method contextJson intent h
    simp only [PolicyIntent.make, bind_eq_ok, pure_eq_ok] at h
    obtain ⟨_, hsession, _, hrequest, _, hmethod, context, hparse, rfl⟩ := h
    simp only [PolicyIntent.make, hsession, hrequest, hmethod, ok_bind,
      parseDocument_dumps codec (parseDocument_valid hparse)]
    rfl

/-- Values that stand for their own text. -/
def plainCodec : JsonCodec Json := ⟨Json.sorted, .ok, fun _ => rfl⟩

/-- A context with an alias of the project roots, an alias of `deny` and an untidy subpath. -/
def aliasedContext : Json :=
  .obj [
    ("permissions", .obj [
      ("type", .str "managed"),
      ("file_system", .obj [
        ("type", .str "restricted"),
        ("entries", .arr [.obj [
          ("path", .obj [
            ("type", .str "special"),
            ("value", .obj [("kind", .str "current_working_directory"),
              ("subpath", .str "a//./b")])]),
          ("access", .str "none")]])]),
      ("network", .str "restricted")]),
    ("cwd", .str "file:///w"),
    ("workspaceRoots", .arr [.str "file:///w"]),
    ("windowsSandboxLevel", .str "disabled")]

theorem context_reparsed_aliased :
    ∃ context, parseContext ⟨id, fun _ => false⟩ aliasedContext = .ok context ∧
      context.entries = [⟨.deny, .special .projectRoots (some [['a'], ['b']])⟩] ∧
      parseContext ⟨id, fun _ => false⟩ context.toContextDict = .ok context := by
  have hok : ∃ context, parseContext ⟨id, fun _ => false⟩ aliasedContext = .ok context :=
    exists_ok_of_isOk (by decide +kernel)
  obtain ⟨context, hcontext⟩ := hok
  have hentries : (parseContext ⟨id, fun _ => false⟩ aliasedContext).toOption.map Context.entries =
      some [⟨.deny, .special .projectRoots (some [['a'], ['b']])⟩] := by decide +kernel
  rw [hcontext] at hentries
  exact ⟨context, hcontext, Option.some.inj hentries,
    ((context_reparsed ⟨id, fun _ => false⟩ plainCodec).1 (.decoded aliasedContext) context
      hcontext).1⟩

end FoldGPT.Files
