import FoldGPT.Environment.Lowercase
import FoldGPT.Json
import FoldGPT.Lib.Checks
import FoldGPT.Lib.Encoding
import FoldGPT.Lib.Wildcard

/-!
# The environment of a native process

`process_environment` takes the variables a request asks for, the supervisor's own snapshot
and an optional policy through five stages (inheritance, default exclusions, exclusions,
overrides, the include list), applies the requested variables last, drops the names no child
may see and encodes the rest for `execve`.

Main result: `environment_confined`.
-/

namespace FoldGPT.Environment

open FoldGPT.Lib List
open FoldGPT.Lib.Encoding

abbrev Text := List Char

/-- Variables in insertion order. -/
abbrev Variables := Dict Text Text

/-- `NON_INHERITABLE`. -/
def nonInheritable : List Text :=
  ["CODEX_EXEC_SERVER_NOISE_AUTH_TOKEN".toList, "NODE_REPL_AUTH_TOKEN".toList,
    "OPENAI_FEDERATION_RULE_ID".toList, "OPENAI_IDENTITY_TOKEN_FILE".toList,
    "OPENAI_WORKLOAD_IDENTITY_CONTEXT".toList]

/-- `EOF_CONTROL`. -/
def eofControl : Text := "CODEX_EXEC_SERVER_EXIT_ON_STDIN_CLOSE".toList

/-- `UNIX_CORE`. -/
def unixCore : List Text :=
  ["PATH".toList, "SHELL".toList, "TMPDIR".toList, "TEMP".toList, "TMP".toList, "HOME".toList,
    "LANG".toList, "LC_ALL".toList, "LC_CTYPE".toList, "LOGNAME".toList, "USER".toList]

/-- `POLICY_FIELDS`. -/
def policyFields : List String :=
  ["inherit", "ignoreDefaultExcludes", "exclude", "set", "includeOnly"]

/-- `text.translate(_ASCII_UPPER)`. -/
def asciiUpper (text : Text) : Text :=
  text.map fun c => if 97 ≤ c.toNat ∧ c.toNat ≤ 122 then Char.ofNat (c.toNat - 32) else c

def refusal (message : String) : RpcError := { code := -32602, message }

/-! ### Variables -/

def nul : Char := Char.ofNat 0

/-- What a variable must be to stand in the block passed to `execve`. -/
structure Valid (vars : Variables) : Prop where
  distinct : vars.keys.Nodup
  name : ∀ e ∈ vars, e.1 ≠ [] ∧ '=' ∉ e.1 ∧ nul ∉ e.1
  value : ∀ e ∈ vars, nul ∉ e.2

/-- One turn of the loop of `_variables`. -/
def addVariable (result : Variables) (member : String × Json) : Except RpcError Variables :=
  match member.2 with
  | .str value => do
    require (member.1 ≠ "" && !member.1.toList.contains '=' && !member.1.toList.contains nul &&
      !value.toList.contains nul) (refusal "Invalid process environment variable")
    pure (result.set member.1.toList value.toList)
  | _ => .error (refusal "Invalid process environment variable")

/-- `_variables`. -/
def variablesOf : Json → Except RpcError Variables
  | .obj members => members.foldlM addVariable []
  | _ => .error (refusal "Process environment must be a string mapping")

variable {result : Variables}

theorem addVariable_eq_ok {next : Variables} {member : String × Json}
    (h : addVariable result member = .ok next) :
    ∃ value, member.2 = .str value ∧ next = result.set member.1.toList value.toList ∧
      member.1.toList ≠ [] ∧ '=' ∉ member.1.toList ∧ nul ∉ member.1.toList ∧
      nul ∉ value.toList := by
  obtain ⟨name, json⟩ := member
  cases json with
  | str value =>
    simp only [addVariable, bind_eq_ok, require_eq_ok, pure_eq_ok, exists_unit,
      Bool.and_eq_true, Bool.not_eq_true', contains_eq_mem, decide_eq_false_iff_not,
      decide_eq_true_eq] at h
    obtain ⟨⟨⟨⟨hne, heq⟩, hnul⟩, hval⟩, hnext⟩ := h
    exact ⟨value, rfl, hnext.symm, fun hnil => hne (String.toList_eq_nil_iff.mp hnil), heq, hnul,
      hval⟩
  | _ => cases h

theorem Valid.nil : Valid [] := ⟨nodup_nil, nofun, nofun⟩

variable {vars : Variables}

theorem Valid.set (h : Valid vars) {name value : Text} (hne : name ≠ [])
    (heq : '=' ∉ name) (hnul : nul ∉ name) (hval : nul ∉ value) :
    Valid (vars.set name value) where
  distinct := Dict.nodup_keys_set h.distinct name value
  name e he := by
    rcases Dict.mem_set he with rfl | he
    · exact ⟨hne, heq, hnul⟩
    · exact h.name e he
  value e he := by
    rcases Dict.mem_set he with rfl | he
    · exact hval
    · exact h.value e he

theorem Valid.filter (h : Valid vars) (keep : Text × Text → Bool) :
    Valid (vars.filter keep) where
  distinct := Dict.nodup_keys_filter h.distinct keep
  name e he := h.name e (mem_of_mem_filter he)
  value e he := h.value e (mem_of_mem_filter he)

theorem Valid.update {other : Variables} (h : Valid vars) (hother : Valid other) :
    Valid (vars.update other) where
  distinct := Dict.nodup_keys_update h.distinct other
  name := Dict.forall_mem_update h.name hother.name
  value := Dict.forall_mem_update h.value hother.value

variable {members : Members}

theorem foldlM_addVariable_valid (hvars : Valid vars)
    (h : members.foldlM addVariable vars = .ok result) : Valid result := by
  induction members generalizing vars with
  | nil => exact (Except.ok.inj h) ▸ hvars
  | cons member members ih =>
    rw [foldlM_cons, bind_eq_ok] at h
    obtain ⟨next, hnext, hrest⟩ := h
    obtain ⟨value, -, rfl, hne, heq, hnul, hval⟩ := addVariable_eq_ok hnext
    exact ih (hvars.set hne heq hnul hval) hrest

theorem variablesOf_valid {values : Json} (h : variablesOf values = .ok vars) : Valid vars := by
  cases values with
  | obj members => exact foldlM_addVariable_valid .nil h
  | _ => cases h

theorem foldlM_addVariable_get {name : String}
    (hname : name ∉ Dict.keys members) (h : members.foldlM addVariable vars = .ok result) :
    result.get name.toList = vars.get name.toList := by
  induction members generalizing vars with
  | nil => rw [Except.ok.inj h]
  | cons member members ih =>
    obtain ⟨hne, hrest⟩ := not_or.mp fun hmem => hname (mem_cons.mpr hmem)
    rw [foldlM_cons, bind_eq_ok] at h
    obtain ⟨next, hnext, h⟩ := h
    obtain ⟨value, -, rfl, -⟩ := addVariable_eq_ok hnext
    rw [ih hrest h, Dict.get_set_of_ne]
    exact fun heq => hne (String.toList_inj.mp heq)

theorem get_variablesOf {name value : String}
    (hnodup : (Dict.keys members).Nodup) (h : variablesOf (.obj members) = .ok vars)
    (hmem : (name, .str value) ∈ members) : vars.get name.toList = some value.toList := by
  have hfold : ∀ before : Variables, members.foldlM addVariable before = .ok vars →
      vars.get name.toList = some value.toList := by
    clear h
    induction members with
    | nil => cases hmem
    | cons member members ih =>
      intro before h
      obtain ⟨hfresh, hrest⟩ := nodup_cons.mp hnodup
      rw [foldlM_cons, bind_eq_ok] at h
      obtain ⟨next, hnext, h⟩ := h
      rcases mem_cons.mp hmem with rfl | hmem
      · obtain ⟨found, hfound, rfl, -⟩ := addVariable_eq_ok hnext
        rw [foldlM_addVariable_get hfresh h, Dict.get_set_self, Json.str.inj hfound]
      · exact ih hrest hmem next h
  exact hfold [] h

/-- The supervisor's snapshot: what `snapshot_environment` returns for a mapping. -/
structure Snapshot where
  vars : Variables
  valid : Valid vars

/-- `snapshot_environment`; an absent snapshot stays absent. -/
def snapshotEnvironment : Json → Except RpcError (Option Snapshot)
  | .null => .ok none
  | values =>
    match h : variablesOf values with
    | .ok vars => .ok (some ⟨vars, variablesOf_valid h⟩)
    | .error e => .error e

/-! ### Patterns -/

/-- `'*'` and `'?'`; other characters by their lower case. -/
def letters : Wildcard Char where
  star := '*'
  any := '?'
  same q c := lowercaseScalar q = lowercaseScalar c

/-- `matches_pattern`. -/
def matchesPattern (pattern name : Text) : Bool := letters.run pattern name

theorem matchesPattern_eq (pattern name : Text) :
    matchesPattern pattern name = letters.matching pattern name := Wildcard.run_eq pattern name

/-- `_patterns`. -/
def patterns : Json → Except RpcError (List Text)
  | .arr values => values.mapM fun
    | .str value => .ok value.toList
    | _ => .error (refusal "Environment policy patterns must be a string list")
  | _ => .error (refusal "Environment policy patterns must be a string list")

/-- The words of the default exclusions. -/
def secretWords : List Text := ["KEY".toList, "SECRET".toList, "TOKEN".toList]

/-- `("*KEY*", "*SECRET*", "*TOKEN*")`. -/
def defaultExcludes : List Text := secretWords.map fun word => '*' :: (word ++ ['*'])

/-- The name matches one of the default exclusions. -/
def hidden (name : Text) : Bool := defaultExcludes.any fun pattern => letters.matching pattern name

/-! ### The policy -/

inductive Inherit
  | none
  | core
  | all
  deriving DecidableEq

/-- The five fields of an `envPolicy`. -/
structure EnvPolicy where
  inherit : Inherit
  ignoreDefaultExcludes : Bool
  exclude : List Text
  includeOnly : List Text
  overrides : Variables

def inheritOf : Json → Except RpcError Inherit
  | .str "none" => .ok .none
  | .str "core" => .ok .core
  | .str "all" => .ok .all
  | _ => .error (refusal "Invalid environment inheritance policy")

def ignoreOf : Json → Except RpcError Bool
  | .bool b => .ok b
  | _ => .error (refusal "ignoreDefaultExcludes must be a boolean")

/-- The checks of `process_environment` on the policy, in its order. -/
def parsePolicy : Json → Except RpcError EnvPolicy
  | .obj members => do
    require ((Dict.keys members).all policyFields.contains &&
        policyFields.all (Dict.keys members).contains)
      (refusal "Environment policy requires the complete supported wire fields")
    let inherit ← inheritOf (Members.read members "inherit")
    let ignoreDefaultExcludes ← ignoreOf (Members.read members "ignoreDefaultExcludes")
    let exclude ← patterns (Members.read members "exclude")
    let includeOnly ← patterns (Members.read members "includeOnly")
    let overrides ← variablesOf (Members.read members "set")
    pure { inherit, ignoreDefaultExcludes, exclude, includeOnly, overrides }
  | _ => .error (refusal "Environment policy requires the complete supported wire fields")

/-- The variables taken from the snapshot. -/
def EnvPolicy.inherited (policy : EnvPolicy) (parent : Option Snapshot) :
    Except RpcError Variables :=
  match policy.inherit, parent with
  | .none, _ => .ok []
  | _, none =>
    .error (refusal "Environment inheritance requires a supervisor-owned parent snapshot")
  | .core, some parent => .ok (parent.vars.filter fun e => unixCore.contains (asciiUpper e.1))
  | .all, some parent => .ok parent.vars

/-- The stages after inheritance, up to the variables of the request. -/
def EnvPolicy.shape (policy : EnvPolicy) (inherited explicit : Variables) : Variables :=
  let result := if policy.ignoreDefaultExcludes then inherited
    else inherited.filter fun e => !defaultExcludes.any (matchesPattern · e.1)
  let result := result.filter fun e => !policy.exclude.any (matchesPattern · e.1)
  let result := Dict.update result policy.overrides
  let result := if policy.includeOnly.isEmpty then result
    else result.filter fun e => policy.includeOnly.any (matchesPattern · e.1)
  Dict.update result explicit

/-- The variables before the last filter. -/
def resolve (explicit : Variables) (policy : Json) (parent : Option Snapshot) :
    Except RpcError Variables :=
  match policy with
  | .null => .ok explicit
  | policy => do
    let policy ← parsePolicy policy
    let inherited ← policy.inherited parent
    pure (policy.shape inherited explicit)

/-- A child may be given the name. -/
def inheritable (name : Text) : Bool :=
  name ≠ eofControl && !nonInheritable.contains (asciiUpper name)

/-- `(name + "=" + value).encode("utf-8")`. -/
def encodeEntry (e : Text × Text) : List UInt8 := utf8Encode (e.1 ++ '=' :: e.2)

def encodeBlock (entries : Variables) : List UInt8 := entries.flatMap fun e => encodeEntry e ++ [0]

/-- `process_environment`. -/
def processEnvironment (params : Members) (parent : Option Snapshot) :
    Except RpcError (List UInt8) := do
  let explicit ← variablesOf (params.read "env")
  let result ← resolve explicit (params.read "envPolicy") parent
  let entries := result.filter fun e => inheritable e.1
  let encoded := encodeBlock entries
  require (entries.length ≤ 128 && encoded.length ≤ 65536)
    (refusal "Resolved environment exceeds the admitted native bounds")
  pure encoded

/-! ### Hidden variables do not count -/

theorem hidden_eq (name : Text) : defaultExcludes.any (matchesPattern · name) = hidden name := by
  simp only [hidden, matchesPattern_eq]

/-- The variables of a snapshot whose names match no default exclusion. -/
def Snapshot.visible (parent : Snapshot) : Variables :=
  parent.vars.filter fun e => !hidden e.1

variable {policy : EnvPolicy}

/-- **One stage.** With the default exclusions on, the stages depend on the inherited
variables through the visible ones only. -/
theorem shape_agree (hpolicy : policy.ignoreDefaultExcludes = false)
    {inherited other : Variables} (explicit : Variables)
    (h : (inherited.filter fun e => !hidden e.1) = other.filter fun e => !hidden e.1) :
    policy.shape inherited explicit = policy.shape other explicit := by
  simp only [EnvPolicy.shape, hpolicy, hidden_eq, Bool.false_eq_true, if_false, h]

variable {other parent : Snapshot}

theorem filter_core (h : parent.visible = other.visible) (keep : Text × Text → Bool) :
    ((parent.vars.filter keep).filter fun e => !hidden e.1) =
      (other.vars.filter keep).filter fun e => !hidden e.1 := by
  have hcomm : ∀ env : Snapshot, ((env.vars.filter keep).filter fun e => !hidden e.1) =
      env.visible.filter keep := by
    intro env
    rw [Snapshot.visible, filter_filter, filter_filter]
    exact filter_congr fun e _ => Bool.and_comm _ _
  rw [hcomm, hcomm, h]

theorem inherited_agree (hpolicy : policy.ignoreDefaultExcludes = false)
    (h : parent.visible = other.visible) (explicit : Variables) :
    (policy.inherited (some parent)).map (policy.shape · explicit) =
      (policy.inherited (some other)).map (policy.shape · explicit) := by
  cases hinherit : policy.inherit with
  | none => simp only [EnvPolicy.inherited, hinherit]
  | core =>
    simp only [EnvPolicy.inherited, hinherit, Except.map]
    rw [shape_agree hpolicy explicit (filter_core h _)]
  | all =>
    simp only [EnvPolicy.inherited, hinherit, Except.map]
    rw [shape_agree hpolicy explicit h]

theorem parsePolicy_ignore (h : parsePolicy (.obj members) = .ok policy) :
    members.read "ignoreDefaultExcludes" = .bool policy.ignoreDefaultExcludes := by
  simp only [parsePolicy, bind_eq_ok, require_eq_ok, pure_eq_ok] at h
  obtain ⟨-, -, -, -, ignore, hignore, -, -, -, -, -, -, rfl⟩ := h
  cases hread : members.read "ignoreDefaultExcludes" with
  | bool b => rw [hread] at hignore; rw [Except.ok.inj hignore]
  | _ => rw [hread] at hignore; cases hignore

theorem resolve_agree (hfalse : members.read "ignoreDefaultExcludes" = .bool false)
    (h : parent.visible = other.visible) (explicit : Variables) :
    resolve explicit (.obj members) (some parent) = resolve explicit (.obj members) (some other) := by
  simp only [resolve]
  cases hparse : parsePolicy (.obj members) with
  | error e => rfl
  | ok policy =>
    have hpolicy : policy.ignoreDefaultExcludes = false :=
      Json.bool.inj ((parsePolicy_ignore hparse).symm.trans hfalse)
    exact inherited_agree hpolicy h explicit

/-! ### What is encoded -/

theorem parsePolicy_overrides {policy : Json} {parsed : EnvPolicy}
    (h : parsePolicy policy = .ok parsed) : Valid parsed.overrides := by
  cases policy with
  | obj members =>
    simp only [parsePolicy, bind_eq_ok, require_eq_ok, pure_eq_ok] at h
    obtain ⟨-, -, -, -, -, -, -, -, -, -, overrides, hoverrides, rfl⟩ := h
    exact variablesOf_valid hoverrides
  | _ => cases h

theorem inherited_valid {parent : Option Snapshot}
    (h : policy.inherited parent = .ok vars) : Valid vars := by
  revert h
  fun_cases EnvPolicy.inherited policy parent with
  | case1 => rintro ⟨⟩; exact .nil
  | case2 => nofun
  | case3 => rintro ⟨⟩; exact Valid.filter (Snapshot.valid _) _
  | case4 => rintro ⟨⟩; exact Snapshot.valid _

theorem shape_valid (hoverrides : Valid policy.overrides)
    {inherited explicit : Variables} (hinherited : Valid inherited) (hexplicit : Valid explicit) :
    Valid (policy.shape inherited explicit) := by
  have hstart : Valid (if policy.ignoreDefaultExcludes then inherited
      else inherited.filter fun e => !defaultExcludes.any (matchesPattern · e.1)) := by
    split
    · exact hinherited
    · exact hinherited.filter _
  have hset := (hstart.filter fun e => !policy.exclude.any (matchesPattern · e.1)).update hoverrides
  refine Valid.update ?_ hexplicit
  split
  · exact hset
  · exact hset.filter _

theorem resolve_spec {explicit : Variables} {policy : Json} {parent : Option Snapshot}
    (hexplicit : Valid explicit) (h : resolve explicit policy parent = .ok result) :
    Valid result ∧ ∀ name value, explicit.get name = some value → result.get name = some value := by
  have hpolicy : ∀ json, (do
      let policy ← parsePolicy json
      let inherited ← policy.inherited parent
      pure (policy.shape inherited explicit)) = Except.ok result →
      Valid result ∧
        ∀ name value, explicit.get name = some value → result.get name = some value := by
    intro json h
    simp only [bind_eq_ok, pure_eq_ok] at h
    obtain ⟨policy, hparse, inherited, hinherited, rfl⟩ := h
    refine ⟨shape_valid (parsePolicy_overrides hparse) (inherited_valid hinherited) hexplicit, ?_⟩
    intro name value hget
    rw [EnvPolicy.shape, Dict.get_update _ hexplicit.distinct, hget, Option.some_or]
  cases policy with
  | null =>
    cases h
    exact ⟨hexplicit, fun _ _ hget => hget⟩
  | _ => exact hpolicy _ h

theorem nul_not_mem_encodeEntry (h : Valid vars) {e : Text × Text}
    (he : e ∈ vars) : (0 : UInt8) ∉ encodeEntry e := by
  have hnul : nul ∉ e.1 ++ '=' :: e.2 := by
    rw [mem_append, mem_cons, not_or, not_or]
    exact ⟨(h.name e he).2.2, by decide, h.value e he⟩
  exact fun hmem => hnul ((mem_utf8Encode (a := nul) (by decide)).mp hmem)

theorem splitOn_encodeBlock {entries : Variables} (h : ∀ e ∈ entries, (0 : UInt8) ∉ encodeEntry e) :
    (encodeBlock entries).splitOn 0 = entries.map encodeEntry ++ [[]] := by
  induction entries with
  | nil => rfl
  | cons e entries ih =>
    have hrest := ih fun e' he' => h e' (mem_cons_of_mem e he')
    rw [encodeBlock, flatMap_cons, ← encodeBlock, append_assoc,
      splitOn_append_of_not_mem (h e mem_cons_self), singleton_append,
      splitOn_cons_eq_if_modifyHead, if_pos (beq_self_eq_true _), hrest]
    simp

/-- What a block passed to `execve` is, for the requested variables `request`. -/
structure Confined (request : Members) (encoded : List UInt8) (entries : Variables) : Prop where
  split : encoded.splitOn 0 = entries.map encodeEntry ++ [[]]
  name : ∀ e ∈ entries, e.1 ≠ [] ∧ '=' ∉ e.1
  distinct : entries.keys.Nodup
  control : ∀ e ∈ entries, e.1 ≠ eofControl ∧ asciiUpper e.1 ∉ nonInheritable
  count : entries.length ≤ 128
  size : encoded.length ≤ 65536
  requested : ∀ name value, (name, Json.str value) ∈ request → name.toList ≠ eofControl →
    asciiUpper name.toList ∉ nonInheritable → (name.toList, value.toList) ∈ entries

theorem inheritable_iff {name : Text} : inheritable name = true ↔
    name ≠ eofControl ∧ asciiUpper name ∉ nonInheritable := by
  simp [inheritable]

theorem processEnvironment_confined {params request : Members} {parent : Option Snapshot}
    {encoded : List UInt8} (henv : params.read "env" = .obj request)
    (hrequest : (Dict.keys request).Nodup) (h : processEnvironment params parent = .ok encoded) :
    ∃ entries, Confined request encoded entries := by
  simp only [processEnvironment, henv, bind_eq_ok, require_eq_ok, pure_eq_ok, exists_unit,
    Bool.and_eq_true, decide_eq_true_eq] at h
  obtain ⟨explicit, hexplicit, result, hresult, ⟨hcount, hsize⟩, rfl⟩ := h
  obtain ⟨hvalid, hkept⟩ := resolve_spec (variablesOf_valid hexplicit) hresult
  have hentries := hvalid.filter fun e => inheritable e.1
  refine ⟨result.filter fun e => inheritable e.1, ?_⟩
  exact {
    split := splitOn_encodeBlock fun e he => nul_not_mem_encodeEntry hentries he
    name := fun e he => ⟨(hentries.name e he).1, (hentries.name e he).2.1⟩
    distinct := hentries.distinct
    control := fun e he => inheritable_iff.mp (mem_filter.mp he).2
    count := hcount
    size := hsize
    requested := by
      intro name value hmem hcontrol hinherit
      have hget := hkept _ _ (get_variablesOf hrequest hexplicit hmem)
      exact mem_filter.mpr ⟨Dict.mem_of_get hget, inheritable_iff.mpr ⟨hcontrol, hinherit⟩⟩ }

/-- **The environment is confined.** With the default exclusions on, two snapshots with the
same visible variables give the same block or the same refusal. An accepted request gives a
block of at most 128 entries with distinct names, none of them reserved, in which every other
requested variable has its value. -/
theorem environment_confined (params : Members) :
    (∀ policy : Members, params.read "envPolicy" = .obj policy →
      policy.read "ignoreDefaultExcludes" = .bool false →
      ∀ parent other : Snapshot, parent.visible = other.visible →
        processEnvironment params (some parent) = processEnvironment params (some other)) ∧
    (∀ request : Members, params.read "env" = .obj request → (Dict.keys request).Nodup →
      ∀ parent encoded, processEnvironment params parent = .ok encoded →
        ∃ entries, Confined request encoded entries) := by
  refine ⟨?_, fun request henv hrequest parent encoded h =>
    processEnvironment_confined henv hrequest h⟩
  intro policy hpolicy hfalse parent other hvisible
  simp only [processEnvironment, hpolicy]
  cases variablesOf (params.read "env") with
  | error e => rfl
  | ok explicit => simp only [ok_bind, resolve_agree hfalse hvisible explicit]

/-- A policy that inherits everything. -/
def inheriting : Members :=
  [("env", .obj [("A", .str "1")]),
    ("envPolicy", .obj [("inherit", .str "all"), ("ignoreDefaultExcludes", .bool false),
      ("exclude", .arr []), ("set", .obj []), ("includeOnly", .arr [])])]

/-- Two snapshots that differ in a hidden variable, and a request without a policy. -/
theorem environment_confined_api_key :
    (processEnvironment inheriting
        (some ⟨[("Api_Key".toList, "x".toList), ("B".toList, "2".toList)],
          by decide +kernel, by decide +kernel, by decide +kernel⟩) =
      processEnvironment inheriting
        (some ⟨[("B".toList, "2".toList)],
          by decide +kernel, by decide +kernel, by decide +kernel⟩)) ∧
      ∃ entries, Confined [("A", .str "1")] [65, 61, 49, 0] entries := by
  constructor
  · exact (environment_confined _).1 _ rfl rfl _ _ (by decide +kernel)
  · refine (environment_confined [("env", .obj [("A", .str "1")])]).2 _ rfl (by decide) none _ ?_
    rfl

end FoldGPT.Environment
