import FoldGPT.Acquire.Decide

/-!
# Which requests get an answer

A request that no decision record answers ends the control channel. For the
Bionic policy that happens for the empty path, for control characters in the
path, for a listing of a readable file or of a directory too large to list, and
for a path too long for the answer; for the managed runner it happens for bytes
that are not UTF-8 and for control characters.
-/

namespace FoldGPT.Acquire

open FoldGPT.Lib FoldGPT.Lib.Encoding FoldGPT.Files
open List hiding utf8Encode

/-! ### Resolved paths -/

theorem resolveStep_proper {output : Path} {component : Name} (h : ProperPath output)
    (hslash : '/' ∉ component) (hnul : '\x00' ∉ component) :
    ProperPath (resolveStep output component) := by
  unfold resolveStep
  split
  · exact h
  · split
    · exact fun name hname => h name ((List.dropLast_prefix output).subset hname)
    next hempty hdots =>
      obtain ⟨hne, hdot⟩ := not_or.mp hempty
      intro name hname
      rcases mem_append.mp hname with hname | hname
      · exact h name hname
      · rw [mem_singleton.mp hname]
        exact ⟨hne, hslash, hnul, hdot, hdots⟩

theorem resolve_proper (p : Policy) {value : List Char} (hnul : '\x00' ∉ value) :
    ProperPath (p.resolve value) := by
  have hpieces : ∀ piece ∈ value.splitOn '/', '/' ∉ piece ∧ '\x00' ∉ piece := fun piece hpiece =>
    ⟨not_mem_of_mem_splitOn hpiece, fun hmem => hnul (mem_of_mem_splitOn hpiece hmem)⟩
  have hfold : ∀ (pieces : List Name) (start : Path),
      (∀ piece ∈ pieces, '/' ∉ piece ∧ '\x00' ∉ piece) → ProperPath start →
        ProperPath (pieces.foldl resolveStep start) := by
    intro pieces
    induction pieces with
    | nil => exact fun start _ hstart => hstart
    | cons piece pieces ih =>
      intro start hall hstart
      obtain ⟨hslash, hzero⟩ := hall piece mem_cons_self
      exact ih _ (fun q hq => hall q (mem_cons_of_mem _ hq))
        (resolveStep_proper hstart hslash hzero)
  refine hfold _ _ hpieces ?_
  split
  · exact nofun
  · exact p.clean.proper

theorem parts_eq (p : Policy) {value : List Char} (hne : value ≠ []) (hnul : '\x00' ∉ value) :
    p.parts value = if p.files.mount.guest.parts <+: p.resolve value then
        .ok ((p.resolve value).drop p.files.mount.guest.parts.length)
      else .error (.permission "Path is outside the explicitly mapped workspace") := by
  have hvalid : (value != [] && !value.contains '\x00') = true := by simp [hne, hnul]
  rw [Policy.parts, hvalid]
  by_cases h : p.files.mount.guest.parts <+: p.resolve value
  · have hin : p.files.mount.guest.contains ⟨p.resolve value⟩ = true :=
      GuestPath.contains_iff.mpr h
    rw [hin, if_pos h]
    rfl
  · have hout : p.files.mount.guest.contains ⟨p.resolve value⟩ = false := by
      rw [Bool.eq_false_iff]
      exact fun hin => h (GuestPath.contains_iff.mp hin)
    rw [hout, if_neg h]
    rfl

/-! ### Judging a resolved path -/

section Judge

variable {p : Policy} {w : Workspace} {found : Found} {parts : Path} {request : Request}

/-- The request is refused with a permission error. -/
def Refused (p : Policy) (w : Workspace) (parts : Path) (request : Request) : Prop :=
  (reads request.operation request.flags ∧
    ¬(p.policy.decide (p.files.guest parts)).canRead) ∨
  (writes request.operation request.flags (w.get parts).isNone ∧
    (¬Writable p.files p.policy w parts ∨
      (parts.getLastD [] = dotGit ∧ request.operation = .opening ∧ w.get parts = none)))

/-- A listing is of something absent or of a directory that is not too large. -/
def Listable (w : Workspace) (parts : Path) (request : Request) : Prop :=
  request.operation = .list → ∀ info, w.get parts = some info →
    info.isDir ∧ (w.listdir parts).length ≤ 50000

theorem reads_or_writes (operation : Operation) (flags : Nat) (missing : Bool) :
    reads operation flags = false → writes operation flags missing = true := by
  cases operation with
  | opening =>
    intro h
    have hmode : accessMode flags = O_WRONLY := by simpa [reads] using h
    simp [writes, hmode, O_WRONLY, O_RDONLY]
  | metadata => exact nofun
  | mkdir => exact fun _ => rfl
  | list => exact nofun

theorem requireRead_of_control (b : Backend) (policy : ManagedPolicy) {parts : Path}
    (hproper : ProperPath parts) (hplain : ¬Plain parts) :
    requireRead b policy parts = .error (.policy (controlError "path")) := by
  rw [requireRead, b.decideUri_guest policy hproper, if_neg hplain]
  rfl

theorem requireWrite_of_control (b : Backend) (policy : ManagedPolicy) {parts : Path}
    (hproper : ProperPath parts) (hplain : ¬Plain parts) (metadata : List GuestPath) :
    requireWrite b policy (b.guest parts) metadata = .error (.policy (controlError "path")) := by
  rw [requireWrite, b.decideUri_guest policy hproper, if_neg hplain]
  rfl

/-- **A control character raises**, whatever the operation. -/
theorem judge_of_control (hproper : ProperPath parts) (hplain : ¬Plain parts) :
    p.judge found parts request = .error (.policy (controlError "path")) := by
  rw [Policy.judge, requireRead_of_control _ _ hproper hplain,
    requireWrite_of_control _ _ hproper hplain]
  cases hreads : reads request.operation request.flags with
  | true => rfl
  | false =>
    have hwrites := reads_or_writes request.operation request.flags
      (found.nodes.get parts).isNone hreads
    have hlist : decide (request.operation = .list) = false := by
      cases hop : request.operation <;> simp_all [reads]
    simp only [hwrites, hlist, whenever_true, whenever_false, ok_bind, error_bind]

theorem requireRead_of_plain (b : Backend) (policy : ManagedPolicy) {parts : Path}
    (hproper : ProperPath parts) (hplain : Plain parts) :
    requireRead b policy parts =
      require (policy.decide (b.guest parts)).canRead policyDenies := by
  rw [requireRead, b.decideUri_guest policy hproper, if_pos hplain]
  rfl

theorem requireWrite_of_not_writable {b : Backend} {policy : ManagedPolicy} {w : Workspace}
    {found : Found} (hins : Inspected b w found) {parts : Path} (hproper : ProperPath parts)
    (hplain : Plain parts) (h : ¬Writable b policy w parts) :
    ∃ message, requireWrite b policy (b.guest parts) found.metadata =
      .error (.permission message) := by
  rw [requireWrite, b.decideUri_guest policy hproper, if_pos hplain, ok_bind, checkAll_require]
  cases hwrite : (policy.decide (b.guest parts)).canWrite with
  | false => exact ⟨_, rfl⟩
  | true =>
    refine ⟨"Existing project metadata is protected", ?_⟩
    have hmeta : found.metadata.all (fun root =>
        !root.contains (b.guest parts) || policy.explicitGrant root (b.guest parts)) = false := by
      rw [Bool.eq_false_iff]
      intro hall
      refine h ⟨hwrite, (Unprotected.of_perm hins.metadata).mp fun root hroot hcontains => ?_⟩
      simpa [hcontains] using all_eq_true.mp hall root hroot
    rw [hmeta]
    rfl

theorem judge_of_refused (hins : Inspected p.files w found) (hproper : ProperPath parts)
    (hplain : Plain parts) (h : Refused p w parts request) :
    ∃ message, p.judge found parts request = .error (.permission message) := by
  have hnode := hins.get_nodes parts
  rw [Policy.judge, hnode, requireRead_of_plain _ _ hproper hplain]
  by_cases hread : reads request.operation request.flags = true ∧
      ¬(p.policy.decide (p.files.guest parts)).canRead
  · refine ⟨"The supplied filesystem policy denies this operation", ?_⟩
    simp only [hread.1, Bool.not_eq_true _ ▸ hread.2]
    rfl
  · obtain ⟨hwrites, hwhy⟩ := h.resolve_left hread
    have hlist : decide (request.operation = .list) = false := by
      cases hop : request.operation <;> simp_all [writes]
    have hfirst : whenever (reads request.operation request.flags)
        (require (p.policy.decide (p.files.guest parts)).canRead policyDenies) = .ok () := by
      simpa using fun hr => by_contra fun hc => hread ⟨hr, by simpa using hc⟩
    simp only [hfirst, hlist, hwrites, ok_bind, whenever_true, whenever_false]
    by_cases hw : Writable p.files p.policy w parts
    · obtain ⟨hgit, hop, hnone⟩ := hwhy.resolve_left (not_not.mpr hw)
      have hok : requireWrite p.files p.policy (p.files.guest parts) found.metadata = .ok () :=
        (requireWrite_inspected hins hproper).mpr ⟨hplain, hw⟩
      refine ⟨"Creating gitdir aliases is not implemented", ?_⟩
      rw [hok]
      simp only [hgit, hop, hnone]
      rfl
    · obtain ⟨message, herror⟩ := requireWrite_of_not_writable hins hproper hplain hw
      refine ⟨message, ?_⟩
      rw [herror]
      rfl

/-- The record of a granted request. -/
def granted (w : Workspace) (id : Nat) (parts : Path) : Record where
  id := id
  error := 0
  relative := relative parts
  device := ((w.get parts).map Info.dev).getD 0
  inode := ((w.get parts).map Info.ino).getD 0
  parentDevice := (((w.get parts.dropLast).filter Info.isDir).map Info.dev).getD 0
  parentInode := (((w.get parts.dropLast).filter Info.isDir).map Info.ino).getD 0

theorem length_children (hins : Inspected p.files w found) (parts : Path) :
    (children found.nodes parts).length = (w.listdir parts).length := by
  have hsort : ∀ l : List Path, (l.insertionSort fun a b =>
      utf8Encode (a.getLastD []) ≤ utf8Encode (b.getLastD [])).length = l.length :=
    fun l => length_insertionSort _ l
  have hfilter : (Dict.keys w.nodes).filter
      (fun child => child.length = parts.length + 1 && child.dropLast = parts) =
        (w.entries.filter fun e => e.1.dropLast = parts).map Prod.fst := by
    rw [Workspace.nodes, Dict.keys, map_cons, filter_cons_of_neg (by simp),
      filter_map]
    refine congrArg (List.map Prod.fst) (filter_congr fun e he => ?_)
    have hpos := length_pos_iff.mpr (w.proper e he).1
    simp only [Function.comp_apply, Bool.and_eq_decide, decide_eq_decide, decide_eq_true_eq]
    constructor
    · exact And.right
    · rintro rfl
      exact ⟨by rw [length_dropLast]; omega, rfl⟩
  have hperm := ((hins.nodes.map Prod.fst).filter
    (fun child => child.length = parts.length + 1 && child.dropLast = parts)).length_eq
  rw [children, hsort, Dict.keys, hperm]
  have := congrArg List.length hfilter
  rw [Dict.keys] at this
  rw [this, length_map, length_listdir]

theorem listing_ok_iff (hins : Inspected p.files w found) :
    (∃ answer, listing p.files p.policy parts found.nodes = .ok answer) ↔
      requireRead p.files p.policy parts = .ok () ∧ ∀ info, w.get parts = some info →
        info.isDir ∧ (w.listdir parts).length ≤ 50000 := by
  simp only [listing, bind_eq_ok, hins.get_nodes, exists_unit]
  cases hnode : w.get parts with
  | none => simp
  | some info =>
    simp only [bind_eq_ok, require_eq_ok, exists_const, pure_eq_ok, length_children hins,
      decide_eq_true_eq, Option.some.injEq, forall_eq']
    constructor
    · rintro ⟨_, hread, hdir, hsize, _⟩
      exact ⟨hread, hdir, hsize⟩
    · rintro ⟨hread, hdir, hsize⟩
      exact ⟨_, hread, hdir, hsize, rfl⟩

/-- **A request is granted** exactly when it is not refused and a listing is possible;
the record names what the workspace has at the path and above it. -/
theorem judge_ok_iff (hw : Admitted p.files w) (hins : Inspected p.files w found)
    (hproper : ProperPath parts) (hplain : Plain parts) {record : Record} :
    p.judge found parts request = .ok record ↔
      ¬Refused p w parts request ∧ Listable w parts request ∧
        record = granted w request.id parts := by
  have hkind : (w.get parts).all (fun info => info.isReg || info.isDir) = true := by
    cases hnode : w.get parts with
    | none => rfl
    | some info =>
      by_cases hnil : parts = []
      · rw [hnil, Workspace.get_root, Option.some.injEq] at hnode
        simp [← hnode, w.root_dir]
      · simpa using (hw.ordinary _ (Workspace.mem_of_get hnil hnode)).kind
  have hread : requireRead p.files p.policy parts = .ok () ↔
      (p.policy.decide (p.files.guest parts)).canRead := by
    rw [requireRead_ok_iff hproper]
    exact and_iff_right hplain
  have hlist : (∃ answer, listing p.files p.policy parts found.nodes = .ok answer) ↔ _ :=
    listing_ok_iff hins
  have hwrite : requireWrite p.files p.policy (p.files.guest parts) found.metadata = .ok () ↔
      Writable p.files p.policy w parts := by
    rw [requireWrite_inspected hins hproper]
    exact and_iff_right hplain
  simp only [Policy.judge, hins.get_nodes, hins.get_directories_eq, bind_eq_ok, exists_unit,
    whenever_eq_ok, require_eq_ok, hkind, pure_eq_ok, map_eq_ok, hread, hwrite,
    and_true, true_and]
  constructor
  · rintro ⟨hreads, hlists, hwrites, rfl⟩
    refine ⟨?_, fun hop => (hlist.mp (hlists (by simp [hop]))).2, rfl⟩
    rintro (⟨hr, hdenied⟩ | ⟨hwr, hunwritable | ⟨hgit, hop, hnone⟩⟩)
    · exact hdenied (hreads hr)
    · exact hunwritable (hwrites hwr).1
    · have halias := (hwrites hwr).2
      rw [hgit, hop, hnone] at halias
      exact absurd halias (by decide)
  · rintro ⟨hnot, hlistable, rfl⟩
    have hreads : reads request.operation request.flags = true →
        (p.policy.decide (p.files.guest parts)).canRead = true :=
      fun hr => by_contra fun hc => hnot (.inl ⟨hr, hc⟩)
    refine ⟨hreads, fun hop => ?_, fun hwr => ⟨?_, ?_⟩, rfl⟩
    · have hop : request.operation = .list := of_decide_eq_true hop
      exact hlist.mpr ⟨hread.mpr (hreads (by simp [reads, hop])), hlistable hop⟩
    · exact by_contra fun hc => hnot (.inr ⟨hwr, .inl hc⟩)
    · rw [Bool.not_eq_true', Bool.eq_false_iff]
      intro halias
      simp only [Bool.and_eq_true, decide_eq_true_eq, Option.isNone_iff_eq_none] at halias
      exact hnot (.inr ⟨hwr, .inr ⟨halias.1.1, halias.1.2, halias.2⟩⟩)

/-- The `except` clause of `decide` turns the error into a refusal. -/
def caught : Failure → Bool
  | .permission _ => true
  | .unicode => true
  | _ => false

/-- **A listing that is not possible raises** what `decide` does not catch. -/
theorem judge_of_unlistable (hins : Inspected p.files w found) (hproper : ProperPath parts)
    (hplain : Plain parts) (hnot : ¬Refused p w parts request) (h : ¬Listable w parts request) :
    ∃ error, p.judge found parts request = .error error ∧ caught error = false := by
  obtain ⟨hop, hinfo⟩ := Classical.not_imp.mp h
  obtain ⟨info, hinfo⟩ := not_forall.mp hinfo
  obtain ⟨hnode, hbad⟩ := Classical.not_imp.mp hinfo
  have hreads : reads request.operation request.flags = true := by simp [reads, hop]
  have hread : (p.policy.decide (p.files.guest parts)).canRead = true :=
    by_contra fun hc => hnot (.inl ⟨hreads, hc⟩)
  rw [Policy.judge, listing, requireRead_of_plain _ _ hproper hplain, hins.get_nodes, hreads,
    hread, hnode, hop]
  cases hdir : info.isDir with
  | false =>
    refine ⟨.rpc ⟨-32600, "Requested readDirectory path is not a directory", none⟩, ?_, rfl⟩
    simp only [hdir]
    rfl
  | true =>
    have hlarge : decide ((children found.nodes parts).length ≤ 50000) = false := by
      rw [length_children hins]
      exact decide_eq_false fun hle => hbad ⟨hdir, hle⟩
    refine ⟨.value "Directory listing exceeds the admitted protocol response bound", ?_, rfl⟩
    simp only [hdir, hlarge]
    rfl

end Judge

/-! ### Requests of the Bionic supervisor -/

/-- Which paths the policy has an answer for: the path is not empty, and if it is text
that resolves to something inside the mount, no component has a control character and
the request is refused, or can be granted in an answer short enough to send. -/
def Answerable (p : Policy) (w : Workspace) (path : List UInt8) (operation : Operation)
    (flags : Nat) : Prop :=
  path ≠ [] ∧ ∀ value, utf8Decode path = some value → ∀ parts,
    p.resolve value = p.files.mount.guest.parts ++ parts →
      Plain parts ∧ (Refused p w parts (acquire 0 path operation flags) ∨
        (Listable w parts (acquire 0 path operation flags) ∧
          (utf8Encode (relative parts)).length < MAX_PATH))

theorem refusal_accepted (id : Nat) : accepted id (refusal id) = true := by
  simp [accepted, refusal, EACCES, MAX_PATH]

theorem granted_accepted_iff {w : Workspace} {id : Nat} {parts : Path} (h : ProperPath parts) :
    accepted id (granted w id parts) = true ↔
      (utf8Encode (relative parts)).length < MAX_PATH := by
  obtain ⟨hne, hzero, hhead⟩ := relative_fits h
  show (decide (id = id) && decide (0 ≤ 4095) &&
    decide ((utf8Encode (relative parts)).length < MAX_PATH) &&
    !(utf8Encode (relative parts)).contains 0 && (false || (utf8Encode (relative parts) != [] &&
      (utf8Encode (relative parts)).head? != some 47))) = true ↔ _
  simp [hne, hzero, hhead]

theorem judged_answer_iff {p : Policy} {w : Workspace} {found : Found} {parts : Path}
    {request : Request} (hw : Admitted p.files w) (hins : Inspected p.files w found)
    (hproper : ProperPath parts) :
    (∃ record, refuse request.id (p.judge found parts request) = .ok record ∧
        accepted request.id record = true) ↔
      Plain parts ∧ (Refused p w parts request ∨ (Listable w parts request ∧
        (utf8Encode (relative parts)).length < MAX_PATH)) := by
  by_cases hplain : Plain parts
  · by_cases hrefused : Refused p w parts request
    · obtain ⟨message, hjudge⟩ := judge_of_refused hins hproper hplain hrefused
      rw [hjudge]
      exact iff_of_true ⟨_, rfl, refusal_accepted _⟩ ⟨hplain, .inl hrefused⟩
    · by_cases hlist : Listable w parts request
      · have hjudge := (judge_ok_iff hw hins hproper hplain).mpr ⟨hrefused, hlist, rfl⟩
        rw [hjudge]
        simp only [refuse, Except.ok.injEq, exists_eq_left', granted_accepted_iff hproper]
        simp [hplain, hrefused, hlist]
      · obtain ⟨error, hjudge, hcaught⟩ := judge_of_unlistable hins hproper hplain hrefused hlist
        refine iff_of_false ?_ fun h => (h.2.resolve_left hrefused).1 |> hlist
        rintro ⟨record, hanswer, -⟩
        cases error <;> simp_all [refuse, caught]
  · rw [judge_of_control hproper hplain]
    refine iff_of_false ?_ fun h => hplain h.1
    rintro ⟨record, hanswer, -⟩
    cases hanswer

variable {path : List UInt8}

/-- **Exactly the answerable requests are answered.** -/
theorem answered_iff (p : Policy) {w : Workspace} (hw : Admitted p.files w) {id flags : Nat}
    (hid : id < 2 ^ 64) (hflags : flags < 2 ^ 64) (hnul : 0 ∉ path)
    (hlength : path.length < MAX_PATH) (operation : Operation) :
    (∃ record, p.decide w (acquire id path operation flags) = .ok record ∧
        accepted id record = true) ↔ Answerable p w path operation flags := by
  obtain ⟨found, hfound⟩ := inspect_ok_iff.mpr hw
  have hins := (inspect_spec hfound).2
  have hdecide : p.decide w (acquire id path operation flags) =
      refuse id (p.attempt w (acquire id path operation flags)) := by
    rw [Policy.decide, show decide ((acquire id path operation flags).id < 2 ^ 64) = true from
      decide_eq_true hid, show decide ((acquire id path operation flags).flags < 2 ^ 64) = true from
      decide_eq_true hflags]
    rfl
  have hlong : decide (path.length < 4096) = true := decide_eq_true hlength
  rw [hdecide, Policy.attempt,
    show (acquire id path operation flags).pathHex = toHex path from rfl, fromHex_toHex]
  simp only [hlong, decide_true, Bool.and_true]
  by_cases hpath : path = []
  · rw [hpath]
    refine iff_of_false ?_ fun h => h.1 rfl
    rintro ⟨record, hanswer, -⟩
    cases hanswer
  have hne : (path != []) = true := bne_iff_ne.mpr hpath
  rw [hne]
  cases hdecode : utf8Decode path with
  | none =>
    refine iff_of_true ⟨_, rfl, refusal_accepted id⟩ ⟨hpath, fun value hvalue => ?_⟩
    rw [hdecode] at hvalue
    cases hvalue
  | some value =>
    have hbytes := utf8Encode_of_utf8Decode hdecode
    have hvalue : value ≠ [] := fun h => hpath (by rw [← hbytes, h, Encoding.utf8Encode_nil])
    have hzero : '\x00' ∉ value := fun h =>
      hnul (hbytes ▸ (mem_utf8Encode (a := '\x00') (by decide)).mpr h)
    rw [Answerable, and_iff_right hpath, hdecode]
    simp only [Option.some.injEq, forall_eq']
    show (∃ record, refuse id (p.parts value >>= _) = _ ∧ _) ↔ _
    rw [parts_eq p hvalue hzero, hfound]
    by_cases hin : p.files.mount.guest.parts <+: p.resolve value
    · obtain ⟨parts, hparts⟩ := hin
      have hproper : ProperPath parts := fun name hname =>
        resolve_proper p hzero name (hparts ▸ mem_append_right _ hname)
      rw [if_pos ⟨parts, hparts⟩, ← hparts, drop_left]
      simp only [append_cancel_left_eq, forall_eq']
      exact judged_answer_iff hw hins hproper
    · rw [if_neg hin]
      exact iff_of_true ⟨_, rfl, refusal_accepted id⟩
        fun parts hparts => absurd ⟨parts, hparts.symm⟩ hin

/-! ### Requests of the managed runner -/

/-- Every number of the request fits in 64 bits. -/
def OpenRequest.Fits (request : OpenRequest) : Prop :=
  ∀ n ∈ [request.id, request.syscall, request.flags, request.mode, request.pid,
    request.pathAddress, request.howAddress], n < 2 ^ 64

/-- Which relative paths the managed policy has an answer for: text without control
characters. -/
def OpenAnswerable (path : List UInt8) : Prop :=
  ∃ text, utf8Decode path = some text ∧ Plain (text.splitOn '/')

theorem mgRelative_spec {rootPath raw : List UInt8} (h : mgRelative rootPath raw = some path) :
    mgComponents path = true ∧ path <:+ raw := by
  unfold mgRelative at h
  split_ifs at h with hslash hbelow hparts
  · rw [Option.some.injEq] at h
    subst h
    exact ⟨(Bool.and_eq_true _ _ ▸ hbelow).2, drop_suffix _ _⟩
  · rw [Option.some.injEq] at h
    subst h
    exact ⟨hparts, suffix_refl _⟩

/-- The byte-wise check of the components is the one on the decoded names. -/
theorem properPath_of_mgComponents {text : List Char} (h : mgComponents (utf8Encode text) = true)
    (hnul : '\x00' ∉ text) : ProperPath (text.splitOn '/') := by
  intro name hname
  have hsplit := splitOn_utf8Encode (a := '/') (by decide) text
  have hbyte : utf8Encode name ∈ (utf8Encode text).splitOn 47 :=
    hsplit ▸ mem_map_of_mem hname
  have hcheck := all_eq_true.mp h _ hbyte
  simp only [Bool.and_eq_true, bne_iff_ne] at hcheck
  obtain ⟨⟨hempty, hdot⟩, hdots⟩ := hcheck
  refine ⟨?_, not_mem_of_mem_splitOn hname, fun hmem => hnul (mem_of_mem_splitOn hname hmem),
    ?_, ?_⟩
  · rintro rfl
    exact hempty rfl
  · rintro rfl
    exact hdot (by decide)
  · rintro rfl
    exact hdots (by decide)

theorem openJudge_ok {p : NativeProcessPolicy} {w : Workspace} {found : Found} {parts : Path}
    (hins : Inspected p.backend w found) (hproper : ProperPath parts) (hplain : Plain parts)
    (decision : Decision) (request : OpenRequest) :
    ∃ record, p.judge found parts decision request = .ok record := by
  unfold NativeProcessPolicy.judge
  by_cases hw : Writable p.backend p.policy w parts
  · have hok : requireWrite p.backend p.policy (p.backend.guest parts) found.metadata = .ok () :=
      (requireWrite_inspected hins hproper).mpr ⟨hplain, hw⟩
    simp only [hok]
    split <;> exact ⟨_, rfl⟩
  · obtain ⟨message, herror⟩ := requireWrite_of_not_writable hins hproper hplain hw
    simp only [herror]
    split <;> exact ⟨_, rfl⟩

/-- **The managed policy answers exactly text without control characters.** -/
theorem openAnswered_iff (p : NativeProcessPolicy) {w : Workspace} (hw : Admitted p.backend w)
    {rootPath raw : List UInt8} (hrel : mgRelative rootPath raw = some path)
    (hnul : 0 ∉ raw) (hlength : raw.length < MAX_PATH) {request : OpenRequest}
    (hfits : request.Fits) (hpath : request.pathHex = toHex path) :
    (∃ record, p.decide w request = .ok record) ↔ OpenAnswerable path := by
  obtain ⟨found, hfound⟩ := inspect_ok_iff.mpr hw
  have hins := (inspect_spec hfound).2
  obtain ⟨hparts, hsuffix⟩ := mgRelative_spec hrel
  have hne : (path != []) = true := by
    rw [bne_iff_ne]
    rintro rfl
    exact absurd hparts (by decide)
  have hlong : decide (path.length < 4096) = true :=
    decide_eq_true (lt_of_le_of_lt hsuffix.length_le hlength)
  have hints : [request.id, request.syscall, request.flags, request.mode, request.pid,
      request.pathAddress, request.howAddress].all (· < 2 ^ 64) = true :=
    all_eq_true.mpr fun n hn => decide_eq_true (hfits n hn)
  rw [NativeProcessPolicy.decide, hints, hpath, fromHex_toHex]
  simp only [hne, hlong, decide_true, Bool.and_true]
  cases hdecode : utf8Decode path with
  | none =>
    refine iff_of_false ?_ ?_
    · rintro ⟨record, hanswer⟩
      cases hanswer
    · rintro ⟨text, htext, -⟩
      rw [hdecode] at htext
      cases htext
  | some text =>
    have hbytes := utf8Encode_of_utf8Decode hdecode
    have hzero : '\x00' ∉ text := fun h => hnul (hsuffix.subset
      (hbytes ▸ (mem_utf8Encode (a := '\x00') (by decide)).mpr h))
    have hproper : ProperPath (text.splitOn '/') :=
      properPath_of_mgComponents (hbytes ▸ hparts) hzero
    have hcheck : (!(text.splitOn '/').any fun part => part = [] || part = dot || part = dotDot ||
        part.contains '\x00') = true := by
      rw [Bool.not_eq_true', any_eq_false]
      intro name hname
      obtain ⟨hempty, -, hz, hdot, hdots⟩ := hproper name hname
      simp [hempty, hz, hdot, hdots]
    have hanswerable : OpenAnswerable path ↔ Plain (text.splitOn '/') := by
      simp [OpenAnswerable, hdecode]
    rw [hanswerable]
    simp only [hcheck, hfound, p.backend.decideUri_guest p.policy hproper]
    by_cases hplain : Plain (text.splitOn '/')
    · rw [if_pos hplain]
      exact iff_of_true (openJudge_ok hins hproper hplain _ request) hplain
    · rw [if_neg hplain]
      refine iff_of_false ?_ hplain
      rintro ⟨record, hanswer⟩
      cases hanswer

/-! ### All requests -/

/-- **Which requests get a decision record.** On an admitted workspace the Bionic policy
answers a request of `authorize` with a record that `authorize` accepts exactly when the
path is answerable, and the managed policy answers a request of `mg_decide` exactly when
its path is text without control characters. -/
theorem requests_answered_iff (w : Workspace) :
    (∀ p : Policy, (∃ found, inspect p.files w = .ok found) →
      ∀ id flags, id < 2 ^ 64 → flags < 2 ^ 64 → ∀ (operation : Operation) (path : List UInt8),
        0 ∉ path → path.length < MAX_PATH →
        ((∃ record, p.decide w (acquire id path operation flags) = .ok record ∧
          accepted id record = true) ↔ Answerable p w path operation flags)) ∧
    (∀ p : NativeProcessPolicy, (∃ found, inspect p.backend w = .ok found) →
      ∀ (rootPath raw path : List UInt8), mgRelative rootPath raw = some path → 0 ∉ raw →
        raw.length < MAX_PATH → ∀ request : OpenRequest, request.Fits →
        request.pathHex = toHex path →
        ((∃ record, p.decide w request = .ok record) ↔ OpenAnswerable path)) := by
  constructor
  · intro p hw id flags hid hflags operation path hnul hlength
    exact answered_iff p (inspect_ok_iff.mp hw) hid hflags hnul hlength operation
  · intro p hw rootPath raw path hrel hnul hlength request hfits hpath
    exact openAnswered_iff p (inspect_ok_iff.mp hw) hrel hnul hlength hfits hpath

namespace Sample

open FoldGPT.Files.Sample

/-- The policy of a process started in the root of the sample workspace. -/
def processPolicy : Policy where
  files := backend
  policy := policy
  executionCwd := ⟨[['w']]⟩
  clean := backend.mount.clean
  inside := by decide

def nativePolicy : NativeProcessPolicy := ⟨backend, policy⟩

/-- An `open` of the managed runner. -/
def openRequest (path : List UInt8) : OpenRequest := ⟨1, 56, 0, 0, toHex path, 7, 4096, 0⟩

theorem workspace_inspected : ∃ found, inspect backend workspace = .ok found :=
  exists_ok_of_isOk (by decide +kernel)

end Sample

open Sample FoldGPT.Files.Sample in
/-- Neither the empty path nor a path that is not UTF-8 gets an answer. -/
theorem empty_path_unanswered :
    (∃ found, inspect processPolicy.files workspace = .ok found) ∧
      (¬∃ record, processPolicy.decide workspace (acquire 1 [] .opening 0) = .ok record ∧
        accepted 1 record = true) ∧
      mgRelative [] [0xff] = some [0xff] ∧
      ¬∃ record, nativePolicy.decide workspace (openRequest [0xff]) = .ok record := by
  refine ⟨workspace_inspected, ?_, by decide, ?_⟩
  · rintro ⟨record, hanswer, -⟩
    have hraise : processPolicy.decide workspace (acquire 1 [] .opening 0) =
        .error (.value "Invalid copied pathname encoding") := rfl
    rw [hraise] at hanswer
    cases hanswer
  · rintro ⟨record, hanswer⟩
    have hraise : (nativePolicy.decide workspace (openRequest [0xff])).isOk = false := by
      decide +kernel
    rw [hanswer] at hraise
    cases hraise

open Sample FoldGPT.Files.Sample in
/-- Opening `s` is answered by both policies. -/
theorem requests_answered_plain :
    (∃ record, processPolicy.decide workspace (acquire 1 [115] .opening 0) = .ok record ∧
      accepted 1 record = true) ∧
    ∃ record, nativePolicy.decide workspace (openRequest [115]) = .ok record := by
  have hdecode : utf8Decode [115] = some ['s'] := by decide +kernel
  constructor
  · refine ((requests_answered_iff workspace).1 processPolicy workspace_inspected 1 0 (by decide)
      (by decide) .opening [115] (by decide) (by decide)).mpr ⟨by decide, fun value hvalue => ?_⟩
    rw [hdecode, Option.some.injEq] at hvalue
    subst hvalue
    intro parts hparts
    have hparts : parts = [['s']] := by
      have hresolve : processPolicy.resolve ['s'] = [['w'], ['s']] := by decide
      rw [hresolve] at hparts
      exact (append_cancel_left (show [['w']] ++ [['s']] = [['w']] ++ parts from hparts)).symm
    subst hparts
    refine ⟨by decide, .inr ⟨nofun, by decide⟩⟩
  · refine ((requests_answered_iff workspace).2 nativePolicy workspace_inspected [] [115] [115]
      (by decide) (by decide) (by decide) (openRequest [115]) ?_ rfl).mpr
      ⟨['s'], hdecode, by decide⟩
    unfold OpenRequest.Fits
    decide

end FoldGPT.Acquire
