import FoldGPT.Artifact.Safety

/-!
# The second acquisition returns

An acquisition that nothing interrupts, against a server that serves the trusted bytes, returns the
artifact, unless the partial one it found was spoiled; then that is discarded, and the next one
returns. Only a directory that was made under a set-group-id parent and not finished stays in the
way: it is never touched again.

Main results: `second_acquisition_returns`, `unfinished_directory_refused`.
-/

namespace FoldGPT.Artifact

open FoldGPT.Lib Mortal List Option

/-- What is behind the addresses. -/
structure Server where
  respond : List Char → Nat → Response
  read : Nat → Reading

/-- A response the bytes from the offset on, or all bytes, follow. -/
def Answers (d : Descriptor) (response : Response) (offset : Nat) : Prop :=
  (response.status = 200 ∧ response.contentRange = none ∧
      (response.contentLength = -1 ∨ response.contentLength = (d.bytes : Int)) ∨
    response.status = 206 ∧ 0 < offset ∧ response.contentRange = some (wantedRange d offset) ∧
      (response.contentLength = -1 ∨
        response.contentLength = ((d.bytes - offset : Nat) : Int))) ∧
    response.encoding.all isIdentity = true

/-- So many redirections lead to such a response. -/
def Leads (g : Setting) (d : Descriptor) (respond : List Char → Nat → Response) (offset : Nat) :
    Nat → List (List Char) → List Char → Prop
  | 0, _, _ => False
  | redirects + 1, visited, location =>
    location ∉ visited ∧
      (Answers d (respond location offset) offset ∨
        ∃ next there, (respond location offset).status ∈ redirectCodes ∧
          (respond location offset).location = some next ∧ next.length ≤ 8192 ∧
          g.resolve location next = some there ∧
          Leads g d respond offset redirects (location :: visited) there)

/-- **A server that serves the trusted bytes.** -/
structure Serves (g : Setting) (d : Descriptor) (server : Server) (content : List UInt8) :
    Prop where
  size : content.length = d.bytes
  hash : g.sha content = d.sha256
  body : ∀ position < d.bytes, ∃ first rest, server.read position = .chunk first rest ∧
    first :: rest <+: content.drop position
  ending : server.read d.bytes = .eof
  answers : ∀ offset < d.bytes, Leads g d server.respond offset 6 [] d.url

/-- The call is answered, nothing fails, and the server is this one. -/
def Uninterrupted (server : Server) : Option Answer → Prop
  | none => False
  | some answer => answer.cancelled = false ∧ answer.fails = false ∧ answer.busy = false ∧
    answer.respond = server.respond ∧ answer.read = server.read

/-- What a program does when nothing interrupts it. -/
abbrev Live (server : Server) {α : Type} (m : Program α) (s : Cache) (R : α → Cache → Prop)
    (E : Failure → Cache → Prop) : Prop :=
  Meets (Uninterrupted server) (fun _ => False) m s R E

variable {g : Setting} {d : Descriptor} {server : Server} {content : List UInt8} {s : Cache}
  {E : Failure → Cache → Prop}

namespace Live

/-! ### Calls -/

theorem change (f : Cache → Cache) : Live server (change f) s (fun _ s' => s' = f s) E := by
  refine Meets.call id fun c hc => ?_
  rw [if_neg (by simp [hc.2.1])]
  rfl

theorem sync : Live server sync s (fun _ s' => s = s') E :=
  (change id).post fun _ _ hs => hs.symm

theorem check : Live server check s (fun _ s' => s = s') E := by
  refine Meets.call id fun c hc => ?_
  rw [if_neg (by simp [hc.1])]
  rfl

theorem demand {condition : Bool} {failure : Failure} (h : condition = true) :
    Live server (demand condition failure) s (fun _ s' => s = s') E :=
  Meets.demand (fun _ => rfl) fun hfalse => absurd (h.symm.trans hfalse) Bool.noConfusion

theorem look : Live server look s (fun seen s' => s = s' ∧ s = seen) E := Meets.look ⟨rfl, rfl⟩

theorem regularIfAny {mode : Option Mode} (h : ∀ m, mode = some m → m = 0o600#12) :
    Live server (regularIfAny mode) s (fun _ s' => s = s') E := by
  cases mode with
  | none => exact Meets.pure rfl
  | some m => exact demand (decide_eq_true (h m rfl))

theorem lock : Live server (Mortal.call fun c s =>
    if c.busy then (.error (.io "Another acquisition holds this artifact lease"), s)
    else (.ok (), s)) s (fun _ s' => s = s') E := by
  refine Meets.call id fun c hc => ?_
  rw [if_neg (by simp [hc.2.2.1])]
  rfl

theorem writeAll {put : UInt8 → Cache → Cache} (bytes : List UInt8) :
    Live server (writeAll put bytes) s
      (fun _ s' => s' = bytes.foldl (fun s byte => put byte s) s) E := by
  refine (Meets.each (I := fun rest s' => bytes.foldl (fun s byte => put byte s) s =
    rest.foldl (fun s byte => put byte s) s') ?_ ?_ rfl).post fun _ _ hs => hs.symm
  · exact fun _ _ _ hnone => hnone
  · intro byte rest s' hs c hc
    rw [if_neg (by simp [hc.2.1])]
    exact hs

end Live

/-! ### Modes -/

/-- A umask that keeps the owner's bits. -/
def Setting.KeepsOwner (g : Setting) : Prop := g.umask &&& 0o700#12 = 0#12

theorem and_not_eq_self {mode umask keep : Mode} (hkeep : umask &&& keep = 0#12)
    (hmode : mode &&& keep = mode) : mode &&& ~~~umask = mode := by
  ext i hi
  have hfree : (umask &&& keep)[i] = false := by
    rw [hkeep]
    exact BitVec.getElem_zero hi
  have hkept : (mode &&& keep)[i] = mode[i] := by rw [hmode]
  rw [BitVec.getElem_and] at hfree hkept
  rw [BitVec.getElem_and, BitVec.getElem_not]
  cases hm : mode[i] with
  | false => rfl
  | true =>
    rw [hm, Bool.true_and] at hkept
    rw [hkept, Bool.and_true] at hfree
    rw [hfree]
    rfl

theorem created_file (h : g.KeepsOwner) : g.created 0o600#12 = 0o600#12 :=
  and_not_eq_self h (by decide)

theorem created_directory (h : g.KeepsOwner) : g.created 0o700#12 = 0o700#12 :=
  and_not_eq_self h (by decide)

/-- A new directory has no other bits than `finishCreatedDirectory` admits. -/
theorem created_admitted (g : Setting) (parent : Mode) :
    (g.created 0o700#12 ||| inherited parent) &&& ~~~0o2700#12 = 0#12 := by
  rw [Setting.created, inherited, BitVec.and_or_distrib_right]
  have hcreated : 0o700#12 &&& ~~~g.umask &&& ~~~0o2700#12 = 0#12 := by
    rw [BitVec.and_assoc, BitVec.and_comm (~~~g.umask), ← BitVec.and_assoc]
    have hnone : 0o700#12 &&& ~~~0o2700#12 = 0#12 := by decide
    rw [hnone, BitVec.zero_and]
  have hinherited : parent &&& 0o2000#12 &&& ~~~0o2700#12 = 0#12 := by
    rw [BitVec.and_assoc]
    have hnone : 0o2000#12 &&& ~~~0o2700#12 = 0#12 := by decide
    rw [hnone, BitVec.and_zero]
  rw [hcreated, hinherited]
  rfl

theorem regularFiles_of_sound (hkeeps : g.KeepsOwner) (h : Sound g d s) :
    regularFiles s = true := by
  have hfile := created_file hkeeps
  have hmap : ∀ {file : Option File}, (∀ f, file = some f → f.mode = g.created 0o600#12) →
      ∀ mode, file.map File.mode = some mode → mode = 0o600#12 := by
    intro file hall mode hmode
    obtain ⟨f, hf, rfl⟩ := map_eq_some_iff.mp hmode
    exact (hall f hf).trans hfile
  rw [regularFiles, List.all_eq_true]
  intro mode hmem
  obtain ⟨entry, hentry, hsome⟩ := mem_filterMap.mp hmem
  refine decide_eq_true ?_
  simp only [mem_cons, not_mem_nil, or_false] at hentry
  rcases hentry with rfl | rfl | rfl | rfl | rfl
  · exact (h.modes.lease mode hsome).trans hfile
  · exact hmap h.modes.descriptor mode hsome
  · exact hmap h.modes.pending mode hsome
  · exact hmap h.modes.part mode hsome
  · exact hmap h.modes.target mode hsome

theorem document_length (d : Descriptor) : d.document.length ≤ maxDocument := by
  have hdigits : (decimal d.bytes).length ≤ 19 :=
    Nat.toDigits_length 10 d.bytes 19 (by decide) (Nat.lt_trans d.bytes_lt (by decide))
  have hurl := d.url_le
  have hsha := d.sha256_length
  have hhead : "foldgpt.https-artifact.v1\n".toList.length = 26 := by decide
  simp only [Descriptor.document, ascii, length_map, length_append, length_cons,
    length_nil, hhead, hsha, maxDocument]
  omega

theorem foldl_append {append : UInt8 → Cache → Cache} (put : List UInt8 → Cache)
    (happend : ∀ written byte, append byte (put written) = put (written ++ [byte]))
    (written bytes : List UInt8) :
    bytes.foldl (fun s byte => append byte s) (put written) = put (written ++ bytes) := by
  induction bytes generalizing written with
  | nil => rw [foldl_nil, append_nil]
  | cons byte rest ih => rw [foldl_cons, happend, ih, append_assoc, singleton_append]

theorem foldl_appendPending (mode : Mode) (written bytes : List UInt8) :
    bytes.foldl (fun s byte => Cache.appendPending byte s)
        { s with pending := some ⟨mode, written⟩ } =
      { s with pending := some ⟨mode, written ++ bytes⟩ } :=
  foldl_append (fun written => { s with pending := some ⟨mode, written⟩ }) (fun _ _ => rfl) _ _

theorem foldl_appendPart (mode : Mode) (written bytes : List UInt8) :
    bytes.foldl (fun s byte => Cache.appendPart byte s) { s with part := some ⟨mode, written⟩ } =
      { s with part := some ⟨mode, written ++ bytes⟩ } :=
  foldl_append (fun written => { s with part := some ⟨mode, written⟩ }) (fun _ _ => rfl) _ _

namespace Live

/-! ### Directories and the descriptor -/

theorem createPrivate {get : Cache → Option Mode} {set : Mode → Cache → Cache}
    {parent : Cache → Mode} (hget : ∀ mode s, get (set mode s) = some mode)
    (hset : ∀ mode mode' s, set mode (set mode' s) = set mode s)
    (hsame : get s = some 0o700#12 → set 0o700#12 s = s)
    (h : get s = none ∨ get s = some 0o700#12) :
    Live server (createPrivate g get set parent) s (fun _ s' => s' = set 0o700#12 s) E := by
  refine Meets.bind (R := fun _ s' => s' = set 0o700#12 s) ?_ ?_
  · refine Meets.bind look ?_
    rintro _ _ ⟨rfl, rfl⟩
    rcases h with hnone | hsome
    · rw [hnone]
      refine Meets.bind (change _) ?_
      rintro _ _ rfl
      refine Meets.bind look ?_
      rintro _ _ ⟨rfl, rfl⟩
      refine Meets.bind (demand ?_) ?_
      · rw [hget]
        exact decide_eq_true (created_admitted g (parent s))
      rintro _ _ rfl
      refine Meets.bind (change _) ?_
      rintro _ _ rfl
      rw [hset]
      exact sync.post fun _ _ hs => hs.symm
    · rw [hsome]
      exact Meets.pure (hsame hsome).symm
  · rintro _ _ rfl
    refine Meets.bind look ?_
    rintro _ _ ⟨rfl, rfl⟩
    exact (demand (decide_eq_true (hget _ _))).post fun _ _ hs => hs.symm

theorem openLease :
    Live server (openFile g Cache.lease fun mode s => { s with lease := some mode }) s
      (fun _ s' => s' = { s with lease := some (s.lease.getD (g.created 0o600#12)) }) E := by
  refine Meets.bind look ?_
  rintro _ _ ⟨rfl, rfl⟩
  split
  next mode hmode =>
    refine Meets.pure ?_
    rw [hmode, getD_some, ← hmode]
  next hnone =>
    rw [hnone]
    exact change _

theorem openPart :
    Live server (openFile g (fun s => s.part.map File.mode)
        fun mode s => { s with part := some ⟨mode, []⟩ }) s
      (fun _ s' => s' = { s with part := some (s.part.getD ⟨g.created 0o600#12, []⟩) }) E := by
  refine Meets.bind look ?_
  rintro _ _ ⟨rfl, rfl⟩
  split
  next mode hmode =>
    obtain ⟨file, hfile, -⟩ := map_eq_some_iff.mp hmode
    refine Meets.pure ?_
    rw [hfile, getD_some, ← hfile]
  next hnone =>
    rw [map_eq_none_iff.mp hnone]
    exact change _

theorem deletePending {behind : Program Unit}
    (hmode : ∀ file, s.pending = some file → file.mode = 0o600#12)
    (hbehind : ∀ s', Live server behind s' (fun _ s'' => s' = s'') E) :
    Live server (deletePending behind) s (fun _ s' => s' = { s with pending := none }) E := by
  refine Meets.bind look ?_
  rintro _ _ ⟨rfl, rfl⟩
  split
  next hnone =>
    refine Meets.pure ?_
    rw [← hnone]
  next pending hpending =>
    refine Meets.bind (demand (decide_eq_true (hmode pending hpending))) ?_
    rintro _ _ rfl
    refine Meets.bind (change _) ?_
    rintro _ _ rfl
    exact (hbehind _).post fun _ _ hs => hs.symm

theorem bindDescriptor (hkeeps : g.KeepsOwner) (h : Sound g d s) :
    Live server (bindDescriptor g d) s (fun _ s' => s'.cache = s.cache ∧ s'.part = s.part ∧
      s'.target = s.target) E := by
  have hpending : ∀ file, s.pending = some file → file.mode = 0o600#12 :=
    fun file hfile => (h.modes.pending file hfile).trans (created_file hkeeps)
  refine Meets.bind look ?_
  rintro _ _ ⟨rfl, rfl⟩
  split
  next file hfile =>
    have hdocument := h.exact file hfile
    refine Meets.bind (demand (decide_eq_true ?_)) ?_
    · exact (h.modes.descriptor file hfile).trans (created_file hkeeps)
    rintro _ _ rfl
    refine Meets.bind (demand (decide_eq_true (hdocument ▸ document_length d))) ?_
    rintro _ _ rfl
    refine Meets.bind (demand (decide_eq_true hdocument)) ?_
    rintro _ _ rfl
    refine (deletePending hpending fun _ => sync).post ?_
    rintro _ _ rfl
    exact ⟨rfl, rfl, rfl⟩
  next hnone =>
    -- without a descriptor there are no data
    have hempty : ¬(s.part.isSome ∨ s.target.isSome) := by
      intro hsome
      obtain ⟨file, hfile, -⟩ := h.bound hsome
      rw [hnone] at hfile
      cases hfile
    rw [not_or, not_isSome_iff_eq_none, not_isSome_iff_eq_none] at hempty
    refine Meets.bind (demand ?_) ?_
    · rw [hempty.1, hempty.2]
      rfl
    rintro _ _ rfl
    refine Meets.bind (deletePending hpending fun _ => Meets.pure rfl) ?_
    rintro _ _ rfl
    refine Meets.bind (change _) ?_
    rintro _ _ rfl
    refine Meets.bind (writeAll _) ?_
    rintro _ _ rfl
    rw [foldl_appendPending]
    refine Meets.bind sync ?_
    rintro _ _ rfl
    refine Meets.bind check ?_
    rintro _ _ rfl
    refine Meets.bind look ?_
    rintro _ _ ⟨rfl, rfl⟩
    refine Meets.bind (demand ?_) ?_
    · show s.descriptor.isNone = true
      rw [hnone]
      rfl
    rintro _ _ rfl
    refine Meets.bind (change _) ?_
    rintro _ _ rfl
    refine sync.post ?_
    rintro _ _ rfl
    exact ⟨rfl, rfl, rfl⟩

/-! ### The transfer -/

/-- **The loop of the transfer**: the rest of the trusted bytes is appended. -/
theorem receive (h : Serves g d server content) (fuel : Nat) {received : Nat} {mode : Mode}
    {written : List UInt8} (hreceived : received ≤ d.bytes) (hfuel : d.bytes - received < fuel) :
    Live server (receive d fuel received) { s with part := some ⟨mode, written⟩ }
      (fun total s' => total = d.bytes ∧
        s' = { s with part := some ⟨mode, written ++ content.drop received⟩ }) E := by
  induction fuel generalizing received written with
  | zero => exact absurd hfuel (Nat.not_lt_zero _)
  | succ fuel ih =>
    refine Meets.bind check ?_
    rintro _ _ rfl
    refine Meets.bind (R := fun reading s' => reading = server.read received ∧
      { s with part := some ⟨mode, written⟩ } = s') ?_ ?_
    · refine Meets.call id fun c hc => ?_
      rw [if_neg (by simp [hc.1]), hc.2.2.2.2]
      exact ⟨rfl, rfl⟩
    rintro _ _ ⟨rfl, rfl⟩
    by_cases hend : received = d.bytes
    · rw [hend, h.ending]
      refine Meets.pure ⟨rfl, ?_⟩
      rw [← h.size, drop_length, append_nil]
    · obtain ⟨first, rest, hread, tail, htail⟩ := h.body received (by omega)
      have hlength : rest.length + 1 + tail.length = d.bytes - received := by
        have hdrop := congrArg List.length htail
        rw [length_append, length_cons, length_drop, h.size] at hdrop
        exact hdrop
      have hdropped : content.drop (received + (rest.length + 1)) = tail := by
        rw [← drop_drop, ← htail]
        exact drop_left
      rw [hread]
      refine Meets.bind (demand (decide_eq_true (by omega))) ?_
      rintro _ _ rfl
      refine Meets.bind (writeAll _) ?_
      rintro _ _ rfl
      rw [foldl_appendPart]
      refine Meets.bind sync ?_
      rintro _ _ rfl
      refine (ih (by omega) (by omega)).post ?_
      rintro total _ ⟨rfl, rfl⟩
      refine ⟨rfl, ?_⟩
      rw [hdropped, append_assoc, htail]

/-- What a transfer leaves: all bytes, and the trusted ones if it started from the beginning. -/
def Complete (d : Descriptor) (content : List UInt8) (s : Cache) (start : Nat) (s' : Cache) :
    Prop :=
  ∃ bytes, s' = { s with part := some ⟨0o600#12, bytes⟩ } ∧ bytes.length = d.bytes ∧
    (start = 0 → bytes = content)

theorem transfer (hkeeps : g.KeepsOwner) (h : Serves g d server content) {start : Nat}
    (hstart : start ≤ d.bytes) (hmode : ∀ file, s.part = some file → file.mode = 0o600#12)
    (hsize : start = 0 ∨ ∃ file, s.part = some file ∧ file.bytes.length = start) :
    Live server (transfer g d start) s (fun _ s' => Complete d content s start s') E := by
  refine Meets.bind look ?_
  rintro _ _ ⟨rfl, rfl⟩
  have hregular : ∀ mode, s.part.map File.mode = some mode → mode = 0o600#12 := by
    intro mode hmap
    obtain ⟨file, hfile, rfl⟩ := map_eq_some_iff.mp hmap
    exact hmode file hfile
  refine Meets.bind (regularIfAny hregular) ?_
  rintro _ _ rfl
  refine Meets.bind sync ?_
  rintro _ _ rfl
  refine Meets.bind openPart ?_
  rintro _ _ rfl
  -- the file that is open now
  obtain ⟨file, hfile, hopened, hend⟩ : ∃ file, s.part.getD ⟨g.created 0o600#12, []⟩ = file ∧
      file.mode = 0o600#12 ∧ (start = 0 ∨ file.bytes.length = start) := by
    cases hpart : s.part with
    | none =>
      refine ⟨_, rfl, created_file hkeeps, .inl ?_⟩
      rcases hsize with hzero | ⟨file, hfile, -⟩
      · exact hzero
      · rw [hpart] at hfile
        cases hfile
    | some file =>
      refine ⟨file, rfl, hmode file hpart, hsize.imp id ?_⟩
      rintro ⟨other, hother, hlength⟩
      rw [hpart] at hother
      exact Option.some.inj hother ▸ hlength
  rw [hfile]
  refine Meets.bind look ?_
  rintro _ _ ⟨rfl, rfl⟩
  refine Meets.bind (regularIfAny fun mode hmap => Option.some.inj hmap ▸ hopened) ?_
  rintro _ _ rfl
  refine Meets.bind sync ?_
  rintro _ _ rfl
  refine Meets.bind (R := fun _ s' => ∃ written, written.length = start ∧
    { s with part := some ⟨0o600#12, written⟩ } = s') ?_ ?_
  · unfold position
    split
    next hzero =>
      refine (change _).post ?_
      rintro _ _ rfl
      refine ⟨[], hzero.symm, ?_⟩
      rw [← hopened]
      rfl
    next hpositive =>
      have hlength := hend.resolve_left hpositive
      refine Meets.bind look ?_
      rintro _ _ ⟨rfl, rfl⟩
      refine (demand (decide_eq_true hlength)).post ?_
      rintro _ _ rfl
      refine ⟨file.bytes, hlength, ?_⟩
      rw [← hopened]
  rintro _ _ ⟨written, hwritten, rfl⟩
  have hcomplete : Complete d content s start
      { s with part := some ⟨0o600#12, written ++ content.drop start⟩ } := by
    refine ⟨_, rfl, ?_, fun hzero => ?_⟩
    · rw [length_append, length_drop, h.size]
      omega
    · rw [hzero] at hwritten ⊢
      rw [length_eq_zero_iff.mp hwritten]
      rfl
  refine Meets.cleanup (Q := fun _ s' => Complete d content s start s') (F := E) ?_ ?_ ?_
  · refine Meets.bind (receive h _ hstart (by omega)) ?_
    rintro _ _ ⟨rfl, rfl⟩
    refine (demand (decide_eq_true rfl)).post ?_
    rintro _ _ rfl
    exact hcomplete
  · intro _ s' hs
    exact sync.post fun _ _ heq => heq ▸ hs
  · intro _ s' hs
    exact sync.post fun _ _ heq => heq ▸ hs

variable {offset : Nat} {location : List Char}

theorem respond :
    Live server (Mortal.call fun c s =>
      if c.cancelled then (.error .interrupted, s)
      else if c.fails then (.error (.io "I/O error"), s)
      else (.ok (c.respond location offset), s)) s
      (fun response s' => server.respond location offset = response ∧ s = s') E := by
  refine Meets.call id fun c hc => ?_
  rw [if_neg (by simp [hc.1]), if_neg (by simp [hc.2.1]), hc.2.2.2.1]
  exact ⟨rfl, rfl⟩

theorem exchange_redirect {next there : List Char}
    (hstatus : (server.respond location offset).status ∈ redirectCodes)
    (hlocation : (server.respond location offset).location = some next)
    (hlength : next.length ≤ 8192) (hthere : g.resolve location next = some there) :
    Live server (exchange g d offset location) s
      (fun outcome s' => outcome = .redirect there ∧ s = s') E := by
  refine Meets.bind respond ?_
  rintro _ _ ⟨rfl, rfl⟩
  refine Meets.bind check ?_
  rintro _ _ rfl
  rw [if_pos hstatus, hlocation]
  refine Meets.bind (demand (decide_eq_true hlength)) ?_
  rintro _ _ rfl
  rw [hthere]
  exact Meets.pure ⟨rfl, rfl⟩

/-- The partial artifact ends where the download goes on. -/
def Resumable (s : Cache) (offset : Nat) : Prop :=
  (∀ file, s.part = some file → file.mode = 0o600#12) ∧
    (offset = 0 ∨ ∃ file, s.part = some file ∧ file.bytes.length = offset)

theorem exchange_answer (hkeeps : g.KeepsOwner) (h : Serves g d server content)
    (hoffset : offset < d.bytes) (hpart : Resumable s offset)
    (hanswer : Answers d (server.respond location offset) offset) :
    Live server (exchange g d offset location) s
      (fun outcome s' => ∃ start, outcome = .done start ∧ Complete d content s offset s') E := by
  obtain ⟨hstatus, hencoding⟩ := hanswer
  refine Meets.bind respond ?_
  rintro response _ ⟨hresponse, rfl⟩
  rw [hresponse] at hstatus hencoding
  refine Meets.bind check ?_
  rintro _ _ rfl
  -- the transfer starts from the beginning, or where the partial artifact ends
  have hcases : response.status ∉ redirectCodes ∧
      (response.status = 200 ∨ response.status = 206 ∧ 0 < offset) ∧
      ((if response.status = 200 then 0 else offset) = 0 ∨
        (if response.status = 200 then 0 else offset) = offset) := by
    rcases hstatus with ⟨hok, -⟩ | ⟨hranged, hpositive, -⟩
    · rw [hok]
      exact ⟨by decide, .inl rfl, .inl rfl⟩
    · rw [hranged]
      exact ⟨by decide, .inr ⟨rfl, hpositive⟩, .inr rfl⟩
  have hrange : ∀ s' : Cache, Live server
      (checkRange d response (if response.status = 200 then 0 else offset)) s'
      (fun _ s'' => s' = s'') E := by
    intro s'
    unfold checkRange
    rcases hstatus with ⟨hok, hrange, -⟩ | ⟨hranged, -, hrange, -⟩
    · rw [if_neg (by rw [hok]; decide), hrange]
      exact demand rfl
    · rw [if_pos hranged, hrange, hranged]
      exact demand (decide_eq_true rfl)
  have hlength : response.contentLength = -1 ∨ response.contentLength =
      ((d.bytes - (if response.status = 200 then 0 else offset) : Nat) : Int) := by
    rcases hstatus with ⟨hok, -, hlength⟩ | ⟨hranged, -, -, hlength⟩
    · rw [if_pos hok]
      exact hlength
    · rw [if_neg (by rw [hranged]; decide)]
      exact hlength
  obtain ⟨hdirect, hadmitted, hstart⟩ := hcases
  rw [if_neg hdirect]
  refine Meets.bind (demand (decide_eq_true hadmitted)) ?_
  rintro _ _ rfl
  refine Meets.bind (demand hencoding) ?_
  rintro _ _ rfl
  refine Meets.bind (hrange s) ?_
  rintro _ _ rfl
  refine Meets.bind (demand (decide_eq_true hlength)) ?_
  rintro _ _ rfl
  refine Meets.bind (transfer hkeeps h ?_ hpart.1 ?_) ?_
  · rcases hstart with hzero | hsame
    · rw [hzero]
      exact Nat.zero_le _
    · rw [hsame]
      exact Nat.le_of_lt hoffset
  · rcases hstart with hzero | hsame
    · exact .inl hzero
    · rw [hsame]
      exact hpart.2
  · rintro _ s' ⟨bytes, hs, hsize, hcontent⟩
    refine Meets.pure ⟨_, rfl, bytes, hs, hsize, fun hzero => hcontent ?_⟩
    rcases hstart with heq | heq
    · exact heq
    · exact heq.trans hzero

theorem download (hkeeps : g.KeepsOwner) (h : Serves g d server content)
    (hoffset : offset < d.bytes) (hpart : Resumable s offset) {redirects : Nat}
    {visited : List (List Char)}
    (hleads : Leads g d server.respond offset redirects visited location) :
    Live server (download g d offset redirects visited location) s
      (fun _ s' => Complete d content s offset s') E := by
  induction redirects generalizing visited location with
  | zero => exact absurd hleads id
  | succ redirects ih =>
    obtain ⟨hnew, hnext⟩ := hleads
    refine Meets.bind check ?_
    rintro _ _ rfl
    refine Meets.bind (demand (decide_eq_true hnew)) ?_
    rintro _ _ rfl
    rcases hnext with hanswer | ⟨next, there, hstatus, hlocation, hlength, hthere, hleads⟩
    · refine Meets.bind (Meets.handle (F := fun _ _ => False)
        (exchange_answer hkeeps h hoffset hpart hanswer) fun _ _ hfalse => hfalse.elim) ?_
      rintro _ s' ⟨start, rfl, hcomplete⟩
      exact Meets.pure hcomplete
    · refine Meets.bind (Meets.handle (F := fun _ _ => False)
        (exchange_redirect hstatus hlocation hlength hthere) fun _ _ hfalse => hfalse.elim) ?_
      rintro _ _ ⟨rfl, rfl⟩
      exact ih hleads

/-! ### The acquisition -/

theorem verify (get : Cache → Option File) {file : File} (hfile : get s = some file)
    (hmode : file.mode = 0o600#12) (hsize : file.bytes.length = d.bytes) :
    Live server (verify g d get) s (fun _ s' => s = s' ∧ g.sha file.bytes = d.sha256)
      fun failure s' => s = s' ∧ (∃ message, failure = .integrity message) ∧
        g.sha file.bytes ≠ d.sha256 := by
  refine Meets.bind check ?_
  rintro _ _ rfl
  refine Meets.bind look ?_
  rintro _ _ ⟨rfl, rfl⟩
  rw [hfile]
  refine Meets.bind (demand (decide_eq_true hmode)) ?_
  rintro _ _ rfl
  refine Meets.bind (demand (decide_eq_true hsize)) ?_
  rintro _ _ rfl
  refine Meets.bind check ?_
  rintro _ _ rfl
  refine Meets.bind (R := fun _ s' => s = s' ∧ g.sha file.bytes = d.sha256)
    (Meets.demand (fun htrue => ⟨rfl, of_decide_eq_true htrue⟩)
      fun hfalse => ⟨rfl, ⟨_, rfl⟩, of_decide_eq_false hfalse⟩) ?_
  rintro _ _ ⟨rfl, hsha⟩
  refine sync.post ?_
  rintro _ _ rfl
  exact ⟨rfl, hsha⟩

/-- **The artifact is fetched**, or a spoiled partial one is gone. -/
theorem fetch (hkeeps : g.KeepsOwner) (h : Serves g d server content)
    (hmode : ∀ file, s.part = some file → file.mode = 0o600#12)
    (hbounded : ∀ file, s.part = some file → file.bytes.length ≤ d.bytes)
    (htarget : s.target = none) :
    Live server (fetch g d) s (fun _ s' => s'.target.isSome = true)
      fun _ s' => s.part.isSome = true ∧ s' = { s with part := none } := by
  refine Meets.bind look ?_
  rintro _ _ ⟨rfl, rfl⟩
  have hoffset : s.part.elim 0 (fun file => file.bytes.length) ≤ d.bytes := by
    cases hpart : s.part with
    | none => exact Nat.zero_le _
    | some file => exact hbounded file hpart
  refine Meets.bind (demand (decide_eq_true hoffset)) ?_
  rintro _ _ rfl
  refine Meets.bind (R := fun _ s' => ∃ bytes, s' = { s with part := some ⟨0o600#12, bytes⟩ } ∧
    bytes.length = d.bytes ∧ g.sha bytes = d.sha256)
    (Meets.handle (F := fun failure s' => (∃ message, failure = .integrity message) ∧
      s.part.isSome = true ∧ ∃ bytes, s' = { s with part := some ⟨0o600#12, bytes⟩ }) ?_ ?_) ?_
  · -- all bytes are there; they are the trusted ones unless some were there before
    refine Meets.bind (R := fun _ s' => ∃ bytes,
      s' = { s with part := some ⟨0o600#12, bytes⟩ } ∧ bytes.length = d.bytes ∧
        (s.part = none → bytes = content)) ?_ ?_
    · unfold downloadRest
      split
      next hless =>
        refine (download hkeeps h hless ⟨hmode, ?_⟩ (h.answers _ hless)).post ?_
        · cases hpart : s.part with
          | none => exact .inl rfl
          | some file => exact .inr ⟨file, rfl, rfl⟩
        · rintro _ s' ⟨bytes, hs, hsize, hcontent⟩
          refine ⟨bytes, hs, hsize, fun hnone => hcontent ?_⟩
          rw [hnone]
          rfl
      next hfull =>
        have hpositive := d.bytes_pos
        cases hpart : s.part with
        | none =>
          rw [hpart] at hfull
          exact absurd hpositive hfull
        | some file =>
          rw [hpart] at hfull hoffset
          refine Meets.pure ⟨file.bytes, ?_, Nat.le_antisymm hoffset (Nat.not_lt.mp hfull), nofun⟩
          rw [← hmode file hpart, ← hpart]
    · rintro offset _ ⟨bytes, rfl, hsize, hcontent⟩
      refine Meets.bind (R := fun _ s' => s' = { s with part := some ⟨0o600#12, bytes⟩ } ∧
        g.sha bytes = d.sha256) ((verify _ rfl rfl hsize).mono ?_ ?_ fun _ hfalse => hfalse) ?_
      · rintro _ _ ⟨rfl, hsha⟩
        exact ⟨rfl, hsha⟩
      · rintro failure _ ⟨rfl, hintegrity, hsha⟩
        refine ⟨hintegrity, ?_, bytes, rfl⟩
        rw [← ne_none_iff_isSome]
        intro hnone
        rw [hcontent hnone] at hsha
        exact hsha h.hash
      · rintro _ _ ⟨rfl, hsha⟩
        exact Meets.pure ⟨bytes, rfl, hsize, hsha⟩
  · rintro _ _ ⟨⟨message, rfl⟩, hsome, bytes, rfl⟩
    refine Meets.bind (R := fun _ s' => s' = { s with part := none }) ?_ ?_
    · refine Meets.bind look ?_
      rintro _ _ ⟨rfl, rfl⟩
      refine Meets.bind (demand (decide_eq_true rfl)) ?_
      rintro _ _ rfl
      refine Meets.bind (change _) ?_
      rintro _ _ rfl
      exact sync.post fun _ _ hs => hs.symm
    · rintro _ _ rfl
      exact Meets.raise ⟨hsome, rfl⟩
  rintro _ _ ⟨bytes, rfl, hsize, hsha⟩
  refine Meets.bind check ?_
  rintro _ _ rfl
  refine Meets.bind look ?_
  rintro _ _ ⟨rfl, rfl⟩
  refine Meets.bind (regularIfAny fun mode hmap => (Option.some.inj hmap).symm) ?_
  rintro _ _ rfl
  refine Meets.bind (demand (isNone_iff_eq_none.mpr htarget)) ?_
  rintro _ _ rfl
  refine Meets.bind (change _) ?_
  rintro _ _ rfl
  refine Meets.bind sync ?_
  rintro _ _ rfl
  refine Meets.bind (R := fun _ s' => s'.target.isSome = true)
    ((verify Cache.target rfl rfl hsize).mono ?_ ?_ fun _ hfalse => hfalse) ?_
  · rintro _ _ ⟨rfl, -⟩
    rfl
  · rintro _ _ ⟨-, -, hwrong⟩
    exact absurd hsha hwrong
  · intro _ s' hs
    exact Meets.pure hs

/-- **An acquisition that nothing interrupts** publishes the artifact, or discards what was in its
way. -/
theorem run (hkeeps : g.KeepsOwner) (h : Serves g d server content) (hsound : Sound g d s)
    (hcache : s.cache = none ∨ s.cache = some 0o700#12) :
    Live server (run g d) s (fun _ s' => s'.target.isSome = true)
      fun _ s' => s.part.isSome = true ∧ s'.part = none ∧ s'.cache = some 0o700#12 := by
  have hfile := created_file hkeeps
  have hdirectory : s.directory = none ∨ s.directory = some 0o700#12 := by
    cases hmode : s.directory with
    | none => exact .inl rfl
    | some mode =>
      refine .inr (congrArg some ?_)
      rcases hsound.modes.directory mode hmode with heq | heq
      · exact heq
      · rw [heq, created_directory hkeeps]
        decide
  have hlease : ∀ mode, s.lease = some mode → mode = 0o600#12 :=
    fun mode hmode => (hsound.modes.lease mode hmode).trans hfile
  refine Meets.bind check ?_
  rintro _ _ rfl
  refine Meets.bind (createPrivate (fun _ _ => rfl) (fun _ _ _ => rfl)
    (fun hsame => by rw [← hsame]) hcache) ?_
  rintro _ _ rfl
  refine Meets.bind sync ?_
  rintro _ _ rfl
  refine Meets.bind (createPrivate (fun _ _ => rfl) (fun _ _ _ => rfl) (fun hsame => ?_)
    hdirectory) ?_
  · have hsame' : s.directory = some 0o700#12 := hsame
    rw [← hsame']
  rintro _ _ rfl
  refine Meets.bind sync ?_
  rintro _ _ rfl
  refine Meets.bind look ?_
  rintro _ _ ⟨rfl, rfl⟩
  refine Meets.bind (regularIfAny hlease) ?_
  rintro _ _ rfl
  refine Meets.bind openLease ?_
  rintro _ _ rfl
  -- the entry as it is behind the lease
  have hgot : s.lease.getD (g.created 0o600#12) = 0o600#12 := by
    cases hmode : s.lease with
    | none => exact hfile
    | some mode => exact hlease mode hmode
  have hready : Sound g d { s with
      cache := some 0o700#12, directory := some 0o700#12, lease := some 0o600#12 } := by
    refine { hsound with modes := { hsound.modes with cache := ?_, directory := ?_, lease := ?_ } }
    · exact fun _ heq => .inl (Option.some.inj heq).symm
    · exact fun _ heq => .inl (Option.some.inj heq).symm
    · exact fun _ heq => (Option.some.inj heq).symm.trans hfile.symm
  show Live server _ { s with
    cache := some 0o700#12, directory := some 0o700#12,
    lease := some (s.lease.getD (g.created 0o600#12)) } _ _
  rw [hgot]
  refine Meets.bind look ?_
  rintro _ _ ⟨rfl, rfl⟩
  refine Meets.bind (regularIfAny fun mode hmode => (Option.some.inj hmode).symm) ?_
  rintro _ _ rfl
  refine Meets.bind lock ?_
  rintro _ _ rfl
  refine Meets.bind check ?_
  rintro _ _ rfl
  refine Meets.bind look ?_
  rintro _ _ ⟨rfl, rfl⟩
  refine Meets.bind (demand (regularFiles_of_sound hkeeps hready)) ?_
  rintro _ _ rfl
  refine Meets.bind (bindDescriptor hkeeps hready) ?_
  rintro _ s' ⟨hfinished, hpart, htarget⟩
  refine Meets.bind look ?_
  rintro _ _ ⟨rfl, rfl⟩
  split
  next file hsome =>
    -- the artifact is there, so nothing is left to do but to verify it
    have hthere : s.target = some file := htarget.symm.trans hsome
    have habsent : s'.part = none := by
      rw [hpart]
      refine hsound.apart.resolve_right fun hnone => ?_
      rw [hthere] at hnone
      cases hnone
    refine Meets.bind (demand (isNone_iff_eq_none.mpr habsent)) ?_
    rintro _ _ rfl
    obtain ⟨hsize, hsha⟩ := hsound.verified file hthere
    refine Meets.bind (R := fun _ s'' => s' = s'') ((verify Cache.target hsome
      ((hsound.modes.target file hthere).trans hfile) hsize).mono
      (fun _ _ hs => hs.1) ?_ fun _ hfalse => hfalse) ?_
    · rintro _ _ ⟨-, -, hwrong⟩
      exact absurd hsha hwrong
    rintro _ _ rfl
    refine Meets.bind sync ?_
    rintro _ _ rfl
    refine Meets.pure ?_
    rw [hsome]
    rfl
  next hnone =>
    refine (fetch hkeeps h ?_ ?_ hnone).mono (fun _ _ hs => hs) ?_ fun _ hfalse => hfalse
    · intro file hsome
      exact (hsound.modes.part file (hpart.symm.trans hsome)).trans hfile
    · intro file hsome
      exact hsound.bounded file (hpart.symm.trans hsome)
    · rintro _ _ ⟨hsome, rfl⟩
      rw [hpart] at hsome
      exact ⟨hsome, rfl, hfinished⟩

end Live

/-- The acquisition returns, and the artifact is there. -/
def Returns (g : Setting) (d : Descriptor) (env : Env Answer) (s : Cache) : Prop :=
  ∃ offset file, (run g d).fate env s = .returned offset ∧
    ((run g d).store env s).target = some file ∧
    file.bytes.length = d.bytes ∧ g.sha file.bytes = d.sha256

/-- One acquisition: it returns, or the spoiled partial artifact is gone. -/
theorem returns_or_discards (hkeeps : g.KeepsOwner) (h : Serves g d server content)
    (hsound : Sound g d s) (hcache : s.cache = none ∨ s.cache = some 0o700#12) {env : Env Answer}
    (henv : ∀ t, Uninterrupted server (env t)) :
    Returns g d env s ∨ s.part.isSome = true ∧ ((run g d).store env s).part = none ∧
      ((run g d).store env s).cache = some 0o700#12 := by
  rcases (Live.run hkeeps h hsound hcache).cases henv with ⟨offset, hfate, htarget⟩ |
      ⟨_, -, hdiscarded⟩ | ⟨-, hfalse⟩
  · obtain ⟨file, hfile⟩ := isSome_iff_exists.mp htarget
    obtain ⟨hsize, hsha⟩ := (kept_of_run env hsound).sound.verified file hfile
    exact .inl ⟨offset, file, hfate, hfile, hsize, hsha⟩
  · exact .inr hdiscarded
  · exact hfalse.elim

/-- Without a set-group-id bit to inherit, the cache directory is never left unfinished. -/
theorem cache_finished (hkeeps : g.KeepsOwner) (h : Sound g d s)
    (hplain : inherited g.parent = 0#12) : s.cache = none ∨ s.cache = some 0o700#12 := by
  cases hmode : s.cache with
  | none => exact .inl rfl
  | some mode =>
    refine .inr (congrArg some ?_)
    rcases h.modes.cache mode hmode with heq | heq
    · exact heq
    · rw [heq, created_directory hkeeps, hplain]
      decide

/-- **The second acquisition returns.** From every entry that acquisitions leave behind, whose
cache directory is absent or finished, at the latest the second acquisition that nothing interrupts,
against a server that serves the trusted bytes, returns the verified artifact; and under a parent
without the set-group-id bit every entry is of this kind. -/
theorem second_acquisition_returns (g : Setting) (d : Descriptor) (server : Server)
    (content : List UInt8) (hkeeps : g.KeepsOwner) (h : Serves g d server content) (s : Cache)
    (envs : List (Env Answer)) (hrun : (acquiring g d).Run envs s) :
    (inherited g.parent = 0#12 → s.cache = none ∨ s.cache = some 0o700#12) ∧
    (s.cache = none ∨ s.cache = some 0o700#12 →
      ∀ first second : Env Answer, (∀ t, Uninterrupted server (first t)) →
        (∀ t, Uninterrupted server (second t)) →
        Returns g d first s ∨ Returns g d second ((run g d).store first s)) := by
  have hsound := sound_of_runs hrun
  refine ⟨cache_finished hkeeps hsound, fun hcache first second hfirst hsecond => ?_⟩
  rcases returns_or_discards hkeeps h hsound hcache hfirst with hreturns | ⟨-, hgone, hfinished⟩
  · exact .inl hreturns
  · -- nothing is left that could spoil the second one
    have hnext := (kept_of_run first hsound).sound
    rcases returns_or_discards hkeeps h hnext (.inr hfinished) hsecond with
      hreturns | ⟨hsome, -⟩
    · exact .inr hreturns
    · rw [hgone] at hsome
      cases hsome

/-- A server of the two trusted bytes. -/
def trustedServer : Server := ⟨(twoByteServer 7 8).respond, (twoByteServer 7 8).read⟩

theorem trustedServer_serves (hsha : g.sha [7, 8] = twoBytes.sha256) :
    Serves g twoBytes trustedServer [7, 8] where
  size := rfl
  hash := hsha
  body := by
    intro position hposition
    have hcases : position = 0 ∨ position = 1 := by
      have hless : position < 2 := hposition
      omega
    rcases hcases with rfl | rfl
    · exact ⟨7, [], rfl, [8], rfl⟩
    · exact ⟨8, [], rfl, [], rfl⟩
  ending := rfl
  answers := by
    intro offset hoffset
    refine ⟨not_mem_nil, .inl ⟨?_, ?_⟩⟩
    · by_cases hzero : offset = 0
      · refine .inl ?_
        simp [trustedServer, twoByteServer, hzero]
      · refine .inr ?_
        simp [trustedServer, twoByteServer, hzero, Nat.pos_of_ne_zero hzero]
    · by_cases hzero : offset = 0
      · simp [trustedServer, twoByteServer, hzero]
      · simp [trustedServer, twoByteServer, hzero]

/-- A hostile server sends a wrong byte and the process is killed. -/
def spoiledEnvs : List (Env Answer) :=
  [fun t => if t < 133 then some (twoByteServer 0 8) else none]

theorem second_acquisition_returns_spoiled :
    ∃ s, (acquiring plainSetting twoBytes).Run spoiledEnvs s ∧
      s.part = some ⟨0o600#12, [0]⟩ ∧
      (Returns plainSetting twoBytes (fun _ => some (twoByteServer 7 8)) s ∨
        Returns plainSetting twoBytes (fun _ => some (twoByteServer 7 8))
          ((run plainSetting twoBytes).store (fun _ => some (twoByteServer 7 8)) s)) := by
  obtain ⟨s, hrun, hpart⟩ :=
    LTS.exists_run_of_exec (A := acquiring plainSetting twoBytes) (fun h => h) rfl spoiledEnvs
      (fun s => s.part = some ⟨0o600#12, [0]⟩) (by decide +kernel)
  have hkeeps : plainSetting.KeepsOwner := by
    unfold Setting.KeepsOwner
    decide
  obtain ⟨hplain, hreturns⟩ := second_acquisition_returns plainSetting twoBytes trustedServer [7, 8]
    hkeeps (trustedServer_serves (by decide)) s spoiledEnvs hrun
  exact ⟨s, hrun, hpart, hreturns (hplain (by decide)) _ _
    (fun _ => ⟨rfl, rfl, rfl, rfl, rfl⟩) fun _ => ⟨rfl, rfl, rfl, rfl, rfl⟩⟩

/-- The same with a managed directory that hands its set-group-id bit on. -/
def inheritingSetting : Setting :=
  { plainSetting with parent := 0o2771#12, parent_closed := by decide }

/-- **An unfinished directory is refused for ever**: the process is killed behind the `mkdir`, and
both later acquisitions raise, though nothing interrupts them and the server serves the bytes. -/
theorem unfinished_directory_refused :
    inheritingSetting.KeepsOwner ∧ Serves inheritingSetting twoBytes trustedServer [7, 8] ∧
      ∃ s, (acquiring inheritingSetting twoBytes).Run
          [fun t => if t < 2 then some (twoByteServer 7 8) else none] s ∧
        s.cache = some 0o2700#12 ∧
        (run inheritingSetting twoBytes).fate (fun _ => some (twoByteServer 7 8)) s =
          .raised (.io "Artifact cache directory must be private and owned") ∧
        (run inheritingSetting twoBytes).fate (fun _ => some (twoByteServer 7 8))
            ((run inheritingSetting twoBytes).store (fun _ => some (twoByteServer 7 8)) s) =
          .raised (.io "Artifact cache directory must be private and owned") := by
  refine ⟨?_, trustedServer_serves (by decide), ?_⟩
  · unfold Setting.KeepsOwner
    decide
  · exact LTS.exists_run_of_exec (A := acquiring inheritingSetting twoBytes) (fun h => h) rfl _ _
      (by decide +kernel)

end FoldGPT.Artifact
