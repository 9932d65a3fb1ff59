import FoldGPT.Lib.Checks
import FoldGPT.Lib.Encoding
import FoldGPT.Lib.Url

/-!
# Guest paths and their URIs

`GuestPath` of `managed_policy.py`: the decoded components of an absolute POSIX
path. `fromUri` reads one from a `file://` URI, `fromAbsolute` from a plain
absolute path, and `uri` writes one.

The backend keeps handing `path.uri` to `policy.decide_uri`, which parses it
again. Components come from the file system and from worker syscalls too, and
nothing keeps control characters out of those:
-/

namespace FoldGPT.Files

open FoldGPT.Lib FoldGPT.Lib.Encoding FoldGPT.Lib.Url List

/-- One component of a path. -/
abbrev Name := List Char

/-- The components of a path, below some root. -/
abbrev Path := List Name

structure PolicyError where
  field : String
  reason : String
  deriving DecidableEq, Repr

structure GuestPath where
  parts : Path
  deriving DecidableEq, Repr

/-- `ord(char) < 32 or ord(char) == 127`. -/
def isControl (c : Char) : Bool := c.toNat < 32 || c.toNat = 127

def controlError (field : String) : PolicyError := ⟨field, "control characters are unsupported"⟩

/-- The check of `_text`; a Lean text always encodes. -/
def text (value : List Char) (field : String) : Except PolicyError Unit :=
  require (!value.any isControl) (controlError field)

/-- `re.fullmatch(r"[A-Za-z][:|]", parts[0])`. -/
def driveShaped : Path → Bool
  | [a, b] :: _ => a.isAlpha && (b = ':' || b = '|')
  | _ => false

def dot : Name := ['.']
def dotDot : Name := ['.', '.']

/-- `"file://"`. -/
def fileScheme : List Char := ['f', 'i', 'l', 'e', ':', '/', '/']

namespace GuestPath

def validated (parts : Path) (field : String) : Except PolicyError GuestPath := do
  require (!driveShaped parts) ⟨field, "drive-shaped first component is unsupported"⟩
  pure ⟨parts⟩

/-- The body of the loop of `from_uri` over the nonempty components. -/
def component (field : String) (encoded : List Char) : Except PolicyError Name :=
  match utf8Decode (unquoteToBytes encoded) with
  | none => .error ⟨field, "non-UTF-8 path bytes are unsupported"⟩
  | some component => do
    text component field
    require (!component.contains '/')
      ⟨field, "percent-encoded separator has no safe lexical boundary"⟩
    require (component != dot && component != dotDot)
      ⟨field, "dot segments require upstream URL normalization and are unsupported"⟩
    pure component

def fromUri (rules : NetlocRules) (value : List Char) (field : String) :
    Except PolicyError GuestPath := do
  text value field
  require (fileScheme.isPrefixOf value) ⟨field, "expected an absolute file:// URI"⟩
  require (!value.any fun c => c = '\\' || c = '?' || c = '#')
    ⟨field, "raw backslash, query or fragment is unsupported"⟩
  require (!malformedPercent value) ⟨field, "malformed percent encoding"⟩
  match urlsplit rules value with
  | none => .error ⟨field, "invalid file URI"⟩
  | some parsed => do
    let netloc := parsed.netloc.map Char.toLower
    require (netloc = [] || netloc = "localhost".toList)
      ⟨field, "foreign authority, credentials or port is unsupported"⟩
    require (parsed.path.head? = some '/') ⟨field, "expected an absolute POSIX URI path"⟩
    let parts ← ((parsed.path.splitOn '/').filter (· != [])).mapM (component field)
    validated parts field

def fromAbsolute (value : List Char) (field : String) : Except PolicyError GuestPath := do
  text value field
  require (value.head? = some '/') ⟨field, "expected an absolute POSIX guest path"⟩
  let parts := (value.splitOn '/').filter (· != [])
  require (!parts.any fun part => part == dot || part == dotDot)
    ⟨field, "dot segments in native paths are unsupported"⟩
  validated parts field

/-- The property `path`. -/
def path (path : GuestPath) : List Char := '/' :: ['/'].intercalate path.parts

def uri (path : GuestPath) : List Char :=
  fileScheme ++ '/' :: ['/'].intercalate (path.parts.map quote)

def contains (path other : GuestPath) : Bool := other.parts.take path.parts.length = path.parts

def append (path : GuestPath) (parts : Path) : GuestPath := ⟨path.parts ++ parts⟩

end GuestPath

/-! ### Proper and clean components -/

/-- A name a directory can hold. -/
def Proper (name : Name) : Prop :=
  name ≠ [] ∧ '/' ∉ name ∧ '\x00' ∉ name ∧ name ≠ dot ∧ name ≠ dotDot

instance (name : Name) : Decidable (Proper name) := inferInstanceAs (Decidable (_ ∧ _))

/-- Proper components without control characters, the first one no drive. -/
structure GuestPath.Clean (path : GuestPath) : Prop where
  proper : ∀ name ∈ path.parts, Proper name
  plain : ∀ name ∈ path.parts, name.any isControl = false
  drive : driveShaped path.parts = false

theorem not_mem_of_plain {name : Name} (h : name.any isControl = false) : '\x00' ∉ name := by
  intro hmem
  have := any_eq_false.mp h _ hmem
  exact this rfl

variable {field : String} {path : GuestPath}

theorem validated_eq_ok {parts : Path} :
    GuestPath.validated parts field = .ok path ↔ driveShaped parts = false ∧ path = ⟨parts⟩ := by
  simp only [GuestPath.validated, bind_eq_ok, require_eq_ok, pure_eq_ok, exists_const,
    Bool.not_eq_true', @eq_comm _ path]

/-! ### Reading gives clean paths -/

theorem unquoteToBytes_ne_nil {encoded : List Char} (h : encoded ≠ []) :
    unquoteToBytes encoded ≠ [] := by
  match encoded with
  | [a] => simp [unquoteToBytes, String.utf8EncodeChar_ne_nil]
  | [a, b] => simp [unquoteToBytes, String.utf8EncodeChar_ne_nil]
  | a :: b :: c :: rest =>
    rw [unquoteToBytes]
    split
    · split <;> simp [String.utf8EncodeChar_ne_nil]
    · simp [String.utf8EncodeChar_ne_nil]

theorem component_clean {encoded name : List Char} (hne : encoded ≠ [])
    (h : GuestPath.component field encoded = .ok name) :
    Proper name ∧ name.any isControl = false := by
  unfold GuestPath.component at h
  split at h
  · cases h
  next decoded hdecoded =>
    simp only [text, bind_eq_ok, require_eq_ok, pure_eq_ok, Bool.not_eq_true', exists_const,
      Bool.and_eq_true, bne_iff_ne, contains_eq_mem, decide_eq_false_iff_not] at h
    obtain ⟨hplain, hslash, ⟨hdot, hdotDot⟩, rfl⟩ := h
    refine ⟨⟨?_, hslash, not_mem_of_plain hplain, hdot, hdotDot⟩, hplain⟩
    rintro rfl
    exact unquoteToBytes_ne_nil hne (utf8Encode_of_utf8Decode hdecoded).symm

theorem fromUri_clean {rules : NetlocRules} {value : List Char}
    (h : GuestPath.fromUri rules value field = .ok path) : path.Clean := by
  unfold GuestPath.fromUri at h
  simp only [bind_eq_ok] at h
  obtain ⟨-, -, -, -, -, -, -, -, h⟩ := h
  split at h
  · cases h
  · simp only [bind_eq_ok] at h
    obtain ⟨-, -, -, -, parts, hparts, h⟩ := h
    obtain ⟨hdrive, rfl⟩ := validated_eq_ok.mp h
    have hmem : ∀ name ∈ parts, Proper name ∧ name.any isControl = false := by
      intro name hname
      obtain ⟨encoded, henc, hcomp⟩ := mem_of_mapM_eq_ok hparts hname
      exact component_clean (by simpa using (mem_filter.mp henc).2) hcomp
    exact ⟨fun n hn => (hmem n hn).1, fun n hn => (hmem n hn).2, hdrive⟩

/-- **A path read from plain text is clean.** -/
theorem fromAbsolute_clean {value : List Char}
    (h : GuestPath.fromAbsolute value field = .ok path) : path.Clean := by
  simp only [GuestPath.fromAbsolute, text, bind_eq_ok, require_eq_ok, exists_const,
    Bool.not_eq_true'] at h
  obtain ⟨hplain, -, hdots, h⟩ := h
  obtain ⟨hdrive, rfl⟩ := validated_eq_ok.mp h
  have hpiece : ∀ name ∈ value.splitOn '/', ∀ c ∈ name, c ∈ value ∧ c ≠ '/' := by
    intro name hname c hc
    refine ⟨mem_of_mem_splitOn hname hc, ?_⟩
    rintro rfl
    exact not_mem_of_mem_splitOn hname hc
  have hname : ∀ name ∈ (value.splitOn '/').filter (· != []), Proper name ∧
      name.any isControl = false := by
    intro name hmem
    obtain ⟨hsplit, hne⟩ := mem_filter.mp hmem
    have hctl : name.any isControl = false := by
      rw [any_eq_false] at hplain ⊢
      exact fun c hc => hplain c (hpiece name hsplit c hc).1
    have hdot := any_eq_false.mp hdots name hmem
    simp only [Bool.or_eq_true, beq_iff_eq, not_or] at hdot
    exact ⟨⟨by simpa using hne, fun hc => (hpiece name hsplit _ hc).2 rfl,
      not_mem_of_plain hctl, hdot.1, hdot.2⟩, hctl⟩
  exact ⟨fun n hn => (hname n hn).1, fun n hn => (hname n hn).2, hdrive⟩

/-! ### A plain path is read back -/

theorem splitOn_slash_joined {pieces : Path} (h : ∀ piece ∈ pieces, piece ≠ [] ∧ '/' ∉ piece) :
    (('/' :: ['/'].intercalate pieces).splitOn '/').filter (· != []) = pieces := by
  have hfilter : pieces.filter (· != []) = pieces := by
    rw [filter_eq_self]
    intro piece hpiece
    simpa using (h piece hpiece).1
  cases pieces with
  | nil => simp [splitOn_cons_eq_if_modifyHead]
  | cons piece pieces =>
    rw [splitOn_cons_eq_if_modifyHead, if_pos (by decide), splitOn_intercalate]
    · simpa using hfilter
    · exact fun piece hpiece => (h piece hpiece).2
    · exact cons_ne_nil _ _

/-- **The plain spelling of a clean path is read back.** -/
theorem fromAbsolute_path (h : path.Clean) (field : String) :
    GuestPath.fromAbsolute path.path field = .ok path := by
  have hsplit := @splitOn_slash_joined path.parts fun name hname =>
    ⟨(h.proper name hname).1, (h.proper name hname).2.1⟩
  have hplain : path.path.any isControl = false := by
    rw [any_eq_false]
    intro c hc
    rcases mem_cons.mp hc with rfl | hc
    · decide
    · rcases mem_intercalate hc with hc | ⟨name, hname, hc⟩
      · rw [mem_singleton.mp hc]
        decide
      · exact any_eq_false.mp (h.plain name hname) c hc
  have hdots : path.parts.any (fun part => part == dot || part == dotDot) = false := by
    rw [any_eq_false]
    intro name hname
    simp [(h.proper name hname).2.2.2.1, (h.proper name hname).2.2.2.2]
  rw [← GuestPath.path] at hsplit
  simp only [GuestPath.fromAbsolute, text, hplain, hsplit, hdots, require, Bool.not_false, if_true,
    ok_bind, GuestPath.validated, h.drive]
  rfl

/-! ### A written URI is read back -/

/-- The characters a writer leaves unquoted mean nothing to `urlsplit` and to `from_uri`. -/
structure SegmentSafe (safe : SafeSet) : Prop where
  plain : ∀ b, safe.mem b = true → 32 ≤ b.toNat ∧ b.toNat ≠ 127
  special : ∀ b, safe.mem b = true → b.toNat ≠ 47 ∧ b.toNat ≠ 92 ∧ b.toNat ≠ 63 ∧ b.toNat ≠ 35

theorem segmentSafe_empty : SegmentSafe .empty := ⟨nofun, nofun⟩

variable {safe : SafeSet}

/-- What is known of a character of a written URI after its scheme. -/
structure Harmless (c : Char) : Prop where
  ascii : c.toNat < 128
  control : isControl c = false
  backslash : c ≠ '\\'
  query : c ≠ '?'
  fragment : c ≠ '#'
  unstripped : isUnsafe c = false

theorem harmless_of_toNat {c : Char} (hlow : 32 ≤ c.toNat) (hhigh : c.toNat < 127)
    (hquery : c.toNat ≠ 63) (hfragment : c.toNat ≠ 35) (hback : c.toNat ≠ 92) : Harmless c where
  ascii := by omega
  control := by simp [isControl]; omega
  backslash := fun h => hback (by rw [h]; rfl)
  query := fun h => hquery (by rw [h]; rfl)
  fragment := fun h => hfragment (by rw [h]; rfl)
  unstripped := by
    have hne : ∀ d : Char, d.toNat < 32 → c ≠ d := fun d hd h => by rw [h] at hlow; omega
    simp [isUnsafe, hne '\t' (by decide), hne '\r' (by decide), hne '\n' (by decide)]

theorem harmless_slash : Harmless '/' :=
  harmless_of_toNat (by decide) (by decide) (by decide) (by decide) (by decide)

theorem uriChar_harmless (hsafe : SegmentSafe safe) {c : Char} (h : safe.uriChar c) :
    Harmless c ∧ c ≠ '/' := by
  rcases (Bool.or_eq_true _ _).mp h with h | h
  · rw [of_decide_eq_true h]
    exact ⟨harmless_of_toNat (by decide) (by decide) (by decide) (by decide) (by decide),
      by decide⟩
  · obtain ⟨hlt, hkeep⟩ := Bool.and_eq_true_iff.mp h
    have hlt : c.toNat < 128 := of_decide_eq_true hlt
    have hbyte : (UInt8.ofNat c.toNat).toNat = c.toNat := by
      rw [UInt8.toNat_ofNat']
      omega
    have hspec : 32 ≤ c.toNat ∧ c.toNat ≠ 127 ∧ c.toNat ≠ 47 ∧ c.toNat ≠ 92 ∧ c.toNat ≠ 63 ∧
        c.toNat ≠ 35 := by
      rcases (Bool.or_eq_true _ _).mp hkeep with hu | hm
      · simp only [isUnreserved, hbyte, decide_eq_true_eq] at hu
        omega
      · have hplain := hsafe.plain _ hm
        have hspecial := hsafe.special _ hm
        omega
    obtain ⟨hlow, hdel, hslash, hback, hquery, hfragment⟩ := hspec
    exact ⟨harmless_of_toNat hlow (by omega) hquery hfragment hback,
      fun hc => hslash (by rw [hc]; rfl)⟩

theorem quote_slash (hsafe : SegmentSafe safe) (name : Name) : '/' ∉ quoteWith safe name :=
  fun h => (uriChar_harmless hsafe (quoteWith_uriChar h)).2 rfl

theorem harmless_joined (hsafe : SegmentSafe safe) (parts : Path) :
    ∀ c ∈ ['/'].intercalate (parts.map (quoteWith safe)), Harmless c := by
  intro c hc
  rcases mem_intercalate hc with h | ⟨name, hname, hc⟩
  · rw [mem_singleton.mp h]
    exact harmless_slash
  · obtain ⟨part, -, rfl⟩ := mem_map.mp hname
    exact (uriChar_harmless hsafe (quoteWith_uriChar hc)).1

theorem malformedPercent_joined (parts : Path) :
    malformedPercent (['/'].intercalate (parts.map (quoteWith safe))) = false := by
  induction parts with
  | nil => rfl
  | cons part parts ih =>
    cases parts with
    | nil => simpa [malformedPercent] using @malformedPercent_quoteWith safe part []
    | cons next parts =>
      simp only [map_cons, intercalate_cons_cons, append_assoc,
        singleton_append] at ih ⊢
      rw [malformedPercent_quoteWith, malformedPercent_cons_of_ne (by decide), ih]

theorem urlsplit_file (rules : NetlocRules) {rest : List Char} (h : ∀ c ∈ rest, Harmless c) :
    urlsplit rules (fileScheme ++ '/' :: rest) =
      some { scheme := ['f', 'i', 'l', 'e'], netloc := [], path := '/' :: rest, query := [],
             fragment := [] } := by
  have hsafe : rest.filter (fun c => !isUnsafe c) = rest := by
    rw [filter_eq_self]
    intro c hc
    rw [(h c hc).unstripped]
    rfl
  have hfragment : cut '#' ('/' :: rest) = none := by
    refine cut_of_not_mem fun hmem => ?_
    rcases mem_cons.mp hmem with hc | hc
    · exact absurd hc (by decide)
    · exact (h _ hc).fragment rfl
  have hquery : cut '?' ('/' :: rest) = none := by
    refine cut_of_not_mem fun hmem => ?_
    rcases mem_cons.mp hmem with hc | hc
    · exact absurd hc (by decide)
    · exact (h _ hc).query rfl
  have hclean : ((fileScheme ++ '/' :: rest).dropWhile isC0OrSpace).filter
      (fun c => !isUnsafe c) = fileScheme ++ '/' :: rest := by
    show fileScheme ++ '/' :: rest.filter (fun c => !isUnsafe c) = _
    rw [hsafe]
  have hscheme : splitScheme (fileScheme ++ '/' :: rest) =
      (['f', 'i', 'l', 'e'], '/' :: '/' :: '/' :: rest) := rfl
  have hnetloc : splitNetloc ('/' :: '/' :: '/' :: rest) = ([], '/' :: rest) := rfl
  have hok : netlocOk rules [] = true := by simp [netlocOk]
  simp only [urlsplit, hclean, hscheme, hnetloc, hfragment, hquery, Option.getD_none, hok, if_true]

theorem component_quote {name : Name} (h : Proper name) (field : String) :
    GuestPath.component field (quoteWith safe name) =
      if name.any isControl then .error (controlError field) else .ok name := by
  obtain ⟨-, hslash, -, hdot, hdotDot⟩ := h
  rw [GuestPath.component, unquoteToBytes_quoteWith, utf8Decode_utf8Encode]
  cases hctl : name.any isControl with
  | true => simp [text, require, hctl]
  | false => simp [text, require, hctl, hslash, hdot, hdotDot]

/-- **Re-reading a written URI** gives the path back, or refuses it for a control
character in a component. -/
theorem fromUri_joined (hsafe : SegmentSafe safe) (rules : NetlocRules) {parts : Path}
    (field : String) (hproper : ∀ name ∈ parts, Proper name) (hdrive : driveShaped parts = false) :
    GuestPath.fromUri rules
        (fileScheme ++ '/' :: ['/'].intercalate (parts.map (quoteWith safe))) field =
      if parts.any (·.any isControl) then .error (controlError field) else .ok ⟨parts⟩ := by
  have hharmless := harmless_joined hsafe parts
  have hsplit := urlsplit_file rules hharmless
  have hpercent : malformedPercent
      (fileScheme ++ '/' :: ['/'].intercalate (parts.map (quoteWith safe))) = false := by
    simp only [fileScheme, cons_append, nil_append]
    iterate 8 rw [malformedPercent_cons_of_ne (by decide)]
    exact malformedPercent_joined parts
  have hpieces : (('/' :: ['/'].intercalate (parts.map (quoteWith safe))).splitOn '/').filter
      (· != []) = parts.map (quoteWith safe) := by
    refine splitOn_slash_joined fun piece hpiece => ?_
    obtain ⟨name, hname, rfl⟩ := mem_map.mp hpiece
    exact ⟨quoteWith_ne_nil (hproper name hname).1, quote_slash hsafe name⟩
  generalize hrest : ['/'].intercalate (parts.map (quoteWith safe)) = rest at *
  have hall : ∀ c ∈ fileScheme ++ '/' :: rest, isControl c = false ∧ c ≠ '\\' ∧ c ≠ '?' ∧
      c ≠ '#' := by
    intro c hc
    rcases mem_append.mp hc with hc | hc
    · simp only [fileScheme, mem_cons, not_mem_nil, or_false] at hc
      rcases hc with rfl | rfl | rfl | rfl | rfl | rfl | rfl
      all_goals exact ⟨by decide, by decide, by decide, by decide⟩
    · have hspec : Harmless c := by
        rcases mem_cons.mp hc with rfl | hc
        · exact harmless_slash
        · exact hharmless c hc
      exact ⟨hspec.control, hspec.backslash, hspec.query, hspec.fragment⟩
  have htext : (fileScheme ++ '/' :: rest).any isControl = false := by
    rw [any_eq_false]
    intro c hc
    simp [(hall c hc).1]
  have hraw : (fileScheme ++ '/' :: rest).any (fun c => c = '\\' || c = '?' || c = '#') =
      false := by
    rw [any_eq_false]
    intro c hc
    simp [(hall c hc).2]
  have hstart : fileScheme.isPrefixOf (fileScheme ++ '/' :: rest) = true := rfl
  unfold GuestPath.fromUri
  simp only [text, require, htext, hraw, hstart, hpercent, hsplit, Bool.not_false, if_true,
    ok_bind, map_nil, decide_true, Bool.true_or, List.head?_cons, hpieces]
  cases hctl : parts.any (·.any isControl) with
  | true =>
    rw [mapM_eq_error_of_exists (e := controlError field)]
    · exact error_bind
    · intro piece hpiece
      obtain ⟨name, hname, rfl⟩ := mem_map.mp hpiece
      rw [component_quote (hproper name hname)]
      cases name.any isControl with
      | true => exact .inl rfl
      | false => exact .inr ⟨name, rfl⟩
    · obtain ⟨name, hname, hbad⟩ := any_eq_true.mp hctl
      refine ⟨quoteWith safe name, mem_map_of_mem hname, ?_⟩
      rw [component_quote (hproper name hname), if_pos hbad]
  | false =>
    have hok : (parts.map (quoteWith safe)).mapM (GuestPath.component field) = .ok parts := by
      have heach : ∀ name ∈ parts,
          (GuestPath.component field ∘ quoteWith safe) name = .ok name := by
        intro name hname
        rw [Function.comp_apply, component_quote (hproper name hname),
          if_neg (any_eq_false.mp hctl name hname)]
      rw [mapM_map, mapM_eq_ok_of_forall (g := id) heach, map_id]
    rw [hok, ok_bind, GuestPath.validated, hdrive]
    rfl

theorem fromUri_uri (rules : NetlocRules) (field : String)
    (hproper : ∀ name ∈ path.parts, Proper name) (hdrive : driveShaped path.parts = false) :
    GuestPath.fromUri rules path.uri field =
      if path.parts.any (·.any isControl) then .error (controlError field) else .ok path :=
  fromUri_joined segmentSafe_empty rules field hproper hdrive

theorem GuestPath.Clean.no_control (h : path.Clean) : path.parts.any (·.any isControl) = false := by
  rw [any_eq_false]
  intro name hname
  rw [h.plain name hname]
  nofun

/-- **The URI of a clean path is read back.** -/
theorem fromUri_uri_clean (rules : NetlocRules) (h : path.Clean)
    (field : String) : GuestPath.fromUri rules path.uri field = .ok path := by
  rw [fromUri_uri rules field h.proper h.drive, h.no_control]
  rfl

end FoldGPT.Files
