import FoldGPT.Files.GuestPath

/-!
# The URIs of native paths

`native_path_uri.py` writes an absolute path the way the engine's serializer does: it
keeps more characters unquoted than `GuestPath.uri`, and refuses every path that has
a second spelling. `uri_path` accepts a URI only if writing its path again gives the
same text.

Main result: `uris_round_trip`.
-/

namespace FoldGPT.Files

open FoldGPT.Lib FoldGPT.Lib.Encoding FoldGPT.Lib.Url

/-- `_PATH_SAFE`. -/
def pathSafeChars : List Char :=
  ['!', '$', '&', '\'', '(', ')', '*', '+', ',', ':', ';', '=', '@', '[', ']', '^', '|']

def isPathSafe (b : UInt8) : Bool := pathSafeChars.any fun c => b.toNat = c.toNat

theorem isPathSafe_spec {b : UInt8} (h : isPathSafe b = true) :
    b.toNat < 128 ∧ 32 ≤ b.toNat ∧ b.toNat ≠ 127 ∧ b.toNat ≠ 47 ∧ b.toNat ≠ 92 ∧ b.toNat ≠ 63 ∧
      b.toNat ≠ 35 := by
  obtain ⟨c, hc, hb⟩ := List.any_eq_true.mp h
  have key : pathSafeChars.all (fun c => decide (c.toNat < 128 ∧ 32 ≤ c.toNat ∧ c.toNat ≠ 127 ∧
      c.toNat ≠ 47 ∧ c.toNat ≠ 92 ∧ c.toNat ≠ 63 ∧ c.toNat ≠ 35)) = true := by decide
  rw [of_decide_eq_true hb]
  exact of_decide_eq_true (List.all_eq_true.mp key c hc)

def pathSafe : SafeSet where
  mem := isPathSafe
  ascii := fun _ h => (isPathSafe_spec h).1
  percent := by decide

theorem segmentSafe_pathSafe : SegmentSafe pathSafe where
  plain := fun _ h => ⟨(isPathSafe_spec h).2.1, (isPathSafe_spec h).2.2.1⟩
  special := fun _ h => (isPathSafe_spec h).2.2.2

/-- What the two functions raise: their own `ValueError`, that of `urlsplit`, or a
`UnicodeDecodeError`. -/
inductive UriError
  | value (message : String)
  | split
  | unicode
  deriving DecidableEq, Repr

/-- `path_uri`. -/
def pathUri (value : List Char) : Except UriError (List Char) := do
  require (value.head? = some '/' && !value.any isControl && (utf8Encode value).length < 4096)
    (.value "Native URI requires an absolute UTF-8 POSIX path")
  let parts := if value != ['/'] then (value.drop 1).splitOn '/' else []
  require (!(parts.any (fun part => part == [] || part == dot || part == dotDot) ||
      driveShaped parts))
    (.value "Native URI path has ambiguous components")
  pure (fileScheme ++ '/' :: ['/'].intercalate (parts.map (quoteWith pathSafe)))

/-- `uri_path`. -/
def uriPath (rules : NetlocRules) (value : List Char) : Except UriError (List Char) :=
  match urlsplit rules value with
  | none => .error .split
  | some uri => do
    require (uri.scheme = ['f', 'i', 'l', 'e'] && uri.netloc = [] && uri.query = [] &&
        uri.fragment = [])
      (.value "Native path must be a local absolute file URI")
    match unquote uri.path with
    | none => .error .unicode
    | some path => do
      let canonical ← pathUri path
      require (canonical = value) (.value "Native file URI is not canonical")
      pure path

/-- The URI that `path_uri` writes for a path. -/
def GuestPath.nativeUri (path : GuestPath) : List Char :=
  fileScheme ++ '/' :: ['/'].intercalate (path.parts.map (quoteWith pathSafe))

/-! ### What `path_uri` accepts -/

/-- The components of a plain spelling. -/
theorem pieces_path {path : GuestPath} (h : path.Clean) :
    (if path.path != ['/'] then (path.path.drop 1).splitOn '/' else []) = path.parts := by
  cases hparts : path.parts with
  | nil => simp [GuestPath.path, hparts]
  | cons name names =>
    have hne : path.path ≠ ['/'] := by
      have hname := (h.proper name (by rw [hparts]; exact List.mem_cons_self)).1
      obtain ⟨c, rest, rfl⟩ := List.exists_cons_of_ne_nil hname
      cases names with
      | nil => simp [GuestPath.path, hparts]
      | cons next names => simp [GuestPath.path, hparts, List.intercalate_cons_cons]
    rw [if_pos (bne_iff_ne.mpr hne)]
    show (['/'].intercalate path.parts).splitOn '/' = _
    rw [List.splitOn_intercalate, hparts]
    · exact fun name hname => (h.proper name hname).2.1
    · rw [hparts]
      exact List.cons_ne_nil _ _

theorem path_plain {path : GuestPath} (h : path.Clean) : path.path.any isControl = false := by
  have hread := fromAbsolute_path h "path"
  simp only [GuestPath.fromAbsolute, text, bind_eq_ok, require_eq_ok, exists_const,
    Bool.not_eq_true'] at hread
  exact hread.1

/-- **`path_uri` accepts the plain spellings of clean paths**, up to its length limit. -/
theorem pathUri_ok_iff {value uri : List Char} : pathUri value = .ok uri ↔
    ∃ path : GuestPath, path.Clean ∧ value = path.path ∧ (utf8Encode value).length < 4096 ∧
      uri = path.nativeUri := by
  constructor
  · intro h
    simp only [pathUri, bind_eq_ok, require_eq_ok, pure_eq_ok, exists_const, Bool.and_eq_true,
      Bool.not_eq_true', decide_eq_true_eq, Bool.or_eq_false_iff] at h
    obtain ⟨⟨⟨hslash, hplain⟩, hlength⟩, ⟨hdots, hdrive⟩, rfl⟩ := h
    obtain ⟨rest, rfl⟩ : ∃ rest, value = '/' :: rest := by
      cases value with
      | nil => cases hslash
      | cons c rest => exact ⟨rest, by rw [Option.some.inj hslash]⟩
    set parts := if ('/' :: rest) != ['/'] then (('/' :: rest).drop 1).splitOn '/' else []
      with hparts
    have hspell : ['/'].intercalate parts = rest := by
      rw [hparts]
      split
      · exact List.intercalate_splitOn '/'
      next hroot =>
        rw [bne_iff_ne, not_not, List.cons.injEq] at hroot
        rw [hroot.2]
        rfl
    have hname : ∀ name ∈ parts, Proper name ∧ name.any isControl = false := by
      intro name hmem
      have hdot := List.any_eq_false.mp hdots name hmem
      simp only [Bool.or_eq_true, beq_iff_eq, not_or] at hdot
      have hsplit : name ∈ rest.splitOn '/' := by
        rw [hparts] at hmem
        split at hmem
        · exact hmem
        · cases hmem
      have hctl : name.any isControl = false := by
        rw [List.any_eq_false] at hplain ⊢
        exact fun c hc => hplain c (List.mem_cons_of_mem _ (mem_of_mem_splitOn hsplit hc))
      exact ⟨⟨hdot.1.1, not_mem_of_mem_splitOn hsplit, not_mem_of_plain hctl, hdot.1.2, hdot.2⟩,
        hctl⟩
    refine ⟨⟨parts⟩, ⟨fun n hn => (hname n hn).1, fun n hn => (hname n hn).2, hdrive⟩, ?_,
      hlength, rfl⟩
    rw [GuestPath.path, hspell]
  · rintro ⟨path, hclean, rfl, hlength, rfl⟩
    have hdots : path.parts.any (fun part => part == [] || part == dot || part == dotDot) =
        false := by
      rw [List.any_eq_false]
      intro name hname
      obtain ⟨hne, -, -, hdot, hdotDot⟩ := hclean.proper name hname
      simp [hne, hdot, hdotDot]
    have hslash : path.path.head? = some '/' := rfl
    simp only [pathUri, pieces_path hclean, path_plain hclean, hdots, hclean.drive, hslash, hlength,
      require, decide_true, Bool.not_false, Bool.and_true, Bool.or_false, if_true, ok_bind]
    rfl

/-! ### Reading back -/

theorem uriPath_of_pathUri (rules : NetlocRules) {value uri : List Char}
    (h : pathUri value = .ok uri) : uriPath rules uri = .ok value := by
  obtain ⟨path, hclean, hvalue, hlength, huri⟩ := pathUri_ok_iff.mp h
  have hharmless := harmless_joined segmentSafe_pathSafe path.parts
  have hsplit := urlsplit_file rules hharmless
  have hunquote : unquote ('/' :: ['/'].intercalate (path.parts.map (quoteWith pathSafe))) =
      some value := by
    rw [unquote_ascii, unquoteToBytes_cons_of_ne (by decide), unquoteToBytes_joined,
      ← utf8Encode_cons, utf8Decode_utf8Encode, hvalue, GuestPath.path]
    intro c hc
    rcases List.mem_cons.mp hc with rfl | hc
    · decide
    · exact (hharmless c hc).ascii
  rw [uriPath, huri, GuestPath.nativeUri, hsplit]
  simp only [require, decide_true, Bool.and_self, if_true, ok_bind, hunquote, h, huri,
    GuestPath.nativeUri]
  rfl

theorem pathUri_of_uriPath {rules : NetlocRules} {value path : List Char}
    (h : uriPath rules value = .ok path) : pathUri path = .ok value := by
  unfold uriPath at h
  split at h
  · cases h
  · simp only [bind_eq_ok, require_eq_ok, exists_const] at h
    obtain ⟨-, h⟩ := h
    split at h
    · cases h
    · simp only [bind_eq_ok, require_eq_ok, exists_const, pure_eq_ok, decide_eq_true_eq] at h
      obtain ⟨canonical, hwritten, rfl, rfl⟩ := h
      exact hwritten

/-- **Both ways of writing a path are undone by the readers**: a guest path that was read is
read back from its URI and from its plain spelling; a native path is read back from
its URI by `uri_path` and by `GuestPath.from_uri`; and `uri_path` accepts exactly the
URIs that `path_uri` writes. -/
theorem uris_round_trip (rules : NetlocRules) :
    (∀ (g : GuestPath) (field : String),
      ((∃ value, GuestPath.fromUri rules value field = .ok g) ∨
        ∃ value, GuestPath.fromAbsolute value field = .ok g) →
      ∀ field', GuestPath.fromUri rules g.uri field' = .ok g ∧
        GuestPath.fromAbsolute g.path field' = .ok g) ∧
    (∀ p uri, pathUri p = .ok uri → uriPath rules uri = .ok p ∧
      ∀ field, ∃ g, GuestPath.fromUri rules uri field = .ok g ∧ g.path = p) ∧
    (∀ value, (∃ p, uriPath rules value = .ok p) ↔ ∃ p, pathUri p = .ok value) := by
  refine ⟨?_, ?_, ?_⟩
  · intro g field hread field'
    have hclean : g.Clean := by
      rcases hread with ⟨value, hread⟩ | ⟨value, hread⟩
      · exact fromUri_clean hread
      · exact fromAbsolute_clean hread
    exact ⟨fromUri_uri_clean rules hclean field', fromAbsolute_path hclean field'⟩
  · intro p uri h
    refine ⟨uriPath_of_pathUri rules h, fun field => ?_⟩
    obtain ⟨path, hclean, rfl, -, rfl⟩ := pathUri_ok_iff.mp h
    refine ⟨path, ?_, rfl⟩
    rw [GuestPath.nativeUri, fromUri_joined segmentSafe_pathSafe rules field hclean.proper
      hclean.drive, hclean.no_control]
    rfl
  · intro value
    constructor
    · rintro ⟨p, h⟩
      exact ⟨p, pathUri_of_uriPath h⟩
    · rintro ⟨p, h⟩
      exact ⟨p, uriPath_of_pathUri rules h⟩

/-- A path with a space and a plus sign, of which only the space is quoted. -/
theorem uris_round_trip_plus :
    pathUri "/a +".toList = .ok "file:///a%20+".toList ∧
      uriPath ⟨id, fun _ => false⟩ "file:///a%20+".toList = .ok "/a +".toList := by
  have h : pathUri "/a +".toList = .ok "file:///a%20+".toList := by decide +kernel
  exact ⟨h, ((uris_round_trip ⟨id, fun _ => false⟩).2.1 _ _ h).1⟩

end FoldGPT.Files
