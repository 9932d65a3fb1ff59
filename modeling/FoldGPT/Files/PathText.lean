import FoldGPT.Files.Backend

/-!
# Relative paths as texts

The native helper is given relative paths as texts and takes them apart with `strchr`,
`strrchr` and `strncmp`. `joined` is the text of components that are any bytes, `pathText` that of
a path of the backend; the lemmas say what those operations do to it when the names are proper.
-/

namespace FoldGPT.Files

open FoldGPT.Lib FoldGPT.Lib.Encoding
open List hiding utf8Encode

abbrev Bytes := List UInt8

/-- A name in a directory. -/
def ProperName (name : Bytes) : Prop :=
  name ≠ [] ∧ 47 ∉ name ∧ 0 ∉ name ∧ name ≠ [46] ∧ name ≠ [46, 46]

instance (name : Bytes) : Decidable (ProperName name) := inferInstanceAs (Decidable (_ ∧ _))

/-- The text of components relative to the root. -/
def joined (parts : List Bytes) : Bytes := if parts = [] then [46] else [47].intercalate parts

/-- The text of a path, as the helper is given it. -/
abbrev pathText (parts : Path) : Bytes := utf8Encode (relative parts)

/-- `PATH_MAX`. -/
def pathMax : Nat := 4096

/-! ### Components of any bytes -/

section Joined

variable {p q : List Bytes}

theorem splitOn_joined (hne : p ≠ []) (h : ∀ part ∈ p, ProperName part) :
    (joined p).splitOn 47 = p := by
  rw [joined, if_neg hne]
  exact splitOn_intercalate 47 (fun part hpart => (h part hpart).2.1) hne

theorem eq_nil_of_joined (h : ∀ part ∈ p, ProperName part) (htext : joined p = [46]) : p = [] := by
  by_contra hne
  have hsplit := splitOn_joined hne h
  rw [htext, show ([46] : Bytes).splitOn 47 = [[46]] by decide +kernel] at hsplit
  subst hsplit
  exact (h [46] mem_cons_self).2.2.2.1 rfl

/-- **The text determines the components.** -/
theorem joined_injective (hp : ∀ part ∈ p, ProperName part) (hq : ∀ part ∈ q, ProperName part)
    (h : joined p = joined q) : p = q := by
  by_cases hpnil : p = []
  · subst hpnil
    exact (eq_nil_of_joined hq h.symm).symm
  · by_cases hqnil : q = []
    · subst hqnil
      exact eq_nil_of_joined hp h
    · rw [← splitOn_joined hpnil hp, h, splitOn_joined hqnil hq]

theorem joined_ne_nil (h : ∀ part ∈ p, ProperName part) : joined p ≠ [] := by
  intro hnil
  by_cases hne : p = []
  · subst hne
    cases hnil
  · have hsplit := splitOn_joined hne h
    rw [hnil, show ([] : Bytes).splitOn 47 = [[]] by decide +kernel] at hsplit
    subst hsplit
    exact (h [] mem_cons_self).1 rfl

theorem joined_append (hp : p ≠ []) (hq : q ≠ []) : joined (p ++ q) = joined p ++ 47 :: joined q := by
  rw [joined, joined, joined, if_neg hp, if_neg hq, if_neg (by simp [hp])]
  induction p with
  | nil => exact absurd rfl hp
  | cons name p ih =>
    cases p with
    | nil =>
      obtain ⟨next, q, rfl⟩ := exists_cons_of_ne_nil hq
      simp
    | cons next p =>
      rw [cons_append, cons_append, intercalate_cons_cons, intercalate_cons_cons]
      have hrest := ih (cons_ne_nil next p)
      rw [cons_append] at hrest
      rw [hrest]
      simp

end Joined

/-! ### Paths of the backend -/

theorem utf8Encode_dot : utf8Encode dot = [46] := by decide +kernel

theorem utf8Encode_dotDot : utf8Encode dotDot = [46, 46] := by decide +kernel

variable {parts : Path} {name : Name}

theorem properName_utf8Encode (h : Proper name) : ProperName (utf8Encode name) := by
  obtain ⟨hempty, hslash, hnul, hdot, hdots⟩ := h
  refine ⟨?_, ?_, ?_, ?_, ?_⟩
  · exact fun heq => hempty (utf8Encode_injective heq)
  · exact fun hmem => hslash ((mem_utf8Encode (a := '/') (by decide)).mp hmem)
  · exact fun hmem => hnul ((mem_utf8Encode (a := '\x00') (by decide)).mp hmem)
  · exact fun heq => hdot (utf8Encode_injective (heq.trans utf8Encode_dot.symm))
  · exact fun heq => hdots (utf8Encode_injective (heq.trans utf8Encode_dotDot.symm))

theorem ProperPath.encoded (h : ProperPath parts) :
    ∀ part ∈ parts.map utf8Encode, ProperName part := by
  intro part hpart
  obtain ⟨name, hname, rfl⟩ := mem_map.mp hpart
  exact properName_utf8Encode (h name hname)

theorem pathText_eq (parts : Path) : pathText parts = joined (parts.map utf8Encode) := by
  cases parts with
  | nil => exact utf8Encode_dot
  | cons name rest =>
    rw [joined, if_neg (by simp), pathText, relative, if_neg (by simp)]
    induction rest generalizing name with
    | nil => simp
    | cons next rest ih =>
      rw [intercalate_cons_cons, Encoding.utf8Encode_append, Encoding.utf8Encode_append, ih]
      exact intercalate_cons_cons.symm

theorem pathText_nil : pathText [] = [46] := utf8Encode_dot

theorem relative_injective {p q : Path} (hp : ProperPath p) (hq : ProperPath q)
    (h : pathText p = pathText q) : p = q := by
  rw [pathText_eq, pathText_eq] at h
  exact map_injective_iff.mpr (fun _ _ => utf8Encode_injective)
    (joined_injective hp.encoded hq.encoded h)

theorem pathText_singleton (name : Name) : pathText [name] = utf8Encode name := by
  rw [pathText, relative, if_neg (cons_ne_nil _ _), intercalate_singleton]

theorem pathText_append {p q : Path} (hp : p ≠ []) (hq : q ≠ []) :
    pathText (p ++ q) = pathText p ++ 47 :: pathText q := by
  rw [pathText_eq, pathText_eq, pathText_eq, map_append,
    joined_append (by simpa using hp) (by simpa using hq)]

/-! ### `valid_relative` -/

/-- `valid_relative`. -/
def validRelative (path : Bytes) : Bool :=
  path != [] && path.head? != some 47 && path.length < pathMax &&
    (path.splitOn 47).all fun part => part != [] && part != [46] && part != [46, 46]

theorem validRelative_relative (hne : parts ≠ []) (h : ProperPath parts)
    (hlen : (pathText parts).length < pathMax) : validRelative (pathText parts) := by
  obtain ⟨hnil, -, hhead⟩ := relative_fits h
  have hsplit : (pathText parts).splitOn 47 = parts.map utf8Encode := by
    rw [pathText_eq, splitOn_joined (by simpa using hne) h.encoded]
  have hparts : ∀ part ∈ parts.map utf8Encode,
      (part != [] && part != [46] && part != [46, 46]) = true := by
    intro part hpart
    obtain ⟨hempty, -, -, hdot, hdots⟩ := h.encoded part hpart
    simp [hempty, hdot, hdots]
  rw [validRelative, hsplit, all_eq_true.mpr hparts]
  simp [hnil, hhead, hlen]

/-! ### `within` -/

/-- `within`: the parent is the root, or a slash or the end comes behind it in the path. -/
def within (parent path : Bytes) : Bool :=
  parent = [46] || (parent.isPrefixOf path &&
    ((path.drop parent.length).head? = none || (path.drop parent.length).head? = some 47))

theorem splitOn_append_cons (a b : Bytes) :
    (a ++ 47 :: b).splitOn 47 = a.splitOn 47 ++ b.splitOn 47 := by
  induction a with
  | nil => simp [splitOn_cons_eq_if_modifyHead]
  | cons c a ih =>
    rw [cons_append, splitOn_cons_eq_if_modifyHead, ih,
      splitOn_cons_eq_if_modifyHead]
    split
    · rfl
    · cases hsplit : a.splitOn 47 with
      | nil => exact absurd hsplit (splitOn_ne_nil 47 a)
      | cons first rest => rfl

/-- **`within`** decides whether a path lies at or below another, with any bytes in the names. -/
theorem within_joined {p q : List Bytes} (hp : ∀ part ∈ p, ProperName part)
    (hq : ∀ part ∈ q, ProperName part) (hne : p ≠ []) :
    within (joined p) (joined q) = true ↔ p <+: q := by
  have hroot : joined p ≠ [46] := fun htext => hne (eq_nil_of_joined hp htext)
  simp only [within, hroot, decide_false, Bool.false_or, Bool.and_eq_true, Bool.or_eq_true,
    decide_eq_true_eq, isPrefixOf_iff_prefix]
  constructor
  · rintro ⟨⟨rest, hrest⟩, hnext⟩
    rw [← hrest, drop_left] at hnext
    cases rest with
    | nil =>
      rw [append_nil] at hrest
      exact joined_injective hp hq hrest ▸ prefix_rfl
    | cons c rest =>
      have hc : c = 47 := by simpa using hnext
      subst hc
      have hqne : q ≠ [] := by
        rintro rfl
        have hlength := congrArg List.length hrest
        have hpositive := length_pos_iff.mpr (joined_ne_nil hp)
        rw [show joined [] = [46] from rfl, length_append, length_cons, length_singleton] at hlength
        omega
      have hsplit := splitOn_joined hqne hq
      rw [← hrest, splitOn_append_cons, splitOn_joined hne hp] at hsplit
      exact ⟨_, hsplit⟩
  · rintro ⟨rest, rfl⟩
    by_cases hrest : rest = []
    · subst hrest
      simp
    · rw [joined_append hne hrest]
      simp

theorem within_iff {p q : Path} (hp : ProperPath p) (hq : ProperPath q) (hne : p ≠ []) :
    within (pathText p) (pathText q) = true ↔ p <+: q := by
  rw [pathText_eq, pathText_eq, within_joined hp.encoded hq.encoded (by simpa using hne)]
  exact prefix_map_iff_of_injective fun _ _ => utf8Encode_injective

/-! ### Targets -/

/-- `"%s%s", destination, path + strlen(source)`. -/
def targetText (source destination path : Bytes) : Bytes := destination ++ path.drop source.length

theorem targetText_eq {source destination : Path} (hsource : source ≠ [])
    (hdestination : destination ≠ []) (hle : source <+: parts) :
    targetText (pathText source) (pathText destination) (pathText parts) =
      pathText (copyTarget source destination parts) := by
  obtain ⟨rest, rfl⟩ := hle
  rw [copyTarget, drop_left, targetText]
  by_cases hrest : rest = []
  · subst hrest
    rw [append_nil, append_nil, drop_length, append_nil]
  · rw [pathText_append hsource hrest, pathText_append hdestination hrest, drop_left]

/-! ### Slashes -/

/-- The `depth` counter of the preflight. -/
def depthOf (path : Bytes) : Nat := 1 + path.count 47

/-- The texts before the slashes of a path, the longest first: the loop over `strrchr`. -/
def cuts : Bytes → Bytes → List Bytes
  | _, [] => []
  | before, c :: rest =>
    if c = 47 then cuts (before ++ [c]) rest ++ [before] else cuts (before ++ [c]) rest

def ancestors (path : Bytes) : List Bytes := cuts [] path

theorem cuts_append (before a b : Bytes) :
    cuts before (a ++ b) = cuts (before ++ a) b ++ cuts before a := by
  induction a generalizing before with
  | nil => simp [cuts]
  | cons c a ih =>
    rw [cons_append, cuts, cuts, ih]
    split
    · simp
    · simp

theorem cuts_of_not_mem {before a : Bytes} (h : 47 ∉ a) : cuts before a = [] := by
  induction a generalizing before with
  | nil => rfl
  | cons c a ih =>
    obtain ⟨hc, ha⟩ := not_or.mp fun hmem => h (mem_cons.mpr hmem)
    rw [cuts, if_neg (Ne.symm hc), ih ha]

theorem ancestors_singleton (h : Proper name) : ancestors (pathText [name]) = [] := by
  rw [pathText_singleton]
  exact cuts_of_not_mem (properName_utf8Encode h).2.1

/-- The nearest directory above, then those above that. -/
theorem ancestors_concat (hne : parts ≠ []) (h : Proper name) :
    ancestors (pathText (parts ++ [name])) = pathText parts :: ancestors (pathText parts) := by
  rw [pathText_append hne (cons_ne_nil _ _), ancestors, cuts_append, nil_append, cuts,
    if_pos rfl, pathText_singleton, cuts_of_not_mem (properName_utf8Encode h).2.1]
  rfl

/-- The directories strictly between the root and a path, the nearest first. -/
def aboves (parts : Path) : List Path :=
  (List.range' 1 (parts.length - 1)).reverse.map parts.take

theorem aboves_concat (hne : parts ≠ []) : aboves (parts ++ [name]) = parts :: aboves parts := by
  obtain ⟨n, hn⟩ : ∃ n, parts.length = n + 1 :=
    ⟨parts.length - 1, by have := length_pos_iff.mpr hne; omega⟩
  have hlength : (parts ++ [name]).length - 1 = n + 1 := by simp [hn]
  rw [aboves, aboves, hlength, hn, Nat.add_sub_cancel, range'_concat, reverse_concat,
    map_cons]
  congr 1
  · rw [Nat.one_mul, Nat.add_comm 1 n, ← hn, take_left]
  · refine map_congr_left fun k hk => ?_
    have hk := mem_range'_1.mp (mem_reverse.mp hk)
    rw [take_append_of_le_length (by omega)]

theorem mem_aboves {above : Path} :
    above ∈ aboves parts ↔ above ≠ [] ∧ above <+: parts ∧ above ≠ parts := by
  simp only [aboves, mem_map, mem_reverse, mem_range'_1]
  constructor
  · rintro ⟨n, hn, rfl⟩
    have hlength : (parts.take n).length = n := length_take_of_le (by omega)
    refine ⟨fun hnil => ?_, take_prefix n parts, fun heq => ?_⟩
    · rw [hnil, length_nil] at hlength
      omega
    · rw [heq] at hlength
      omega
  · rintro ⟨hne, hle, hother⟩
    have hpositive := length_pos_iff.mpr hne
    have hshort := Nat.lt_of_le_of_ne hle.length_le fun heq => hother (hle.eq_of_length heq)
    exact ⟨above.length, by omega, (prefix_iff_eq_take.mp hle).symm⟩

theorem nodup_aboves (parts : Path) : (aboves parts).Nodup := by
  refine List.Nodup.map_on ?_ (nodup_reverse.mpr nodup_range')
  intro m hm n hn heq
  have hm := mem_range'_1.mp (mem_reverse.mp hm)
  have hn := mem_range'_1.mp (mem_reverse.mp hn)
  have hlength := congrArg List.length heq
  rwa [length_take_of_le (by omega), length_take_of_le (by omega)] at hlength

/-- **The directories above a path**, by their texts. -/
theorem ancestors_pathText (h : ProperPath parts) :
    ancestors (pathText parts) = (aboves parts).map pathText := by
  induction parts using List.reverseRecOn with
  | nil => rw [pathText_nil]; rfl
  | append_singleton parts name ih =>
    have hname : Proper name := h name (by simp)
    by_cases hne : parts = []
    · subst hne
      rw [nil_append, ancestors_singleton hname]
      rfl
    · rw [ancestors_concat hne hname, aboves_concat hne, map_cons,
        ih fun n hn => h n (mem_append_left _ hn)]

/-- `parent_fd`: the nearest directory above, the root if there is no slash. -/
def parentText (path : Bytes) : Bytes := (ancestors path).headD [46]

theorem parentText_pathText (hne : parts ≠ []) (h : ProperPath parts) :
    parentText (pathText parts) = pathText parts.dropLast := by
  obtain ⟨above, name, rfl⟩ : ∃ above name, parts = above ++ [name] :=
    ⟨_, _, (dropLast_append_getLast hne).symm⟩
  rw [parentText, ancestors_pathText h, dropLast_concat]
  by_cases hnil : above = []
  · subst hnil
    exact pathText_nil.symm
  · rw [aboves_concat hnil]
    rfl

/-- What lies above a text: nothing, or its parent and what lies above that. -/
theorem ancestors_eq (path : Bytes) :
    ancestors path = [] ∨ ancestors path = parentText path :: ancestors (parentText path) ∧
      (parentText path).length < path.length := by
  by_cases hmem : (47 : UInt8) ∈ path
  · obtain ⟨after, before, hrev, hafter⟩ :=
      eq_append_cons_of_mem (mem_reverse.mpr hmem)
    have hpath : path = before.reverse ++ 47 :: after.reverse := by
      rw [← reverse_reverse path, hrev]
      simp
    have hcuts : ancestors path = before.reverse :: ancestors before.reverse := by
      rw [hpath, ancestors, cuts_append, nil_append, cuts, if_pos rfl,
        cuts_of_not_mem (fun h => hafter (mem_reverse.mp h))]
      rfl
    have hparent : parentText path = before.reverse := by
      rw [parentText, hcuts]
      rfl
    refine .inr ⟨hparent ▸ hcuts, ?_⟩
    rw [hparent, hpath, length_append, length_cons]
    omega
  · exact .inl (cuts_of_not_mem hmem)

theorem depthOf_pathText (hne : parts ≠ []) (h : ProperPath parts) :
    depthOf (pathText parts) = parts.length := by
  induction parts using List.reverseRecOn with
  | nil => exact absurd rfl hne
  | append_singleton parts name ih =>
    have hname : Proper name := h name (by simp)
    have hcount : (pathText [name]).count 47 = 0 := by
      rw [pathText_singleton]
      exact count_eq_zero.mpr ((properName_utf8Encode hname).2.1)
    by_cases hnil : parts = []
    · subst hnil
      rw [nil_append, depthOf, hcount]
      rfl
    · have hrest := ih hnil fun n hn => h n (mem_append_left _ hn)
      rw [depthOf] at hrest ⊢
      rw [pathText_append hnil (cons_ne_nil _ _), count_append, count_cons_self,
        hcount, length_append, ← hrest]
      simp
      omega

end FoldGPT.Files
