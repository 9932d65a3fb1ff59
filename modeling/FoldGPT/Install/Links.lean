import FoldGPT.Install.Text
import FoldGPT.Lib.Checks
import FoldGPT.Lib.Dict
import Mathlib.Logic.Function.Iterate

/-!
# Links in an archive

`read_archive_file` of `rootfs_sources.py` follows the links of an archive by the names of its
members, without the file system. What a link names is put in front of the components that are left.

Main result: `read_archive_file_resolves`.
-/

namespace FoldGPT.Install.Links

open FoldGPT.Lib FoldGPT.Lib.Encoding List

def dot : Text := ['.']
def dotDot : Text := ['.', '.']

/-- The parts of a path beside its root. -/
def names (path : Text) : List Text :=
  (path.splitOn '/').filter fun name => name != [] && name != dot

/-- `PurePosixPath(path).parts`; exactly two slashes are a root of their own. -/
def parts (path : Text) : List Text :=
  if path.head? ≠ some '/' then names path
  else if path.take 2 = ['/', '/'] ∧ path[2]? ≠ some '/' then ['/', '/'] :: names path
  else ['/'] :: names path

inductive Kind where
  | sym | lnk | file | other
  deriving DecidableEq

/-- A `TarInfo`, with what `extractfile` reads of it. -/
structure Member where
  name : Text
  kind : Kind
  linkname : Text := []
  data : List UInt8 := []

def Member.isLink (member : Member) : Bool := member.kind = .sym || member.kind = .lnk

/-- `member.name.removeprefix("./")`. -/
def Member.key (member : Member) : Text :=
  if ['.', '/'].isPrefixOf member.name then member.name.drop 2 else member.name

abbrev Members := Dict Text Member

/-- The body of the loop of `archive_members`. -/
def addMember (members : Members) (member : Member) : Except String Members :=
  if member.key = [] ∨ member.key = dot then .ok members
  else if member.key.head? = some '/' ∨ dotDot ∈ parts member.key ∨ member.key ∈ members.keys then
    .error "Ambiguous or unsafe input archive member"
  else .ok (members.set member.key member)

def archiveMembers (archive : List Member) : Except String Members := archive.foldlM addMember []

/-- The state of the loop of `read_archive_file`. -/
structure Walk where
  pending : List Text
  resolved : List Text := []
  links : Nat := 0

def join (resolved : List Text) : Text := ['/'].intercalate resolved

/-- One turn of the loop. -/
def Walk.turn (members : Members) (s : Walk) : Option (Except String Walk) :=
  match s.pending with
  | [] => none
  | component :: pending =>
    if component = [] ∨ component = dot then some (.ok { s with pending })
    else if component = dotDot then
      if s.resolved = [] then some (.error "Archive link escapes guest")
      else some (.ok { s with pending, resolved := s.resolved.dropLast })
    else
      match (members.get (join (s.resolved ++ [component]))).filter Member.isLink with
      | none => some (.ok { s with pending, resolved := s.resolved ++ [component] })
      | some member =>
        if s.links + 1 > 40 then some (.error "Archive link cycle")
        else some (.ok {
          pending := parts (member.linkname.dropWhile (· = '/')) ++ pending
          resolved :=
            if member.kind = .lnk ∨ member.linkname.head? = some '/' then [] else s.resolved
          links := s.links + 1 })

variable {members : Members} {s s' : Walk}

/-- What a turn does. -/
theorem Walk.turn_cases (h : s.turn members = some (.ok s')) :
    ∃ component pending, s.pending = component :: pending ∧
      (s' = { s with pending } ∨ s' = { s with pending, resolved := s.resolved.dropLast } ∨
        component ≠ [] ∧ component ≠ dot ∧ component ≠ dotDot ∧
          (members.get (join (s.resolved ++ [component]))).filter Member.isLink = none ∧
          s' = { s with pending, resolved := s.resolved ++ [component] } ∨
        s.links < 40 ∧ ∃ (target : Text) (resolved : _), resolved <+: s.resolved ∧
          s' = ⟨parts (target.dropWhile (· = '/')) ++ pending, resolved, s.links + 1⟩) := by
  unfold Walk.turn at h
  split at h
  · cases h
  next component pending hpending =>
    refine ⟨component, pending, hpending, ?_⟩
    split at h
    · cases h
      exact .inl rfl
    next hplain =>
      split at h
      · split at h
        · cases h
        · cases h
          exact .inr (.inl rfl)
      next hup =>
        split at h
        next hlink =>
          cases h
          rw [not_or] at hplain
          exact .inr (.inr (.inl ⟨hplain.1, hplain.2, hup, hlink, rfl⟩))
        next member hlink =>
          split at h
          · cases h
          next hlinks =>
            cases h
            refine .inr (.inr (.inr ⟨by omega, member.linkname, _, ?_, rfl⟩))
            split
            · exact nil_prefix
            · exact prefix_rfl

theorem Walk.turn_lt (h : s.turn members = some (.ok s')) :
    Prod.Lex (· < ·) (· < ·) (40 - s'.links, s'.pending.length) (40 - s.links, s.pending.length) := by
  obtain ⟨component, pending, hpending, rfl | rfl | ⟨-, -, -, -, rfl⟩ | ⟨hlinks, _, _, -, rfl⟩⟩ :=
    Walk.turn_cases h
  · exact .right _ (by simp [hpending])
  · exact .right _ (by simp [hpending])
  · exact .right _ (by simp [hpending])
  · exact .left _ _ (by show 40 - (s.links + 1) < _; omega)

/-- The loop. -/
def follow (members : Members) (s : Walk) : Except String Walk :=
  match _h : s.turn members with
  | none => .ok s
  | some (.error error) => .error error
  | some (.ok s') => follow members s'
termination_by (40 - s.links, s.pending.length)
decreasing_by exact Walk.turn_lt _h

def readArchiveFile (members : Members) (path : Text) : Except String (List UInt8 × Text) := do
  let s ← follow members ⟨parts path, [], 0⟩
  match members.get (join s.resolved) with
  | none => .error ("Missing regular archive file: " ++ String.ofList path)
  | some member =>
    if member.kind = .file then .ok (member.data, join s.resolved)
    else .error ("Missing regular archive file: " ++ String.ofList path)

/-- The state behind `n` turns, as long as the loop goes on. -/
def visited (members : Members) (path : Text) (n : Nat) : Option Walk :=
  (·.bind fun s => (s.turn members).bind Except.toOption)^[n] (some ⟨parts path, [], 0⟩)

/-! ### What is resolved -/

/-- A name of one component. -/
def Proper (name : Text) : Prop := name ≠ [] ∧ '/' ∉ name ∧ name ≠ dot ∧ name ≠ dotDot

/-- Neither what is resolved nor anything above it is a link. -/
def Unlinked (members : Members) (resolved : List Text) : Prop :=
  ∀ above, above <+: resolved → ∀ member, members.get (join above) = some member →
    member.isLink = false

structure Walk.Sound (members : Members) (s : Walk) : Prop where
  pending : ∀ name ∈ s.pending, '/' ∉ name
  resolved : ∀ name ∈ s.resolved, Proper name
  unlinked : Unlinked members s.resolved
  links : s.links ≤ 40

theorem slash_not_mem_parts {path : Text} (h : path.head? ≠ some '/') :
    ∀ name ∈ parts path, '/' ∉ name := by
  intro name hname
  rw [parts, if_pos h] at hname
  exact not_mem_of_mem_splitOn (mem_of_mem_filter hname)

theorem head_dropWhile_slash (target : Text) : (target.dropWhile (· = '/')).head? ≠ some '/' := by
  intro hhead
  have hnot := List.head?_dropWhile_not (· = '/') target
  rw [hhead] at hnot
  simp at hnot

theorem Walk.Sound.turn (h : s.Sound members) (hturn : s.turn members = some (.ok s')) :
    s'.Sound members := by
  obtain ⟨component, pending, hpending, hcases⟩ := Walk.turn_cases hturn
  have hslash := h.pending
  rw [hpending, forall_mem_cons] at hslash
  rcases hcases with rfl | rfl | ⟨hne, hdot, hdots, hlink, rfl⟩ | ⟨hlinks, target, resolved, hle, rfl⟩
  · exact { h with pending := hslash.2 }
  · have hle := dropLast_prefix s.resolved
    exact { h with
      pending := hslash.2
      resolved := fun name hname => h.resolved name (hle.mem hname)
      unlinked := fun above habove => h.unlinked above (habove.trans hle) }
  · refine { h with pending := hslash.2, resolved := ?_, unlinked := ?_ }
    · intro name hname
      rcases mem_append.mp hname with hname | hname
      · exact h.resolved name hname
      · rw [mem_singleton.mp hname]
        exact ⟨hne, hslash.1, hdot, hdots⟩
    · intro above habove member hmember
      rcases prefix_concat_iff.mp habove with rfl | habove
      · rw [hmember] at hlink
        simpa using hlink
      · exact h.unlinked above habove member hmember
  · refine ⟨?_, ?_, ?_, hlinks⟩
    · exact forall_mem_append.mpr
        ⟨slash_not_mem_parts (head_dropWhile_slash target), hslash.2⟩
    · exact fun name hname => h.resolved name (hle.mem hname)
    · exact fun above habove => h.unlinked above (habove.trans hle)

theorem Walk.Sound.follow (h : s.Sound members) :
    follow members s = .ok s' → s'.Sound members := by
  fun_induction Links.follow members s with
  | case1 s hturn =>
    intro hok
    cases hok
    exact h
  | case2 s error hturn =>
    intro hok
    cases hok
  | case3 s next hturn ih => exact ih (h.turn hturn)

theorem exists_end (members : Members) (s : Walk) :
    ∃ n, (·.bind fun s => (s.turn members).bind Except.toOption)^[n] (some s) = none := by
  induction s using follow.induct members with
  | case1 s hturn => exact ⟨1, by simp [hturn]⟩
  | case2 s error hturn => exact ⟨1, by simp [hturn, Except.toOption]⟩
  | case3 s next hturn ih =>
    obtain ⟨n, hn⟩ := ih
    refine ⟨n + 1, ?_⟩
    rw [Function.iterate_succ_apply]
    simpa [hturn, Except.toOption] using hn

theorem Walk.Sound.visited {path : Text} (h : Walk.Sound members ⟨parts path, [], 0⟩) {n : Nat}
    (hvisited : visited members path n = some s) : s.Sound members := by
  induction n generalizing s with
  | zero =>
    cases hvisited
    exact h
  | succ n ih =>
    rw [Links.visited, Function.iterate_succ_apply'] at hvisited
    obtain ⟨before, hbefore, hturn⟩ := Option.bind_eq_some_iff.mp hvisited
    obtain ⟨result, hresult, hok⟩ := Option.bind_eq_some_iff.mp hturn
    cases result with
    | error error => cases hok
    | ok next =>
      cases hok
      exact (ih hbefore).turn hresult

/-! ### Resolving again -/

theorem parts_join {resolved : List Text} (h : ∀ name ∈ resolved, Proper name)
    (hne : resolved ≠ []) : parts (join resolved) = resolved := by
  have hsplit : (join resolved).splitOn '/' = resolved :=
    splitOn_intercalate '/' (fun name hname => (h name hname).2.1) hne
  rw [parts, if_pos, names, hsplit, filter_eq_self]
  · intro name hname
    simp [(h name hname).1, (h name hname).2.2.1]
  · intro hhead
    obtain ⟨rest, hrest⟩ := List.head?_eq_some_iff.mp hhead
    rw [hrest, splitOn_cons_eq_if_modifyHead, if_pos (by decide)] at hsplit
    exact (h [] (hsplit ▸ mem_cons_self)).1 rfl

theorem follow_of_end (h : s.turn members = none) : follow members s = .ok s := by
  unfold follow
  split
  · rfl
  · cases h.symm.trans ‹_›
  · cases h.symm.trans ‹_›

theorem follow_of_turn (h : s.turn members = some (.ok s')) :
    follow members s = follow members s' := by
  conv_lhs => unfold follow
  split
  next hnone => cases h.symm.trans hnone
  next error herror => cases h.symm.trans herror
  next next hnext =>
    cases h.symm.trans hnext
    rfl

/-- A path without links is resolved to itself. -/
theorem follow_unlinked {rest done : List Text} (h : ∀ name ∈ rest, Proper name)
    (hunlinked : Unlinked members (done ++ rest)) :
    follow members ⟨rest, done, 0⟩ = .ok ⟨[], done ++ rest, 0⟩ := by
  induction rest generalizing done with
  | nil =>
    rw [append_nil]
    exact follow_of_end rfl
  | cons name rest ih =>
    rw [forall_mem_cons] at h
    have hlink : (members.get (join (done ++ [name]))).filter Member.isLink = none := by
      rw [Option.filter_eq_none_iff]
      intro member hmember
      rw [hunlinked (done ++ [name]) ⟨rest, by simp⟩ member hmember]
      decide
    have hturn : Walk.turn members ⟨name :: rest, done, 0⟩ =
        some (.ok ⟨rest, done ++ [name], 0⟩) := by
      simp [Walk.turn, h.1.1, h.1.2.2.1, h.1.2.2.2, hlink]
    rw [append_cons] at hunlinked ⊢
    rw [follow_of_turn hturn, ih h.2 hunlinked]

theorem get_nil_of_foldlM {archive : List Member} {start : Members} (hstart : start.get [] = none)
    (h : archive.foldlM addMember start = .ok members) : members.get [] = none := by
  induction archive generalizing start with
  | nil =>
    cases h
    exact hstart
  | cons member archive ih =>
    obtain ⟨next, hnext, h⟩ := bind_eq_ok.mp h
    refine ih ?_ h
    unfold addMember at hnext
    split at hnext
    · cases hnext
      exact hstart
    next hname =>
      split at hnext
      · cases hnext
      · cases hnext
        rw [not_or] at hname
        rwa [Dict.get_set_of_ne _ _ (Ne.symm hname.1)]

/-- **Reading a file of an archive** follows at most 40 links, among the names below the guest's root
only, and ends. The name it returns is that of a regular file, with no link on the way to it, and is
resolved to itself. -/
theorem read_archive_file_resolves {archive : List Member} {members : Members}
    (h : archiveMembers archive = .ok members) (path : Text) (hpath : path.head? ≠ some '/') :
    (∃ n, visited members path n = none) ∧
    (∀ n s, visited members path n = some s → s.links ≤ 40 ∧ ∀ name ∈ s.resolved, Proper name) ∧
    ∀ data name, readArchiveFile members path = .ok (data, name) →
      ∃ member, members.get name = some member ∧ member.kind = .file ∧ member.data = data ∧
        join (parts name) = name ∧ Unlinked members (parts name) ∧
        readArchiveFile members name = .ok (data, name) := by
  have hnil : members.get [] = none := get_nil_of_foldlM rfl h
  have hstart : Walk.Sound members ⟨parts path, [], 0⟩ := by
    refine ⟨slash_not_mem_parts hpath, nofun, fun above habove member hmember => ?_, Nat.zero_le _⟩
    rw [prefix_nil.mp habove] at hmember
    cases hnil.symm.trans hmember
  refine ⟨exists_end members _, fun n s hs => ?_, fun data name hread => ?_⟩
  · have hsound := hstart.visited hs
    exact ⟨hsound.links, hsound.resolved⟩
  · obtain ⟨s, hfollow, hread⟩ := bind_eq_ok.mp hread
    have hsound := hstart.follow hfollow
    split at hread
    · cases hread
    next member hmember =>
      split at hread
      next hfile =>
        cases hread
        have hne : s.resolved ≠ [] := by
          intro hempty
          rw [hempty] at hmember
          cases hnil.symm.trans hmember
        have hparts := parts_join hsound.resolved hne
        refine ⟨member, hmember, hfile, rfl, by rw [hparts], hparts.symm ▸ hsound.unlinked, ?_⟩
        rw [readArchiveFile, hparts, follow_unlinked hsound.resolved hsound.unlinked, ok_bind]
        simp only [nil_append, hmember, if_pos hfile]
      · cases hread

def linked : List Member := [⟨['.', '/', 'e'], .sym, ['u'], []⟩, ⟨['u'], .file, [], [7]⟩]

theorem read_archive_file_resolves_linked : ∃ members, archiveMembers linked = .ok members ∧
    readArchiveFile members ['e'] = .ok ([7], ['u']) ∧
    readArchiveFile members ['u'] = .ok ([7], ['u']) := by
  obtain ⟨members, hmembers, hread⟩ : ∃ members, archiveMembers linked = .ok members ∧
      readArchiveFile members ['e'] = .ok ([7], ['u']) := by
    refine ⟨_, rfl, ?_⟩
    rw [readArchiveFile, follow_of_turn rfl, follow_of_turn rfl, follow_of_end rfl]
    rfl
  obtain ⟨_, -, -, -, -, -, hagain⟩ :=
    (read_archive_file_resolves hmembers ['e'] (by decide)).2.2 _ _ hread
  exact ⟨members, hmembers, hread, hagain⟩

/-! ### The members -/

/-- The members that have a name, under it. -/
def entries (archive : List Member) : Members :=
  archive.filterMap fun member =>
    if member.key = [] ∨ member.key = dot then none else some (member.key, member)

theorem foldlM_addMember {archive : List Member} {start members : Members}
    (hstart : start.keys.Nodup) : archive.foldlM addMember start = .ok members ↔
      members = start ++ entries archive ∧ (start ++ entries archive).keys.Nodup ∧
        ∀ e ∈ entries archive, e.1.head? ≠ some '/' ∧ dotDot ∉ parts e.1 := by
  induction archive generalizing start with
  | nil => simpa [entries, hstart, pure, Except.pure] using eq_comm
  | cons member archive ih =>
    rw [foldlM_cons, addMember]
    split
    next hroot =>
      have hentries : entries (member :: archive) = entries archive :=
        filterMap_cons_none (if_pos hroot)
      rw [hentries]
      exact ih hstart
    next hnamed =>
      have hentries : entries (member :: archive) = (member.key, member) :: entries archive :=
        filterMap_cons_some (if_neg hnamed)
      rw [hentries, forall_mem_cons]
      split
      next hbad =>
        refine iff_of_false nofun ?_
        rintro ⟨-, hnodup, hname, -⟩
        rw [Dict.keys, map_append] at hnodup
        rcases hbad with habsolute | hdots | htaken
        · exact hname.1 habsolute
        · exact hname.2 hdots
        · exact (nodup_append.mp hnodup).2.2 _ htaken _ mem_cons_self rfl
      next hgood =>
        rw [not_or, not_or] at hgood
        rw [ok_bind, ih (Dict.nodup_keys_set hstart _ _), Dict.set_of_not_mem _ hgood.2.2,
          append_assoc, singleton_append]
        simp only [ne_eq, hgood.1, hgood.2.1, not_false_eq_true, and_self, true_and]

/-- **The members of an archive** are found under their names, in the order of the archive. It is
refused exactly when two have the same name, or one is absolute or has a `..` in it. -/
theorem archiveMembers_eq_ok (archive : List Member) (members : Members) :
    archiveMembers archive = .ok members ↔ members = entries archive ∧
      (entries archive).keys.Nodup ∧
      ∀ e ∈ entries archive, e.1.head? ≠ some '/' ∧ dotDot ∉ parts e.1 :=
  foldlM_addMember nodup_nil

end FoldGPT.Install.Links
