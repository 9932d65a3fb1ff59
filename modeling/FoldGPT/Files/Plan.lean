import Mathlib.Algebra.GroupWithZero.Nat
import Mathlib.Algebra.Ring.Int.Defs
import FoldGPT.Files.PathText
import FoldGPT.Lib.Search

/-!
# The plan the helper reads

`_snapshot` writes every node of the inspected tree as nine fields with a NUL behind each; the
native helper reads them back with `read_plan` and looks paths up with `find_node`.

Main result: `plan_decoded`.
-/

namespace FoldGPT.Files.Helper

open FoldGPT.Lib FoldGPT.Lib.Encoding
open List hiding utf8Encode

inductive Errno
  | enoent
  | enotdir
  | einval
  | e2big
  | enametoolong
  | emsgsize
  deriving DecidableEq

/-! ### Numbers -/

def isDigit (b : UInt8) : Bool := 48 ≤ b.toNat && b.toNat ≤ 57

/-- The value of a text of digits. -/
def number (text : Bytes) : Nat := text.foldl (fun n b => 10 * n + (b.toNat - 48)) 0

/-- `decimal`; `strtoull` fails beyond 64 bits. -/
def decimal (text : Bytes) : Option Nat :=
  if text = [] ∨ ¬ text.all isDigit ∨ 2 ^ 64 ≤ number text then none else some (number text)

/-- `signed_decimal`; `strtoll` fails outside 64 bits. -/
def signedDecimal (text : Bytes) : Option Int :=
  let negative := text.head? = some 45
  let digits := if negative then text.drop 1 else text
  let value : Int := if negative then -(number digits : Int) else number digits
  if digits = [] ∨ ¬ digits.all isDigit ∨ value < -2 ^ 63 ∨ 2 ^ 63 ≤ value then none
  else some value

/-! ### Records -/

/-- `struct node`. -/
structure Node where
  path : Bytes
  device : Nat
  inode : Nat
  mode : Nat
  size : Nat
  mtime : Int
  mns : Nat
  ctime : Int
  cns : Nat
  deriving DecidableEq, Repr

/-- `S_ISDIR`. -/
def isDirMode (mode : Nat) : Bool := mode &&& 0o170000 = 0o040000

/-- `S_ISREG`. -/
def isRegMode (mode : Nat) : Bool := mode &&& 0o170000 = 0o100000

/-- `field`: the text before the next NUL, and what lies behind it. -/
def field (data : Bytes) : Option (Bytes × Bytes) :=
  if 0 ∈ data then some (data.takeWhile (· ≠ 0), (data.dropWhile (· ≠ 0)).drop 1) else none

def fields : Nat → Bytes → Option (List Bytes × Bytes)
  | 0, data => some ([], data)
  | n + 1, data => do
    let (value, rest) ← field data
    let (values, rest) ← fields n rest
    pure (value :: values, rest)

/-- The checks of `read_plan` on the nine fields of a record and the record before it. -/
def node (previous : Option Node) : List Bytes → Option Node
  | [path, device, inode, mode, size, mtime, mns, ctime, cns] => do
    guard (validRelative path || path = [46])
    guard (previous.all fun before => before.path < path)
    let device ← decimal device
    let inode ← decimal inode
    let mode ← decimal mode
    let size ← decimal size
    let mtime ← signedDecimal mtime
    let mns ← decimal mns
    let ctime ← signedDecimal ctime
    let cns ← decimal cns
    guard (mode ≤ 0xFFFFFFFF && mns < 1000000000 && cns < 1000000000 &&
      (isDirMode mode || isRegMode mode))
    pure { path, device, inode, mode, size, mtime, mns, ctime, cns }
  | _ => none

/-- The loop of `read_plan`, with room for so many more records. -/
def readNodes : Nat → List Node → Bytes → Except Errno (List Node)
  | _, nodes, [] => .ok nodes
  | 0, _, _ :: _ => .error .e2big
  | room + 1, nodes, byte :: data =>
    match fields 9 (byte :: data) with
    | none => .error .einval
    | some (parts, rest) =>
      match node nodes.getLast? parts with
      | none => .error .einval
      | some item => readNodes room (nodes ++ [item]) rest

/-- `find_node`. -/
def findNode (nodes : List Node) (path : Bytes) : Option Node :=
  search Node.path nodes path 0 nodes.length

/-- `read_plan` on the length argument and the standard input. -/
def readPlan (lengthText input : Bytes) : Except Errno (List Node) :=
  match decimal lengthText with
  | none => .error .einval
  | some length =>
    if length = 0 ∨ MAX_DATA < length then .error .einval
    else if input.length ≠ length then .error .emsgsize
    else do
      let nodes ← readNodes (MAX_ENTRIES + 1) [] input
      require (findNode nodes [46]).isSome .einval
      pure nodes

/-! ### Numbers read back -/

theorem digit_of_mem_toDigits {n : Nat} {c : Char} (h : c ∈ Nat.toDigits 10 n) :
    48 ≤ c.toNat ∧ c.toNat ≤ 57 := by
  have hdigit := Nat.isDigit_of_mem_toDigits (by decide) (by decide) h
  simp only [Char.isDigit, Bool.and_eq_true, decide_eq_true_eq, ge_iff_le,
    UInt32.le_iff_toNat_le] at hdigit
  exact hdigit

/-- The bytes of a number in decimal. -/
theorem utf8Encode_toDigits (n : Nat) :
    utf8Encode (Nat.toDigits 10 n) =
      (Nat.toDigits 10 n).map fun c => UInt8.ofNat c.toNat :=
  utf8Encode_ascii fun c hc => by
    have := digit_of_mem_toDigits hc
    omega

theorem toNat_digit {c : Char} (h : 48 ≤ c.toNat ∧ c.toNat ≤ 57) :
    (UInt8.ofNat c.toNat).toNat = c.toNat := by
  rw [UInt8.toNat_ofNat', Nat.mod_eq_of_lt (by omega)]

theorem number_map {text : List Char} (h : ∀ c ∈ text, 48 ≤ c.toNat ∧ c.toNat ≤ 57) (start : Nat) :
    (text.map fun c => UInt8.ofNat c.toNat).foldl (fun n b => 10 * n + (b.toNat - 48)) start =
      Nat.ofDigitChars 10 text start := by
  induction text generalizing start with
  | nil => rfl
  | cons c text ih =>
    rw [map_cons, foldl_cons, toNat_digit (h c mem_cons_self),
      ih (fun c' hc' => h c' (mem_cons_of_mem c hc'))]
    rfl

theorem number_toDigits (n : Nat) : number (utf8Encode (Nat.toDigits 10 n)) = n := by
  rw [utf8Encode_toDigits, number, number_map fun c hc => digit_of_mem_toDigits hc]
  exact Nat.ofDigitChars_toDigits (by decide) (by decide)

theorem digits_toDigits (n : Nat) : utf8Encode (Nat.toDigits 10 n) ≠ [] ∧
    (utf8Encode (Nat.toDigits 10 n)).all isDigit ∧
    (utf8Encode (Nat.toDigits 10 n)).head? ≠ some 45 := by
  have hall : (utf8Encode (Nat.toDigits 10 n)).all isDigit := by
    rw [utf8Encode_toDigits, all_map, all_eq_true]
    intro c hc
    have hdigit := digit_of_mem_toDigits hc
    simp [isDigit, toNat_digit hdigit, hdigit]
  refine ⟨?_, hall, ?_⟩
  · rw [utf8Encode_toDigits]
    exact fun hnil => Nat.toDigits_ne_nil (map_eq_nil_iff.mp hnil)
  · intro hhead
    exact absurd (all_eq_true.mp hall 45 (List.mem_of_head? hhead)) (by decide)

theorem decimal_of_nonneg {n : Int} (h : 0 ≤ n) : Files.decimal n = Nat.toDigits 10 n.toNat := by
  rw [Files.decimal, if_neg (by omega)]
  congr 1
  omega

/-- **Unsigned numbers** below `2 ^ 64` are read back. -/
theorem decimal_digits {n : Nat} (h : n < 2 ^ 64) :
    decimal (utf8Encode (Files.decimal n)) = some n := by
  obtain ⟨hne, hall, -⟩ := digits_toDigits n
  rw [decimal_of_nonneg (by omega), Int.toNat_natCast, decimal, number_toDigits]
  exact if_neg (by simp [hne, hall]; omega)

/-- **Signed numbers** of 64 bits are read back. -/
theorem signedDecimal_decimal {n : Int} (hlow : -2 ^ 63 ≤ n) (hhigh : n < 2 ^ 63) :
    signedDecimal (utf8Encode (Files.decimal n)) = some n := by
  obtain ⟨hne, hall, hhead⟩ := digits_toDigits n.natAbs
  by_cases hneg : n < 0
  · have htext : utf8Encode (Files.decimal n) = 45 :: utf8Encode (Nat.toDigits 10 n.natAbs) := by
      rw [Files.decimal, if_pos hneg, Encoding.utf8Encode_cons, utf8EncodeChar_ascii (by decide)]
      rfl
    have habs : -(n.natAbs : Int) = n := by omega
    simp only [signedDecimal, htext, List.head?_cons, if_true, drop_one, tail_cons,
      number_toDigits, habs]
    exact if_neg (by simp [hne, hall]; omega)
  · have htext : utf8Encode (Files.decimal n) = utf8Encode (Nat.toDigits 10 n.natAbs) := by
      rw [Files.decimal, if_neg hneg]
    have habs : (n.natAbs : Int) = n := by omega
    simp only [signedDecimal, htext, hhead, if_false, number_toDigits, habs]
    exact if_neg (by simp [hne, hall]; omega)

/-! ### Records read back -/

/-- What a kernel can report of an object: twelve permission bits, a size and two times of
64 bits. -/
structure Stat (info : Info) : Prop where
  mode : info.mode < 0o10000
  size : info.size < 2 ^ 63
  mtime : -2 ^ 63 ≤ info.mtimeNs / 1000000000 ∧ info.mtimeNs / 1000000000 < 2 ^ 63
  ctime : -2 ^ 63 ≤ info.ctimeNs / 1000000000 ∧ info.ctimeNs / 1000000000 < 2 ^ 63

/-- The record of a node. -/
def record (e : Path × Info) : Node where
  path := pathText e.1
  device := e.2.dev.toNat
  inode := e.2.ino.toNat
  mode := e.2.stMode
  size := e.2.size
  mtime := e.2.mtimeNs / 1000000000
  mns := (e.2.mtimeNs % 1000000000).toNat
  ctime := e.2.ctimeNs / 1000000000
  cns := (e.2.ctimeNs % 1000000000).toNat

theorem add_and_type {mode : Nat} (type : Nat) (h : mode < 2 ^ 12) :
    (mode + type * 2 ^ 12) &&& 0o170000 = (type &&& 15) * 2 ^ 12 := by
  have hdiv := Nat.and_div_two_pow (a := mode + type * 2 ^ 12) (b := 0o170000) (n := 12)
  have hmod := Nat.and_mod_two_pow (a := mode + type * 2 ^ 12) (b := 0o170000) (n := 12)
  rw [show (mode + type * 2 ^ 12) / 2 ^ 12 = type by omega,
    show (0o170000 : Nat) / 2 ^ 12 = 15 from rfl] at hdiv
  rw [show (0o170000 : Nat) % 2 ^ 12 = 0 from rfl, Nat.and_zero] at hmod
  omega

/-- Masking the special bits of a mode leaves those of the permissions. -/
theorem add_and_special {mode : Nat} (type : Nat) (h : mode < 2 ^ 12) :
    (mode + type * 2 ^ 12) &&& 0o7000 = mode &&& 0o7000 := by
  have hdiv := Nat.and_div_two_pow (a := mode + type * 2 ^ 12) (b := 0o7000) (n := 12)
  have hmod := Nat.and_mod_two_pow (a := mode + type * 2 ^ 12) (b := 0o7000) (n := 12)
  rw [show (0o7000 : Nat) / 2 ^ 12 = 0 from rfl, Nat.and_zero] at hdiv
  rw [show (mode + type * 2 ^ 12) % 2 ^ 12 = mode by omega,
    show (0o7000 : Nat) % 2 ^ 12 = 0o7000 from rfl] at hmod
  omega

theorem stMode_and_type {info : Info} (h : info.mode < 0o10000) :
    info.stMode &&& 0o170000 = match info.kind with
      | .regular => 0o100000
      | .directory => 0o040000
      | .other => 0 := by
  rw [Info.stMode]
  cases info.kind with
  | regular => exact add_and_type 8 h
  | directory => exact add_and_type 4 h
  | other => exact add_and_type 0 h

theorem stMode_and_special {info : Info} (h : info.mode < 0o10000) :
    info.stMode &&& 0o7000 = info.mode &&& 0o7000 := by
  rw [Info.stMode]
  cases info.kind with
  | regular => exact add_and_special 8 h
  | directory => exact add_and_special 4 h
  | other => exact add_and_special 0 h

theorem isDirMode_stMode {info : Info} (h : info.mode < 0o10000) :
    isDirMode info.stMode = info.isDir ∧ isRegMode info.stMode = info.isReg := by
  rw [isDirMode, isRegMode, stMode_and_type h, Info.isDir, Info.isReg]
  cases info.kind <;> decide

/-- The nine texts of a record. -/
def texts (e : Path × Info) : List Bytes :=
  [relative e.1, Files.decimal e.2.dev.toNat, Files.decimal e.2.ino.toNat,
    Files.decimal e.2.stMode, Files.decimal e.2.size,
    Files.decimal (e.2.mtimeNs / 1000000000), Files.decimal (e.2.mtimeNs % 1000000000),
    Files.decimal (e.2.ctimeNs / 1000000000), Files.decimal (e.2.ctimeNs % 1000000000)].map utf8Encode

theorem snapshotRow_eq (e : Path × Info) : snapshotRow e = (texts e).flatMap (· ++ [0]) := rfl

theorem nul_not_mem_decimal (n : Int) : (0 : UInt8) ∉ utf8Encode (Files.decimal n) := by
  have hdigits : '\x00' ∉ Nat.toDigits 10 n.natAbs := fun hmem => by
    have := (digit_of_mem_toDigits hmem).1
    revert this
    decide
  intro hmem
  have htext := (mem_utf8Encode (a := '\x00') (by decide)).mp hmem
  rw [Files.decimal] at htext
  split at htext
  · rcases mem_cons.mp htext with htext | htext
    · revert htext
      decide
    · exact hdigits htext
  · exact hdigits htext

variable {e : Path × Info}

theorem nul_not_mem_texts (h : ProperPath e.1) : ∀ text ∈ texts e, (0 : UInt8) ∉ text := by
  intro text htext
  simp only [texts, map_cons, map_nil, mem_cons, not_mem_nil, or_false] at htext
  rcases htext with rfl | rfl | rfl | rfl | rfl | rfl | rfl | rfl | rfl
  · exact (relative_fits h).2.1
  all_goals exact nul_not_mem_decimal _

theorem field_append {text : Bytes} (h : 0 ∉ text) (rest : Bytes) :
    field (text ++ [0] ++ rest) = some (text, rest) := by
  have hall : ∀ b ∈ text, decide (b ≠ 0) = true := fun b hb =>
    decide_eq_true fun hzero => h (hzero ▸ hb)
  rw [field, if_pos (by simp), append_assoc, takeWhile_append_of_pos hall,
    dropWhile_append_of_pos hall]
  simp

theorem fields_append {parts : List Bytes} (h : ∀ text ∈ parts, (0 : UInt8) ∉ text) (rest : Bytes) :
    fields parts.length (parts.flatMap (· ++ [0]) ++ rest) = some (parts, rest) := by
  induction parts with
  | nil => rfl
  | cons text parts ih =>
    rw [flatMap_cons, append_assoc, length_cons, fields,
      field_append (h text mem_cons_self)]
    have hrest := ih fun t ht => h t (mem_cons_of_mem text ht)
    simp [hrest]

/-- **One record** is read back when it comes behind the ones before it. -/
theorem node_texts {previous : Option Node} (hproper : ProperPath e.1)
    (hlen : (pathText e.1).length < pathMax) (hstat : Stat e.2) (hkind : e.2.isReg ∨ e.2.isDir)
    (hprevious : ∀ before ∈ previous, before.path < pathText e.1) :
    node previous (texts e) = some (record e) := by
  have hpath : (validRelative (pathText e.1) ||
      pathText e.1 = [46]) = true := by
    by_cases hnil : e.1 = []
    · simp [hnil, pathText_nil]
    · simp [validRelative_relative hnil hproper hlen]
  have hprevious' : (previous.all fun before => before.path < pathText e.1) = true := by
    cases previous with
    | none => rfl
    | some before => simpa using hprevious before rfl
  have hmode : e.2.stMode < 2 ^ 17 := by
    have := hstat.mode
    rw [Info.stMode]
    split <;> omega
  have hdevice : decimal (utf8Encode (Files.decimal (e.2.dev.toNat : Int))) = some e.2.dev.toNat :=
    decimal_digits e.2.dev.toNat_lt
  have hinode : decimal (utf8Encode (Files.decimal (e.2.ino.toNat : Int))) = some e.2.ino.toNat :=
    decimal_digits e.2.ino.toNat_lt
  have hmode' := decimal_digits (n := e.2.stMode) (by omega)
  have hsize := decimal_digits (n := e.2.size) (by have := hstat.size; omega)
  have hnanos : ∀ t : Int, decimal (utf8Encode (Files.decimal (t % 1000000000))) =
      some (t % 1000000000).toNat := by
    intro t
    have hcast : ((t % 1000000000).toNat : Int) = t % 1000000000 := by omega
    have := decimal_digits (n := (t % 1000000000).toNat) (by omega)
    rwa [hcast] at this
  have hmtime := signedDecimal_decimal hstat.mtime.1 hstat.mtime.2
  have hctime := signedDecimal_decimal hstat.ctime.1 hstat.ctime.2
  obtain ⟨hdir, hreg⟩ := isDirMode_stMode hstat.mode
  have hchecks : (decide (e.2.stMode ≤ 0xFFFFFFFF) &&
      decide ((e.2.mtimeNs % 1000000000).toNat < 1000000000) &&
      decide ((e.2.ctimeNs % 1000000000).toNat < 1000000000) &&
      (isDirMode e.2.stMode || isRegMode e.2.stMode)) = true := by
    rw [hdir, hreg, Bool.or_comm]
    simp only [Bool.and_eq_true, decide_eq_true_eq, Bool.or_eq_true]
    exact ⟨⟨⟨by omega, by omega⟩, by omega⟩, hkind⟩
  simp only [texts, map_cons, map_nil, node, hpath, hprevious', hdevice, hinode, hmode',
    hsize, hmtime, hctime, hnanos, guard_true, pure_bind, Option.bind_eq_bind, Option.bind_some,
    hchecks]
  rfl

/-! ### Plans read back -/

/-- What makes the record of a node readable. -/
structure Readable (e : Path × Info) : Prop where
  proper : ProperPath e.1
  short : (pathText e.1).length < pathMax
  stat : Stat e.2
  kind : e.2.isReg ∨ e.2.isDir

/-- The loop reads one record and goes on behind it. -/
theorem readNodes_cons {room : Nat} {before : List Node}
    {rows : List (Path × Info)} (hproper : ProperPath e.1) :
    readNodes room before ((e :: rows).flatMap snapshotRow) =
      match room with
      | 0 => .error .e2big
      | room + 1 =>
        match node before.getLast? (texts e) with
        | none => .error .einval
        | some item => readNodes room (before ++ [item]) (rows.flatMap snapshotRow) := by
  have hrow : ∃ byte data, (e :: rows).flatMap snapshotRow = byte :: data := by
    apply exists_cons_of_ne_nil
    simp [snapshotRow_eq, texts]
  obtain ⟨byte, data, hdata⟩ := hrow
  have hfields : fields 9 (byte :: data) = some (texts e, rows.flatMap snapshotRow) := by
    rw [← hdata, flatMap_cons, snapshotRow_eq]
    exact fields_append (nul_not_mem_texts hproper) _
  rw [hdata]
  cases room with
  | zero => rfl
  | succ room =>
    rw [readNodes, hfields]

/-- **A run of records** in the order of `strcmp` is read back behind the ones before it. -/
theorem readNodes_rows {room : Nat} {before : List Node} {rows : List (Path × Info)}
    (hroom : rows.length ≤ room) (hreadable : ∀ e ∈ rows, Readable e)
    (hsorted : Increasing Node.path (before ++ rows.map record)) :
    readNodes room before (rows.flatMap snapshotRow) = .ok (before ++ rows.map record) := by
  induction rows generalizing room before with
  | nil =>
    rw [flatMap_nil, readNodes, map_nil, append_nil]
  | cons e rows ih =>
    obtain ⟨room, rfl⟩ : ∃ n, room = n + 1 := ⟨room - 1, by rw [length_cons] at hroom; omega⟩
    have hread := hreadable e mem_cons_self
    have hprevious : ∀ last ∈ before.getLast?, last.path < pathText e.1 := by
      intro last hlast
      exact (pairwise_append.mp hsorted).2.2 last (List.mem_of_getLast? hlast) (record e)
        mem_cons_self
    have hshift : before ++ (e :: rows).map record = before ++ [record e] ++ rows.map record := by
      simp
    rw [readNodes_cons hread.proper]
    simp only [node_texts hread.proper hread.short hread.stat hread.kind hprevious]
    rw [hshift] at hsorted ⊢
    exact ih (by rw [length_cons] at hroom; omega)
      (fun e' he' => hreadable e' (mem_cons_of_mem e he')) hsorted

theorem short_of_node {previous : Option Node} {item : Node}
    (h : node previous (texts e) = some item) : (pathText e.1).length < pathMax := by
  have hpath : (validRelative (pathText e.1) || pathText e.1 = [46]) = true := by
    obtain ⟨_, hguard, -⟩ := Option.bind_eq_some_iff.mp h
    exact (Option.guard_eq_some' _).mp hguard
  rcases Bool.or_eq_true _ _ ▸ hpath with hvalid | hroot
  · simp only [validRelative, Bool.and_eq_true, decide_eq_true_eq] at hvalid
    exact hvalid.1.2
  · rw [decide_eq_true_eq.mp hroot]
    decide

theorem short_of_readNodes {room : Nat} {before plan : List Node} {rows : List (Path × Info)}
    (hproper : ∀ e ∈ rows, ProperPath e.1)
    (h : readNodes room before (rows.flatMap snapshotRow) = .ok plan) :
    ∀ e ∈ rows, (pathText e.1).length < pathMax := by
  induction rows generalizing room before with
  | nil => exact nofun
  | cons e rows ih =>
    rw [readNodes_cons (hproper e mem_cons_self)] at h
    cases room with
    | zero => cases h
    | succ room =>
      simp only at h
      split at h
      next => cases h
      next item hitem =>
        intro e' he'
        rcases mem_cons.mp he' with rfl | he'
        · exact short_of_node hitem
        · exact ih (fun e he => hproper e (mem_cons_of_mem _ he)) h e' he'

/-- The nodes in the order `_snapshot` writes them. -/
def ordered (nodes : Dict Path Info) : List (Path × Info) :=
  nodes.insertionSort fun a b => pathText a.1 ≤ pathText b.1

theorem lt_of_le_of_ne {a b : Bytes} (hle : a ≤ b) (hne : a ≠ b) : a < b := by
  by_contra hlt
  exact hne (List.le_antisymm hle (List.not_lt.mp hlt))

/-- Sorting the texts of distinct paths puts them in strict order. -/
theorem increasing_ordered {nodes : Dict Path Info} (hnodup : nodes.keys.Nodup)
    (hproper : ∀ e ∈ nodes, ProperPath e.1) :
    Increasing Node.path ((ordered nodes).map record) := by
  let order : Path × Info → Path × Info → Prop :=
    fun a b => pathText a.1 ≤ pathText b.1
  have hperm : (ordered nodes).Perm nodes := perm_insertionSort _ _
  have hle : (ordered nodes).Pairwise order := pairwise_insertionSort order nodes
  have hne : (ordered nodes).Pairwise fun a b => a.1 ≠ b.1 := by
    have hkeys : (Dict.keys (ordered nodes)).Nodup := (hperm.map Prod.fst).nodup_iff.mpr hnodup
    exact pairwise_map.mp hkeys
  refine pairwise_map.mpr ((hle.and hne).imp_of_mem ?_)
  intro a b ha hb hab
  refine lt_of_le_of_ne hab.1 fun heq => hab.2 ?_
  exact relative_injective (hproper a (hperm.mem_iff.mp ha)) (hproper b (hperm.mem_iff.mp hb)) heq

variable {b : Backend} {w : Workspace} {found : Found}

theorem readable_of_inspected (hadmitted : Admitted b w)
    (hins : Inspected b w found) (he : e ∈ found.nodes) (hstat : Stat e.2)
    (hshort : (pathText e.1).length < pathMax) : Readable e where
  proper := by
    rcases mem_cons.mp (hins.nodes.mem_iff.mp he) with rfl | hentry
    · exact nofun
    · exact (w.proper e hentry).2
  short := hshort
  stat := hstat
  kind := by
    rcases mem_cons.mp (hins.nodes.mem_iff.mp he) with rfl | hentry
    · exact .inr w.root_dir
    · exact (hadmitted.ordinary e hentry).kind

variable {data : Bytes}

theorem snapshot_eq_ok {nodes : Dict Path Info} :
    snapshot nodes = .ok data ↔
      data = (ordered nodes).flatMap snapshotRow ∧ data ≠ [] ∧ data.length ≤ MAX_DATA := by
  simp only [snapshot, bind_eq_ok, require_eq_ok, exists_unit, pure_eq_ok, Bool.and_eq_true,
    bne_iff_ne, decide_eq_true_eq, ← ordered.eq_1]
  constructor
  · rintro ⟨⟨hne, hbound⟩, rfl⟩
    exact ⟨rfl, hne, hbound⟩
  · rintro ⟨rfl, hne, hbound⟩
    exact ⟨⟨hne, hbound⟩, rfl⟩

/-- The helper is given all of the data and its length, and the records hold the root. -/
theorem readPlan_eq_ok {nodes : List Node} (hne : data ≠ [])
    (hbound : data.length ≤ MAX_DATA) (hread : readNodes (MAX_ENTRIES + 1) [] data = .ok nodes)
    (hroot : (findNode nodes [46]).isSome) :
    readPlan (utf8Encode (Files.decimal data.length)) data = .ok nodes := by
  have hlength : data.length < 2 ^ 64 := Nat.lt_of_le_of_lt hbound (by decide)
  have hpositive : data.length ≠ 0 := fun hzero => hne (length_eq_zero_iff.mp hzero)
  rw [readPlan, decimal_digits hlength]
  simp only
  rw [if_neg (by omega), if_neg (not_not.mpr rfl)]
  simp only [bind_eq_ok, require_eq_ok, exists_unit, pure_eq_ok]
  exact ⟨nodes, hread, hroot, rfl⟩

/-- The records the helper holds of some nodes. -/
def planOf (nodes : Dict Path Info) : List Node := (ordered nodes).map record

theorem ordered_perm (nodes : Dict Path Info) : (ordered nodes).Perm nodes :=
  perm_insertionSort _ _

/-- **Lookups** by the text of a path are lookups by the path. -/
theorem findNode_planOf {nodes : Dict Path Info} (hnodup : nodes.keys.Nodup)
    (hproper : ∀ e ∈ nodes, ProperPath e.1) {path : Path} (hpath : ProperPath path) :
    findNode (planOf nodes) (pathText path) = (nodes.get path).map fun info => record (path, info) := by
  have hsorted := increasing_ordered hnodup hproper
  cases hget : nodes.get path with
  | some info =>
    have hmem := (ordered_perm nodes).mem_iff.mpr (Dict.mem_of_get hget)
    exact (search_eq_some hsorted).mpr ⟨mem_map_of_mem hmem, rfl⟩
  | none =>
    refine (search_eq_none hsorted).mpr ?_
    intro item hitem htext
    obtain ⟨e, he, rfl⟩ := mem_map.mp hitem
    have hentry := (ordered_perm nodes).mem_iff.mp he
    have hsame := relative_injective (hproper e hentry) hpath htext
    exact Dict.get_eq_none.mp hget (hsame ▸ mem_map_of_mem hentry)

theorem keys_nodup_of_inspected (hins : Inspected b w found) : found.nodes.keys.Nodup :=
  (hins.nodes.map Prod.fst).nodup_iff.mpr w.nodup_nodes

theorem readPlan_snapshot (hinspect : inspect b w = .ok found) (hstat : ∀ e ∈ found.nodes, Stat e.2)
    (hshort : ∀ e ∈ found.nodes, (pathText e.1).length < pathMax)
    (hsnapshot : snapshot found.nodes = .ok data) :
    readPlan (utf8Encode (Files.decimal data.length)) data = .ok (planOf found.nodes) := by
  obtain ⟨hadmitted, hins⟩ := inspect_spec hinspect
  obtain ⟨rfl, hne, hbound⟩ := snapshot_eq_ok.mp hsnapshot
  have hreadable : ∀ e ∈ found.nodes, Readable e := fun e he =>
    readable_of_inspected hadmitted hins he (hstat e he) (hshort e he)
  have hnodup := keys_nodup_of_inspected hins
  have hproper : ∀ e ∈ found.nodes, ProperPath e.1 := fun e he => (hreadable e he).proper
  have hrows : (ordered found.nodes).length ≤ MAX_ENTRIES + 1 := by
    rw [(ordered_perm _).length_eq, hins.nodes.length_eq]
    exact Nat.succ_le_succ hadmitted.count
  have hroot : (findNode (planOf found.nodes) [46]).isSome := by
    have hempty : ProperPath [] := nofun
    rw [← pathText_nil, findNode_planOf hnodup hproper hempty, hins.get_nodes, Workspace.get_root]
    rfl
  refine readPlan_eq_ok hne hbound ?_ hroot
  exact @readNodes_rows _ [] _ hrows
    (fun e he => hreadable e ((ordered_perm _).mem_iff.mp he)) (increasing_ordered hnodup hproper)

theorem eq_planOf_of_readPlan {plan : List Node} (hinspect : inspect b w = .ok found)
    (hstat : ∀ e ∈ found.nodes, Stat e.2) (hsnapshot : snapshot found.nodes = .ok data)
    (hplan : readPlan (utf8Encode (Files.decimal data.length)) data = .ok plan) :
    plan = planOf found.nodes ∧ ∀ e ∈ found.nodes, Readable e := by
  obtain ⟨hadmitted, hins⟩ := inspect_spec hinspect
  obtain ⟨hrows, -, hbound⟩ := snapshot_eq_ok.mp hsnapshot
  have hproper : ∀ e ∈ found.nodes, ProperPath e.1 := fun e he => by
    rcases mem_cons.mp (hins.nodes.mem_iff.mp he) with rfl | hentry
    · exact nofun
    · exact (w.proper e hentry).2
  have hread : ∃ plan, readNodes (MAX_ENTRIES + 1) [] data = .ok plan := by
    have hlength : data.length < 2 ^ 64 := Nat.lt_of_le_of_lt hbound (by decide)
    rw [readPlan, decimal_digits hlength] at hplan
    simp only at hplan
    split at hplan
    · cases hplan
    split at hplan
    · cases hplan
    obtain ⟨plan, hread, -⟩ := bind_eq_ok.mp hplan
    exact ⟨plan, hread⟩
  obtain ⟨_, hread⟩ := hread
  have hshort : ∀ e ∈ found.nodes, (pathText e.1).length < pathMax := by
    intro e he
    rw [hrows] at hread
    exact short_of_readNodes (fun e he => hproper e ((ordered_perm _).mem_iff.mp he)) hread e
      ((ordered_perm _).mem_iff.mpr he)
  rw [readPlan_snapshot hinspect hstat hshort hsnapshot, Except.ok.injEq] at hplan
  exact ⟨hplan.symm, fun e he =>
    readable_of_inspected hadmitted hins he (hstat e he) (hshort e he)⟩

/-- **The plan.** For every tree `_inspect` accepts, the helper accepts the snapshot: it has one
record for every node, in strict order, and finds a record by its path and no other. -/
theorem plan_decoded (b : Backend) (w : Workspace) (found : Found) (data : Bytes)
    (hinspect : inspect b w = .ok found) (hstat : ∀ e ∈ found.nodes, Stat e.2)
    (hshort : ∀ e ∈ found.nodes, (pathText e.1).length < pathMax)
    (hsnapshot : snapshot found.nodes = .ok data) :
    ∃ plan, readPlan (utf8Encode (Files.decimal data.length)) data = .ok plan ∧
      plan.Perm (found.nodes.map record) ∧ Increasing Node.path plan ∧
      (∀ e ∈ found.nodes, findNode plan (pathText e.1) = some (record e)) ∧
      ∀ path, (∀ e ∈ found.nodes, pathText e.1 ≠ path) → findNode plan path = none := by
  obtain ⟨hadmitted, hins⟩ := inspect_spec hinspect
  have hproper : ∀ e ∈ found.nodes, ProperPath e.1 := fun e he =>
    (readable_of_inspected hadmitted hins he (hstat e he) (hshort e he)).proper
  have hnodup := keys_nodup_of_inspected hins
  have hsorted := increasing_ordered hnodup hproper
  refine ⟨planOf found.nodes, readPlan_snapshot hinspect hstat hshort hsnapshot,
    (ordered_perm _).map record, hsorted, ?_, ?_⟩
  · intro e he
    rw [findNode_planOf hnodup hproper (hproper e he), (Dict.get_eq_some hnodup).mpr he]
    rfl
  · intro path hpath
    refine (search_eq_none hsorted).mpr ?_
    intro item hitem
    obtain ⟨e, he, rfl⟩ := mem_map.mp hitem
    exact hpath e ((ordered_perm _).mem_iff.mp he)

/-- A directory, a file in it whose name sorts behind its sibling's, and times before 1970. -/
def dated : Workspace where
  root :=
    { dev := 1, ino := 2, kind := .directory, mode := 0o700, uid := 1000, mtimeNs := -1
      ino_ne := Sample.two_ne }
  entries := [
    ([['a']],
      { dev := 1, ino := 3, kind := .directory, mode := 0o700, uid := 1000, ino_ne := Sample.three_ne }),
    ([['a', '.', 'c']],
      { dev := 1, ino := 4, kind := .regular, mode := 0o600, uid := 1000, ctimeNs := -1000000001
        ino_ne := Sample.four_ne }),
    ([['a'], ['b']],
      { dev := 1, ino := 5, kind := .regular, mode := 0o600, uid := 1000, size := 7
        ino_ne := Sample.five_ne })]
  root_dir := rfl
  nodup := by decide
  proper := by decide
  parent := by decide

instance (info : Info) : Decidable (Stat info) :=
  decidable_of_iff (info.mode < 0o10000 ∧ info.size < 2 ^ 63 ∧
    (-2 ^ 63 ≤ info.mtimeNs / 1000000000 ∧ info.mtimeNs / 1000000000 < 2 ^ 63) ∧
    (-2 ^ 63 ≤ info.ctimeNs / 1000000000 ∧ info.ctimeNs / 1000000000 < 2 ^ 63))
    ⟨fun ⟨a, b, c, d⟩ => ⟨a, b, c, d⟩, fun ⟨a, b, c, d⟩ => ⟨a, b, c, d⟩⟩

theorem dated_inspected : ∃ found data, inspect Sample.backend dated = .ok found ∧
    found.nodes = dated.nodes ∧ snapshot found.nodes = .ok data ∧
    (∀ e ∈ found.nodes, Stat e.2) ∧
    readPlan (utf8Encode (Files.decimal data.length)) data = .ok (planOf found.nodes) := by
  have hnodes : (inspect Sample.backend dated).map Found.nodes = .ok dated.nodes := rfl
  obtain ⟨found, hinspect, hfound⟩ := map_eq_ok.mp hnodes
  obtain ⟨data, hdata⟩ := exists_ok_of_isOk (x := snapshot found.nodes)
    (by rw [hfound]; decide +kernel)
  have hstat : ∀ e ∈ found.nodes, Stat e.2 := by
    rw [hfound]
    decide +kernel
  exact ⟨found, data, hinspect, hfound, hdata, hstat,
    readPlan_snapshot hinspect hstat (by rw [hfound]; decide +kernel) hdata⟩

theorem plan_decoded_dated : ∃ found data plan, inspect Sample.backend dated = .ok found ∧
    snapshot found.nodes = .ok data ∧
    readPlan (utf8Encode (Files.decimal data.length)) data = .ok plan ∧
    findNode plan [97, 47, 98] = some ⟨[97, 47, 98], 1, 5, 0o100600, 7, 0, 0, 0, 0⟩ ∧
    findNode plan [97, 45] = none := by
  obtain ⟨found, data, hinspect, hfound, hdata, hstat, -⟩ := dated_inspected
  obtain ⟨plan, hplan, -, -, hpresent, habsent⟩ := plan_decoded Sample.backend dated found data
    hinspect hstat (by rw [hfound]; decide +kernel) hdata
  rw [hfound] at hpresent habsent
  refine ⟨found, data, plan, hinspect, hdata, hplan, ?_, habsent _ (by decide +kernel)⟩
  have hlast : record (List.get dated.nodes ⟨3, by decide⟩) =
      ⟨[97, 47, 98], 1, 5, 0o100600, 7, 0, 0, 0, 0⟩ := by decide +kernel
  have hpath := hpresent _ (get_mem dated.nodes ⟨3, by decide⟩)
  rw [hlast] at hpath
  exact hpath

end FoldGPT.Files.Helper
