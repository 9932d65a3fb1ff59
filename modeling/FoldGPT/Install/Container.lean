import FoldGPT.Install.Bundle
import Mathlib.Data.List.Sort

/-!
# Accepted containers

What `InactiveIntegrationBundle.read` accepts is written in one way only: a line of the manifest is
the record that was read from it, printed again, and the contents follow one another in the order
of the paths.

Main result: `read_canonical`.
-/

namespace FoldGPT.Install.Integration

open FoldGPT.Lib List

variable {tables : Release} {hash : List UInt8 → Text} {format : Format} {bytes : List UInt8}

/-! ### Records are printed as they were -/

theorem formatOctal_digits : ∀ i j k : Fin 8, formatOctal (8 * (8 * i.val + j.val) + k.val) =
    ['0', Nat.digitChar i, Nat.digitChar j, Nat.digitChar k] := by
  decide +kernel

theorem octalDigit {c : Char} (h : (decide ('0' ≤ c) && decide (c ≤ '7')) = true) :
    ∃ i : Fin 8, c.toNat - '0'.toNat = i.val ∧ Nat.digitChar i = c := by
  simp only [Bool.and_eq_true, decide_eq_true_eq] at h
  have hdigit : c.isDigit = true := by
    simp only [Char.isDigit, Bool.and_eq_true, decide_eq_true_eq]
    exact ⟨h.1, le_trans h.2 (by decide)⟩
  have hcode : c.toNat ≤ 55 := h.2
  have hzero : '0'.toNat = 48 := rfl
  exact ⟨⟨c.toNat - '0'.toNat, by omega⟩, rfl, (digitChar_of_isDigit hdigit).1⟩

variable {text : Text}

theorem formatOctal_of_octalMode {mode : Nat} (h : octalMode text = some mode) :
    formatOctal mode = text := by
  unfold octalMode at h
  split at h
  next a b c =>
    split_ifs at h with hdigits
    simp only [all_cons, all_nil, Bool.and_true] at hdigits
    obtain ⟨ha, hbc⟩ := Bool.and_eq_true_iff.mp hdigits
    obtain ⟨hb, hc⟩ := Bool.and_eq_true_iff.mp hbc
    obtain ⟨i, hi, rfl⟩ := octalDigit ha
    obtain ⟨j, hj, rfl⟩ := octalDigit hb
    obtain ⟨k, hk, rfl⟩ := octalDigit hc
    rw [← Option.some.inj h, ← formatOctal_digits i j k]
    simp only [Nat.ofDigitChars_cons, Nat.ofDigitChars_nil, hi, hj, hk, Nat.mul_zero, Nat.zero_add]
  · exact nomatch h

theorem toDigits_of_decimalSize {size : Nat} (h : decimalSize text = some size) :
    Nat.toDigits 10 size = text := by
  unfold decimalSize at h
  split at h
  · exact nomatch h
  next first rest =>
    split_ifs at h with hdigits
    rw [← Option.some.inj h]
    simp only [Bool.or_eq_true, Bool.and_eq_true, beq_iff_eq, bne_iff_ne, decide_eq_true_eq,
      List.isEmpty_iff, all_eq_true] at hdigits
    refine toDigits_ofDigitChars (cons_ne_nil _ _) (fun c hc => ?_) fun hzero => ?_
    · rcases hdigits with ⟨rfl, rfl⟩ | ⟨⟨⟨hfirst, -⟩, -⟩, hrest⟩
      · obtain rfl := mem_singleton.mp hc
        decide
      · rcases mem_cons.mp hc with rfl | hc
        · exact hfirst
        · exact hrest c hc
    · rcases hdigits with ⟨-, rfl⟩ | ⟨⟨⟨-, hfirst⟩, -⟩, -⟩
      · rfl
      · exact absurd (Option.some.inj hzero) hfirst

theorem Scope.letter_of_ofText {scope : Scope} (h : Scope.ofText text = some scope) :
    scope.letter = text := by
  have := List.find?_some h
  exact eq_of_beq this

theorem Kind.letter_of_ofText {kind : Kind} (h : Kind.ofText text = some kind) :
    kind.letter = text := by
  have := List.find?_some h
  exact eq_of_beq this

/-- The builder's record of an entry. -/
def Entry.record (entry : Entry) : Record :=
  ⟨entry.scope.letter, entry.kind.letter, entry.mode, entry.size, entry.sha, entry.link⟩

def Entry.fields (entry : Entry) : List Text :=
  [entry.scope.letter, entry.kind.letter, formatOctal entry.mode, Nat.toDigits 10 entry.size,
    entry.sha, entry.path, entry.link]

variable {entry : Entry}

/-- **A record is what is printed for it.** -/
theorem readEntry_fields {fields : List Text} (h : readEntry fields = .ok entry) :
    fields = entry.fields := by
  unfold readEntry at h
  split at h
  next scopeText kindText modeText sizeText sha path link =>
    rw [bind_eq_ok] at h
    obtain ⟨-, -, h⟩ := h
    split at h
    next mode size hmode hsize =>
      split at h
      next scope hscope =>
        rw [bind_eq_ok] at h
        obtain ⟨-, -, h⟩ := h
        split at h
        next kind hkind =>
          simp only [bind_eq_ok, pure_eq_ok] at h
          obtain ⟨-, -, rfl⟩ := h
          unfold Entry.fields
          rw [Scope.letter_of_ofText hscope, Kind.letter_of_ofText hkind,
            formatOctal_of_octalMode hmode, toDigits_of_decimalSize hsize]
        · cases h
      · cases h
    · cases h
  · cases h

theorem recordLine_of_readEntry {line : Text} (h : readEntry (line.splitOn '\t') = .ok entry) :
    recordLine entry.path entry.record = line := by
  have hline : ['\t'].intercalate (line.splitOn '\t') = line := intercalate_splitOn '\t'
  rw [readEntry_fields h] at hline
  exact hline

/-! ### Ranges -/

/-- Ranges of bytes that follow one another from `start` to `stop`. -/
def Consecutive : Nat → List Entry → Nat → Prop
  | start, [], stop => start = stop
  | start, entry :: rest, stop =>
    entry.offset = start ∧ 0 < entry.size ∧ Consecutive (start + entry.size) rest stop

def Entry.slice (bytes : List UInt8) (entry : Entry) : List UInt8 :=
  Integration.slice bytes entry.offset entry.size

namespace Consecutive

variable {start stop : Nat} {entries : List Entry}

theorem le (h : Consecutive start entries stop) : start ≤ stop := by
  induction entries generalizing start with
  | nil => exact Nat.le_of_eq h
  | cons entry entries ih =>
    have hrest := ih h.2.2
    omega

theorem concat (h : Consecutive start entries stop) {entry : Entry} (hoffset : entry.offset = stop)
    (hsize : 0 < entry.size) : Consecutive start (entries ++ [entry]) (stop + entry.size) := by
  induction entries generalizing start with
  | nil =>
    obtain rfl : start = stop := h
    exact ⟨hoffset, hsize, rfl⟩
  | cons first entries ih => exact ⟨h.1, h.2.1, ih h.2.2⟩

theorem bounds (h : Consecutive start entries stop) {entry : Entry} (hentry : entry ∈ entries) :
    start ≤ entry.offset ∧ entry.offset + entry.size ≤ stop := by
  induction entries generalizing start with
  | nil => exact nomatch hentry
  | cons first entries ih =>
    have hle := h.2.2.le
    have hfirst := h.1
    rcases mem_cons.mp hentry with rfl | hentry
    · omega
    · have hrest := ih h.2.2 hentry
      omega

/-- No two of the ranges overlap. -/
theorem disjoint (h : Consecutive start entries stop) :
    entries.Pairwise fun a b => a.offset + a.size ≤ b.offset := by
  induction entries generalizing start with
  | nil => exact .nil
  | cons first entries ih =>
    refine pairwise_cons.mpr ⟨fun entry hentry => ?_, ih h.2.2⟩
    have hbounds := (h.2.2.bounds hentry).1
    have hfirst := h.1
    omega

theorem flatMap_slice (h : Consecutive start entries stop) (hstop : stop = bytes.length) :
    entries.flatMap (Entry.slice bytes) = bytes.drop start := by
  induction entries generalizing start with
  | nil =>
    obtain rfl : start = stop := h
    rw [hstop, drop_length]
    rfl
  | cons first entries ih =>
    obtain ⟨rfl, -, hrest⟩ := h
    rw [flatMap_cons, ih hrest, ← drop_drop]
    exact take_append_drop _ _

end Consecutive

/-! ### The loop -/

/-- An entry with the contents of an installed file. -/
def Entry.isPayload (entry : Entry) : Bool := entry.scope == .installed && entry.kind == .file

def Entry.isInstalledLink (entry : Entry) : Bool := entry.scope == .installed && entry.kind == .link

/-- The entries in the order of their paths. -/
def all (entries : SortedMap Text Entry) : List Entry := entries.entries.map Prod.snd

/-- What is asked of a single entry. -/
structure Admitted (tables : Release) (hash : List UInt8 → Text) (format : Format) (bytes : List UInt8)
    (entry : Entry) : Prop where
  payload : entry.isPayload = true → (tables.files format).get entry.path = some entry.mode ∧
    entry.offset + entry.size ≤ bytes.length ∧ hash (entry.slice bytes) = entry.sha
  link : entry.isInstalledLink = true → entry.mode = 0o777 ∧
    tables.links.get entry.path = some entry.link
  kind : entry.scope = .installed → entry.kind ≠ .directory
  verified : entry.scope = .verified →
    entry.path = xkb ∨ (xkb ++ ['/']).isPrefixOf entry.path = true

/-- **What the loop has established** after these lines. -/
structure Scanned (tables : Release) (hash : List UInt8 → Text) (format : Format)
    (bytes : List UInt8) (start : Nat) (lines : List Text) (scan : Scan) : Prop where
  lines : lines = scan.entries.entries.map fun item => recordLine item.1 item.2.record
  path : ∀ item ∈ scan.entries.entries, item.2.path = item.1
  below : ∀ key ∈ scan.entries.keys, key ≤ scan.previous
  files : scan.files = ((all scan.entries).filter Entry.isPayload).map Entry.path
  links : scan.links = ((all scan.entries).filter Entry.isInstalledLink).map Entry.path
  ranges : Consecutive start ((all scan.entries).filter Entry.isPayload) scan.offset
  admitted : ∀ entry ∈ all scan.entries, Admitted tables hash format bytes entry

theorem Scanned.append {start : Nat} {lines : List Text} {scan : Scan}
    (h : Scanned tables hash format bytes start lines scan) (entry : Entry)
    (hlater : scan.previous < entry.path) (hadmitted : Admitted tables hash format bytes entry)
    (hoffset : entry.isPayload = true → entry.offset = scan.offset ∧ 0 < entry.size) :
    Scanned tables hash format bytes start (lines ++ [recordLine entry.path entry.record])
      ⟨scan.entries.put entry.path entry, entry.path,
        scan.files ++ (if entry.isPayload then [entry.path] else []),
        scan.links ++ (if entry.isInstalledLink then [entry.path] else []),
        scan.offset + if entry.isPayload then entry.size else 0⟩ := by
  have hput : (scan.entries.put entry.path entry).entries =
      scan.entries.entries ++ [(entry.path, entry)] :=
    SortedMap.entries_put_of_lt entry fun key hkey => lt_of_le_of_lt (h.below key hkey) hlater
  have hall : all (scan.entries.put entry.path entry) = all scan.entries ++ [entry] := by
    unfold all
    rw [hput, map_append]
    rfl
  constructor
  · show _ = List.map _ (scan.entries.put entry.path entry).entries
    rw [hput, map_append, ← h.lines]
    rfl
  · show ∀ item ∈ (scan.entries.put entry.path entry).entries, item.2.path = item.1
    rw [hput]
    intro item hitem
    rcases mem_append.mp hitem with hitem | hitem
    · exact h.path item hitem
    · obtain rfl := mem_singleton.mp hitem
      rfl
  · intro key hkey
    rcases SortedMap.mem_keys_put.mp hkey with rfl | hkey
    · exact le_rfl
    · exact le_trans (h.below key hkey) (le_of_lt hlater)
  · show scan.files ++ _ = _
    rw [hall, filter_append, map_append, ← h.files, filter_singleton]
    cases entry.isPayload <;> rfl
  · show scan.links ++ _ = _
    rw [hall, filter_append, map_append, ← h.links, filter_singleton]
    cases entry.isInstalledLink <;> rfl
  · show Consecutive start _ (scan.offset + _)
    rw [hall, filter_append, filter_singleton]
    by_cases hpayload : entry.isPayload = true
    · rw [hpayload]
      exact h.ranges.concat (hoffset hpayload).1 (hoffset hpayload).2
    · rw [eq_false_of_ne_true hpayload]
      show Consecutive start (_ ++ []) scan.offset
      rw [append_nil]
      exact h.ranges
  · rw [hall]
    intro other hother
    rcases mem_append.mp hother with hother | hother
    · exact h.admitted other hother
    · obtain rfl := mem_singleton.mp hother
      exact hadmitted

/-- **One record** keeps what is established. -/
theorem Scanned.scanEntry {start : Nat} {lines : List Text} {scan scan' : Scan}
    (h : Scanned tables hash format bytes start lines scan)
    (hscan : scanEntry tables hash format bytes scan entry = .ok scan') :
    Scanned tables hash format bytes start (lines ++ [recordLine entry.path entry.record]) scan' := by
  unfold Integration.scanEntry at hscan
  rw [bind_eq_ok] at hscan
  obtain ⟨_, hrequire, hscan⟩ := hscan
  have hlater : scan.previous < entry.path := of_decide_eq_true (require_eq_ok.mp hrequire)
  split at hscan
  next hscope hkind =>
    simp only [bind_eq_ok, pure_eq_ok, require_eq_ok, exists_unit, Bool.and_eq_true,
      decide_eq_true_eq, beq_iff_eq] at hscan
    obtain ⟨⟨hfile, hsize⟩, ⟨hbound, hhash⟩, rfl⟩ := hscan
    have happend := h.append { entry with offset := scan.offset } hlater
      ⟨fun _ => ⟨hfile, hbound, hhash⟩, fun hlink => ?_, fun _ => ?_, fun hverified => ?_⟩
      fun _ => ⟨rfl, Nat.pos_of_ne_zero hsize⟩
    · have hpayload : Entry.isPayload { entry with offset := scan.offset } = true := by
        simp [Entry.isPayload, hscope, hkind]
      have hnolink : Entry.isInstalledLink { entry with offset := scan.offset } = false := by
        simp [Entry.isInstalledLink, hkind]
      rw [hpayload, hnolink, if_pos rfl, if_pos rfl, if_neg Bool.false_ne_true,
        append_nil] at happend
      exact happend
    · simp [Entry.isInstalledLink, hkind] at hlink
    · simp [hkind]
    · cases hscope.symm.trans hverified
  next hscope hkind =>
    simp only [bind_eq_ok, pure_eq_ok, require_eq_ok, exists_unit, Bool.and_eq_true,
      decide_eq_true_eq, beq_iff_eq] at hscan
    obtain ⟨⟨⟨hlink, hmode⟩, htarget⟩, rfl⟩ := hscan
    have hpayload : entry.isPayload = false := by simp [Entry.isPayload, hlink]
    have hinstalled : entry.isInstalledLink = true := by
      simp [Entry.isInstalledLink, hscope, hlink]
    have happend := h.append entry hlater
      ⟨fun hp => Bool.noConfusion (hpayload.symm.trans hp), fun _ => ⟨hmode, htarget⟩,
        fun _ => by simp [hlink], fun hverified => by cases hscope.symm.trans hverified⟩
      fun hp => Bool.noConfusion (hpayload.symm.trans hp)
    rw [hpayload, hinstalled, if_pos rfl, if_neg Bool.false_ne_true, if_neg Bool.false_ne_true,
      append_nil] at happend
    exact happend
  next hscope =>
    simp only [bind_eq_ok, pure_eq_ok, require_eq_ok, exists_unit, Bool.or_eq_true,
      beq_iff_eq] at hscan
    obtain ⟨htree, -, rfl⟩ := hscan
    have hpayload : entry.isPayload = false := by simp [Entry.isPayload, hscope]
    have hinstalled : entry.isInstalledLink = false := by simp [Entry.isInstalledLink, hscope]
    have happend := h.append entry hlater
      ⟨fun hp => Bool.noConfusion (hpayload.symm.trans hp),
        fun hp => Bool.noConfusion (hinstalled.symm.trans hp),
        fun hi => (by cases hscope.symm.trans hi), fun _ => htree⟩
      fun hp => Bool.noConfusion (hpayload.symm.trans hp)
    rw [hpayload, hinstalled, if_neg Bool.false_ne_true, if_neg Bool.false_ne_true,
      append_nil, append_nil] at happend
    exact happend

theorem Scanned.scanLines {start : Nat} {before lines : List Text} {scan scan' : Scan}
    (h : Scanned tables hash format bytes start before scan)
    (hscan : lines.foldlM (scanLine tables hash format bytes) scan = .ok scan') :
    Scanned tables hash format bytes start (before ++ lines) scan' := by
  induction lines generalizing before scan with
  | nil =>
    cases hscan
    rwa [append_nil]
  | cons line lines ih =>
    rw [foldlM_cons, bind_eq_ok] at hscan
    obtain ⟨next, hline, hrest⟩ := hscan
    unfold scanLine at hline
    rw [bind_eq_ok] at hline
    obtain ⟨entry, hentry, hline⟩ := hline
    have hnext := h.scanEntry hline
    rw [recordLine_of_readEntry hentry] at hnext
    have hall := ih hnext hrest
    rwa [append_assoc] at hall

theorem scanned_nil (start : Nat) :
    Scanned tables hash format bytes start [] ⟨SortedMap.empty, [], [], [], start⟩ :=
  ⟨rfl, nofun, nofun, rfl, rfl, rfl, nofun⟩

/-! ### The frame -/

theorem toNat_ofNat_ascii {n : Nat} (h : n < 128) : (Char.ofNat n).toNat = n := by
  have hvalid : n.isValidChar := .inl (by omega)
  rw [Char.ofNat, dif_pos hvalid]
  rfl

theorem asciiEncode_of_asciiString {bytes : List UInt8} (h : ∀ c ∈ asciiString bytes, c.toNat < 128) :
    asciiEncode (asciiString bytes) = bytes := by
  unfold asciiEncode asciiString at *
  rw [map_map]
  refine (map_congr_left fun b hb => ?_).trans (map_id _)
  have hchar := h _ (mem_map_of_mem hb)
  by_cases hsmall : b.toNat < 128
  · simp only [Function.comp_apply, if_pos hsmall, toNat_ofNat_ascii hsmall, UInt8.ofNat_toNat]
    rfl
  · rw [if_neg hsmall] at hchar
    exact absurd hchar (by decide)

theorem asciiString_lt {bytes : List UInt8} (h : ∀ b ∈ bytes, b.toNat < 128) :
    ∀ c ∈ asciiString bytes, c.toNat < 128 := by
  intro c hc
  obtain ⟨b, hb, rfl⟩ := mem_map.mp hc
  rw [if_pos (h b hb), toNat_ofNat_ascii (h b hb)]
  exact h b hb

theorem Format.magic_ascii (format : Format) : ∀ c ∈ format.magic, c.toNat < 128 := by
  have hall : format.magic.all (fun c => decide (c.toNat < 128)) = true := by
    cases format <;> decide +kernel
  intro c hc
  exact of_decide_eq_true (all_eq_true.mp hall c hc)

theorem readFormat_ok {magic : List UInt8} (h : readFormat magic = .ok format) :
    magic = asciiEncode format.magic := by
  have htext : asciiString magic = format.magic := by
    unfold readFormat at h
    split_ifs at h with hfirst hsecond
    · exact Except.ok.inj h ▸ hfirst
    · exact Except.ok.inj h ▸ hsecond
  rw [← htext]
  exact (asciiEncode_of_asciiString (htext ▸ format.magic_ascii)).symm

theorem readInt_ok {rest : List UInt8} {n : Int} (h : readInt rest = .ok n) (hpos : 0 < n) :
    ∃ tail, rest = pack n.toNat ++ tail := by
  unfold readInt at h
  split at h
  next a b c d tail =>
    have ha := a.toNat_lt
    have hb := b.toNat_lt
    have hc := c.toNat_lt
    have hd := d.toNat_lt
    have hvalue := Except.ok.inj h
    have hn : n.toNat = a.toNat * 2 ^ 24 + b.toNat * 2 ^ 16 + c.toNat * 2 ^ 8 + d.toNat := by
      rw [Int.bmod_def] at hvalue
      split_ifs at hvalue with hsmall <;> omega
    refine ⟨tail, ?_⟩
    have hbyte : ∀ (x : UInt8) (m : Nat), m % 256 = x.toNat → UInt8.ofNat m = x :=
      fun x m hm => UInt8.toNat_inj.mp ((UInt8.toNat_ofNat').trans hm)
    unfold pack
    rw [hbyte a _ (by omega), hbyte b _ (by omega), hbyte c _ (by omega), hbyte d _ (by omega)]
    rfl
  · exact nomatch h

theorem binding_ok {name tagged line value : Text} (h : binding name line = .ok value)
    (htagged : tagged = name ++ ['\t']) : line = tagged ++ value := by
  unfold binding at h
  simp only [bind_eq_ok, pure_eq_ok, require_eq_ok, exists_unit, Bool.and_eq_true] at h
  obtain ⟨⟨hname, -⟩, rfl⟩ := h
  obtain ⟨rest, rfl⟩ := isPrefixOf_iff_prefix.mp hname
  rw [htagged]
  simp

theorem intercalate_concat_nil {sep : Text} {lines : List Text} (h : lines ≠ []) :
    List.intercalate sep (lines ++ [[]]) = List.intercalate sep lines ++ sep := by
  induction lines with
  | nil => exact absurd rfl h
  | cons line lines ih =>
    by_cases hlines : lines = []
    · subst hlines
      simp [intercalate_cons_cons]
    · rw [cons_append, intercalate_cons_of_ne_nil (by simp), ih hlines,
        intercalate_cons_of_ne_nil hlines, append_assoc (line ++ sep)]

/-- The manifest is its header, its records and an empty last line. -/
theorem readHeader_ok {encoded : List UInt8} {header : Header}
    (h : readHeader format encoded = .ok header) :
    (∀ b ∈ encoded, b.toNat < 128) ∧
      asciiString encoded = List.intercalate ['\n'] ([format.text, "base\t".toList ++ header.base,
        "guest\t".toList ++ header.guest, "gpu\t".toList ++ gpuSha] ++ header.records) ++ ['\n'] := by
  unfold readHeader at h
  simp only [bind_eq_ok, pure_eq_ok, require_eq_ok, exists_unit, Bool.and_eq_true,
    all_eq_true, decide_eq_true_eq, beq_iff_eq] at h
  obtain ⟨hascii, ⟨⟨hlong, hfirst⟩, hlast⟩, base, hbase, guest, hguest, gpu, hgpu, rfl, rfl⟩ := h
  refine ⟨fun b hb => (hascii b hb).1.1, ?_⟩
  have hjoin : ['\n'].intercalate ((asciiString encoded).splitOn '\n') = asciiString encoded :=
    intercalate_splitOn '\n'
  generalize (asciiString encoded).splitOn '\n' = lines at hlong hfirst hlast hbase hguest hgpu hjoin ⊢
  rw [← hjoin]
  rcases lines with _ | ⟨first, _ | ⟨second, _ | ⟨third, _ | ⟨fourth, rest⟩⟩⟩⟩
  · simp at hlong
  · simp at hlong
  · simp at hlong
  · simp at hlong
  · have hrest : rest ≠ [] := by
      rintro rfl
      exact absurd hlong (by simp)
    have hend : rest.getLast hrest = [] := by
      have hlast' : (first :: second :: third :: fourth :: rest).getLast? = rest.getLast? := by
        simp [List.getLast?_cons, List.getLast?_eq_some_getLast hrest]
      rw [hlast', List.getLast?_eq_some_getLast hrest] at hlast
      exact Option.some.inj hlast
    have hsplit : rest = rest.dropLast ++ [[]] := by
      rw [← hend, dropLast_concat_getLast]
    obtain rfl : first = format.text := Option.some.inj hfirst
    have hsecond : second = "base\t".toList ++ base := binding_ok hbase (by decide +kernel)
    have hthird : third = "guest\t".toList ++ guest := binding_ok hguest (by decide +kernel)
    have hfourth : fourth = "gpu\t".toList ++ gpuSha := binding_ok hgpu (by decide +kernel)
    rw [← intercalate_concat_nil (by simp), ← hsecond, ← hthird, ← hfourth]
    refine congrArg _ (congrArg (List.append [format.text, second, third, fourth]) ?_)
    exact hsplit

/-! ### The writer's order -/

theorem sortedItems_of_perm {ν : Type} {items sorted : Dict Text ν} (hperm : items.Perm sorted)
    (hsorted : sorted.Pairwise fun a b => a.1 < b.1) : sortedItems items = sorted := by
  have hmerge : (sortedItems items).Pairwise fun a b => decide (a.1 ≤ b.1) = true := by
    refine pairwise_mergeSort (fun a b c hab hbc => ?_) (fun a b => ?_) items
    · exact decide_eq_true (le_trans (of_decide_eq_true hab) (of_decide_eq_true hbc))
    · rw [Bool.or_eq_true]
      exact (le_total a.1 b.1).imp decide_eq_true decide_eq_true
  have hsame : (sortedItems items).Perm sorted := (mergeSort_perm _ _).trans hperm
  have hleft : (sortedItems items).Pairwise fun a b => a.1 ≤ b.1 :=
    hmerge.imp fun h => of_decide_eq_true h
  have hright : sorted.Pairwise fun a b => a.1 ≤ b.1 := hsorted.imp fun h => le_of_lt h
  refine hsame.eq_of_pairwise (fun a b ha hb hab hba => ?_) hleft hright
  have hnodup : (sorted.map Prod.fst).Nodup :=
    pairwise_map.mpr (hsorted.imp fun h => ne_of_lt h)
  exact inj_on_of_nodup_map hnodup (hsame.mem_iff.mp ha) hb (le_antisymm hab hba)

/-! ### Accepted containers -/

/-- The installed files, in the order of their paths. -/
def Bundle.payloads (bundle : Bundle) : List Entry := (all bundle.entries).filter Entry.isPayload

/-- **A container in its only form**, with this manifest. -/
structure Canonical (tables : Release) (hash : List UInt8 → Text) (bundle : Bundle)
    (manifest : List UInt8) : Prop where
  framing : bundle.bytes = asciiEncode bundle.format.magic ++ pack manifest.length ++ manifest ++
    bundle.payloads.flatMap (Entry.slice bundle.bytes)
  ranges : Consecutive (bundle.format.magic.length + 4 + manifest.length) bundle.payloads
    bundle.bytes.length
  disjoint : bundle.payloads.Pairwise fun a b => a.offset + a.size ≤ b.offset
  hashes : ∀ entry ∈ bundle.payloads, hash (entry.slice bundle.bytes) = entry.sha
  sorted : (all bundle.entries).Pairwise fun a b => a.path < b.path
  files : ∀ path mode, (∃ entry ∈ bundle.payloads, entry.path = path ∧ entry.mode = mode) ↔
    (tables.files bundle.format).get path = some mode
  links : ∀ path target, (∃ entry ∈ all bundle.entries, entry.isInstalledLink = true ∧
    entry.path = path ∧ entry.link = target) ↔ tables.links.get path = some target
  kinds : ∀ entry ∈ all bundle.entries,
    entry.isPayload = true ∨ entry.isInstalledLink = true ∨ entry.scope = .verified
  parents : ∀ entry ∈ all bundle.entries, entry.scope = .verified → entry.path ≠ xkb →
    ∃ parent ∈ all bundle.entries, parent.path = parentPath entry.path ∧ parent.kind = .directory
  targets : ∀ entry ∈ all bundle.entries, entry.scope = .verified → entry.kind = .link →
    ∃ target ∈ all bundle.entries, target.path = siblingPath entry.path entry.link ∧
      target.kind = .file
  encoded : bundle.format = .v2 → ∀ records payload,
    records.Perm ((all bundle.entries).map fun entry => (entry.path, entry.record)) →
    payload.Perm (bundle.payloads.map fun entry => (entry.path, entry.slice bundle.bytes)) →
      encode records payload bundle.baseSha256 bundle.guestSha256 gpuSha =
        .ok (bundle.bytes, manifest)

section Accepted

variable {scan : Scan} {start : Nat} {lines : List Text}

theorem Scanned.sorted (h : Scanned tables hash format bytes start lines scan) :
    (all scan.entries).Pairwise fun a b => a.path < b.path := by
  have hkeys := pairwise_map.mp scan.entries.sorted
  refine pairwise_map.mpr (hkeys.imp_of_mem fun {a b} ha hb hlt => ?_)
  rw [h.path a ha, h.path b hb]
  exact hlt

theorem Scanned.mem_of_get (h : Scanned tables hash format bytes start lines scan) {path : Text}
    {entry : Entry} (hget : scan.entries.get path = some entry) :
    entry ∈ all scan.entries ∧ entry.path = path :=
  have hmem := SortedMap.get_eq_some.mp hget
  ⟨mem_map_of_mem hmem, h.path _ hmem⟩

theorem Scanned.exists_of_any (h : Scanned tables hash format bytes start lines scan) {path : Text}
    {kind : Kind} (hany : (scan.entries.get path).any (·.kind == kind) = true) :
    ∃ entry ∈ all scan.entries, entry.path = path ∧ entry.kind = kind := by
  cases hget : scan.entries.get path with
  | none =>
    rw [hget] at hany
    exact nomatch hany
  | some entry =>
    rw [hget] at hany
    obtain ⟨hmem, hpath⟩ := h.mem_of_get hget
    exact ⟨entry, hmem, hpath, eq_of_beq hany⟩

theorem Scanned.recordLines (h : Scanned tables hash format bytes start lines scan) :
    lines = ((all scan.entries).map fun entry => (entry.path, entry.record)).map
      fun item => recordLine item.1 item.2 := by
  rw [h.lines, all, map_map, map_map]
  refine map_congr_left fun item hitem => ?_
  simp only [Function.comp_apply, h.path item hitem]

/-- The checks after the loop, in the terms of the container. -/
theorem checkScan_ok (h : checkScan tables hash format bytes scan = .ok ()) :
    (∀ path, path ∈ scan.files ↔ path ∈ (tables.files format).keys) ∧
    (∀ path, path ∈ scan.links ↔ path ∈ tables.links.keys) ∧ scan.offset = bytes.length ∧
    ∀ entry ∈ all scan.entries, entry.scope = .verified →
      (entry.path ≠ xkb →
        (scan.entries.get (parentPath entry.path)).any (·.kind == .directory) = true) ∧
      (entry.kind = .link →
        (scan.entries.get (siblingPath entry.path entry.link)).any (·.kind == .file) = true) := by
  unfold checkScan at h
  simp only [bind_eq_ok, require_eq_ok, exists_unit, Bool.and_eq_true, sameKeys_iff,
    decide_eq_true_eq, checkAll_eq_ok] at h
  obtain ⟨⟨⟨hfiles, hlinks⟩, hoffset⟩, -, hverified, -⟩ := h
  refine ⟨hfiles, hlinks, hoffset, fun entry hentry hscope => ?_⟩
  have hentry := hverified entry hentry
  unfold checkVerified at hentry
  simpa [hscope] using hentry

theorem magic_length (format : Format) : format.magic.length = Format.v1.magic.length := by
  cases format <;> decide +kernel

/-- The bytes of a container, cut at the places the reader looks at. -/
theorem framing_of_read {length : Int}
    (hformat : readFormat (bytes.take Format.v1.magic.length) = .ok format)
    (hlength : readInt (bytes.drop Format.v1.magic.length) = .ok length) (hpos : 0 < length)
    (htruncated : (slice bytes (Format.v1.magic.length + 4) length.toNat).length = length.toNat) :
    bytes = asciiEncode format.magic ++
      pack (slice bytes (Format.v1.magic.length + 4) length.toNat).length ++
      slice bytes (Format.v1.magic.length + 4) length.toNat ++
      bytes.drop (Format.v1.magic.length + 4 + length.toNat) := by
  obtain ⟨tail, htail⟩ := readInt_ok hlength hpos
  have hfour : (bytes.drop Format.v1.magic.length).drop 4 = tail := by
    rw [htail]
    rfl
  have hrest : tail = slice bytes (Format.v1.magic.length + 4) length.toNat ++
      bytes.drop (Format.v1.magic.length + 4 + length.toNat) := by
    rw [← hfour, slice, ← drop_drop (l := bytes) (i := length.toNat), ← drop_drop]
    exact (take_append_drop _ _).symm
  rw [htruncated, ← readFormat_ok hformat, append_assoc, append_assoc, ← hrest, ← htail]
  exact (take_append_drop _ _).symm

theorem Scanned.canonical_links (h : Scanned tables hash format bytes start lines scan)
    (hlinks : ∀ path, path ∈ scan.links ↔ path ∈ tables.links.keys) (path target : Text) :
    (∃ entry ∈ all scan.entries, entry.isInstalledLink = true ∧ entry.path = path ∧
      entry.link = target) ↔ tables.links.get path = some target := by
  constructor
  · rintro ⟨entry, hentry, hlink, rfl, rfl⟩
    exact ((h.admitted entry hentry).link hlink).2
  · intro hget
    have hmem : path ∈ scan.links := (hlinks path).mpr (mem_map_of_mem (Dict.mem_of_get hget))
    rw [h.links] at hmem
    obtain ⟨entry, hentry, rfl⟩ := mem_map.mp hmem
    obtain ⟨hentry, hlink⟩ := mem_filter.mp hentry
    have htarget := ((h.admitted entry hentry).link hlink).2
    exact ⟨entry, hentry, hlink, rfl, Option.some.inj (htarget.symm.trans hget)⟩

theorem Scanned.canonical_files (h : Scanned tables hash format bytes start lines scan)
    (hfiles : ∀ path, path ∈ scan.files ↔ path ∈ (tables.files format).keys) (path : Text)
    (mode : Nat) :
    (∃ entry ∈ (all scan.entries).filter Entry.isPayload, entry.path = path ∧
      entry.mode = mode) ↔ (tables.files format).get path = some mode := by
  constructor
  · rintro ⟨entry, hentry, rfl, rfl⟩
    obtain ⟨hentry, hpayload⟩ := mem_filter.mp hentry
    exact ((h.admitted entry hentry).payload hpayload).1
  · intro hget
    have hmem : path ∈ scan.files := (hfiles path).mpr (mem_map_of_mem (Dict.mem_of_get hget))
    rw [h.files] at hmem
    obtain ⟨entry, hentry, rfl⟩ := mem_map.mp hmem
    obtain ⟨hall, hpayload⟩ := mem_filter.mp hentry
    have hmode := ((h.admitted entry hall).payload hpayload).1
    exact ⟨entry, hentry, rfl, Option.some.inj (hmode.symm.trans hget)⟩

theorem Scanned.kinds (h : Scanned tables hash format bytes start lines scan) {entry : Entry}
    (hentry : entry ∈ all scan.entries) :
    entry.isPayload = true ∨ entry.isInstalledLink = true ∨ entry.scope = .verified := by
  have hkind := (h.admitted entry hentry).kind
  unfold Entry.isPayload Entry.isInstalledLink
  cases hscope : entry.scope with
  | verified => exact .inr (.inr rfl)
  | installed =>
    cases hk : entry.kind with
    | file => exact .inl rfl
    | link => exact .inr (.inl rfl)
    | directory => exact absurd hk (hkind hscope)

/-- **The builder writes the container again.** -/
theorem Scanned.encode (h : Scanned tables hash .v2 bytes start lines scan) {manifest : List UInt8}
    {base guest : Text} (hascii : ∀ b ∈ manifest, b.toNat < 128)
    (htext : asciiString manifest = List.intercalate ['\n'] ([Format.v2.text,
      "base\t".toList ++ base, "guest\t".toList ++ guest, "gpu\t".toList ++ gpuSha] ++ lines) ++
      ['\n'])
    (hframing : bytes = asciiEncode Format.v2.magic ++ pack manifest.length ++ manifest ++
      ((all scan.entries).filter Entry.isPayload).flatMap (Entry.slice bytes))
    (hsmall : manifest.length ≤ 512 * 1024) (hbound : bytes.length ≤ maxBytes)
    {records : Dict Text Record} {payload : Dict Text (List UInt8)}
    (hrecords : records.Perm ((all scan.entries).map fun entry => (entry.path, entry.record)))
    (hpayload : payload.Perm (((all scan.entries).filter Entry.isPayload).map
      fun entry => (entry.path, entry.slice bytes))) :
    encode records payload base guest gpuSha = .ok (bytes, manifest) := by
  have hsorted := h.sorted
  have hitems := sortedItems_of_perm hrecords (pairwise_map.mpr hsorted)
  have hcontents := sortedItems_of_perm hpayload
    (pairwise_map.mpr (hsorted.sublist filter_sublist))
  have hmanifest : manifestText records base guest gpuSha = asciiString manifest := by
    unfold manifestText
    rw [hitems, ← h.recordLines, htext]
  have hback : asciiEncode (asciiString manifest) = manifest :=
    asciiEncode_of_asciiString (asciiString_lt hascii)
  have hall : (asciiString manifest).all (fun c => decide (c.toNat < 128)) = true :=
    all_eq_true.mpr fun c hc => decide_eq_true (asciiString_lt hascii c hc)
  have hdata : asciiEncode Format.v2.magic ++ pack manifest.length ++ manifest ++
      (sortedItems payload).flatMap Prod.snd = bytes := by
    rw [hcontents, flatMap_map]
    exact hframing.symm
  simp only [Integration.encode, hmanifest, hall, hback, hdata, decide_eq_true hsmall,
    decide_eq_true hbound]
  rfl

/-- **An accepted container has its only form.** -/
theorem canonical_of_readBytes {trustedSha256 : Text} {bundle : Bundle}
    (hbound : bytes.length ≤ maxBytes) (h : readBytes tables hash bytes trustedSha256 = .ok bundle) :
    ∃ manifest, hash manifest = bundle.manifestSha256 ∧ Canonical tables hash bundle manifest := by
  unfold readBytes at h
  simp only [bind_eq_ok, pure_eq_ok, require_eq_ok, exists_unit, Bool.and_eq_true,
    decide_eq_true_eq] at h
  obtain ⟨format, hformat, length, hlength, ⟨hpos, hsmall⟩, htruncated, header, hheader, scan,
    hscan, hcheck, rfl⟩ := h
  obtain ⟨hascii, htext⟩ := readHeader_ok hheader
  have hscanned := Scanned.scanLines
    (scanned_nil (Format.v1.magic.length + 4 + length.toNat)) hscan
  obtain ⟨hfiles, hlinks, hoffset, hverified⟩ := checkScan_ok hcheck
  have hslices := hscanned.ranges.flatMap_slice hoffset
  have hframing := framing_of_read hformat hlength hpos htruncated
  rw [← hslices] at hframing
  refine ⟨_, rfl, ⟨hframing, ?_, hscanned.ranges.disjoint, fun entry hentry => ?_, hscanned.sorted,
    hscanned.canonical_files hfiles, hscanned.canonical_links hlinks, fun entry => hscanned.kinds,
    fun entry hentry hscope hroot => ?_, fun entry hentry hscope hlink => ?_,
    fun hformat2 records payload hrecords hpayload => ?_⟩⟩
  · rw [htruncated, magic_length, ← hoffset]
    exact hscanned.ranges
  · obtain ⟨hall, hpayload⟩ := mem_filter.mp hentry
    exact ((hscanned.admitted entry hall).payload hpayload).2.2
  · exact hscanned.exists_of_any ((hverified entry hentry hscope).1 hroot)
  · exact hscanned.exists_of_any ((hverified entry hentry hscope).2 hlink)
  · obtain rfl : format = .v2 := hformat2
    have hmanifest : (slice bytes (Format.v1.magic.length + 4) length.toNat).length ≤
        512 * 1024 := by
      omega
    exact hscanned.encode hascii htext hframing hmanifest hbound hrecords hpayload

end Accepted

/-- **What `read` accepts**: contents that follow one another and cover the bytes after the
manifest, with their hashes; sorted entries with the exact files and links; a directory around every
verified entry and a file behind every verified link; and in the second format the bytes that the
builder writes for what was read. -/
theorem read_canonical {input : List UInt8} {trustedSha256 : Text} {trustedBytes : Int}
    {bundle : Bundle} (h : read tables hash input trustedSha256 trustedBytes = .ok bundle) :
    ∃ manifest, hash manifest = bundle.manifestSha256 ∧ Canonical tables hash bundle manifest := by
  unfold read at h
  simp only [bind_eq_ok, require_eq_ok, exists_unit, Bool.and_eq_true, decide_eq_true_eq] at h
  obtain ⟨⟨⟨-, -⟩, hmax⟩, ⟨hlength, -⟩, hread⟩ := h
  refine canonical_of_readBytes ?_ hread
  omega

/-! ### A small container -/

def zeroHash : Text := List.replicate 64 '0'

/-- A release of two files, the first of which is its contract, and of a link to it. -/
def smallRelease : Release :=
  ⟨fun _ => [(['a'], 0o644), (['c'], 0o755)], [(['b'], ['a'])], fun _ => ['a'], fun _ => []⟩

def smallEntries : List Entry :=
  [⟨.installed, .file, 0o644, 1, zeroHash, ['a'], dash, 0⟩,
    ⟨.installed, .link, 0o777, 0, dash, ['b'], ['a'], 0⟩,
    ⟨.installed, .file, 0o755, 2, zeroHash, ['c'], dash, 0⟩,
    ⟨.verified, .directory, 0o755, 0, dash, xkb, dash, 0⟩,
    ⟨.verified, .directory, 0o755, 0, dash, xkb ++ "/rules".toList, dash, 0⟩,
    ⟨.verified, .file, 0o644, 7, zeroHash, xkb ++ "/rules/base".toList, dash, 0⟩,
    ⟨.verified, .file, 0o644, 0, zeroHash, xkb ++ "/rules/evdev".toList, dash, 0⟩]

def smallManifest : List UInt8 :=
  asciiEncode (List.intercalate ['\n'] ([Format.v2.text, "base\t".toList ++ zeroHash,
    "guest\t".toList ++ zeroHash, "gpu\t".toList ++ gpuSha] ++
    smallEntries.map fun entry => recordLine entry.path entry.record) ++ ['\n'])

def smallContainer : List UInt8 :=
  asciiEncode Format.v2.magic ++ pack smallManifest.length ++ smallManifest ++ [7, 8, 9]

theorem read_canonical_small :
    ∃ bundle, read smallRelease (fun _ => zeroHash) smallContainer zeroHash
      smallContainer.length = .ok bundle ∧
      bundle.payloads.map (Entry.slice bundle.bytes) = [[7], [8, 9]] ∧
      ∃ manifest, Canonical smallRelease (fun _ => zeroHash) bundle manifest := by
  have hok : (read smallRelease (fun _ => zeroHash) smallContainer zeroHash
      smallContainer.length >>= fun bundle =>
        pure (bundle.payloads.map (Entry.slice bundle.bytes))) = .ok [[7], [8, 9]] := by
    decide +kernel
  obtain ⟨bundle, hread, hpayloads⟩ := bind_eq_ok.mp hok
  obtain ⟨manifest, -, hcanonical⟩ := read_canonical hread
  exact ⟨bundle, hread, pure_eq_ok.mp hpayloads, manifest, hcanonical⟩

end FoldGPT.Install.Integration
