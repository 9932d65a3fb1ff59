import Mathlib.Data.List.Basic

/-!
# UTF-8, hexadecimal and percent encoding

Texts are lists of characters and bytes lists of `UInt8`. The encoders and
decoders are those of Python: strict `str.encode`/`bytes.decode`, `bytes.hex`
and `bytes.fromhex`, and `quote`, `unquote_to_bytes` and `unquote` of `urllib.parse`.

* `utf8Decode_utf8Encode`, `utf8Encode_of_utf8Decode`: strict UTF-8 decoding is
  the inverse of encoding, and `splitOn_utf8Encode`: an ASCII separator splits
  the bytes where it splits the text.
* `fromHex_toHex`: what was written in hexadecimal is read back.
* `unquoteToBytes_quoteWith`: quoting is undone by unquoting, and `quoteWith_uriChar`:
  a quoted text has percent signs and the kept characters only.
-/

namespace FoldGPT.Lib.Encoding

open List

/-! ### UTF-8 -/

def utf8Encode (text : List Char) : List UInt8 := text.flatMap String.utf8EncodeChar

/-- Strict decoding: no overlong forms, no surrogates, nothing beyond U+10FFFF. -/
def utf8Decode (bytes : List UInt8) : Option (List Char) :=
  bytes.toByteArray.utf8Decode?.map Array.toList

@[simp] theorem utf8Encode_nil : utf8Encode [] = [] := rfl

@[simp] theorem utf8Encode_cons (c : Char) (text : List Char) :
    utf8Encode (c :: text) = String.utf8EncodeChar c ++ utf8Encode text := rfl

@[simp] theorem utf8Encode_append (s t : List Char) :
    utf8Encode (s ++ t) = utf8Encode s ++ utf8Encode t := by simp [utf8Encode]

theorem utf8Decode_utf8Encode (text : List Char) : utf8Decode (utf8Encode text) = some text := by
  have h : (utf8Encode text).toByteArray = text.utf8Encode := rfl
  rw [utf8Decode, h, List.utf8Decode?_utf8Encode]
  rfl

theorem utf8Encode_injective {a b : List Char} (h : utf8Encode a = utf8Encode b) : a = b :=
  Option.some.inj ((utf8Decode_utf8Encode a).symm.trans
    ((congrArg utf8Decode h).trans (utf8Decode_utf8Encode b)))

variable {text : List Char}

theorem utf8Encode_of_utf8Decode {bytes : List UInt8}
    (h : utf8Decode bytes = some text) : utf8Encode text = bytes := by
  obtain ⟨chars, hchars, rfl⟩ := Option.map_eq_some_iff.mp h
  have hsome : bytes.toByteArray.utf8Decode?.isSome := by rw [hchars]; rfl
  have henc := ByteArray.utf8Encode_get_utf8Decode? (b := bytes.toByteArray) (h := hsome)
  simp only [hchars, Option.get_some] at henc
  have hdata := congrArg (fun b => b.data.toList) henc
  simpa [List.utf8Encode, utf8Encode] using hdata

variable {a : Char}

/-- A byte below 128 stands for itself only. -/
theorem mem_utf8EncodeChar {c : Char} (ha : a.toNat < 128) :
    UInt8.ofNat a.toNat ∈ String.utf8EncodeChar c ↔ c = a := by
  have hbyte : ∀ n : Nat, n < 256 → (UInt8.ofNat a.toNat = UInt8.ofNat n ↔ a.toNat = n) := by
    intro n hn
    rw [← UInt8.toNat_inj, UInt8.toNat_ofNat', UInt8.toNat_ofNat', Nat.mod_eq_of_lt hn,
      Nat.mod_eq_of_lt (by omega)]
  have hval : c = a ↔ a.toNat = c.val.toNat := by
    rw [← Char.toNat_inj]
    exact eq_comm
  rw [hval, String.utf8EncodeChar]
  split_ifs <;>
    simp (disch := omega) only [mem_cons, not_mem_nil, or_false, hbyte] <;> omega

theorem mem_utf8Encode (ha : a.toNat < 128) : UInt8.ofNat a.toNat ∈ utf8Encode text ↔ a ∈ text := by
  simp [utf8Encode, mem_utf8EncodeChar ha]

theorem utf8EncodeChar_ascii (ha : a.toNat < 128) :
    String.utf8EncodeChar a = [UInt8.ofNat a.toNat] := by
  have hle : a.val.toNat ≤ 127 := Nat.le_of_lt_succ ha
  rw [String.utf8EncodeChar, if_pos hle]
  rfl

theorem utf8Encode_ascii (h : ∀ c ∈ text, c.toNat < 128) :
    utf8Encode text = text.map fun c => UInt8.ofNat c.toNat := by
  induction text with
  | nil => rfl
  | cons c text ih =>
    rw [utf8Encode_cons, utf8EncodeChar_ascii (h c mem_cons_self),
      ih fun c' hc' => h c' (mem_cons_of_mem c hc')]
    rfl

variable {α : Type}

theorem splitOn_append_of_not_mem [BEq α] [LawfulBEq α] {x : α} {xs : List α} (h : x ∉ xs)
    (ys : List α) : (xs ++ ys).splitOn x = (ys.splitOn x).modifyHead (xs ++ ·) := by
  induction xs with
  | nil => cases hy : ys.splitOn x <;> simp [hy]
  | cons z xs ih =>
    have hz : (z == x) = false := beq_false_of_ne fun hz => h (hz ▸ mem_cons_self)
    have hxs : x ∉ xs := fun hx => h (mem_cons_of_mem z hx)
    rw [cons_append, splitOn_cons_eq_if_modifyHead, hz, ih hxs]
    cases hy : ys.splitOn x <;> simp

theorem mem_of_mem_splitOn [BEq α] [LawfulBEq α] {x y : α} {text piece : List α}
    (hpiece : piece ∈ text.splitOn x) (hy : y ∈ piece) : y ∈ text := by
  induction text generalizing piece with
  | nil => simp_all
  | cons z text ih =>
    rw [splitOn_cons_eq_if_modifyHead] at hpiece
    split at hpiece
    · rcases mem_cons.mp hpiece with rfl | hpiece
      · cases hy
      · exact mem_cons_of_mem z (ih hpiece hy)
    · cases hsplit : text.splitOn x with
      | nil => exact absurd hsplit (splitOn_ne_nil x text)
      | cons first pieces =>
        rw [hsplit] at hpiece ih
        rcases mem_cons.mp hpiece with rfl | hpiece
        · rcases mem_cons.mp hy with rfl | hy
          · exact mem_cons_self
          · exact mem_cons_of_mem z (ih mem_cons_self hy)
        · exact mem_cons_of_mem z (ih (mem_cons_of_mem first hpiece) hy)

theorem not_mem_of_mem_splitOn [BEq α] [LawfulBEq α] {x : α} {text piece : List α}
    (hpiece : piece ∈ text.splitOn x) : x ∉ piece := by
  induction text generalizing piece with
  | nil => simp_all
  | cons z text ih =>
    rw [splitOn_cons_eq_if_modifyHead] at hpiece
    split at hpiece
    · rcases mem_cons.mp hpiece with rfl | hpiece
      · exact not_mem_nil
      · exact ih hpiece
    next hz =>
      cases hsplit : text.splitOn x with
      | nil => exact absurd hsplit (splitOn_ne_nil x text)
      | cons first pieces =>
        rw [hsplit] at hpiece ih
        rcases mem_cons.mp hpiece with rfl | hpiece
        · intro hx
          rcases mem_cons.mp hx with rfl | hx
          · exact hz (beq_self_eq_true _)
          · exact ih mem_cons_self hx
        · exact ih (mem_cons_of_mem first hpiece)

theorem mem_intercalate {x : α} {sep : List α} {pieces : List (List α)}
    (h : x ∈ sep.intercalate pieces) : x ∈ sep ∨ ∃ piece ∈ pieces, x ∈ piece := by
  induction pieces with
  | nil => simp at h
  | cons piece pieces ih =>
    cases pieces with
    | nil => exact .inr ⟨piece, mem_singleton_self piece, by simpa using h⟩
    | cons next pieces =>
      rw [intercalate_cons_cons] at h
      simp only [mem_append] at h
      rcases h with (h | h) | h
      · exact .inr ⟨piece, mem_cons_self, h⟩
      · exact .inl h
      · rcases ih h with h | ⟨found, hfound, h⟩
        · exact .inl h
        · exact .inr ⟨found, mem_cons_of_mem piece hfound, h⟩

theorem splitOn_utf8Encode (ha : a.toNat < 128) (text : List Char) :
    (utf8Encode text).splitOn (UInt8.ofNat a.toNat) = (text.splitOn a).map utf8Encode := by
  induction text with
  | nil => simp
  | cons c text ih =>
    rw [utf8Encode_cons, splitOn_cons_eq_if_modifyHead]
    by_cases hc : c = a
    · subst hc
      rw [utf8EncodeChar_ascii ha, singleton_append, splitOn_cons_eq_if_modifyHead, ih]
      simp
    · rw [splitOn_append_of_not_mem (fun h => hc ((mem_utf8EncodeChar ha).mp h)), ih,
        if_neg (by simpa using hc)]
      cases hy : text.splitOn a <;> simp

/-! ### Hexadecimal -/

/-- The value of a hexadecimal digit, of either case. -/
def hexValue (c : Char) : Option Nat :=
  let k := c.toNat
  if 48 ≤ k ∧ k ≤ 57 then some (k - 48)
  else if 97 ≤ k ∧ k ≤ 102 then some (k - 87)
  else if 65 ≤ k ∧ k ≤ 70 then some (k - 55) else none

def lowerDigit (n : Nat) : Char := if n < 10 then Char.ofNat (n + 48) else Char.ofNat (n + 87)

def upperDigit (n : Nat) : Char := if n < 10 then Char.ofNat (n + 48) else Char.ofNat (n + 55)

/-- The byte of two digits. -/
def hexByte (high low : Char) : Option UInt8 :=
  match hexValue high, hexValue low with
  | some h, some l => some (UInt8.ofNat (16 * h + l))
  | _, _ => none

/-- `bytes.hex()`. -/
def toHex (bytes : List UInt8) : List Char :=
  bytes.flatMap fun b => [lowerDigit (b.toNat / 16), lowerDigit (b.toNat % 16)]

/-- The white space `bytes.fromhex` skips between bytes. -/
def isHexSpace (c : Char) : Bool := decide (c.toNat = 32 ∨ 9 ≤ c.toNat ∧ c.toNat ≤ 13)

/-- `bytes.fromhex(text)`; `none` is its `ValueError`. -/
def fromHex : List Char → Option (List UInt8)
  | [] => some []
  | [c] => if isHexSpace c then some [] else none
  | high :: low :: rest =>
    if isHexSpace high then fromHex (low :: rest)
    else match hexByte high low with
      | some b => (fromHex rest).map (b :: ·)
      | none => none

theorem lowerDigit_spec {n : Nat} (h : n < 16) :
    hexValue (lowerDigit n) = some n ∧ isHexSpace (lowerDigit n) = false := by
  have key : ∀ k : Fin 16, hexValue (lowerDigit k) = some k.val ∧
      isHexSpace (lowerDigit k) = false := by decide +kernel
  exact key ⟨n, h⟩

theorem upperDigit_spec {n : Nat} (h : n < 16) :
    hexValue (upperDigit n) = some n ∧ upperDigit n ≠ '%' := by
  have key : ∀ k : Fin 16, hexValue (upperDigit k) = some k.val ∧ upperDigit k ≠ '%' := by
    decide +kernel
  exact key ⟨n, h⟩

variable {b : UInt8}

/-- The two digits of a byte, whichever way they are written, give the byte. -/
theorem hexByte_of_digits {high low : Char} (hhigh : hexValue high = some (b.toNat / 16))
    (hlow : hexValue low = some (b.toNat % 16)) : hexByte high low = some b := by
  simp only [hexByte, hhigh, hlow, Nat.div_add_mod, UInt8.ofNat_toNat]

/-- **What was written in hexadecimal is read back.** -/
theorem fromHex_toHex (bytes : List UInt8) : fromHex (toHex bytes) = some bytes := by
  induction bytes with
  | nil => rfl
  | cons b bytes ih =>
    have hb : b.toNat < 256 := UInt8.toNat_lt_size b
    have hhigh := lowerDigit_spec (n := b.toNat / 16) (by omega)
    have hlow := lowerDigit_spec (n := b.toNat % 16) (by omega)
    show fromHex (lowerDigit (b.toNat / 16) :: lowerDigit (b.toNat % 16) :: toHex bytes) = _
    rw [fromHex, hhigh.2, hexByte_of_digits hhigh.1 hlow.1, ih]
    rfl

/-! ### Percent encoding -/

/-- The bytes `quote` never encodes: letters, digits and `_.-~`. -/
def isUnreserved (b : UInt8) : Bool :=
  let k := b.toNat
  decide (48 ≤ k ∧ k ≤ 57 ∨ 65 ≤ k ∧ k ≤ 90 ∨ 97 ≤ k ∧ k ≤ 122 ∨
    k = 95 ∨ k = 46 ∨ k = 45 ∨ k = 126)

/-- The characters `quote` is asked to keep besides: ASCII, and not the percent sign. -/
structure SafeSet where
  mem : UInt8 → Bool
  ascii : ∀ b, mem b = true → b.toNat < 128
  percent : mem 37 = false

/-- `safe=""`. -/
def SafeSet.empty : SafeSet := ⟨fun _ => false, nofun, rfl⟩

/-- The bytes that stay as they are. -/
def SafeSet.keeps (safe : SafeSet) (b : UInt8) : Bool := isUnreserved b || safe.mem b

def quoteByteWith (safe : SafeSet) (b : UInt8) : List Char :=
  if safe.keeps b then [Char.ofNat b.toNat]
  else ['%', upperDigit (b.toNat / 16), upperDigit (b.toNat % 16)]

/-- `quote(text, safe=safe)`. -/
def quoteWith (safe : SafeSet) (text : List Char) : List Char :=
  (utf8Encode text).flatMap (quoteByteWith safe)

/-- `quote(text, safe="")`. -/
def quote (text : List Char) : List Char := quoteWith .empty text

/-- `unquote_to_bytes(text)`: a percent sign that no two digits follow stays. -/
def unquoteToBytes : List Char → List UInt8
  | [] => []
  | a :: b :: c :: rest =>
    if a = '%' then
      match hexByte b c with
      | some byte => byte :: unquoteToBytes rest
      | none => String.utf8EncodeChar a ++ unquoteToBytes (b :: c :: rest)
    else String.utf8EncodeChar a ++ unquoteToBytes (b :: c :: rest)
  | a :: rest => String.utf8EncodeChar a ++ unquoteToBytes rest

/-- The runs of ASCII characters are unquoted and decoded one by one; the first argument is
the run so far, reversed. -/
def unquoteRuns : List Char → List Char → Option (List Char)
  | run, [] => utf8Decode (unquoteToBytes run.reverse)
  | run, c :: rest =>
    if c.toNat < 128 then unquoteRuns (c :: run) rest
    else do
      let decoded ← utf8Decode (unquoteToBytes run.reverse)
      let others ← unquoteRuns [] rest
      some (decoded ++ c :: others)

/-- `unquote(text, errors="strict")`; `none` is its `UnicodeDecodeError`. -/
def unquote (text : List Char) : Option (List Char) :=
  if '%' ∈ text then unquoteRuns [] text else some text

/-- Whether some percent sign is not followed by two digits. -/
def malformedPercent : List Char → Bool
  | [] => false
  | c :: rest =>
    (c = '%' && !(2 ≤ rest.length && (rest.take 2).all fun d => (hexValue d).isSome)) ||
      malformedPercent rest

/-- What a quoted text consists of. -/
def SafeSet.uriChar (safe : SafeSet) (c : Char) : Bool :=
  c = '%' || (c.toNat < 128 && safe.keeps (UInt8.ofNat c.toNat))

theorem unquoteToBytes_cons_of_ne (h : a ≠ '%') (rest : List Char) :
    unquoteToBytes (a :: rest) = String.utf8EncodeChar a ++ unquoteToBytes rest := by
  match rest with
  | [] => rfl
  | [_] => rfl
  | _ :: _ :: _ => rw [unquoteToBytes, if_neg h]

theorem malformedPercent_cons_of_ne (h : a ≠ '%') (rest : List Char) :
    malformedPercent (a :: rest) = malformedPercent rest := by
  simp [malformedPercent, h]

theorem isUnreserved_ascii (h : isUnreserved b) : b.toNat < 128 ∧ b.toNat ≠ 37 := by
  simp only [isUnreserved, decide_eq_true_eq] at h
  omega

variable {safe : SafeSet}

theorem keeps_ascii (h : safe.keeps b) : b.toNat < 128 ∧ b.toNat ≠ 37 := by
  rcases (Bool.or_eq_true _ _).mp h with h | h
  · exact isUnreserved_ascii h
  · refine ⟨safe.ascii b h, fun hb => ?_⟩
    have hpercent : b = 37 := UInt8.toNat_inj.mp hb
    rw [hpercent, safe.percent] at h
    cases h

theorem keeps_spec (h : safe.keeps b) :
    String.utf8EncodeChar (Char.ofNat b.toNat) = [b] ∧ Char.ofNat b.toNat ≠ '%' ∧
      safe.uriChar (Char.ofNat b.toNat) := by
  obtain ⟨hlt, hne⟩ := keeps_ascii h
  have key : ∀ k : Fin 128, (Char.ofNat k).toNat = k.val := by decide +kernel
  have hchar : (Char.ofNat b.toNat).toNat = b.toNat := key ⟨b.toNat, hlt⟩
  refine ⟨?_, fun hc => ?_, ?_⟩
  · rw [utf8EncodeChar_ascii (by omega), hchar, UInt8.ofNat_toNat]
  · rw [hc] at hchar
    exact hne hchar.symm
  · rw [SafeSet.uriChar, hchar, UInt8.ofNat_toNat, decide_eq_true hlt, h]
    simp

theorem upperDigit_uriChar {n : Nat} (h : n < 16) : safe.uriChar (upperDigit n) := by
  have key : ∀ k : Fin 16, (upperDigit k).toNat < 128 ∧
      isUnreserved (UInt8.ofNat (upperDigit k).toNat) := by decide +kernel
  obtain ⟨hlt, hu⟩ := key ⟨n, h⟩
  simp only at hlt hu
  simp [SafeSet.uriChar, SafeSet.keeps, hlt, hu]

theorem unquoteToBytes_quoteByteWith (b : UInt8) (rest : List Char) :
    unquoteToBytes (quoteByteWith safe b ++ rest) = b :: unquoteToBytes rest := by
  have hb : b.toNat < 256 := UInt8.toNat_lt_size b
  rw [quoteByteWith]
  split
  next h =>
    obtain ⟨henc, hne, -⟩ := keeps_spec h
    rw [singleton_append, unquoteToBytes_cons_of_ne hne, henc]
    rfl
  next =>
    have hhigh := (upperDigit_spec (n := b.toNat / 16) (by omega)).1
    have hlow := (upperDigit_spec (n := b.toNat % 16) (by omega)).1
    simp only [cons_append, nil_append]
    rw [unquoteToBytes, if_pos rfl, hexByte_of_digits hhigh hlow]

theorem unquoteToBytes_flatMap (bytes : List UInt8) (rest : List Char) :
    unquoteToBytes (bytes.flatMap (quoteByteWith safe) ++ rest) = bytes ++ unquoteToBytes rest := by
  induction bytes with
  | nil => rfl
  | cons b bytes ih =>
    rw [flatMap_cons, append_assoc, unquoteToBytes_quoteByteWith, ih, cons_append]

theorem unquoteToBytes_quoteWith (text : List Char) :
    unquoteToBytes (quoteWith safe text) = utf8Encode text := by
  have h := @unquoteToBytes_flatMap safe (utf8Encode text) []
  rwa [append_nil, unquoteToBytes, append_nil] at h

theorem unquoteToBytes_joined (parts : List (List Char)) :
    unquoteToBytes (['/'].intercalate (parts.map (quoteWith safe))) =
      utf8Encode (['/'].intercalate parts) := by
  induction parts with
  | nil => rfl
  | cons part parts ih =>
    cases parts with
    | nil => simpa using unquoteToBytes_quoteWith part
    | cons next parts =>
      simp only [map_cons, intercalate_cons_cons, append_assoc] at ih ⊢
      rw [quoteWith, unquoteToBytes_flatMap, singleton_append,
        unquoteToBytes_cons_of_ne (by decide), ih, utf8Encode_append, singleton_append,
        utf8Encode_cons]

theorem malformedPercent_quoteByteWith (b : UInt8) (rest : List Char) :
    malformedPercent (quoteByteWith safe b ++ rest) = malformedPercent rest := by
  have hb : b.toNat < 256 := UInt8.toNat_lt_size b
  rw [quoteByteWith]
  split
  next h => exact malformedPercent_cons_of_ne (keeps_spec h).2.1 rest
  next =>
    have hhigh := upperDigit_spec (n := b.toNat / 16) (by omega)
    have hlow := upperDigit_spec (n := b.toNat % 16) (by omega)
    simp only [cons_append, nil_append]
    rw [malformedPercent, malformedPercent_cons_of_ne hhigh.2, malformedPercent_cons_of_ne hlow.2]
    simp [hhigh.1, hlow.1]

theorem malformedPercent_quoteWith (text rest : List Char) :
    malformedPercent (quoteWith safe text ++ rest) = malformedPercent rest := by
  have h : ∀ bytes : List UInt8, malformedPercent (bytes.flatMap (quoteByteWith safe) ++ rest) =
      malformedPercent rest := by
    intro bytes
    induction bytes with
    | nil => rfl
    | cons b bytes ih =>
      rw [flatMap_cons, append_assoc, malformedPercent_quoteByteWith, ih]
  exact h _

/-- **A quoted text has percent signs and kept characters only.** -/
theorem quoteWith_uriChar {c : Char} (h : c ∈ quoteWith safe text) : safe.uriChar c := by
  obtain ⟨b, -, hc⟩ := mem_flatMap.mp h
  have hb : b.toNat < 256 := UInt8.toNat_lt_size b
  rw [quoteByteWith] at hc
  split at hc
  next hu => exact mem_singleton.mp hc ▸ (keeps_spec hu).2.2
  next =>
    simp only [mem_cons, not_mem_nil, or_false] at hc
    rcases hc with rfl | rfl | rfl
    · rfl
    · exact upperDigit_uriChar (by omega)
    · exact upperDigit_uriChar (by omega)

theorem quoteWith_ne_nil (h : text ≠ []) : quoteWith safe text ≠ [] := by
  intro hq
  have hbytes := @unquoteToBytes_quoteWith safe text
  rw [hq] at hbytes
  obtain ⟨c, rest, rfl⟩ := exists_cons_of_ne_nil h
  have hnil : String.utf8EncodeChar c ++ utf8Encode rest = [] := hbytes.symm
  exact String.utf8EncodeChar_ne_nil (append_eq_nil_iff.mp hnil).1

theorem unquoteToBytes_of_not_mem (h : '%' ∉ text) : unquoteToBytes text = utf8Encode text := by
  induction text with
  | nil => rfl
  | cons c text ih =>
    obtain ⟨hc, htext⟩ := not_or.mp (fun hmem => h (mem_cons.mpr hmem))
    rw [unquoteToBytes_cons_of_ne (Ne.symm hc), ih htext, utf8Encode_cons]

theorem unquoteRuns_ascii (h : ∀ c ∈ text, c.toNat < 128) (run : List Char) :
    unquoteRuns run text = utf8Decode (unquoteToBytes (run.reverse ++ text)) := by
  induction text generalizing run with
  | nil => rw [unquoteRuns, append_nil]
  | cons c text ih =>
    rw [unquoteRuns, if_pos (h c mem_cons_self),
      ih fun d hd => h d (mem_cons_of_mem c hd)]
    simp

theorem unquote_ascii (h : ∀ c ∈ text, c.toNat < 128) :
    unquote text = utf8Decode (unquoteToBytes text) := by
  rw [unquote]
  split
  · rw [unquoteRuns_ascii h, reverse_nil, nil_append]
  next hmem => rw [unquoteToBytes_of_not_mem hmem, utf8Decode_utf8Encode]

end FoldGPT.Lib.Encoding
