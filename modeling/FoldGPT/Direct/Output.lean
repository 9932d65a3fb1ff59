import FoldGPT.Direct.Supervisor

/-!
# The bytes of a stream

`pump` reads the output of the process into a buffer of 64 KiB and writes it out
again, both in parts, under one limit for both streams, and drops what is buffered
once the process is being stopped. The machine of the owner counts these bytes.
Here the buffer holds them: a stream is the `output_stream` of the source with its
memory, and with the bytes it has read, sent and dropped so far.
-/

namespace FoldGPT.Direct

open FoldGPT.Lib List Option

/-! ### The buffer -/

/-- The `count` bytes of a memory from `start` on. -/
def bytesAt (data : ℕ → UInt8) (start count : ℕ) : List UInt8 :=
  (List.range' start count).map data

/-- The memory with the bytes stored from `start` on. -/
def store (data : ℕ → UInt8) (start : ℕ) (bytes : List UInt8) (i : ℕ) : UInt8 :=
  if i < start then data i else bytes[i - start]?.getD (data i)

variable {data : ℕ → UInt8} {start count n : ℕ} {bytes : List UInt8}

@[simp] theorem length_bytesAt : (bytesAt data start count).length = count := by
  simp [bytesAt]

theorem bytesAt_add (data : ℕ → UInt8) (start m n : ℕ) :
    bytesAt data start (m + n) = bytesAt data start m ++ bytesAt data (start + m) n := by
  unfold bytesAt
  rw [← map_append, range'_append_1]

theorem bytesAt_store_before (h : start + count ≤ n) :
    bytesAt (store data n bytes) start count = bytesAt data start count := by
  refine map_congr_left fun i hi => ?_
  rw [mem_range'_1] at hi
  exact if_pos (by omega)

theorem bytesAt_store (data : ℕ → UInt8) (n : ℕ) (bytes : List UInt8) :
    bytesAt (store data n bytes) n bytes.length = bytes := by
  refine ext_getElem (by simp) fun i hi hi' => ?_
  simp only [bytesAt, getElem_map, getElem_range', store]
  rw [if_neg (by omega)]
  have hat : n + 1 * i - n = i := by omega
  rw [hat, List.getElem?_eq_getElem hi']
  rfl

/-! ### Pumping -/

/-- The number of bytes a `read` returned. -/
def Got.size : Got → ℕ
  | .bytes n => n
  | _ => 0

/-- The `output_stream` of the source, and the bytes read, sent and dropped so far. -/
structure OutputStream extends Stream where
  data : ℕ → UInt8 := fun _ => 0
  read : List UInt8 := []
  sent : List UInt8 := []
  dropped : List UInt8 := []

namespace OutputStream

/-- The bytes between `begin` and `end`. -/
def buffered (stream : OutputStream) : List UInt8 :=
  bytesAt stream.data stream.first (stream.last - stream.first)

/-- The first half of `pump`: `write(destination, data + begin, amount)`. -/
def forward (stream : OutputStream) (limit forwardedTotal : ℕ) (wrote : Wrote) :
    Option (OutputStream × ℕ × Bool) :=
  if stream.first < stream.last ∧ stream.broken = false then
    match wrote with
    | .bytes n =>
      if n ≤ allowance limit forwardedTotal (stream.last - stream.first) then
        some ({ stream with
          first := stream.first + n
          sentBytes := stream.sentBytes + n
          sent := stream.sent ++ bytesAt stream.data stream.first n }, forwardedTotal + n, true)
      else none
    | .retry => some (stream, forwardedTotal, true)
    | .failed => some ({ stream with broken := true }, forwardedTotal, false)
  else some (stream, forwardedTotal, true)

/-- The middle of `pump`: what is buffered is dropped when the process is being
stopped, and an empty buffer is used from its start again. -/
def settle (stream : OutputStream) (cancelling : Bool) : OutputStream :=
  if cancelling = true then { stream with
    first := 0, last := 0, dropped := stream.dropped ++ stream.buffered }
  else if stream.first = stream.last then { stream with first := 0, last := 0 }
  else stream

/-- The second half of `pump`: `read(fd, data + end, sizeof(data) - end)`. -/
def fill (stream : OutputStream) (got : Got) (bytes : List UInt8) : Option (OutputStream × Bool) :=
  if stream.eof = false ∧ stream.last < STREAM_BUFFER then
    match got with
    | .bytes n =>
      if (0 < n ∧ n ≤ STREAM_BUFFER - stream.last) ∧ bytes.length = n then
        some ({ stream with
          last := stream.last + n
          readBytes := stream.readBytes + n
          data := store stream.data stream.last bytes
          read := stream.read ++ bytes }, true)
      else none
    | .eof => some ({ stream with eof := true }, true)
    | .retry => some (stream, true)
    | .failed => some (stream, false)
  else some (stream, true)

/-- `pump`; `bytes` are those the `read` returned. -/
def pump (stream : OutputStream) (limit forwardedTotal : ℕ) (cancelling : Bool) (wrote : Wrote)
    (got : Got) (bytes : List UInt8) : Option (OutputStream × ℕ × Bool) :=
  match stream.forward limit forwardedTotal wrote with
  | none => none
  | some (stream, forwardedTotal, false) => some (stream, forwardedTotal, false)
  | some (stream, forwardedTotal, true) =>
    ((stream.settle cancelling).fill got bytes).map fun (stream, ok) => (stream, forwardedTotal, ok)

/-! ### The counters -/

variable {stream stream' : OutputStream} {cap total total' : ℕ} {cancelling ok : Bool}
  {wrote : Wrote} {got : Got}

/-- The counters after a part of `pump`. -/
def counts (result : OutputStream × ℕ × Bool) : Stream × ℕ × Bool :=
  (result.1.toStream, result.2.1, result.2.2)

theorem forward_counts (stream : OutputStream) (cap total : ℕ) (wrote : Wrote) :
    stream.toStream.forward cap total wrote = (stream.forward cap total wrote).map counts := by
  unfold Stream.forward OutputStream.forward
  by_cases hbuffer : stream.first < stream.last ∧ stream.broken = false
  · rw [if_pos hbuffer, if_pos hbuffer]
    cases wrote with
    | bytes n =>
      by_cases hn : n ≤ allowance cap total (stream.last - stream.first)
      · simp only [if_pos hn]
        rfl
      · simp only [if_neg hn]
        rfl
    | retry | failed => rfl
  · rw [if_neg hbuffer, if_neg hbuffer]
    rfl

theorem settle_counts (stream : OutputStream) (cancelling : Bool) :
    (stream.settle cancelling).toStream = stream.toStream.settle cancelling := by
  unfold Stream.settle OutputStream.settle
  by_cases hcancel : cancelling = true
  · rw [if_pos hcancel, if_pos (.inl hcancel)]
  · rw [if_neg hcancel]
    by_cases hempty : stream.first = stream.last
    · rw [if_pos hempty, if_pos (.inr hempty)]
    · rw [if_neg hempty, if_neg (not_or.mpr ⟨hcancel, hempty⟩)]

theorem fill_counts (h : stream.fill got bytes = some (stream', ok)) :
    stream.toStream.fill got = some (stream'.toStream, ok) := by
  unfold Stream.fill
  unfold OutputStream.fill at h
  by_cases hroom : stream.eof = false ∧ stream.last < STREAM_BUFFER
  · rw [if_pos hroom] at h ⊢
    cases got with
    | bytes n =>
      dsimp only at h ⊢
      by_cases hn : (0 < n ∧ n ≤ STREAM_BUFFER - stream.last) ∧ bytes.length = n
      · rw [if_pos hn] at h
        rw [if_pos hn.1]
        cases h
        rfl
      · rw [if_neg hn] at h
        cases h
    | eof | retry | failed =>
      cases h
      rfl
  · rw [if_neg hroom] at h ⊢
    cases h
    rfl

theorem pump_counts
    (h : stream.pump cap total cancelling wrote got bytes = some (stream', total', ok)) :
    stream.toStream.pump cap total cancelling wrote got = some (stream'.toStream, total', ok) := by
  unfold Stream.pump
  unfold OutputStream.pump at h
  rw [forward_counts]
  cases hforward : stream.forward cap total wrote with
  | none =>
    rw [hforward] at h
    cases h
  | some result =>
    rw [hforward] at h
    obtain ⟨forwarded, sum, onward⟩ := result
    cases onward with
    | false =>
      cases h
      rfl
    | true =>
      obtain ⟨⟨filled, done⟩, hfill, heq⟩ := map_eq_some_iff.mp h
      cases heq
      have hcounts := fill_counts hfill
      rw [settle_counts] at hcounts
      simp only [map_some, counts, hcounts]

theorem exists_fill {counted : Stream} (h : stream.toStream.fill got = some (counted, ok))
    (hbytes : bytes.length = got.size) :
    ∃ stream', stream.fill got bytes = some (stream', ok) ∧ stream'.toStream = counted := by
  unfold Stream.fill at h
  unfold OutputStream.fill
  by_cases hroom : stream.eof = false ∧ stream.last < STREAM_BUFFER
  · rw [if_pos hroom] at h
    simp only [if_pos hroom]
    cases got with
    | bytes n =>
      dsimp only at h ⊢
      by_cases hn : 0 < n ∧ n ≤ STREAM_BUFFER - stream.last
      · rw [if_pos hn] at h
        cases h
        exact ⟨_, if_pos ⟨hn, hbytes⟩, rfl⟩
      · rw [if_neg hn] at h
        cases h
    | eof | retry | failed =>
      cases h
      exact ⟨_, rfl, rfl⟩
  · rw [if_neg hroom] at h
    cases h
    exact ⟨_, if_neg hroom, rfl⟩

theorem exists_pump {counted : Stream} (h : stream.toStream.pump cap total cancelling wrote got =
    some (counted, total', ok)) (hbytes : bytes.length = got.size) : ∃ stream',
      stream.pump cap total cancelling wrote got bytes = some (stream', total', ok) ∧
        stream'.toStream = counted := by
  unfold Stream.pump at h
  unfold OutputStream.pump
  rw [forward_counts] at h
  cases hforward : stream.forward cap total wrote with
  | none =>
    rw [hforward] at h
    cases h
  | some result =>
    rw [hforward] at h
    obtain ⟨forwarded, sum, onward⟩ := result
    cases onward with
    | false =>
      cases h
      exact ⟨_, rfl, rfl⟩
    | true =>
      simp only [map_some, counts, ← settle_counts] at h
      obtain ⟨⟨filled, done⟩, hfill, heq⟩ := map_eq_some_iff.mp h
      cases heq
      obtain ⟨stream', hfill', hcounted⟩ := exists_fill hfill hbytes
      refine ⟨stream', ?_, hcounted⟩
      simp only [hfill', map_some]

/-! ### The accounting of one stream -/

/-- **The accounting of a stream.** -/
structure Balanced (stream : OutputStream) : Prop where
  buffer : stream.first ≤ stream.last
  readBytes : stream.readBytes = stream.read.length
  sentBytes : stream.sentBytes = stream.sent.length
  total : stream.read.length =
    stream.sent.length + stream.buffered.length + stream.dropped.length
  ordered : (stream.sent ++ stream.buffered).Sublist stream.read
  whole : stream.dropped = [] → stream.read = stream.sent ++ stream.buffered

theorem allowance_spec (cap total size : ℕ) :
    allowance cap total size ≤ size ∧
      (cap ≠ 0 → total ≤ cap → total + allowance cap total size ≤ cap) := by
  unfold allowance
  by_cases h : cap ≠ 0 ∧ cap - total < size
  · rw [if_pos h]
    exact ⟨by omega, fun _ hle => by omega⟩
  · rw [if_neg h]
    exact ⟨le_refl _, fun hcap hle => by omega⟩

/-- What one part of `pump` does to the sums of both streams. -/
structure Advances (cap total total' : ℕ) (stream stream' : OutputStream) : Prop where
  sum : total' + stream.sent.length = total + stream'.sent.length
  limit : cap ≠ 0 → total ≤ cap → total' ≤ cap
  kept : stream'.dropped = stream.dropped

theorem forward_spec (hb : stream.Balanced)
    (h : stream.forward cap total wrote = some (stream', total', ok)) :
    stream'.Balanced ∧ Advances cap total total' stream stream' := by
  unfold forward at h
  by_cases hbuffer : stream.first < stream.last ∧ stream.broken = false
  · rw [if_pos hbuffer] at h
    cases wrote with
    | bytes n =>
      dsimp only at h
      by_cases hn : n ≤ allowance cap total (stream.last - stream.first)
      · rw [if_pos hn] at h
        cases h
        obtain ⟨hsize, hlimit⟩ := allowance_spec cap total (stream.last - stream.first)
        -- the bytes written are the first of those buffered
        have hsplit : stream.buffered = bytesAt stream.data stream.first n ++
            bytesAt stream.data (stream.first + n) (stream.last - (stream.first + n)) := by
          unfold buffered
          rw [← bytesAt_add]
          congr 1
          omega
        have htotal := hb.total
        have hordered := hb.ordered
        have hwhole := hb.whole
        rw [hsplit] at htotal hordered hwhole
        rw [← append_assoc] at hordered hwhole
        refine ⟨⟨?_, hb.readBytes, ?_, ?_, hordered, hwhole⟩, ?_, ?_, rfl⟩
        · show stream.first + n ≤ stream.last
          omega
        · show stream.sentBytes + n = (stream.sent ++ bytesAt stream.data stream.first n).length
          rw [length_append, length_bytesAt, hb.sentBytes]
        · rw [length_append, ← Nat.add_assoc] at htotal
          rw [length_append]
          exact htotal
        · show total + n + stream.sent.length =
            total + (stream.sent ++ bytesAt stream.data stream.first n).length
          rw [length_append, length_bytesAt]
          omega
        · intro hcap hle
          omega
      · rw [if_neg hn] at h
        cases h
    | retry =>
      cases h
      exact ⟨hb, rfl, fun _ hle => hle, rfl⟩
    | failed =>
      cases h
      exact ⟨⟨hb.buffer, hb.readBytes, hb.sentBytes, hb.total, hb.ordered, hb.whole⟩, rfl,
        fun _ hle => hle, rfl⟩
  · rw [if_neg hbuffer] at h
    cases h
    exact ⟨hb, rfl, fun _ hle => hle, rfl⟩

theorem settle_spec (hb : stream.Balanced) (cancelling : Bool) :
    (stream.settle cancelling).Balanced ∧
      (stream.settle cancelling).sent = stream.sent ∧
      (cancelling = false → (stream.settle cancelling).dropped = stream.dropped) := by
  unfold settle
  by_cases hcancel : cancelling = true
  · rw [if_pos hcancel]
    refine ⟨⟨le_refl _, hb.readBytes, hb.sentBytes, ?_, ?_, ?_⟩, rfl, ?_⟩
    · show stream.read.length = stream.sent.length + 0 + (stream.dropped ++ stream.buffered).length
      rw [length_append, hb.total]
      omega
    · show (stream.sent ++ []).Sublist stream.read
      rw [append_nil]
      exact (sublist_append_left _ _).trans hb.ordered
    · intro hdropped
      obtain ⟨hbefore, hbuffered⟩ := append_eq_nil_iff.mp hdropped
      have hwhole := hb.whole hbefore
      rw [hbuffered] at hwhole
      exact hwhole
    · intro hkeep
      rw [hkeep] at hcancel
      exact absurd hcancel Bool.false_ne_true
  · rw [if_neg hcancel]
    by_cases hempty : stream.first = stream.last
    · rw [if_pos hempty]
      have hnone : stream.buffered = [] := by
        unfold buffered
        rw [hempty, Nat.sub_self]
        rfl
      have htotal := hb.total
      have hordered := hb.ordered
      have hwhole := hb.whole
      rw [hnone] at htotal hordered hwhole
      exact ⟨⟨le_refl _, hb.readBytes, hb.sentBytes, htotal, hordered, hwhole⟩, rfl, fun _ => rfl⟩
    · rw [if_neg hempty]
      exact ⟨hb, rfl, fun _ => rfl⟩

theorem fill_spec (hb : stream.Balanced) (h : stream.fill got bytes = some (stream', ok)) :
    stream'.Balanced ∧ stream'.sent = stream.sent ∧ stream'.dropped = stream.dropped := by
  unfold fill at h
  by_cases hroom : stream.eof = false ∧ stream.last < STREAM_BUFFER
  · rw [if_pos hroom] at h
    cases got with
    | bytes n =>
      dsimp only at h
      by_cases hn : (0 < n ∧ n ≤ STREAM_BUFFER - stream.last) ∧ bytes.length = n
      · rw [if_pos hn] at h
        cases h
        obtain ⟨-, rfl⟩ := hn
        -- what is read stands behind what was buffered
        have hbuffered : bytesAt (store stream.data stream.last bytes) stream.first
            (stream.last + bytes.length - stream.first) = stream.buffered ++ bytes := by
          have hbuffer := hb.buffer
          have hsize : stream.last + bytes.length - stream.first =
              (stream.last - stream.first) + bytes.length := by omega
          have hlast : stream.first + (stream.last - stream.first) = stream.last := by omega
          rw [hsize, bytesAt_add, hlast, bytesAt_store, bytesAt_store_before (by omega)]
          rfl
        refine ⟨⟨?_, ?_, hb.sentBytes, ?_, ?_, ?_⟩, rfl, rfl⟩
        · exact Nat.le_trans hb.buffer (Nat.le_add_right _ _)
        · show stream.readBytes + bytes.length = (stream.read ++ bytes).length
          rw [length_append, hb.readBytes]
        · unfold buffered
          rw [hbuffered]
          show (stream.read ++ bytes).length =
            stream.sent.length + (stream.buffered ++ bytes).length + stream.dropped.length
          rw [length_append, length_append, hb.total]
          omega
        · unfold buffered
          rw [hbuffered, ← append_assoc]
          exact hb.ordered.append_right bytes
        · intro hdropped
          unfold buffered
          rw [hbuffered, ← append_assoc]
          exact congrArg (· ++ bytes) (hb.whole hdropped)
      · rw [if_neg hn] at h
        cases h
    | eof =>
      cases h
      exact ⟨⟨hb.buffer, hb.readBytes, hb.sentBytes, hb.total, hb.ordered, hb.whole⟩, rfl, rfl⟩
    | retry | failed =>
      cases h
      exact ⟨hb, rfl, rfl⟩
  · rw [if_neg hroom] at h
    cases h
    exact ⟨hb, rfl, rfl⟩

/-- **`pump` keeps the accounting of its stream**, moves the sum of both by what it
sends, within the limit, and drops nothing unless the process is being stopped. -/
theorem pump_spec (hb : stream.Balanced)
    (h : stream.pump cap total cancelling wrote got bytes = some (stream', total', ok)) :
    stream'.Balanced ∧ total' + stream.sent.length = total + stream'.sent.length ∧
      (cap ≠ 0 → total ≤ cap → total' ≤ cap) ∧
      (cancelling = false → stream'.dropped = stream.dropped) := by
  unfold pump at h
  cases hforward : stream.forward cap total wrote with
  | none =>
    rw [hforward] at h
    cases h
  | some result =>
    rw [hforward] at h
    obtain ⟨forwarded, sum, onward⟩ := result
    obtain ⟨hb₁, hadvances⟩ := forward_spec hb hforward
    cases onward with
    | false =>
      cases h
      exact ⟨hb₁, hadvances.sum, hadvances.limit, fun _ => hadvances.kept⟩
    | true =>
      obtain ⟨⟨filled, done⟩, hfill, heq⟩ := map_eq_some_iff.mp h
      cases heq
      obtain ⟨hb₂, hsent₂, hkept₂⟩ := settle_spec hb₁ cancelling
      obtain ⟨hb₃, hsent₃, hkept₃⟩ := fill_spec hb₂ hfill
      refine ⟨hb₃, ?_, hadvances.limit, ?_⟩
      · rw [hsent₃, hsent₂]
        exact hadvances.sum
      · intro hkeep
        rw [hkept₃, hkept₂ hkeep, hadvances.kept]

theorem Balanced.sum (hb : stream.Balanced) :
    stream.readBytes = stream.sentBytes + (stream.last - stream.first) + stream.dropped.length := by
  rw [hb.readBytes, hb.sentBytes, hb.total, buffered, length_bytesAt]

theorem balanced_init : ({} : OutputStream).Balanced where
  buffer := le_refl _
  readBytes := rfl
  sentBytes := rfl
  total := rfl
  ordered := List.Sublist.refl _
  whole := fun _ => rfl

end OutputStream

end FoldGPT.Direct
