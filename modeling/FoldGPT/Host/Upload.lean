import FoldGPT.Host.Packet

/-!
# Uploads

After a write request the bytes come in frames. Version 1 collects them in a counted loop,
`_collect_write`; version 2 keeps an upload and takes each frame as it comes, between other
packets. Their checks differ in order and in kind: version 1 compares lengths before decoding,
version 2 decodes first and refuses an empty chunk.
-/

namespace FoldGPT.Host

open FoldGPT.Lib List

/-- A write request, its counts read. -/
structure WriteRequest where
  id : Nat
  path : String
  bytes : Nat
  chunks : Nat
  deriving DecidableEq

/-! ### Version 1 -/

/-- Why `_collect_write` has not returned: it waits for a packet, or it raised. -/
inductive Stop
  | waiting
  | violation (text : String)
  deriving DecidableEq

/-- `self._json(await self._receive())`. -/
def receive : List Packet → Except Stop (Members × List Packet)
  | [] => .error .waiting
  | .error text :: _ => .error (.violation text)
  | .ok packet :: rest => .ok (packet, rest)

/-- The checks of one round. -/
def collectChunk (request : WriteRequest) (data : Bytes) (index : Nat) (chunk : Members) :
    Except String Bytes := do
  require (hasKeys chunk ["type", "id", "index", "dataBase64"] &&
      decide ((chunk.read "type").asStr = some "chunk") &&
      decide ((chunk.read "id").asInt = some (request.id : Int)) &&
      decide ((chunk.read "index").asInt = some (index : Int)) &&
      (chunk.read "dataBase64").asStr.isSome)
    "Unexpected host write chunk shape or sequence"
  let encoded := ((chunk.read "dataBase64").asStr.getD "").toList
  let expected := min chunkBytes (request.bytes - data.length)
  require (decide (encoded.length = (expected + 2) / 3 * 4))
    "Write chunk length does not match announced bytes"
  match Base64.decode encoded with
  | none => .error "Write chunk is not valid base64"
  | some decoded =>
    require (decide (decoded.length = expected) && decide (Base64.encode decoded = encoded))
      "Write chunk is not the exact canonical payload"
    pure decoded

/-- The loop over the announced chunks. -/
def collectChunks (request : WriteRequest) :
    Nat → Nat → Bytes → List Packet → Except Stop (Bytes × List Packet)
  | 0, _, data, packets => .ok (data, packets)
  | left + 1, index, data, packets => do
    let (chunk, packets) ← receive packets
    let decoded ← (collectChunk request data index chunk).mapError .violation
    collectChunks request left (index + 1) (data ++ decoded) packets

/-- What comes behind the loop. -/
def collectCommit (request : WriteRequest) (data : Bytes) (packets : List Packet) :
    Except Stop (Bytes × List Packet) := do
  let (commit, packets) ← receive packets
  require (hasKeys commit ["type", "id"] &&
      decide ((commit.read "type").asStr = some "commit") &&
      decide ((commit.read "id").asInt = some (request.id : Int)) &&
      decide (data.length = request.bytes))
    (.violation "Write requires a complete payload and exact commit frame")
  pure (data, packets)

/-- `_collect_write` on the packets behind the request: the data, and what was not read. -/
def collectWrite (request : WriteRequest) (packets : List Packet) :
    Except Stop (Bytes × List Packet) := do
  let (data, packets) ← collectChunks request request.chunks 0 [] packets
  collectCommit request data packets

/-! ### Version 2 -/

/-- `self.upload`. -/
structure Upload where
  request : WriteRequest
  data : Bytes
  received : Nat
  deriving DecidableEq

/-- What a frame leads to. -/
inductive Progress
  | more (upload : Upload)
  | complete (request : WriteRequest) (data : Bytes)
  deriving DecidableEq

def Upload.chunk (upload : Upload) (packet : Members) : Except String Upload := do
  require (hasKeys packet ["type", "id", "index", "dataBase64"] &&
      decide ((packet.read "index").asInt = some (upload.received : Int)))
    "Invalid multiplexed file chunk sequence"
  let decoded ← decodeBytes (packet.read "dataBase64")
  require (decide (decoded ≠ []) &&
      decide (decoded.length = min chunkBytes (upload.request.bytes - upload.data.length)))
    "Upload chunk differs from exact announced size"
  pure { upload with data := upload.data ++ decoded, received := upload.received + 1 }

def Upload.commit (upload : Upload) (packet : Members) : Except String Progress := do
  require (hasKeys packet ["type", "id"] &&
      decide (upload.data.length = upload.request.bytes) &&
      decide (upload.received = upload.request.chunks))
    "Write commit lacks its complete bounded payload"
  pure (.complete upload.request upload.data)

/-- `packet.get("type") in ("chunk", "commit")`. -/
def isUploadFrame (packet : Members) : Bool :=
  (packet.read "type").asStr = some "chunk" || (packet.read "type").asStr = some "commit"

/-- The branch of `run` for the frames of an upload. -/
def uploadFrame (upload : Option Upload) (packet : Members) : Except String Progress :=
  match upload with
  | none => .error "Upload frame has no owned write request"
  | some upload => do
    require (decide ((packet.read "id").asInt = some (upload.request.id : Int)))
      "Upload frame has no owned write request"
    if (packet.read "type").asStr = some "chunk" then (upload.chunk packet).map .more
    else upload.commit packet

/-! ### The frames both take -/

/-- **Taking frames**, with this much data and so many chunks taken already. -/
inductive Feeds (request : WriteRequest) : Bytes → Nat → List Packet → Bytes → Prop
  | commit {data : Bytes} {packet : Packet} :
      frameOf packet = some (.commit request.id) → data.length = request.bytes →
      Feeds request data request.chunks [packet] data
  | chunk {data decoded out : Bytes} {index : Nat} {packet : Packet} {rest : List Packet} :
      frameOf packet = some (.chunk request.id index (Base64.encode decoded)) →
      decoded.length = min chunkBytes (request.bytes - data.length) → decoded ≠ [] →
      Feeds request (data ++ decoded) (index + 1) rest out →
      Feeds request data index (packet :: rest) out

/-- The data taken so far are so many full chunks, or all. -/
def Taken (request : WriteRequest) (data : Bytes) (index : Nat) : Prop :=
  data.length = min (index * chunkBytes) request.bytes

variable {index : Nat}

theorem lt_chunkCount {size : Nat} : index < chunkCount size ↔ index * chunkBytes < size := by
  simp only [chunkCount, chunkBytes]
  omega

variable {request : WriteRequest} {data decoded : Bytes}

theorem Taken.full
    (h : Taken request data index)
    (hlength : decoded.length = min chunkBytes (request.bytes - data.length))
    (hne : decoded ≠ []) : data.length = index * chunkBytes ∧ index * chunkBytes < request.bytes := by
  have hpositive := length_pos_iff.mpr hne
  simp only [Taken] at h
  omega

theorem Taken.next
    (h : Taken request data index)
    (hlength : decoded.length = min chunkBytes (request.bytes - data.length))
    (hne : decoded ≠ []) : Taken request (data ++ decoded) (index + 1) := by
  obtain ⟨hfull, hless⟩ := h.full hlength hne
  rw [Taken, length_append, Nat.succ_mul]
  omega

theorem piece_append {rest : Bytes} (hdata : data.length = index * chunkBytes)
    (hdecoded : decoded.length = chunkBytes ∨ decoded.length ≤ chunkBytes ∧ rest = []) :
    piece (data ++ decoded ++ rest) index = decoded := by
  rw [piece, ← hdata, append_assoc, drop_left]
  rcases hdecoded with hfull | ⟨hshort, rfl⟩
  · rw [← hfull, take_left]
  · rw [append_nil, take_of_length_le hshort]

theorem length_piece (data : Bytes) (index : Nat) :
    (piece data index).length = min chunkBytes (data.length - index * chunkBytes) := by
  rw [piece, length_take, length_drop]

/-- The frames that are still to come. -/
def framesFrom (request : WriteRequest) (index : Nat) (data : Bytes) : List Frame :=
  (List.range' index (request.chunks - index)).map (chunkFrame request.id data) ++
    [.commit request.id]

theorem framesFrom_of_lt (h : index < request.chunks) (data : Bytes) :
    framesFrom request index data =
      chunkFrame request.id data index :: framesFrom request (index + 1) data := by
  obtain ⟨left, hleft⟩ : ∃ left, request.chunks - index = left + 1 :=
    ⟨request.chunks - index - 1, by omega⟩
  have hnext : request.chunks - (index + 1) = left := by omega
  rw [framesFrom, framesFrom, hleft, hnext, range'_succ]
  rfl

theorem framesFrom_self (request : WriteRequest) (data : Bytes) :
    framesFrom request request.chunks data = [.commit request.id] := by
  rw [framesFrom, Nat.sub_self]
  rfl

variable {out : Bytes} {packets : List Packet}

theorem Feeds.frames (hcount : request.chunks = chunkCount request.bytes)
    (h : Feeds request data index packets out) (htaken : Taken request data index) :
    data <+: out ∧ out.length = request.bytes ∧
      packets.map frameOf = (framesFrom request index out).map some := by
  induction h with
  | commit hframe hlength =>
    rw [framesFrom_self]
    exact ⟨prefix_rfl, hlength, by simp [hframe]⟩
  | @chunk data decoded out index packet rest hframe hlength hne _ ih =>
    obtain ⟨hfull, hless⟩ := htaken.full hlength hne
    obtain ⟨⟨tail, htail⟩, hout, hframes⟩ := ih (htaken.next hlength hne)
    have hpiece : piece out index = decoded := by
      rw [← htail]
      refine piece_append hfull ?_
      -- a chunk that is not full is the last one
      rw [← htail, length_append, length_append] at hout
      by_cases hlast : decoded.length = chunkBytes
      · exact .inl hlast
      · exact .inr ⟨by omega, length_eq_zero_iff.mp (by omega)⟩
    have hindex : index < request.chunks := by
      rw [hcount]
      exact lt_chunkCount.mpr hless
    refine ⟨⟨decoded ++ tail, by rw [← append_assoc, htail]⟩, hout, ?_⟩
    rw [framesFrom_of_lt hindex, map_cons, map_cons, hframe, hframes, chunkFrame, hpiece]

theorem feeds_of_frames
    (hcount : request.chunks = chunkCount request.bytes)
    (hout : out.length = request.bytes) {left : Nat} (hindex : index + left = request.chunks)
    (htaken : Taken request data index) (hdata : data <+: out)
    (hframes : packets.map frameOf = (framesFrom request index out).map some) :
    Feeds request data index packets out := by
  induction left generalizing index data packets with
  | zero =>
    obtain rfl : index = request.chunks := by omega
    have hall : ¬ request.chunks * chunkBytes < request.bytes := fun hlt =>
      absurd (lt_chunkCount.mpr hlt) (by omega)
    have hlength : data.length = request.bytes := by
      rw [htaken]
      omega
    obtain rfl : data = out := hdata.eq_of_length (by omega)
    rw [framesFrom_self, map_singleton, map_eq_singleton_iff] at hframes
    obtain ⟨packet, rfl, hframe⟩ := hframes
    exact .commit hframe hlength
  | succ left ih =>
    have hless : index * chunkBytes < request.bytes :=
      lt_chunkCount.mp (by omega)
    have hfull : data.length = index * chunkBytes := by
      rw [htaken]
      omega
    rw [framesFrom_of_lt (by omega), map_cons, map_eq_cons_iff] at hframes
    obtain ⟨packet, rest, rfl, hframe, hrest⟩ := hframes
    have hlength : (piece out index).length = min chunkBytes (request.bytes - data.length) := by
      rw [length_piece, hout, hfull]
    have hne : piece out index ≠ [] := by
      intro hnil
      rw [hnil, length_nil, hfull] at hlength
      simp only [chunkBytes] at hlength hless
      omega
    have hfront : data ++ piece out index <+: out := by
      obtain ⟨tail, rfl⟩ := hdata
      rw [piece, ← hfull, drop_left]
      exact (prefix_append_right_inj data).mpr (List.take_prefix _ _)
    exact .chunk hframe hlength hne (ih (by omega) (htaken.next hlength hne) hfront hrest)

/-- **The frames that are taken** for a request are those of some data of the announced length. -/
theorem feeds_iff (hcount : request.chunks = chunkCount request.bytes) :
    Feeds request [] 0 packets out ↔ out.length = request.bytes ∧
      packets.map frameOf = (uploadFrames request.id out).map some := by
  have hstart : Taken request [] 0 := by simp [Taken]
  have hall : out.length = request.bytes → framesFrom request 0 out = uploadFrames request.id out := by
    intro hout
    rw [framesFrom, uploadFrames, hout, ← hcount, range_eq_range', Nat.sub_zero]
  constructor
  · intro h
    obtain ⟨-, hout, hframes⟩ := h.frames hcount hstart
    exact ⟨hout, by rw [hframes, hall hout]⟩
  · rintro ⟨hout, hframes⟩
    rw [← hall hout] at hframes
    exact feeds_of_frames hcount hout (Nat.zero_add _) hstart nil_prefix hframes

/-! ### Version 1 takes these frames -/

variable {rest : List Packet} {packet : Members}

theorem receive_eq_ok : receive packets = .ok (packet, rest) ↔ packets = .ok packet :: rest := by
  cases packets with
  | nil => simp [receive]
  | cons first others => cases first <;> simp [receive]

/-- **One round**: the chunk of this index, with the bytes expected of it. -/
theorem collectChunk_eq_ok {chunk : Members} :
    collectChunk request data index chunk = .ok decoded ↔
      frameOf (.ok chunk) = some (.chunk request.id index (Base64.encode decoded)) ∧
        decoded.length = min chunkBytes (request.bytes - data.length) := by
  simp only [collectChunk, bind_eq_ok, require_eq_ok, exists_unit, Bool.and_eq_true,
    decide_eq_true_eq, Option.isSome_iff_exists, frameOf_eq_chunk]
  constructor
  · rintro ⟨⟨⟨⟨⟨hkeys, htype⟩, hid⟩, hindex⟩, text, htext⟩, -, h⟩
    rw [htext, Option.getD_some] at h
    split at h
    next => cases h
    next found _ =>
      simp only [bind_eq_ok, require_eq_ok, exists_unit, Bool.and_eq_true, decide_eq_true_eq,
        pure_eq_ok] at h
      obtain ⟨⟨hlength, hcanonical⟩, rfl⟩ := h
      exact ⟨⟨hkeys, htype, hid, hindex, text, htext, hcanonical.symm⟩, hlength⟩
  · rintro ⟨⟨hkeys, htype, hid, hindex, text, htext, hcanonical⟩, hlength⟩
    refine ⟨⟨⟨⟨⟨hkeys, htype⟩, hid⟩, hindex⟩, text, htext⟩, ?_⟩
    rw [htext, Option.getD_some, hcanonical, Base64.length_encode, hlength, Base64.decode_encode]
    simp only [hlength, decide_true, Bool.and_self, require, if_true, ok_bind, true_and]
    rfl

theorem collectCommit_eq_ok :
    collectCommit request data packets = .ok (out, rest) ↔
      ∃ packet, packets = packet :: rest ∧ frameOf packet = some (.commit request.id) ∧
        data.length = request.bytes ∧ out = data := by
  simp only [collectCommit, bind_eq_ok, require_eq_ok, exists_unit, Bool.and_eq_true,
    decide_eq_true_eq, pure_eq_ok, Prod.exists, receive_eq_ok, Prod.mk.injEq]
  constructor
  · rintro ⟨commit, others, rfl, ⟨⟨⟨hkeys, htype⟩, hid⟩, hlength⟩, rfl, rfl⟩
    exact ⟨.ok commit, rfl, frameOf_eq_commit.mpr ⟨hkeys, htype, hid⟩, hlength, rfl⟩
  · rintro ⟨packet, rfl, hframe, hlength, rfl⟩
    cases packet with
    | error text => cases hframe
    | ok commit =>
      obtain ⟨hkeys, htype, hid⟩ := frameOf_eq_commit.mp hframe
      exact ⟨commit, rest, rfl, ⟨⟨⟨hkeys, htype⟩, hid⟩, hlength⟩, rfl, rfl⟩

theorem collect_iff_feeds (hcount : request.chunks = chunkCount request.bytes) {left : Nat}
    (hindex : index + left = request.chunks) (htaken : Taken request data index) :
    (collectChunks request left index data packets >>= fun found =>
        collectCommit request found.1 found.2) = .ok (out, rest) ↔
      ∃ used, packets = used ++ rest ∧ Feeds request data index used out := by
  induction left generalizing index data packets with
  | zero =>
    obtain rfl : index = request.chunks := by omega
    rw [collectChunks, ok_bind, collectCommit_eq_ok]
    constructor
    · rintro ⟨packet, rfl, hframe, hlength, rfl⟩
      exact ⟨[packet], rfl, .commit hframe hlength⟩
    · rintro ⟨used, rfl, hfeeds⟩
      cases hfeeds with
      | @commit _ packet hframe hlength => exact ⟨packet, rfl, hframe, hlength, rfl⟩
      | chunk _ hlength hne =>
        have hless := (htaken.full hlength hne).2
        exact absurd (lt_chunkCount.mpr hless) (by omega)
  | succ left ih =>
    have hless : index * chunkBytes < request.bytes := lt_chunkCount.mp (by omega)
    have hindex' : index + 1 + left = request.chunks := by omega
    simp only [collectChunks, bind_assoc, bind_eq_ok, Prod.exists, receive_eq_ok,
      mapError_eq_ok, collectChunk_eq_ok]
    constructor
    · rintro ⟨chunk, others, rfl, decoded, ⟨hframe, hlength⟩, found⟩
      have hne : decoded ≠ [] := by
        rintro rfl
        rw [length_nil, htaken] at hlength
        simp only [chunkBytes] at hlength hless
        omega
      have hnext := (ih hindex' (htaken.next hlength hne)).mp
        (by simpa only [bind_eq_ok, Prod.exists] using found)
      obtain ⟨used, rfl, hfeeds⟩ := hnext
      exact ⟨.ok chunk :: used, rfl, .chunk hframe hlength hne hfeeds⟩
    · rintro ⟨used, rfl, hfeeds⟩
      cases hfeeds with
      | commit => omega
      | @chunk _ decoded _ _ packet others hframe hlength hne hrest =>
        cases packet with
        | error text => cases hframe
        | ok chunk =>
          have hnext := (ih hindex' (htaken.next hlength hne)).mpr
            ⟨others, rfl, hrest⟩
          exact ⟨chunk, others ++ rest, rfl, decoded, ⟨hframe, hlength⟩,
            by simpa only [bind_eq_ok, Prod.exists] using hnext⟩

/-- **Version 1** returns exactly when it has read the frames of the data, and nothing else. -/
theorem collectWrite_iff (hcount : request.chunks = chunkCount request.bytes) :
    collectWrite request packets = .ok (out, rest) ↔ ∃ used, packets = used ++ rest ∧
      out.length = request.bytes ∧ used.map frameOf = (uploadFrames request.id out).map some := by
  have hstart : Taken request [] 0 := by simp [Taken]
  simp only [← feeds_iff hcount]
  exact collect_iff_feeds hcount (Nat.zero_add _) hstart

/-! ### Version 2 takes these frames -/

theorem Upload.chunk_eq_ok {upload next : Upload}
    (htype : (packet.read "type").asStr = some "chunk")
    (hid : (packet.read "id").asInt = some (upload.request.id : Int)) :
    upload.chunk packet = .ok next ↔ ∃ decoded : Bytes,
      frameOf (.ok packet) =
          some (.chunk upload.request.id upload.received (Base64.encode decoded)) ∧
        decoded.length = min chunkBytes (upload.request.bytes - upload.data.length) ∧
        decoded ≠ [] ∧
        next = { upload with data := upload.data ++ decoded, received := upload.received + 1 } := by
  simp only [Upload.chunk, bind_eq_ok, require_eq_ok, exists_unit, Bool.and_eq_true,
    decide_eq_true_eq, pure_eq_ok, decodeBytes_eq_ok, frameOf_eq_chunk]
  constructor
  · rintro ⟨⟨hkeys, hindex⟩, decoded, ⟨text, htext, hcanonical, -⟩, ⟨hne, hlength⟩, rfl⟩
    exact ⟨decoded, ⟨hkeys, htype, hid, hindex, text, asStr_eq_some.mpr htext, hcanonical⟩,
      hlength, hne, rfl⟩
  · rintro ⟨decoded, ⟨hkeys, -, -, hindex, text, htext, hcanonical⟩, hlength, hne, rfl⟩
    refine ⟨⟨hkeys, hindex⟩, decoded, ⟨text, asStr_eq_some.mp htext, hcanonical, ?_⟩,
      ⟨hne, hlength⟩, rfl⟩
    rw [hlength]
    exact Nat.min_le_left _ _

theorem Upload.commit_eq_ok {upload : Upload} {progress : Progress}
    (htype : (packet.read "type").asStr = some "commit")
    (hid : (packet.read "id").asInt = some (upload.request.id : Int)) :
    upload.commit packet = .ok progress ↔
      frameOf (.ok packet) = some (.commit upload.request.id) ∧
        upload.data.length = upload.request.bytes ∧ upload.received = upload.request.chunks ∧
        progress = .complete upload.request upload.data := by
  simp only [Upload.commit, bind_eq_ok, require_eq_ok, exists_unit, Bool.and_eq_true,
    decide_eq_true_eq, pure_eq_ok, frameOf_eq_commit]
  constructor
  · rintro ⟨⟨⟨hkeys, hlength⟩, hcount⟩, rfl⟩
    exact ⟨⟨hkeys, htype, hid⟩, hlength, hcount, rfl⟩
  · rintro ⟨⟨hkeys, -, -⟩, hlength, hcount, rfl⟩
    exact ⟨⟨⟨hkeys, hlength⟩, hcount⟩, rfl⟩

/-- **Version 2** takes the next chunk of the upload it has, or its commit when all is there. -/
theorem uploadFrame_eq_ok {upload : Option Upload} {progress : Progress}
    (hkind : isUploadFrame packet) :
    uploadFrame upload packet = .ok progress ↔ ∃ u, upload = some u ∧
      ((∃ decoded : Bytes,
          frameOf (.ok packet) = some (.chunk u.request.id u.received (Base64.encode decoded)) ∧
          decoded.length = min chunkBytes (u.request.bytes - u.data.length) ∧ decoded ≠ [] ∧
          progress = .more { u with data := u.data ++ decoded, received := u.received + 1 }) ∨
        frameOf (.ok packet) = some (.commit u.request.id) ∧ u.data.length = u.request.bytes ∧
          u.received = u.request.chunks ∧ progress = .complete u.request u.data) := by
  cases upload with
  | none => simp [uploadFrame]
  | some u =>
    simp only [uploadFrame, bind_eq_ok, require_eq_ok, exists_unit, decide_eq_true_eq,
      Option.some.injEq, exists_eq_left']
    constructor
    · rintro ⟨hid, h⟩
      split at h
      next htype =>
        obtain ⟨next, hnext, rfl⟩ := map_eq_ok.mp h
        obtain ⟨decoded, hframe, hlength, hne, rfl⟩ := (Upload.chunk_eq_ok htype hid).mp hnext
        exact .inl ⟨decoded, hframe, hlength, hne, rfl⟩
      next htype =>
        have htype : (packet.read "type").asStr = some "commit" := by
          simpa [isUploadFrame, htype] using hkind
        exact .inr ((Upload.commit_eq_ok htype hid).mp h)
    · rintro (⟨decoded, hframe, hlength, hne, rfl⟩ | ⟨hframe, hrest⟩)
      · obtain ⟨-, htype, hid, -⟩ := frameOf_eq_chunk.mp hframe
        refine ⟨hid, ?_⟩
        rw [if_pos htype, map_eq_ok]
        exact ⟨_, (Upload.chunk_eq_ok htype hid).mpr ⟨decoded, hframe, hlength, hne, rfl⟩, rfl⟩
      · obtain ⟨-, htype, hid⟩ := frameOf_eq_commit.mp hframe
        refine ⟨hid, ?_⟩
        rw [if_neg (by rw [htype]; decide)]
        exact (Upload.commit_eq_ok htype hid).mpr ⟨hframe, hrest⟩

end FoldGPT.Host
