import FoldGPT.Artifact.Acquire

/-!
# What a cache entry never is

Whatever the server sends, whichever call fails and wherever the process dies, the entry is sound:
a published artifact is the trusted one and stays, a partial one is not longer than the trusted
size, neither is there without the descriptor, and they are never there together.

Main result: `entry_sound`.
-/

namespace FoldGPT.Artifact

open FoldGPT.Lib Mortal

/-- Modes are those of creation; a directory may have been finished. -/
structure Modes (g : Setting) (s : Cache) : Prop where
  cache : ∀ mode, s.cache = some mode →
    mode = 0o700#12 ∨ mode = g.created 0o700#12 ||| inherited g.parent
  directory : ∀ mode, s.directory = some mode →
    mode = 0o700#12 ∨ mode = g.created 0o700#12 ||| inherited 0o700#12
  lease : ∀ mode, s.lease = some mode → mode = g.created 0o600#12
  descriptor : ∀ file, s.descriptor = some file → file.mode = g.created 0o600#12
  pending : ∀ file, s.pending = some file → file.mode = g.created 0o600#12
  part : ∀ file, s.part = some file → file.mode = g.created 0o600#12
  target : ∀ file, s.target = some file → file.mode = g.created 0o600#12

/-- **A sound cache entry.** -/
structure Sound (g : Setting) (d : Descriptor) (s : Cache) : Prop where
  modes : Modes g s
  verified : ∀ file, s.target = some file →
    file.bytes.length = d.bytes ∧ g.sha file.bytes = d.sha256
  bounded : ∀ file, s.part = some file → file.bytes.length ≤ d.bytes
  exact : ∀ file, s.descriptor = some file → file.bytes = d.document
  bound : s.part.isSome ∨ s.target.isSome →
    ∃ file, s.descriptor = some file ∧ file.bytes = d.document
  apart : s.part = none ∨ s.target = none

/-- The entry is sound, and the artifact that was there still is. -/
structure Kept (g : Setting) (d : Descriptor) (s₀ s : Cache) : Prop where
  sound : Sound g d s
  stays : ∀ file, s₀.target = some file → s.target = some file

/-- There is a descriptor and no artifact yet. -/
structure Fetching (g : Setting) (d : Descriptor) (s₀ s : Cache) : Prop where
  kept : Kept g d s₀ s
  absent : s.target = none
  bound : ∃ file, s.descriptor = some file ∧ file.bytes = d.document

/-- Whatever the environment does, the entry is kept. -/
abbrev Safe (g : Setting) (d : Descriptor) (s₀ : Cache) {α : Type} (m : Program α) (s : Cache)
    (R : α → Cache → Prop) : Prop :=
  Meets (fun _ => True) (Kept g d s₀) m s R fun _ => Kept g d s₀

variable {g : Setting} {d : Descriptor} {s₀ s s' : Cache}

theorem Kept.setPending (h : Kept g d s₀ s) {pending : Option File}
    (hmode : ∀ file, pending = some file → file.mode = g.created 0o600#12) :
    Kept g d s₀ { s with pending := pending } :=
  ⟨{ h.sound with modes := { h.sound.modes with pending := hmode } }, h.stays⟩

/-- While there is no artifact, the partial one may change within its bound. -/
theorem Fetching.setPart (h : Fetching g d s₀ s) {file : File}
    (hmode : file.mode = g.created 0o600#12) (hbounded : file.bytes.length ≤ d.bytes) :
    Fetching g d s₀ { s with part := some file } := by
  have hmodes : Modes g { s with part := some file } :=
    { h.kept.sound.modes with part := fun _ hfile => Option.some.inj hfile ▸ hmode }
  exact ⟨⟨⟨hmodes, h.kept.sound.verified, fun _ hfile => Option.some.inj hfile ▸ hbounded,
    h.kept.sound.exact, fun _ => h.bound, .inr h.absent⟩, h.kept.stays⟩, h.absent, h.bound⟩

/-! ### Calls -/

namespace Safe

theorem change (h : Kept g d s₀ s) (f : Cache → Cache) :
    Safe g d s₀ (change f) s fun _ s' => s' = f s := by
  refine Meets.call (fun _ => h) fun c _ => ?_
  split
  · exact h
  · rfl

theorem sync (h : Kept g d s₀ s) : Safe g d s₀ sync s fun _ s' => s = s' :=
  (change h id).post fun _ _ hs => hs.symm

theorem check (h : Kept g d s₀ s) : Safe g d s₀ check s fun _ s' => s = s' := by
  refine Meets.call (fun _ => h) fun c _ => ?_
  split
  · exact h
  · rfl

theorem demand (h : Kept g d s₀ s) (condition : Bool) (failure : Failure) :
    Safe g d s₀ (demand condition failure) s fun _ s' => s = s' ∧ condition = true :=
  Meets.demand (fun hcondition => ⟨rfl, hcondition⟩) fun _ => h

theorem look (s : Cache) : Safe g d s₀ look s fun seen s' => s = s' ∧ s = seen :=
  Meets.look ⟨rfl, rfl⟩

theorem regularIfAny (h : Kept g d s₀ s) (mode : Option Mode) :
    Safe g d s₀ (regularIfAny mode) s fun _ s' => s = s' := by
  cases mode with
  | none => exact Meets.pure rfl
  | some mode => exact (demand h _ _).post fun _ _ h => h.1

theorem openLease (h : Kept g d s₀ s) :
    Safe g d s₀ (openFile g Cache.lease fun mode s => { s with lease := some mode }) s
      fun _ s' => Kept g d s₀ s' := by
  refine Meets.bind (look s) ?_
  rintro _ _ ⟨rfl, rfl⟩
  split
  next => exact Meets.pure h
  next =>
    refine (change h _).post ?_
    rintro _ _ rfl
    exact ⟨{ h.sound with modes := { h.sound.modes with
      lease := fun _ hmode => (Option.some.inj hmode).symm } }, h.stays⟩

/-- A directory is there with the mode it must have, or the acquisition has failed. -/
theorem createPrivate {get : Cache → Option Mode} {set : Mode → Cache → Cache}
    {parent : Cache → Mode}
    (hset : ∀ mode s', mode = 0o700#12 ∨ mode = g.created 0o700#12 ||| inherited (parent s) →
      Kept g d s₀ s' → Kept g d s₀ (set mode s')) (h : Kept g d s₀ s) :
    Safe g d s₀ (createPrivate g get set parent) s fun _ s' =>
      Kept g d s₀ s' ∧ get s' = some 0o700#12 := by
  refine Meets.bind (R := fun _ s' => Kept g d s₀ s') ?_ ?_
  · refine Meets.bind (look s) ?_
    rintro _ _ ⟨rfl, rfl⟩
    split
    next => exact Meets.pure h
    next =>
      refine Meets.bind (change h _) ?_
      rintro _ _ rfl
      have hmade := hset _ s (.inr rfl) h
      refine Meets.bind (look _) ?_
      rintro _ _ ⟨rfl, rfl⟩
      refine Meets.bind (demand hmade _ _) ?_
      rintro _ _ ⟨rfl, -⟩
      refine Meets.bind (change hmade _) ?_
      rintro _ _ rfl
      have hfinished := hset 0o700#12 _ (.inl rfl) hmade
      exact (sync hfinished).post fun _ _ hs => hs ▸ hfinished
  · intro _ s' hs
    refine Meets.bind (look s') ?_
    rintro _ _ ⟨rfl, rfl⟩
    refine (demand hs _ _).post ?_
    rintro _ _ ⟨rfl, hmode⟩
    exact ⟨hs, of_decide_eq_true hmode⟩

/-! ### The descriptor -/

theorem deletePending {behind : Program Unit} (h : Kept g d s₀ s)
    (hbehind : ∀ s', Kept g d s₀ s' → Safe g d s₀ behind s' fun _ s'' => s' = s'') :
    Safe g d s₀ (deletePending behind) s fun _ s' => s' = { s with pending := none } := by
  refine Meets.bind (look s) ?_
  rintro _ _ ⟨rfl, rfl⟩
  split
  next hnone =>
    refine Meets.pure ?_
    rw [← hnone]
  next =>
    refine Meets.bind (demand h _ _) ?_
    rintro _ _ ⟨rfl, -⟩
    refine Meets.bind (change h _) ?_
    rintro _ _ rfl
    have hdeleted : Kept g d s₀ { s with pending := none } := h.setPending nofun
    exact (hbehind _ hdeleted).post fun _ _ hs => hs.symm

theorem writePending (h : Kept g d s₀ s) (hpending : s.pending = some ⟨g.created 0o600#12, []⟩) :
    Safe g d s₀ (writeAll Cache.appendPending d.document) s fun _ s' =>
      s' = { s with pending := some ⟨g.created 0o600#12, d.document⟩ } := by
  have hwriting : ∀ written, Kept g d s₀
      { s with pending := some ⟨g.created 0o600#12, written⟩ } :=
    fun written => h.setPending fun _ hfile => Option.some.inj hfile ▸ rfl
  -- what is written and what is to be written make up the document
  refine (Meets.each (I := fun rest s' => ∃ written, written ++ rest = d.document ∧
    s' = { s with pending := some ⟨g.created 0o600#12, written⟩ }) ?_ ?_ ?_).post ?_
  · rintro rest _ ⟨written, -, rfl⟩ -
    exact hwriting written
  · rintro byte rest _ ⟨written, hwritten, rfl⟩ c -
    split
    · exact hwriting written
    · exact ⟨written ++ [byte], by rw [List.append_assoc]; exact hwritten, rfl⟩
  · refine ⟨[], rfl, ?_⟩
    rw [← hpending]
  · rintro _ _ ⟨written, hwritten, rfl⟩
    rw [List.append_nil] at hwritten
    rw [hwritten]

theorem bindDescriptor (h : Kept g d s₀ s) :
    Safe g d s₀ (bindDescriptor g d) s fun _ s' => Kept g d s₀ s' ∧ s'.part = s.part ∧
      s'.target = s.target ∧ ∃ file, s'.descriptor = some file ∧ file.bytes = d.document := by
  refine Meets.bind (look s) ?_
  rintro _ _ ⟨rfl, rfl⟩
  split
  next file hfile =>
    refine Meets.bind (demand h _ _) ?_
    rintro _ _ ⟨rfl, -⟩
    refine Meets.bind (demand h _ _) ?_
    rintro _ _ ⟨rfl, -⟩
    refine Meets.bind (demand h _ _) ?_
    rintro _ _ ⟨rfl, hdocument⟩
    refine (deletePending h fun s' hs => sync hs).post ?_
    rintro _ _ rfl
    exact ⟨h.setPending nofun, rfl, rfl, file, hfile, of_decide_eq_true hdocument⟩
  next hnone =>
    refine Meets.bind (demand h _ _) ?_
    rintro _ _ ⟨rfl, -⟩
    refine Meets.bind (deletePending h fun s' _ => Meets.pure rfl) ?_
    rintro _ _ rfl
    have hclear : Kept g d s₀ { s with pending := none } := h.setPending nofun
    refine Meets.bind (change hclear _) ?_
    rintro _ _ rfl
    have hwritten : ∀ bytes, Kept g d s₀
        { s with pending := some ⟨g.created 0o600#12, bytes⟩ } :=
      fun bytes => h.setPending fun _ hfile => Option.some.inj hfile ▸ rfl
    refine Meets.bind (writePending (hwritten []) rfl) ?_
    rintro _ _ rfl
    refine Meets.bind (sync (hwritten _)) ?_
    rintro _ _ rfl
    refine Meets.bind (check (hwritten _)) ?_
    rintro _ _ rfl
    refine Meets.bind (look _) ?_
    rintro _ _ ⟨rfl, rfl⟩
    refine Meets.bind (demand (hwritten _) _ _) ?_
    rintro _ _ ⟨rfl, -⟩
    refine Meets.bind (change (hwritten _) _) ?_
    rintro _ _ rfl
    -- nothing depends on the descriptor yet
    have hbound : Kept g d s₀ { s with
        descriptor := some ⟨g.created 0o600#12, d.document⟩, pending := none } := by
      refine ⟨⟨{ h.sound.modes with pending := nofun, descriptor := ?_ }, h.sound.verified,
        h.sound.bounded, ?_, fun _ => ⟨_, rfl, rfl⟩, h.sound.apart⟩, h.stays⟩
      · exact fun _ hfile => Option.some.inj hfile ▸ rfl
      · exact fun _ hfile => Option.some.inj hfile ▸ rfl
    refine (sync hbound).post ?_
    rintro _ _ rfl
    exact ⟨hbound, rfl, rfl, _, rfl, rfl⟩

/-! ### The transfer -/

/-- The partial artifact has so many bytes. -/
def Holding (s : Cache) (received : Nat) : Prop :=
  ∃ file, s.part = some file ∧ file.bytes.length = received

theorem writePart {received : Nat} {chunk : List UInt8} (h : Fetching g d s₀ s)
    (hpart : Holding s received) (hroom : received + chunk.length ≤ d.bytes) :
    Safe g d s₀ (writeAll Cache.appendPart chunk) s fun _ s' =>
      Fetching g d s₀ s' ∧ Holding s' (received + chunk.length) := by
  -- what is there and what is to be written fits
  refine (Meets.each (I := fun rest s' => Fetching g d s₀ s' ∧ ∃ written, Holding s' written ∧
    written + rest.length = received + chunk.length) ?_ ?_ ?_).post ?_
  · rintro rest s' ⟨hfetching, -⟩ -
    exact hfetching.kept
  · rintro byte rest s' ⟨hfetching, written, ⟨file, hfile, hlength⟩, hrest⟩ c -
    split
    · exact hfetching.kept
    · rw [List.length_cons] at hrest
      have happend : s'.appendPart byte =
          { s' with part := some { file with bytes := file.bytes ++ [byte] } } := by
        rw [Cache.appendPart, hfile]
        rfl
      have hsize : (file.bytes ++ [byte]).length = written + 1 := by
        rw [List.length_append, hlength]
        rfl
      rw [happend]
      refine ⟨hfetching.setPart (hfetching.kept.sound.modes.part file hfile) ?_, written + 1,
        ⟨_, rfl, hsize⟩, by omega⟩
      rw [hsize]
      omega
  · exact ⟨h, received, hpart, rfl⟩
  · rintro _ s' ⟨hfetching, written, hholding, hrest⟩
    exact ⟨hfetching, hrest ▸ hholding⟩

/-- **The loop of the transfer**: whatever is read, the partial artifact stays within its bound. -/
theorem receive (fuel : Nat) {received : Nat} (h : Fetching g d s₀ s) (hpart : Holding s received) :
    Safe g d s₀ (receive d fuel received) s fun _ s' => Fetching g d s₀ s' := by
  induction fuel generalizing received s with
  | zero => exact Meets.pure h
  | succ fuel ih =>
    refine Meets.bind (check h.kept) ?_
    rintro _ _ rfl
    refine Meets.bind (R := fun _ s' => s = s') ?_ ?_
    · refine Meets.call (fun _ => h.kept) fun c _ => ?_
      split
      · exact h.kept
      · rfl
    · rintro reading _ rfl
      cases reading with
      | broken => exact Meets.raise h.kept
      | eof => exact Meets.pure h
      | chunk first rest =>
        refine Meets.bind (demand h.kept _ _) ?_
        rintro _ _ ⟨rfl, hcount⟩
        have hfits : rest.length + 1 ≤ d.bytes - received := of_decide_eq_true hcount
        refine Meets.bind (writePart h hpart (by rw [List.length_cons]; omega)) ?_
        rintro _ s' ⟨hfetching, hholding⟩
        refine Meets.bind (sync hfetching.kept) ?_
        rintro _ _ rfl
        exact ih hfetching hholding

theorem transfer (start : Nat) (h : Fetching g d s₀ s) :
    Safe g d s₀ (transfer g d start) s fun _ s' => Fetching g d s₀ s' := by
  refine Meets.bind (look s) ?_
  rintro _ _ ⟨rfl, rfl⟩
  refine Meets.bind (regularIfAny h.kept _) ?_
  rintro _ _ rfl
  refine Meets.bind (sync h.kept) ?_
  rintro _ _ rfl
  refine Meets.bind (R := fun _ s' => Fetching g d s₀ s' ∧ ∃ file, s'.part = some file) ?_ ?_
  · refine Meets.bind (look s) ?_
    rintro _ _ ⟨rfl, rfl⟩
    split
    next mode hmode =>
      obtain ⟨file, hfile, -⟩ := Option.map_eq_some_iff.mp hmode
      exact Meets.pure ⟨h, file, hfile⟩
    next =>
      refine (change h.kept _).post ?_
      rintro _ _ rfl
      exact ⟨h.setPart rfl (Nat.zero_le _), _, rfl⟩
  rintro _ s' ⟨hopened, file, hfile⟩
  refine Meets.bind (look s') ?_
  rintro _ _ ⟨rfl, rfl⟩
  refine Meets.bind (regularIfAny hopened.kept _) ?_
  rintro _ _ rfl
  refine Meets.bind (sync hopened.kept) ?_
  rintro _ _ rfl
  refine Meets.bind (R := fun _ s' => Fetching g d s₀ s' ∧ Holding s' start) ?_ ?_
  · unfold position
    split
    next hstart =>
      refine (change hopened.kept _).post ?_
      rintro _ _ rfl
      rw [hfile]
      exact ⟨hopened.setPart (hopened.kept.sound.modes.part file hfile) (Nat.zero_le _), _, rfl,
        hstart.symm⟩
    next =>
      refine Meets.bind (look s') ?_
      rintro _ _ ⟨rfl, rfl⟩
      refine (demand hopened.kept _ _).post ?_
      rintro _ _ ⟨rfl, hsize⟩
      rw [hfile] at hsize
      exact ⟨hopened, file, hfile, of_decide_eq_true hsize⟩
  rintro _ s'' ⟨hpositioned, hholding⟩
  refine Meets.cleanup (Q := fun _ s' => Fetching g d s₀ s') (F := fun _ => Kept g d s₀) ?_ ?_ ?_
  · refine Meets.bind (receive _ hpositioned hholding) ?_
    intro received s' hreceived
    exact (demand hreceived.kept _ _).post fun _ _ hs => hs.1 ▸ hreceived
  · intro _ s' hreceived
    exact (sync hreceived.kept).post fun _ _ hs => hs ▸ hreceived
  · intro _ s' hkept
    exact (sync hkept).post fun _ _ hs => hs ▸ hkept

theorem exchange (offset : Nat) (location : List Char) (h : Fetching g d s₀ s) :
    Safe g d s₀ (exchange g d offset location) s fun _ s' => Fetching g d s₀ s' := by
  refine Meets.bind (R := fun _ s' => s = s') ?_ ?_
  · refine Meets.call (fun _ => h.kept) fun c _ => ?_
    split_ifs
    · exact h.kept
    · exact h.kept
    · rfl
  rintro response _ rfl
  refine Meets.bind (check h.kept) ?_
  rintro _ _ rfl
  split
  next =>
    split
    next => exact Meets.raise h.kept
    next =>
      refine Meets.bind (demand h.kept _ _) ?_
      rintro _ _ ⟨rfl, -⟩
      split
      next => exact Meets.raise h.kept
      next => exact Meets.pure h
  next =>
    refine Meets.bind (demand h.kept _ _) ?_
    rintro _ _ ⟨rfl, -⟩
    refine Meets.bind (demand h.kept _ _) ?_
    rintro _ _ ⟨rfl, -⟩
    refine Meets.bind (R := fun _ s' => s = s') ?_ ?_
    · unfold checkRange
      split
      next => exact (demand h.kept _ _).post fun _ _ hs => hs.1
      next => exact (demand h.kept _ _).post fun _ _ hs => hs.1
    rintro _ _ rfl
    refine Meets.bind (demand h.kept _ _) ?_
    rintro _ _ ⟨rfl, -⟩
    refine Meets.bind (transfer _ h) ?_
    intro _ s' hs
    exact Meets.pure hs

theorem download (offset redirects : Nat) (visited : List (List Char)) (location : List Char)
    (h : Fetching g d s₀ s) :
    Safe g d s₀ (download g d offset redirects visited location) s
      fun _ s' => Fetching g d s₀ s' := by
  induction redirects generalizing visited location s with
  | zero => exact Meets.raise h.kept
  | succ redirects ih =>
    refine Meets.bind (check h.kept) ?_
    rintro _ _ rfl
    refine Meets.bind (demand h.kept _ _) ?_
    rintro _ _ ⟨rfl, -⟩
    refine Meets.bind (Meets.handle (exchange offset location h) ?_) ?_
    · intro failure s' hkept
      refine Meets.bind (check hkept) ?_
      rintro _ _ rfl
      exact Meets.raise hkept
    · intro outcome s' hs
      cases outcome with
      | redirect next => exact ih _ _ hs
      | done start => exact Meets.pure hs

/-! ### The acquisition -/

theorem verify {get : Cache → Option File} (h : Kept g d s₀ s) :
    Safe g d s₀ (verify g d get) s fun _ s' => s = s' ∧ ∃ file, get s = some file ∧
      file.bytes.length = d.bytes ∧ g.sha file.bytes = d.sha256 := by
  refine Meets.bind (check h) ?_
  rintro _ _ rfl
  refine Meets.bind (look s) ?_
  rintro _ _ ⟨rfl, rfl⟩
  split
  next => exact Meets.raise h
  next file hfile =>
    refine Meets.bind (demand h _ _) ?_
    rintro _ _ ⟨rfl, -⟩
    refine Meets.bind (demand h _ _) ?_
    rintro _ _ ⟨rfl, hsize⟩
    refine Meets.bind (check h) ?_
    rintro _ _ rfl
    refine Meets.bind (demand h _ _) ?_
    rintro _ _ ⟨rfl, hsha⟩
    refine (sync h).post ?_
    rintro _ _ rfl
    exact ⟨rfl, file, hfile, of_decide_eq_true hsize, of_decide_eq_true hsha⟩

theorem discardOn (failure : Failure) (h : Kept g d s₀ s) :
    Safe g d s₀ (discardOn failure) s fun _ s' => Kept g d s₀ s' := by
  unfold Artifact.discardOn
  split
  next =>
    refine Meets.bind (look s) ?_
    rintro _ _ ⟨rfl, rfl⟩
    split
    next => exact Meets.pure h
    next =>
      refine Meets.bind (demand h _ _) ?_
      rintro _ _ ⟨rfl, -⟩
      refine Meets.bind (change h _) ?_
      rintro _ _ rfl
      have hdiscarded : Kept g d s₀ { s with part := none } := by
        refine ⟨⟨{ h.sound.modes with part := nofun }, h.sound.verified, nofun, h.sound.exact,
          fun hsome => h.sound.bound ?_, .inl rfl⟩, h.stays⟩
        exact hsome.imp (fun hpart => absurd hpart Bool.false_ne_true) id
      exact (sync hdiscarded).post fun _ _ hs => hs ▸ hdiscarded
  next => exact Meets.pure h

/-- **The download is published** only when it is verified. -/
theorem fetch (h : Fetching g d s₀ s) : Safe g d s₀ (fetch g d) s fun _ s' => Kept g d s₀ s' := by
  refine Meets.bind (look s) ?_
  rintro _ _ ⟨rfl, rfl⟩
  refine Meets.bind (demand h.kept _ _) ?_
  rintro _ _ ⟨rfl, -⟩
  refine Meets.bind (R := fun _ s' => Fetching g d s₀ s' ∧ ∃ file, s'.part = some file ∧
    file.bytes.length = d.bytes ∧ g.sha file.bytes = d.sha256)
    (Meets.handle (F := fun _ => Kept g d s₀) ?_ ?_) ?_
  · refine Meets.bind (R := fun _ s' => Fetching g d s₀ s') ?_ ?_
    · unfold downloadRest
      split
      next => exact download _ _ _ _ h
      next => exact Meets.pure h
    · intro offset s' hs
      refine Meets.bind (verify hs.kept) ?_
      rintro _ _ ⟨rfl, hfile⟩
      exact Meets.pure ⟨hs, hfile⟩
  · intro failure s' hkept
    refine Meets.bind (discardOn failure hkept) ?_
    intro _ s'' hs
    exact Meets.raise hs
  rintro offset s' ⟨hs, file, hpart, hsize, hsha⟩
  refine Meets.bind (check hs.kept) ?_
  rintro _ _ rfl
  refine Meets.bind (look s') ?_
  rintro _ _ ⟨rfl, rfl⟩
  refine Meets.bind (regularIfAny hs.kept _) ?_
  rintro _ _ rfl
  refine Meets.bind (demand hs.kept _ _) ?_
  rintro _ _ ⟨rfl, -⟩
  refine Meets.bind (change hs.kept _) ?_
  rintro _ _ rfl
  have hpublished : Kept g d s₀ { s' with target := s'.part, part := none } := by
    refine ⟨⟨{ hs.kept.sound.modes with part := nofun, target := hs.kept.sound.modes.part },
      fun other hother => ?_, nofun, hs.kept.sound.exact, fun _ => hs.bound, .inl rfl⟩,
      fun other hother => ?_⟩
    · obtain rfl := Option.some.inj (hpart.symm.trans hother)
      exact ⟨hsize, hsha⟩
    · have hthere := hs.kept.stays other hother
      rw [hs.absent] at hthere
      cases hthere
  refine Meets.bind (sync hpublished) ?_
  rintro _ _ rfl
  refine Meets.bind (verify hpublished) ?_
  rintro _ _ ⟨rfl, -⟩
  exact Meets.pure hpublished

/-- **An acquisition keeps the entry**, at every call of it. -/
theorem run (h : Kept g d s₀ s) : Safe g d s₀ (run g d) s fun _ s' => Kept g d s₀ s' := by
  refine Meets.bind (check h) ?_
  rintro _ _ rfl
  refine Meets.bind (createPrivate (fun mode s' hmode hs => ?_) h) ?_
  · exact ⟨{ hs.sound with modes := { hs.sound.modes with
      cache := fun _ heq => Option.some.inj heq ▸ hmode } }, hs.stays⟩
  clear h
  rintro _ s ⟨h, hcache⟩
  refine Meets.bind (sync h) ?_
  rintro _ _ rfl
  refine Meets.bind (createPrivate (fun mode s' hmode hs => ?_) h) ?_
  · rw [hcache] at hmode
    exact ⟨{ hs.sound with modes := { hs.sound.modes with
      directory := fun _ heq => Option.some.inj heq ▸ hmode } }, hs.stays⟩
  clear h hcache
  rintro _ s ⟨h, -⟩
  refine Meets.bind (sync h) ?_
  rintro _ _ rfl
  refine Meets.bind (look s) ?_
  rintro _ _ ⟨rfl, rfl⟩
  refine Meets.bind (regularIfAny h _) ?_
  rintro _ _ rfl
  refine Meets.bind (openLease h) ?_
  clear h
  intro _ s h
  refine Meets.bind (look s) ?_
  rintro _ _ ⟨rfl, rfl⟩
  refine Meets.bind (regularIfAny h _) ?_
  rintro _ _ rfl
  refine Meets.bind (R := fun _ s' => s = s') ?_ ?_
  · refine Meets.call (fun _ => h) fun c _ => ?_
    split
    · exact h
    · rfl
  rintro _ _ rfl
  refine Meets.bind (check h) ?_
  rintro _ _ rfl
  refine Meets.bind (look s) ?_
  rintro _ _ ⟨rfl, rfl⟩
  refine Meets.bind (demand h _ _) ?_
  rintro _ _ ⟨rfl, -⟩
  refine Meets.bind (bindDescriptor h) ?_
  rintro _ s' ⟨hs, -, -, hbound⟩
  refine Meets.bind (look s') ?_
  rintro _ _ ⟨rfl, rfl⟩
  split
  next =>
    refine Meets.bind (demand hs _ _) ?_
    rintro _ _ ⟨rfl, -⟩
    refine Meets.bind (verify hs) ?_
    rintro _ _ ⟨rfl, -⟩
    refine Meets.bind (sync hs) ?_
    rintro _ _ rfl
    exact Meets.pure hs
  next hnone => exact fetch ⟨hs, hnone, hbound⟩

end Safe

theorem Sound.empty : Sound g d Cache.empty where
  modes := ⟨nofun, nofun, nofun, nofun, nofun, nofun, nofun⟩
  verified := nofun
  bounded := nofun
  exact := nofun
  bound := by simp [Cache.empty]
  apart := .inl rfl

theorem kept_of_run (env : Env Answer) (h : Sound g d s) : Kept g d s ((run g d).store env s) :=
  Meets.store (Safe.run ⟨h, fun _ hfile => hfile⟩) fun _ => trivial

theorem sound_of_runs {envs : List (Env Answer)} (hrun : (acquiring g d).Run envs s) :
    Sound g d s := by
  refine hrun.invariant (I := fun _ s => Sound g d s) ?_ ?_
  · rintro _ rfl
    exact Sound.empty
  · intro _ s env s' _ hsound hstep
    cases hstep
    exact (kept_of_run env hsound).sound

/-- **The cache entry along every sequence of acquisitions.** A published artifact has the trusted
size and hash and no further acquisition changes it, wherever that dies; a partial one is not longer
than the trusted size; neither is there without the trusted descriptor; and they are not there
together. -/
theorem entry_sound (g : Setting) (d : Descriptor) (s : Cache) (envs : List (Env Answer))
    (hrun : (acquiring g d).Run envs s) :
    (∀ file, s.target = some file →
      file.bytes.length = d.bytes ∧ g.sha file.bytes = d.sha256 ∧
        ∀ env : Env Answer, ((run g d).store env s).target = some file) ∧
    (∀ file, s.part = some file → file.bytes.length ≤ d.bytes) ∧
    (s.part.isSome ∨ s.target.isSome →
      ∃ file, s.descriptor = some file ∧ file.bytes = d.document) ∧
    (s.part = none ∨ s.target = none) := by
  have hsound := sound_of_runs hrun
  refine ⟨fun file hfile => ?_, hsound.bounded, hsound.bound, hsound.apart⟩
  obtain ⟨hsize, hsha⟩ := hsound.verified file hfile
  exact ⟨hsize, hsha, fun env => (kept_of_run env hsound).stays file hfile⟩

/-- A hash that sees the first byte only. -/
def firstByte (bytes : List UInt8) : List Char :=
  List.replicate 64 (if bytes.head? = some 7 then '7' else '0')

/-- No redirection, and a managed directory that others may not write. -/
def plainSetting : Setting where
  sha := firstByte
  resolve := fun _ _ => none
  umask := 0o022#12
  parent := 0o771#12
  parent_closed := by decide

/-- An artifact of two bytes. -/
def twoBytes : Descriptor where
  url := "https://a/b".toList
  bytes := 2
  sha256 := List.replicate 64 '7'
  url_le := by decide
  bytes_pos := by decide
  bytes_lt := by decide
  sha256_length := rfl

/-- A server that sends two bytes. -/
def twoByteServer (first second : UInt8) : Answer where
  cancelled := false
  fails := false
  busy := false
  respond := fun _ offset => if offset = 0 then ⟨200, none, none, none, -1⟩
    else ⟨206, none, none, some (wantedRange twoBytes offset), -1⟩
  read := fun received =>
    match received with
    | 0 => .chunk first []
    | 1 => .chunk second []
    | _ => .eof

/-- The process is killed with one byte of the artifact written, and the next acquisition goes on
from there. -/
def resumedEnvs : List (Env Answer) :=
  [fun t => if t < 133 then some (twoByteServer 7 8) else none, fun _ => some (twoByteServer 7 8)]

theorem entry_sound_resumed :
    ∃ s, (acquiring plainSetting twoBytes).Run resumedEnvs s ∧
      s.target = some ⟨0o600#12, [7, 8]⟩ ∧
      ((run plainSetting twoBytes).store (fun _ => some (twoByteServer 0 0)) s).target =
        some ⟨0o600#12, [7, 8]⟩ := by
  obtain ⟨s, hrun, htarget⟩ :=
    LTS.exists_run_of_exec (A := acquiring plainSetting twoBytes) (fun h => h) rfl resumedEnvs
      (fun s => s.target = some ⟨0o600#12, [7, 8]⟩) (by decide +kernel)
  obtain ⟨hverified, -⟩ := entry_sound plainSetting twoBytes s resumedEnvs hrun
  exact ⟨s, hrun, htarget, (hverified _ htarget).2.2 _⟩

end FoldGPT.Artifact
