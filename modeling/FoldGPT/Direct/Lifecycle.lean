import FoldGPT.Direct.Supervisor

/-!
# Which records `_control` accepts

The records of a run are at most one `started`, at most one `exited` and any
number of `ownership-retained` in some order, then one `result`. What `_control`
asks of the next record depends only on what it has seen so far, which
`Owner.Follows` sums up.
-/

namespace FoldGPT.Direct

open FoldGPT.Lib

/-- The owner is between two records: it has seen the acknowledgement of the start
if `started`, the exit in `exit`, and no result. -/
structure Owner.Follows (owner : Owner) (started : Bool) (exit : Option Int) : Prop where
  ready : owner.ready = true
  acknowledged : owner.nativeStarted.isSome = started
  pending : started = false → owner.started = .pending
  exit : owner.exitCode = exit
  unfinished : owner.nativeResult = none

/-- `_control` takes the records, whenever a termination is requested. -/
def Accepts (records : List Json) (started : Bool) (exit : Option Int) : Prop :=
  ∀ requested, ∃ owner, Owner.control requested records = .ok owner ∧ owner.Follows started exit

theorem Owner.control_snoc (requested : Nat → Bool) (frames : List Json) (frame : Json) :
    Owner.control requested (frames ++ [frame]) =
      Owner.control requested frames >>= fun owner =>
        (owner.interrupted (requested frames.length)).receive frame := by
  simp [Owner.control, List.zipIdx_append, List.foldlM_append]

variable {owner : Owner} {exit : Option Int}

theorem Owner.Follows.interrupted {started : Bool} (h : owner.Follows started exit)
    (requested : Bool) : (owner.interrupted requested).Follows started exit := by
  cases requested with
  | false => exact h
  | true => exact ⟨h.ready, h.acknowledged, h.pending, h.exit, h.unfinished⟩

theorem Owner.Follows.publishExit {started : Bool}
    (h : owner.Follows started exit) : owner.publishExit.Follows started exit := by
  unfold Owner.publishExit
  split
  · exact ⟨h.ready, h.acknowledged, h.pending, h.exit, h.unfinished⟩
  · exact h

variable {records : List Json}

/-- A record that keeps up the loop for every owner between two records does so
at the end of the records. -/
theorem Accepts.next {started started' : Bool} {exit' : Option Int}
    {record : Json} (h : Accepts records started exit)
    (hnext : ∀ owner : Owner, owner.Follows started exit →
      ∃ owner', owner.receive record = .ok owner' ∧ owner'.Follows started' exit') :
    Accepts (records ++ [record]) started' exit' := by
  intro requested
  obtain ⟨owner, hcontrol, hf⟩ := h requested
  obtain ⟨owner', hreceive, hf'⟩ := hnext _ (hf.interrupted (requested records.length))
  refine ⟨owner', ?_, hf'⟩
  rw [Owner.control_snoc, hcontrol]
  exact hreceive

/-! ### One record more -/

theorem Accepts.ready : Accepts [readyRecord] false none := by
  intro requested
  refine ⟨{ ({} : Owner).interrupted (requested 0) with ready := true }, ?_, ?_⟩
  · cases h : requested 0 <;>
      simp [Owner.control, h, Owner.interrupted] <;> rfl
  · cases requested 0 <;> exact ⟨rfl, rfl, fun _ => rfl, rfl, rfl⟩

theorem Owner.Follows.receive_obj {started : Bool} (h : owner.Follows started exit)
    (members : Members) : owner.receive (.obj members) = owner.dispatch members := by
  simp only [Owner.receive, Json.asObj, h.unfinished, Option.isSome_none, Bool.false_eq_true,
    if_false]

theorem Accepts.started
    (h : Accepts records false exit) : Accepts (records ++ [startedRecord]) true exit := by
  apply h.next
  intro owner hf
  have hnone : owner.nativeStarted = none := by simpa using hf.acknowledged
  have hpending : owner.started = .pending := hf.pending rfl
  rw [startedRecord, hf.receive_obj]
  show ∃ owner', owner.receiveStarted _ = .ok owner' ∧ owner'.Follows true exit
  cases hrequested : owner.terminationRequested with
  | false =>
    refine ⟨_, by
      simp only [Owner.receiveStarted, hf.ready, hnone, hrequested, Owner.setStarted, hpending]
      rfl, ?_⟩
    apply Owner.Follows.publishExit
    exact ⟨rfl, rfl, nofun, hf.exit, hf.unfinished⟩
  | true =>
    refine ⟨_, by
      simp only [Owner.receiveStarted, hf.ready, hnone, hrequested]
      rfl, ?_⟩
    exact ⟨rfl, rfl, nofun, hf.exit, hf.unfinished⟩

theorem Accepts.retained {started : Bool}
    (h : Accepts records started exit) : Accepts (records ++ [retainedRecord]) started exit := by
  apply h.next
  intro owner hf
  rw [retainedRecord, hf.receive_obj]
  show ∃ owner', owner.receiveRetained _ = .ok owner' ∧ owner'.Follows started exit
  refine ⟨_, by
    simp only [Owner.receiveRetained, hf.ready]
    rfl, ?_⟩
  exact ⟨rfl, hf.acknowledged, hf.pending, hf.exit, hf.unfinished⟩

/-- What `_wait_status` makes of a status. -/
def Status.waitCode : Status → Int
  | .exited code => code.val
  | .killed signal => 128 + signal.val

/-- **Every status of the kernel passes `_wait_status`.** -/
theorem checkStatus_eq (status : Status) (absent : Bool) :
    checkStatus status.exitCode status.exitSignal absent = .ok status.waitCode := by
  unfold checkStatus
  cases status with
  | exited code =>
    rw [if_pos (by simp only [Status.exitCode, Status.exitSignal]; omega)]
    rfl
  | killed signal =>
    rw [if_pos (by simp only [Status.exitCode, Status.exitSignal]; omega),
      if_pos (by simp only [Status.exitSignal]; omega)]
    rfl

theorem Accepts.exited {started : Bool} (h : Accepts records started none) (status : Status) :
    Accepts (records ++ [exitedRecord status.exitCode status.exitSignal]) started
      (some status.waitCode) := by
  apply h.next
  intro owner hf
  rw [exitedRecord, hf.receive_obj]
  show ∃ owner', owner.receiveExited _ = .ok owner' ∧ owner'.Follows started _
  refine ⟨_, by
    simp only [Owner.receiveExited, hf.ready, hf.exit]
    show (checkStatus status.exitCode status.exitSignal false >>= fun code => pure _) = _
    rw [checkStatus_eq]
    rfl, ?_⟩
  apply Owner.Follows.publishExit
  exact ⟨rfl, hf.acknowledged, hf.pending, rfl, hf.unfinished⟩

/-! ### The final record -/

/-- What makes a final record honest: its counters are below `2^64`, nothing was
forwarded that was not read, and a process that started was reaped; "exited" is the
outcome of a started process all of whose output was forwarded. -/
structure Honest (outcome : Outcome) (started : Bool) (totals : Totals) : Prop where
  reaped : started = true → 1 ≤ totals.reaped
  started : outcome = .exited → started = true
  stdout : totals.stdoutBytes ≤ totals.stdoutReadBytes
  stderr : totals.stderrBytes ≤ totals.stderrReadBytes
  complete : outcome = .exited → totals.stdoutReadBytes = totals.stdoutBytes ∧
    totals.stderrReadBytes = totals.stderrBytes
  reapedBound : totals.reaped < 2 ^ 64
  stdoutBound : totals.stdoutReadBytes < 2 ^ 64
  stderrBound : totals.stderrReadBytes < 2 ^ 64

theorem isCount_counter (n : Nat) : isCount (counter n) = true := by
  simp only [isCount, counter, asInt, decide_eq_true_eq]
  omega

section

variable {outcome : Outcome} {started : Bool} {exitCode : Int} {exitSignal : Nat}
  {totals : Totals} {stage errno : Nat}

theorem resultSchema_members (hstage : stage < 2 ^ 64) (herrno : errno < 2 ^ 64) :
    resultSchema (resultMembers outcome started exitCode exitSignal totals stage errno) = true := by
  have hs : isCount (.int stage) = true := by
    simp only [isCount, asInt, decide_eq_true_eq]
    omega
  have he : isCount (.int errno) = true := by
    simp only [isCount, asInt, decide_eq_true_eq]
    omega
  have hcounts : resultNumbers.all (fun name => isCount ((resultMembers outcome started exitCode
      exitSignal totals stage errno).read name)) = true := by
    show (isCount (counter totals.reaped) && (isCount (counter totals.signalsSent) &&
      (isCount (counter totals.stdoutReadBytes) && (isCount (counter totals.stderrReadBytes) &&
      (isCount (counter totals.stdoutBytes) && (isCount (counter totals.stderrBytes) &&
      (isCount (.int stage) && (isCount (.int errno) && true)))))))) = true
    simp only [isCount_counter, hs, he, Bool.and_self]
  rw [resultSchema, hcounts]
  rfl

theorem outcome_known : (outcomes.any fun o => decide (((resultMembers outcome started exitCode
    exitSignal totals stage errno).read "outcome").key = some (.str o))) = true := by
  cases outcome <;> rfl

theorem outcome_exited_iff : ((resultMembers outcome started exitCode exitSignal totals stage
    errno).read "outcome").key = some (.str "exited") ↔ outcome = .exited := by
  show some (PyKey.str outcome.text) = some (PyKey.str "exited") ↔ outcome = .exited
  cases outcome <;> decide +kernel

theorem Owner.failStart_nativeResult (owner : Owner) (message : Members) :
    (owner.failStart message).nativeResult = owner.nativeResult := by
  unfold Owner.failStart
  split <;> rfl

theorem Owner.failStart_exitCode (owner : Owner) (message : Members) :
    (owner.failStart message).exitCode = owner.exitCode := by
  unfold Owner.failStart
  split <;> rfl

theorem Owner.Follows.receive_result {owner : Owner} {exit : Option Int} {code : Int}
    (hf : owner.Follows started exit) (hhonest : Honest outcome started totals)
    (hstage : stage < 2 ^ 64) (herrno : errno < 2 ^ 64)
    (hwait : checkStatus exitCode exitSignal (!started) = .ok code) :
    ∃ owner', owner.receive (resultRecord outcome started exitCode exitSignal totals stage errno) =
        .ok owner' ∧
      owner'.nativeResult =
        some (resultMembers outcome started exitCode exitSignal totals stage errno) ∧
      owner'.exitCode = exit := by
  have hreaped : number (resultMembers outcome started exitCode exitSignal totals stage errno)
      "reaped" = totals.reaped :=
    congrArg Int.ofNat (Nat.mod_eq_of_lt hhonest.reapedBound)
  have hbytes : (["stdout", "stderr"].all fun name => decide
      (number (resultMembers outcome started exitCode exitSignal totals stage errno)
        (name ++ "Bytes") ≤ number (resultMembers outcome started exitCode exitSignal totals stage
          errno) (name ++ "ReadBytes"))) = true := by
    have h1 := hhonest.stdout
    have h2 := hhonest.stderr
    have h3 := hhonest.stdoutBound
    have h4 := hhonest.stderrBound
    show (decide ((((totals.stdoutBytes % 2 ^ 64 : Nat)) : Int) ≤
        (totals.stdoutReadBytes % 2 ^ 64 : Nat)) &&
      (decide ((((totals.stderrBytes % 2 ^ 64 : Nat)) : Int) ≤
        (totals.stderrReadBytes % 2 ^ 64 : Nat)) && true)) = true
    simp only [Bool.and_true, Bool.and_eq_true, decide_eq_true_eq]
    omega
  rw [resultRecord, hf.receive_obj]
  show ∃ owner', owner.receiveResult _ = .ok owner' ∧ _
  refine ⟨({ owner with nativeResult := some (resultMembers outcome started exitCode exitSignal
      totals stage errno) } : Owner).failStart (resultMembers outcome started exitCode exitSignal
      totals stage errno), ?_, Owner.failStart_nativeResult _ _,
    (Owner.failStart_exitCode _ _).trans hf.exit⟩
  simp only [Owner.receiveResult, bind_eq_ok, require_eq_ok, pure_eq_ok]
  refine ⟨(), resultSchema_members hstage herrno, (), rfl, (), outcome_known, code, hwait, (), ?_,
    (), ?_, (), hbytes, trivial⟩
  · show (started == owner.nativeStarted.isSome) = true
    rw [hf.acknowledged, beq_self_eq_true]
  · rw [hreaped, decide_eq_decide.mpr outcome_exited_iff]
    show (!(started && decide ((totals.reaped : Int) < 1)) &&
      !(decide (outcome = .exited) && !started)) = true
    cases started with
    | true =>
      have := hhonest.reaped rfl
      simp only [Bool.true_and, Bool.not_true, Bool.and_false, Bool.not_false, Bool.and_true,
        Bool.not_eq_true', decide_eq_false_iff_not]
      omega
    | false =>
      have : ¬outcome = .exited := fun h => Bool.noConfusion (hhonest.started h)
      simp [this]

/-- **An honest final record is accepted**, and `_clean` is true of the end of an
owner that forwarded what the record says. -/
theorem Accepts.clean {records : List Json} {exit : Option Int} {code : Int}
    (h : Accepts records started exit) (hhonest : Honest outcome started totals)
    (hstage : stage < 2 ^ 64) (herrno : errno < 2 ^ 64)
    (hwait : checkStatus exitCode exitSignal (!started) = .ok code)
    (hexit : started = true → exit = some code) (requested : Nat → Bool) :
    ∃ owner, Owner.control requested
        (records ++ [resultRecord outcome started exitCode exitSignal totals stage errno]) =
        .ok owner ∧
      owner.clean ⟨if started then 0 else 70, true, totals.stdoutBytes, totals.stderrBytes⟩ =
        .ok true := by
  obtain ⟨before, hcontrol, hf⟩ := h requested
  obtain ⟨owner, hreceive, hresult, hcode⟩ := (hf.interrupted
    (requested records.length)).receive_result hhonest hstage herrno hwait
  refine ⟨owner, ?_, ?_⟩
  · rw [Owner.control_snoc, hcontrol]
    exact hreceive
  · have hstdout : number (resultMembers outcome started exitCode exitSignal totals stage errno)
        "stdoutBytes" = totals.stdoutBytes :=
      congrArg Int.ofNat (Nat.mod_eq_of_lt (lt_of_le_of_lt hhonest.stdout hhonest.stdoutBound))
    have hstderr : number (resultMembers outcome started exitCode exitSignal totals stage errno)
        "stderrBytes" = totals.stderrBytes :=
      congrArg Int.ofNat (Nat.mod_eq_of_lt (lt_of_le_of_lt hhonest.stderr hhonest.stderrBound))
    have hall : ¬(outcome = .exited ∧
        (number (resultMembers outcome started exitCode exitSignal totals stage errno)
            "stdoutReadBytes" ≠ totals.stdoutBytes ∨
          number (resultMembers outcome started exitCode exitSignal totals stage errno)
            "stderrReadBytes" ≠ totals.stderrBytes)) := by
      rintro ⟨hexited, hne⟩
      obtain ⟨h1, h2⟩ := hhonest.complete hexited
      rcases hne with hne | hne
      · exact hne (h1 ▸ congrArg Int.ofNat (Nat.mod_eq_of_lt hhonest.stdoutBound))
      · exact hne (h2 ▸ congrArg Int.ofNat (Nat.mod_eq_of_lt hhonest.stderrBound))
    simp only [Owner.clean, hresult, hstdout, hstderr, outcome_exited_iff, ne_eq, not_true_eq_false,
      or_self, if_false]
    rw [if_neg, if_neg hall]
    case hnc =>
      show ¬(!true || (if started = true then (0 : Int) else 70) !=
        (if started = true then 0 else 70) || !true) = true
      simp
    cases hstarted : started with
    | false => rfl
    | true =>
      subst hstarted
      show (checkStatus exitCode exitSignal false).map
        (fun code => decide (some code = owner.exitCode)) = .ok true
      rw [show checkStatus exitCode exitSignal false = .ok code from hwait, hcode, hexit rfl]
      simp [Except.map]

end

end FoldGPT.Direct
