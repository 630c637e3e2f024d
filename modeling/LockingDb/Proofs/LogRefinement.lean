import LockingDb.Journal
import LockingDb.Proofs.RecordRoundTrip

namespace LockingDb

/-- A step in the use of a log: a call on it, or closing it and opening it again. -/
inductive LogStep where
  | call (c : LogCall)
  | reopen
  deriving DecidableEq

namespace LogStep

def record? : LogStep → Option LogRecord
  | call c => c.record?
  | reopen => none

/-- After these steps the entries must have reached the file. -/
def syncs : LogStep → Bool
  | call c => c.syncs
  | reopen => true

end LogStep

/-- The entry that a call writes has numbers of 64 bits and no double. -/
def LogCall.Fits (c : LogCall) : Prop := ∀ r ∈ c.record?, r.Fits

namespace LogFile

def perform (f : LogFile) : LogStep → Except Failure LogFile
  | .call c => .ok (f.write c)
  | .reopen => f.close.openLog

/-- The steps are made one after another, until one fails. -/
def run (f : LogFile) : List LogStep → Except Failure LogFile
  | [] => .ok f
  | step :: rest => do (← f.perform step).run rest

end LogFile

/-- The steps made on the log at a place. -/
def LogPlace.run (place : LogPlace) (steps : List LogStep) : Except Failure LogFile := do
  (← place.openLog).run steps

namespace Journal

/-- A log in memory stays as it is when it is opened again. -/
def perform (j : Journal) : LogStep → Journal
  | .call c => (j.write c).2
  | .reopen => j

def run (j : Journal) : List LogStep → Journal
  | [] => j
  | step :: rest => (j.perform step).run rest

/-- No call on the log fails. -/
def IsFaultless (j : Journal) : Prop := ∀ k call, j.faults k call = none

variable {j : Journal} {steps : List LogStep}

theorem IsFaultless.empty : Journal.empty.IsFaultless := fun _ _ => rfl

theorem IsFaultless.perform (h : j.IsFaultless) (step : LogStep) :
    (j.perform step).IsFaultless ∧ (j.perform step).records = j.records ++ step.record?.toList := by
  cases step with
  | call c =>
    have hwrite : j.write c = (.ok (), { j with
        calls := j.calls + 1, records := j.records ++ c.record?.toList }) := by
      unfold write
      rw [h j.calls c]
    rw [Journal.perform, hwrite]
    exact ⟨h, rfl⟩
  | reopen => exact ⟨h, (List.append_nil j.records).symm⟩

/-- A log in memory holds the entries of all calls in their order. -/
theorem IsFaultless.run (h : j.IsFaultless) :
    (j.run steps).records = j.records ++ steps.flatMap (·.record?.toList) := by
  induction steps generalizing j with
  | nil => exact (List.append_nil j.records).symm
  | cons step steps ih =>
    obtain ⟨hnext, hrecords⟩ := h.perform step
    rw [Journal.run, ih hnext, hrecords, List.flatMap_cons, List.append_assoc]

end Journal

theorem utf8Bytes_append (as bs : List Char) : utf8Bytes (as ++ bs) = utf8Bytes as ++ utf8Bytes bs :=
  List.flatMap_append

namespace LogFile

variable {f : LogFile} {rs : List LogRecord} {steps : List LogStep}

/-- All bytes of a log, flushed or not. -/
def bytes (f : LogFile) : List UInt8 := f.stored ++ f.waiting

/-- A call adds its entry, and nothing waits after a call that syncs. -/
theorem bytes_write (f : LogFile) (c : LogCall) :
    (f.write c).bytes = f.bytes ++ utf8Bytes (c.record?.toList.flatMap LogRecord.line) ∧
      (c.syncs = true → (f.write c).waiting = []) := by
  have hsettled (g : LogFile) (syncs : Bool) : (if syncs then g.flush else g).bytes = g.bytes ∧
      (syncs = true → (if syncs then g.flush else g).waiting = []) := by
    cases syncs with
    | false => exact ⟨rfl, fun hsyncs => absurd hsyncs Bool.false_ne_true⟩
    | true => exact ⟨List.append_nil _, fun _ => rfl⟩
  unfold LogFile.write
  cases c.record? with
  | none =>
    obtain ⟨hbytes, hwaiting⟩ := hsettled f c.syncs
    exact ⟨hbytes.trans (List.append_nil _).symm, hwaiting⟩
  | some r =>
    obtain ⟨hbytes, hwaiting⟩ := hsettled (f.append r) c.syncs
    refine ⟨hbytes.trans ?_, hwaiting⟩
    rw [Option.toList_some, List.flatMap_singleton]
    exact (List.append_assoc f.stored f.waiting _).symm

/-- A step is possible and keeps all bytes; opening a closed log finds them in the file. -/
theorem exists_perform (f : LogFile) (step : LogStep) : ∃ f', f.perform step = .ok f' ∧
    f'.bytes = f.bytes ++ utf8Bytes (step.record?.toList.flatMap LogRecord.line) ∧
    (step.syncs = true → f'.waiting = []) := by
  cases step with
  | call c => exact ⟨_, rfl, f.bytes_write c⟩
  | reopen => exact ⟨f.flush, rfl, rfl, fun _ => rfl⟩

/-- The steps on a log add the entries of all its calls. -/
theorem exists_run (f : LogFile) (steps : List LogStep) : ∃ f', f.run steps = .ok f' ∧
    f'.bytes = f.bytes ++
      utf8Bytes ((steps.flatMap (·.record?.toList)).flatMap LogRecord.line) ∧
    ∀ last, steps.getLast? = some last → last.syncs = true → f'.waiting = [] := by
  induction steps generalizing f with
  | nil => exact ⟨f, rfl, (List.append_nil _).symm, fun _ hlast => nomatch hlast⟩
  | cons step steps ih =>
    obtain ⟨next, hstep, hnext, hsyncs⟩ := f.exists_perform step
    obtain ⟨f', hrun, hbytes, hlast⟩ := ih next
    refine ⟨f', ?_, ?_, fun last hlast' => ?_⟩
    · rw [LogFile.run, hstep]
      exact hrun
    · rw [hbytes, hnext, List.flatMap_cons, List.flatMap_append, utf8Bytes_append,
        List.append_assoc]
    · cases steps with
      | nil =>
        have heq : step = last := Option.some.inj hlast'
        have hsame : next = f' := Except.ok.inj hrun
        rw [← heq, ← hsame]
        exact hsyncs
      | cons second steps => exact hlast last hlast'

/-- The bytes of a log, flushed or not, are those of the given entries. -/
def Holds (f : LogFile) (rs : List LogRecord) : Prop :=
  f.stored ++ f.waiting = utf8Bytes (rs.flatMap LogRecord.line)

theorem Holds.flush (h : f.Holds rs) : f.flush.Holds rs := by
  show f.stored ++ f.waiting ++ [] = _
  rw [List.append_nil, h]

/-- A log that is used holds the entries of all its steps. -/
theorem Holds.run (h : f.Holds rs) : ∃ f', f.run steps = .ok f' ∧
    f'.Holds (rs ++ steps.flatMap (·.record?.toList)) ∧
    ∀ last, steps.getLast? = some last → last.syncs = true → f'.waiting = [] := by
  obtain ⟨f', hrun, hbytes, hlast⟩ := f.exists_run steps
  refine ⟨f', hrun, ?_, hlast⟩
  show f'.bytes = _
  rw [hbytes, List.flatMap_append, utf8Bytes_append]
  exact congrArg (· ++ _) h

/-- Nothing waits, so a reader finds all entries in the file. -/
theorem Holds.records (h : f.Holds rs) (hwaiting : f.waiting = []) (hfits : ∀ r ∈ rs, r.Fits) :
    f.records = .ok rs := by
  unfold Holds at h
  rw [hwaiting, List.append_nil] at h
  rw [LogFile.records, h]
  exact readLog_lines hfits

end LogFile

/-- A log file refines a log in memory: starting with no file, all steps succeed, and after a call
that syncs, after opening the log again and after closing it, a reader of the file finds exactly
the entries of a log in memory on which the same calls were made. -/
theorem LogPlace.refines_memory {steps : List LogStep}
    (hfits : ∀ c, .call c ∈ steps → c.Fits) :
    ∃ f, LogPlace.absent.run steps = .ok f ∧
      (∀ last, steps.getLast? = some last → last.syncs = true →
        f.records = .ok (Journal.empty.run steps).records) ∧
      f.close.read = .ok (Journal.empty.run steps).records := by
  have hmemory : (Journal.empty.run steps).records = steps.flatMap (·.record?.toList) :=
    Journal.IsFaultless.empty.run
  have hentries : ∀ r ∈ steps.flatMap (·.record?.toList), r.Fits := by
    intro r hr
    obtain ⟨step, hstep, hr⟩ := List.mem_flatMap.mp hr
    cases step with
    | call c => exact hfits c hstep r (Option.mem_toList.mp hr)
    | reopen => cases hr
  have hopened : LogFile.Holds ⟨[], []⟩ [] := rfl
  obtain ⟨f, hrun, hholds, hlast⟩ := hopened.run
  rw [hmemory]
  refine ⟨f, hrun, fun last hlast' hsyncs => ?_, ?_⟩
  · exact hholds.records (hlast last hlast' hsyncs) hentries
  · exact hholds.flush.records rfl hentries

/-- Quotes, line ends and a control character in a statement, a row of every kind of value but a
double, and a log that is opened again between the row and its commit. -/
theorem LogPlace.refines_memory_escapedThenReopened :
    ∃ f, LogPlace.absent.run [.call (.statement 1 "a\"\\\r\n\x01é"),
        .call (.action 1 .insert ⟨7, 2, 3, [.null, .boolean true, .integer (-5), .bigInt 6,
          .varchar "\n", .blob [0, 10, 255]]⟩), .reopen, .call (.commit 1 9)] = .ok f ∧
      f.records = .ok [.statement 1 "a\"\\\r\n\x01é",
        .insert 1 3 2 [.null, .boolean true, .integer (-5), .bigInt 6, .varchar "\n",
          .blob [0, 10, 255]], .commit 1 9] ∧ f.close.read = f.records := by
  have hfits : ∀ c, .call c ∈ [LogStep.call (.statement 1 "a\"\\\r\n\x01é"),
      .call (.action 1 .insert ⟨7, 2, 3, [.null, .boolean true, .integer (-5), .bigInt 6,
        .varchar "\n", .blob [0, 10, 255]]⟩), .reopen, .call (.commit 1 9)] → c.Fits := by
    intro c hc r hr
    simp only [List.mem_cons, LogStep.call.injEq, List.not_mem_nil, or_false, reduceCtorEq,
      false_or] at hc
    rcases hc with rfl | rfl | rfl
    · obtain rfl := Option.some.inj hr
      exact show 1 < UInt64.size by decide
    · obtain rfl := Option.some.inj hr
      exact ⟨by decide, by decide, by decide, by decide⟩
    · obtain rfl := Option.some.inj hr
      exact ⟨by decide, by decide⟩
  obtain ⟨f, hrun, hsynced, hclosed⟩ := LogPlace.refines_memory hfits
  have hrecords := hsynced _ rfl rfl
  exact ⟨f, hrun, hrecords, hclosed.trans hrecords.symm⟩

end LockingDb
