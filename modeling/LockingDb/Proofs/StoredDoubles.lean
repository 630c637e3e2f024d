import LockingDb.Proofs.DoubleRoundTrip
import LockingDb.Proofs.LogRefinement
import Mathlib.Data.List.Forall2

namespace LockingDb

namespace Value

variable {v : Value}

/-- Infinities and doubles that are no number are not finite. -/
def isFinite : Value → Bool
  | double bits => Binary64.isFinite bits
  | _ => true

/-- What has become of a value that was written and read again. -/
inductive Recovers : Value → Value → Prop where
  | double {written found : UInt64} (h : Binary64.Recovers written found) :
    Recovers (double written) (double found)
  | same {v : Value} (h : v.isDouble = false) : Recovers v v

theorem Recovers.eq_of_short {bits : UInt64} {w : Value} (h : Recovers (.double bits) w)
    (hshort : Binary64.isShort bits = true) : w = .double bits := by
  cases h with
  | double h => rw [h.short hshort]
  | same h => cases h

theorem ofTree?_double (bits : UInt64) : ofTree? (double bits).toTree =
    ((DoubleWriting.text? bits).bind DoubleReading.bits?).map double := by
  simp only [toTree, ofTree?, JsonTree.variant?_record]
  cases DoubleWriting.text? bits with
  | none => rfl
  | some t => rfl

theorem exists_ofTree? (h : v.isFinite = true) : ∃ w, ofTree? v.toTree = some w ∧ Recovers v w := by
  cases v with
  | double bits =>
    obtain ⟨found, hfound⟩ := Binary64.exists_recovers h
    exact ⟨double found, by rw [ofTree?_double, hfound.read, Option.map_some], .double hfound⟩
  | _ => exact ⟨_, ofTree?_toTree rfl, .same rfl⟩

theorem ofTree?_eq_none (h : v.isFinite = false) : ofTree? v.toTree = none := by
  cases v with
  | double bits =>
    rw [ofTree?_double, DoubleWriting.text?_eq_none h]
    rfl
  | _ => cases h

end Value

/-- A reader that finds something for each item of a list finds a list. -/
theorem exists_mapM {α β : Type} {read : α → Option β} {R : α → β → Prop} {xs : List α}
    (h : ∀ x ∈ xs, ∃ y, read x = some y ∧ R x y) :
    ∃ ys, xs.mapM read = some ys ∧ List.Forall₂ R xs ys := by
  induction xs with
  | nil => exact ⟨[], rfl, .nil⟩
  | cons x xs ih =>
    obtain ⟨y, hy, hxy⟩ := h x List.mem_cons_self
    obtain ⟨ys, hys, hall⟩ := ih fun z hz => h z (List.mem_cons_of_mem x hz)
    exact ⟨y :: ys, by rw [List.mapM_cons, hy, hys]; rfl, .cons hxy hall⟩

theorem mapM_eq_none {α β : Type} {read : α → Option β} {x : α} {xs : List α} (hx : x ∈ xs)
    (h : read x = none) : xs.mapM read = none := by
  induction xs with
  | nil => cases hx
  | cons first xs ih =>
    rw [List.mapM_cons]
    rcases List.mem_cons.mp hx with rfl | hx
    · rw [h]
      rfl
    · rw [ih hx]
      cases read first with
      | none => rfl
      | some y => rfl

namespace LogRecord

variable {r : LogRecord}

/-- Every number of an entry has 64 bits. -/
def Counts : LogRecord → Prop
  | statement session _ => session < UInt64.size
  | insert session table position _ | delete session table position =>
    session < UInt64.size ∧ table < UInt64.size ∧ position < UInt64.size
  | commit session timestamp => session < UInt64.size ∧ timestamp < UInt64.size
  | checkpoint => True

/-- No infinity stands in an entry, and no double that is no number. -/
def isFinite : LogRecord → Bool
  | insert _ _ _ values => values.all Value.isFinite
  | _ => true

/-- What has become of an entry that was written and read again. -/
def Recovers (written found : LogRecord) : Prop :=
  match written with
  | insert session table position values =>
    ∃ values', found = insert session table position values' ∧
      List.Forall₂ Value.Recovers values values'
  | _ => found = written

theorem ofTree?_insert_of_counts {session : SessionId} {table : TableId} {position : RowPosition}
    {values : List Value} (h : (insert session table position values).Counts) :
    ofTree? (insert session table position values).toTree =
      (values.mapM fun v => Value.ofTree? v.toTree).map (insert session table position) := by
  obtain ⟨hsession, htable, hposition⟩ := h
  have hvalues : (JsonTree.array (values.map Value.toTree)).list? Value.ofTree? =
      values.mapM fun v => Value.ofTree? v.toTree := List.mapM_map
  rw [toTree, ofTree?_insert, insertOfTree?_record, count?_ofNat hsession, count?_ofNat htable,
    count?_ofNat hposition, hvalues]
  cases values.mapM fun v => Value.ofTree? v.toTree with
  | none => rfl
  | some values' => rfl

theorem exists_ofTree? (hcounts : r.Counts) (h : r.isFinite = true) :
    ∃ found, ofTree? r.toTree = some found ∧ r.Recovers found := by
  cases r with
  | insert session table position values =>
    obtain ⟨values', hread, hall⟩ := exists_mapM fun v hv =>
      Value.exists_ofTree? (List.all_eq_true.mp h v hv)
    refine ⟨insert session table position values', ?_, values', rfl, hall⟩
    rw [ofTree?_insert_of_counts hcounts, hread]
    rfl
  | _ => exact ⟨_, ofTree?_toTree hcounts, rfl⟩

theorem ofTree?_eq_none (hcounts : r.Counts) (h : r.isFinite = false) :
    ofTree? r.toTree = none := by
  cases r with
  | insert session table position values =>
    obtain ⟨v, hmem, hv⟩ := List.all_eq_false.mp h
    rw [ofTree?_insert_of_counts hcounts,
      mapM_eq_none hmem (Value.ofTree?_eq_none (Bool.eq_false_of_not_eq_true hv))]
    rfl
  | _ => cases h

end LogRecord

/-- A log is read if and only if all its entries are finite. -/
theorem readLog_finite {rs : List LogRecord} (hcounts : ∀ r ∈ rs, r.Counts)
    (h : rs.all LogRecord.isFinite = true) :
    ∃ found, readLog (utf8Bytes (rs.flatMap LogRecord.line)) = .ok found ∧
      List.Forall₂ LogRecord.Recovers rs found := by
  obtain ⟨found, hfound, hall⟩ := exists_mapM fun r hr =>
    LogRecord.exists_ofTree? (hcounts r hr) (List.all_eq_true.mp h r hr)
  exact ⟨found, by rw [readLog_entries, hfound], hall⟩

theorem readLog_not_finite {rs : List LogRecord} (hcounts : ∀ r ∈ rs, r.Counts)
    (h : rs.all LogRecord.isFinite = false) :
    readLog (utf8Bytes (rs.flatMap LogRecord.line)) = .error .malformedText := by
  obtain ⟨r, hr, hbad⟩ := List.all_eq_false.mp h
  rw [readLog_entries, mapM_eq_none hr
    (LogRecord.ofTree?_eq_none (hcounts r hr) (Bool.eq_false_of_not_eq_true hbad))]

/-- The entry that a call writes has numbers of 64 bits. -/
def LogCall.Counts (c : LogCall) : Prop := ∀ r ∈ c.record?, r.Counts

namespace LogPlace

variable {steps : List LogStep}

/-- All entries that were written are read from the file, those of a call that syncs at once. -/
theorem exists_read (steps : List LogStep) : ∃ f, LogPlace.absent.run steps = .ok f ∧
    (∀ last, steps.getLast? = some last → last.syncs = true → f.records = f.close.read) ∧
    f.close.read =
      readLog (utf8Bytes ((Journal.empty.run steps).records.flatMap LogRecord.line)) := by
  obtain ⟨f, hrun, hbytes, hlast⟩ := LogFile.exists_run ⟨[], []⟩ steps
  refine ⟨f, hrun, fun last hlast' hsyncs => ?_, ?_⟩
  · show readLog f.stored = readLog (f.stored ++ f.waiting)
    rw [hlast last hlast' hsyncs, List.append_nil]
  · have hmemory : (Journal.empty.run steps).records = steps.flatMap (·.record?.toList) :=
      Journal.IsFaultless.empty.run
    rw [hmemory]
    exact congrArg readLog hbytes

theorem counts_of_steps (h : ∀ c, .call c ∈ steps → c.Counts) :
    ∀ r ∈ (Journal.empty.run steps).records, r.Counts := by
  rw [show (Journal.empty.run steps).records = steps.flatMap (·.record?.toList) from
    Journal.IsFaultless.empty.run]
  intro r hr
  obtain ⟨step, hstep, hr⟩ := List.mem_flatMap.mp hr
  cases step with
  | call c => exact h c hstep r (Option.mem_toList.mp hr)
  | reopen => cases hr

/-- A log file refines a log in memory on which the same calls were made, except for doubles. If
all doubles are finite, every entry is found, a double with its sign, at most six units in the last
place away, and unchanged if its text is short. A single double that is infinite or no number
makes the whole log unreadable. -/
theorem finite_doubles_read_back (hcounts : ∀ c, .call c ∈ steps → c.Counts) :
    ∃ f, LogPlace.absent.run steps = .ok f ∧
      (∀ last, steps.getLast? = some last → last.syncs = true → f.records = f.close.read) ∧
      ((Journal.empty.run steps).records.all LogRecord.isFinite = true →
        ∃ found, f.close.read = .ok found ∧
          List.Forall₂ LogRecord.Recovers (Journal.empty.run steps).records found) ∧
      ((Journal.empty.run steps).records.all LogRecord.isFinite = false →
        f.close.read = .error .malformedText) := by
  have hentries := counts_of_steps hcounts
  obtain ⟨f, hrun, hsynced, hclosed⟩ := exists_read steps
  refine ⟨f, hrun, hsynced, fun hfinite => ?_, fun hbad => ?_⟩
  · rw [hclosed]
    exact readLog_finite hentries hfinite
  · rw [hclosed]
    exact readLog_not_finite hentries hbad

/-- One and a half, minus zero and a text are read back as they were written. -/
theorem finite_doubles_read_back_shortDecimals :
    ∃ f, LogPlace.absent.run [.call (.action 1 .insert ⟨7, 2, 3, [.double 0x3ff8000000000000,
        .double 0x8000000000000000, .varchar "a"]⟩), .call (.commit 1 9)] = .ok f ∧
      f.records = .ok [.insert 1 3 2 [.double 0x3ff8000000000000, .double 0x8000000000000000,
        .varchar "a"], .commit 1 9] := by
  have hcounts : ∀ c, .call c ∈ [LogStep.call (.action 1 .insert ⟨7, 2, 3,
      [.double 0x3ff8000000000000, .double 0x8000000000000000, .varchar "a"]⟩),
      .call (.commit 1 9)] → c.Counts := by
    intro c hc r hr
    simp only [List.mem_cons, LogStep.call.injEq, List.not_mem_nil, or_false] at hc
    rcases hc with rfl | rfl
    · obtain rfl := Option.some.inj hr
      exact ⟨by decide, by decide, by decide⟩
    · obtain rfl := Option.some.inj hr
      exact ⟨by decide, by decide⟩
  obtain ⟨f, hrun, hsynced, hread, -⟩ := finite_doubles_read_back hcounts
  obtain ⟨found, hfound, hall⟩ := hread (by decide)
  refine ⟨f, hrun, (hsynced _ rfl rfl).trans (hfound.trans (congrArg Except.ok ?_))⟩
  obtain _ | ⟨⟨values, rfl, hvalues⟩, _ | ⟨rfl, _ | _⟩⟩ := hall
  obtain _ | ⟨hfirst, _ | ⟨hsecond, _ | ⟨_ | _, _ | _⟩⟩⟩ := hvalues
  obtain rfl := hfirst.eq_of_short (by decide +kernel)
  obtain rfl := hsecond.eq_of_short (by decide +kernel)
  rfl

/-- A row with a double that is no number is not read back, although its transaction has
committed. -/
theorem notANumber_not_read_back : ¬∀ (session : SessionId) (row : Row) (timestamp : Timestamp),
    session < UInt64.size → row.table < UInt64.size → row.position < UInt64.size →
      timestamp < UInt64.size → ∃ f values, LogPlace.absent.run
          [.call (.action session .insert row), .call (.commit session timestamp)] = .ok f ∧
        f.records = .ok [.insert session row.table row.position values,
          .commit session timestamp] ∧
        List.Forall₂ (fun v w => v.sameAs w = true) row.values values := by
  intro h
  obtain ⟨f, values, hrun, hrecords, -⟩ := h 1 ⟨1, 1, 1, [.double 0x7ff8000000000000]⟩ 1
    (by decide) (by decide) (by decide) (by decide)
  obtain ⟨f', hrun', hsynced, hclosed⟩ := exists_read
    [.call (.action 1 .insert ⟨1, 1, 1, [.double 0x7ff8000000000000]⟩), .call (.commit 1 1)]
  obtain rfl : f = f' := Except.ok.inj (hrun.symm.trans hrun')
  have hcounts : ∀ r ∈ [LogRecord.insert 1 1 1 [.double 0x7ff8000000000000], .commit 1 1],
      r.Counts := by
    intro r hr
    simp only [List.mem_cons, List.not_mem_nil, or_false] at hr
    rcases hr with rfl | rfl
    · exact ⟨by decide, by decide, by decide⟩
    · exact ⟨by decide, by decide⟩
  have hlost := hclosed.trans (readLog_not_finite hcounts (by decide))
  rw [hsynced _ rfl rfl, hlost] at hrecords
  cases hrecords

end LogPlace

end LockingDb
