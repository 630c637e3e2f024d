import LockingDb.Proofs.LogRefinement
import LockingDb.Proofs.PrefixReading

namespace LockingDb

variable {bytes more : List UInt8} {text cs : List Char} {c : Char}

/-- What stands after the last line end of a file. -/
def openLine : List UInt8 → List UInt8
  | [] => []
  | b :: rest => if 10 ∈ b :: rest then openLine rest else b :: rest

/-- The bytes of a space, a tab and a carriage return. A record may begin after them on its line. -/
def isBlankByte (b : UInt8) : Bool := b = 9 || b = 13 || b = 32

theorem openLine_of_notMem (h : 10 ∉ bytes) : openLine bytes = bytes := by
  cases bytes with
  | nil => rfl
  | cons b rest => exact if_neg h

theorem openLine_lineEnd {l rest : List UInt8} : openLine (l ++ 10 :: rest) = openLine rest := by
  induction l with
  | nil => exact if_pos List.mem_cons_self
  | cons b l ih =>
    rw [List.cons_append, openLine, if_pos (by simp), ih]

/-- What is added to a file goes on with its last line, and the lines before that one stay. -/
theorem exists_lines_before (bytes : List UInt8) : 10 ∉ openLine bytes ∧
    ∃ ls, ∀ more, byteLines (bytes ++ more) = ls ++ byteLines (openLine bytes ++ more) := by
  induction hlength : bytes.length using Nat.strong_induction_on generalizing bytes with
  | h n ih =>
    by_cases hend : 10 ∈ bytes
    · obtain ⟨l, rest, rfl, hl⟩ := List.eq_append_cons_of_mem hend
      have hless : rest.length < n := by
        rw [← hlength, List.length_append, List.length_cons]
        omega
      obtain ⟨hopen, ls, hls⟩ := ih rest.length hless rest rfl
      rw [openLine_lineEnd]
      refine ⟨hopen, l :: ls, fun more => ?_⟩
      rw [List.append_assoc, List.cons_append, byteLines_line hl, hls, List.cons_append]
    · rw [openLine_of_notMem hend]
      exact ⟨hend, [], fun _ => rfl⟩

/-- Bytes without a line end are one line, if there are any. -/
theorem byteLines_of_notMem {b : UInt8} (h : 10 ∉ b :: bytes) : byteLines (b :: bytes) = [b :: bytes] := by
  induction bytes generalizing b with
  | nil =>
    obtain ⟨hne, -⟩ := not_or.mp fun hmem => h (List.mem_cons.mpr hmem)
    exact if_neg (Ne.symm hne)
  | cons c bytes ih =>
    obtain ⟨hne, hrest⟩ := not_or.mp fun hmem => h (List.mem_cons.mpr hmem)
    rw [byteLines, if_neg (Ne.symm hne), ih hrest]

/-- Bytes that are read as a text are the bytes of that text. -/
theorem eq_utf8Bytes_of_text (h : utf8Text? bytes = some text) : bytes = utf8Bytes text := by
  have hsome : bytes.toByteArray.utf8Decode?.isSome := by
    obtain ⟨cs, hcs, -⟩ := Option.map_eq_some_iff.mp h
    rw [hcs]
    rfl
  obtain ⟨cs, hcs⟩ := ByteArray.isSome_utf8Decode?_iff.mp hsome
  have hbytes : bytes = utf8Bytes cs := by
    have hdata := congrArg (fun b : ByteArray => b.data.toList) hcs
    simp only [List.utf8Encode, List.toList_data_toByteArray] at hdata
    exact hdata
  rw [hbytes, utf8Text?_utf8Bytes] at h
  rw [hbytes, Option.some.inj h]

theorem le_of_isBlankByte {b : UInt8} (h : isBlankByte b = true) : b.toNat ≤ 32 := by
  simp only [isBlankByte, Bool.or_eq_true, decide_eq_true_eq] at h
  rcases h with (rfl | rfl) | rfl <;> decide

/-- Only blanks are written with the bytes of blanks. -/
theorem isBlank_of_bytes (h : ∀ b ∈ String.utf8EncodeChar c, isBlankByte b = true) :
    JsonTree.isBlank c = true := by
  have hall : ∀ v : Fin 128, isBlankByte (UInt8.ofNat v) = true →
      JsonTree.isBlank (Char.ofNat v) = true := by decide
  have habsurd {n : Nat} {rest : List UInt8} (hn : n < 256) (hle : 33 ≤ n)
      (h : ∀ b ∈ UInt8.ofNat n :: rest, isBlankByte b = true) : False := by
    have hfirst := le_of_isBlankByte (h _ List.mem_cons_self)
    rw [UInt8.toNat_ofNat_of_lt' hn] at hfirst
    omega
  rw [String.utf8EncodeChar] at h
  split at h
  next hascii =>
    have hblank := hall ⟨c.toNat, Nat.lt_succ_of_le hascii⟩ (h _ List.mem_cons_self)
    rwa [Char.ofNat_toNat] at hblank
  next =>
    split at h
    next => exact (habsurd (by omega) (by omega) h).elim
    next =>
      split at h
      next => exact (habsurd (by omega) (by omega) h).elim
      next => exact (habsurd (by omega) (by omega) h).elim

theorem isBlankByte_of_mem (hc : JsonTree.isBlank c = true) (hne : c ≠ '\n') {b : UInt8}
    (hb : b ∈ String.utf8EncodeChar c) : isBlankByte b = true := by
  simp only [JsonTree.isBlank, Bool.or_eq_true, decide_eq_true_eq] at hc
  rcases hc with ((rfl | rfl) | rfl) | rfl
  · rw [List.mem_singleton.mp hb]
    rfl
  · exact absurd rfl hne
  · rw [List.mem_singleton.mp hb]
    rfl
  · rw [List.mem_singleton.mp hb]
    rfl

/-- The last line has only blanks as bytes if it has only blanks as characters. -/
theorem all_isBlankByte_iff (h : 10 ∉ utf8Bytes cs) :
    (utf8Bytes cs).all isBlankByte = true ↔ JsonTree.skipBlanks cs = [] := by
  unfold JsonTree.skipBlanks
  rw [List.all_eq_true, List.dropWhile_eq_nil_iff]
  have hbytes {c : Char} (hc : c ∈ cs) {b : UInt8} (hb : b ∈ String.utf8EncodeChar c) :
      b ∈ utf8Bytes cs := List.mem_flatMap.mpr ⟨c, hc, hb⟩
  constructor
  · exact fun hall c hc => isBlank_of_bytes fun b hb => hall b (hbytes hc hb)
  · intro hall b hb
    obtain ⟨c, hc, hb⟩ := List.mem_flatMap.mp hb
    refine isBlankByte_of_mem (hall c hc) ?_ hb
    rintro rfl
    exact h (hbytes hc List.mem_cons_self)

theorem readLogLines_append {as bs : List (List UInt8)} : readLogLines (as ++ bs) = (do
    let rs ← readLogLines as
    let qs ← readLogLines bs
    .ok (rs ++ qs)) := by
  induction as with
  | nil =>
    show readLogLines bs = (readLogLines bs).bind fun qs => .ok ([] ++ qs)
    cases readLogLines bs <;> rfl
  | cons l as ih =>
    rw [List.cons_append, readLogLines, readLogLines, ih]
    cases readLogLine l with
    | error f => rfl
    | ok r =>
      cases readLogLines as with
      | error f => rfl
      | ok rs =>
        cases readLogLines bs with
        | error f => rfl
        | ok qs => exact congrArg Except.ok (List.append_assoc r.toList rs qs).symm

/-- No tree begins with white space that is not a blank. -/
theorem JsonTree.readTree_whiteSpace {room : Nat} (hspace : isWhiteSpace c = true)
    (hblank : isBlank c = false) : readTree room (c :: cs) = none := by
  have hother {d : Char} (hd : isWhiteSpace d = false) : c ≠ d := by
    rintro rfl
    rw [hspace] at hd
    cases hd
  cases room with
  | zero => rfl
  | succ room =>
    rw [readTree, skipBlanks_cons hblank]
    split
    next heq => exact absurd (List.cons.inj heq).1 (hother rfl)
    next heq => exact absurd (List.cons.inj heq).1 (hother rfl)
    next heq => exact absurd (List.cons.inj heq).1 (hother rfl)
    next heq => exact absurd (List.cons.inj heq).1 (hother rfl)
    next heq => exact absurd (List.cons.inj heq).1 (hother rfl)
    next heq => exact absurd (List.cons.inj heq).1 (hother rfl)
    next =>
      cases hread : NumberText.read (c :: cs) with
      | none => rfl
      | some read =>
        obtain ⟨text, rest⟩ := read
        obtain ⟨d, tail, heq, hd⟩ := NumberText.head_of_read hread
        cases heq
        rcases hd with rfl | ⟨d, rfl⟩
        · cases hspace
        · have hdigit : ∀ d : Digit, isWhiteSpace d.char = false := by decide
          rw [hdigit d] at hspace
          cases hspace

namespace LogRecord

variable {r old : LogRecord}

/-- An entry that has been read ends with a quote or a bracket. -/
theorem isClosed_of_ofTree? {tree : JsonTree} (h : ofTree? tree = some r) : tree.isClosed = true := by
  cases tree with
  | number text => cases h
  | _ => rfl

/-- Nothing follows an entry on its line. -/
theorem parse?_append_of_some (h : parse? text = some old) (hmore : JsonTree.skipBlanks cs ≠ []) :
    parse? (text ++ cs) = none := by
  obtain ⟨tree, htree, hold⟩ := Option.bind_eq_some_iff.mp h
  rw [parse?, JsonTree.parse?_append htree (isClosed_of_ofTree? hold) hmore]
  rfl

theorem skipBlanks_render (r : LogRecord) : JsonTree.skipBlanks r.toTree.render ≠ [] := by
  cases r <;> exact List.cons_ne_nil _ _

theorem parse?_blanks (hr : r.Fits) (h : JsonTree.skipBlanks text = []) :
    parse? (text ++ r.toTree.render) = some r := by
  rw [parse?, JsonTree.parse?_blanks_append (toTree_wellFormed r) h]
  exact ofTree?_toTree hr

/-- Other white space than blanks may not stand before an entry. -/
theorem parse?_whiteSpace (h : text.all isWhiteSpace = true) (hblank : JsonTree.skipBlanks text ≠ []) :
    parse? (text ++ cs) = none := by
  obtain ⟨c, rest, hskip⟩ := List.exists_cons_of_ne_nil hblank
  have hc : c ∈ text := by
    refine (List.dropWhile_suffix JsonTree.isBlank).subset (show c ∈ JsonTree.skipBlanks text from ?_)
    rw [hskip]
    exact List.mem_cons_self
  have hnot : JsonTree.isBlank c = false := by
    have hhead := List.head?_dropWhile_not JsonTree.isBlank text
    rw [show text.dropWhile JsonTree.isBlank = c :: rest from hskip] at hhead
    exact hhead
  rw [parse?, JsonTree.parse?, ← JsonTree.readTree_skipBlanks, JsonTree.skipBlanks_append_of_cons hskip,
    JsonTree.readTree_whiteSpace (List.all_eq_true.mp h c hc) hnot]
  rfl

end LogRecord

variable {r : LogRecord} {rs qs : List LogRecord} {old : Option LogRecord} {content : List UInt8}

theorem isWhiteSpace_of_isBlank (h : JsonTree.isBlank c = true) : isWhiteSpace c = true := by
  simp only [JsonTree.isBlank, Bool.or_eq_true, decide_eq_true_eq] at h
  rcases h with ((rfl | rfl) | rfl) | rfl <;> decide

/-- An entry that is written on a line that can be read is read after blanks only. -/
theorem readLogLine_append (hr : r.Fits) (hopen : 10 ∉ bytes) (hread : readLogLine bytes = .ok old) :
    (bytes.all isBlankByte = true → old = none) ∧
      readLogLine (bytes ++ utf8Bytes r.toTree.render) =
        if bytes.all isBlankByte then .ok (some r) else .error .malformedText := by
  have hdecode : ∃ text, utf8Text? bytes = some text := by
    unfold readLogLine at hread
    split at hread
    next => cases hread
    next text htext => exact ⟨text, htext⟩
  obtain ⟨text, htext⟩ := hdecode
  obtain rfl := eq_utf8Bytes_of_text htext
  have hnot : (text ++ r.toTree.render).all isWhiteSpace = false := by
    rw [List.all_append, r.render_not_blank, Bool.and_false]
  have hiff := all_isBlankByte_iff hopen
  rw [← utf8Bytes_append, readLogLine_utf8Bytes hnot]
  cases hspace : text.all isWhiteSpace with
  | true =>
    rw [readLogLine, htext] at hread
    simp only [hspace, if_true] at hread
    refine ⟨fun _ => (Except.ok.inj hread).symm, ?_⟩
    by_cases hblank : (utf8Bytes text).all isBlankByte = true
    · rw [if_pos hblank, LogRecord.parse?_blanks hr (hiff.mp hblank)]
    · rw [if_neg hblank, LogRecord.parse?_whiteSpace hspace fun hskip => hblank (hiff.mpr hskip)]
  | false =>
    have hblank : ¬(utf8Bytes text).all isBlankByte = true := by
      intro hall
      have hskip := List.dropWhile_eq_nil_iff.mp (hiff.mp hall)
      have hwhite : text.all isWhiteSpace = true :=
        List.all_eq_true.mpr fun c hc => isWhiteSpace_of_isBlank (hskip c hc)
      rw [hspace] at hwhite
      cases hwhite
    rw [readLogLine_utf8Bytes hspace] at hread
    refine ⟨fun hall => absurd hall hblank, ?_⟩
    rw [if_neg hblank]
    cases hparse : LogRecord.parse? text with
    | none =>
      rw [hparse] at hread
      cases hread
    | some record => rw [LogRecord.parse?_append_of_some hparse r.skipBlanks_render]

/-- The entries on the last line of a file, which has no line end. -/
theorem readLogLine_of_openLine (hopen : 10 ∉ bytes)
    (h : readLogLines (byteLines bytes) = .ok rs) : ∃ old, readLogLine bytes = .ok old ∧
      rs = old.toList := by
  cases bytes with
  | nil =>
    refine ⟨none, ?_, (Except.ok.inj h).symm⟩
    have htext := utf8Text?_utf8Bytes []
    rw [readLogLine, show utf8Text? [] = some [] from htext]
    rfl
  | cons b bytes =>
    rw [byteLines_of_notMem hopen, readLogLines] at h
    cases hline : readLogLine (b :: bytes) with
    | error f =>
      rw [hline] at h
      cases h
    | ok old =>
      rw [hline] at h
      exact ⟨old, rfl, (Except.ok.inj h).symm.trans (List.append_nil _)⟩

/-- Entries that are written to a log that can be read: the first one goes on with the last line. -/
theorem readLog_append (h : readLog content = .ok rs) (hfits : ∀ q ∈ r :: qs, q.Fits) :
    readLog (content ++ utf8Bytes ((r :: qs).flatMap LogRecord.line)) =
      if (openLine content).all isBlankByte then .ok (rs ++ r :: qs) else .error .malformedText := by
  have hr : r.Fits := hfits r List.mem_cons_self
  obtain ⟨hopen, ls, hls⟩ := exists_lines_before content
  have hbytes : utf8Bytes ((r :: qs).flatMap LogRecord.line) =
      utf8Bytes r.toTree.render ++ 10 :: utf8Bytes (qs.flatMap LogRecord.line) := by
    rw [List.flatMap_cons, LogRecord.line, utf8Bytes_append, utf8Bytes_append, List.append_assoc]
    rfl
  have hline : 10 ∉ openLine content ++ utf8Bytes r.toTree.render := by
    rw [List.mem_append, not_or]
    exact ⟨hopen, lineEnd_notMem_utf8Bytes
      (JsonTree.le_of_mem_render _ (LogRecord.toTree_wellFormed r))⟩
  have hrest : readLogLines (byteLines (utf8Bytes (qs.flatMap LogRecord.line))) = .ok qs :=
    readLog_lines fun q hq => hfits q (List.mem_cons_of_mem r hq)
  rw [readLog, ← List.append_nil content, hls, List.append_nil, readLogLines_append] at h
  unfold readLog
  rw [hbytes, hls, ← List.append_assoc, byteLines_line hline, readLogLines_append, readLogLines,
    hrest]
  cases hfirst : readLogLines ls with
  | error f =>
    rw [hfirst] at h
    cases h
  | ok first =>
    cases hlast : readLogLines (byteLines (openLine content)) with
    | error f =>
      rw [hfirst, hlast] at h
      cases h
    | ok last =>
      rw [hfirst, hlast] at h
      obtain ⟨old, hold, rfl⟩ := readLogLine_of_openLine hopen hlast
      obtain ⟨hnone, happended⟩ := readLogLine_append hr hopen hold
      obtain rfl : first ++ old.toList = rs := Except.ok.inj h
      rw [happended]
      split
      next hblank =>
        rw [hnone hblank]
        show Except.ok (first ++ r :: qs) = Except.ok (first ++ [] ++ r :: qs)
        rw [List.append_nil]
      next => rfl

namespace LogPlace

variable {steps : List LogStep}

theorem fits_of_steps (hfits : ∀ c, .call c ∈ steps → c.Fits) :
    ∀ r ∈ steps.flatMap (·.record?.toList), r.Fits := by
  intro r hr
  obtain ⟨step, hstep, hr⟩ := List.mem_flatMap.mp hr
  cases step with
  | call c => exact hfits c hstep r (Option.mem_toList.mp hr)
  | reopen => cases hr

theorem exists_close (content : List UInt8) (steps : List LogStep) :
    ∃ f, (LogPlace.file content).run steps = .ok f ∧ f.close.read = readLog (content ++
      utf8Bytes ((steps.flatMap (·.record?.toList)).flatMap LogRecord.line)) := by
  obtain ⟨f, hrun, hbytes, -⟩ := LogFile.exists_run ⟨content, []⟩ steps
  refine ⟨f, hrun, ?_⟩
  show readLog f.bytes = _
  rw [hbytes, LogFile.bytes, List.append_nil]

/-- A log that can be read is opened, used and closed. If its last line has only blanks after the
last line end, or if no call writes an entry, a reader then finds the old entries and the new ones
after them. If not, the first new entry stands on a line with something else, and the log cannot be
read any more. -/
theorem appends_after_blank_end (hread : readLog content = .ok rs)
    (hfits : ∀ c, .call c ∈ steps → c.Fits) :
    ∃ f, (LogPlace.file content).run steps = .ok f ∧ f.close.read =
      if steps.flatMap (·.record?.toList) = [] ∨ (openLine content).all isBlankByte = true then
        .ok (rs ++ steps.flatMap (·.record?.toList))
      else .error .malformedText := by
  have hentries := fits_of_steps hfits
  obtain ⟨f, hrun, hclosed⟩ := exists_close content steps
  refine ⟨f, hrun, ?_⟩
  rw [hclosed]
  cases hrecords : steps.flatMap (·.record?.toList) with
  | nil =>
    rw [if_pos (.inl rfl), List.append_nil, ← hread]
    exact congrArg readLog (List.append_nil content)
  | cons r qs =>
    rw [hrecords] at hentries
    rw [readLog_append hread hentries]
    simp only [reduceCtorEq, false_or]

/-- Blanks, a carriage return before the line end, and a log that is opened again after a call. -/
theorem appends_after_blank_end_reopened :
    ∃ f, (LogPlace.file (utf8Bytes "\"Checkpoint\"\r\n \t".toList)).run
        [.call .checkpoint, .reopen, .call (.commit 1 2)] = .ok f ∧
      f.close.read = .ok [.checkpoint, .checkpoint, .commit 1 2] := by
  have hfirst : readLogLine (utf8Bytes "\"Checkpoint\"\r".toList) = .ok (some .checkpoint) :=
    (readLogLine_utf8Bytes (by decide)).trans rfl
  have hblanks : readLogLine (utf8Bytes [' ', '\t']) = .ok none := by
    rw [readLogLine, utf8Text?_utf8Bytes]
    rfl
  have hread : readLog (utf8Bytes "\"Checkpoint\"\r\n \t".toList) = .ok [.checkpoint] := by
    show readLogLines [utf8Bytes "\"Checkpoint\"\r".toList, utf8Bytes [' ', '\t']] = _
    rw [readLogLines, readLogLines, hfirst, hblanks]
    rfl
  have hfits : ∀ c, .call c ∈ [LogStep.call .checkpoint, .reopen, .call (.commit 1 2)] → c.Fits := by
    intro c hc r hr
    simp only [List.mem_cons, LogStep.call.injEq, List.not_mem_nil, or_false, reduceCtorEq,
      false_or] at hc
    rcases hc with rfl | rfl
    · obtain rfl := Option.some.inj hr
      trivial
    · obtain rfl := Option.some.inj hr
      exact ⟨by decide, by decide⟩
  obtain ⟨f, hrun, hclosed⟩ := appends_after_blank_end hread hfits
  rw [if_pos (.inr (by decide))] at hclosed
  exact ⟨f, hrun, hclosed⟩

/-- A log that ends with a record but without a line end cannot be read after the next call. -/
theorem unterminated_not_appended : ¬∀ (content : List UInt8) (rs : List LogRecord)
    (steps : List LogStep), readLog content = .ok rs → (∀ c, .call c ∈ steps → c.Fits) →
      ∃ f, (LogPlace.file content).run steps = .ok f ∧
        f.close.read = .ok (rs ++ steps.flatMap (·.record?.toList)) := by
  intro h
  have hread : readLog (utf8Bytes LogRecord.checkpoint.toTree.render) = .ok [.checkpoint] := by
    show readLogLines [utf8Bytes LogRecord.checkpoint.toTree.render] = _
    have hfits : LogRecord.checkpoint.Fits := trivial
    rw [readLogLines, readLogLine_utf8Bytes (LogRecord.render_not_blank _),
      LogRecord.parse?_render hfits]
    rfl
  have hfits : ∀ c, .call c ∈ [LogStep.call .checkpoint] → c.Fits := by
    intro c hc r hr
    cases List.mem_singleton.mp hc
    obtain rfl := Option.some.inj hr
    trivial
  obtain ⟨f, hrun, hclosed⟩ := h _ _ [.call .checkpoint] hread hfits
  obtain ⟨f', hrun', hclosed'⟩ :=
    exists_close (utf8Bytes LogRecord.checkpoint.toTree.render) [.call .checkpoint]
  obtain rfl : f = f' := Except.ok.inj (hrun.symm.trans hrun')
  have hentries : ∀ r ∈ [LogRecord.checkpoint], r.Fits := fits_of_steps hfits
  have hlost := hclosed'.trans (readLog_append hread hentries)
  rw [hclosed, if_neg (by decide)] at hlost
  cases hlost

end LogPlace

end LockingDb
