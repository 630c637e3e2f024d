import LockingDb.LogFile
import LockingDb.Proofs.DoubleText
import LockingDb.Proofs.TreeRoundTrip

namespace LockingDb

namespace Value

/-- The values whose stored form is exact. The text of a double is the business of its writer. -/
def isDouble : Value → Bool
  | double _ => true
  | _ => false

theorem toTree_wellFormed (v : Value) : v.toTree.WellFormed := by
  have hrecord {name : String} {tree : JsonTree} (htree : tree.WellFormed) :
      (JsonTree.record [(name, tree)]).WellFormed :=
    JsonTree.record_wellFormed fun f hf => by rw [List.mem_singleton.mp hf]; exact htree
  cases v with
  | null => exact JsonTree.ofString_wellFormed _
  | boolean b => exact hrecord trivial
  | integer n => exact hrecord (JsonTree.ofInt_wellFormed _)
  | bigInt n => exact hrecord (JsonTree.ofInt_wellFormed _)
  | double bits =>
    refine hrecord ?_
    split
    next t ht => exact DoubleWriting.text?_wellFormed ht
    next => trivial
  | varchar text => exact hrecord (JsonTree.ofString_wellFormed _)
  | blob bytes =>
    refine hrecord (JsonTree.array_wellFormed fun t ht => ?_)
    obtain ⟨b, -, rfl⟩ := List.mem_map.mp ht
    exact JsonTree.ofInt_wellFormed _

/-- A value is read back from its stored form. -/
theorem ofTree?_toTree {v : Value} (h : v.isDouble = false) : ofTree? v.toTree = some v := by
  cases v with
  | null => simp [toTree, ofTree?, JsonTree.variant?_ofString]
  | boolean b => simp [toTree, ofTree?, JsonTree.variant?_record, JsonTree.bool?]
  | integer n =>
    have hread : (JsonTree.ofInt n.toInt).int? (-0x80000000) 0x80000000 = some n.toInt :=
      JsonTree.int?_ofInt n.le_toInt n.toInt_lt
    simp [toTree, ofTree?, JsonTree.variant?_record, hread]
  | bigInt n =>
    have hread : (JsonTree.ofInt n.toInt).int? (-0x8000000000000000) 0x8000000000000000 =
        some n.toInt :=
      JsonTree.int?_ofInt n.le_toInt n.toInt_lt
    simp [toTree, ofTree?, JsonTree.variant?_record, hread]
  | double bits => cases h
  | varchar text => simp [toTree, ofTree?, JsonTree.variant?_record, JsonTree.string?_ofString]
  | blob bytes =>
    have hread : (JsonTree.array ((bytes.map UInt8.toNat).map .ofNat)).list? (·.nat? 256) =
        some (bytes.map UInt8.toNat) := by
      refine JsonTree.list?_map fun n hn => ?_
      obtain ⟨b, -, rfl⟩ := List.mem_map.mp hn
      exact JsonTree.nat?_ofNat b.toNat_lt
    have hbytes : (bytes.map UInt8.toNat).map UInt8.ofNat = bytes := by
      rw [List.map_map]
      exact (List.map_congr_left fun b _ => UInt8.ofNat_toNat).trans (List.map_id bytes)
    rw [List.map_map] at hread
    rw [toTree, ofTree?, JsonTree.variant?_record]
    show ((JsonTree.array (bytes.map fun b => .ofNat b.toNat)).list? (·.nat? 256)).map _ = _
    rw [show (bytes.map fun b => JsonTree.ofNat b.toNat) = bytes.map (.ofNat ∘ UInt8.toNat) from rfl,
      hread, Option.map_some, Function.comp_apply, hbytes]

end Value

namespace LogRecord

variable {r : LogRecord} {rs : List LogRecord} {tree session table position : JsonTree}

/-- Every number of an entry has 64 bits, and no double stands in it. -/
def Fits : LogRecord → Prop
  | statement session _ => session < UInt64.size
  | insert session table position values => session < UInt64.size ∧ table < UInt64.size ∧
      position < UInt64.size ∧ ∀ v ∈ values, v.isDouble = false
  | delete session table position =>
    session < UInt64.size ∧ table < UInt64.size ∧ position < UInt64.size
  | commit session timestamp => session < UInt64.size ∧ timestamp < UInt64.size
  | checkpoint => True

theorem toTree_wellFormed (r : LogRecord) : r.toTree.WellFormed := by
  have hnat (n : Nat) : (JsonTree.ofNat n).WellFormed := JsonTree.ofInt_wellFormed n
  have hrecord {name : String} {fields : List (String × JsonTree)}
      (hfields : ∀ f ∈ fields, f.2.WellFormed) :
      (JsonTree.record [(name, .record fields)]).WellFormed :=
    JsonTree.record_wellFormed fun f hf => by
      rw [List.mem_singleton.mp hf]
      exact JsonTree.record_wellFormed hfields
  cases r with
  | statement session sql =>
    exact hrecord (by simp [hnat, JsonTree.ofString_wellFormed])
  | insert session table position values =>
    have hvalues : (JsonTree.array (values.map Value.toTree)).WellFormed := by
      refine JsonTree.array_wellFormed fun t ht => ?_
      obtain ⟨v, -, rfl⟩ := List.mem_map.mp ht
      exact Value.toTree_wellFormed v
    exact hrecord (by simp [hnat, hvalues])
  | delete session table position => exact hrecord (by simp [hnat])
  | commit session timestamp => exact hrecord (by simp [hnat])
  | checkpoint => exact JsonTree.ofString_wellFormed _

theorem count?_ofNat {n : Nat} (h : n < UInt64.size) : count? (.ofNat n) = some n :=
  JsonTree.nat?_ofNat h

theorem ofTree?_statement : ofTree? (.record [("Statement", tree)]) = statementOfTree? tree := by
  rw [ofTree?, JsonTree.variant?_record]
  rfl

theorem ofTree?_insert : ofTree? (.record [("Insert", tree)]) = insertOfTree? tree := by
  rw [ofTree?, JsonTree.variant?_record]
  rfl

theorem ofTree?_delete : ofTree? (.record [("Delete", tree)]) = deleteOfTree? tree := by
  rw [ofTree?, JsonTree.variant?_record]
  rfl

theorem ofTree?_commit : ofTree? (.record [("Commit", tree)]) = commitOfTree? tree := by
  rw [ofTree?, JsonTree.variant?_record]
  rfl

theorem statementOfTree?_record {sql : JsonTree} :
    statementOfTree? (.record [("session", session), ("sql", sql)]) = (do
      some (statement (← count? session) (← sql.string?))) := by
  have hread := JsonTree.record?_record [("session", session), ("sql", sql)] (by simp)
  simp only [List.map_cons, List.map_nil] at hread
  rw [statementOfTree?, hread]
  rfl

theorem insertOfTree?_record {values : JsonTree} :
    insertOfTree? (.record [("session", session), ("table", table), ("position", position),
      ("values", values)]) = (do
      some (insert (← count? session) (← count? table) (← count? position)
        (← values.list? Value.ofTree?))) := by
  have hread := JsonTree.record?_record [("session", session), ("table", table),
    ("position", position), ("values", values)] (by simp)
  simp only [List.map_cons, List.map_nil] at hread
  rw [insertOfTree?, hread]
  rfl

theorem deleteOfTree?_record :
    deleteOfTree? (.record [("session", session), ("table", table), ("position", position)]) = (do
      some (delete (← count? session) (← count? table) (← count? position))) := by
  have hread := JsonTree.record?_record [("session", session), ("table", table),
    ("position", position)] (by simp)
  simp only [List.map_cons, List.map_nil] at hread
  rw [deleteOfTree?, hread]
  rfl

theorem commitOfTree?_record {timestamp : JsonTree} :
    commitOfTree? (.record [("session", session), ("timestamp", timestamp)]) = (do
      some (commit (← count? session) (← count? timestamp))) := by
  have hread := JsonTree.record?_record [("session", session), ("timestamp", timestamp)] (by simp)
  simp only [List.map_cons, List.map_nil] at hread
  rw [commitOfTree?, hread]
  rfl

/-- An entry is read back from its stored form. -/
theorem ofTree?_toTree (h : r.Fits) : ofTree? r.toTree = some r := by
  cases r with
  | statement session sql =>
    rw [toTree, ofTree?_statement, statementOfTree?_record, count?_ofNat h, JsonTree.string?_ofString]
    rfl
  | insert session table position values =>
    obtain ⟨hsession, htable, hposition, hvalues⟩ := h
    rw [toTree, ofTree?_insert, insertOfTree?_record, count?_ofNat hsession, count?_ofNat htable,
      count?_ofNat hposition, JsonTree.list?_map fun v hv => Value.ofTree?_toTree (hvalues v hv)]
    rfl
  | delete session table position =>
    obtain ⟨hsession, htable, hposition⟩ := h
    rw [toTree, ofTree?_delete, deleteOfTree?_record, count?_ofNat hsession, count?_ofNat htable,
      count?_ofNat hposition]
    rfl
  | commit session timestamp =>
    rw [toTree, ofTree?_commit, commitOfTree?_record, count?_ofNat h.1, count?_ofNat h.2]
    rfl
  | checkpoint =>
    rw [toTree, ofTree?, JsonTree.variant?_ofString]
    rfl

/-- From its text an entry is read as from its stored form. -/
theorem parse?_render_eq (r : LogRecord) : parse? r.toTree.render = ofTree? r.toTree := by
  rw [parse?, JsonTree.parse?_render (toTree_wellFormed r)]
  rfl

/-- An entry is read back from its text. -/
theorem parse?_render (h : r.Fits) : parse? r.toTree.render = some r :=
  (parse?_render_eq r).trans (ofTree?_toTree h)

/-- An entry begins with a quote or a brace, so its line is not blank. -/
theorem render_not_blank (r : LogRecord) : r.toTree.render.all isWhiteSpace = false := by
  cases r <;> rfl

end LogRecord

/-- Bytes of a text without control characters hold no line end. -/
theorem lineEnd_notMem_utf8Bytes {cs : List Char} (h : ∀ c ∈ cs, 32 ≤ c.toNat) :
    10 ∉ utf8Bytes cs := by
  intro hmem
  obtain ⟨c, hc, hbyte⟩ := List.mem_flatMap.mp hmem
  have hle : 32 ≤ c.val.toNat := h c hc
  have hne (n : Nat) (hn : n < 256) (h : 32 ≤ n) : (10 : UInt8) ≠ UInt8.ofNat n := by
    intro heq
    have hval := congrArg UInt8.toNat heq
    rw [UInt8.toNat_ofNat_of_lt' hn] at hval
    exact absurd hval (by simp; omega)
  rw [String.utf8EncodeChar] at hbyte
  split at hbyte
  · rw [List.mem_singleton] at hbyte
    exact hne _ (by omega) hle hbyte
  split at hbyte
  · simp only [List.mem_cons, List.not_mem_nil, or_false] at hbyte
    rcases hbyte with hbyte | hbyte
    all_goals exact hne _ (by omega) (by omega) hbyte
  split at hbyte
  · simp only [List.mem_cons, List.not_mem_nil, or_false] at hbyte
    rcases hbyte with hbyte | hbyte | hbyte
    all_goals exact hne _ (by omega) (by omega) hbyte
  · simp only [List.mem_cons, List.not_mem_nil, or_false] at hbyte
    rcases hbyte with hbyte | hbyte | hbyte | hbyte
    all_goals exact hne _ (by omega) (by omega) hbyte

theorem utf8Text?_utf8Bytes (cs : List Char) : utf8Text? (utf8Bytes cs) = some cs := by
  show (List.utf8Encode cs).utf8Decode?.map Array.toList = some cs
  rw [List.utf8Decode?_utf8Encode, Option.map_some]

/-- The bytes up to a line end are a line. -/
theorem byteLines_line {l rest : List UInt8} (h : 10 ∉ l) :
    byteLines (l ++ 10 :: rest) = l :: byteLines rest := by
  induction l with
  | nil => rfl
  | cons b l ih =>
    obtain ⟨hne, hl⟩ := not_or.mp fun hmem => h (List.mem_cons.mpr hmem)
    rw [List.cons_append, byteLines, if_neg (Ne.symm hne), ih hl]

theorem readLogLine_utf8Bytes {text : List Char} (htext : text.all isWhiteSpace = false) :
    readLogLine (utf8Bytes text) = match LogRecord.parse? text with
      | some r => .ok (some r)
      | none => .error .malformedText := by
  have hnot : ¬text.all isWhiteSpace = true := by
    rw [htext]
    exact Bool.false_ne_true
  rw [readLogLine, utf8Text?_utf8Bytes]
  exact if_neg hnot

/-- A log of entries is read from their stored forms, or not at all if one of them is not. -/
theorem readLog_entries (rs : List LogRecord) : readLog (utf8Bytes (rs.flatMap LogRecord.line)) =
    match rs.mapM fun r => LogRecord.ofTree? r.toTree with
    | some found => .ok found
    | none => .error .malformedText := by
  induction rs with
  | nil => rfl
  | cons r rs ih =>
    have hbytes : utf8Bytes ((r :: rs).flatMap LogRecord.line) =
        utf8Bytes r.toTree.render ++ 10 :: utf8Bytes (rs.flatMap LogRecord.line) := by
      simp only [utf8Bytes, LogRecord.line, List.flatMap_cons, List.flatMap_append,
        List.append_assoc]
      rfl
    unfold readLog at ih ⊢
    rw [hbytes, byteLines_line (lineEnd_notMem_utf8Bytes
      (JsonTree.le_of_mem_render _ (LogRecord.toTree_wellFormed r)))]
    rw [readLogLines, readLogLine_utf8Bytes r.render_not_blank, LogRecord.parse?_render_eq, ih,
      List.mapM_cons]
    cases LogRecord.ofTree? r.toTree with
    | none => rfl
    | some found =>
      cases rs.mapM fun r => LogRecord.ofTree? r.toTree with
      | none => rfl
      | some more => rfl

/-- A log of entries is read back from its lines. -/
theorem readLog_lines {rs : List LogRecord} (h : ∀ r ∈ rs, r.Fits) :
    readLog (utf8Bytes (rs.flatMap LogRecord.line)) = .ok rs := by
  have hread : rs.mapM (fun r => LogRecord.ofTree? r.toTree) = some (rs.map id) :=
    JsonTree.mapM_eq_some fun r hr => LogRecord.ofTree?_toTree (h r hr)
  rw [readLog_entries, hread, List.map_id]

end LockingDb
