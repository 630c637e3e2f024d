import LockingDb.StatementBody

namespace LockingDb

/-- Which rows a script deletes. -/
inductive RowTest where
  | all
  | equal (column : Nat) (value : Value)
  | greater (column : Nat) (value : Value)
  | less (column : Nat) (value : Value)
  deriving DecidableEq, Inhabited

namespace RowTest

/-- Compares two values as integers, if they are. -/
def compareInts (test : Int → Int → Bool) (a b : Value) : Bool :=
  match a.asInt?, b.asInt? with
  | some a, some b => test a b
  | _, _ => false

def accepts (row : Row) : RowTest → Bool
  | all => true
  | equal column value => (row.values[column]?).any (·.sameAs value)
  | greater column value => (row.values[column]?).any (compareInts (· > ·) · value)
  | less column value => (row.values[column]?).any (compareInts (· < ·) · value)

end RowTest

/-- One step of a script. A position that is not given is that of the last row inserted by the same
run. -/
inductive ScriptStep where
  | insert (table : TableId) (values : List Value)
  | delete (table : TableId) (position : Option RowPosition)
  | update (table : TableId) (position : Option RowPosition) (values : List Value)
  | deleteWhere (table : TableId) (test : RowTest)
  | scan (table : TableId)
  | sessionId
  /-- Answers the number of the run. -/
  | run
  /-- Asks for another run while the number of this one is not above `times`. -/
  | redo (times : Nat)
  | abort
  | fail (text : String)
  deriving DecidableEq, Inhabited

/-- What a script has answered so far, and where it last inserted. -/
structure ScriptProgress where
  updateCount : Nat
  rows : List (List Value)
  lastPosition : RowPosition
  deriving DecidableEq, Inhabited

namespace ScriptProgress

def start : ScriptProgress := ⟨0, [], 0⟩

def count (p : ScriptProgress) (n : Nat) : ScriptProgress :=
  { p with updateCount := p.updateCount + n }

def answer (p : ScriptProgress) (row : List Value) : ScriptProgress :=
  { p with rows := p.rows ++ [row] }

def answerNumber (p : ScriptProgress) (n : Nat) : ScriptProgress :=
  p.answer [.bigInt (Int64.ofNat n)]

def inserted (p : ScriptProgress) (position : RowPosition) : ScriptProgress :=
  { (p.count 1).answerNumber position with lastPosition := position }

def result (p : ScriptProgress) : StatementResult := ⟨p.updateCount, p.rows⟩

end ScriptProgress

/-- A list of steps, each with a flag that says whether its failure is passed over. -/
abbrev Script := List (ScriptStep × Bool)

namespace Script

/-- The body that performs the steps in order and stops at the first failure that is not passed
over. -/
def body (run : Nat) : Script → ScriptProgress → StatementBody
  | [], p => .done p.result
  | (step, tolerant) :: rest, p =>
    let refused (f : Failure) : StatementBody := if tolerant then body run rest p else .fail f
    match step with
    | .insert table values => .insert table values fun
      | .ok position => body run rest (p.inserted position)
      | .error f => refused f
    | .delete table position => .delete table (position.getD p.lastPosition) fun
      | .ok () => body run rest (p.count 1)
      | .error f => refused f
    | .update table position values =>
      .update table (position.getD p.lastPosition) values fun
        | .ok position => body run rest (p.inserted position)
        | .error f => refused f
    | .deleteWhere table test => .deleteWhere table (test.accepts ·) fun
      | .ok n => body run rest (p.count n)
      | .error f => refused f
    | .scan table => .scan table fun
      | .ok rows => body run rest { p with rows := p.rows ++ rows.map Row.values }
      | .error f => refused f
    | .sessionId => .sessionId fun s => body run rest (p.answerNumber s)
    | .run => body run rest (p.answerNumber run)
    | .redo times =>
      if run ≤ times then .requestRedo (body run rest p) else body run rest p
    | .abort => .raiseAbort (body run rest p)
    | .fail text => refused (.internal text)

def statement (script : Script) (reads writes : List TableId) : Statement where
  request := .ofTables reads writes
  body := fun run => script.body run .start

end Script

end LockingDb
