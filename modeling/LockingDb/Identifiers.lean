namespace LockingDb

abbrev SessionId := Nat

abbrev TableId := Nat

abbrev RowId := Nat

/-- The place of a row in its table. -/
abbrev RowPosition := Nat

/-- A value of the global logical clock. It is counted without end, as sessions are. -/
abbrev Timestamp := Nat

/-- Row ids and positions are counted in 64 bits and start over after the last. -/
def nextCount (n : Nat) : Nat := (n + 1) % UInt64.size

theorem nextCount_eq {n : Nat} (h : n + 1 < UInt64.size) : nextCount n = n + 1 := Nat.mod_eq_of_lt h

end LockingDb
