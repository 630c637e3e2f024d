import LockingDb.Failure
import LockingDb.LogCall

namespace LockingDb

/-- The bytes of a text in UTF-8. -/
def utf8Bytes (cs : List Char) : List UInt8 := cs.flatMap String.utf8EncodeChar

/-- The text of bytes in UTF-8. -/
def utf8Text? (bytes : List UInt8) : Option (List Char) :=
  bytes.toByteArray.utf8Decode?.map Array.toList

/-- The lines of a file without their line ends. Nothing stands after the last line end. -/
def byteLines : List UInt8 → List (List UInt8)
  | [] => []
  | b :: rest =>
    if b = 10 then [] :: byteLines rest
    else
      match byteLines rest with
      | [] => [[b]]
      | l :: ls => (b :: l) :: ls

/-- White space in the sense of Unicode. -/
def isWhiteSpace (c : Char) : Bool :=
  let n := c.toNat
  (9 ≤ n && n ≤ 13) || n = 0x20 || n = 0x85 || n = 0xA0 || n = 0x1680 ||
  (0x2000 ≤ n && n ≤ 0x200A) || n = 0x2028 || n = 0x2029 || n = 0x202F || n = 0x205F || n = 0x3000

/-- The entry on a line of a log file; lines of white space hold none. -/
def readLogLine (bytes : List UInt8) : Except Failure (Option LogRecord) :=
  match utf8Text? bytes with
  | none => .error .unreadableFile
  | some text =>
    if text.all isWhiteSpace then .ok none
    else
      match LogRecord.parse? text with
      | some r => .ok (some r)
      | none => .error .malformedText

def readLogLines : List (List UInt8) → Except Failure (List LogRecord)
  | [] => .ok []
  | l :: ls => do
    let r ← readLogLine l
    let rs ← readLogLines ls
    .ok (r.toList ++ rs)

/-- The entries of a log file, or what is wrong with the first bad line. -/
def readLog (bytes : List UInt8) : Except Failure (List LogRecord) :=
  readLogLines (byteLines bytes)

/-- What stands at the path of a log. -/
inductive LogPlace where
  | absent
  | file (bytes : List UInt8)
  | directory
  /-- No file can come to stand here: part of the way to the path is a plain file, or the system
  takes no such path. -/
  | blocked
  deriving DecidableEq

/-- An open log file: the bytes that have reached the file, and those that wait to be flushed. -/
structure LogFile where
  stored : List UInt8
  waiting : List UInt8
  deriving DecidableEq

namespace LogPlace

/-- The system takes the path: it is shorter than 4096 bytes, each name on it has at most 255, and
none of them is zero. -/
def isPossible (path : String) : Bool :=
  path.utf8ByteSize < 4096 && path.all (·.toNat != 0) &&
    (path.splitOn "/").all (·.utf8ByteSize ≤ 255)

/-- The path names a directory. -/
def namesDirectory (path : String) : Bool :=
  ["", ".", ".."].contains ((path.splitOn "/").getLast?.getD "")

/-- What stands at a path that was free before the given bytes were put there, if any were. -/
def ofPath (path : String) (content : Option (List UInt8)) : LogPlace :=
  if !isPossible path then blocked
  else if namesDirectory path then directory
  else content.elim absent file

/-- The entries of the log at a place. -/
def read : LogPlace → Except Failure (List LogRecord)
  | file bytes => readLog bytes
  | absent | directory | blocked => .error .unreadableFile

/-- Opening a log keeps what it holds and creates it if it is absent. -/
def openLog : LogPlace → Except Failure LogFile
  | absent => .ok ⟨[], []⟩
  | file bytes => .ok ⟨bytes, []⟩
  | directory | blocked => .error .unreadableFile

end LogPlace

namespace LogFile

def append (f : LogFile) (r : LogRecord) : LogFile :=
  { f with waiting := f.waiting ++ utf8Bytes r.line }

def flush (f : LogFile) : LogFile := ⟨f.stored ++ f.waiting, []⟩

def write (f : LogFile) (call : LogCall) : LogFile :=
  let f := match call.record? with
    | some r => f.append r
    | none => f
  if call.syncs then f.flush else f

/-- A closed log has all its bytes in the file. -/
def close (f : LogFile) : LogPlace := .file f.flush.stored

/-- The entries that a reader finds in the file now. -/
def records (f : LogFile) : Except Failure (List LogRecord) := readLog f.stored

end LogFile

end LockingDb
