/-
# Problems of reading a file

A file may be missing, protected or not a text.  A problem has a kind, by which problems
are compared, and a text, which is what the user sees.  Most problems come from the system,
with a code that decides the kind.
-/

namespace ChomskyGrammar

/-- The kinds of problem that input and output can meet. -/
inductive ReadProblemKind where
  | notFound
  | permissionDenied
  | connectionRefused
  | connectionReset
  | hostUnreachable
  | networkUnreachable
  | connectionAborted
  | notConnected
  | addrInUse
  | addrNotAvailable
  | networkDown
  | brokenPipe
  | alreadyExists
  | wouldBlock
  | notADirectory
  | isADirectory
  | directoryNotEmpty
  | readOnlyFilesystem
  | filesystemLoop
  | staleNetworkFileHandle
  | invalidInput
  | invalidData
  | timedOut
  | writeZero
  | storageFull
  | notSeekable
  | quotaExceeded
  | fileTooLarge
  | resourceBusy
  | executableFileBusy
  | deadlock
  | crossesDevices
  | tooManyLinks
  | invalidFilename
  | argumentListTooLong
  | interrupted
  | unsupported
  | unexpectedEof
  | outOfMemory
  | inProgress
  /-- A problem that a program has made up. -/
  | other
  /-- A problem of the system that has no kind of its own. -/
  | uncategorized
deriving DecidableEq, Repr

/-- The kind of the problem that a code of the system stands for. -/
def ReadProblemKind.ofCode : Nat → ReadProblemKind
  | 1 => .permissionDenied
  | 2 => .notFound
  | 4 => .interrupted
  | 7 => .argumentListTooLong
  | 11 => .wouldBlock
  | 12 => .outOfMemory
  | 13 => .permissionDenied
  | 16 => .resourceBusy
  | 17 => .alreadyExists
  | 18 => .crossesDevices
  | 20 => .notADirectory
  | 21 => .isADirectory
  | 22 => .invalidInput
  | 26 => .executableFileBusy
  | 27 => .fileTooLarge
  | 28 => .storageFull
  | 29 => .notSeekable
  | 30 => .readOnlyFilesystem
  | 31 => .tooManyLinks
  | 32 => .brokenPipe
  | 35 => .deadlock
  | 36 => .invalidFilename
  | 38 => .unsupported
  | 39 => .directoryNotEmpty
  | 40 => .filesystemLoop
  | 95 => .unsupported
  | 98 => .addrInUse
  | 99 => .addrNotAvailable
  | 100 => .networkDown
  | 101 => .networkUnreachable
  | 103 => .connectionAborted
  | 104 => .connectionReset
  | 107 => .notConnected
  | 110 => .timedOut
  | 111 => .connectionRefused
  | 113 => .hostUnreachable
  | 115 => .inProgress
  | 116 => .staleNetworkFileHandle
  | 122 => .quotaExceeded
  | _ => .uncategorized

/-- A problem met while reading a file. -/
structure ReadProblem where
  kind : ReadProblemKind
  text : String
deriving DecidableEq, Repr

namespace ReadProblem

/-- The problem that the system reports by a code and a description. -/
def ofCode (code : Nat) (description : String) : ReadProblem :=
  ⟨.ofCode code, description ++ " (os error " ++ toString code ++ ")"⟩

/-- No file or directory has the name. -/
def missing : ReadProblem := .ofCode 2 "No such file or directory"

/-- A path leads through something that is not a directory. -/
def notADirectory : ReadProblem := .ofCode 20 "Not a directory"

/-- A directory was to be read as a file. -/
def isADirectory : ReadProblem := .ofCode 21 "Is a directory"

/-- A path is too long to be followed, or one of its components to be the name of a file. -/
def nameTooLong : ReadProblem := .ofCode 36 "File name too long"

/-- A path holds the character that ends every path. -/
def nulInName : ReadProblem := ⟨.invalidInput, "file name contained an unexpected NUL byte"⟩

/-- A line is not text. -/
def notText : ReadProblem := ⟨.invalidData, "stream did not contain valid UTF-8"⟩

end ReadProblem

end ChomskyGrammar
