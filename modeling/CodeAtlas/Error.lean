/-!
# Failures

A failure is recorded as its cause; the sentence that a user reads is made from the cause by one
function per type.  Failures of single files and of supplementary tools are passed over by whoever
asked for them; failures of the store and of whole projects reach the user.
-/

namespace CodeAtlas

/-- Why the operating system refused an operation. -/
inductive OsError where
  | notFound
  | permission
  | exists
  | notADirectory
  | isADirectory
  | invalidArgument
  | nameTooLong
  | directoryNotEmpty
  | tooManyLinks
  | busy
  | brokenPipe
  /-- The path holds a zero character and was not given to the operating system at all. -/
  | zeroInName
  /-- Any other reason, in its own words. -/
  | other (text : String)
  deriving DecidableEq, Repr, Inhabited

/-- The words and the number of a refusal. -/
def OsError.message : OsError → String
  | .notFound => "No such file or directory (os error 2)"
  | .permission => "Permission denied (os error 13)"
  | .busy => "Device or resource busy (os error 16)"
  | .exists => "File exists (os error 17)"
  | .notADirectory => "Not a directory (os error 20)"
  | .isADirectory => "Is a directory (os error 21)"
  | .invalidArgument => "Invalid argument (os error 22)"
  | .brokenPipe => "Broken pipe (os error 32)"
  | .nameTooLong => "File name too long (os error 36)"
  | .directoryNotEmpty => "Directory not empty (os error 39)"
  | .tooManyLinks => "Too many levels of symbolic links (os error 40)"
  | .zeroInName => "file name contained an unexpected NUL byte"
  | .other text => text

/-- Why the store could not answer. -/
inductive StorageError where
  | io (path : String) (cause : OsError)
  | unwritable (path reason : String)
  | corrupt (path reason : String)
  deriving DecidableEq, Repr, Inhabited

/-- The sentence for a failure of the store. -/
def StorageError.message : StorageError → String
  | .io path cause => "IO error on " ++ path ++ ": " ++ cause.message
  | .unwritable path reason => "Failed to serialize " ++ path ++ ": " ++ reason
  | .corrupt path reason => "Corrupt snapshot " ++ path ++ ": " ++ reason

/-- Why a directory could not be watched. -/
inductive WatchError where
  | unavailable (reason : String)
  | unwatchable (path reason : String)
  deriving DecidableEq, Repr, Inhabited

/-- The sentence for a failure to watch. -/
def WatchError.message : WatchError → String
  | .unavailable reason => "Failed to initialize watcher: " ++ reason
  | .unwatchable path reason => "Cannot watch path " ++ path ++ ": " ++ reason

/-- Why indexing failed. -/
inductive IndexError where
  | parse (path reason : String)
  | toolUnavailable (tool reason : String)
  | nothingExtracted (project : String)
  | incremental (reason : String)
  | watch (reason : String)
  | unreadable (path : String) (cause : OsError)
  | serialization (reason : String)
  | configuration (reason : String)
  | storage (cause : StorageError)
  | general (text : String)
  deriving DecidableEq, Repr, Inhabited

/-- The sentence for a failure to index. -/
def IndexError.message : IndexError → String
  | .parse path reason => "Failed to parse " ++ path ++ ": " ++ reason
  | .toolUnavailable tool reason => "Backend '" ++ tool ++ "' unavailable: " ++ reason
  | .nothingExtracted project => "All extraction methods failed for project '" ++ project ++ "'"
  | .incremental reason => "Incremental update failed: " ++ reason
  | .watch reason => "Failed to start monitoring: " ++ reason
  | .unreadable path cause => "Failed to read file " ++ path ++ ": " ++ cause.message
  | .serialization reason => "Serialization error: " ++ reason
  | .configuration reason => "Configuration error: " ++ reason
  | .storage cause => "Storage error: " ++ cause.message
  | .general text => text

/-- A failure to watch, as a failure to index. -/
def WatchError.toIndexError (e : WatchError) : IndexError := .watch e.message

end CodeAtlas
