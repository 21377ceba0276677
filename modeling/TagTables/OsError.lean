/-
# Errors of the operating system

Why a request to the system failed, and how the message says it.
-/
namespace TagTables

/-- Why a request to the system failed. -/
inductive OsError where
  | notFound
  | argumentTooLong
  | permissionDenied
  | busy
  | alreadyExists
  | notADirectory
  | isADirectory
  | nameTooLong
  /-- A text file with bytes that are no text. -/
  | invalidText
  /-- Anything else, in the system's own words. -/
  | other (message : String)
deriving DecidableEq

/-- The words for a failed request. -/
def OsError.message : OsError → String
  | notFound => "No such file or directory (os error 2)"
  | argumentTooLong => "Argument list too long (os error 7)"
  | permissionDenied => "Permission denied (os error 13)"
  | busy => "Device or resource busy (os error 16)"
  | alreadyExists => "File exists (os error 17)"
  | notADirectory => "Not a directory (os error 20)"
  | isADirectory => "Is a directory (os error 21)"
  | nameTooLong => "File name too long (os error 36)"
  | invalidText => "stream did not contain valid UTF-8"
  | other message => message

end TagTables
