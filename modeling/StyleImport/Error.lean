/-
What can go wrong, and how it is said.

`ImportError` are the errors that resolving an import and querying files promise: each is a cause,
and `ImportError.message` and `ImportError.label` put it into words.  `Failure` is everything that
can leave an operation: such an error, a failure to read, an error of the host's own resolver, or
data of a shape that nothing can be made of.
-/
import StyleImport.Disk.Error
import StyleImport.Path.Collapsed
import StyleImport.Text.Utf8

namespace StyleImport

/-- Why a file could not be read. -/
inductive ReadFailure where
  /-- The file system refused. -/
  | system (e : OsError)
  /-- The bytes are no text. -/
  | undecodable (f : Utf8.Fault)
  /-- The path holds a character that no path may hold. -/
  | nulInPath
  deriving DecidableEq, Repr

namespace ReadFailure

/-- The failure in words. -/
def message : ReadFailure → Text
  | .system e => e.message
  | .undecodable f => f.message
  | .nulInPath => "embedded null byte"

/-- The name of the failure's class. -/
def className : ReadFailure → Text
  | .system e => e.className
  | .undecodable _ => "UnicodeDecodeError"
  | .nulInPath => "ValueError"

end ReadFailure

/-- The errors that imports and file queries promise. -/
inductive ImportError where
  /-- The identifier has no recognizable shape. -/
  | unrecognized (identifier : Text)
  /-- No candidate exists and nobody else has an answer.  An empty `prev` is none. -/
  | notFound (identifier : Text) (candidates : List Text) (prev : Text)
  /-- A module was found that declares no stylesheet directory. -/
  | noStylesheetDir (module : Text) (metadata : Option Text) (main : Option Text)
  /-- A query about a path outside the sandbox. -/
  | denied (path : Text)
  /-- An argument of the wrong type. -/
  | wrongType (expected actual : Text) (rendered : Option Text)
  /-- A file is there and could not be read. -/
  | unreadable (path : Text) (cause : ReadFailure)
  deriving DecidableEq, Repr

namespace ImportError

/-- The error in words. -/
def message : ImportError → Text
  | .unrecognized identifier => "invalid uri: " ++ identifier
  | .notFound identifier candidates prev =>
    let header := "Could not import " ++ identifier
      ++ Text.withLead " from " (if prev = [] then none else some prev)
    let locations : Text :=
      if prev = [] then " from any of the following locations:"
      else " at any of the following locations:"
    if candidates = [] then header
    else Text.joinWith ['\n', ' ', ' '] ((header ++ locations) :: candidates)
  | .noStylesheetDir module metadata main =>
    "stylesheetDir is not specified in " ++ module ++ "'s "
      ++ (metadata.map Path.lastName).getD "package.json" ++ Text.withLead " or " main
  | .denied path => "Security violation: Cannot access " ++ path
  | .wrongType expected actual rendered =>
    "Expected " ++ expected ++ ", got " ++ actual ++ Text.withLead ": " rendered
  | .unreadable _ cause => cause.message

/-- The short label in front of an error on the command line. -/
def label : ImportError → Text
  | .unrecognized _ => "Invalid import"
  | .notFound .. => "Import not found"
  | .noStylesheetDir .. => "Module misconfigured"
  | .denied _ => "Access denied"
  | .wrongType .. => "Wrong argument type"
  | .unreadable .. => "Read failed"

/-- The name of the error's class. -/
def className : ImportError → Text
  | .unrecognized _ => "ParseError"
  | .notFound .. => "NotFoundError"
  | .noStylesheetDir .. => "ConfigurationError"
  | .denied _ => "SecurityViolationError"
  | .wrongType .. => "TypeMismatchError"
  | .unreadable .. => "UnderlyingIOError"

end ImportError

/-- What a value in settings or metadata should have been. -/
inductive Shape where
  /-- A truth value; another type stands there. -/
  | boolean
  /-- A truth value; the value is of a type that could be read as one. -/
  | readableBoolean
  /-- A text. -/
  | text
  /-- A list. -/
  | list
  /-- A path. -/
  | path
  /-- A map. -/
  | map
  /-- A module declaration. -/
  | declaration
  deriving DecidableEq, Repr

namespace Shape

/-- The name of the complaint about a value that has not this shape. -/
def complaintName : Shape → Text
  | .boolean => "bool_type"
  | .readableBoolean => "bool_parsing"
  | .text => "string_type"
  | .list => "list_type"
  | .path => "path_type"
  | .map => "dict_type"
  | .declaration => "model_type"

/-- The complaint in words. -/
def complaint : Shape → Text
  | .boolean => "Input should be a valid boolean"
  | .readableBoolean => "Input should be a valid boolean, unable to interpret input"
  | .text => "Input should be a valid string"
  | .list => "Input should be a valid list"
  | .path => "Input is not a valid path for <class 'pathlib.Path'>"
  | .map => "Input should be a valid dictionary"
  | .declaration => "Input should be a valid dictionary or instance of ModuleDeclaration"

end Shape

/-- A value that has not the shape it should have, and where it stands. -/
structure Complaint where
  /-- The keys and positions that lead to the value. -/
  place : List Text
  /-- The shape it should have. -/
  expected : Shape
  deriving DecidableEq, Repr

/-- Everything that can leave an operation. -/
inductive Failure where
  /-- A promised error. -/
  | promised (e : ImportError)
  /-- A file could not be read, and nobody promised what happens then. -/
  | read (e : ReadFailure)
  /-- The host's resolver failed with a message. -/
  | host (message : Text)
  /-- Settings or metadata of the wrong shape. -/
  | invalid (complaints : List Complaint)
  /-- A document that is no map is asked for a key. -/
  | notAMap
  /-- A value of a type that the operation has no use for. -/
  | wrongKind
  /-- A value of the host that has no form in stylesheets, by the name of its type. -/
  | inconvertible (typeName : Text)
  /-- An integer too large for a floating-point number. -/
  | tooLarge
  /-- A key that names nothing. -/
  | unknownKey (key : Text)
  /-- A value that the operation has no use for, with a message. -/
  | badValue (message : Text)
  /-- A settings file or value that is no YAML. -/
  | malformed
  deriving DecidableEq, Repr, Inhabited

namespace Failure

/-- The name of the failure's class. -/
def className : Failure → Text
  | .promised e => e.className
  | .read e => e.className
  | .host _ => "RuntimeError"
  | .invalid _ => "ValidationError"
  | .notAMap => "AttributeError"
  | .wrongKind | .inconvertible _ => "TypeError"
  | .tooLarge => "OverflowError"
  | .unknownKey _ => "KeyError"
  | .badValue _ => "ValueError"
  | .malformed => "YAMLError"

/-- The failure in words; the shape of data that nothing can be made of is left unsaid. -/
def message : Failure → Text
  | .promised e => e.message
  | .read e => e.message
  | .host message => message
  | .inconvertible typeName => "Cannot convert " ++ typeName ++ " to a stylesheet value"
  | .tooLarge => "int too large to convert to float"
  | .unknownKey key => Text.quoted key
  | .badValue message => message
  | .invalid _ | .notAMap | .wrongKind | .malformed => []

end Failure

/-- What is said about an error for want of words of its own. -/
def noDetails (className : Text) : Text := className ++ ": (no additional details)"

/-- An error's message as it is shown: never empty, and, if `typed`, with the name of the error's
class in front unless the message holds it. -/
def shownMessage (typed : Bool) (className message : Text) : Text :=
  if message = [] then noDetails className
  else if typed && !Text.occursIn className message then className ++ ": " ++ message
  else message

end StyleImport
