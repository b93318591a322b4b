/-
Errors of the file system.

An error has a number, a reason in words and, where it is about one, a path.  `byName` lists the
numbers and reasons that POSIX hosts give to the symbolic names.
-/
import StyleImport.Text.Quoted

namespace StyleImport

/-- An error of the file system. -/
structure OsError where
  /-- The number of the error. -/
  code : Int
  /-- The reason in words. -/
  reason : Text
  /-- The path it is about. -/
  path : Option Text := none
  deriving DecidableEq, Repr

namespace OsError

/-- The number, the reason and the quoted path. -/
def message (e : OsError) : Text :=
  "[Errno " ++ Text.ofInt e.code ++ "] " ++ e.reason
    ++ Text.withLead ": " (e.path.map Text.quoted)

/-- The symbolic names of errors with their numbers and reasons. -/
def table : List (String × Nat × String) :=
  [("EPERM", 1, "Operation not permitted"),
   ("ENOENT", 2, "No such file or directory"),
   ("ESRCH", 3, "No such process"),
   ("EINTR", 4, "Interrupted system call"),
   ("EIO", 5, "Input/output error"),
   ("ENXIO", 6, "No such device or address"),
   ("E2BIG", 7, "Argument list too long"),
   ("ENOEXEC", 8, "Exec format error"),
   ("EBADF", 9, "Bad file descriptor"),
   ("ECHILD", 10, "No child processes"),
   ("EAGAIN", 11, "Resource temporarily unavailable"),
   ("ENOMEM", 12, "Cannot allocate memory"),
   ("EACCES", 13, "Permission denied"),
   ("EFAULT", 14, "Bad address"),
   ("ENOTBLK", 15, "Block device required"),
   ("EBUSY", 16, "Device or resource busy"),
   ("EEXIST", 17, "File exists"),
   ("EXDEV", 18, "Invalid cross-device link"),
   ("ENODEV", 19, "No such device"),
   ("ENOTDIR", 20, "Not a directory"),
   ("EISDIR", 21, "Is a directory"),
   ("EINVAL", 22, "Invalid argument"),
   ("ENFILE", 23, "Too many open files in system"),
   ("EMFILE", 24, "Too many open files"),
   ("ENOTTY", 25, "Inappropriate ioctl for device"),
   ("ETXTBSY", 26, "Text file busy"),
   ("EFBIG", 27, "File too large"),
   ("ENOSPC", 28, "No space left on device"),
   ("ESPIPE", 29, "Illegal seek"),
   ("EROFS", 30, "Read-only file system"),
   ("EMLINK", 31, "Too many links"),
   ("EPIPE", 32, "Broken pipe"),
   ("EDOM", 33, "Numerical argument out of domain"),
   ("ERANGE", 34, "Numerical result out of range"),
   ("EDEADLOCK", 35, "Resource deadlock avoided"),
   ("ENAMETOOLONG", 36, "File name too long"),
   ("ENOLCK", 37, "No locks available"),
   ("ENOSYS", 38, "Function not implemented"),
   ("ENOTEMPTY", 39, "Directory not empty"),
   ("ELOOP", 40, "Too many levels of symbolic links"),
   ("ENOMSG", 42, "No message of desired type"),
   ("EIDRM", 43, "Identifier removed"),
   ("ECHRNG", 44, "Channel number out of range"),
   ("EL2NSYNC", 45, "Level 2 not synchronized"),
   ("EL3HLT", 46, "Level 3 halted"),
   ("EL3RST", 47, "Level 3 reset"),
   ("ELNRNG", 48, "Link number out of range"),
   ("EUNATCH", 49, "Protocol driver not attached"),
   ("ENOCSI", 50, "No CSI structure available"),
   ("EL2HLT", 51, "Level 2 halted"),
   ("EBADE", 52, "Invalid exchange"),
   ("EBADR", 53, "Invalid request descriptor"),
   ("EXFULL", 54, "Exchange full"),
   ("ENOANO", 55, "No anode"),
   ("EBADRQC", 56, "Invalid request code"),
   ("EBADSLT", 57, "Invalid slot"),
   ("EBFONT", 59, "Bad font file format"),
   ("ENOSTR", 60, "Device not a stream"),
   ("ENODATA", 61, "No data available"),
   ("ETIME", 62, "Timer expired"),
   ("ENOSR", 63, "Out of streams resources"),
   ("ENONET", 64, "Machine is not on the network"),
   ("ENOPKG", 65, "Package not installed"),
   ("EREMOTE", 66, "Object is remote"),
   ("ENOLINK", 67, "Link has been severed"),
   ("EADV", 68, "Advertise error"),
   ("ESRMNT", 69, "Srmount error"),
   ("ECOMM", 70, "Communication error on send"),
   ("EPROTO", 71, "Protocol error"),
   ("EMULTIHOP", 72, "Multihop attempted"),
   ("EDOTDOT", 73, "RFS specific error"),
   ("EBADMSG", 74, "Bad message"),
   ("EOVERFLOW", 75, "Value too large for defined data type"),
   ("ENOTUNIQ", 76, "Name not unique on network"),
   ("EBADFD", 77, "File descriptor in bad state"),
   ("EREMCHG", 78, "Remote address changed"),
   ("ELIBACC", 79, "Can not access a needed shared library"),
   ("ELIBBAD", 80, "Accessing a corrupted shared library"),
   ("ELIBSCN", 81, ".lib section in a.out corrupted"),
   ("ELIBMAX", 82, "Attempting to link in too many shared libraries"),
   ("ELIBEXEC", 83, "Cannot exec a shared library directly"),
   ("EILSEQ", 84, "Invalid or incomplete multibyte or wide character"),
   ("ERESTART", 85, "Interrupted system call should be restarted"),
   ("ESTRPIPE", 86, "Streams pipe error"),
   ("EUSERS", 87, "Too many users"),
   ("ENOTSOCK", 88, "Socket operation on non-socket"),
   ("EDESTADDRREQ", 89, "Destination address required"),
   ("EMSGSIZE", 90, "Message too long"),
   ("EPROTOTYPE", 91, "Protocol wrong type for socket"),
   ("ENOPROTOOPT", 92, "Protocol not available"),
   ("EPROTONOSUPPORT", 93, "Protocol not supported"),
   ("ESOCKTNOSUPPORT", 94, "Socket type not supported"),
   ("ENOTSUP", 95, "Operation not supported"),
   ("EPFNOSUPPORT", 96, "Protocol family not supported"),
   ("EAFNOSUPPORT", 97, "Address family not supported by protocol"),
   ("EADDRINUSE", 98, "Address already in use"),
   ("EADDRNOTAVAIL", 99, "Cannot assign requested address"),
   ("ENETDOWN", 100, "Network is down"),
   ("ENETUNREACH", 101, "Network is unreachable"),
   ("ENETRESET", 102, "Network dropped connection on reset"),
   ("ECONNABORTED", 103, "Software caused connection abort"),
   ("ECONNRESET", 104, "Connection reset by peer"),
   ("ENOBUFS", 105, "No buffer space available"),
   ("EISCONN", 106, "Transport endpoint is already connected"),
   ("ENOTCONN", 107, "Transport endpoint is not connected"),
   ("ESHUTDOWN", 108, "Cannot send after transport endpoint shutdown"),
   ("ETOOMANYREFS", 109, "Too many references: cannot splice"),
   ("ETIMEDOUT", 110, "Connection timed out"),
   ("ECONNREFUSED", 111, "Connection refused"),
   ("EHOSTDOWN", 112, "Host is down"),
   ("EHOSTUNREACH", 113, "No route to host"),
   ("EALREADY", 114, "Operation already in progress"),
   ("EINPROGRESS", 115, "Operation now in progress"),
   ("ESTALE", 116, "Stale file handle"),
   ("EUCLEAN", 117, "Structure needs cleaning"),
   ("ENOTNAM", 118, "Not a XENIX named type file"),
   ("ENAVAIL", 119, "No XENIX semaphores available"),
   ("EISNAM", 120, "Is a named type file"),
   ("EREMOTEIO", 121, "Remote I/O error"),
   ("EDQUOT", 122, "Disk quota exceeded"),
   ("ENOMEDIUM", 123, "No medium found"),
   ("EMEDIUMTYPE", 124, "Wrong medium type"),
   ("ECANCELED", 125, "Operation canceled"),
   ("ENOKEY", 126, "Required key not available"),
   ("EKEYEXPIRED", 127, "Key has expired"),
   ("EKEYREVOKED", 128, "Key has been revoked"),
   ("EKEYREJECTED", 129, "Key was rejected by service"),
   ("EOWNERDEAD", 130, "Owner died"),
   ("ENOTRECOVERABLE", 131, "State not recoverable"),
   ("ERFKILL", 132, "Operation not possible due to RF-kill"),
   ("EDEADLK", 35, "Resource deadlock avoided"),
   ("EOPNOTSUPP", 95, "Operation not supported"),
   ("EWOULDBLOCK", 11, "Resource temporarily unavailable")]

/-- The error with a symbolic name; an unknown name is an input or output error. -/
def byName (name : String) (path : Option Text) : OsError :=
  match table.find? (·.1 = name) with
  | some (_, code, reason) => ⟨code, reason, path⟩
  | none => ⟨5, "Input/output error", path⟩

/-- Nothing has this path. -/
def noEntry (p : Text) : OsError := ⟨2, "No such file or directory", some p⟩

/-- Something has this path already. -/
def alreadyExists (p : Text) : OsError := ⟨17, "File exists", some p⟩

/-- A name on the way is no directory. -/
def notDirectory (p : Text) : OsError := ⟨20, "Not a directory", some p⟩

/-- A directory stands where a file is wanted. -/
def isDirectory (p : Text) : OsError := ⟨21, "Is a directory", some p⟩

/-- A name or the path is too long. -/
def nameTooLong (p : Text) : OsError := ⟨36, "File name too long", some p⟩

/-- Too many links on the way. -/
def tooManyLinks (p : Text) : OsError := ⟨40, "Too many levels of symbolic links", some p⟩

/-- Whether the path leads nowhere, for one of the reasons that make a candidate no candidate. -/
def isMissing (e : OsError) : Bool := e.code = 2 || e.code = 20 || e.code = 21

/-- Whether asking for the kind of a file takes the error as "nothing there". -/
def isAbsence (e : OsError) : Bool := e.code = 2 || e.code = 20 || e.code = 9 || e.code = 40

/-- The name of the error's class. -/
def className (e : OsError) : Text :=
  if e.code = 1 || e.code = 13 then "PermissionError"
  else if e.code = 2 then "FileNotFoundError"
  else if e.code = 3 then "ProcessLookupError"
  else if e.code = 4 then "InterruptedError"
  else if e.code = 10 then "ChildProcessError"
  else if e.code = 11 || e.code = 114 || e.code = 115 then "BlockingIOError"
  else if e.code = 17 then "FileExistsError"
  else if e.code = 20 then "NotADirectoryError"
  else if e.code = 21 then "IsADirectoryError"
  else if e.code = 32 || e.code = 108 then "BrokenPipeError"
  else if e.code = 103 then "ConnectionAbortedError"
  else if e.code = 104 then "ConnectionResetError"
  else if e.code = 110 then "TimeoutError"
  else if e.code = 111 then "ConnectionRefusedError"
  else "OSError"

end OsError

end StyleImport
