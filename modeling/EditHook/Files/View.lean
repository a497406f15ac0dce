import EditHook.Text.Utf8

/-! What the hook sees of a file system: the bytes of a file, or why there are none, and whether a
path names a regular file. Any such view will do. -/

namespace EditHook

inductive FileFault where
  | notFound
  | notDirectory
  | isDirectory
  | notPermitted
  | nameTooLong
  | nulInName
  deriving DecidableEq, Repr

namespace FileFault

def message : FileFault → String
  | notFound => "No such file or directory (os error 2)"
  | notDirectory => "Not a directory (os error 20)"
  | isDirectory => "Is a directory (os error 21)"
  | notPermitted => "Permission denied (os error 13)"
  | nameTooLong => "File name too long (os error 36)"
  | nulInName => "file name contained an unexpected NUL byte"

/-- The wording of programs that only name the fault. -/
def reason : FileFault → String
  | notFound => "No such file or directory"
  | notDirectory => "Not a directory"
  | isDirectory => "Is a directory"
  | notPermitted => "Permission denied"
  | nameTooLong => "File name too long"
  | nulInName => "No such file or directory"

end FileFault

/-- A path as the system has it: bytes that need not be a text. Other bytes are another path, also
where they look the same. -/
structure RawPath where
  bytes : List UInt8
  deriving DecidableEq, Repr

instance : Coe String RawPath :=
  ⟨fun s => ⟨utf8 s⟩⟩

/-- How messages show a path. -/
def RawPath.display (p : RawPath) : String :=
  textOfBytes p.bytes

structure FileView where
  read : RawPath → Except FileFault (List UInt8)
  isFile : RawPath → Bool

end EditHook
