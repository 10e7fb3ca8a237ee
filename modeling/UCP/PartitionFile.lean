import Mathlib.Data.Finmap
import Mathlib.Data.Finset.Sort
import UCP.FileIo

namespace UCP

/-- A string of C, without its end. -/
abbrev CString : Type := List UInt8

def ascii (text : String) : CString := text.toList.map fun ch => UInt8.ofNat ch.toNat

/-- `snprintf` into a buffer of this size. -/
def snprintf (size : Nat) (text : CString) : CString := text.take (size - 1)

/-- `%d`, for a number that is not negative. -/
def formatDecimal (n : Nat) : CString := (Nat.toDigits 10 n).map fun digit => UInt8.ofNat digit.toNat

/-- `%02d`. -/
def formatTwoDigits (n : Nat) : CString := if n < 10 then ascii "0" ++ formatDecimal n else formatDecimal n

/-- The directory that a program runs in: its files and what they hold. -/
abbrev Directory : Type := Finmap fun _ : CString => List UInt8

/-- The names that the pattern `namePrefix*` stands for, in their order. -/
def Directory.glob (dir : Directory) (namePrefix : CString) : List CString :=
  (dir.keys.filter fun name => namePrefix <+: name ∧ 47 ∉ name.drop namePrefix.length).sort (· ≤ ·)

/-- What `cat` writes for these files. -/
def Directory.concat (dir : Directory) (names : List CString) : List UInt8 :=
  names.flatMap fun name => (dir.lookup name).getD []

/-- What the shell makes of a command that `popen` hands it: whether the command
exits with 0, and the directory that it leaves; nothing when `popen` fails. -/
abbrev Shell : Type := CString → Directory → Option (Bool × Directory)

/-- `pclose` of a null stream, `strdup` of a null string, and a thread that is
started on no partition. -/
inductive NullFault
  | stream
  | string
  | handles
  deriving DecidableEq, Repr

/-- `file_io_partition_handle_t` with its name and index. -/
structure PartitionHandle where
  filepath : CString
  idx : UInt8
  handle : FileIoPartitionHandle

def partitionPrefix : CString := ascii "tmp_"

def partitionPath (i : Nat) : CString := snprintf 254 (partitionPrefix ++ formatTwoDigits i)

/-- The command line of `split`, before it is cut off. -/
def splitCommand (count : Nat) (filepath : CString) : CString :=
  ascii "/usr/bin/split -d -n " ++ formatDecimal count ++ ascii " " ++ filepath ++ ascii " " ++ partitionPrefix

/-- The loop of `file_io_partition_file` over `remaining` parts from part `i` on;
there are no handles when a part is missing or does not open. -/
def openPartitions (dir : Directory) (opens : CString → Bool) (i : Nat) : Nat → Option (List PartitionHandle)
  | 0 => some []
  | remaining + 1 =>
    match dir.lookup (partitionPath i) with
    | none => none
    | some content =>
      if opens (partitionPath i) then
        (openPartitions dir opens (i + 1) remaining).map
          (⟨partitionPath i, UInt8.ofNat i, openPartition content⟩ :: ·)
      else none

/-- `file_io_partition_file`, with the directory that it leaves; `allocates` and
`opens` tell how `calloc` and `fopen` turn out. -/
def fileIoPartitionFile (shell : Shell) (allocates : Bool) (opens : CString → Bool) (dir : Directory)
    (filepath : CString) (count : Nat) : Except NullFault (Option (List PartitionHandle) × Directory) :=
  match shell (snprintf 255 (splitCommand count filepath)) dir with
  | none => .error .stream
  | some (exited, dir) =>
    if exited && allocates then pure (openPartitions dir opens 0 count, dir) else pure (none, dir)

/-- The loop of `file_io_partition_release`, which removes the part files. -/
def fileIoPartitionRelease (dir : Directory) : List PartitionHandle → Directory
  | [] => dir
  | handle :: handles => fileIoPartitionRelease (dir.erase handle.filepath) handles

/-- The command line of `cat`, before it is cut off. -/
def catCommand (namePrefix outfile : CString) : CString :=
  ascii "/usr/bin/cat " ++ namePrefix ++ ascii "* > " ++ outfile

/-- `file_io_merge_file`; an output file that is there already is removed first. -/
def fileIoMergeFile (shell : Shell) (dir : Directory) (namePrefix outfile : CString) :
    Except NullFault (Bool × Directory) :=
  let dir := if outfile ∈ dir then dir.erase outfile else dir
  match shell (snprintf 255 (catCommand namePrefix outfile)) dir with
  | none => .error .stream
  | some (exited, dir) => pure (exited, dir)

/-- The directory with these part files written, from part `i` on. -/
def Directory.writeParts (dir : Directory) (i : Nat) : List (List UInt8) → Directory
  | [] => dir
  | part :: parts => Directory.writeParts (dir.insert (partitionPath i) part) (i + 1) parts

/-- What `split` is documented to do with a file: it writes this many parts, which
make up the file. -/
def Splits (shell : Shell) (dir : Directory) (filepath : CString) (count : Nat) (parts : List (List UInt8)) :
    Prop :=
  dir.lookup filepath = some parts.flatten ∧ parts.length = count ∧
    shell (splitCommand count filepath) dir = some (true, dir.writeParts 0 parts)

/-- What `cat` with a pattern is documented to do where the pattern stands for
some names and the output file is new: it writes the files one after the other. -/
def Concatenates (shell : Shell) (namePrefix outfile : CString) : Prop :=
  ∀ dir : Directory, dir.glob namePrefix ≠ [] → outfile ∉ dir →
    shell (catCommand namePrefix outfile) dir =
      some (true, dir.insert outfile (dir.concat (dir.glob namePrefix)))

end UCP
