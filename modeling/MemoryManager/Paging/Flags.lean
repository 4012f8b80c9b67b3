import MemoryManager.Text

namespace MemoryManager

/-- A set of permission flags; bits without a name are kept. -/
@[ext] structure PageFlags where
  bits : UInt32
  deriving DecidableEq

namespace PageFlags

def empty : PageFlags := ⟨0⟩
def present : PageFlags := ⟨1⟩
def writable : PageFlags := ⟨2⟩
def executable : PageFlags := ⟨4⟩
def user : PageFlags := ⟨8⟩
def writableExecutable : PageFlags := ⟨6⟩

/-- The flags with a name, in the order in which they are listed. -/
def named : List (String × PageFlags) :=
  [("PRESENT", present), ("RW", writable), ("EXEC", executable), ("USER", user),
    ("RWX", writableExecutable)]

def all : PageFlags := ⟨15⟩

def isEmpty (a : PageFlags) : Bool :=
  a.bits == 0

def isAll (a : PageFlags) : Bool :=
  all.bits ||| a.bits == a.bits

def contains (a b : PageFlags) : Bool :=
  a.bits &&& b.bits == b.bits

def intersects (a b : PageFlags) : Bool :=
  a.bits &&& b.bits != 0

def union (a b : PageFlags) : PageFlags :=
  ⟨a.bits ||| b.bits⟩

def inter (a b : PageFlags) : PageFlags :=
  ⟨a.bits &&& b.bits⟩

def sdiff (a b : PageFlags) : PageFlags :=
  ⟨a.bits &&& ~~~b.bits⟩

def symmDiff (a b : PageFlags) : PageFlags :=
  ⟨a.bits ^^^ b.bits⟩

def truncate (a : PageFlags) : PageFlags :=
  a.inter all

/-- The flags with a name that are not in the set. -/
def complement (a : PageFlags) : PageFlags :=
  truncate ⟨~~~a.bits⟩

/-- The set with the given bits, if all of them have a name. -/
def ofBits? (bits : UInt32) : Option PageFlags :=
  if truncate ⟨bits⟩ = ⟨bits⟩ then some ⟨bits⟩ else none

def ofName? (name : String) : Option PageFlags :=
  named.lookup name

private def split (a : PageFlags) : List (String × PageFlags) → PageFlags → List String × PageFlags
  | [], rest => ([], rest)
  | (name, f) :: fs, rest =>
    if a.contains f && rest.intersects f then
      let (names, rest) := split a fs (rest.sdiff f)
      (name :: names, rest)
    else split a fs rest

/-- The names of the flags in the set; a name is listed if it adds something. -/
def names (a : PageFlags) : List String :=
  (split a named a).1

/-- The flags in the set that have no name. -/
def unnamed (a : PageFlags) : PageFlags :=
  (split a named a).2

def debug (a : PageFlags) : String :=
  let rest := if a.unnamed.isEmpty && !a.isEmpty then [] else [Text.hex a.unnamed.bits.toUInt64]
  "VmmFlags(" ++ " | ".intercalate (a.names ++ rest) ++ ")"

end PageFlags

end MemoryManager
