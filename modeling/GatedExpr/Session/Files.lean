import GatedExpr.Text.Search

/-! # Files

The files that a run can read, by path. A path is followed part by part from the directory of the
run, so empty parts and single dots do not matter. Of what lies outside of that directory only
the directories above it are known.
-/

namespace GatedExpr

/-- Why a file could not be read. -/
inductive FileFault where
  | notFound
  | isDirectory
  | notADirectory
  | nameTooLong
  /-- No path has a null character. -/
  | nullCharacter
  deriving DecidableEq, Repr

/-- Files with their paths. -/
structure Files where
  entries : List (String × String)

namespace Files

/-- The names that a path consists of. -/
def parts (path : String) : List (List Char) :=
  (Text.splitOn ['/'] (by simp) path.toList).filter fun part => part ≠ [] ∧ part ≠ ['.']

/-- A directory: a place below that of the run, or one somewhere above it. -/
inductive Directory where
  | below (names : List (List Char))
  | above

/-- The directory that holds a directory. -/
def Directory.parent : Directory → Directory
  | .below [] => .above
  | .below names => .below names.dropLast
  | .above => .above

def isLong (most : Nat) (name : List Char) : Bool :=
  most < (String.ofList name).utf8ByteSize

/-- Whether there are files further down than `names`. -/
def isDirectory (files : Files) (names : List (List Char)) : Bool :=
  files.entries.any fun entry => names.isPrefixOf (parts entry.1) && parts entry.1 != names

/-- Follows names from a directory to a file. -/
def find (files : Files) : Directory → List (List Char) → Except FileFault String
  | _, [] => .error .isDirectory
  | directory, name :: rest =>
    if name = ['.', '.'] then find files directory.parent rest
    else if isLong 255 name then .error .nameTooLong
    else
      match directory with
      | .above => .error .notFound
      | .below names =>
        let names := names ++ [name]
        match files.entries.find? fun entry => parts entry.1 = names with
        | some entry => if rest.isEmpty then .ok entry.2 else .error .notADirectory
        | none => if files.isDirectory names then find files (.below names) rest
          else .error .notFound

def read (files : Files) (path : String) : Except FileFault String :=
  if path.toList.contains '\x00' then .error .nullCharacter
  else if isLong 4095 path.toList then .error .nameTooLong
  else find files (if path.toList.head? = some '/' then .above else .below []) (parts path)

end Files

end GatedExpr
