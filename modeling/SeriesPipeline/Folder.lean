import SeriesPipeline.SortedMap

/-!
# The working folder

Files are found by their paths from the folder. Empty steps and single points in a path lead
nowhere, and double points only lead out of the folder. Of what is outside, only that the folders
on the way up are folders is known.
-/

namespace SeriesPipeline

/-- What is found under a path. -/
inductive Found where
  | nothing
  /-- A folder, which can be opened but not read. -/
  | folder
  | content (bytes : List UInt8)

/-- Files by their names. The steps of a name have slashes between them. -/
structure Folder where
  files : SortedMap String (List UInt8)

namespace Folder

/-- The steps of a path. -/
def steps (path : String) : List String := path.splitOn "/"

def isIdle (step : String) : Bool := step = "" || step = "."

/-- Whether a path can only be that of a folder. -/
def endsAsFolder (path : String) : Bool := (steps path).getLast?.all isIdle

def hasFolder (f : Folder) (name : String) : Bool :=
  f.files.keys.any fun key => (name ++ "/").toList.isPrefixOf key.toList

/-- What is found under a name without idle steps. -/
def named (f : Folder) (name : String) (asFolder : Bool) : Found :=
  if f.hasFolder name then .folder
  else if asFolder then .nothing
  else
    match f.files.get? name with
    | some bytes => .content bytes
    | none => .nothing

def find (f : Folder) (path : String) : Found :=
  let taken := (steps path).filter (!isIdle ·)
  if path = "" then .nothing
  else if taken.all (· = "..") then .folder
  else if path.toList.head? = some '/' then .nothing
  else f.named ("/".intercalate taken) (endsAsFolder path)

end Folder

end SeriesPipeline
