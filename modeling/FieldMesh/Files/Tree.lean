/-!
# Directory trees

A working directory with the files and directories below it. Every entry has
a number of its own, which it keeps when it is renamed or written again, so
that a change can be told to whoever follows the entry.

* `Tree.locate`: the path that a name stands for;
* `Tree.read`, `Tree.write`, `Tree.makeDirectory`, `Tree.delete`,
  `Tree.rename`: what can be done with names, and the changes that follow.
-/

namespace FieldMesh.Files

/-- The names from the working directory down to an entry. -/
abbrev Path := List String

/-- The text of a path below a directory. -/
def Path.text (root : String) (path : Path) : String :=
  path.foldl (fun text part => text ++ "/" ++ part) root

/-- Why a name does not lead to what is needed. -/
inductive PathFault where
  | missing
  | notDirectory
  | isDirectory
  /-- What is there is in the way. -/
  | occupied
  deriving DecidableEq, Repr

/-- The wording of a fault. -/
def PathFault.message : PathFault → String
  | .missing => "No such file or directory (os error 2)"
  | .notDirectory => "Not a directory (os error 20)"
  | .isDirectory => "Is a directory (os error 21)"
  | .occupied => "File exists (os error 17)"

/-- A file or a directory. -/
structure Entry where
  id : Nat
  /-- The text of a file; a directory has none. -/
  content : Option String
  deriving DecidableEq, Repr

/-- Whether an entry is a directory. -/
def Entry.isDirectory (e : Entry) : Bool := e.content.isNone

/-- What happens to an entry. -/
inductive ChangeKind where
  | made
  | written
  | removed
  | movedOut
  | movedIn
  deriving DecidableEq, Repr

/-- A change of an entry, under its name in a directory. -/
structure Change where
  kind : ChangeKind
  /-- The number of the directory. -/
  directory : Nat
  name : String
  /-- The number of the entry. -/
  id : Nat
  deriving DecidableEq, Repr

/-- A working directory with what is below it. -/
structure Tree where
  entries : List (Path × Entry) := []
  /-- The number of the next entry. The working directory has number 0. -/
  nextId : Nat := 1
  deriving Repr

namespace Tree

/-- The entry at a path. -/
def entry? (t : Tree) (path : Path) : Option Entry :=
  if path.isEmpty then some ⟨0, none⟩ else t.entries.lookup path

/-- Goes on from a directory to a part of a name. -/
def enter (t : Tree) (here : Path) (part : String) : Except PathFault Path :=
  match t.entry? here with
  | none => .error .missing
  | some e =>
    if !e.isDirectory then .error .notDirectory
    else if part = "" ∨ part = "." then .ok here
    else if part = ".." then .ok here.dropLast
    else .ok (here ++ [part])

/-- Follows the parts of a name. -/
def follow (t : Tree) (parts : List String) : Except PathFault Path :=
  parts.foldlM t.enter []

/-- The path that a name stands for. There may be nothing at its end. Names
that do not start at the working directory stand for nothing. -/
def locate (t : Tree) (name : String) : Except PathFault Path :=
  if name.startsWith "/" then .error .missing else t.follow (name.splitOn "/")

/-- The path and the entry that a name stands for. -/
def find (t : Tree) (name : String) : Except PathFault (Path × Entry) := do
  let path ← t.locate name
  match t.entry? path with
  | some e => return (path, e)
  | none => throw .missing

/-- The directory and the last part of a name for a file to be made. -/
def placeFor (t : Tree) (name : String) :
    Except PathFault (Path × Entry × String) := do
  if name.startsWith "/" then throw .missing
  let parts := name.splitOn "/"
  let directory ← t.follow (parts.dropLast ++ [""])
  let last := parts.getLastD ""
  if last = "" ∨ last = "." ∨ last = ".." then throw .isDirectory
  match t.entry? directory with
  | some e => return (directory, e, last)
  | none => throw .missing

/-- Puts an entry at a path. -/
def put (t : Tree) (path : Path) (e : Entry) : Tree :=
  { t with entries := (path, e) :: t.entries.filter (·.1 != path) }

/-- Takes the entry at a path away. -/
def drop (t : Tree) (path : Path) : Tree :=
  { t with entries := t.entries.filter (·.1 != path) }

/-! ## What can be done -/

/-- The text of a file. -/
def read (t : Tree) (name : String) : Except PathFault String := do
  match (← t.find name).2.content with
  | some text => return text
  | none => throw .isDirectory

/-- Writes a file, in place if it is there. -/
def write (t : Tree) (name text : String) :
    Except PathFault (Tree × List Change) := do
  let (directory, parent, last) ← t.placeFor name
  let path := directory ++ [last]
  match t.entry? path with
  | some e =>
    if e.isDirectory then throw .isDirectory
    return (t.put path { e with content := some text },
      [⟨.written, parent.id, last, e.id⟩])
  | none =>
    let made := t.put path ⟨t.nextId, some text⟩
    return ({ made with nextId := t.nextId + 1 },
      [⟨.made, parent.id, last, t.nextId⟩])

/-- Makes a directory. -/
def makeDirectory (t : Tree) (name : String) :
    Except PathFault (Tree × List Change) := do
  let parts := name.splitOn "/"
  let parts := if parts.getLast? = some "" then parts.dropLast else parts
  let (directory, parent, last) ← t.placeFor ("/".intercalate parts)
  let path := directory ++ [last]
  if (t.entry? path).isSome then throw .occupied
  let made := t.put path ⟨t.nextId, none⟩
  return ({ made with nextId := t.nextId + 1 },
    [⟨.made, parent.id, last, t.nextId⟩])

/-- Makes the directories that a path is to lie in, as far as they are
missing. -/
def makeParents (t : Tree) (path : Path) : Tree :=
  (List.range (path.length - 1)).foldl (fun t depth =>
    let directory := path.take (depth + 1)
    match t.entry? directory with
    | some _ => t
    | none =>
      { t.put directory ⟨t.nextId, none⟩ with nextId := t.nextId + 1 }) t

/-- Deletes a file. -/
def delete (t : Tree) (name : String) :
    Except PathFault (Tree × List Change) := do
  let (path, e) ← t.find name
  if e.isDirectory then throw .isDirectory
  match t.entry? path.dropLast with
  | some parent =>
    return (t.drop path, [⟨.removed, parent.id, path.getLastD "", e.id⟩])
  | none => throw .missing

/-- Whether a directory has nothing in it. -/
def isVacant (t : Tree) (path : Path) : Bool :=
  t.entries.all fun (other, _) => !path.isPrefixOf other || other == path

/-- Gives an entry, with all that is below it, another path. -/
def relocate (t : Tree) (old new : Path) : Tree :=
  { t with entries := t.entries.map fun (path, e) =>
    if old.isPrefixOf path then (new ++ path.drop old.length, e) else (path, e) }

/-- Whether an entry may take the place of another one. -/
def mayReplace (t : Tree) (moved target : Entry) (path : Path) :
    Except PathFault Unit :=
  if moved.isDirectory then
    if !target.isDirectory then .error .notDirectory
    else if t.isVacant path then .ok ()
    else .error .occupied
  else if target.isDirectory then .error .isDirectory
  else .ok ()

/-- Renames an entry. What is at the new name gives way to it. -/
def rename (t : Tree) (name newName : String) :
    Except PathFault (Tree × List Change) := do
  let (old, e) ← t.find name
  let (directory, parent, last) ← t.placeFor newName
  let new := directory ++ [last]
  if old = new then return (t, [])
  if old.isEmpty || old.isPrefixOf new then throw .occupied
  let replaced ← match t.entry? new with
    | some target => do
      t.mayReplace e target new
      pure [⟨.removed, parent.id, last, target.id⟩]
    | none => pure []
  match t.entry? old.dropLast with
  | some before =>
    return ((t.drop new).relocate old new,
      replaced ++ [⟨.movedOut, before.id, old.getLastD "", e.id⟩,
        ⟨.movedIn, parent.id, last, e.id⟩])
  | none => throw .missing

end Tree

end FieldMesh.Files
