import FieldMesh.Files.Tree
import FieldMesh.Formula.Document

/-!
# Watching files

A watcher follows files and directories of a tree and collects the paths of
what changes. Of a directory it follows the entries directly in it, but only
those with a name for formulas count, unless a path is followed itself.

* `Watcher.watchName`, `Watcher.unwatchName`: begin and end to follow what is
  under a name;
* `Watcher.notice`: what a change adds;
* `Watcher.take`: the paths that were collected.
-/

namespace FieldMesh.Files

/-- Whether a path has a name for formulas. -/
def Path.isFormula (path : Path) : Bool :=
  match Formula.extension? (path.getLastD "") with
  | some extension => extension == "json" || extension == "formula"
  | none => false

/-- An entry that is followed, under the path it had at first. -/
structure Follow where
  path : Path
  id : Nat
  deriving DecidableEq, Repr

/-- A watcher. -/
structure Watcher where
  /-- What is followed. An entry that is deleted is followed no longer. -/
  follows : List Follow := []
  /-- The paths that were asked for. -/
  registered : List Path := []
  /-- The paths that have changed. -/
  changed : List Path := []
  deriving Repr

namespace Watcher

/-- Whether a change of a path counts. -/
def counts (w : Watcher) (path : Path) : Bool :=
  w.registered.contains path ||
    (w.registered.any (·.isPrefixOf path) && path.isFormula)

/-- Collects a path if it counts. -/
def report (w : Watcher) (path : Path) : Watcher :=
  if w.counts path && !w.changed.contains path then
    { w with changed := w.changed ++ [path] }
  else w

/-- The paths under which a change is seen: by those that follow the
directory, and by those that follow the entry itself. -/
def seenAs (w : Watcher) (c : Change) : List Path :=
  (w.follows.filter (·.id == c.directory)).map (·.path ++ [c.name]) ++
    if c.kind = .made ∨ c.kind = .movedIn then []
    else (w.follows.filter (·.id == c.id)).map Follow.path

/-- What is followed after a change. A deleted entry is let go; so is what is
followed under a path that is seen to become free. -/
def followsAfter (w : Watcher) (c : Change) : List Follow :=
  match c.kind with
  | .removed => w.follows.filter (·.id != c.id)
  | .movedOut =>
    let freed :=
      (w.follows.filter (·.id == c.directory)).map (·.path ++ [c.name])
    w.follows.filter fun f => !freed.contains f.path
  | _ => w.follows

/-- Takes notice of a change. -/
def notice (w : Watcher) (c : Change) : Watcher :=
  { (w.seenAs c).foldl report w with follows := w.followsAfter c }

/-- Begins to follow an entry under its path. -/
def watch (w : Watcher) (path : Path) (e : Entry) : Watcher :=
  { w with
    follows := w.follows.filter (·.path != path) ++ [⟨path, e.id⟩]
    registered :=
      if w.registered.contains path then w.registered
      else w.registered ++ [path] }

/-- Ends to follow a path. -/
def unwatch (w : Watcher) (path : Path) : Watcher :=
  { w with
    follows := w.follows.filter (·.path != path)
    registered := w.registered.filter (· != path) }

/-- Whether a path is followed. -/
def isFollowing (w : Watcher) (path : Path) : Bool :=
  w.follows.any (·.path == path)

/-- The collected paths, and the watcher without them. -/
def take (w : Watcher) : List Path × Watcher :=
  (w.changed, { w with changed := [] })

/-! ## By name -/

/-- Why a name cannot be followed, or not be let go. -/
inductive WatchError where
  | watch (path : String)
  | unwatch (path : String)
  deriving DecidableEq, Repr

/-- The wording of an error. -/
def WatchError.message : WatchError → String
  | .watch path => "Watch error: Failed to watch " ++ path
  | .unwatch path => "Watch error: Failed to unwatch " ++ path

/-- Begins to follow what is under a name of a tree. -/
def watchName (w : Watcher) (t : Tree) (root name : String) :
    Except WatchError Watcher :=
  match t.find name with
  | .ok (path, e) => .ok (w.watch path e)
  | .error _ => .error (.watch (root ++ "/" ++ name))

/-- Ends to follow what is under a name of a tree. It is an error if that was
not followed, and the path is no longer registered then either. -/
def unwatchName (w : Watcher) (t : Tree) (root name : String) :
    Except WatchError Unit × Watcher :=
  match t.locate name with
  | .ok path =>
    let result :=
      if w.isFollowing path then .ok () else .error (.unwatch (path.text root))
    (result, w.unwatch path)
  | .error _ => (.error (.unwatch (root ++ "/" ++ name)), w)

end Watcher

end FieldMesh.Files
