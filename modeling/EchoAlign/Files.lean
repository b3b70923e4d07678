import EchoAlign.Audio.Error

/-!
# `EchoAlign.Files`: the files a program sees

A `FileTree` is a snapshot of the files around a program: absolute
paths, given by their components, and what each of them names. Relative
paths start at the tree's working folder.

Reading and creating follow the operating system. A path is walked
component by component: every component before the last has to name a
folder, also where `..` leaves it again, and the first that does not
gives the error. `locate` only says where a path leads; it asks for no
folder on the way.
-/

set_option autoImplicit false

namespace EchoAlign

/-- What a path names. Only a `file` has contents that can change. -/
inductive FileNode where
  | file (contents : ByteArray)
  | folder
  /-- A device that is empty to read and swallows what is written. -/
  | void

/-- The files around a program, by their places: a place is the list of the
folders on the way and the name, without `.` and `..`. -/
structure FileTree where
  nodes : List (List String × FileNode)
  /-- The folder relative paths start from. -/
  working : List String

namespace FileTree

/-! ### Paths -/

/-- The longest path, in bytes. -/
def maxPathSize : Nat := 4095

/-- The longest component of a path, in bytes. -/
def maxNameSize : Nat := 255

/-- The components of a path. -/
def componentsOf (path : String) : List String :=
  ((path.toList.splitOn '/').map String.ofList).filter (· != "")

/-- The folder a path starts from. -/
def start (t : FileTree) (path : String) : List String :=
  if path.startsWith "/" then [] else t.working

/-- Where one component leads from a folder. -/
def descend (folder : List String) (component : String) : List String :=
  if component = "." then folder
  else if component = ".." then folder.dropLast
  else folder ++ [component]

/-- The place a path leads to. -/
def locate (t : FileTree) (path : String) : List String :=
  (componentsOf path).foldl descend (t.start path)

/-- The path of a file in a folder. -/
def inFolder (folder name : String) : String :=
  if folder = "" then name else if folder.endsWith "/" then folder ++ name else folder ++ "/" ++ name

/-- The places that a walk from a folder comes to, the folder first. -/
def waypoints (folder : List String) : List String → List (List String)
  | [] => [folder]
  | component :: rest => folder :: waypoints (descend folder component) rest

/-! ### Walking -/

/-- What a place names. -/
def node? (t : FileTree) (place : List String) : Option FileNode :=
  if place = [] then some .folder else t.nodes.lookup place

/-- Follows one component from a folder. Its length is checked here, when the
walk gets to it (`maxNameSize`). -/
def follow (folder : List String) (component : String) : Except FileError (List String) :=
  if maxNameSize < component.utf8ByteSize then .error .nameTooLong
  else .ok (descend folder component)

/-- Follows components that all have to name folders, and stops at the first
that does not. -/
def enter (t : FileTree) (folder : List String) : List String → Except FileError (List String)
  | [] => .ok folder
  | component :: rest =>
      match follow folder component with
      | .error e => .error e
      | .ok place =>
          match t.node? place with
          | some .folder => t.enter place rest
          | some _ => .error .notDirectory
          | none => .error .notFound

/-- Walks a path up to its last component. Answers with the folder
reached and that component, which is `.` when there is none. -/
def approach (t : FileTree) (path : String) : Except FileError (List String × String) :=
  if path.contains '\x00' then .error .nulInName
  else if path = "" then .error .notFound
  else if maxPathSize < path.utf8ByteSize then .error .nameTooLong
  else
    let components := componentsOf path
    (t.enter (t.start path) components.dropLast).map fun folder =>
      (folder, components.getLast?.getD ".")

/-- Finds what a path names (`approach`, then its last component). A path that
ends in a slash has to name a folder. -/
def find (t : FileTree) (path : String) : Except FileError FileNode := do
  let (folder, last) ← t.approach path
  let place ← follow folder last
  match t.node? place with
  | none => .error .notFound
  | some .folder => .ok .folder
  | some node => if path.endsWith "/" then .error .notDirectory else .ok node

/-- The contents of an opened file. -/
def contents : FileNode → Except FileError ByteArray
  | .file bytes => .ok bytes
  | .folder => .error .isDirectory
  | .void => .ok ByteArray.empty

/-- Replaces what a place names. -/
def put (t : FileTree) (place : List String) (node : FileNode) : FileTree :=
  { t with nodes := (place, node) :: t.nodes.filter fun entry => entry.1 != place }

/-- Creates an empty file, or empties the one that is there. A path that
ends in a slash can only name a folder. -/
def create (t : FileTree) (path : String) : Except FileError FileTree := do
  let (folder, last) ← t.approach path
  if path.endsWith "/" then .error .isDirectory
  else
    let place ← follow folder last
    match t.node? place with
    | some .folder => .error .isDirectory
    | some .void => .ok t
    | _ => .ok (t.put place (.file ByteArray.empty))

end FileTree

end EchoAlign
