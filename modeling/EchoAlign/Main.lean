import EchoAlign.CommandLine.Program

/-!
# `EchoAlign.Main`: the program

`main` collects what `Program.run` wants to know, and does what it says:
it prints the output, reports the error, writes the files and ends with
the exit code. No audio devices are known here.
-/

set_option autoImplicit false

namespace EchoAlign.Main

/-- What a path names. -/
def inspectPath (path : String) : IO (Option FileNode) := do
  try
    let place ← IO.FS.realPath path
    if ← place.isDir then return some .folder
    return some (.file (← IO.FS.readBinFile path))
  catch _ => return none

/-- The path of a place. -/
def pathOf (place : List String) : String := "/" ++ "/".intercalate place

/-- Adds what a place names to a tree, if it names something. -/
def explorePlace (tree : FileTree) (place : List String) : IO FileTree := do
  match ← inspectPath (pathOf place) with
  | some node => return tree.put place node
  | none => return tree

/-- Adds all that a walk along a path comes to. -/
def explore (tree : FileTree) (path : String) : IO FileTree :=
  (FileTree.waypoints (tree.start path) (FileTree.componentsOf path)).foldlM explorePlace tree

/-- The paths that a request names. -/
def pathsOf (request : Except Halt Request) : List String :=
  match request with
  | .ok (.showSettings source) => source.file?.toList
  | .ok (.run source options) =>
      source.file?.toList ++ options.play?.toList ++ options.output?.toList
  | _ => []

/-- The folder that dumps go to, as far as the settings can be read. -/
def dumpPathsOf (files : FileTree) (request : Except Halt Request) : List String :=
  match request with
  | .ok (.run source _) =>
      match Program.settingsFrom files source with
      | .ok settings => Dumps.fileNames.map (FileTree.inFolder settings.dumpDir)
      | .error _ => []
  | _ => []

/-- Writes the files that were created. -/
def writeFiles (before after : FileTree) : IO Unit :=
  after.nodes.forM fun (place, node) =>
    match node, before.node? place with
    | .file contents, some (.file old) =>
        if contents == old then pure () else IO.FS.writeBinFile (pathOf place) contents
    | .file contents, none => IO.FS.writeBinFile (pathOf place) contents
    | _, _ => pure ()

end EchoAlign.Main

open EchoAlign EchoAlign.Main in
/-- Runs the program on its command line. -/
def main (arguments : List String) : IO UInt32 := do
  let settingsFile? ← IO.getEnv "AEC_SYNC_CONFIG"
  let working := ((← IO.currentDir).toString.splitOn "/").filter (· != "")
  let request := Request.parse arguments settingsFile?
  let empty : FileTree := ⟨[], working⟩
  let files ← (pathsOf request).foldlM explore empty
  let files ← (dumpPathsOf files request).foldlM explore files
  let noDevices : DeviceShelf := ⟨some [], none⟩
  let outcome := Program.run ⟨arguments, settingsFile?, files, ⟨noDevices, noDevices⟩⟩
  writeFiles files outcome.files
  outcome.output.forM IO.println
  match outcome.error? with
  | some error => IO.eprintln ("Error: " ++ error)
  | none => pure ()
  return outcome.code.toUInt32
