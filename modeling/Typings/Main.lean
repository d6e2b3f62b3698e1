import Typings.Command.Run

namespace Typings

/-- The file tree with an entry of a directory, all the way down. What cannot be read is left out. -/
partial def takeIn (t : FileTree) (place : Location) (entry : IO.FS.DirEntry) : IO FileTree := do
  let place := place ++ [entry.fileName]
  try
    if ← entry.path.isDir then
      (← entry.path.readDir).foldlM (takeIn · place) (t.add place .directory)
    else return t.add place (.file (← IO.FS.readBinFile entry.path))
  catch _ => return t

def placeOf (path : Path) : Location := (Path.pieces path.text.toList).filter (!Path.isFiller ·)

def takeDirectory (t : FileTree) (path : Path) : IO FileTree := do
  try
    let place := placeOf path
    (← (← IO.FS.realPath path.text).readDir).foldlM (takeIn · place) (t.add place .directory)
  catch _ => return t

def takeFile (t : FileTree) (path : Path) : IO FileTree := do
  try return t.add (placeOf path) (.file (← IO.FS.readBinFile path.text))
  catch _ => return t

/-- The working directory, the files among the arguments, and what is installed and cached. -/
def currentFiles (args : List String) (cache : Option Path) : IO FileTree := do
  let here : Path := ⟨(← IO.currentDir).toString⟩
  let t ← takeDirectory { workingDirectory := placeOf here } here
  let t ← args.foldlM (fun t arg => takeFile t (here.join ⟨arg⟩)) t
  let t ← cache.toList.foldlM (fun t directory => takeDirectory t (directory.child "stubgen")) t
  here.ancestors.foldlM (fun t up =>
    takeFile t (((up.child "node_modules").child "antlr4").child "package.json")) t

def cacheDirectory : IO (Option Path) := do
  match ← IO.getEnv "XDG_CACHE_HOME", ← IO.getEnv "HOME" with
  | some cache, home =>
    if cache.startsWith "/" then return some ⟨cache⟩ else return home.map fun h => (⟨h⟩ : Path).child ".cache"
  | none, home => return home.map fun h => (⟨h⟩ : Path).child ".cache"

def writeChanges (before after : FileTree) : IO Unit :=
  (before.changedFiles after).forM fun (place, content) => do
    IO.FS.createDirAll (FileTree.pathOf place.dropLast).text
    IO.FS.writeBinFile (FileTree.pathOf place).text content

def runOnFiles (args : List String) : IO Outcome := do
  let cache ← cacheDirectory
  let files ← currentFiles args cache
  let outside : Surroundings :=
    { tool := fun _ _ => .error .notFound
      download := fun _ => .error (.request "no network")
      cacheDirectory := cache }
  let terminal : Terminal :=
    { term := ← IO.getEnv "TERM", noColor := (← IO.getEnv "NO_COLOR").isSome }
  let (outcome, after) := (runCommand outside terminal args).run files
  writeChanges files after
  return outcome

end Typings

def main (args : List String) : IO UInt32 := do
  let outcome ← Typings.runOnFiles args
  (← IO.getStdout).putStr outcome.stdout
  (← IO.getStderr).putStr outcome.stderr
  return outcome.exit.toUInt32
