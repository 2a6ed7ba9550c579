import TemplateAnalysis.CommandLine.Run

/-! # The program

    The outer layer: it takes the files in question from disk into a file
    tree, has the command line run on the tree, prints what the run printed
    and writes to disk what the run changed. Without arguments it holds the
    dialogue with whoever sits at the terminal.
-/

namespace TemplateAnalysis.Program

open Files CommandLine

/-! ## From disk -/

/-- The path on disk of a place. -/
def onDisk (place : List String) : String :=
  "/" ++ String.intercalate "/" place

/-- What stands in a folder on disk and below it. What cannot be read is left
    out, and links to folders are not followed. -/
partial def nodesBelow (place : List String) (entries : Array IO.FS.DirEntry) :
    IO (List (List String × Node)) := do
  let mut nodes := []
  for entry in entries do
    let here := place ++ [entry.fileName]
    try
      match (← entry.path.symlinkMetadata).type with
      | .dir =>
        nodes := (here, .folder) :: (← nodesBelow here (← entry.path.readDir)) ++ nodes
      | _ => nodes := (here, .file (← IO.FS.readBinFile entry.path)) :: nodes
    catch _ => pure ()
  pure nodes

/-- The tree with what stands at a place on disk, below it, and above it. -/
def takeIn (tree : FileTree) (place : List String) : IO FileTree := do
  try
    let path ← IO.FS.realPath (onDisk place)
    let found ←
      if ← path.isDir then
        pure ((place, .folder) :: (← nodesBelow place (← path.readDir)))
      else pure [(place, .file (← IO.FS.readBinFile path))]
    let others := tree.nodes.filter fun entry => !place.isPrefixOf entry.1
    let above := (List.range place.length).map fun n => (place.take n, Node.folder)
    pure { tree with nodes := found ++ others ++ above }
  catch _ => pure tree

/-- The place that a path leads to from the current folder. -/
def placeOf (tree : FileTree) (path : Path) : List String :=
  (Path.resolve tree.current path).parts

/-- The places among some that lie in no other of them. -/
def outermost (places : List (List String)) : List (List String) :=
  places.eraseDups.filter fun place =>
    !places.any fun other => other ≠ place && other.isPrefixOf place

/-- The places that arguments speak of. -/
def placesIn (tree : FileTree) (arguments : Arguments) : List (List String) :=
  let workspace := Path.ofString (arguments.workspace.getD "./")
  let inside := [arguments.templates, arguments.statics, arguments.data, arguments.target]
  outermost ((workspace :: inside.map fun name => workspace.child (name.getD "")).map
    (placeOf tree))

/-! ## To disk -/

/-- Write to disk what is in a tree and was not there, or was something else,
    before. -/
def putBack (before after : FileTree) : IO Unit := do
  for (place, node) in after.nodes.reverse do
    match node, before.nodes.lookup place with
    | .folder, none => IO.FS.createDirAll (onDisk place)
    | .file content, some (.file old) =>
      if !(content == old) then IO.FS.writeBinFile (onDisk place) content
    | .file content, _ => do
      IO.FS.createDirAll (onDisk place.dropLast)
      IO.FS.writeBinFile (onDisk place) content
    | _, _ => pure ()

/-! ## The dialogue -/

/-- The label that an answer to a choice means: that of the action with this
    number, or the answer itself. -/
def chosenLabel (answer : String) : String :=
  match answer.toNat? with
  | some (n + 1) => (Action.all[n]?.map Action.label).getD answer
  | _ => answer

/-- Show a prompt and wait for a line. An empty line accepts the answer that
    stands there to begin with; the end of the input cancels. -/
def waitFor (prompt : Prompt) : IO (Option String) := do
  let output ← IO.getStdout
  if prompt.kind = .select then
    for (action, n) in Action.all.zipIdx do
      output.putStrLn ("  " ++ toString (n + 1) ++ ". " ++ action.label)
  output.putStr (prompt.message ++ " " ++
    ((prompt.initial.map fun text => "[" ++ text ++ "] ").getD ""))
  output.flush
  let line ← (← IO.getStdin).getLine
  if line.isEmpty then pure none
  else
    let answer := if line.endsWith "\n" then (line.dropEnd 1).toString else line
    if prompt.kind = .select then pure (some (chosenLabel answer))
    else pure (some (if answer.isEmpty then prompt.initial.getD "" else answer))

/-- Hold the rest of the dialogue, after some accepted answers. What a path leads
    to is taken in before the answer is checked. -/
partial def hold (tree : FileTree) (answers : List String) : IO (FileTree × Option Ending) := do
  match (askRequest tree).resume answers with
  | .done ending => pure (tree, some ending)
  | .ask prompt _ =>
    match ← waitFor prompt with
    | none => pure (tree, none)
    | some answer => do
      let tree ← match prompt.kind with
        | .path => takeIn tree (placeOf tree (Path.ofString answer))
        | _ => pure tree
      match prompt.check.problem? tree answer with
      | none => hold tree (answers ++ [answer])
      | some problem => do
        (← IO.getStderr).putStrLn problem.message
        hold tree answers

/-! ## The run -/

/-- Run a job on a tree, print what it printed and put back what it changed: the
    code to end with. -/
def finish (tree : FileTree) (job : Job Nat) : IO UInt32 := do
  let output ← IO.getStdout
  let errors ← IO.getStderr
  let (code, session) := match job.run ⟨tree, "", ""⟩ with
    | .ok code session => (code, session)
    | .error failure session =>
      (1, { session with err := session.err ++ failure.message ++ "\n" })
  output.putStr session.out
  errors.putStr session.err
  putBack tree session.files
  pure code.toUInt32

/-- Run the program. -/
def run (arguments : List String) : IO UInt32 := do
  let start : FileTree := ⟨(Path.ofString (← IO.currentDir).toString).parts, []⟩
  if arguments.isEmpty then do
    let (tree, ending) ← hold (← takeIn start start.current) []
    finish tree (runEnding ending)
  else do
    let places := match readCommandLine arguments with
      | .ok (.run parsed) => placesIn start parsed
      | _ => []
    let tree ← places.foldlM takeIn start
    finish tree (runArguments arguments)

end TemplateAnalysis.Program

/-- The program on its command line arguments. -/
def main (arguments : List String) : IO UInt32 :=
  TemplateAnalysis.Program.run arguments
