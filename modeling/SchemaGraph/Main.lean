import SchemaGraph.Command.Run

/-! The command line. Only here are files read and texts written. -/

namespace SchemaGraph

def usage : String :=
  "Usage: datamodel [-v] <command> ...\n\n" ++
  "  classify-error <payload>           the kind and the message of a failed response\n" ++
  "  query <schema> --type <name> ...   the text and the variables of a query\n" ++
  "  types <schema> [--builtins]        the types of a schema\n" ++
  "  validate <file or folder>...       everything that is wrong with some schemas"

def version : String := "datamodel 0.1.0"

namespace Command

def paths : Command → List String
  | .classifyError path => [path]
  | .query q => [q.path]
  | .types _ path => [path]
  | .validate _ paths => paths

end Command

partial def readNode (e : IO.FS.DirEntry) : IO Node := do
  if ← e.path.isDir then
    let inner ← e.path.readDir
    let nodes ← inner.toList.mapM fun e => do return (e.fileName, ← readNode e)
    return .folder nodes
  else
    return .file (String.fromUTF8? (← IO.FS.readBinFile e.path))

def fileError : IO.Error → FileError
  | .inappropriateType .. => .notDirectory
  | .invalidArgument .. => .nameTooLong
  | _ => .notFound

def findNode (path : String) : IO (Except FileError Node) := do
  try
    let node ← readNode ⟨← IO.currentDir, path⟩
    return .ok node
  catch e => return .error (fileError e)

def findAllNodes (paths : List String) : IO Finder := do
  let found ← paths.mapM fun path => do return (path, ← findNode path)
  return fun path => (found.lookup path).getD (.error .notFound)

def write (out : Output) : IO UInt32 := do
  if let some s := out.stdout then IO.println s
  if let some s := out.stderr then IO.eprintln s
  return if out.success then 0 else 1

end SchemaGraph

open SchemaGraph in
def main (words : List String) : IO UInt32 := do
  match Command.parse words with
  | .error .displayHelp | .ok none => IO.println usage; return 0
  | .error .displayVersion => IO.println version; return 0
  | .error e => IO.eprintln ("error: " ++ e.kind ++ "\n\n" ++ usage); return 2
  | .ok (some c) => write (c.run (← findAllNodes c.paths))
