import InjectionCompiler.Disk
import InjectionCompiler.Sink

/-!
# Artifacts in a directory

Every artifact gets a file of its own below a root directory.  Artifacts wait until a flush writes
them in order.
-/

namespace InjectionCompiler

structure DirectorySink where
  root : String
  /-- What all files end in, behind a dot. -/
  extension : String
  pending : List (String × String)
  disk : Disk
  deriving DecidableEq, Repr

namespace DirectorySink

def below (root : String) (extension : String) : DirectorySink :=
  ⟨root, extension, [], ∅⟩

def defaultExtension : String := "json"

/-- The path of an artifact: the segments of its name below the root, the last one with the
extension. -/
def pathOf (sink : DirectorySink) (name : ClassName) : String :=
  let segments := (name.internal.toList.splitOnP (· = '/')).map String.ofList
  let directory := segments.dropLast.foldl Disk.push sink.root
  Disk.push directory (segments.getLast?.getD "" ++ "." ++ sink.extension)

def write (sink : DirectorySink) (name : ClassName) (content : String) : DirectorySink :=
  { sink with pending := sink.pending ++ [(sink.pathOf name, content)] }

/-- Writes what waits to the disk.  When a file fails, those before it stay written and those behind
it are forgotten. -/
def flush (sink : DirectorySink) : Except DiskFault Unit × DirectorySink :=
  let (result, disk) := sink.disk.putAll sink.pending
  (result, { sink with pending := [], disk := disk })

def files (sink : DirectorySink) : List (String × String) :=
  sink.disk.filesBelow (Disk.locate sink.root)

def operations : Sink DirectorySink where
  write sink name content := (.ok (), sink.write name content)
  flush sink :=
    let (result, sink) := sink.flush
    (result.mapError DiskFault.message, sink)

end DirectorySink

end InjectionCompiler
