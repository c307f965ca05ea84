import InjectionCompiler.Sink

/-!
# Artifacts in memory

Written artifacts wait until a flush commits them.  An artifact that is written again replaces the
earlier one where it stands.
-/

namespace InjectionCompiler

structure MemorySink where
  pending : Table ClassName String
  committed : Table ClassName String
  flushes : Nat
  deriving DecidableEq, Repr

namespace MemorySink

instance : EmptyCollection MemorySink := ⟨⟨∅, ∅, 0⟩⟩

def write (sink : MemorySink) (name : ClassName) (content : String) : MemorySink :=
  { sink with pending := sink.pending.insert name content }

def flush (sink : MemorySink) : MemorySink where
  pending := ∅
  committed := sink.pending.entries.foldl
    (fun committed (name, content) => committed.insert name content) sink.committed
  flushes := sink.flushes + 1

def artifact? (sink : MemorySink) (name : ClassName) : Option String :=
  sink.committed.find? name

/-- Memory never fails. -/
def operations : Sink MemorySink where
  write sink name content := (.ok (), sink.write name content)
  flush sink := (.ok (), sink.flush)

end MemorySink

end InjectionCompiler
