import Flowgraph.Host.Program

namespace Flowgraph

/-- A file's text, or nothing if it cannot be read. -/
def readFile? (path : String) : IO (Option String) := do
  try
    return some (← IO.FS.readFile path)
  catch _ =>
    return none

/-- A random identifier of the fourth version. -/
def randomUuid : IO Uuid := do
  let high ← IO.rand 0 (UInt64.size - 1)
  let low ← IO.rand 0 (UInt64.size - 1)
  let bits := BitVec.ofNat 64 high ++ BitVec.ofNat 64 low
  let versioned := (bits &&& ~~~(0xF#128 <<< 76)) ||| (4#128 <<< 76)
  return ⟨(versioned &&& ~~~(3#128 <<< 62)) ||| (2#128 <<< 62)⟩

end Flowgraph

open Flowgraph in
def main (texts : List String) : IO UInt32 := do
  let paths :=
    match Arguments.parse texts with
    | .ok args => args.files
    | .error _ => []
  let contents ← paths.mapM fun path => return (path, ← readFile? path)
  let handle : Handle := ⟨← randomUuid, "entity"⟩
  let printed := Program.run texts (fun path => (contents.lookup path).join) handle
  for line in printed.output do
    IO.println line
  if let some complaint := printed.complaint then
    IO.eprintln complaint
  return printed.exitCode.toUInt32
