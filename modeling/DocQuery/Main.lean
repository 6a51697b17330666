import DocQuery.Shell.Response

namespace DocQuery

namespace Shell

def hexPart : Nat → Nat → List Char
  | 0, _ => []
  | width + 1, n => hexPart width (n / 16) ++ [Nat.digitChar (n % 16)]

/-- A random identifier: six of its 128 bits are fixed and mark it as one. -/
def uuidText (bits : Nat) : String :=
  let variant := 8 + (bits >>> 60) % 4
  String.ofList (hexPart 8 (bits >>> 96) ++ '-' :: hexPart 4 (bits >>> 80)
    ++ '-' :: '4' :: hexPart 3 (bits >>> 64)
    ++ '-' :: Nat.digitChar variant :: hexPart 3 (bits >>> 48) ++ '-' :: hexPart 12 bits)

def uuidSupply (start : Nat) : IdSupply := { name := fun n => uuidText (start + n) }

end Shell

def readText (path : String) : IO (Option String) := do
  try return some (← IO.FS.readFile path) catch _ => return none

def readEnvironment : IO (List (String × String)) := do
  let names := [Settings.addressVariable, Settings.portVariable, Settings.databaseVariable,
    Settings.usernameVariable, Settings.passwordVariable]
  names.filterMapM fun name => return (← IO.getEnv name).map (name, ·)

def randomNumber : IO Nat := do
  let bytes ← IO.getRandomBytes 16
  return bytes.foldl (fun n byte => n * 256 + byte.toNat) 0

end DocQuery

open DocQuery in
def main (words : List String) : IO UInt32 := do
  let settings ← readEnvironment
  let seed := match Shell.Invocation.parse words with
    | .ok inv => inv.seed
    | .error _ => none
  let text ← match seed with
    | some path => readText path
    | none => pure none
  let ids := Shell.uuidSupply (← randomNumber)
  let response := Shell.respond words (fun name => settings.lookup name) (fun _ => text) ids
  IO.print response.output
  IO.eprint response.complaint
  return response.exitCode.toUInt32
