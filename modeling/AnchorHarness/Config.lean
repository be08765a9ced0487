/-!
# Settings of the generated code

The names that the generated code uses and the files that it goes to.
-/

namespace AnchorHarness

/-- The names used in generated code, and the names of the files. -/
structure Config where
  clientCrate : String
  /-- The constant that an optional account is compared with: its key if it is not provided. -/
  programIdConst : String
  snapshotsModule : String
  snapshotsFile : String
  fuzzInstructionsFile : String
  deriving DecidableEq, Repr

def Config.standard : Config :=
  { clientCrate := "trdelnik_client"
    programIdConst := "PROGRAM_ID"
    snapshotsModule := "accounts_snapshots"
    snapshotsFile := "accounts_snapshots.rs"
    fuzzInstructionsFile := "fuzz_instructions.rs" }

end AnchorHarness
