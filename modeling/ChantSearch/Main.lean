import ChantSearch.Options

/-!
# The command line

Reads the options, loads the schema, and reports what will be searched.
-/

namespace ChantSearch

def usage : String :=
  let lines := Setting.all.map fun setting => s!"  --{setting.name}: {setting.purpose}"
  "\n".intercalate ("Options:" :: lines)

def UsageError.message : UsageError → String
  | unknownArgument => "unexpected argument"
  | missingValue => "an option lacks its value"
  | invalidNumber => "the value of an option is no number"
  | repeatedOption => "an option is given twice"
  | unneededValue => "a value is given to an option that takes none"
  | helpAsked => usage
  | versionAsked => "0.1.0"

/-- Whether the command line was refused, rather than asking for information. -/
def UsageError.isFault : UsageError → Bool
  | helpAsked | versionAsked => false
  | _ => true

def readyReport (options : Options) (schema : Schema) : String :=
  s!"Searching {options.indexUrl} with {schema.fieldNames.length} searchable fields"

def readFile? (path : String) : IO (Option String) := do
  try
    return some (← IO.FS.readFile path)
  catch _ =>
    return none

end ChantSearch

open ChantSearch in
def main (args : List String) : IO UInt32 := do
  match Options.parse args with
  | .error e =>
    if e.isFault then
      IO.eprintln s!"error: {e.message}"
      return 2
    else
      IO.println e.message
      return 0
  | .ok options =>
    let content? ← match options.schema? with
      | some path => readFile? path
      | none => pure none
    match options.schemaFrom fun _ => content? with
    | .error e =>
      IO.eprintln e.message
      return 1
    | .ok schema =>
      IO.println (readyReport options schema)
      return 0
