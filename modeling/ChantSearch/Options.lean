import ChantSearch.Api.Paging
import ChantSearch.Schema.Catalogue
import ChantSearch.Schema.Reader
import ChantSearch.Text.Integer

/-!
# Command line options

Options are written `--name value` or `--name=value`. A value does not begin with a dash,
unless it is a dash alone or follows an equals sign. An option is settled when the next one
that is known begins, or at the end; so of several faults the first in this order counts,
except that an unknown argument counts at once.
-/

namespace ChantSearch

/-- What can be set on the command line. -/
inductive Setting where
  | indexUrl
  | indexTimeout
  | apiAddr
  | defaultPerPage
  | maxPerPage
  | schema
  | corsAllowOrigin
  deriving DecidableEq, Repr

namespace Setting

def all : List Setting :=
  [indexUrl, indexTimeout, apiAddr, defaultPerPage, maxPerPage, schema, corsAllowOrigin]

def name : Setting → String
  | indexUrl => "solr-url"
  | indexTimeout => "solr-timeout"
  | apiAddr => "api-addr"
  | defaultPerPage => "default-per-page"
  | maxPerPage => "max-per-page"
  | schema => "schema"
  | corsAllowOrigin => "cors-allow-origin"

def purpose : Setting → String
  | indexUrl => "Address of the index, without the trailing /select"
  | indexTimeout => "Seconds after which a request to the index is given up"
  | apiAddr => "Address on which calls are answered"
  | defaultPerPage => "Number of results per page when a call does not say"
  | maxPerPage => "Greatest number of results per page that a call may ask for"
  | schema => "JSON file with the searchable fields and cross-references"
  | corsAllowOrigin => "Origin allowed to make cross-origin calls"

def isNumeric : Setting → Bool
  | indexTimeout | defaultPerPage | maxPerPage => true
  | _ => false

def repeats : Setting → Bool
  | corsAllowOrigin => true
  | _ => false

end Setting

/-- Why a command line gives no options. -/
inductive UsageError where
  | unknownArgument
  | missingValue
  | invalidNumber
  | repeatedOption
  | unneededValue
  | helpAsked
  | versionAsked
  deriving DecidableEq, Repr

/-- The options read so far: those that are settled with their values, and the last one with
its value, if that has come. -/
structure PartialOptions where
  settled : List (Setting × String)
  pending? : Option (Setting × Option String)

namespace PartialOptions

def accept (settled : List (Setting × String)) (setting : Setting) :
    Option String → Except UsageError (List (Setting × String))
  | none => .error .missingValue
  | some value =>
    if !setting.repeats && settled.any (·.1 == setting) then .error .repeatedOption
    else if setting.isNumeric && (Text.readNat64 value).isNone then .error .invalidNumber
    else .ok (settled ++ [(setting, value)])

def settle (s : PartialOptions) : Except UsageError (List (Setting × String)) :=
  match s.pending? with
  | none => .ok s.settled
  | some (setting, value?) => accept s.settled setting value?

end PartialOptions

/-- An argument on its own. -/
inductive Argument where
  /-- Two dashes: no options follow. -/
  | separator
  /-- An option by its name, with the value behind its equals sign. -/
  | long (name : String) (value? : Option String)
  /-- One-letter options, of which the first is shown. -/
  | short (letter : Char)
  /-- Anything else. -/
  | plain
  deriving DecidableEq, Repr

def Argument.ofString (s : String) : Argument :=
  match s.toList with
  | ['-', '-'] => separator
  | '-' :: '-' :: cs =>
    let name := String.ofList (cs.takeWhile (· != '='))
    match cs.dropWhile (· != '=') with
    | [] => long name none
    | _ :: value => long name (some (String.ofList value))
  | '-' :: letter :: _ => short letter
  | _ => plain

def readArguments (s : PartialOptions) :
    List String → Except UsageError (List (Setting × String))
  | [] => s.settle
  | arg :: args =>
    match Argument.ofString arg with
    | .separator => if args.isEmpty then s.settle else .error .unknownArgument
    | .short 'h' => do let _ ← s.settle; .error .helpAsked
    | .short 'V' => do let _ ← s.settle; .error .versionAsked
    | .short _ => .error .unknownArgument
    | .long "help" none => do let _ ← s.settle; .error .helpAsked
    | .long "version" none => do let _ ← s.settle; .error .versionAsked
    | .long "help" (some _) => .error .unneededValue
    | .long "version" (some _) => .error .unneededValue
    | .long name value? =>
      match Setting.all.find? (·.name == name) with
      | none => .error .unknownArgument
      | some setting => do
        let settled ← s.settle
        match value? with
        | none => readArguments ⟨settled, some (setting, none)⟩ args
        | some value =>
          readArguments ⟨← PartialOptions.accept settled setting (some value), none⟩ args
    | .plain =>
      match s.pending? with
      | some (setting, none) => readArguments ⟨s.settled, some (setting, some arg)⟩ args
      | _ => .error .unknownArgument

/-- The options of the program. -/
structure Options where
  indexUrl : String
  indexTimeout : Nat
  apiAddr : String
  defaultPerPage : Nat
  maxPerPage : Nat
  schema? : Option String
  corsAllowOrigin : List String
  deriving DecidableEq, Repr

namespace Options

/-- The options that settings give. A setting that is not given has its default. -/
def ofSettings (settings : List (Setting × String)) : Options :=
  let text (setting : Setting) (fallback : String) := (settings.lookup setting).getD fallback
  let number (setting : Setting) (fallback : Nat) :=
    ((settings.lookup setting).bind Text.readNat64).getD fallback
  { indexUrl := text .indexUrl "http://localhost:8983/solr/collection1"
    indexTimeout := number .indexTimeout 10
    apiAddr := text .apiAddr "127.0.0.1:8888"
    defaultPerPage := number .defaultPerPage 10
    maxPerPage := number .maxPerPage 100
    schema? := settings.lookup .schema
    corsAllowOrigin := (settings.filter (·.1 == .corsAllowOrigin)).map (·.2) }

def parse (args : List String) : Except UsageError Options :=
  (readArguments ⟨[], none⟩ args).map ofSettings

def paging (options : Options) : Api.Paging :=
  ⟨options.defaultPerPage, options.maxPerPage⟩

end Options

/-- Why the schema of a file cannot be used. -/
inductive SchemaError where
  | unreadable (path : String)
  | invalid (path : String)
  deriving DecidableEq, Repr

def SchemaError.message : SchemaError → String
  | unreadable path => s!"Could not read schema {path}: No such file or directory (os error 2)"
  | invalid path => s!"Invalid schema {path}"

/-- The schema of the file that is given, read by `readFile`, or that of the chant database. -/
def Options.schemaFrom (options : Options) (readFile : String → Option String) :
    Except SchemaError Schema :=
  match options.schema? with
  | none => .ok .catalogue
  | some path =>
    match readFile path with
    | none => .error (.unreadable path)
    | some content =>
      match Schema.parse content with
      | none => .error (.invalid path)
      | some schema => .ok schema

end ChantSearch
