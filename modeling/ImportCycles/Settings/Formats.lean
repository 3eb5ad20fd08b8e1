import ImportCycles.Settings.Load
import ImportCycles.Toml.Parse
import ImportCycles.Yaml.Load

namespace ImportCycles

namespace Settings

/-- A value of a YAML document as a value of a setting. -/
def Value.ofYaml (document : Yaml.Document) : Yaml.Value → Value
  | .null => .null
  | .boolean value => .boolean value
  | .integer value => .integer value
  | .text value => .text value
  | .list items => .list (items.map fun item =>
    match document.value item with
    | .text value => .text value
    | _ => .other)
  | .mapping _ => .other
  | .other => .other

def documentOfYaml (document : Yaml.Document) : Document :=
  match document.value document.root with
  | .null => .empty
  | .mapping entries => .mapping (entries.map fun (key, value) =>
    ((document.value key).text?, Value.ofYaml document (document.value value)))
  | _ => .other

/-- What is foreign to a YAML text, as a breach of settings. -/
def breachOfYaml : Yaml.Foreign → Breach
  | .impossibleValue => .impossibleValue
  | .unknownWord => .unknownWord
  | .emptyNumber => .emptyNumber
  | .malformedDate => .malformedDate
  | .dateNotText => .dateNotText
  | .tooLarge => .tooLarge

/-- The formats as this library reads them. Their readers do not say what is wrong with a malformed
    text. -/
def Formats.standard : Formats where
  yaml text :=
    match Yaml.load text with
    | .ok document => .ok (documentOfYaml document)
    | .error .malformed => .error (.malformed "malformed YAML")
    | .error (.foreign foreign) => .error (.breach (breachOfYaml foreign))
  toml text :=
    match Toml.parse text with
    | .ok table => .ok table
    | .error .malformed => .error (.malformed "malformed TOML")
    | .error .impossibleValue => .error (.breach .impossibleValue)

end Settings

end ImportCycles
