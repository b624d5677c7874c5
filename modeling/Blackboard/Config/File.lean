import Blackboard.Config.Toml
import Blackboard.Config.Yaml

/-!
# Configuration files

The name of a file tells its format. A file has to hold settings that a kernel can run with before
any variable takes the place of one, so the variables cannot mend a file that is no good.
-/

namespace Blackboard

/-- The part of a file name after its last point, if the point is not the first character. -/
def extension? (name : List Char) : Option (List Char) :=
  match name.reverse.span (· ≠ '.') with
  | (ext, _ :: _ :: _) => some ext.reverse
  | _ => none

/-- The format that a file name tells. The case of letters does not matter. -/
def FileFormat.ofName? (name : String) : Option FileFormat :=
  match (extension? name.toList).map fun ext => Text.foldCase (String.ofList ext) with
  | some ['y', 'a', 'm', 'l'] | some ['y', 'm', 'l'] => some .yaml
  | some ['t', 'o', 'm', 'l'] => some .toml
  | some ['j', 's', 'o', 'n'] => some .json
  | _ => none

def FileFormat.parse? (format : FileFormat) (text : List Char) : Option Document :=
  match format with
  | yaml => Yaml.parse? text
  | toml => Toml.parse? text
  | json => (Json.parse? text).map Document.ofJson

namespace Config

/-- The settings in a file with a name and a content. There is no content if there is no file. -/
def ofFile (name : String) (content : Option (List UInt8)) : Except ConfigError Config := do
  match content.bind Text.ofOctets? with
  | none => throw .unreadable
  | some text =>
    match FileFormat.ofName? name with
    | none => throw .unknownFormat
    | some format =>
      match (format.parse? text.toList).bind Document.config? with
      | none => throw (.malformed format)
      | some c =>
        c.validate
        return c

def ofVariables (vars : Variables) : Except ConfigError Config := overlay {} vars

/-- The settings of a file, or the defaults if none is named, with the variables in their place. -/
def load (file : Option (Except ConfigError Config)) (vars : Variables) :
    Except ConfigError Config := do
  let base ← file.getD (.ok {})
  base.overlay vars

def loadOrDefault (file : Option (Except ConfigError Config)) (vars : Variables) : Config :=
  match load file vars with
  | .ok c => c
  | .error _ => {}

end Config

end Blackboard
