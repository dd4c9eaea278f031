import CiPipeline.Error
import CiPipeline.FileSystem
import CiPipeline.Markup.Value
import CiPipeline.Node.Conversion
import CiPipeline.Text.Blank

/-!
# Configuration

The settings of the command line that a file may give. A setting that the file leaves out has its
default, and so has every setting when the file is blank.
-/

namespace CiPipeline

structure Config where
  logLevel : String := "info"
  output : Option String := none
  deriving DecidableEq, Repr, Inhabited

namespace Config
open Markup (Value)

/-- The settings read so far; none is given twice. -/
structure Given where
  logLevel : Option String := none
  output : Option (Option String) := none
  deriving DecidableEq, Repr

def Given.toConfig (g : Given) : Config :=
  { logLevel := g.logLevel.getD ({} : Config).logLevel
    output := g.output.getD ({} : Config).output }

/-- Every scalar is a text. -/
def text? : Value → Option String
  | .scalar text _ _ => some text
  | _ => none

def isNullText (text : String) : Bool := ["null", "Null", "NULL", "~"].contains text

/-- Null and nothing are no path, but only when written plainly. -/
def path? : Value → Option (Option String)
  | .scalar text true none => some (if text.isEmpty || isNullText text then none else some text)
  | .scalar text true (some tag) =>
    if tag == "tag:yaml.org,2002:null" then if isNullText text then some none else none
    else some (some text)
  | .scalar text false _ => some (some text)
  | _ => none

/-- Adds a setting, passing over unknown ones. -/
def Given.add (document : Value) (g : Given) (key value : Value) : Option Given := do
  match ← text? (document.resolve key) with
  | "log_level" =>
    if g.logLevel.isSome then none
    else return { g with logLevel := ← text? (document.resolve value) }
  | "output" =>
    if g.output.isSome then none else return { g with output := ← path? (document.resolve value) }
  | _ => some g

/-- The settings in a document, which is a mapping or is empty. -/
def Given.ofValue? (document : Value) : Option Given :=
  match document.resolve document with
  | .mapping pairs => pairs.foldlM (fun g pair => g.add document pair.1 pair.2) {}
  | .scalar text true _ => if text.isEmpty then some {} else none
  | _ => none

def Given.ofText? (text : String) : Option Given :=
  match Value.read? text.toList with
  | some (some document) => ofValue? document
  | some none => some {}
  | none => none

/-- The settings in a text, or why it is no configuration. -/
abbrev Decoder := String → Except String Given

def Given.decode : Decoder := fun text =>
  match ofText? text with
  | some given => .ok given
  | none => .error "not a configuration"

/-- A blank text gives no setting, and is not decoded. -/
def ofText (decode : Decoder) (text : String) : Except String Config :=
  if Text.allBlank text.toList then .ok {} else (decode text).map Given.toConfig

/-- The configuration in a file, from what reading the file gave. -/
def loadWith (decode : Decoder) (path : String) (content : Except FileError ByteArray) :
    Except PipelineError Config :=
  match content with
  | .error e => .error (.io e.message)
  | .ok bytes =>
    match String.fromUTF8? bytes with
    | none => .error (.io FileError.notText.message)
    | some text => (ofText decode text).mapError fun reason => .config (path ++ ": " ++ reason)

def load (path : String) (content : Except FileError ByteArray) : Except PipelineError Config :=
  loadWith Given.decode path content

end Config

instance : ToNode Config := ⟨fun config =>
  toNode ((Mapping.empty.add "log_level" config.logLevel).addOpt "output" config.output)⟩

end CiPipeline
