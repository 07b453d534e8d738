import HartBoot.Hart
import HartBoot.PayloadFault
import HartBoot.Yaml.Event
import HartBoot.Yaml.Fault

/-!
Contract: why a configuration is rejected.

Owns:
- `Config.Error` and its wording. Every error is final: nothing is read after it.

Does not own: the rules that are broken (see `HartBoot.Config.Machine`).
-/

namespace HartBoot.Config

/-- What was being read, and where. -/
structure Place where
  /-- The name of the state that met the event. -/
  state : String
  line : Nat
  column : Nat
  deriving DecidableEq, Repr

/-- Why a configuration is rejected. -/
inductive Error where
  /-- The structure has an event that its place does not allow. -/
  | illegalEvent (place : Place) (event : Yaml.Event.Kind)
  /-- A scalar is not one of the keywords that its place allows. -/
  | illegalToken (place : Place) (scalar : String)
  | invalidNumber (place : Place) (scalar : String)
  | invalidBool (place : Place) (scalar : String)
  | missingOwner (path : Path)
  /-- A privilege mode is given before the hart it is for. -/
  | privModeWithoutOwner (path : Path)
  /-- A secondary hart is given a privilege mode although it has one. -/
  | privModeConflict (hart : Hart) (requested current : Privilege)
  | tooManySecondaries (path : Path) (limit : Nat)
  | duplicateEntryPoint (hart : Hart)
  /-- The events ended before the stream did. -/
  | unexpectedEnd (state : String)
  | notYaml (fault : Yaml.Fault)
  | payload (fault : PayloadFault)
  deriving DecidableEq, Repr

def Place.suffix (place : Place) : String :=
  " (line " ++ toString place.line ++ ", column " ++ toString place.column ++ ")"

def Error.message : Error → String
  | .illegalEvent place event =>
    "In " ++ place.state ++ ": illegal event " ++ event.label ++ place.suffix
  | .illegalToken place scalar =>
    "In " ++ place.state ++ ": illegal token >>" ++ scalar ++ "<<" ++ place.suffix
  | .invalidNumber place scalar =>
    "In " ++ place.state ++ ": >>" ++ scalar ++ "<< is not a number" ++ place.suffix
  | .invalidBool place scalar =>
    "In " ++ place.state ++ ": >>" ++ scalar ++ "<< is not a boolean" ++ place.suffix
  | .missingOwner path => "Payload >>" ++ path ++ "<< has no owner-hart"
  | .privModeWithoutOwner path =>
    "Payload >>" ++ path ++ "<< sets priv-mode before owner-hart"
  | .privModeConflict hart requested current =>
    "Attempted to set " ++ hart.label ++ " to priv_mode " ++ requested.label ++
      ", but it is already set to " ++ current.label
  | .tooManySecondaries path limit =>
    "Payload >>" ++ path ++ "<< lists more than " ++ toString limit ++ " secondary harts"
  | .duplicateEntryPoint hart => "Entry point for " ++ hart.label ++ " is given more than once"
  | .unexpectedEnd state =>
    "Configuration ended in " ++ state ++ " before the stream was complete"
  | .notYaml fault =>
    "YAML error at line " ++ toString fault.line ++ ", column " ++ toString fault.column ++
      ": " ++ fault.cause.message
  | .payload fault => fault.message

end HartBoot.Config
