import MarcPath.Workspace.Basic

/-! Commands to a workspace. The workspace goes on after a command that fails, so a history is any list
of commands. -/
namespace MarcPath

inductive Command where
  | readPath (name : Text) (nesting : Nesting) (argument : Argument)
  | readField (name : Text) (argument : Argument)
  | readSubfield (name : Text) (argument : Argument)
  | wrap (name source : Text) (nesting : Nesting)
  | setField (name : Text) (given : Given)
  | addSubfields (target : Text) (given : Given)
  | attach (target : Text) (nesting : Nesting) (context : Text) (group : Argument)
  | findSubfields (target : Text) (code : Argument)
  | takeField (target name : Text)
  | takeSubfield (target : Text) (place : Int) (name : Text)
  | takeNested (target : Text) (entry alternative : Int) (side : Side) (name : Text)
  | view (target : Text)
  | compare (first second : Text)
  deriving Repr, DecidableEq

/-- What a command answers. -/
inductive Reply where
  | done
  | texts (values : List Text)
  | object (value : Object)
  | comparison (alike same : Bool)

/-- A named object as it is after a command: its text, and the JSON text of its tree. -/
structure Status where
  name : Text
  text : Except Error Text
  json : Except Error Text

namespace Object

def tree : Object → Except Error Tree
  | path value => value.tree
  | field value => value.tree Path.tree
  | subfield value => value.tree Path.tree

end Object

namespace Workspace

/-- Carries out a command that fails or gives the workspace after it. -/
def change (command : Workspace → Except Error Workspace) (workspace : Workspace) :
    Except Error Reply × Workspace :=
  match command workspace with
  | .ok after => (.ok .done, after)
  | .error cause => (.error cause, workspace)

/-- Carries out a command that only asks. -/
def ask (question : Workspace → Except Error Reply) (workspace : Workspace) :
    Except Error Reply × Workspace :=
  (question workspace, workspace)

/-- Carries out a command: what it answers, and the workspace after it. -/
def carryOut : Command → Workspace → Except Error Reply × Workspace
  | .readPath name nesting argument => change (readPath name nesting argument)
  | .readField name argument => change (readField name argument)
  | .readSubfield name argument => change (readSubfield name argument)
  | .wrap name source nesting => change (wrap name source nesting)
  | .setField name given => change (setField name given)
  | .addSubfields target given => fun workspace =>
    let (outcome, after) := workspace.addSubfields target given
    (outcome.map fun () => .done, after)
  | .attach target nesting context group => change (attach target nesting context group)
  | .findSubfields target code => ask fun workspace =>
    (workspace.findSubfields target code).map .texts
  | .takeField target name => change (takeField target name)
  | .takeSubfield target place name => change (takeSubfield target place name)
  | .takeNested target entry alternative side name =>
    change (takeNested target entry alternative side name)
  | .view target => ask fun workspace => do
    return .object (← workspace.view (← workspace.find target))
  | .compare first second => ask fun workspace =>
    (workspace.compare first second).map fun (alike, same) => .comparison alike same

def run (command : Command) (workspace : Workspace) : Except Error (Reply × Workspace) :=
  let (reply, after) := carryOut command workspace
  reply.map (·, after)

/-- The workspace after a command, also if the command failed. -/
def step (workspace : Workspace) (command : Command) : Workspace :=
  (carryOut command workspace).2

/-- The workspace after a history of commands. -/
def after (history : List Command) : Workspace :=
  history.foldl step empty

/-- How every named object stands. -/
def statuses (workspace : Workspace) : List Status :=
  workspace.names.map fun (name, handle) =>
    { name
      text := workspace.render handle
      json := do (← (← workspace.view handle).tree).json .inline }

end Workspace
end MarcPath
