import MarcPath.Document.Basic

/-! An editor keeps the open documents by their address. A document that is opened or changed is
checked at once; hovering asks about a line of one that is open. -/
namespace MarcPath

structure OpenDocument where
  version : Int
  source : Text
  deriving Repr, DecidableEq

/-- The diagnostics of one version of a document. -/
structure Publication where
  address : Text
  version : Int
  diagnostics : List Diagnostic
  deriving Repr, DecidableEq

structure Editor where
  maxDepth : Int
  documents : List (Text × OpenDocument)
  deriving Repr, DecidableEq

inductive EditorEvent where
  /-- A document is opened with a text, or gets a new text. -/
  | update (address : Text) (version : Int) (source : Text)
  | hover (address : Text) (line : Nat)
  deriving Repr, DecidableEq

inductive EditorAnswer where
  | publication (value : Publication)
  | hover (value : Option Hover)
  deriving Repr, DecidableEq

namespace Editor

def empty (maxDepth : Int) : Editor :=
  ⟨maxDepth, []⟩

def find (editor : Editor) (address : Text) : Except Error OpenDocument :=
  (editor.documents.lookup address).elim (.error (.unknownName address)) .ok

/-- The diagnostics to publish for an open document. -/
def publish (editor : Editor) (address : Text) : Except Error Publication := do
  let document ← editor.find address
  let diagnostics ← Document.diagnostics editor.maxDepth document.source
  return ⟨address, document.version, diagnostics⟩

def put (address : Text) (document : OpenDocument) (editor : Editor) : Editor :=
  { editor with
    documents := (address, document) :: editor.documents.filter (·.1 != address) }

/-- Answers an event. The text of a document is taken over even if it cannot be checked. -/
def handle (editor : Editor) : EditorEvent → Except Error EditorAnswer × Editor
  | .update address version source =>
    let editor := editor.put address ⟨version, source⟩
    ((editor.publish address).map .publication, editor)
  | .hover address line =>
    let answer := do
      let document ← editor.find address
      Document.hover editor.maxDepth document.source line
    (answer.map .hover, editor)

/-- The answers to a series of events. -/
def handleAll (editor : Editor) : List EditorEvent → List (Except Error EditorAnswer)
  | [] => []
  | event :: rest =>
    let (answer, editor) := editor.handle event
    answer :: editor.handleAll rest

end Editor
end MarcPath
