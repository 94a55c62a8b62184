import Pipewright.Document.Format
import Pipewright.Error

/-!
# Reading pipeline documents

Apart from its shape only one thing is asked of a document: every node has an id, and no two
nodes have the same one.  Links are not looked at; they are followed later, one by one.

* `Document.idFault?`: the first node, in the order of the document, whose id is at fault.
* `Document.parse`: reading a document.
-/

namespace Pipewright

namespace Document

/-- The nodes of a document, each with the id of its pipeline. -/
def placedNodes (d : Document) : List (String × Node) :=
  d.pipelines.flatMap fun p => p.nodes.map fun n => (p.id, n)

/-- The fault of the first node whose id is blank or one of the ids before it. -/
def idFaultAfter? (seen : List String) : List (String × Node) → Option DocumentFault
  | [] => none
  | (pipeline, node) :: rest =>
    if Text.isBlank node.id then some (.blankId pipeline)
    else if node.id ∈ seen then some (.duplicateId node.id)
    else idFaultAfter? (node.id :: seen) rest

/-- The fault of the first node of a document whose id is blank or has been used before. -/
def idFault? (d : Document) : Option DocumentFault :=
  idFaultAfter? [] d.placedNodes

/-- Reads a document. -/
def parse (source : String) : Except Error Document :=
  match Document.decoder.parse source with
  | .error e => .error (.document (.malformed e))
  | .ok d =>
    match d.idFault? with
    | some fault => .error (.document fault)
    | none => .ok d

end Document

end Pipewright
