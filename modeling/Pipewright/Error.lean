import Pipewright.Disk.Fault
import Pipewright.Json.Issue
import Pipewright.Skeleton

/-!
# Errors

All that can stop the program, by cause.  A message is made from the cause in one place.

* `DocumentFault`, `TemplateFault`: what can be wrong with a document and with a template.
* `Error`, `Error.message`: all errors and their wording.
* `Error.isStructural`, `Error.isProvisioning`, `Error.node?`: what an error is about.
-/

namespace Pipewright

/-- Why a text is no pipeline document or no run request. -/
inductive DocumentFault where
  /-- The text is not JSON of the shape of a document. -/
  | malformed (at_ : Json.Located)
  /-- A node of a pipeline has no id. -/
  | blankId (pipeline : String)
  /-- Two nodes have the same id. -/
  | duplicateId (id : String)
  /-- A file is not JSON of the shape of a run request. -/
  | badRequest (path : String) (at_ : Json.Located)
  /-- Any other fault, in its own words. -/
  | stated (text : String)
deriving Repr

/-- The wording of a fault of a document. -/
def DocumentFault.message : DocumentFault → String
  | malformed e =>
    "at line " ++ Text.decimal e.position.line ++ ", col " ++ Text.decimal e.position.column ++
      ": " ++ e.message
  | blankId pipeline => "pipeline '" ++ pipeline ++ "' contains a node without an id"
  | duplicateId id => "duplicate node id '" ++ id ++ "'"
  | badRequest path e => "run config " ++ path ++ ": " ++ e.message
  | stated text => text

/-- Why there is no skeleton to fill. -/
inductive TemplateFault where
  /-- The text is no skeleton. -/
  | malformed (fault : SkeletonFault)
  /-- The file of the skeleton cannot be read. -/
  | unreadable (path : String) (fault : DiskFault)
  /-- A template directory has no skeleton. -/
  | absent (directory file : String)
  /-- Any other fault, in its own words. -/
  | stated (text : String)
deriving Repr

/-- The wording of a fault of a template. -/
def TemplateFault.message : TemplateFault → String
  | malformed fault => fault.message
  | unreadable path fault => "cannot read " ++ path ++ ": " ++ fault.message
  | absent directory file => "template directory " ++ directory ++ " has no " ++ file
  | stated text => text

/-- An error, by its cause. -/
inductive Error where
  /-- The links lead in a circle: `path` holds the ids along it, the first one again at its end. -/
  | cyclicGraph (node : String) (path : List String)
  /-- A link leads to an id that no node has. -/
  | danglingReference (node target : String)
  /-- A node has no operator that a step can be made of. -/
  | unsupportedNode (node name detail : String)
  /-- Several outputs could be the input of a step. -/
  | ambiguousBinding (node name filename : String) (candidates : List String)
  /-- A node lacks a field. -/
  | missingField (node field : String)
  /-- The environment of a step does not exist. -/
  | environmentNotFound (path : String)
  /-- There is no kernel for a language. -/
  | unsupportedLanguage (language : String)
  /-- An outside command failed. -/
  | provisioning (command message : String)
  | document (fault : DocumentFault)
  | template (fault : TemplateFault)
  /-- The output directory exists already. -/
  | outputExists (path : String)
  /-- The diagnostics of a document include errors. -/
  | validation (messages : List String)
  | disk (fault : DiskFault)
  /-- A text is not JSON of the wanted shape. -/
  | json (at_ : Json.Located)
  /-- A value is not of the wanted shape. -/
  | shape (issue : Json.Issue)
  /-- A word is not one of the known ones; `what` tells what it should be. -/
  | unknownChoice (what word : String) (known : List String)
  /-- Any other error, in its own words. -/
  | stated (text : String)
deriving Repr

namespace Error

/-- The wording of an error. -/
def message : Error → String
  | cyclicGraph node path =>
    "Cyclic pipeline graph: node '" ++ node ++ "' is its own upstream (" ++
      String.intercalate " -> " path ++ ")"
  | danglingReference node target =>
    "Node '" ++ node ++ "' links to non-existent node '" ++ target ++ "'"
  | unsupportedNode node name detail =>
    "Unsupported node '" ++ name ++ "' (" ++ node ++ "): " ++ detail
  | ambiguousBinding node name filename candidates =>
    "Ambiguous binding for '" ++ filename ++ "' on node '" ++ name ++ "' (" ++ node ++
      "): produced by " ++ String.intercalate ", " candidates
  | missingField node field =>
    "Node '" ++ node ++ "' is missing required field '" ++ field ++ "'"
  | environmentNotFound path => "Environment does not exist: " ++ path
  | unsupportedLanguage language => "Unsupported kernel language '" ++ language ++ "'"
  | provisioning command text => "Provisioning command `" ++ command ++ "` failed: " ++ text
  | document fault => "Invalid pipeline document: " ++ fault.message
  | template fault => "Template error: " ++ fault.message
  | outputExists path => "Output directory already exists: " ++ path
  | validation messages => "Pipeline validation failed: " ++ String.intercalate "; " messages
  | disk fault => "IO error: " ++ fault.message
  | json e => "JSON error: " ++ e.message
  | shape issue => "JSON error: " ++ issue.message
  | unknownChoice what word known =>
    "unknown " ++ what ++ " '" ++ word ++ "' (expected " ++ String.intercalate " or " known ++ ")"
  | stated text => text

/-- The error is about the shape of the graph. -/
def isStructural : Error → Bool
  | cyclicGraph .. | danglingReference .. | unsupportedNode .. | ambiguousBinding .. => true
  | _ => false

/-- The error comes from providing environments and kernels. -/
def isProvisioning : Error → Bool
  | environmentNotFound .. | unsupportedLanguage .. | provisioning .. => true
  | _ => false

/-- The id of the node that the error is about. -/
def node? : Error → Option String
  | cyclicGraph node _ | danglingReference node _ | unsupportedNode node _ _
  | ambiguousBinding node _ _ _ | missingField node _ => some node
  | _ => none

/-- The wording of the failure that lies behind the error. -/
def cause? : Error → Option String
  | disk fault => some fault.message
  | json e => some e.message
  | shape issue => some issue.message
  | _ => none

end Error

end Pipewright
