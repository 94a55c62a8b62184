import Pipewright.Shell.Token

/-!
# Shell scripts

A script is made of simple commands, of lists and pipes of commands, and of conditions, loops and
functions.

* `Redirection`, `Script`: the shapes of scripts.
-/

namespace Pipewright.Shell

/-- Where a descriptor leads for a command. -/
inductive Redirection where
  | toFile (descriptor : Nat) (append : Bool) (target : Word)
  | fromFile (descriptor : Nat) (source : Word)
  /-- To where another descriptor leads, or nowhere. -/
  | toDescriptor (descriptor : Nat) (target : Word)
  | fromText (descriptor : Nat) (text : Word)
deriving DecidableEq, Repr

/-- A script. -/
inductive Script where
  | nothing
  /-- Variables are set, and a command made of words is run. -/
  | simple (line : Nat) (settings : List (String × Word)) (words : List Word)
      (redirections : List Redirection)
  | sequence (first second : Script)
  | and (first second : Script)
  | or (first second : Script)
  | not (body : Script)
  | branch (condition yes no : Script)
  /-- The body as long as the condition holds, or as long as it does not hold. -/
  | repeated (holds : Bool) (condition body : Script)
  /-- The body for each of the words; for each argument when no words are given. -/
  | each (name : String) (words : Option (List Word)) (body : Script)
  /-- The choice between cases that a word makes. -/
  | choice (subject : Word) (cases : Script)
  /-- The body when the subject fits one of the patterns, or else the other cases. -/
  | option (patterns : List Word) (body others : Script)
  /-- What is done when no case is left. -/
  | noOption
  /-- A script whose changes of variables stay its own. -/
  | subshell (body : Script)
  /-- The second script reads what the first one writes. -/
  | pipe (first second : Script)
  | background (body : Script)
  | function (name : String) (body : Script)
  | redirected (line : Nat) (body : Script) (redirections : List Redirection)
  /-- The text goes on, but with no script. -/
  | broken (line : Nat) (message : String)
deriving Repr, Inhabited

end Pipewright.Shell
