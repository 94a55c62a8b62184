import Pipewright.Json.Brackets

/-!
# Reading values of a wanted shape

A decoder says which JSON values stand for the values of a type.  It reads them from a text, and
then an issue has a place there; or it takes them from a value that has been read already.

Records are read from objects, whose keys may come in any order, and also from arrays that list
the fields in order.  A key may have a second name; a field that is not required keeps the value
it has in the blank record when its key is absent.

* `Decoder`: the two ways of decoding, side by side.
* `Decoder.text`, `Decoder.count`, `Decoder.value`: scalars and values of any shape.
* `Decoder.optional`, `Decoder.orBlank`, `Decoder.list`, `Decoder.dictionary`: derived shapes.
* `Field`, `Record`, `Decoder.record`: records.
* `Decoder.word`: one of a list of words.
* `Decoder.parse`: reading a whole text.
-/

namespace Pipewright.Json

open Reader

/-- The JSON values that stand for values of a type. -/
structure Decoder (α : Type) where
  /-- Reads from a text in which that many brackets more may be open. -/
  read : Nat → Reader α
  /-- Takes a value that has been read already. -/
  ofValue : Value → Except Issue α

namespace Decoder

variable {α β : Type}

/-- The number of brackets that may be open at once. -/
def maxDepth : Nat := 127

/-- Reads a whole text. -/
def parse (d : Decoder α) (text : String) : Except Located α :=
  Reader.run (do
    let a ← d.read maxDepth
    endOfText
    return a) text

/-- Decodes further. -/
protected def map (f : α → β) (d : Decoder α) : Decoder β where
  read depth := return f (← d.read depth)
  ofValue v := return f (← d.ofValue v)

/-! ## Scalars -/

/-- Reads the value that stands here instead of a wanted one, up to the place to report.  A
bracket is not stepped over. -/
def wrongKind (wanted : String) : Reader α := do
  match ← peek? with
  | some 'n' => advance; readWord ['u', 'l', 'l']; failHere (.wrongType .null wanted)
  | some 't' => advance; readWord ['r', 'u', 'e']; failHere (.wrongType (.bool true) wanted)
  | some 'f' =>
    advance
    readWord ['a', 'l', 's', 'e']
    failHere (.wrongType (.bool false) wanted)
  | some '-' =>
    advance
    let n ← readNumber true
    failHere (.wrongType (.number n) wanted)
  | some '"' =>
    advance
    let s ← readString
    failHere (.wrongType (.string s) wanted)
  | some '[' => failHere (.wrongType .array wanted)
  | some '\x7b' => failHere (.wrongType .object wanted)
  | some x =>
    if (digit? x).isSome then
      let n ← readNumber false
      failHere (.wrongType (.number n) wanted)
    else failAtNext .noValue
  | none => failAtNext .noValue

/-- Reads a string.  Messages call the wanted value `wanted`. -/
def readText (wanted : String) : Reader String := do
  match ← peekAfterBlanks? with
  | none => failAtNext .endInValue
  | some '"' =>
    advance
    readString
  | some _ => wrongKind wanted

/-- A text that messages call `wanted`. -/
def textCalled (wanted : String) : Decoder String where
  read _ := readText wanted
  ofValue
    | .string s => .ok s
    | v => .error (.wrongType v.found wanted)

/-- A text. -/
def text : Decoder String := textCalled "a string"

/-- A text that names a file. -/
def path : Decoder String := textCalled "path string"

/-- The 64-bit natural number that a number is, or what is wrong with it. -/
def count? : Number → Except Issue Nat
  | .natural n => .ok n
  | .negative n => .error (.wrongValue (.number (.negative n)) "u64")
  | .double d => .error (.wrongType (.number (.double d)) "u64")

/-- Reads a number after its sign as a natural number. -/
def readCount (negative : Bool) : Reader Nat := do
  match count? (← readNumber negative) with
  | .ok n => return n
  | .error issue => failHere issue

/-- A natural number of at most 64 bits. -/
def count : Decoder Nat where
  read _ := do
    match ← peekAfterBlanks? with
    | none => failAtNext .endInValue
    | some '-' =>
      advance
      readCount true
    | some x => if (digit? x).isSome then readCount false else wrongKind "u64"
  ofValue
    | .number n => count? n
    | v => .error (.wrongType v.found "u64")

/-- A value of any shape. -/
def value : Decoder Value where
  read := readValue
  ofValue := .ok

/-! ## Absent values -/

/-- A value or null. -/
def optional (d : Decoder α) : Decoder (Option α) where
  read depth := do
    match ← peekAfterBlanks? with
    | some 'n' =>
      advance
      readWord ['u', 'l', 'l']
      return none
    | _ => return some (← d.read depth)
  ofValue
    | .null => .ok none
    | v => return some (← d.ofValue v)

/-- A value, or null for the blank value of the type. -/
def orBlank [Inhabited α] (d : Decoder α) : Decoder α :=
  (optional d).map fun a => a.getD default

/-! ## Lists and dictionaries -/

/-- A list, from an array. -/
def list (d : Decoder α) : Decoder (List α) where
  read depth := do
    match ← peekAfterBlanks? with
    | none => failAtNext .endInValue
    | some '[' => inSquare depth fun inner => readItems (d.read inner)
    | some _ => wrongKind "a sequence"
  ofValue
    | .array items => items.mapM d.ofValue
    | v => .error (.wrongType v.found "a sequence")

/-- A dictionary, from an object: the members in the order of their keys, the last one of each
key being kept. -/
def dictionary (d : Decoder α) : Decoder (List (String × α)) where
  read depth := do
    match ← peekAfterBlanks? with
    | none => failAtNext .endInValue
    | some '\x7b' =>
      inCurly depth fun inner =>
        readMembers (fun key (soFar : List (String × α)) => do
          readColon
          return putKey soFar key (← d.read inner)) []
    | some _ => wrongKind "a map"
  ofValue
    | .object members => do
      let decoded ← members.mapM fun (k, v) => return (k, ← d.ofValue v)
      return sortKeys decoded
    | v => .error (.wrongType v.found "a map")

end Decoder

/-! ## Records -/

/-- A field of a record: its key, other names of the key, and what a value does to the record. -/
structure Field (α : Type) where
  name : String
  aliases : List String := []
  required : Bool := false
  decoder : Decoder (α → α)

/-- A kind of record: its name in messages, its fields in order, and the record in which no field
has been set.  The values of other keys are skipped, unless `other` says what they do. -/
structure Record (α : Type) where
  name : String
  fields : List (Field α)
  blank : α
  other : Option (String → Decoder (α → α)) := none

namespace Record

variable {α : Type} (r : Record α)

/-- The field that a key names. -/
def field? (key : String) : Option (Field α) :=
  r.fields.find? fun f => key = f.name || f.aliases.contains key

/-- What messages call the record. -/
def wanted : String := "struct " ++ r.name

/-- What messages call an array that lists all fields. -/
def wantedLength : String :=
  r.wanted ++ " with " ++ Text.decimal r.fields.length ++
    (if r.fields.length = 1 then " element" else " elements")

/-- The first required field that is not among the fields that have been set. -/
def missing? (seen : List String) : Option String :=
  (r.fields.find? fun f => f.required && !seen.contains f.name).map Field.name

/-- The record so far with the names of the fields that have been set. -/
abbrev Progress (α : Type) := α × List String

/-- Reads a member of the object of a record after its key. -/
def readMember (depth : Nat) (key : String) (p : Progress α) : Reader (Progress α) := do
  match r.field? key with
  | some f =>
    if p.2.contains f.name then failOpen (.duplicateField f.name)
    else
      readColon
      let set ← f.decoder.read depth
      return (set p.1, f.name :: p.2)
  | none =>
    readColon
    match r.other with
    | none =>
      skipValue
      return p
    | some other =>
      let set ← (other key).read depth
      return (set p.1, p.2)

/-- Reads the object of a record between its brackets. -/
def readObject (depth : Nat) : Reader α := do
  let (a, seen) ← readMembers (r.readMember depth) (r.blank, [])
  match r.missing? seen with
  | some name => failOpen (.missingField name)
  | none => return a

/-- Reads the items of an array that lists the fields of a record.  `index` fields came before. -/
def readFields (depth : Nat) : Nat → List (Field α) → α → Reader α
  | _, [], a => return a
  | index, f :: fs, a => do
    if ← anotherItem (index = 0) then
      let set ← f.decoder.read depth
      readFields depth (index + 1) fs (set a)
    else if f.required then failOpen (.wrongLength index r.wantedLength)
    else readFields depth (index + 1) fs a

/-- Reads a record. -/
def read (depth : Nat) : Reader α := do
  match ← peekAfterBlanks? with
  | none => failAtNext .endInValue
  | some '\x7b' => inCurly depth r.readObject
  | some '[' =>
    if r.other.isSome then Decoder.wrongKind r.wanted
    else inSquare depth fun inner => r.readFields inner 0 r.fields r.blank
  | some _ => Decoder.wrongKind r.wanted

/-- Takes a member of the object of a record. -/
def takeMember (p : Progress α) (member : String × Value) : Except Issue (Progress α) := do
  match r.field? member.1 with
  | some f =>
    if p.2.contains f.name then throw (.duplicateField f.name)
    else
      let set ← f.decoder.ofValue member.2
      return (set p.1, f.name :: p.2)
  | none =>
    match r.other with
    | none => return p
    | some other =>
      let set ← (other member.1).ofValue member.2
      return (set p.1, p.2)

/-- Takes the items of an array that lists the fields of a record. -/
def takeFields (length : Nat) : Nat → List (Field α) → List Value → α → Except Issue α
  | _, [], [], a => .ok a
  | _, [], _ :: _, _ => .error (.wrongLength length "fewer elements in array")
  | index, f :: fs, [], a =>
    if f.required then .error (.wrongLength index r.wantedLength)
    else takeFields length (index + 1) fs [] a
  | index, f :: fs, v :: vs, a => do
    let set ← f.decoder.ofValue v
    takeFields length (index + 1) fs vs (set a)

/-- Takes a record from a value. -/
def take : Value → Except Issue α
  | .object members => do
    let (a, seen) ← members.foldlM r.takeMember (r.blank, [])
    match r.missing? seen with
    | some name => throw (.missingField name)
    | none => return a
  | .array items =>
    if r.other.isSome then .error (.wrongType .array r.wanted)
    else r.takeFields items.length 0 r.fields items r.blank
  | v => .error (.wrongType v.found r.wanted)

end Record

namespace Decoder

variable {α : Type}

/-- A record. -/
def record (r : Record α) : Decoder α where
  read := r.read
  ofValue := r.take

/-- A field that sets a part of a record. -/
def sets {β : Type} (d : Decoder β) (set : β → α → α) : Decoder (α → α) :=
  d.map set

/-! ## Words -/

/-- The value that a word stands for. -/
def known (words : List (String × α)) (word : String) : Except Issue α :=
  match words.lookup word with
  | some a => .ok a
  | none => .error (.unknownWord word (words.map Prod.fst))

/-- Reads one of a list of words. -/
def readKnown (words : List (String × α)) : Reader α := do
  match known words (← readText "variant identifier") with
  | .ok a => return a
  | .error issue => failHere issue

/-- Reads null. -/
def readNull : Reader Unit := do
  match ← peekAfterBlanks? with
  | none => failAtNext .endInValue
  | some 'n' =>
    advance
    readWord ['u', 'l', 'l']
  | some _ => wrongKind "unit"

/-- Reads one of a list of words as the first key of an object. -/
def readKnownKey (words : List (String × α)) : Reader α := do
  match ← peekAfterBlanks? with
  | none => failAtNext .endInObject
  | some '"' => readKnown words
  | some '\x7d' => failAtNext .noValue
  | some _ => failAtNext .keyNotString

/-- One of a list of words: a string, or an object with the word as its only key and null as the
value. -/
def word (words : List (String × α)) : Decoder α where
  read depth := do
    match ← peekAfterBlanks? with
    | none => failAtNext .endInValue
    | some '"' => readKnown words
    | some '\x7b' =>
      match depth with
      | 0 => failAtNext .tooDeep
      | _ + 1 =>
        advance
        let a ← readKnownKey words
        readColon
        readNull
        match ← peekAfterBlanks? with
        | some '\x7d' =>
          advance
          return a
        | some _ => failHere .noValue
        | none => failHere .endInObject
    | some _ => failAtNext .noValue
  ofValue
    | .string s => known words s
    | .object [(k, v)] => do
      let a ← known words k
      match v with
      | .null => return a
      | w => throw (.wrongType w.found "unit")
    | .object _ => .error (.wrongValue .object "map with a single key")
    | v => .error (.wrongType v.found "string or map")

end Decoder

end Pipewright.Json
