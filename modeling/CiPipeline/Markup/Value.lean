import CiPipeline.Markup.Token

/-!
# Values of a marked-up text

`Value.read?` reads a text that holds one document. It answers `none` when the text is malformed,
and no value when there is no document in it. A reference stays in the value as a number, and
`Value.resolve` says what it stands for: this is known only when the whole document has been read.
-/

namespace CiPipeline.Markup

inductive Value where
  /-- A text, whether it is written plainly, and its tag. -/
  | scalar (text : String) (plain : Bool) (tag : Option String)
  | sequence (items : List Value)
  | mapping (pairs : List (Value × Value))
  /-- A value that references with this number mean, unless a later one has the number too. -/
  | anchored (number : Nat) (value : Value)
  | reference (number : Nat)
  deriving Repr, Inhabited

mutual

/-- The last value with a number; what is inside a value comes after it. -/
def Value.lookUp? (number : Nat) : Value → Option Value
  | .anchored n v => v.lookUp? number <|> if n = number then some v else none
  | .sequence items => Value.lookUpItem? number items
  | .mapping pairs => Value.lookUpPair? number pairs
  | .scalar .. | .reference _ => none

def Value.lookUpItem? (number : Nat) : List Value → Option Value
  | [] => none
  | v :: rest => Value.lookUpItem? number rest <|> v.lookUp? number

def Value.lookUpPair? (number : Nat) : List (Value × Value) → Option Value
  | [] => none
  | (k, v) :: rest => Value.lookUpPair? number rest <|> v.lookUp? number <|> k.lookUp? number

end

/-- What a value of a document stands for. -/
def Value.resolve (document : Value) : Value → Value
  | .anchored _ v => v
  | .reference n => (document.lookUp? n).getD (.reference n)
  | v => v

/-- What is left of the tokens, and what was declared before: anchors with their numbers, each name
once, and handles with what they mean. -/
structure Reading where
  tokens : List Token
  anchors : List (List Char × Nat) := []
  handles : List (List Char × List Char) := []

abbrev Reader := StateT Reading Option

namespace Reader

def peek : Reader (Option Token) := return (← get).tokens.head?

def skip : Reader Unit := modify fun r => { r with tokens := r.tokens.tail }

/-- The next token is there and is none of these. -/
def nextIsNone (tokens : List Token) : Reader Bool := do
  match ← peek with
  | some t => return !tokens.contains t
  | none => return false

/-- Passes a token that must be next. -/
def expect (t : Token) : Reader Unit := do
  if (← peek) == some t then skip else failure

/-- Passes a token if it is next. -/
def accept (t : Token) : Reader Bool := do
  if (← peek) == some t then
    skip
    return true
  else return false

/-- Gives a name its number, which counts the names before. A name that was known gets a new number
without being counted again, so two names may share one. -/
def declareAnchor (name : List Char) : Reader Nat := do
  let r ← get
  let number := r.anchors.length
  set { r with anchors := (name, number) :: r.anchors.filter (·.1 != name) }
  return number

def lookUpAnchor (name : List Char) : Reader Nat := do
  match (← get).anchors.lookup name with
  | some number => return number
  | none => failure

/-- A tag with its handle replaced. All handles but two must have been declared, and these may be
declared otherwise. -/
def resolveTag (handle suffix : List Char) : Reader String := do
  match (← get).handles.lookup handle with
  | some meaning => return String.ofList (meaning ++ suffix)
  | none =>
    match handle with
    | [] => return String.ofList suffix
    | ['!'] => return String.ofList ('!' :: suffix)
    | ['!', '!'] => return "tag:yaml.org,2002:" ++ String.ofList suffix
    | _ => failure

/-- An anchor and a tag, each at most once, in either order. -/
def properties : Reader (Option (List Char) × Option String) := do
  match ← peek with
  | some (.anchor name) =>
    skip
    match ← peek with
    | some (.tag handle suffix) =>
      skip
      return (some name, some (← resolveTag handle suffix))
    | _ => return (some name, none)
  | some (.tag handle suffix) =>
    skip
    match ← peek with
    | some (.anchor name) =>
      skip
      return (some name, some (← resolveTag handle suffix))
    | _ => return (none, some (← resolveTag handle suffix))
  | _ => return (none, none)

def empty : Value := .scalar "" true none

mutual

/-- A value. Blocks are allowed or not, and so are items without a deeper indentation. -/
def value : Nat → Bool → Bool → Reader Value
  | 0, _, _ => failure
  | fuel + 1, block, flatItems => do
    match ← peek with
    | some (.reference name) =>
      skip
      return .reference (← lookUpAnchor name)
    | _ =>
      let (anchor, tag) ← properties
      let number ← anchor.mapM declareAnchor
      let propertiesAlone : Reader Value :=
        if anchor.isSome || tag.isSome then return .scalar "" true tag else failure
      let v ← match ← peek with
        | some (.scalar text plain) => do
          skip
          pure (.scalar (String.ofList text) plain tag)
        | some .item => if flatItems then flatSequence fuel else propertiesAlone
        | some .flowSequenceStart => do
          skip
          flowSequence fuel true
        | some .flowMappingStart => do
          skip
          flowMapping fuel true
        | some .blockSequenceStart =>
          if block then do
            skip
            blockSequence fuel
          else propertiesAlone
        | some .blockMappingStart =>
          if block then do
            skip
            blockMapping fuel
          else propertiesAlone
        | _ => propertiesAlone
      match number with
      | some n => return .anchored n v
      | none => return v

/-- A value, unless one of these tokens is next. -/
def valueUnless : Nat → Bool → Bool → List Token → Reader Value
  | 0, _, _, _ => failure
  | fuel + 1, block, flatItems, ends => do
    if ← nextIsNone ends then value fuel block flatItems else return empty

def blockSequence : Nat → Reader Value
  | 0 => failure
  | fuel + 1 => do
    if ← accept .item then
      let first ← valueUnless fuel true false [.item, .blockEnd]
      match ← blockSequence fuel with
      | .sequence rest => return .sequence (first :: rest)
      | _ => failure
    else
      expect .blockEnd
      return .sequence []

def flatSequence : Nat → Reader Value
  | 0 => failure
  | fuel + 1 => do
    if ← accept .item then
      let first ← valueUnless fuel true false [.item, .key, .value, .blockEnd]
      match ← flatSequence fuel with
      | .sequence rest => return .sequence (first :: rest)
      | _ => failure
    else return .sequence []

def blockMapping : Nat → Reader Value
  | 0 => failure
  | fuel + 1 => do
    if ← accept .key then
      let k ← valueUnless fuel true true [.key, .value, .blockEnd]
      let v ←
        if ← accept .value then valueUnless fuel true true [.key, .value, .blockEnd]
        else pure empty
      match ← blockMapping fuel with
      | .mapping rest => return .mapping ((k, v) :: rest)
      | _ => failure
    else
      expect .blockEnd
      return .mapping []

/-- Items of a bracket; the first needs no comma before it. -/
def flowSequence : Nat → Bool → Reader Value
  | 0, _ => failure
  | fuel + 1, first => do
    if ← accept .flowSequenceEnd then return .sequence []
    unless first do expect .comma
    if ← accept .flowSequenceEnd then return .sequence []
    let entry ←
      if ← accept .key then
        -- An absent key takes the token behind it along.
        let k ←
          if ← nextIsNone [.value, .comma, .flowSequenceEnd] then value fuel false false
          else do skip; pure empty
        let v ←
          if ← accept .value then valueUnless fuel false false [.comma, .flowSequenceEnd]
          else pure empty
        pure (Value.mapping [(k, v)])
      else value fuel false false
    match ← flowSequence fuel false with
    | .sequence rest => return .sequence (entry :: rest)
    | _ => failure

/-- Pairs of a brace; the first needs no comma before it. -/
def flowMapping : Nat → Bool → Reader Value
  | 0, _ => failure
  | fuel + 1, first => do
    if ← accept .flowMappingEnd then return .mapping []
    unless first do expect .comma
    if ← accept .flowMappingEnd then return .mapping []
    let pair ←
      if ← accept .key then
        let k ← valueUnless fuel false false [.value, .comma, .flowMappingEnd]
        let v ←
          if ← accept .value then valueUnless fuel false false [.comma, .flowMappingEnd]
          else pure empty
        pure (k, v)
      else
        let k ← value fuel false false
        pure (k, empty)
    match ← flowMapping fuel false with
    | .mapping rest => return .mapping (pair :: rest)
    | _ => failure

end

/-- Directives: at most one version, which must be a known one, and each handle once. -/
def directives : Nat → Bool → Reader Unit
  | 0, _ => failure
  | fuel + 1, versioned => do
    match ← peek with
    | some (.version major minor) =>
      if versioned || major != 1 || minor != 1 && minor != 2 then failure
      skip
      directives fuel true
    | some (.handle name meaning) =>
      if ((← get).handles.lookup name).isSome then failure
      skip
      modify fun r => { r with handles := (name, meaning) :: r.handles }
      directives fuel versioned
    | _ => return ()

def startsDocument : Token → Bool
  | .version .. | .handle .. | .documentStart => true
  | _ => false

def endsDocument : Option Token → Bool
  | some t => startsDocument t || t == .documentEnd
  | none => true

/-- The only document of a text. -/
def document (fuel : Nat) : Reader (Option Value) := do
  match ← peek with
  | none => return none
  | some t =>
    let v ←
      if startsDocument t then
        directives fuel false
        expect .documentStart
        if endsDocument (← peek) then pure empty else value fuel true false
      else value fuel true false
    if (← get).tokens.all (· == .documentEnd) then return some v else failure

end Reader

/-- Each turn of the reader passes a token or ends a collection. -/
def Value.read? (text : List Char) : Option (Option Value) := do
  let tokens ← Token.ofText? text
  let (v, _) ← (Reader.document (4 * tokens.length + 4)).run { tokens }
  return v

end CiPipeline.Markup
