import ScriptKernel.Yaml.Node
import ScriptKernel.Yaml.Token.Stream

/-!
The tree of a document, built from its tokens. Only the first document of a
text is read, and no further than to the token behind it.
-/

namespace ScriptKernel.Yaml

structure Building where
  stream : Stream
  /-- The nodes that have a name, the last one first. -/
  anchors : List (String × Node) := []
  /-- What the handles of tags stand for. -/
  handles : List (String × String) := []

abbrev Build := StateT Building (Except Fault)

namespace Build

def peek : Build Token := do
  let b ← get
  let (token, stream) ← b.stream.peek
  set { b with stream := stream }
  return token

def skip : Build Unit := modify fun b => { b with stream := b.stream.skip }

def fail {α : Type} (token : Token) (problem : OrderProblem) : Build α :=
  throw (.order token.line problem)

structure Properties where
  anchor : Option String := none
  tag : Option (Nat × String × String) := none

/-- Name and tag come in either order, each at most once. -/
def properties (p : Properties) : Nat → Build Properties
  | 0 => return p
  | n + 1 => do
    let token ← peek
    match token.kind, p.anchor, p.tag with
    | .anchor name, none, _ => do
      skip
      properties { p with anchor := some name } n
    | .tag handle suffix, _, none => do
      skip
      properties { p with tag := some (token.line, handle, suffix) } n
    | _, _, _ => return p

def fullTag (p : Properties) : Build String := do
  match p.tag with
  | none => return ""
  | some (line, handle, suffix) =>
    if handle = "" then return suffix
    else match (← get).handles.lookup handle with
      | some stem => return stem ++ suffix
      | none => throw (.order line .unknownHandle)

/-- Builds a node under its name. While it is being built the name stands for
what is known of it. -/
def named (anchor : Option String) (known : Node) (build : Build Node) : Build Node := do
  match anchor with
  | none => build
  | some name =>
    let before := (← get).anchors.length
    modify fun b => { b with anchors := (name, known) :: b.anchors }
    let node ← build
    modify fun b =>
      { b with anchors := b.anchors.set (b.anchors.length - 1 - before) (name, node) }
    return node

def isBlockMark (kind : TokenKind) : Bool := kind ∈ [.key, .value, .blockEnd]

mutual

/-- A node, built in at most `n` steps. The items of a sequence need not be
indented further than the key before it. -/
def node (block afterKey : Bool) : Nat → Build Node
  | 0 => do fail (← peek) .missingContent
  | n + 1 => do
    let first ← peek
    match first.kind with
    | .alias name => do
      skip
      match (← get).anchors.lookup name with
      | some target => return .alias first.line target
      | none => throw (.node (.unknownAnchor name))
    | _ => do
      let p ← properties {} 2
      let token ← peek
      let tag ← fullTag p
      content block afterKey p.anchor tag first.line token n

def content (block afterKey : Bool) (anchor : Option String) (tag : String) (line : Nat)
    (token : Token) : Nat → Build Node
  | 0 => fail token .missingContent
  | n + 1 =>
    match token.kind, block, afterKey with
    | .item, _, true => named anchor (.sequence line []) do
      return .sequence line (← looseItems n)
    | .scalar plain text, _, _ => named anchor (.nothing line) do
      skip
      return .scalar line tag ((tag = "" && plain) || tag = "!") text
    | .listOpen, _, _ => named anchor (.sequence line []) do
      skip
      return .sequence line (← listItems true n)
    | .mappingOpen, _, _ => named anchor (.mapping line []) do
      skip
      return .mapping line (← mappingEntries true n)
    | .blockSequence, true, _ => named anchor (.sequence line []) do
      skip
      return .sequence line (← blockItems n)
    | .blockMapping, true, _ => named anchor (.mapping line []) do
      skip
      return .mapping line (← blockEntries n)
    | _, _, _ =>
      if anchor.isSome || tag ≠ "" then
        named anchor (.nothing line) do return .scalar line tag (tag = "") ""
      else fail token .missingContent

def blockItems : Nat → Build (List Node)
  | 0 => do fail (← peek) .missingDash
  | n + 1 => do
    let token ← peek
    match token.kind with
    | .item => do
      skip
      let next ← peek
      let item ← if next.kind ∈ [.item, .blockEnd] then pure (.nothing token.line)
        else node true false n
      let items ← blockItems n
      return item :: items
    | .blockEnd => do
      skip
      return []
    | _ => fail token .missingDash

/-- The items of a block that is indented like the key before it. -/
def looseItems : Nat → Build (List Node)
  | 0 => return []
  | n + 1 => do
    let token ← peek
    match token.kind with
    | .item => do
      skip
      let next ← peek
      let item ← if next.kind = .item || isBlockMark next.kind then pure (.nothing token.line)
        else node true false n
      let items ← looseItems n
      return item :: items
    | _ => return []

def blockEntries : Nat → Build (List (Node × Node))
  | 0 => do fail (← peek) .missingKey
  | n + 1 => do
    let token ← peek
    match token.kind with
    | .key => do
      skip
      let next ← peek
      let key ← if isBlockMark next.kind then pure (.nothing token.line) else node true true n
      let value ← blockValue n
      let entries ← blockEntries n
      return (key, value) :: entries
    | .blockEnd => do
      skip
      return []
    | _ => fail token .missingKey

def blockValue : Nat → Build Node
  | 0 => do return .nothing (← peek).line
  | n + 1 => do
    let token ← peek
    if token.kind = .value then
      skip
      let next ← peek
      if isBlockMark next.kind then return .nothing token.line else node true true n
    else return .nothing token.line

def listItems (first : Bool) : Nat → Build (List Node)
  | 0 => do fail (← peek) .unclosedList
  | n + 1 => do
    let token ← peek
    if token.kind = .listClose then
      skip
      return []
    else
      unless first do
        if token.kind = .comma then skip else fail token .unclosedList
      let token ← peek
      match token.kind with
      | .listClose => do
        skip
        return []
      | .key => do
        skip
        let entry ← singleEntry n
        let items ← listItems false n
        return .mapping token.line [entry] :: items
      | _ => do
        let item ← node false false n
        let items ← listItems false n
        return item :: items

def singleEntry : Nat → Build (Node × Node)
  | 0 => do fail (← peek) .unclosedList
  | n + 1 => do
    let token ← peek
    let key ←
      if token.kind ∈ [.value, .comma, .listClose] then
        skip
        pure (.nothing token.line)
      else node false false n
    let value ← flowValue .listClose n
    return (key, value)

def flowValue (close : TokenKind) : Nat → Build Node
  | 0 => do return .nothing (← peek).line
  | n + 1 => do
    let token ← peek
    if token.kind = .value then
      skip
      let next ← peek
      if next.kind = .comma || next.kind = close then return .nothing token.line
      else node false false n
    else return .nothing token.line

def mappingEntries (first : Bool) : Nat → Build (List (Node × Node))
  | 0 => do fail (← peek) .unclosedMapping
  | n + 1 => do
    let token ← peek
    if token.kind = .mappingClose then
      skip
      return []
    else
      unless first do
        if token.kind = .comma then skip else fail token .unclosedMapping
      let token ← peek
      match token.kind with
      | .mappingClose => do
        skip
        return []
      | .key => do
        skip
        let next ← peek
        let key ← if next.kind ∈ [.value, .comma, .mappingClose] then pure (.nothing next.line)
          else node false false n
        let value ← flowValue .mappingClose n
        let entries ← mappingEntries false n
        return (key, value) :: entries
      | _ => do
        let key ← node false false n
        let value := .nothing (← peek).line
        let entries ← mappingEntries false n
        return (key, value) :: entries

end

def standardHandles : List (String × String) := [("!", "!"), ("!!", "tag:yaml.org,2002:")]

def directives (version : Bool) (handles : List (String × String)) :
    Nat → Build (List (String × String))
  | 0 => return handles
  | n + 1 => do
    let token ← peek
    match token.kind with
    | .version major minor =>
      if version then fail token .repeatedVersion
      else if major ≠ 1 || minor ≠ 1 then fail token .wrongVersion
      else do
        skip
        directives true handles n
    | .handle name stem =>
      if (handles.lookup name).isSome then fail token .repeatedHandle
      else do
        skip
        directives version ((name, stem) :: handles) n
    | _ => return handles

def isDocumentMark : TokenKind → Bool
  | .version _ _ | .handle _ _ | .documentStart | .documentEnd | .streamEnd => true
  | _ => false

def document (steps : Nat) : Build (Option Node) := do
  let token ← peek
  let root ← match token.kind with
    | .streamEnd => return none
    | .version _ _ | .handle _ _ | .documentStart => do
      let handles ← directives false [] steps
      modify fun b => { b with handles := handles ++ standardHandles }
      let start ← peek
      if start.kind ≠ .documentStart then fail start .missingDocument
      skip
      let next ← peek
      if isDocumentMark next.kind then pure (.nothing next.line) else node true false steps
    | _ => do
      modify fun b => { b with handles := standardHandles }
      node true false steps
  let _ ← peek
  return some root

end Build

/-- The root of the first document in some bytes. A token takes a few steps, and
there are at most four tokens for a character. -/
def read (bytes : List UInt8) : Read (Option Node) := do
  let chars ← (charsOf bytes).mapError .bytes
  let (root, _) ← (Build.document (16 * chars.length + 32)).run { stream := .ofChars chars }
  return root

end ScriptKernel.Yaml
