import Ancestry.Yaml.Kind
import Ancestry.Yaml.Stream

/-!
Nodes: scalars, sequences and mappings, each with its kind and the place where it begins. They are
numbered in the order in which they begin, and a collection holds the numbers of its parts. An alias
stands for the number of the node that its anchor names, so a collection may be a part of itself.
-/

namespace Ancestry.Yaml

/-- What a node holds. -/
inductive Body where
  | scalar (text : String)
  | sequence (items : List Nat)
  | mapping (pairs : List (Nat × Nat))
  deriving DecidableEq, Repr

structure Node where
  kind : String
  body : Body
  start : Mark
  deriving DecidableEq, Repr

/-- The shape of a node in messages. -/
def Body.shape : Body → String
  | scalar _ => "scalar"
  | sequence _ => "sequence"
  | mapping _ => "mapping"

/-- The node that stands for nothing. -/
def Node.nothing (mark : Mark) : Node :=
  ⟨standard "null", .scalar "", mark⟩

/-- Numbered nodes. -/
structure Graph where
  nodes : Array Node := #[]

namespace Graph

/-- The node of a number. -/
def node (g : Graph) (id : Nat) : Node :=
  g.nodes[id]?.getD (.nothing {})

def size (g : Graph) : Nat :=
  g.nodes.size

def push (g : Graph) (node : Node) : Graph :=
  ⟨g.nodes.push node⟩

def modify (g : Graph) (id : Nat) (f : Node → Node) : Graph :=
  ⟨g.nodes.modify id f⟩

/-- Gives a node its parts. -/
def setBody (g : Graph) (id : Nat) (body : Body) : Graph :=
  g.modify id fun node => { node with body }

end Graph

/-- The reader of nodes: the reader of tokens, the nodes so far, the anchors met with the numbers of
the nodes that they name, and the short names of tags. -/
structure NodeReader where
  reader : Reader
  graph : Graph := {}
  anchors : List (String × Nat) := []
  handles : List (String × String) := []

abbrev ReadNode := StateT NodeReader (Except Error)

/-- The short names of tags that need no directive. -/
def defaultHandles : List (String × String) :=
  [("!", "!"), ("!!", standard "")]

namespace ReadNode

def problem {α : Type} (context : String) (start : Mark) (what : String) (mark : Mark) :
    ReadNode α :=
  throw (.problem (some context) (some start) what (some mark))

def tooDeep {α : Type} : ReadNode α :=
  throw (.badValue .tooDeep)

/-- The next token. -/
def peek : ReadNode Token := do
  let reader ← (← get).reader.settle
  modify fun r => { r with reader }
  match reader.tokens with
  | token :: _ => pure token
  | [] => tooDeep

/-- Takes the next token. -/
def next : ReadNode Token := do
  let token ← peek
  modify fun r => { r with
    reader := { r.reader with tokens := r.reader.tokens.drop 1, taken := r.reader.taken + 1 } }
  pure token

/-- Whether the next token is of one of some kinds. -/
def isAt (kinds : List TokenKind) : ReadNode Bool := do
  pure (kinds.contains (← peek).kind)

/-- Numbers a new node. -/
def newNode (node : Node) : ReadNode Nat := do
  let id := (← get).graph.size
  modify fun r => { r with graph := r.graph.push node }
  pure id

/-- A new node that stands for nothing. -/
def nothing (mark : Mark) : ReadNode Nat :=
  newNode (.nothing mark)

def resolveTag (start : Mark) (token : Token) (handle? : Option String) (suffix : String) :
    ReadNode String := do
  match handle? with
  | none => pure suffix
  | some handle =>
    match (← get).handles.lookup handle with
    | some target => pure (target ++ suffix)
    | none =>
      problem "while parsing a node" start ("found undefined tag handle " ++ Text.quoted handle)
        token.start

/-- An anchor and a tag in front of a node. -/
structure Properties where
  anchor? : Option String := none
  tag? : Option (Token × Option String × String) := none
  start? : Option Mark := none

def properties : ReadNode Properties := do
  let first ← peek
  match first.kind with
  | .anchor name =>
    let _ ← next
    let second ← peek
    match second.kind with
    | .tag handle? suffix =>
      let _ ← next
      pure ⟨some name, some (second, handle?, suffix), some first.start⟩
    | _ => pure ⟨some name, none, some first.start⟩
  | .tag handle? suffix =>
    let _ ← next
    let second ← peek
    match second.kind with
    | .anchor name =>
      let _ ← next
      pure ⟨some name, some (first, handle?, suffix), some first.start⟩
    | _ => pure ⟨none, some (first, handle?, suffix), some first.start⟩
  | _ => pure {}

/-- No anchor may come twice. -/
def checkAnchor (anchor? : Option String) (start : Mark) : ReadNode Unit := do
  match anchor? with
  | none => pure ()
  | some name =>
    match (← get).anchors.lookup name with
    | some first =>
      problem ("found duplicate anchor " ++ Text.quoted name ++ "; first occurrence")
        ((← get).graph.node first).start "second occurrence" start
    | none => pure ()

/-- Numbers a new node and lets its anchor name it. -/
def anchored (anchor? : Option String) (node : Node) : ReadNode Nat := do
  checkAnchor anchor? node.start
  let id ← newNode node
  match anchor? with
  | none => pure id
  | some name =>
    modify fun r => { r with anchors := (name, id) :: r.anchors }
    pure id

def aliased (name : String) (mark : Mark) : ReadNode Nat := do
  match (← get).anchors.lookup name with
  | some id => pure id
  | none =>
    throw (.problem none none ("found undefined alias " ++ Text.quoted name) (some mark))

/-- Gives a node its parts. -/
def fill (id : Nat) (body : Body) : ReadNode Nat := do
  modify fun r => { r with graph := r.graph.setBody id body }
  pure id

/-- The kind of a scalar with the given tag, if any. -/
def scalarKind (tag? : Option String) (text : String) (plain : Bool) : String :=
  match tag? with
  | none => if plain then plainKind text else standard "str"
  | some tag => if tag = "!" then plainKind text else tag

def collectionKind (tag? : Option String) (name : String) : String :=
  match tag? with
  | some tag => if tag = "!" then standard name else tag
  | none => standard name

mutual

/-- Reads one node. `block` tells whether block collections may begin here, `dashes` whether a
sequence without indentation of its own may. -/
def node (block dashes : Bool) : Nat → ReadNode Nat
  | 0 => tooDeep
  | fuel + 1 => do
    let first ← peek
    match first.kind with
    | .reference name =>
      let _ ← next
      aliased name first.start
    | _ =>
      let props ← properties
      let tag? ← match props.tag?, props.start? with
        | some (token, handle?, suffix), some start =>
          some <$> resolveTag start token handle? suffix
        | _, _ => pure none
      let token ← peek
      let start := props.start?.getD token.start
      let sequence := anchored props.anchor? ⟨collectionKind tag? "seq", .sequence [], start⟩
      let mapping := anchored props.anchor? ⟨collectionKind tag? "map", .mapping [], start⟩
      match token.kind, dashes, block with
      | .blockEntry, true, _ =>
        let id ← sequence
        fill id (.sequence (← dashItems fuel))
      | .scalar text plain, _, _ =>
        let id ← anchored props.anchor? ⟨scalarKind tag? text plain, .scalar text, start⟩
        let _ ← next
        pure id
      | .flowSequenceStart, _, _ =>
        let id ← sequence
        let _ ← next
        fill id (.sequence (← flowItems true token.start fuel))
      | .flowMappingStart, _, _ =>
        let id ← mapping
        let _ ← next
        fill id (.mapping (← flowPairs true token.start fuel))
      | .blockSequenceStart, _, true =>
        let id ← sequence
        let _ ← next
        fill id (.sequence (← blockItems token.start fuel))
      | .blockMappingStart, _, true =>
        let id ← mapping
        let _ ← next
        fill id (.mapping (← blockPairs token.start fuel))
      | kind, _, _ =>
        -- no content: an empty scalar behind an anchor or a tag, and else a fault
        if props.start?.isSome then
          anchored props.anchor? ⟨scalarKind tag? "" true, .scalar "", start⟩
        else
          problem ("while parsing a " ++ (if block then "block" else "flow") ++ " node") start
            ("expected the node content, but found " ++ Text.quoted kind.name) token.start

/-- Reads the entries of a sequence without indentation of its own. -/
def dashItems : Nat → ReadNode (List Nat)
  | 0 => tooDeep
  | fuel + 1 => do
    let token ← peek
    if token.kind = .blockEntry then
      let _ ← next
      let item ←
        if ← isAt [.blockEntry, .key, .value, .blockEnd] then nothing token.stop
        else node true false fuel
      pure (item :: (← dashItems fuel))
    else pure []

/-- Reads the entries of a block sequence that begins at `start`. -/
def blockItems (start : Mark) : Nat → ReadNode (List Nat)
  | 0 => tooDeep
  | fuel + 1 => do
    let token ← next
    match token.kind with
    | .blockEntry =>
      let item ←
        if ← isAt [.blockEntry, .blockEnd] then nothing token.stop
        else node true false fuel
      pure (item :: (← blockItems start fuel))
    | .blockEnd => pure []
    | kind =>
      problem "while parsing a block collection" start
        ("expected <block end>, but found " ++ Text.quoted kind.name) token.start

/-- Reads the pairs of a block mapping that begins at `start`. -/
def blockPairs (start : Mark) : Nat → ReadNode (List (Nat × Nat))
  | 0 => tooDeep
  | fuel + 1 => do
    let token ← next
    match token.kind with
    | .key =>
      let key ←
        if ← isAt [.key, .value, .blockEnd] then nothing token.stop
        else node true true fuel
      let after ← peek
      let value ←
        if after.kind = .value then do
          let _ ← next
          if ← isAt [.key, .value, .blockEnd] then nothing after.stop
          else node true true fuel
        else nothing after.start
      pure ((key, value) :: (← blockPairs start fuel))
    | .blockEnd => pure []
    | kind =>
      problem "while parsing a block mapping" start
        ("expected <block end>, but found " ++ Text.quoted kind.name) token.start

/-- Reads the value of a pair in a flow collection that `close` ends. -/
def flowValue (close : TokenKind) : Nat → ReadNode Nat
  | 0 => tooDeep
  | fuel + 1 => do
    let token ← peek
    if token.kind = .value then
      let _ ← next
      if ← isAt [.flowEntry, close] then nothing token.stop else node false false fuel
    else nothing token.start

/-- Reads the entries of a flow sequence that begins at `start`. An entry may be a single pair. -/
def flowItems (first : Bool) (start : Mark) : Nat → ReadNode (List Nat)
  | 0 => tooDeep
  | fuel + 1 => do
    let token ← peek
    if token.kind = .flowSequenceEnd then
      let _ ← next
      pure []
    else
      if !first then
        if token.kind = .flowEntry then
          let _ ← next
        else
          problem "while parsing a flow sequence" start
            ("expected ',' or ']', but got " ++ Text.quoted token.kind.name) token.start
      let token ← peek
      match token.kind with
      | .flowSequenceEnd =>
        let _ ← next
        pure []
      | .key =>
        let id ← newNode ⟨standard "map", .mapping [], token.start⟩
        let _ ← next
        let key ←
          if ← isAt [.value, .flowEntry, .flowSequenceEnd] then nothing token.stop
          else node false false fuel
        let value ← flowValue .flowSequenceEnd fuel
        let item ← fill id (.mapping [(key, value)])
        pure (item :: (← flowItems false start fuel))
      | _ =>
        let item ← node false false fuel
        pure (item :: (← flowItems false start fuel))

/-- Reads the pairs of a flow mapping that begins at `start`. -/
def flowPairs (first : Bool) (start : Mark) : Nat → ReadNode (List (Nat × Nat))
  | 0 => tooDeep
  | fuel + 1 => do
    let token ← peek
    if token.kind = .flowMappingEnd then
      let _ ← next
      pure []
    else
      if !first then
        if token.kind = .flowEntry then
          let _ ← next
        else
          problem "while parsing a flow mapping" start
            ("expected ',' or '\x7d', but got " ++ Text.quoted token.kind.name) token.start
      let token ← peek
      match token.kind with
      | .flowMappingEnd =>
        let _ ← next
        pure []
      | .key =>
        let _ ← next
        let key ←
          if ← isAt [.value, .flowEntry, .flowMappingEnd] then nothing token.stop
          else node false false fuel
        let value ← flowValue .flowMappingEnd fuel
        pure ((key, value) :: (← flowPairs false start fuel))
      | _ =>
        let key ← node false false fuel
        let value ← nothing (← peek).start
        pure ((key, value) :: (← flowPairs false start fuel))

end

/-- Reads the directives in front of a document. -/
def directives (version : Bool) (handles : List (String × String)) : Nat → ReadNode Unit
  | 0 => pure ()
  | fuel + 1 => do
    let token ← peek
    let fault (what : String) : ReadNode Unit := throw (.problem none none what (some token.start))
    match token.kind with
    | .directive directive =>
      let _ ← next
      match directive with
      | .version major _ =>
        if version then fault "found duplicate YAML directive"
        else if major ≠ 1 then
          fault "found incompatible YAML document (version 1.* is required)"
        else directives true handles fuel
      | .handle handle target =>
        if (handles.lookup handle).isSome then
          fault ("duplicate tag handle " ++ Text.quoted handle)
        else directives version ((handle, target) :: handles) fuel
      | .other => directives version handles fuel
    | _ => modify fun r => { r with handles := handles ++ defaultHandles }

/-- Skips ends of documents. -/
def skipEnds : Nat → ReadNode Unit
  | 0 => pure ()
  | fuel + 1 => do
    if ← isAt [.documentEnd] then
      let _ ← next
      skipEnds fuel

/-- Comes to the next document: past ends of documents and directives, to the line that starts it.
Yields the place of its first token, or nothing at the end of the stream. -/
def nextDocument (fuel : Nat) : ReadNode (Option Mark) := do
  skipEnds fuel
  let token ← peek
  if token.kind = .streamEnd then pure none
  else
    directives false [] fuel
    let opening ← peek
    if opening.kind = .documentStart then
      let _ ← next
      pure (some token.start)
    else
      throw (.problem none none ("expected '<document start>', but found " ++
        Text.quoted opening.kind.name) (some opening.start))

def isHead : TokenKind → Bool
  | .directive _ | .documentStart | .streamEnd => true
  | _ => false

/-- Reads the only document of a stream. An empty stream has none. -/
def document (fuel : Nat) : ReadNode (Option Nat) := do
  let first ← peek
  let root? ←
    if isHead first.kind then do
      match ← nextDocument fuel with
      | none => pure none
      | some _ =>
        let token ← peek
        if isHead token.kind || token.kind = .documentEnd then some <$> nothing token.start
        else some <$> node true false fuel
    else do
      modify fun r => { r with handles := defaultHandles }
      some <$> node true false fuel
  match root? with
  | none => pure none
  | some root =>
    if ← isAt [.documentEnd] then
      let _ ← next
    match ← nextDocument fuel with
    | none => pure (some root)
    | some mark =>
      problem "expected a single document in the stream" ((← get).graph.node root).start
        "but found another document" mark

end ReadNode

/-- The nodes of a document and the number of its root. -/
structure Document where
  graph : Graph
  root : Nat

/-- Reads a document. An empty one has no nodes. -/
def Document.read (text : Intake) : Except Error (Option Document) := do
  let fuel := 16 * text.text.length + 64
  let (root?, r) ← (ReadNode.document fuel).run { reader := .ofIntake text }
  pure (root?.map fun root => ⟨r.graph, root⟩)

end Ancestry.Yaml
