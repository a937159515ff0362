import Ancestry.Yaml.Atom
import Ancestry.Yaml.Node
import Ancestry.Yaml.SetOrder

/-!
From nodes to values. A scalar has its value at once. A collection is first known by its number
only, and what it holds is found out later: collections wait in a queue, and each one looks at its
parts when its turn comes. So a collection may hold itself, and of two faults the one counts that is
nearer to the root.
-/

namespace Ancestry.Yaml

/-- The standard kinds of collections. -/
inductive CollectionKind where
  | seq
  | map
  | set
  | omap
  | pairs
  deriving DecidableEq, Repr

namespace CollectionKind

def name : CollectionKind → String
  | seq => "seq"
  | map => "map"
  | set => "set"
  | omap => "omap"
  | pairs => "pairs"

def all : List CollectionKind :=
  [seq, map, set, omap, pairs]

def ofKind? (kind : String) : Option CollectionKind :=
  all.find? fun k => kind = standard k.name

end CollectionKind

/-- What a node stands for: a value, or a collection by its number. -/
inductive Item where
  | atom (value : Value)
  | collection (id : Nat)

/-- What a collection holds. -/
inductive Content where
  | list (items : List Item)
  | mapping (pairs : List (Value × Item))
  | set (keys : List Value)
  | pairs (pairs : List (Item × Item))

/-- What is known so far: the nodes, what they stand for, what collections hold, and the collections
that wait for their turn. -/
structure Meaning where
  graph : Graph
  items : Array (Option Item)
  contents : Array (Option Content)
  queue : List Nat := []

abbrev Construct := StateT Meaning (Except Error)

namespace Construct

def node (id : Nat) : Construct Node := do
  pure ((← get).graph.node id)

def modifyGraph (f : Graph → Graph) : Construct Unit :=
  modify fun m => { m with graph := f m.graph }

/-- A problem with a node that is no part of anything else. -/
def nodeProblem (what : String) (node : Node) : Error :=
  .problem none none what (some node.start)

/-- A problem with a part of a collection. -/
def partProblem (context : String) (whole : Node) (what : String) (part : Node) : Error :=
  .problem (some context) (some whole.start) what (some part.start)

/-- The text of a scalar. A mapping with a key of the kind that an equals sign has stands for the
value under it. -/
def scalarText (g : Graph) : Nat → Nat → Except Error String
  | 0, _ => .error (.badValue .tooDeep)
  | fuel + 1, id =>
    let node := g.node id
    match node.body with
    | .scalar text => .ok text
    | .sequence _ => .error (nodeProblem "expected a scalar node, but found sequence" node)
    | .mapping pairs =>
      match pairs.find? fun p => (g.node p.1).kind = standard "value" with
      | some (_, value) => scalarText g fuel value
      | none => .error (nodeProblem "expected a scalar node, but found mapping" node)

/-- The value of a node of a scalar kind. -/
def atom (id : Nat) (kind : AtomKind) : Construct Value := do
  let g := (← get).graph
  let text ← scalarText g (g.size + 1) id
  let node := g.node id
  match kind, node.body with
  | .timestamp, .mapping _ => throw (.badValue .timeOfMapping)
  | _, _ => atomOf id node.start kind text

/-- What a node stands for. A collection that is met for the first time joins the queue. -/
def item (id : Nat) : Construct Item := do
  match (← get).items[id]?.join with
  | some item => pure item
  | none =>
    let node ← node id
    let item ← match AtomKind.ofKind? node.kind, CollectionKind.ofKind? node.kind with
      | some kind, _ => Item.atom <$> atom id kind
      | none, some _ => do
        modify fun m => { m with queue := m.queue ++ [id] }
        pure (Item.collection id)
      | none, none =>
        throw (nodeProblem ("could not determine a constructor for the tag " ++
          Text.quoted node.kind) node)
    modify fun m => { m with items := m.items.setIfInBounds id (some item) }
    pure item

def pairsOf (id : Nat) : Construct (List (Nat × Nat)) := do
  match (← node id).body with
  | .mapping pairs => pure pairs
  | _ => pure []

mutual

/-- Takes over the pairs of other mappings into the mapping `id`, in front of its own. Its pairs
from `index` on are still to be looked at, and `taken` is taken over already. An equals sign as a
key becomes a text. -/
def flattenFrom : Nat → Nat → Nat → List (Nat × Nat) → Construct Unit
  | 0, _, _, _ => throw (.badValue .tooDeep)
  | fuel + 1, id, index, taken => do
    let pairs ← pairsOf id
    match pairs[index]? with
    | none => modifyGraph fun g => g.setBody id (.mapping (taken ++ pairs))
    | some (key, value) =>
      let kind := (← node key).kind
      if kind = standard "merge" then
        modifyGraph fun g => g.setBody id (.mapping (pairs.eraseIdx index))
        let more ← mergedPairs fuel id value
        flattenFrom fuel id index (taken ++ more)
      else
        if kind = standard "value" then
          modifyGraph fun g => g.modify key fun node => { node with kind := standard "str" }
        flattenFrom fuel id (index + 1) taken

/-- The pairs that the mapping `id` takes over from a mapping, or from a list of mappings, the last
one first. -/
def mergedPairs : Nat → Nat → Nat → Construct (List (Nat × Nat))
  | 0, _, _ => throw (.badValue .tooDeep)
  | fuel + 1, id, source => do
    let fault (what : String) (part : Node) : Construct (List (Nat × Nat)) := do
      throw (partProblem "while constructing a mapping" (← node id)
        ("expected a mapping " ++ what ++ "for merging, but found " ++ part.body.shape) part)
    let sourceNode ← node source
    match sourceNode.body with
    | .mapping _ =>
      flattenFrom fuel source 0 []
      pairsOf source
    | .sequence parts =>
      let lists ← parts.mapM fun part => do
        let partNode ← node part
        match partNode.body with
        | .mapping _ =>
          flattenFrom fuel part 0 []
          pairsOf part
        | _ => fault "" partNode
      pure lists.reverse.flatten
    | .scalar _ => fault "or list of mappings " sourceNode

end

/-- Takes over the pairs of other mappings. -/
def flatten (id : Nat) : Construct Unit := do
  let n := (← get).graph.size + 2
  flattenFrom (n * n * n) id 0 []

/-- The pairs of a mapping with the values of its keys. A collection is no key. -/
def keyedItems (id : Nat) : Construct (List (Value × Item)) := do
  let whole ← node id
  match whole.body with
  | .mapping _ =>
    flatten id
    (← pairsOf id).foldlM
      (fun pairs (key, value) => do
        match ← item key with
        | .atom k => pure (putPair pairs k (← item value))
        | .collection _ =>
          throw (partProblem "while constructing a mapping" whole "found unhashable key"
            (← node key)))
      []
  | body => throw (nodeProblem ("expected a mapping node, but found " ++ body.shape) whole)

/-- The only pairs of the mappings in a sequence. -/
def singlePairs (context : String) (id : Nat) : Construct (List (Item × Item)) := do
  let whole ← node id
  match whole.body with
  | .sequence parts =>
    parts.mapM fun part => do
      let partNode ← node part
      match partNode.body with
      | .mapping [(key, value)] => pure (← item key, ← item value)
      | .mapping pairs =>
        throw (partProblem context whole
          ("expected a single mapping item, but found " ++ toString pairs.length ++ " items")
          partNode)
      | body =>
        throw (partProblem context whole
          ("expected a mapping of length 1, but found " ++ body.shape) partNode)
  | body =>
    throw (partProblem context whole ("expected a sequence, but found " ++ body.shape) whole)

/-- What a collection holds. -/
def content (id : Nat) (kind : CollectionKind) : Construct Content := do
  match kind with
  | .seq =>
    let whole ← node id
    match whole.body with
    | .sequence parts => Content.list <$> parts.mapM item
    | body => throw (nodeProblem ("expected a sequence node, but found " ++ body.shape) whole)
  | .map => Content.mapping <$> keyedItems id
  | .set => return .set ((← keyedItems id).map (·.1))
  | .omap => Content.pairs <$> singlePairs "while constructing an ordered map" id
  | .pairs => Content.pairs <$> singlePairs "while constructing pairs" id

/-- Gives each collection in the queue its turn. No node comes twice, so their number is fuel
enough. -/
def runQueue : Nat → Construct Unit
  | 0 => pure ()
  | fuel + 1 => do
    match (← get).queue with
    | [] => pure ()
    | id :: rest =>
      modify fun m => { m with queue := rest }
      match CollectionKind.ofKind? (← node id).kind with
      | some kind =>
        let content ← content id kind
        modify fun m => { m with contents := m.contents.setIfInBounds id (some content) }
      | none => pure ()
      runQueue fuel

end Construct

/-! ### Values of collections -/

/-- The values of collections that do not hold themselves. -/
abbrev Settled := Array (Option Value)

def Settled.item? (values : Settled) : Item → Option Value
  | .atom value => some value
  | .collection id => values[id]?.join

/-- The value of a collection all of whose parts have one. -/
def Settled.value? (values : Settled) : Content → Option Value
  | .list items => Value.list <$> items.mapM values.item?
  | .mapping pairs => Value.mapping <$> pairs.mapM fun (k, v) => (k, ·) <$> values.item? v
  | .set keys => some (.set (setOrder keys))
  | .pairs pairs => Value.list <$> pairs.mapM fun (a, b) => do
      return .pair (← values.item? a) (← values.item? b)

/-- Settles what can be settled in one pass, from the last collection to the first. -/
def Settled.pass (contents : Array (Option Content)) (values : Settled) : Settled :=
  (List.range contents.size).reverse.foldl
    (fun values id =>
      match values[id]?.join, contents[id]?.join with
      | none, some content => values.setIfInBounds id (values.value? content)
      | _, _ => values)
    values

def Settled.count (values : Settled) : Nat :=
  (values.toList.filter Option.isSome).length

/-- Repeats passes for as long as one settles something. -/
def Settled.passes (contents : Array (Option Content)) : Nat → Settled → Settled
  | 0, values => values
  | fuel + 1, values =>
    let next := values.pass contents
    if next.count = values.count then next else passes contents fuel next

/-- The value of an item. A collection inside itself, which is on the path to it, is not shown once
more. -/
def Meaning.value (m : Meaning) (values : Settled) (path : List Nat) : Nat → Item → Value
  | 0, _ => .null
  | fuel + 1, item =>
    match values.item? item, item with
    | some value, _ => value
    | none, .atom value => value
    | none, .collection id =>
      let inner := m.value values (id :: path) fuel
      let again := path.contains id
      match m.contents[id]?.join with
      | some (.list items) => if again then .loop false else .list (items.map inner)
      | some (.pairs pairs) =>
        if again then .loop false
        else .list (pairs.map fun (a, b) => .pair (inner a) (inner b))
      | some (.mapping pairs) =>
        if again then .loop true else .mapping (pairs.map fun (k, v) => (k, inner v))
      | some (.set keys) => .set (setOrder keys)
      | none => .null

/-- The value of the root. What stands under its keys is shown on its own. -/
def Meaning.rootValue (m : Meaning) (root : Item) : Value :=
  let size := m.contents.size
  let values := Settled.passes m.contents size (Array.replicate size none)
  let value := m.value values [] (size + 1)
  match root with
  | .atom v => v
  | .collection id =>
    match m.contents[id]?.join with
    | some (.mapping pairs) => .mapping (pairs.map fun (k, v) => (k, value v))
    | _ => value root

/-- The value of a document. -/
def Document.value (d : Document) : Except Error Value := do
  let size := d.graph.size
  let start : Meaning := ⟨d.graph, Array.replicate size none, Array.replicate size none, []⟩
  let construct : Construct Item := do
    let root ← Construct.item d.root
    Construct.runQueue (size + 1)
    pure root
  let (root, m) ← construct.run start
  pure (m.rootValue root)

/-- The value of a document that comes in. An empty one is a null. -/
def Value.ofIntake (text : Intake) : Except Error Value := do
  match ← Document.read text with
  | none => pure .null
  | some document => document.value

/-- The value of a document in bytes. -/
def Value.ofBytes (bytes : List UInt8) : Except Error Value :=
  Value.ofIntake (.ofBytes bytes)

end Ancestry.Yaml
