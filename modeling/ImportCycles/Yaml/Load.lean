import ImportCycles.Yaml.Lexer
import ImportCycles.Yaml.Node
import ImportCycles.Yaml.Value

namespace ImportCycles

namespace Yaml

/-- The values of a text, and the number of the outermost one. -/
structure Document where
  values : Array Value
  root : Nat
  deriving Repr

/-- The value of a number. -/
def Document.value (d : Document) (id : Nat) : Value :=
  d.values[id]?.getD .other

/-- Values that are being made, from the root on, level by level. A collection first stands there
    empty, so that it may be among its own parts; `pending` are those that are to be filled, in
    order. -/
structure Builder where
  nodes : Array Node
  values : Array (Option Value)
  pending : List Nat := []
  deriving Repr

namespace Builder

def entriesOf? (nodes : Array Node) (id : Nat) : Option (List (Nat × Nat)) :=
  match nodes[id]? with
  | some { content := .mapping entries, .. } => some entries
  | _ => none

def hasTag (nodes : Array Node) (tag : Tag) (id : Nat) : Bool :=
  nodes[id]?.any (·.tag == tag)

/-- A special key for a default value counts as a text where it is a key. -/
def settleDefaults (nodes : Array Node) (entries : List (Nat × Nat)) : Array Node :=
  entries.foldl (fun nodes (key, _) =>
    if hasTag nodes .default key then nodes.modify key fun node => { node with tag := .text }
    else nodes) nodes

/-- Put the entries that the merge keys of a mapping name in front of its own, where its own win. Of
    the mappings that one merge key lists the first one wins. -/
def flatten : Nat → Array Node → Nat → Except Error (Array Node)
  | 0, nodes, _ => .ok nodes
  | fuel + 1, nodes, id =>
    match entriesOf? nodes id with
    | none => .error .malformed
    | some entries => do
      let merges := entries.filter fun (key, _) => hasTag nodes .merge key
      let own := entries.filter fun (key, _) => !hasTag nodes .merge key
      let fill := fun (nodes : Array Node) (entries : List (Nat × Nat)) =>
        nodes.modify id fun node => { node with content := .mapping entries }
      let nodes := fill (settleDefaults nodes own) own
      let mergeOne := fun (sofar : Array Node × List (Nat × Nat)) (source : Nat) => do
        let nodes ← flatten fuel sofar.1 source
        return (nodes, (entriesOf? nodes source).getD [] ++ sofar.2)
      let (nodes, merged) ← merges.foldlM (fun (nodes, merged) (_, source) => do
        let sources := match nodes[source]? with
          | some { content := .sequence items, .. } => items
          | _ => [source]
        let (nodes, found) ← sources.foldlM mergeOne (nodes, [])
        return (nodes, merged ++ found)) (nodes, ([] : List (Nat × Nat)))
      return fill nodes (merged ++ own)

/-- The text of a node that is a scalar, or of the default value of one that is a mapping. -/
def scalarText? (nodes : Array Node) : Nat → Nat → Option String
  | 0, _ => none
  | fuel + 1, id =>
    match nodes[id]? with
    | some { content := .scalar text, .. } => some text
    | some { content := .mapping entries, .. } =>
      match entries.find? fun (key, _) => hasTag nodes .default key with
      | some (_, value) => scalarText? nodes fuel value
      | none => none
    | _ => none

/-- The value of a node whose type is that of scalars. A default value makes no point in time. -/
def scalarValue (nodes : Array Node) (tag : Tag) (id : Nat) : Except Error Value :=
  match scalarText? nodes (nodes.size + 1) id with
  | none => .error .malformed
  | some text =>
    if tag = .timestamp ∧ (entriesOf? nodes id).isSome then .error (.foreign .dateNotText)
    else tag.valueOf text

def setValue (b : Builder) (id : Nat) (value : Value) : Builder :=
  { b with values := b.values.modify id fun _ => some value }

/-- Make the value of a node, unless it is there. A collection is left to be filled. -/
def make (b : Builder) (id : Nat) : Except Error Builder :=
  match b.values[id]?, b.nodes[id]? with
  | some none, some node =>
    if node.tag.isCollection then
      .ok { b.setValue id .other with pending := b.pending ++ [id] }
    else
      (scalarValue b.nodes node.tag id).map (b.setValue id)
  | _, _ => .ok b

def makeEntry (b : Builder) (entry : Nat × Nat) : Except Error Builder := do
  let b ← b.make entry.1
  b.make entry.2

/-- Make the parts of an entry of a mapping, whose key must be no collection. -/
def makeKeyed (b : Builder) (entry : Nat × Nat) : Except Error Builder := do
  let b ← b.make entry.1
  if b.nodes[entry.1]?.any (·.tag.isCollection) then .error .malformed else b.make entry.2

/-- Make the parts of a pair, which is a mapping of one entry. -/
def makePair (b : Builder) (id : Nat) : Except Error Builder :=
  match entriesOf? b.nodes id with
  | some [entry] => b.makeEntry entry
  | _ => .error .malformed

/-- Make the parts of a mapping, and give its entries. -/
def makeMapping (b : Builder) (id : Nat) : Except Error (List (Nat × Nat) × Builder) := do
  let nodes ← flatten (b.nodes.size + 1) b.nodes id
  let entries := (entriesOf? nodes id).getD []
  let b ← entries.foldlM makeKeyed { b with nodes }
  return (entries, b)

/-- Make the parts of a collection. A list of pairs is told apart only from one without any. -/
def fill (b : Builder) (id : Nat) : Except Error Builder :=
  match b.nodes[id]? with
  | none => .ok b
  | some node =>
    match node.tag, node.content with
    | .sequence, .sequence items => do
      let b ← items.foldlM make b
      return b.setValue id (.list items)
    | .mapping, _ => do
      let (entries, b) ← b.makeMapping id
      return b.setValue id (.mapping entries)
    | .set, _ => do
      let (_, b) ← b.makeMapping id
      return b
    | .omap, .sequence items | .pairs, .sequence items => do
      let b ← items.foldlM makePair b
      return if items.isEmpty then b.setValue id (.list []) else b
    | _, _ => .error .malformed

/-- Fill collections until none is left. -/
def run : Nat → Builder → Except Error Builder
  | 0, b => .ok b
  | fuel + 1, b =>
    match b.pending with
    | [] => .ok b
    | id :: rest => do
      let b ← { b with pending := rest }.fill id
      run fuel b

end Builder

/-- The values of the nodes of a document. Each node is filled at most once. -/
def Document.ofNodes (root : Nat) (nodes : Array Node) : Except Error Document := do
  let b : Builder := { nodes, values := Array.replicate nodes.size none }
  let b ← b.make root
  let b ← Builder.run (nodes.size + 1) b
  return { values := b.values.map (·.getD .other), root }

/-- The values of a text. An empty text stands for nothing. -/
def load (text : List Char) : Except Error Document := do
  match ← compose (tokens text) with
  | none => return { values := #[.null], root := 0 }
  | some (root, nodes) => Document.ofNodes root nodes

end Yaml

end ImportCycles
