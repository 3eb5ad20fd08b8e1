import ImportCycles.Yaml.Tag
import ImportCycles.Yaml.Token

namespace ImportCycles

namespace Yaml

/-- What a node holds. Nodes refer to each other by number: an alias stands for the node with its
    anchor, which may be one that the alias is in. -/
inductive Content where
  | scalar (text : String)
  | sequence (items : List Nat)
  | mapping (entries : List (Nat × Nat))
  deriving Repr, DecidableEq

structure Node where
  tag : Tag
  content : Content
  deriving Repr, DecidableEq

/-- A document that is being read. -/
structure Reader where
  tokens : List Token
  nodes : Array Node := #[]
  anchors : List (String × Nat) := []
  handles : List (String × String) := []
  deriving Repr

/-- The handles that need no explanation. -/
def defaultHandles : List (String × String) :=
  [("!", "!"), ("!!", commonTypes)]

/-- The properties in front of a node. -/
structure Properties where
  anchor : Option String := none
  tag : Option (Option String × String) := none
  deriving Repr, DecidableEq

namespace Reader

/-- What a reading step gives: a result and the document read so far. -/
abbrev Step (α : Type) := α × Reader

/-- The next token is not the one expected. -/
def unexpected {α : Type} (r : Reader) : Except Error α :=
  match r.tokens with
  | .broken error :: _ => .error error
  | _ => .error .malformed

def add (r : Reader) (node : Node) : Nat × Reader :=
  (r.nodes.size, { r with nodes := r.nodes.push node })

/-- Add an empty plain scalar, which stands for nothing. -/
def addEmpty (r : Reader) : Nat × Reader :=
  r.add { tag := .null, content := .scalar "" }

/-- Give a node an anchor, if there is one. -/
def setAnchor (r : Reader) (anchor : Option String) (id : Nat) : Reader :=
  match anchor with
  | none => r
  | some name => { r with anchors := (name, id) :: r.anchors }

def setContent (r : Reader) (id : Nat) (content : Content) : Reader :=
  { r with nodes := r.nodes.modify id fun node => { node with content } }

/-- The properties at the start of some tokens: an anchor and a tag in either order. -/
def properties : List Token → Properties × List Token
  | .anchor name :: .tag handle suffix :: rest =>
    ({ anchor := some name, tag := some (handle, suffix) }, rest)
  | .anchor name :: rest => ({ anchor := some name }, rest)
  | .tag handle suffix :: .anchor name :: rest =>
    ({ anchor := some name, tag := some (handle, suffix) }, rest)
  | .tag handle suffix :: rest => ({ tag := some (handle, suffix) }, rest)
  | tokens => ({}, tokens)

/-- The name of the type that a tag gives, if it gives one. -/
def typeName (r : Reader) (tag : Option (Option String × String)) : Except Error (Option String) :=
  match tag with
  | none => .ok none
  | some (none, suffix) => .ok (some suffix)
  | some (some handle, suffix) =>
    match r.handles.lookup handle with
    | none => .error .malformed
    | some meaning => .ok (some (meaning ++ suffix))

/-- The type of a scalar: the one given, or by its form if it is plain or marked by a lone
    exclamation mark, or text. -/
def scalarTag (name : Option String) (plain : Bool) (text : String) : Tag :=
  match name with
  | none => if plain then Tag.ofPlain text.toList else .text
  | some name => if name = "!" then Tag.ofPlain text.toList else Tag.ofName name

/-- The type of a collection: the one given, or that of its kind. -/
def collectionTag (name : Option String) (usual : Tag) : Tag :=
  match name with
  | none => usual
  | some name => if name = "!" then usual else Tag.ofName name

/-- Add a node that will be filled later, with its anchor. -/
def reserve (r : Reader) (anchor : Option String) (tag : Tag) (content : Content) : Nat × Reader :=
  let (id, r) := r.add { tag, content }
  (id, r.setAnchor anchor id)

mutual

/-- A node. `block` says whether a block may start here, `inline` whether the entries of a sequence
    may stand here without being indented. -/
def node : Nat → (block inline : Bool) → Reader → Except Error (Step Nat)
  | 0, _, _, _ => .error .malformed
  | fuel + 1, block, inline, r =>
    match r.tokens with
    | .alias name :: rest =>
      match r.anchors.lookup name with
      | none => .error .malformed
      | some id => .ok (id, { r with tokens := rest })
    | tokens => do
      let (properties, rest) := properties tokens
      let r := { r with tokens := rest }
      let name ← r.typeName properties.tag
      if properties.anchor.any fun anchor => (r.anchors.lookup anchor).isSome then
        .error .malformed
      else
        content fuel block inline properties.anchor name r

/-- What a node holds, after its properties. -/
def content : Nat → (block inline : Bool) → (anchor name : Option String) → Reader →
    Except Error (Step Nat)
  | 0, _, _, _, _, _ => .error .malformed
  | fuel + 1, block, inline, anchor, name, r =>
    let sequence := fun (r : Reader) (items : Reader → Except Error (Step (List Nat))) => do
      let (id, r) := r.reserve anchor (collectionTag name .sequence) (.sequence [])
      let (ids, r) ← items r
      return (id, r.setContent id (.sequence ids))
    let mapping := fun (r : Reader)
        (entries : Reader → Except Error (Step (List (Nat × Nat)))) => do
      let (id, r) := r.reserve anchor (collectionTag name .mapping) (.mapping [])
      let (ids, r) ← entries r
      return (id, r.setContent id (.mapping ids))
    match r.tokens with
    | .scalar text plain :: rest =>
      .ok ({ r with tokens := rest }.reserve anchor (scalarTag name plain text) (.scalar text))
    | .flowSequenceStart :: rest => sequence { r with tokens := rest } (flowItems fuel true)
    | .flowMappingStart :: rest => mapping { r with tokens := rest } (flowEntries fuel true)
    | .blockEntry :: rest =>
      if inline then sequence { r with tokens := .blockEntry :: rest } (inlineItems fuel)
      else emptyContent anchor name r
    | .blockSequenceStart :: rest =>
      if block then sequence { r with tokens := rest } (blockItems fuel)
      else emptyContent anchor name r
    | .blockMappingStart :: rest =>
      if block then mapping { r with tokens := rest } (blockEntries fuel)
      else emptyContent anchor name r
    | _ => emptyContent anchor name r

/-- A node without content, which must have properties. -/
def emptyContent (anchor name : Option String) (r : Reader) : Except Error (Step Nat) :=
  if anchor.isSome || name.isSome then
    .ok (r.reserve anchor (scalarTag name true "") (.scalar ""))
  else
    r.unexpected

/-- A node of a block, or an empty one if a token that ends it is next. -/
def nodeUnless (ends : Token → Bool) : Nat → (block inline : Bool) → Reader →
    Except Error (Step Nat)
  | 0, _, _, _ => .error .malformed
  | fuel + 1, block, inline, r =>
    if r.tokens.head?.any ends then .ok r.addEmpty else node fuel block inline r

/-- The items of a block sequence, up to its end. -/
def blockItems : Nat → Reader → Except Error (Step (List Nat))
  | 0, _ => .error .malformed
  | fuel + 1, r =>
    match r.tokens with
    | .blockEntry :: rest => do
      let ends := fun token => token == Token.blockEntry || token == .blockEnd
      let (item, r) ← nodeUnless ends fuel true false { r with tokens := rest }
      let (items, r) ← blockItems fuel r
      return (item :: items, r)
    | .blockEnd :: rest => .ok ([], { r with tokens := rest })
    | _ => r.unexpected

/-- The items of a sequence that is not indented inside its mapping. -/
def inlineItems : Nat → Reader → Except Error (Step (List Nat))
  | 0, _ => .error .malformed
  | fuel + 1, r =>
    match r.tokens with
    | .blockEntry :: rest => do
      let ends := fun token =>
        token == Token.blockEntry || token == .key || token == .value || token == .blockEnd
      let (item, r) ← nodeUnless ends fuel true false { r with tokens := rest }
      let (items, r) ← inlineItems fuel r
      return (item :: items, r)
    | _ => .ok ([], r)

/-- The entries of a block mapping, up to its end. -/
def blockEntries : Nat → Reader → Except Error (Step (List (Nat × Nat)))
  | 0, _ => .error .malformed
  | fuel + 1, r =>
    let ends := fun token => token == Token.key || token == .value || token == .blockEnd
    let entry := fun (r : Reader) (key : Reader → Except Error (Step Nat)) => do
      let (key, r) ← key r
      let (value, r) ← match r.tokens with
        | .value :: rest => nodeUnless ends fuel true true { r with tokens := rest }
        | _ => pure r.addEmpty
      let (entries, r) ← blockEntries fuel r
      return ((key, value) :: entries, r)
    match r.tokens with
    | .key :: rest => entry { r with tokens := rest } (nodeUnless ends fuel true true)
    | .blockEnd :: rest => .ok ([], { r with tokens := rest })
    | _ => r.unexpected

/-- The items of a sequence in brackets, up to the closing one. A key among them makes a mapping of
    one entry. -/
def flowItems : Nat → (first : Bool) → Reader → Except Error (Step (List Nat))
  | 0, _, _ => .error .malformed
  | fuel + 1, first, r =>
    match r.tokens with
    | .flowSequenceEnd :: rest => .ok ([], { r with tokens := rest })
    | tokens => do
      let r ← match first, tokens with
        | true, _ => pure r
        | false, .flowEntry :: rest => pure { r with tokens := rest }
        | false, _ => r.unexpected
      match r.tokens with
      | .flowSequenceEnd :: rest => return ([], { r with tokens := rest })
      | .key :: rest =>
        let (item, r) ← flowPair fuel { r with tokens := rest }
        let (items, r) ← flowItems fuel false r
        return (item :: items, r)
      | _ =>
        let (item, r) ← node fuel false false r
        let (items, r) ← flowItems fuel false r
        return (item :: items, r)

/-- A mapping of one entry among the items of a sequence, from after the mark of its key. -/
def flowPair : Nat → Reader → Except Error (Step Nat)
  | 0, _ => .error .malformed
  | fuel + 1, r => do
    let (id, r) := r.add { tag := .mapping, content := .mapping [] }
    let endsKey := fun token =>
      token == Token.value || token == .flowEntry || token == .flowSequenceEnd
    let endsValue := fun token => token == Token.flowEntry || token == .flowSequenceEnd
    let (key, r) ← nodeUnless endsKey fuel false false r
    let (value, r) ← match r.tokens with
      | .value :: rest => nodeUnless endsValue fuel false false { r with tokens := rest }
      | _ => pure r.addEmpty
    return (id, r.setContent id (.mapping [(key, value)]))

/-- The entries of a mapping in braces, up to the closing one. -/
def flowEntries : Nat → (first : Bool) → Reader → Except Error (Step (List (Nat × Nat)))
  | 0, _, _ => .error .malformed
  | fuel + 1, first, r =>
    match r.tokens with
    | .flowMappingEnd :: rest => .ok ([], { r with tokens := rest })
    | tokens => do
      let r ← match first, tokens with
        | true, _ => pure r
        | false, .flowEntry :: rest => pure { r with tokens := rest }
        | false, _ => r.unexpected
      let endsKey := fun token =>
        token == Token.value || token == .flowEntry || token == .flowMappingEnd
      let endsValue := fun token => token == Token.flowEntry || token == .flowMappingEnd
      match r.tokens with
      | .flowMappingEnd :: rest => return ([], { r with tokens := rest })
      | .key :: rest =>
        let (key, r) ← nodeUnless endsKey fuel false false { r with tokens := rest }
        let (value, r) ← match r.tokens with
          | .value :: rest => nodeUnless endsValue fuel false false { r with tokens := rest }
          | _ => pure r.addEmpty
        let (entries, r) ← flowEntries fuel false r
        return ((key, value) :: entries, r)
      | _ =>
        let (key, r) ← node fuel false false r
        let (value, r) := r.addEmpty
        let (entries, r) ← flowEntries fuel false r
        return ((key, value) :: entries, r)

end

/-- Read the directives in front of a document. A version is given once and must be the first major
    one; a handle is explained once. -/
def directives (versioned : Bool) (handles : List (String × String)) :
    List Token → Except Error (List (String × String) × List Token)
  | .directive directive :: rest =>
    match directive with
    | .version major =>
      if versioned || major != 1 then .error .malformed else directives true handles rest
    | .handle handle meaning =>
      if (handles.lookup handle).isSome then .error .malformed
      else directives versioned ((handle, meaning) :: handles) rest
    | .other => directives versioned handles rest
  | tokens => .ok (handles, tokens)

/-- The content of a document after its start mark, which may be missing. -/
def documentContent (r : Reader) : Except Error (Step Nat) :=
  match r.tokens with
  | .directive _ :: _ => .ok r.addEmpty
  | .documentStart :: _ => .ok r.addEmpty
  | .documentEnd :: _ => .ok r.addEmpty
  | .streamEnd :: _ => .ok r.addEmpty
  | tokens => node (4 * tokens.length + 8) true false r

/-- A document with its directives, or without any marks. -/
def document (r : Reader) : Except Error (Step Nat) :=
  let explicit := match r.tokens with
    | .directive _ :: _ => true
    | .documentStart :: _ => true
    | _ => false
  if explicit then do
    let (handles, tokens) ← directives false [] r.tokens
    match tokens with
    | .documentStart :: rest =>
      documentContent { r with tokens := rest, handles := handles ++ defaultHandles }
    | _ => unexpected { r with tokens }
  else
    node (4 * r.tokens.length + 8) true false { r with handles := defaultHandles }

end Reader

/-- The nodes of the only document of a text, and the number of its root. An empty text has no
    document, and more than one is an error. -/
def compose (tokens : List Token) : Except Error (Option (Nat × Array Node)) :=
  match tokens with
  | [.streamEnd] => .ok none
  | tokens => do
    let (root, r) ← Reader.document { tokens }
    match r.tokens.dropWhile (· == .documentEnd) with
    | [.streamEnd] => return some (root, r.nodes)
    | rest => Reader.unexpected { r with tokens := rest }

end Yaml

end ImportCycles
