import ImportCycles.CommandLine.Word

namespace ImportCycles

namespace CommandLine

/-- A switch, or a word that is none, with the operands up to the next one. -/
structure Segment where
  word : Word
  operands : List Operand
  deriving Repr, DecidableEq

/-- The operands at the front, and the segments. -/
def segments : List Word → List Operand × List Segment
  | [] => ([], [])
  | word :: rest =>
    let (operands, more) := segments rest
    match word with
    | .operand operand => (operand :: operands, more)
    | word => ([], { word, operands } :: more)

/-- What has been read so far. Operands that belong nowhere are an error, but only in the end. -/
structure Progress where
  arguments : Arguments := {}
  rootsTaken : Bool := false
  leftover : Bool := false
  deriving Repr, DecidableEq

def texts (operands : List Operand) : List String :=
  operands.filterMap fun
    | .text text => some text
    | .separator => none

/-- Take operands as roots, if there are any. -/
def Progress.takeRoots (p : Progress) (operands : List Operand) : Progress :=
  if operands.isEmpty then p
  else if p.rootsTaken then { p with leftover := true }
  else { p with arguments := { p.arguments with roots := texts operands }, rootsTaken := true }

/-- Carry out a switch with its values. Being verbose and being quiet exclude each other. -/
def Switch.apply (switch : Switch) (values : List String) (a : Arguments) : Except Exit Arguments :=
  match switch, values with
  | .help, _ => .error .help
  | .file, [value] => .ok { a with file := some value }
  | .config, [value] => .ok { a with config := some value }
  | .output, [value] => .ok { a with output := some value }
  | .format, [value] =>
    match Format.ofKeyword? value with
    | some form => .ok { a with format := form }
    | none => .error .usage
  | .orientation, [value] =>
    if orientations.contains value then .ok { a with orientation := value } else .error .usage
  | .fullGraph, _ => .ok { a with fullGraph := true }
  | .includeExt, values => .ok { a with includeExt := some values }
  | .excludeDir, values => .ok { a with excludeDir := some values }
  | .maxDepth, [value] =>
    match Text.readInt? value with
    | some n => .ok { a with maxDepth := some n }
    | none => .error .usage
  | .jobs, [value] =>
    match Text.readInt? value with
    | some n => .ok { a with jobs := some n }
    | none => .error .usage
  | .strict, _ => .ok { a with strict := true }
  | .failOnCycles, _ => .ok { a with failOnCycles := true }
  | .verbose, _ => if a.quiet then .error .usage else .ok { a with verbose := true }
  | .quiet, _ => if a.verbose then .error .usage else .ok { a with quiet := true }
  | _, _ => .error .usage

/-- The texts that operands start with, and the operands after them. -/
def leadingTexts : List Operand → List String × List Operand
  | .text text :: rest =>
    let (texts, rest) := leadingTexts rest
    (text :: texts, rest)
  | rest => ([], rest)

/-- The values that a switch takes from the operands after it, and the operands left. -/
def Switch.supply (switch : Switch) (operands : List Operand) :
    Except Exit (List String × List Operand) :=
  match switch.arity with
  | .none => .ok ([], operands)
  | .one =>
    match operands with
    | .text text :: rest => .ok ([text], rest)
    | _ => .error .usage
  | .many =>
    match leadingTexts operands with
    | ([], _) => .error .usage
    | taken => .ok taken

/-- How a bundle of short switches ends: with nothing more to do, with a switch that takes its
    values from the operands, or with a letter that is no switch. -/
inductive BundleEnd where
  | closed
  | wants (switch : Switch)
  | strange
  deriving Repr, DecidableEq

/-- The switches of one word with the values attached to them. -/
structure Bundle where
  ready : List (Switch × List String)
  last : BundleEnd
  deriving Repr, DecidableEq

/-- Open a word with an attached text. A switch that takes values takes the text; a short switch
    that takes none is followed by the next letter; nothing else may have a text attached. -/
def openBundle (switch : Switch) (short afterEquals : Bool) (attached : List Char) :
    Except Exit Bundle :=
  if switch.arity ≠ .none then
    .ok { ready := [(switch, [String.ofList attached])], last := .closed }
  else if !short || afterEquals then
    .error .usage
  else
    match attached with
    | [] => .error .usage
    | letter :: rest =>
      if letter = '-' then
        .error .usage
      else
        match Switch.ofShort? letter with
        | none => .ok { ready := [(switch, [])], last := .strange }
        | some next =>
          let withThis := fun (b : Bundle) => { b with ready := (switch, []) :: b.ready }
          match rest with
          | [] => .ok { ready := [(switch, [])], last := .wants next }
          | c :: value =>
            if c = '=' then (openBundle next true true value).map withThis
            else (openBundle next true false (c :: value)).map withThis

/-- Carry out switches whose values are known. -/
def applyAll (ready : List (Switch × List String)) (a : Arguments) : Except Exit Arguments :=
  ready.foldlM (fun a (switch, values) => switch.apply values a) a

/-- The bundle of a switch word. -/
def bundleOf (switch : Switch) (short : Bool) : Option Attached → Except Exit Bundle
  | none => .ok { ready := [], last := .wants switch }
  | some attached => openBundle switch short attached.afterEquals attached.value

def Progress.readSegment (p : Progress) (s : Segment) : Except Exit Progress :=
  match s.word with
  | .operand _ => .ok p
  | .unknown => .ok ({ p with leftover := true }.takeRoots s.operands)
  | .switch switch short attached => do
    let bundle ← bundleOf switch short attached
    match bundle.last with
    | .closed =>
      let arguments ← applyAll bundle.ready p.arguments
      return { p with arguments }.takeRoots s.operands
    | .strange =>
      let arguments ← applyAll bundle.ready p.arguments
      return { p with arguments, leftover := true }.takeRoots s.operands
    | .wants last =>
      let (values, rest) ← last.supply s.operands
      let arguments ← applyAll (bundle.ready ++ [(last, values)]) p.arguments
      return { p with arguments }.takeRoots rest

/-- Read the words of a command line. The first operands that no switch takes are the roots, and
    there may be no second group of them. -/
def parse (args : List String) : Except Exit Arguments := do
  let words ← readWords args
  let (operands, segments) := segments words
  let progress ← segments.foldlM Progress.readSegment (({} : Progress).takeRoots operands)
  if progress.leftover then
    .error .usage
  else
    return progress.arguments

end CommandLine

end ImportCycles
