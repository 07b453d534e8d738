import HartBoot.Yaml.Event
import HartBoot.Yaml.Lexer

/-!
Contract: the events of a text, in order.

Owns:
- what may come next inside each kind of collection, and the events that the tokens amount to;
- `Yaml.Reading`, the events that a text gives before its first fault, and `Yaml.read`.

Every reading ends with a fault or with the end of the stream. An anchor may be used until the end
of the stream, a tag handle until the end of its document.

Does not own: what the events mean (see `HartBoot.Config.Machine`).
-/

namespace HartBoot.Yaml

/-- What is expected next. -/
inductive Expectation where
  | stream
  /-- A document, with or without `---`. -/
  | document
  /-- A document that starts with `---`. -/
  | markedDocument
  | documentContent
  | documentEnd
  | node
  | mappingFirstKey
  | mappingKey
  | mappingValue
  | sequenceFirstEntry
  | sequenceEntry
  /-- An entry of a sequence that is not indented more than its key. -/
  | levelSequenceEntry
  | flowSequenceFirstEntry
  | flowSequenceEntry
  /-- The key of a mapping without braces inside brackets. -/
  | bareMappingKey
  | bareMappingValue
  | bareMappingEnd
  | flowMappingFirstKey
  | flowMappingKey
  | flowMappingValue
  /-- The value of a key without `:`. -/
  | flowMappingNoValue
  | nothing
  deriving DecidableEq, Repr

/-- How far the tokens have been turned into events. -/
structure Stream where
  deliveries : List Delivery
  /-- What is wrong behind the last token. -/
  fault : Fault
  /-- How far the text has been read. -/
  reached : Mark
  expected : Expectation
  /-- What is expected behind the collections that are open, the innermost first. -/
  pending : List Expectation
  anchors : List String
  handles : List String

/-- A part of the work of turning tokens into events. -/
abbrev Parsing := StateT Stream (Except Fault)

namespace Parsing

def failAt {α : Type} (mark : Mark) (cause : Fault.Cause) : Parsing α :=
  throw ⟨cause, mark.line, mark.column⟩

def eventAt (mark : Mark) (kind : Event.Kind) : Event :=
  ⟨kind, mark.line, mark.column⟩

def emptyAt (mark : Mark) : Event :=
  eventAt mark (.scalar "")

def peek : Parsing Token := do
  let stream ← get
  match stream.deliveries with
  | delivery :: _ => do
    set { stream with reached := delivery.reached }
    return delivery.token
  | [] => throw stream.fault

def skip : Parsing Unit :=
  modify fun stream => { stream with deliveries := stream.deliveries.drop 1 }

/-- Pass the next token and look at the one behind it. -/
def advance : Parsing Token := do
  skip
  peek

def expect (expected : Expectation) : Parsing Unit :=
  modify fun stream => { stream with expected := expected }

def later (expected : Expectation) : Parsing Unit :=
  modify fun stream => { stream with pending := expected :: stream.pending }

/-- Expect what was to come behind the innermost collection. -/
def leave : Parsing Unit :=
  modify fun stream =>
    match stream.pending with
    | expected :: rest => { stream with expected := expected, pending := rest }
    | [] => { stream with expected := .nothing }

/-! ## Nodes -/

def declareAnchor (name : String) : Parsing Unit :=
  modify fun stream => { stream with anchors := name :: stream.anchors }

def checkTag (mark : Mark) (handle : String) : Parsing Unit := do
  if Lexing.isClosedHandle handle && handle != "!!" && !(← get).handles.contains handle then
    failAt mark .undeclaredTag

/-- Pass the anchor and the tag in front of a node, in either order. The answer says whether
there was one. -/
def properties : Parsing Bool := do
  let token ← peek
  match token.kind with
  | .anchor name => do
    declareAnchor name
    let following ← advance
    match following.kind with
    | .tag handle _ => do
      checkTag token.mark handle
      skip
      return true
    | _ => return true
  | .tag handle _ => do
    checkTag token.mark handle
    let following ← advance
    match following.kind with
    | .anchor name => do
      declareAnchor name
      skip
      return true
    | _ => return true
  | _ => return false

/-- The event at the start of a node. Block collections may start where `block` says so, a
sequence that is not indented more than its key where `level` says so. -/
def node (block level : Bool) : Parsing Event := do
  let token ← peek
  match token.kind with
  | .alias name => do
    leave
    skip
    if (← get).anchors.contains name then
      return eventAt token.mark .alias
    else
      failAt token.mark .unknownAlias
  | _ => do
    let hasProperties ← properties
    let token ← peek
    match token.kind, block, level with
    | .blockEntry, _, true => do
      expect .levelSequenceEntry
      return eventAt token.mark .sequenceStart
    | .scalar text, _, _ => do
      leave
      skip
      return eventAt token.mark (.scalar text)
    | .flowSequenceStart, _, _ => do
      expect .flowSequenceFirstEntry
      return eventAt token.mark .sequenceStart
    | .flowMappingStart, _, _ => do
      expect .flowMappingFirstKey
      return eventAt token.mark .mappingStart
    | .blockSequenceStart, true, _ => do
      expect .sequenceFirstEntry
      return eventAt token.mark .sequenceStart
    | .blockMappingStart, true, _ => do
      expect .mappingFirstKey
      return eventAt token.mark .mappingStart
    | _, _, _ =>
      if hasProperties then do
        leave
        return emptyAt token.mark
      else
        failAt token.mark .unexpectedToken

def nodeThen (following : Expectation) (block level : Bool) : Parsing Event := do
  later following
  node block level

def emptyThen (following : Expectation) (mark : Mark) : Parsing Event := do
  expect following
  return emptyAt mark

/-- The end of the innermost collection, which has a token of its own. -/
def endCollection (mark : Mark) (kind : Event.Kind) : Parsing Event := do
  leave
  skip
  return eventAt mark kind

/-! ## Documents -/

/-- Pass the directives in front of a document. Only the handle of the last one stays declared. -/
def directives : Nat → Bool → Parsing Unit
  | 0, _ => pure ()
  | budget + 1, versioned => do
    let token ← peek
    match token.kind with
    | .versionDirective =>
      if versioned then
        failAt token.mark .repeatedVersion
      else do
        modify fun stream => { stream with handles := [] }
        skip
        directives budget true
    | .tagDirective handle => do
      modify fun stream => { stream with handles := [handle] }
      skip
      directives budget versioned
    | _ => pure ()

def documentEnds : Nat → Parsing Unit
  | 0 => pure ()
  | budget + 1 => do
    let token ← peek
    if token.kind = .documentEnd then
      skip
      documentEnds budget

/-- More than the number of tokens that are left. -/
def budget : Parsing Nat := do
  return (← get).deliveries.length + 1

/-- A document that starts with `---`. -/
def markedDocument : Parsing Event := do
  directives (← budget) false
  let token ← peek
  if token.kind = .documentStart then
    later .documentEnd
    expect .documentContent
    skip
    return eventAt token.mark .documentStart
  else
    failAt token.mark .missingDocumentStart

/-- A document, or the end of the stream. `bare` says whether `---` can be missing. -/
def document (bare : Bool) : Parsing Event := do
  documentEnds (← budget)
  let token ← peek
  match token.kind with
  | .streamEnd => do
    expect .nothing
    skip
    return eventAt token.mark .streamEnd
  | .versionDirective => markedDocument
  | .tagDirective _ => markedDocument
  | .documentStart => markedDocument
  | _ =>
    if bare then do
      later .documentEnd
      expect .node
      return eventAt token.mark .documentStart
    else markedDocument

/-- Whether a document without content ends at a token. -/
def endsDocument : Token.Kind → Bool
  | .versionDirective => true
  | .tagDirective _ => true
  | .documentStart => true
  | .documentEnd => true
  | .streamEnd => true
  | _ => false

/-- The content of a document behind `---`. -/
def documentContent : Parsing Event := do
  let token ← peek
  if endsDocument token.kind then
    leave
    return emptyAt token.mark
  else
    node true false

/-- The end of a document. A directive may follow it only behind `...`. -/
def documentEnd : Parsing Event := do
  let token ← peek
  modify fun stream => { stream with handles := [] }
  match token.kind with
  | .documentEnd => do
    skip
    expect .document
    return eventAt token.mark .documentEnd
  | .versionDirective => failAt token.mark .missingDocumentStart
  | .tagDirective _ => failAt token.mark .missingDocumentStart
  | _ => do
    expect .markedDocument
    return eventAt token.mark .documentEnd

/-! ## Block collections -/

/-- A key of a block mapping, or its end. -/
def mappingKey : Parsing Event := do
  let token ← peek
  match token.kind with
  | .key => do
    let following ← advance
    match following.kind with
    | .key => emptyThen .mappingValue following.mark
    | .value => emptyThen .mappingValue following.mark
    | .blockEnd => emptyThen .mappingValue following.mark
    | _ => nodeThen .mappingValue true true
  | .value => emptyThen .mappingValue token.mark
  | .blockEnd => endCollection token.mark .mappingEnd
  | _ => failAt token.mark .unexpectedToken

def mappingValue : Parsing Event := do
  let token ← peek
  match token.kind with
  | .value => do
    let following ← advance
    match following.kind with
    | .key => emptyThen .mappingKey following.mark
    | .value => emptyThen .mappingKey following.mark
    | .blockEnd => emptyThen .mappingKey following.mark
    | _ => nodeThen .mappingKey true true
  | _ => emptyThen .mappingKey token.mark

/-- An entry of a block sequence, or its end. -/
def sequenceEntry : Parsing Event := do
  let token ← peek
  match token.kind with
  | .blockEnd => endCollection token.mark .sequenceEnd
  | .blockEntry => do
    let following ← advance
    match following.kind with
    | .blockEntry => emptyThen .sequenceEntry following.mark
    | .blockEnd => emptyThen .sequenceEntry following.mark
    | _ => nodeThen .sequenceEntry true false
  | _ => failAt token.mark .unexpectedToken

/-- An entry of a sequence that is not indented more than its key, or its end, which has no token
of its own. -/
def levelSequenceEntry : Parsing Event := do
  let token ← peek
  match token.kind with
  | .blockEntry => do
    let following ← advance
    match following.kind with
    | .blockEntry => emptyThen .levelSequenceEntry following.mark
    | .key => emptyThen .levelSequenceEntry following.mark
    | .value => emptyThen .levelSequenceEntry following.mark
    | .blockEnd => emptyThen .levelSequenceEntry following.mark
    | _ => nodeThen .levelSequenceEntry true false
  | _ => do
    leave
    return eventAt token.mark .sequenceEnd

/-! ## Flow collections -/

/-- The entry of a flow sequence behind a bracket or comma, or the end of the sequence. -/
def flowSequenceItem : Parsing Event := do
  let token ← peek
  match token.kind with
  | .flowSequenceEnd => endCollection token.mark .sequenceEnd
  | .key => do
    expect .bareMappingKey
    skip
    return eventAt token.mark .mappingStart
  | _ => nodeThen .flowSequenceEntry false false

def flowSequenceEntry : Parsing Event := do
  let token ← peek
  match token.kind with
  | .flowSequenceEnd => endCollection token.mark .sequenceEnd
  | .flowEntry => do
    skip
    flowSequenceItem
  | _ => failAt token.mark .unexpectedToken

/-- Whether a token ends the key of a mapping without braces before it has begun. -/
def endsBareKey : Token.Kind → Bool
  | .value => true
  | .flowEntry => true
  | .flowSequenceEnd => true
  | _ => false

def bareMappingKey : Parsing Event := do
  let token ← peek
  if endsBareKey token.kind then
    skip
    emptyThen .bareMappingValue token.mark
  else
    nodeThen .bareMappingValue false false

def bareMappingValue : Parsing Event := do
  let token ← peek
  match token.kind with
  | .value => do
    let following ← advance
    match following.kind with
    | .flowEntry => emptyThen .bareMappingEnd following.mark
    | .flowSequenceEnd => emptyThen .bareMappingEnd following.mark
    | _ => nodeThen .bareMappingEnd false false
  | _ => emptyThen .bareMappingEnd token.mark

/-- The end of a mapping without braces. It has no token, so it is told at the place up to which
the text has been read. -/
def bareMappingEnd : Parsing Event := do
  expect .flowSequenceEntry
  return eventAt (← get).reached .mappingEnd

/-- The key of a flow mapping behind a brace or comma, or the end of the mapping. `mark` is where
that end is told. -/
def flowMappingItem (mark : Mark) : Parsing Event := do
  let token ← peek
  match token.kind with
  | .key => do
    let following ← advance
    match following.kind with
    | .value => emptyThen .flowMappingValue following.mark
    | .flowEntry => emptyThen .flowMappingValue following.mark
    | .flowMappingEnd => emptyThen .flowMappingValue following.mark
    | _ => nodeThen .flowMappingValue false false
  | .value => emptyThen .flowMappingValue token.mark
  | .flowMappingEnd => endCollection mark .mappingEnd
  | _ => nodeThen .flowMappingNoValue false false

def flowMappingFirstKey : Parsing Event := do
  let _ ← peek
  let token ← advance
  flowMappingItem token.mark

def flowMappingKey : Parsing Event := do
  let token ← peek
  match token.kind with
  | .flowMappingEnd => endCollection token.mark .mappingEnd
  | .flowEntry => do
    skip
    flowMappingItem token.mark
  | _ => failAt token.mark .unexpectedToken

def flowMappingValue : Parsing Event := do
  let token ← peek
  match token.kind with
  | .value => do
    let following ← advance
    match following.kind with
    | .flowEntry => emptyThen .flowMappingKey token.mark
    | .flowMappingEnd => emptyThen .flowMappingKey token.mark
    | _ => nodeThen .flowMappingKey false false
  | _ => emptyThen .flowMappingKey token.mark

/-- The missing value of a key without `:`. -/
def flowMappingNoValue : Parsing Event := do
  let token ← peek
  emptyThen .flowMappingKey token.mark

/-- Pass the token at the start of a collection. -/
def enter (first : Parsing Event) : Parsing Event := do
  let _ ← peek
  skip
  first

/-! ## Streams -/

def streamStart : Parsing Event := do
  let token ← peek
  if token.kind = .streamStart then
    expect .document
    skip
    return eventAt token.mark .streamStart
  else
    failAt token.mark .unexpectedToken

def event : Parsing Event := do
  match (← get).expected with
  | .stream => streamStart
  | .document => document true
  | .markedDocument => document false
  | .documentContent => documentContent
  | .documentEnd => documentEnd
  | .node => node true false
  | .mappingFirstKey => enter mappingKey
  | .mappingKey => mappingKey
  | .mappingValue => mappingValue
  | .sequenceFirstEntry => enter sequenceEntry
  | .sequenceEntry => sequenceEntry
  | .levelSequenceEntry => levelSequenceEntry
  | .flowSequenceFirstEntry => enter flowSequenceItem
  | .flowSequenceEntry => flowSequenceEntry
  | .bareMappingKey => bareMappingKey
  | .bareMappingValue => bareMappingValue
  | .bareMappingEnd => bareMappingEnd
  | .flowMappingFirstKey => flowMappingFirstKey
  | .flowMappingKey => flowMappingKey
  | .flowMappingValue => flowMappingValue
  | .flowMappingNoValue => flowMappingNoValue
  | .nothing => failAt (← get).reached .unexpectedToken

end Parsing

/-- The events that a text gives, and the fault that stops them if there is one. -/
structure Reading where
  events : List Event
  fault : Option Fault
  deriving DecidableEq, Repr

/-- The fault of a text that cannot be read to its end. -/
def Fault.endless (mark : Mark) : Fault :=
  ⟨.tooLong, mark.line, mark.column⟩

/-- The events of the tokens that are left, up to the end of the stream. -/
def Stream.readAll : Nat → Stream → Reading
  | 0, stream => ⟨[], some (Fault.endless stream.reached)⟩
  | budget + 1, stream =>
    match Parsing.event.run stream with
    | .error fault => ⟨[], some fault⟩
    | .ok (event, stream) =>
      if event.kind = .streamEnd then ⟨[event], none⟩
      else
        let reading := readAll budget stream
        { reading with events := event :: reading.events }

/-- The stream in front of the tokens of a text. -/
def Stream.ofScan (scan : Scan) : Stream where
  deliveries := scan.deliveries
  fault := scan.fault.getD (Fault.endless Mark.first)
  reached := Mark.first
  expected := .stream
  pending := []
  anchors := []
  handles := []

/-- The events of a text. No token gives more than a few. -/
def read (text : String) : Reading :=
  let scan := scan text
  (Stream.ofScan scan).readAll (8 * (scan.deliveries.length + 1))

/-- Every reading without a fault ends with the end of the stream. -/
theorem Stream.readAll_last
    {budget : Nat}
    {stream : Stream}
    (faultless : (stream.readAll budget).fault = none) :
    ∃ before last, (stream.readAll budget).events = before ++ [last] ∧
      last.kind = .streamEnd := by
  induction budget generalizing stream with
  | zero => simp [Stream.readAll] at faultless
  | succ budget inductionHypothesis =>
    unfold Stream.readAll at faultless ⊢
    split at faultless
    · simp at faultless
    · next event stream produced =>
      split at faultless
      · next ended => simpa [ended] using ⟨[], event, by simp, ended⟩
      · next continued =>
        obtain ⟨before, last, same, ended⟩ := inductionHypothesis faultless
        refine ⟨event :: before, last, ?_, ended⟩
        simp [continued, same]

end HartBoot.Yaml
