import HartBoot.Yaml.Stream

/-!
Contract: what can be said of the work that turns tokens into events without running it.

Owns:
- the ways in which a part of the work changes a stream: `Stream.passed`, `Stream.behind`,
  `Stream.noting`, `Stream.expecting` and `Stream.awaiting`;
- `Parsing.Ensures`, what holds behind a part of the work if it does not fail, with one equivalence
  for each way to build such a part.

Does not own: any particular event.
-/

namespace HartBoot.Yaml

/-! ## Changes of a stream -/

namespace Stream

/-- The stream behind its next token. -/
def passed (stream : Stream) : Stream :=
  { stream with deliveries := stream.deliveries.drop 1 }

/-- The stream behind the innermost collection. -/
def behind (stream : Stream) : Stream :=
  match stream.pending with
  | expected :: rest => { stream with expected := expected, pending := rest }
  | [] => { stream with expected := .nothing }

/-- The stream with other notes on how far the text was read and on the names that it declares. -/
def noting (stream : Stream) (reached : Mark) (anchors handles : List String) : Stream :=
  { stream with reached := reached, anchors := anchors, handles := handles }

def expecting (stream : Stream) (expected : Expectation) : Stream :=
  { stream with expected := expected }

def awaiting (stream : Stream) (expected : Expectation) : Stream :=
  { stream with pending := expected :: stream.pending }

theorem passed_behind (stream : Stream) : stream.behind.passed = stream.passed.behind := by
  unfold behind passed
  cases stream.pending <;> rfl

end Stream

namespace Parsing

variable {α β : Type} {stream : Stream}

/-- What holds of the answer of some work and of the stream behind it, unless the work fails. -/
def Ensures (action : Parsing α) (stream : Stream) (post : α → Stream → Prop) : Prop :=
  ∀ answer after, action.run stream = .ok (answer, after) → post answer after

theorem Ensures.mono
    {action : Parsing α}
    {first second : α → Stream → Prop}
    (ensured : action.Ensures stream first)
    (implied : ∀ answer after, first answer after → second answer after) :
    action.Ensures stream second :=
  fun answer after reached => implied answer after (ensured answer after reached)

section Ensures

variable {post : α → Stream → Prop}

@[simp] theorem ensures_pure {answer : α} :
    (pure answer : Parsing α).Ensures stream post ↔ post answer stream := by
  constructor
  · exact fun ensured => ensured answer stream rfl
  · rintro holds other after ⟨⟩
    exact holds

@[simp] theorem ensures_bind {first : Parsing β} {next : β → Parsing α} :
    (first >>= next).Ensures stream post ↔
      first.Ensures stream fun answer after => (next answer).Ensures after post := by
  have unfolded : (first >>= next).run stream =
      first.run stream >>= fun reached => (next reached.1).run reached.2 := rfl
  unfold Ensures
  rw [unfolded]
  cases first.run stream with
  | error fault => simp [bind, Except.bind]
  | ok reached =>
    rcases reached with ⟨answer, after⟩
    simp [bind, Except.bind]

@[simp] theorem ensures_ite {condition : Prop} [Decidable condition] {yes no : Parsing α} :
    (if condition then yes else no).Ensures stream post ↔
      (condition → yes.Ensures stream post) ∧ (¬ condition → no.Ensures stream post) := by
  split <;> simp [*]

@[simp] theorem ensures_failAt {mark : Mark} {cause : Fault.Cause} :
    (failAt mark cause : Parsing α).Ensures stream post := by
  rintro answer after ⟨⟩

end Ensures

/-! ## Tokens -/

@[simp] theorem ensures_get {post : Stream → Stream → Prop} :
    (get : Parsing Stream).Ensures stream post ↔ post stream stream :=
  ensures_pure

theorem ensures_modify {update : Stream → Stream} {post : PUnit → Stream → Prop} :
    (modify update : Parsing PUnit).Ensures stream post ↔ post ⟨⟩ (update stream) := by
  constructor
  · exact fun ensured => ensured ⟨⟩ (update stream) rfl
  · rintro holds other after ⟨⟩
    exact holds

@[simp] theorem ensures_peek {post : Token → Stream → Prop} :
    peek.Ensures stream post ↔
      ∀ delivery rest, stream.deliveries = delivery :: rest →
        post delivery.token (stream.noting delivery.reached stream.anchors stream.handles) := by
  rcases stream with ⟨deliveries, fault, reached, expected, pending, anchors, handles⟩
  cases deliveries with
  | nil =>
    constructor
    · rintro - delivery rest ⟨⟩
    · rintro - answer after ⟨⟩
  | cons delivery rest =>
    constructor
    · rintro ensured _ _ ⟨⟩
      exact ensured delivery.token _ rfl
    · rintro holds _ _ ⟨⟩
      exact holds delivery rest rfl

@[simp] theorem ensures_skip {post : Unit → Stream → Prop} :
    skip.Ensures stream post ↔ post () stream.passed :=
  ensures_modify

@[simp] theorem ensures_advance {post : Token → Stream → Prop} :
    advance.Ensures stream post ↔
      ∀ delivery rest, stream.passed.deliveries = delivery :: rest →
        post delivery.token
          (stream.passed.noting delivery.reached stream.anchors stream.handles) := by
  unfold advance
  rw [ensures_bind, ensures_skip, ensures_peek]
  exact Iff.rfl

@[simp] theorem ensures_budget {post : Nat → Stream → Prop} :
    budget.Ensures stream post ↔ post (stream.deliveries.length + 1) stream := by
  unfold budget
  rw [ensures_bind, ensures_get, ensures_pure]

/-! ## Expectations and names -/

@[simp] theorem ensures_expect {expected : Expectation} {post : Unit → Stream → Prop} :
    (expect expected).Ensures stream post ↔ post () (stream.expecting expected) :=
  ensures_modify

@[simp] theorem ensures_later {expected : Expectation} {post : Unit → Stream → Prop} :
    (later expected).Ensures stream post ↔ post () (stream.awaiting expected) :=
  ensures_modify

@[simp] theorem ensures_leave {post : Unit → Stream → Prop} :
    leave.Ensures stream post ↔ post () stream.behind :=
  ensures_modify

@[simp] theorem ensures_declareAnchor {name : String} {post : Unit → Stream → Prop} :
    (declareAnchor name).Ensures stream post ↔
      post () (stream.noting stream.reached (name :: stream.anchors) stream.handles) :=
  ensures_modify

@[simp] theorem ensures_declareHandles {handles : List String} {post : PUnit → Stream → Prop} :
    (modify fun stream => { stream with handles := handles } : Parsing PUnit).Ensures stream post ↔
      post ⟨⟩ (stream.noting stream.reached stream.anchors handles) :=
  ensures_modify

/-- A tag is only checked, so what holds before the check holds behind it. -/
theorem ensures_checkTag
    {mark : Mark}
    {handle : String}
    {post : Unit → Stream → Prop}
    (holds : post () stream) :
    (checkTag mark handle).Ensures stream post := by
  unfold checkTag
  simp [holds]

@[simp] theorem ensures_emptyThen
    {following : Expectation}
    {mark : Mark}
    {post : Event → Stream → Prop} :
    (emptyThen following mark).Ensures stream post ↔
      post (emptyAt mark) (stream.expecting following) := by
  unfold emptyThen
  rw [ensures_bind, ensures_expect, ensures_pure]

@[simp] theorem ensures_endCollection
    {mark : Mark}
    {kind : Event.Kind}
    {post : Event → Stream → Prop} :
    (endCollection mark kind).Ensures stream post ↔
      post (eventAt mark kind) stream.passed.behind := by
  unfold endCollection
  rw [ensures_bind, ensures_leave, ensures_bind, ensures_skip, ensures_pure, Stream.passed_behind]

end Parsing

end HartBoot.Yaml
