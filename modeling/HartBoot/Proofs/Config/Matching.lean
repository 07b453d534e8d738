import HartBoot.Proofs.Config.Move

/-!
Contract: what the two ways of comparing a scalar with the keywords have to do with each other.

Owns:
- `Keyword.literal_prefixFree`, which says that no written form of a keyword is the start of
  another one, and with it that a scalar starts with one written form at most;
- `Move.leading_of_whole`, which says that a move that compares whole scalars is also one that
  compares their starts;
- the law of matching.

Does not own: what the machine does with a keyword (see `HartBoot.Proofs.Config.Move`).
-/

namespace HartBoot

/-! ## Keywords -/

theorem Matching.whole_accepts_iff {literal scalar : String} :
    Matching.whole.accepts literal scalar ↔ scalar.toList = literal.toList :=
  beq_iff_eq

theorem Matching.leading_accepts_iff {literal scalar : String} :
    Matching.leading.accepts literal scalar ↔ literal.toList <+: scalar.toList :=
  List.isPrefixOf_iff_prefix

namespace Keyword

variable {scalar : String} {keyword first second : Keyword}

/-- No written form is the start of another one. -/
theorem literal_prefixFree (inside : first.literal.toList <+: second.literal.toList) :
    first = second := by
  have free : ∀ one ∈ all, ∀ other ∈ all,
      one.literal.toList.isPrefixOf other.literal.toList → one = other := by
    decide +kernel
  exact free first (mem_all first) second (mem_all second) (List.isPrefixOf_iff_prefix.mpr inside)

/-- A scalar starts with one written form at most. -/
theorem eq_of_starts
    (starts : first.literal.toList <+: scalar.toList)
    (again : second.literal.toList <+: scalar.toList) :
    first = second := by
  rcases List.prefix_or_prefix_of_prefix starts again with inside | around
  · exact literal_prefixFree inside
  · exact (literal_prefixFree around).symm

theorem accepts_of_find?
    {matching : Matching}
    {order : List Keyword}
    (found : order.find? (fun keyword => matching.accepts keyword.literal scalar) = some keyword) :
    matching.accepts keyword.literal scalar := by
  have accepted := List.find?_some found
  exact accepted

/-- In whatever order all keywords are tried, the one that is found is the one that the scalar
starts with. -/
theorem find?_leading_eq_some_iff
    {order : List Keyword}
    (complete : ∀ keyword, keyword ∈ order) :
    order.find? (fun keyword => Matching.leading.accepts keyword.literal scalar) = some keyword ↔
      keyword.literal.toList <+: scalar.toList := by
  constructor
  · intro found
    exact Matching.leading_accepts_iff.mp (accepts_of_find? found)
  · intro starts
    cases found : order.find? fun keyword => Matching.leading.accepts keyword.literal scalar with
    | some other =>
      have own := Matching.leading_accepts_iff.mp (accepts_of_find? found)
      rw [eq_of_starts own starts]
    | none =>
      have refused := List.find?_eq_none.mp found keyword (complete keyword)
      exact absurd (Matching.leading_accepts_iff.mpr starts) refused

theorem resolve?_leading_eq_some_iff :
    resolve? .leading scalar = some keyword ↔ keyword.literal.toList <+: scalar.toList :=
  find?_leading_eq_some_iff mem_all

/-- The order in which the keywords are tried does not matter. -/
theorem find?_leading_eq_resolve? {order : List Keyword} (permuted : order.Perm all) :
    order.find? (fun keyword => Matching.leading.accepts keyword.literal scalar) =
      resolve? .leading scalar := by
  have complete : ∀ keyword, keyword ∈ order :=
    fun keyword => permuted.mem_iff.mpr (mem_all keyword)
  apply Option.ext
  intro keyword
  rw [find?_leading_eq_some_iff complete, resolve?_leading_eq_some_iff]

/-- A scalar that is a written form starts with it. -/
theorem resolve?_leading_of_whole (resolved : resolve? .whole scalar = some keyword) :
    resolve? .leading scalar = some keyword := by
  have same : scalar.toList = keyword.literal.toList :=
    Matching.whole_accepts_iff.mp (accepts_of_find? resolved)
  apply resolve?_leading_eq_some_iff.mpr
  exact same ▸ List.prefix_refl _

theorem bind_leading_of_whole
    {α : Type}
    {meaning : Keyword → Option α}
    {value : α}
    (meant : (resolve? .whole scalar).bind meaning = some value) :
    (resolve? .leading scalar).bind meaning = some value := by
  obtain ⟨keyword, resolved, means⟩ := Option.bind_eq_some_iff.mp meant
  rw [resolve?_leading_of_whole resolved]
  exact means

end Keyword

namespace Config

open Yaml.Event (Kind)

variable {σ : Type}

/-! ## Moves -/

theorem Field.attribute?_leading_of_whole
    {field : Field}
    {value : String}
    {given : Attribute}
    (meant : field.attribute? .whole value = some given) :
    field.attribute? .leading value = some given := by
  have keyword : ∀ {α : Type} {meaning : Keyword → Option α} {wrap : α → Attribute},
      ((Keyword.resolve? .whole value).bind meaning).map wrap = some given →
        ((Keyword.resolve? .leading value).bind meaning).map wrap = some given := by
    intro α meaning wrap mapped
    obtain ⟨one, means, wrapped⟩ := Option.map_eq_some_iff.mp mapped
    rw [Keyword.bind_leading_of_whole means]
    exact congrArg some wrapped
  cases field with
  | ownerHart => exact keyword meant
  | secondaryHart => exact keyword meant
  | privMode => exact keyword meant
  | allowReboot => exact keyword meant
  | _ => exact meant

/-- What the machine does when it compares whole scalars, it also does when it compares their
starts. -/
theorem Move.leading_of_whole
    {sink : PayloadSink σ}
    {kind : Kind}
    {before after : Machine σ}
    (move : Move sink .whole kind before after) :
    Move sink .leading kind before after := by
  cases move with
  | «section» named => exact .section (Keyword.bind_leading_of_whole named)
  | entryHart named => exact .entryHart (Keyword.bind_leading_of_whole named)
  | field named => exact .field (Keyword.bind_leading_of_whole named)
  | value meant gives => exact .value (Field.attribute?_leading_of_whole meant) gives
  | entryAddress number free => exact .entryAddress number free
  | closeBlock owned taken => exact .closeBlock owned taken
  | _ => constructor

theorem succeeds_leading_of_whole
    {sink : PayloadSink σ}
    {events : List Yaml.Event}
    {store final : σ}
    {image : Image}
    (accepted : (readEvents sink .whole events).Succeeds store image final) :
    (readEvents sink .leading events).Succeeds store image final := by
  obtain ⟨sound, draft, trace, reached⟩ := succeeds_readReading_iff_trace.mp accepted
  have leads := trace.mono fun _ _ _ => Move.leading_of_whole
  exact succeeds_readReading_iff_trace.mpr ⟨sound, draft, leads, reached⟩

/-! ## The law of matching -/

/-- Events that are accepted when whole scalars are compared are also accepted when their starts
are, with the same image and the same requests to the receiver. A scalar starts with one written
form of a keyword at most, so the order in which the keywords are tried does not matter. -/
theorem leading_extends_whole (sink : PayloadSink σ) :
    (∀ events store image requests final,
      (readEvents sink.recorded .whole events).Succeeds ([], store) image (requests, final) →
        (readEvents sink.recorded .leading events).Succeeds ([], store) image (requests, final)) ∧
      (∀ (scalar : String) (first second : Keyword),
        first.literal.toList <+: scalar.toList → second.literal.toList <+: scalar.toList →
          first = second) ∧
      ∀ (order : List Keyword), order.Perm Keyword.all → ∀ scalar,
        order.find? (fun keyword => Matching.leading.accepts keyword.literal scalar) =
          Keyword.resolve? .leading scalar :=
  ⟨fun _ _ _ _ _ => succeeds_leading_of_whole,
    fun _ _ _ => Keyword.eq_of_starts,
    fun _ permuted _ => Keyword.find?_leading_eq_resolve? permuted⟩

/-- A configuration with one block is read both ways, and a longer word counts as one keyword, also
when the keywords are tried from the last one on. -/
theorem leading_extends_whole_oneBlock :
    let events :=
      (Yaml.read "payloads: \x7ba: \x7bowner-hart: u54_1, exec-addr: 8\x7d\x7d\n").events
    let sink := PayloadSink.answering fun _ => false
    let image : Image :=
      ⟨Name.ofText "PolarFireSOC-HSS::a", ⟨{ name := Name.ofText "a" }, {}, {}, {}⟩⟩
    let requests : List PayloadSink.Request :=
      [.extract "a" .u54_1 8, .embed "a" 8 .u54_1 none]
    (readEvents sink.recorded .whole events).Succeeds ([], ()) image (requests, ()) ∧
      (readEvents sink.recorded .leading events).Succeeds ([], ()) image (requests, ()) ∧
      Keyword.warm.literal.toList <+: "warmest".toList ∧
      (∀ other : Keyword, other.literal.toList <+: "warmest".toList → Keyword.warm = other) ∧
      Keyword.all.reverse.Perm Keyword.all ∧
      Keyword.all.reverse.find?
          (fun keyword => Matching.leading.accepts keyword.literal "warmest") =
        Keyword.resolve? .leading "warmest" := by
  intro events sink image requests
  obtain ⟨kept, unique, order⟩ := leading_extends_whole sink
  have accepted :
      (readEvents sink.recorded .whole events).Succeeds ([], ()) image (requests, ()) :=
    ⟨by decide +kernel, by decide +kernel⟩
  have starts : Keyword.warm.literal.toList <+: "warmest".toList := by decide
  have permuted : Keyword.all.reverse.Perm Keyword.all := List.reverse_perm _
  exact ⟨accepted, kept events () image requests () accepted, starts,
    fun other => unique "warmest" .warm other starts, permuted, order _ permuted "warmest"⟩

end Config

end HartBoot
