import HartBoot.LoadPlan

/-!
Contract: the addresses that the entries of a plan take up.

Owns:
- `Span`, a range of addresses in numbers without a limit; when one lies in another one, and when
  two of them have no address in common;
- the spans of the entries of a plan.

Does not own: the spans of segments and sections (see `HartBoot.Proofs.Elf.Containment`).
-/

namespace HartBoot

/-- The addresses from a start up to a limit, which is not one of them. -/
structure Span where
  start : Nat
  limit : Nat
  deriving DecidableEq, Repr

namespace Span

/-- A span lies in another one. -/
structure Within (inner outer : Span) : Prop where
  start : outer.start ≤ inner.start
  limit : inner.limit ≤ outer.limit

/-- An address is one of a span. -/
def Holds (span : Span) (address : Nat) : Prop :=
  span.start ≤ address ∧ address < span.limit

/-- Two spans have no address in common. An empty span has none in common with any span. -/
def Disjoint (first second : Span) : Prop :=
  ∀ address, first.Holds address → ¬ second.Holds address

theorem disjoint_of_le {first second : Span} (behind : first.limit ≤ second.start) :
    first.Disjoint second := by
  intro address early late
  exact absurd early.2 (Nat.not_lt_of_le (Nat.le_trans behind late.1))

/-- A span with an address does not lie in two spans that have none in common. -/
theorem Disjoint.not_within_both
    {first second inner : Span}
    (disjoint : first.Disjoint second)
    (sized : inner.start < inner.limit)
    (one : inner.Within first) :
    ¬ inner.Within second := by
  intro other
  have early : first.Holds inner.start := ⟨one.start, Nat.lt_of_lt_of_le sized one.limit⟩
  have late : second.Holds inner.start := ⟨other.start, Nat.lt_of_lt_of_le sized other.limit⟩
  exact disjoint inner.start early late

end Span

namespace LoadPlan

def chunkSpan (chunk : Chunk) : Span :=
  ⟨chunk.address.toNat, chunk.address.toNat + chunk.data.length⟩

def zeroedSpan (region : ZeroRegion) : Span :=
  ⟨region.address.toNat, region.address.toNat + region.size.toNat⟩

/-- The spans of all entries of a plan. -/
def spans (plan : LoadPlan) : List Span :=
  plan.chunks.map chunkSpan ++ plan.zeroed.map zeroedSpan

end LoadPlan

end HartBoot
