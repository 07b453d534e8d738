import HartBoot.Blob
import HartBoot.Proofs.Except
import HartBoot.Proofs.LoadPlan.Entries
import HartBoot.Proofs.LoadPlan.Span
import Mathlib

/-!
Contract: files that are loaded as they are, and where their ancillary files go.

Owns:
- when a file and its ancillary file are embedded, and which chunks they give;
- `NextBoundary`, the first aligned address behind some bytes, in numbers without a limit;
- `addressAfter?_eq_some_iff` and `addressAfter?_eq_none_iff`, which say that the address that is
  computed is the next boundary, and when there is none;
- the law of placement: the ancillary file goes to the next boundary if that one is an address, and
  the work is broken off if it is none.

Does not own: which blocks have ancillary files (see `HartBoot.Proofs.LoadPlan.Contents`).
-/

namespace HartBoot.Blob

/-! ## What is embedded -/

variable {files : Files} {path : Path} {owner : Hart} {address : UInt64} {before after : LoadPlan}

theorem contents_eq_ok_iff {data : Bytes} :
    contents files path = .ok data ↔ files.read path = .ok data ∧ data ≠ [] := by
  unfold contents
  cases files.read path with
  | error cause => simp
  | ok found =>
    cases found with
    | nil =>
      constructor
      · intro impossible
        cases impossible
      · rintro ⟨⟨⟩, filled⟩
        exact absurd rfl filled
    | cons byte rest =>
      constructor
      · rintro ⟨⟩
        exact ⟨rfl, List.cons_ne_nil _ _⟩
      · rintro ⟨⟨⟩, -⟩
        rfl

theorem succeeds_addFile {size : Nat} :
    (addFile files path owner address).Succeeds before size after ↔
      ∃ data, files.read path = .ok data ∧ data ≠ [] ∧ data.length = size ∧
        before.followedBy ⟨[⟨owner, address, data⟩], []⟩ = after := by
  simp only [addFile, Action.succeeds_bind, Action.succeeds_ofExcept, contents_eq_ok_iff,
    LoadPlan.succeeds_addChunk, Action.succeeds_pure]
  constructor
  · intro added
    rcases added with ⟨data, _, ⟨⟨found, filled⟩, rfl⟩, _, _, rfl, rfl, rfl⟩
    exact ⟨data, found, filled, rfl, rfl⟩
  · intro added
    rcases added with ⟨data, found, filled, rfl, rfl⟩
    exact ⟨data, _, ⟨⟨found, filled⟩, rfl⟩, (), _, rfl, rfl, rfl⟩

theorem succeeds_embed_none {done : Unit} :
    (embed files path address owner none).Succeeds before done after ↔
      ∃ data, files.read path = .ok data ∧ data ≠ [] ∧
        before.followedBy ⟨[⟨owner, address, data⟩], []⟩ = after := by
  simp only [embed, Action.succeeds_bind, Action.succeeds_say, succeeds_addFile,
    Action.succeeds_pure]
  constructor
  · intro embedded
    rcases embedded with ⟨_, _, rfl, _, _, ⟨data, found, filled, rfl, rfl⟩, -, rfl⟩
    exact ⟨data, found, filled, rfl⟩
  · intro embedded
    rcases embedded with ⟨data, found, filled, rfl⟩
    exact ⟨(), _, rfl, _, _, ⟨data, found, filled, rfl, rfl⟩, trivial, rfl⟩

/-- The ancillary file stands behind the file itself, at the address that is computed for it. -/
theorem succeeds_embed_some {companion : Path} {done : Unit} :
    (embed files path address owner (some companion)).Succeeds before done after ↔
      ∃ data content target, files.read path = .ok data ∧ data ≠ [] ∧
        files.read companion = .ok content ∧ content ≠ [] ∧
        addressAfter? address data.length = some target ∧
        before.followedBy ⟨[⟨owner, address, data⟩, ⟨owner, target, content⟩], []⟩ = after := by
  simp only [embed, Action.succeeds_bind, Action.succeeds_say, Action.succeeds_ofOption,
    succeeds_addFile, Action.succeeds_pure]
  constructor
  · intro embedded
    rcases embedded with ⟨_, _, rfl, _, _, ⟨data, found, filled, rfl, rfl⟩, target, _,
      ⟨placed, rfl⟩, _, _, rfl, _, _, ⟨content, present, sized, -, rfl⟩, -, rfl⟩
    refine ⟨data, content, target, found, filled, present, sized, placed, ?_⟩
    rw [LoadPlan.followedBy_assoc]
    rfl
  · intro embedded
    rcases embedded with ⟨data, content, target, found, filled, present, sized, placed, rfl⟩
    refine ⟨(), _, rfl, _, _, ⟨data, found, filled, rfl, rfl⟩, target, _, ⟨placed, rfl⟩, (), _, rfl,
      _, _, ⟨content, present, sized, rfl, rfl⟩, trivial, ?_⟩
    rw [LoadPlan.followedBy_assoc]
    rfl

/-- When no address is computed for the ancillary file, only the file itself has been added. -/
theorem fails_embed_overflow
    {companion : Path}
    {data : Bytes}
    (found : files.read path = .ok data)
    (filled : data ≠ [])
    (nowhere : addressAfter? address data.length = none) :
    (embed files path address owner (some companion)).Fails before .overflow
      (before.withChunk ⟨owner, address, data⟩) := by
  have added : (addFile files path owner address).Succeeds before data.length
      (before.withChunk ⟨owner, address, data⟩) := by
    apply succeeds_addFile.mpr
    exact ⟨data, found, filled, rfl, by simp [LoadPlan.followedBy, LoadPlan.withChunk]⟩
  unfold embed
  apply Action.fails_bind.mpr
  refine .inr ⟨(), before, Action.succeeds_say.mpr rfl, Action.fails_bind.mpr (.inr ?_)⟩
  refine ⟨data.length, _, added, Action.fails_bind.mpr (.inl ?_)⟩
  exact Action.fails_ofOption.mpr ⟨nowhere, rfl, rfl⟩

/-! ## Where the ancillary file goes -/

/-- A number is the first aligned one that is not below a limit. -/
structure NextBoundary (limit target : Nat) : Prop where
  aligned : target % alignment = 0
  behind : limit ≤ target
  near : target < limit + alignment

theorem nextBoundary_roundUp (limit : Nat) : NextBoundary limit (roundUp limit alignment) where
  aligned := roundUp_mod limit alignment (by decide)
  behind := Nat.le_add_right _ _
  near := Nat.add_lt_add_left (paddingFor_lt limit alignment (by decide)) limit

/-- There is one number at most that is the first aligned one. -/
theorem NextBoundary.functional
    {limit first second : Nat}
    (boundary : NextBoundary limit first)
    (again : NextBoundary limit second) :
    first = second := by
  rcases boundary with ⟨aligned, behind, near⟩
  rcases again with ⟨otherAligned, otherBehind, otherNear⟩
  unfold alignment at *
  omega

/-- A boundary that is an address leaves room for eight addresses, since there are a multiple of
eight of them. -/
theorem NextBoundary.limit_le
    {limit : Nat}
    {target : UInt64}
    (boundary : NextBoundary limit target.toNat) :
    limit + alignment ≤ UInt64.size := by
  rcases boundary with ⟨aligned, behind, near⟩
  have bounded := target.toNat_lt_size
  unfold alignment at *
  unfold UInt64.size at *
  omega

/-- The end of the file is cut at the last address, but that makes no difference: where it is cut,
the boundary behind it is no address in either case. -/
theorem roundUp_min_le_lastAddress_iff {limit : Nat} :
    roundUp (min limit lastAddress) alignment ≤ lastAddress ↔
      limit + alignment ≤ UInt64.size := by
  have boundary := nextBoundary_roundUp (min limit lastAddress)
  rcases boundary with ⟨aligned, behind, near⟩
  unfold alignment lastAddress UInt64.size at *
  omega

section AddressAfter

variable {size : Nat}

/-- The address that is computed is the next boundary. -/
theorem addressAfter?_eq_some_iff {target : UInt64} :
    addressAfter? address size = some target ↔
      NextBoundary (address.toNat + size) target.toNat := by
  have uncut : address.toNat + size + alignment ≤ UInt64.size →
      min (address.toNat + size) lastAddress = address.toNat + size := by
    unfold alignment lastAddress
    omega
  have boundary := nextBoundary_roundUp (address.toNat + size)
  unfold addressAfter?
  constructor
  · intro placed
    obtain ⟨inside, same⟩ := Option.ite_none_right_eq_some.mp placed
    obtain rfl := Option.some.inj same
    have room := roundUp_min_le_lastAddress_iff.mp inside
    rw [uncut room] at inside ⊢
    rw [UInt64.toNat_ofNat_of_lt' (Nat.lt_of_le_pred (by decide) inside)]
    exact boundary
  · intro next
    have room := next.limit_le
    apply Option.ite_none_right_eq_some.mpr
    refine ⟨roundUp_min_le_lastAddress_iff.mpr room, ?_⟩
    rw [uncut room, boundary.functional next, UInt64.ofNat_toNat]

/-- No address is computed when the next boundary is none. -/
theorem addressAfter?_eq_none_iff :
    addressAfter? address size = none ↔ UInt64.size < address.toNat + size + alignment := by
  unfold addressAfter?
  rw [← Nat.not_le, ← roundUp_min_le_lastAddress_iff]
  simp

end AddressAfter

/-! ## The law of placement -/

/-- A file and its ancillary file that are there and not empty are embedded as two chunks, the first
of them at the given address and the second one at the next boundary behind it, so that the two have
no address in common. That succeeds as long as this boundary is an address. If it is none, the work
is broken off behind the first chunk. -/
theorem embed_places_ancillary
    (files : Files)
    (path companion : Path)
    (address : UInt64)
    (owner : Hart)
    (before : LoadPlan)
    (data content : Bytes)
    (found : files.read path = .ok data)
    (filled : data ≠ [])
    (present : files.read companion = .ok content)
    (sized : content ≠ []) :
    (∀ after, (embed files path address owner (some companion)).Succeeds before () after →
        ∃ target : UInt64,
          after.chunks = before.chunks ++ [⟨owner, address, data⟩, ⟨owner, target, content⟩] ∧
            after.zeroed = before.zeroed ∧
            NextBoundary (address.toNat + data.length) target.toNat ∧
            (LoadPlan.chunkSpan ⟨owner, address, data⟩).Disjoint
              (LoadPlan.chunkSpan ⟨owner, target, content⟩)) ∧
      ((∃ after, (embed files path address owner (some companion)).Succeeds before () after) ↔
        address.toNat + data.length + alignment ≤ UInt64.size) ∧
      (UInt64.size < address.toNat + data.length + alignment →
        (embed files path address owner (some companion)).Fails before .overflow
          (before.withChunk ⟨owner, address, data⟩)) := by
  have embedded : ∀ after,
      (embed files path address owner (some companion)).Succeeds before () after →
        ∃ target, addressAfter? address data.length = some target ∧
          before.followedBy ⟨[⟨owner, address, data⟩, ⟨owner, target, content⟩], []⟩ = after := by
    intro after succeeded
    obtain ⟨again, against, target, foundAgain, -, presentAgain, -, placed, same⟩ :=
      succeeds_embed_some.mp succeeded
    obtain rfl := Except.ok.inj (found.symm.trans foundAgain)
    obtain rfl := Except.ok.inj (present.symm.trans presentAgain)
    exact ⟨target, placed, same⟩
  refine ⟨?_, ?_, ?_⟩
  · intro after succeeded
    obtain ⟨target, placed, rfl⟩ := embedded after succeeded
    have boundary := addressAfter?_eq_some_iff.mp placed
    exact ⟨target, rfl, List.append_nil _, boundary, Span.disjoint_of_le boundary.behind⟩
  · constructor
    · rintro ⟨after, succeeded⟩
      obtain ⟨target, placed, -⟩ := embedded after succeeded
      exact (addressAfter?_eq_some_iff.mp placed).limit_le
    · intro room
      have somewhere : addressAfter? address data.length ≠ none :=
        fun nowhere => absurd (addressAfter?_eq_none_iff.mp nowhere) (Nat.not_lt_of_le room)
      obtain ⟨target, placed⟩ := Option.ne_none_iff_exists'.mp somewhere
      exact ⟨_, succeeds_embed_some.mpr
        ⟨data, content, target, found, filled, present, sized, placed, rfl⟩⟩
  · intro full
    exact fails_embed_overflow found filled (addressAfter?_eq_none_iff.mpr full)

/-- Thirteen bytes at address `0x1000` end three bytes before a boundary. A byte eight addresses
below the end of all addresses has no boundary behind it. -/
theorem embed_places_ancillary_thirteen :
    let files : Files :=
      ⟨[(["p"], .file (List.replicate 13 1)), (["q"], .file [2, 2, 2, 2]), (["s"], .file [1])]⟩
    files.read "p" = .ok (List.replicate 13 1) ∧ List.replicate 13 (1 : UInt8) ≠ [] ∧
      files.read "q" = .ok [2, 2, 2, 2] ∧ ([2, 2, 2, 2] : Bytes) ≠ [] ∧
      (∃ after, (embed files "p" 0x1000 .u54_1 (some "q")).Succeeds LoadPlan.empty () after ∧
        after.chunks =
          [⟨.u54_1, 0x1000, List.replicate 13 1⟩, ⟨.u54_1, 0x1010, [2, 2, 2, 2]⟩]) ∧
      (embed files "s" 0xFFFFFFFFFFFFFFF8 .u54_1 (some "q")).Fails LoadPlan.empty .overflow
        ⟨[⟨.u54_1, 0xFFFFFFFFFFFFFFF8, [1]⟩], []⟩ := by
  intro files
  have found : files.read "p" = .ok (List.replicate 13 1) := by cbv
  have present : files.read "q" = .ok [2, 2, 2, 2] := by cbv
  have single : files.read "s" = .ok [1] := by cbv
  obtain ⟨placed, room, -⟩ :=
    embed_places_ancillary files "p" "q" 0x1000 .u54_1 LoadPlan.empty _ _ found (by decide)
      present (by decide)
  obtain ⟨after, embedded⟩ := room.mpr (by decide)
  obtain ⟨target, chunks, -, boundary, -⟩ := placed after embedded
  have same : target.toNat = (0x1010 : UInt64).toNat :=
    boundary.functional ⟨by decide, by decide, by decide⟩
  rw [UInt64.toNat_inj.mp same] at chunks
  obtain ⟨-, -, full⟩ :=
    embed_places_ancillary files "s" "q" 0xFFFFFFFFFFFFFFF8 .u54_1 LoadPlan.empty _ _ single
      (by decide) present (by decide)
  exact ⟨found, by decide, present, by decide, ⟨after, embedded, chunks⟩, full (by decide)⟩

end HartBoot.Blob
