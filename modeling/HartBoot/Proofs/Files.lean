import HartBoot.Files
import HartBoot.Proofs.Except
import Mathlib.Data.List.Infix

/-!
Contract: what changes when a file is written.

Owns:
- `Files.Rewritten`, files of which one has new contents and all others are as they were;
- `Files.rewritten_of_write`, which says that writing a file does that and no more.

A directory is known by what is in it, so a new file could make new directories. It does not,
because a path leads only through directories that were there (`Files.Enclosed`).

Does not own: which files are written.
-/

namespace HartBoot.Files

/-- Everything on the way to a place is a directory. -/
def Enclosed (files : Files) (place : Place) : Prop :=
  ∀ outer, outer <+: place → outer ≠ place → files.node? outer = some .directory

section Follow

variable {files : Files} {place target : Place} {rest : List String}

theorem node?_of_isBase (base : isBase place) : files.node? place = some .directory :=
  if_pos base

theorem enclosed_append
    (enclosed : files.Enclosed place)
    (directory : files.node? place = some .directory)
    (part : String) :
    files.Enclosed (place ++ [part]) := by
  intro outer inside proper
  rcases List.prefix_concat_iff.mp inside with same | inner
  · exact absurd same proper
  · by_cases last : outer = place
    · rw [last]
      exact directory
    · exact enclosed outer inner last

theorem enclosed_dropLast (enclosed : files.Enclosed place) : files.Enclosed place.dropLast := by
  intro outer inside proper
  have inner : outer <+: place := inside.trans (List.dropLast_prefix place)
  refine enclosed outer inner ?_
  rintro rfl
  exact proper (inside.eq_of_length_le (by rw [List.length_dropLast]; omega))

/-- One part of a path leads from a directory to a place that is enclosed again. -/
theorem enclosed_enter
    (enclosed : files.Enclosed place)
    (directory : files.node? place = some .directory)
    (part : String) :
    files.Enclosed (enter place part) := by
  unfold enter above
  split_ifs
  · exact enclosed
  · exact enclosed
  · exact enclosed_append enclosed directory ".."
  · exact enclosed_dropLast enclosed
  · exact enclosed_append enclosed directory part

theorem follow_cons_eq_ok_iff {part : String} :
    files.follow place (part :: rest) = .ok target ↔
      files.node? place = some .directory ∧ part.utf8ByteSize ≤ maxName ∧
        files.follow (enter place part) rest = .ok target := by
  rw [follow]
  split
  case h_1 missing => simp [missing]
  case h_2 contents file => simp [file]
  case h_3 directory =>
    rw [and_iff_right directory]
    by_cases long : maxName < part.utf8ByteSize
    · simp [long, Nat.not_le_of_lt long]
    · simp [long, Nat.le_of_not_lt long]

theorem enclosed_of_follow
    (enclosed : files.Enclosed place)
    (followed : files.follow place rest = .ok target) :
    files.Enclosed target := by
  induction rest generalizing place with
  | nil =>
    obtain rfl := Except.ok.inj followed
    exact enclosed
  | cons part rest inductionHypothesis =>
    obtain ⟨directory, -, further⟩ := follow_cons_eq_ok_iff.mp followed
    exact inductionHypothesis (enclosed_enter enclosed directory part) further

theorem enclosed_origin (path : Path) : files.Enclosed (origin path).1 := by
  have base : (origin path).1 = [] ∨ (origin path).1 = [""] := by
    unfold origin
    split
    · exact .inr rfl
    · exact .inl rfl
  intro outer inside proper
  rcases base with empty | root
  · rw [empty] at inside proper
    exact absurd (List.prefix_nil.mp inside) proper
  · rw [root] at inside proper
    have nothing : outer = [] := by
      rcases List.prefix_concat_iff.mp (show outer <+: [] ++ [""] from inside) with same | inner
      · exact absurd same proper
      · exact List.prefix_nil.mp inner
    rw [nothing]
    exact node?_of_isBase rfl

theorem locate_eq_ok_iff {path : Path} :
    files.locate path = .ok target ↔
      path.toList.contains '\x00' = false ∧ path ≠ "" ∧ path.utf8ByteSize ≤ maxPath ∧
        files.follow (origin path).1 (origin path).2 = .ok target := by
  constructor
  · intro located
    unfold locate at located
    split at located
    · cases located
    · split at located
      · cases located
      · split at located
        · cases located
        · next nul empty long =>
          exact ⟨Bool.eq_false_iff.mpr nul, empty, Nat.le_of_not_lt long, located⟩
  · intro located
    rcases located with ⟨nul, empty, short, followed⟩
    rw [locate, if_neg (Bool.eq_false_iff.mp nul), if_neg empty, if_neg (Nat.not_lt.mpr short)]
    exact followed

/-- A path leads to a place that is enclosed. -/
theorem enclosed_of_locate {path : Path} (located : files.locate path = .ok target) :
    files.Enclosed target := by
  obtain ⟨-, -, -, followed⟩ := locate_eq_ok_iff.mp located
  exact enclosed_of_follow (enclosed_origin path) followed

end Follow

section Insert

variable {files : Files} {place : Place} {node : Node}

theorem mem_insert_iff {entry : Place × Node} :
    entry ∈ (files.insert place node).entries ↔
      (entry ∈ files.entries ∧ entry.1 ≠ place) ∨ entry = (place, node) := by
  simp [insert]

theorem find?_insert_of_ne {other : Place} (different : other ≠ place) :
    (files.insert place node).entries.find? (fun entry => entry.1 == other) =
      files.entries.find? fun entry => entry.1 == other := by
  have behind : [(place, node)].find? (fun entry => entry.1 == other) = none := by
    simp [Ne.symm different]
  rw [insert, List.find?_append, behind, Option.or_none, List.find?_filter]
  congr 1
  funext entry
  by_cases here : entry.1 = other
  · simp [here, different]
  · simp [here]

theorem node?_insert_self (base : isBase place = false) :
    (files.insert place node).node? place = some node := by
  have absent :
      (files.entries.filter fun entry => entry.1 != place).find? (fun entry => entry.1 == place) =
        none := by
    rw [List.find?_eq_none]
    intro entry member
    have different := (List.mem_filter.mp member).2
    simpa using different
  have found :
      (files.insert place node).entries.find? (fun entry => entry.1 == place) =
        some (place, node) := by
    rw [insert, List.find?_append, absent]
    simp
  simp [node?, base, found]

/-- A node at an enclosed place changes nothing elsewhere. -/
theorem node?_insert_of_ne
    (enclosed : files.Enclosed place)
    {other : Place}
    (different : other ≠ place) :
    (files.insert place node).node? other = files.node? other := by
  by_cases base : isBase other
  · rw [node?_of_isBase base, node?_of_isBase base]
  unfold node?
  rw [if_neg base, if_neg base, find?_insert_of_ne different]
  cases found : files.entries.find? (fun entry => entry.1 == other) with
  | some entry => rfl
  | none =>
    have sameInside :
        ((files.insert place node).entries.any fun entry => other.isPrefixOf entry.1) =
          files.entries.any fun entry => other.isPrefixOf entry.1 := by
      rw [Bool.eq_iff_iff, List.any_eq_true, List.any_eq_true]
      constructor
      · intro holds
        rcases holds with ⟨entry, member, inside⟩
        rcases mem_insert_iff.mp member with old | new
        · exact ⟨entry, old.1, inside⟩
        · -- The new place is inside of a directory that was known before.
          rw [new] at inside
          have directory := enclosed other (List.isPrefixOf_iff_prefix.mp inside) different
          rw [node?, if_neg base, found] at directory
          by_contra unknown
          rw [← List.any_eq_true] at unknown
          simp only [unknown] at directory
          cases directory
      · intro holds
        rcases holds with ⟨entry, old, inside⟩
        by_cases here : entry.1 = place
        · rw [here] at inside
          exact ⟨(place, node), mem_insert_iff.mpr (.inr rfl), inside⟩
        · exact ⟨entry, mem_insert_iff.mpr (.inl ⟨old, here⟩), inside⟩
    rw [sameInside]

/-- A path that could be followed before can be followed in the same way, if a node has been put
where no directory was. -/
theorem follow_insert
    (enclosed : files.Enclosed place)
    (fresh : files.node? place ≠ some .directory)
    {start target : Place}
    {rest : List String}
    (followed : files.follow start rest = .ok target) :
    (files.insert place node).follow start rest = .ok target := by
  induction rest generalizing start with
  | nil => exact followed
  | cons part rest inductionHypothesis =>
    obtain ⟨directory, short, further⟩ := follow_cons_eq_ok_iff.mp followed
    have different : start ≠ place := by
      rintro rfl
      exact fresh directory
    apply follow_cons_eq_ok_iff.mpr
    rw [node?_insert_of_ne enclosed different]
    exact ⟨directory, short, inductionHypothesis further⟩

end Insert

/-! ## Writing -/

/-- The file that a path names has some contents, and everything else is as it was. -/
structure Rewritten (before after : Files) (path : Path) (contents : Bytes) : Prop where
  contents : after.read path = .ok contents
  others : ∃ place, before.locate path = .ok place ∧
    ∀ other, other ≠ place → after.node? other = before.node? other

theorem read_eq_ok_iff {files : Files} {path : Path} {contents : Bytes} :
    files.read path = .ok contents ↔
      ∃ place, files.locate path = .ok place ∧ files.node? place = some (.file contents) := by
  unfold read
  rw [Except.bind_eq_ok_iff]
  constructor
  · intro found
    rcases found with ⟨place, located, opened⟩
    refine ⟨place, located, ?_⟩
    split at opened
    · cases opened
    · cases opened
    · next known =>
      cases opened
      exact known
  · intro found
    rcases found with ⟨place, located, known⟩
    refine ⟨place, located, ?_⟩
    rw [known]

/-- A path can be written when it leads somewhere and no directory is there. -/
theorem write_eq_ok_iff {files written : Files} {path : Path} {contents : Bytes} :
    files.write path contents = .ok written ↔
      ∃ place, files.locate path = .ok place ∧ files.node? place ≠ some .directory ∧
        files.insert place (.file contents) = written := by
  unfold write
  rw [Except.bind_eq_ok_iff]
  constructor
  · intro done
    rcases done with ⟨place, located, opened⟩
    split at opened
    · cases opened
    · next free => exact ⟨place, located, free, Except.ok.inj opened⟩
  · intro done
    rcases done with ⟨place, located, free, rfl⟩
    refine ⟨place, located, ?_⟩
    split
    · next directory => exact absurd directory free
    · rfl

/-- Writing a file gives it its contents and changes nothing else. -/
theorem rewritten_of_write
    {files written : Files}
    {path : Path}
    {contents : Bytes}
    (done : files.write path contents = .ok written) :
    Rewritten files written path contents := by
  obtain ⟨place, located, fresh, rfl⟩ := write_eq_ok_iff.mp done
  have enclosed := enclosed_of_locate located
  have base : isBase place = false := by
    by_contra directory
    exact fresh (node?_of_isBase (Bool.not_eq_false _ ▸ directory))
  have locatedAfter : (files.insert place (.file contents)).locate path = .ok place := by
    obtain ⟨nul, nonempty, short, followed⟩ := locate_eq_ok_iff.mp located
    exact locate_eq_ok_iff.mpr ⟨nul, nonempty, short, follow_insert enclosed fresh followed⟩
  exact {
    contents := read_eq_ok_iff.mpr ⟨place, locatedAfter, node?_insert_self base⟩
    others := ⟨place, located, fun _ different => node?_insert_of_ne enclosed different⟩ }

end HartBoot.Files
