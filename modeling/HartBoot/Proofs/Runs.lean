import HartBoot.ImageFile.Report
import Mathlib.Algebra.GroupWithZero.Nat
import Mathlib.Data.List.Chain

/-!
Contract: the runs of a list are its one form without loss and without neighbours that are equal.

Owns:
- `RunsOf`, the counted elements that are the runs of a list, said without computing them;
- `RunsOf.extendRuns` and `runs_expand`, from which it follows that `runs` gives these and that
  there are no others;
- `countNext`, one step of a loop that counts the elements from the first to the last, and
  `RunsOf.countNext`, which says what such a step keeps;
- the law of the runs, with the totals that are reported of an image file.

Does not own: how the runs of a file are printed (see `HartBoot.ImageFile.Report`).
-/

namespace HartBoot

variable {α : Type} {elements : List α} {counted : List (α × Nat)}

/-- Counted elements are the runs of a list: they stand for the list, each of them at least once,
and no two neighbours are of the same element. -/
structure RunsOf (elements : List α) (counted : List (α × Nat)) : Prop where
  expands : expand counted = elements
  positive : ∀ run ∈ counted, 1 ≤ run.2
  maximal : counted.IsChain fun run next => run.1 ≠ next.1

/-! ## What runs stand for -/

@[simp] theorem expand_nil : expand ([] : List (α × Nat)) = [] :=
  rfl

@[simp] theorem expand_cons (element : α) (count : Nat) (rest : List (α × Nat)) :
    expand ((element, count) :: rest) = List.replicate count element ++ expand rest :=
  rfl

@[simp] theorem expand_append (first second : List (α × Nat)) :
    expand (first ++ second) = expand first ++ expand second :=
  List.flatMap_append

/-- The counts of runs add up to the length of the list that they stand for. -/
theorem length_expand (counted : List (α × Nat)) :
    (expand counted).length = (counted.map Prod.snd).sum := by
  induction counted with
  | nil => rfl
  | cons run rest inductionHypothesis =>
    rcases run with ⟨element, count⟩
    simp [inductionHypothesis]

theorem RunsOf.nil : RunsOf ([] : List α) [] where
  expands := rfl
  positive _ member := absurd member List.not_mem_nil
  maximal := .nil

section Counting

variable [DecidableEq α]

/-! ## From the last element to the first -/

theorem extendRuns_cons (element first : α) (count : Nat) (rest : List (α × Nat)) :
    extendRuns element ((first, count) :: rest) =
      if element = first then (first, count + 1) :: rest
      else (element, 1) :: (first, count) :: rest :=
  rfl

/-- One more element in front is counted with the first run, or is a run of its own. -/
theorem RunsOf.extendRuns (known : RunsOf elements counted) (element : α) :
    RunsOf (element :: elements) (extendRuns element counted) := by
  rcases known with ⟨rfl, positive, maximal⟩
  cases counted with
  | nil => exact ⟨rfl, by simp [HartBoot.extendRuns], .singleton _⟩
  | cons run rest =>
    rcases run with ⟨first, count⟩
    have others : ∀ run ∈ rest, 1 ≤ run.2 := fun run member =>
      positive run (List.mem_cons_of_mem _ member)
    rw [extendRuns_cons]
    by_cases same : element = first
    · subst same
      rw [if_pos rfl]
      refine ⟨by simp [List.replicate_succ], ?_, ?_⟩
      · simpa using others
      · -- The first run has grown, but it is still of the same element.
        rw [List.isChain_cons] at maximal ⊢
        exact maximal
    · rw [if_neg same]
      refine ⟨rfl, ?_, List.isChain_cons.mpr ⟨?_, maximal⟩⟩
      · simpa using positive
      · simpa using same

theorem runsOf_runs (elements : List α) : RunsOf elements (runs elements) := by
  induction elements with
  | nil => exact .nil
  | cons element rest inductionHypothesis => exact inductionHypothesis.extendRuns element

/-- Equal elements in front of another one are one run. -/
theorem foldr_extendRuns_replicate
    {element : α}
    (differs : ∀ run ∈ counted.head?, element ≠ run.1)
    (count : Nat) :
    (List.replicate (count + 1) element).foldr extendRuns counted =
      (element, count + 1) :: counted := by
  induction count with
  | zero =>
    cases counted with
    | nil => rfl
    | cons run rest => exact if_neg (differs run rfl)
  | succ count inductionHypothesis =>
    rw [List.replicate_succ, List.foldr_cons, inductionHypothesis, extendRuns_cons, if_pos rfl]

/-- Runs are found again in the list that they stand for. -/
theorem runs_expand
    (positive : ∀ run ∈ counted, 1 ≤ run.2)
    (maximal : counted.IsChain fun run next => run.1 ≠ next.1) :
    runs (expand counted) = counted := by
  induction counted with
  | nil => rfl
  | cons run rest inductionHypothesis =>
    rcases run with ⟨element, count⟩
    obtain ⟨differs, others⟩ := List.isChain_cons.mp maximal
    have behind : (expand rest).foldr extendRuns [] = rest :=
      inductionHypothesis (fun run member => positive run (List.mem_cons_of_mem _ member)) others
    obtain ⟨fewer, rfl⟩ := Nat.exists_eq_add_of_le' (positive _ List.mem_cons_self)
    rw [runs, expand_cons, List.foldr_append, behind]
    exact foldr_extendRuns_replicate differs fewer

theorem RunsOf.eq_runs (known : RunsOf elements counted) : counted = runs elements := by
  rw [← known.expands]
  exact (runs_expand known.positive known.maximal).symm

theorem sum_counts_runs (elements : List α) :
    ((runs elements).map Prod.snd).sum = elements.length := by
  rw [← length_expand, (runsOf_runs elements).expands]

/-! ## From the first element to the last -/

/-- Count one more element behind some runs: with the last run if that is of the same element, else
as a run of its own. -/
def countNext (counted : List (α × Nat)) (element : α) : List (α × Nat) :=
  match counted.getLast? with
  | some (last, count) =>
    if last = element then counted.dropLast ++ [(last, count + 1)]
    else counted ++ [(element, 1)]
  | none => [(element, 1)]

/-- Behind some elements, the runs that have been counted are theirs. -/
theorem RunsOf.countNext (known : RunsOf elements counted) (element : α) :
    RunsOf (elements ++ [element]) (countNext counted element) := by
  rcases known with ⟨rfl, positive, maximal⟩
  rcases List.eq_nil_or_concat' counted with rfl | ⟨front, ⟨last, count⟩, rfl⟩
  · exact ⟨rfl, by simp [HartBoot.countNext], .singleton _⟩
  · obtain ⟨before, -, apart⟩ := List.isChain_append.mp maximal
    have others : ∀ run ∈ front, 1 ≤ run.2 := fun run member =>
      positive run (List.mem_append_left _ member)
    unfold HartBoot.countNext
    rw [List.getLast?_concat]
    dsimp only
    by_cases same : last = element
    · subst same
      rw [if_pos rfl, List.dropLast_concat]
      refine ⟨by simp [List.replicate_succ'], ?_, ?_⟩
      · intro run member
        rcases List.mem_append.mp member with early | late
        · exact others run early
        · rw [List.mem_singleton.mp late]
          exact Nat.succ_pos count
      · -- The last run has grown, but it still differs from the one before it.
        refine List.isChain_append.mpr ⟨before, .singleton _, ?_⟩
        simpa using apart
    · rw [if_neg same]
      refine ⟨by simp, ?_, List.isChain_append.mpr ⟨maximal, .singleton _, ?_⟩⟩
      · intro run member
        rcases List.mem_append.mp member with early | late
        · exact positive run early
        · rw [List.mem_singleton.mp late]
      · simpa using same

/-- What one step of the loop keeps, the whole loop keeps. -/
theorem RunsOf.foldl_countNext
    {passed : List α}
    (known : RunsOf passed counted)
    (elements : List α) :
    RunsOf (passed ++ elements) (elements.foldl HartBoot.countNext counted) := by
  induction elements generalizing passed counted with
  | nil => simpa using known
  | cons element rest inductionHypothesis =>
    have further := inductionHypothesis (known.countNext element)
    rwa [List.append_assoc] at further

/-! ## The law of the runs -/

/-- The runs of a list are the only counted elements that stand for the list, count each element at
least once and have no equal neighbours; a loop that adds to the last run finds just these. So the
runs of owners that are reported of an image file account for all of its chunks and for all of its
regions of zeros. -/
theorem runsOf_iff_eq_runs
    (elements : List α)
    (summary : ImageFile.Summary) :
    (∀ counted, RunsOf elements counted ↔ counted = runs elements) ∧
      elements.foldl countNext [] = runs elements ∧
      RunsOf (summary.chunks.map ImageFile.ChunkRecord.owner) summary.chunkRuns ∧
      (summary.chunkRuns.map Prod.snd).sum = summary.chunks.length ∧
      RunsOf (summary.zeroed.map ImageFile.ZeroRecord.owner) summary.zeroRuns ∧
      (summary.zeroRuns.map Prod.snd).sum = summary.zeroed.length := by
  refine ⟨?_, ?_, runsOf_runs _, ?_, runsOf_runs _, ?_⟩
  · intro counted
    constructor
    · exact RunsOf.eq_runs
    · rintro rfl
      exact runsOf_runs elements
  · exact (RunsOf.nil.foldl_countNext elements).eq_runs
  · rw [ImageFile.Summary.chunkRuns, sum_counts_runs, List.length_map]
  · rw [ImageFile.Summary.zeroRuns, sum_counts_runs, List.length_map]

/-- An owner that comes back later has a run of its own again. -/
example : runs [1, 1, 3, 1] = [(1, 2), (3, 1), (1, 1)] := by decide

end Counting

end HartBoot
