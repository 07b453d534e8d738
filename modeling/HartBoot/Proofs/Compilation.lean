import HartBoot.Compilation
import HartBoot.Proofs.Config.Move
import HartBoot.Proofs.Files
import HartBoot.Proofs.ImageFile.RoundTrip
import HartBoot.Proofs.LoadPlan.Contents
import HartBoot.Proofs.LoadPlan.Sink
import Mathlib

/-!
Contract: what a run leaves behind.

Owns:
- `succeeds_run`, the runs that write an image file, and `fails_run`, those that do not;
- `plan_loadable`, which says that no configuration gives a plan that a file would cut short;
- the law of a run: it writes nothing but a file that can be read, and only if everything before
  has succeeded;
- a configuration with a blob and an executable, whose file is such a one.

Does not own: which configurations succeed (see `HartBoot.Proofs.Config.Language`).
-/

namespace HartBoot.Compilation

open Config (Block Configuration Contributes Draft Payload Performs Section companionAttributes
  companionPayload_spells complete_of_modeless performs_of_contributes succeeds_plan_of_performed)

variable {options : Options} {config output : Path} {files after : Files} {image : Image}

theorem succeeds_writeImage {loads : LoadPlan} {done : Unit} :
    (writeImage image loads output).Succeeds files done after ↔
      files.write output (ImageFile.assemble image loads) = .ok after := by
  simp [writeImage, Except.mapError_eq_ok_iff]

/-- A run succeeds when the configuration can be read, describes an image, and the file can be
written. -/
theorem succeeds_run :
    (run options config output).Succeeds files image after ↔
      ∃ text loads,
        readText files config = .ok text ∧
          (plan files options text).Succeeds LoadPlan.empty image loads ∧
          files.write output (ImageFile.assemble image loads) = .ok after := by
  simp [run, succeeds_writeImage]

/-- A run fails when the configuration cannot be read, when it describes no image, or when the
file cannot be written. In each case the files are as they were. -/
theorem fails_run {fault : Fault} :
    (run options config output).Fails files fault after ↔
      files = after ∧
        (readText files config = .error fault ∨
          ∃ text, readText files config = .ok text ∧
            ((∃ error loads, (plan files options text).Fails LoadPlan.empty error loads ∧
                .config error = fault) ∨
              ∃ image loads, (plan files options text).Succeeds LoadPlan.empty image loads ∧
                (files.write output (ImageFile.assemble image loads)).mapError
                  (.unwritable output) = .error fault)) := by
  simp only [run, writeImage, Action.fails_bind, Action.fails_say, Action.fails_look,
    Action.fails_ofExcept, Action.fails_apart, Action.fails_change, Action.fails_pure,
    Action.succeeds_say, Action.succeeds_look, Action.succeeds_ofExcept]
  constructor
  · intro failed
    simp at failed
    rcases failed with ⟨unreadable, rfl⟩ | ⟨text, readable, rest⟩
    · exact ⟨rfl, .inl unreadable⟩
    · rcases rest with ⟨⟨error, ⟨loads, rejected⟩, told⟩, rfl⟩ | unwritable
      · exact ⟨rfl, .inr ⟨text, readable, .inl ⟨error, loads, rejected, told⟩⟩⟩
      · rcases unwritable with ⟨image, loads, ⟨planned, rfl⟩, refused⟩
        exact ⟨rfl, .inr ⟨text, readable, .inr ⟨image, loads, planned, refused⟩⟩⟩
  · intro holds
    rcases holds with ⟨rfl, failed⟩
    simp
    rcases failed with unreadable | ⟨text, readable, rest⟩
    · exact .inl unreadable
    · refine .inr ⟨text, readable, ?_⟩
      rcases rest with ⟨error, loads, rejected, told⟩ | ⟨image, loads, planned, refused⟩
      · exact .inl ⟨error, ⟨loads, rejected⟩, told⟩
      · exact .inr ⟨image, loads, planned, refused⟩

/-- No configuration gives a plan with an entry that a file would take for the end of a table. -/
theorem plan_loadable
    {text : String}
    {loads : LoadPlan}
    (planned : (plan files options text).Succeeds LoadPlan.empty image loads) :
    loads.Loadable := by
  obtain ⟨-, draft, trace, -, rfl⟩ := Config.succeeds_readReading_iff_trace.mp planned
  have kept := LoadPlan.sink_respects_loadability files options.wide
  exact Config.allows_store_of_trace kept trace LoadPlan.Loadable.empty

/-- A run writes nothing if the configuration cannot be read or is rejected. If it succeeds, it
has written one file and nothing else, which holds what the configuration describes, and which
can be read from its first entry to its last. -/
theorem run_writes_readable_or_nothing
    (options : Options)
    (config output : Path)
    (files : Files) :
    (∀ fault, readText files config = .error fault →
        (run options config output).Fails files fault files) ∧
      (∀ text error loads, readText files config = .ok text →
        (plan files options text).Fails LoadPlan.empty error loads →
          (run options config output).Fails files (.config error) files) ∧
      ∀ image after, (run options config output).Succeeds files image after →
        ∃ text loads,
          readText files config = .ok text ∧
            (plan files options text).Succeeds LoadPlan.empty image loads ∧
            Files.Rewritten files after output (ImageFile.assemble image loads) ∧
            loads.Loadable ∧
            ((ImageFile.assemble image loads).length < UInt64.size →
              ∃ summary,
                ImageFile.inspect (ImageFile.assemble image loads) = .ok summary ∧
                  summary.Describes (ImageFile.assemble image loads) image loads) := by
  refine ⟨?_, ?_, ?_⟩
  · intro fault unreadable
    exact fails_run.mpr ⟨rfl, .inl unreadable⟩
  · intro text error loads readable rejected
    exact fails_run.mpr ⟨rfl, .inr ⟨text, readable, .inl ⟨error, loads, rejected, rfl⟩⟩⟩
  · intro image after succeeded
    obtain ⟨text, loads, readable, planned, written⟩ := succeeds_run.mp succeeded
    have loadable := plan_loadable planned
    refine ⟨text, loads, readable, planned, Files.rewritten_of_write written, loadable, ?_⟩
    intro small
    exact ⟨_, ImageFile.inspect_assemble loadable small, ImageFile.summaryOf_describes small⟩

/-! ## A blob and an executable -/

/-- A configuration with two payload blocks; the first one names an ancillary file. -/
def twoPayloadsText : String :=
  "payloads: \x7ba: \x7bowner-hart: u54_1, ancilliary-data: d\x7d, " ++
    "b: \x7bowner-hart: u54_2\x7d\x7d"

def twoPayloadsConfiguration : Configuration :=
  [[[.payloads
    [.opening, .entry ⟨"a", .opening :: companionAttributes.map .entry⟩,
      .entry ⟨"b", [.opening, .entry (.ownerHart .u54_2)]⟩]]]]

theorem twoPayloadsConfiguration_spells :
    twoPayloadsConfiguration.Spells .whole
      ((Yaml.read twoPayloadsText).events.map fun event => event.kind) := by
  have kinds : ((Yaml.read twoPayloadsText).events.map fun event => event.kind) =
      [.streamStart, .documentStart, .mappingStart, .scalar "payloads", .mappingStart,
        .scalar "a", .mappingStart, .scalar "owner-hart", .scalar "u54_1",
        .scalar "ancilliary-data", .scalar "d", .mappingEnd,
        .scalar "b", .mappingStart, .scalar "owner-hart", .scalar "u54_2", .mappingEnd,
        .mappingEnd, .mappingEnd, .documentEnd, .streamEnd] := by
    decide +kernel
  have second : Payload.Spells .whole ⟨"b", [.opening, .entry (.ownerHart .u54_2)]⟩
      [.scalar "b", .mappingStart, .scalar "owner-hart", .scalar "u54_2", .mappingEnd] :=
    ⟨_, .cons rfl (.cons ⟨_, _, by decide, rfl⟩ .nil), rfl⟩
  have listed : Section.Spells .whole (.payloads [.opening, .entry _, .entry _]) _ :=
    ⟨"payloads", by decide, _, .cons rfl (.cons companionPayload_spells (.cons second .nil)), rfl⟩
  rw [kinds]
  exact ⟨_, .cons ⟨_, .cons ⟨_, .cons listed .nil, rfl⟩ .nil, rfl⟩ .nil, rfl⟩

theorem read_twoPayloadsFiles (config blob companion executable : Bytes) :
    let files : Files :=
      ⟨[(["c"], .file config), (["a"], .file blob), (["d"], .file companion),
        (["b"], .file executable)]⟩
    files.read "c" = .ok config ∧ files.read "a" = .ok blob ∧ files.read "d" = .ok companion ∧
      files.read "b" = .ok executable :=
  ⟨by cbv, by cbv, by cbv, by cbv⟩

/-- The image that the configuration describes. -/
def twoPayloadsImage : Image :=
  ⟨Name.ofText "PolarFireSOC-HSS::a+b",
    ⟨{ name := Name.ofText "a", flags := { ancillaryData := true } }, { name := Name.ofText "b" },
      {}, {}⟩⟩

/-- What it loads, if the first payload is a blob and the second one an executable. -/
def twoPayloadsPlan : LoadPlan :=
  ⟨[⟨.u54_1, 0, [0x11, 0x22, 0x33]⟩, ⟨.u54_1, 8, [1, 2, 3]⟩,
      ⟨.u54_2, 0x80000000, List.replicate 16 0xAA⟩],
    [⟨.u54_2, 0x80000010, 32⟩]⟩

theorem plan_twoPayloads
    {files : Files}
    (blob : files.read "a" = .ok [0x11, 0x22, 0x33])
    (companion : files.read "d" = .ok [1, 2, 3])
    (executable : files.read "b" = .ok Elf.smallExecutable) :
    (plan files {} twoPayloadsText).Succeeds LoadPlan.empty twoPayloadsImage twoPayloadsPlan := by
  let front : LoadPlan := ⟨twoPayloadsPlan.chunks.take 2, []⟩
  let back : LoadPlan := ⟨twoPayloadsPlan.chunks.drop 2, twoPayloadsPlan.zeroed⟩
  have embedded : Contributes files (Block.of "a" companionAttributes) .u54_1 front :=
    .accompanied blob (by decide) (by decide) rfl companion (by decide) (by decide)
  have provided : (⟨Elf.chunksOf Elf.smallExecutable .u54_2 Elf.smallProgram.loaded,
      Elf.zeroedOf .u54_2 Elf.smallProgram.loaded⟩ : LoadPlan) = back := by decide +kernel
  have extracted : Contributes files (Block.of "b" [.ownerHart .u54_2]) .u54_2 back :=
    provided ▸ .executable executable Elf.opens_small Elf.providesAll_small
  let initial : Draft LoadPlan := Draft.initial LoadPlan.empty
  let between := initial.closeWith (Block.of "a" companionAttributes) .u54_1
    (initial.store.followedBy front)
  let final := between.closeWith (Block.of "b" [.ownerHart .u54_2]) .u54_2
    (between.store.followedBy back)
  have first : Performs (LoadPlan.sink files false) (.payload "a" companionAttributes) initial
      between :=
    performs_of_contributes false
      (complete_of_modeless .u54_1 (by decide) (by decide) (by simp [companionAttributes])) rfl rfl
      embedded initial
  have second : Performs (LoadPlan.sink files false) (.payload "b" [.ownerHart .u54_2]) between
      final :=
    performs_of_contributes false
      (complete_of_modeless .u54_2 (by decide) (by decide) (by simp)) rfl rfl extracted between
  have faultless : (Yaml.read twoPayloadsText).fault = none := by decide +kernel
  have made := succeeds_plan_of_performed files {} twoPayloadsText faultless
    twoPayloadsConfiguration_spells (.cons first (Trace.singleton_iff.mpr second))
  have described : final.image = twoPayloadsImage := by decide +kernel
  exact described ▸ made

/-- A configuration loads a blob with its ancillary file behind it, and an executable for another
hart. -/
theorem run_writes_readable_or_nothing_twoPayloads :
    let files : Files :=
      ⟨[(["c"], .file (Utf8.encode twoPayloadsText)), (["a"], .file [0x11, 0x22, 0x33]),
        (["d"], .file [1, 2, 3]), (["b"], .file Elf.smallExecutable)]⟩
    let contents := ImageFile.assemble twoPayloadsImage twoPayloadsPlan
    ∃ after, (run {} "c" "o").Succeeds files twoPayloadsImage after ∧
      Files.Rewritten files after "o" contents ∧ twoPayloadsPlan.Loadable ∧
      ∃ summary, ImageFile.inspect contents = .ok summary ∧
        summary.Describes contents twoPayloadsImage twoPayloadsPlan := by
  intro files contents
  obtain ⟨config, blob, companion, executable⟩ := read_twoPayloadsFiles
    (Utf8.encode twoPayloadsText) [0x11, 0x22, 0x33] [1, 2, 3] Elf.smallExecutable
  have readable : readText files "c" = .ok twoPayloadsText := by
    rw [readText, config]
    decide +kernel
  have planned := plan_twoPayloads blob companion executable
  have located : files.locate "o" = .ok ["o"] := by cbv
  have written : files.write "o" contents = .ok (files.insert ["o"] (.file contents)) :=
    Files.write_eq_ok_iff.mpr ⟨["o"], located, by decide, rfl⟩
  have small : contents.length < UInt64.size := by
    rw [ImageFile.length_assemble]
    decide
  have succeeded := succeeds_run.mpr ⟨_, _, readable, planned, written⟩
  have promised :=
    (run_writes_readable_or_nothing {} "c" "o" files).2.2 twoPayloadsImage _ succeeded
  rcases promised with ⟨text, loads, again, plannedAgain, rewritten, loadable, inspected⟩
  obtain rfl := Except.ok.inj (readable.symm.trans again)
  obtain rfl : twoPayloadsPlan = loads := planned.2.symm.trans plannedAgain.2
  exact ⟨_, succeeded, rewritten, loadable, inspected small⟩

end HartBoot.Compilation
