import HartBoot.Main
import HartBoot.Proofs.ImageFile.RoundTrip
import HartBoot.Proofs.LoadPlan.Sink
import HartBoot.Proofs.Trace
import HartBoot.Proofs.Files
import HartBoot.Proofs.Compilation
import HartBoot.Proofs.Config.Language
import HartBoot.Proofs.Config.Nesting
import HartBoot.Proofs.Config.Summary
import HartBoot.Proofs.Config.Tracking
import HartBoot.Proofs.Config.SetName
import HartBoot.Proofs.Config.Feed
import HartBoot.Proofs.Config.Settings
import HartBoot.Proofs.Config.Log
import HartBoot.Proofs.Config.Front
import HartBoot.Proofs.Config.FrontMoves
import HartBoot.Proofs.Config.Mode
import HartBoot.Proofs.Config.Requests
import HartBoot.Proofs.Crc32
import HartBoot.Proofs.Elf.Extraction
import HartBoot.Proofs.ImageFile.Region
import HartBoot.Proofs.LoadPlan.Contents
import HartBoot.Proofs.ImageFile.Acceptance
import HartBoot.Proofs.ImageFile.Corruption
import HartBoot.Proofs.ImageFile.Placement
import HartBoot.Proofs.ImageFile.Truncation
import HartBoot.Proofs.Config.Matching
import HartBoot.Proofs.Config.Rearrangement
import HartBoot.Proofs.Config.Reordering
import HartBoot.Proofs.Config.Refusal
import HartBoot.Proofs.LoadPlan.Integrity
import HartBoot.Proofs.Elf.Containment
import HartBoot.Proofs.Elf.Multiplicity
import HartBoot.Proofs.Numeral
import HartBoot.Proofs.Name
import HartBoot.Proofs.NameTruncation
import HartBoot.Proofs.Config.Buffering
import HartBoot.Proofs.Config.Verdict
import HartBoot.Proofs.Config.OpenBlock
import HartBoot.Proofs.Runs
