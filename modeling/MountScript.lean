import MountScript.File.Disk
import MountScript.Proofs.Build.Counting
import MountScript.Proofs.Build.Inlining
import MountScript.Proofs.Build.ParsedScripts
import MountScript.Proofs.File.TopLevel
import MountScript.Proofs.Fixture.Acceptance
import MountScript.Proofs.Fixture.StepScripts
import MountScript.Proofs.Fixture.Stepwise
import MountScript.Proofs.Path.Survivors
import MountScript.Proofs.Script.Feeds
import MountScript.Proofs.Script.FlagTokens
import MountScript.Proofs.Space.Relocation
import MountScript.Proofs.Space.Visibility
