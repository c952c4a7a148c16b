import Keyring.Audit
import Keyring.CommandLine.Run
import Keyring.Inventory.Summary
import Keyring.Lifecycle.Import
import Keyring.Lifecycle.Retire
import Keyring.Lifecycle.Rotate
import Keyring.Main
import Keyring.Managed.Sync
import Keyring.Remote.Deploy
import Keyring.Remote.Hosts
import Keyring.Store
import Keyring.Tool.Launch
import Keyring.Proofs.Operation.Effect
import Keyring.Proofs.Operation.Failing
import Keyring.Proofs.Inventory.Consistency
import Keyring.Proofs.Inventory.Edits
import Keyring.Proofs.Inventory.HostSteps
import Keyring.Proofs.Inventory.Mutation
import Keyring.Proofs.Operation.Request
import Keyring.Proofs.Inventory.Integrity
import Keyring.Proofs.Managed.Section
import Keyring.Proofs.Managed.Merge
import Keyring.Proofs.Disk.Entries
import Keyring.Proofs.Disk.Walk
import Keyring.Proofs.Disk.Place
import Keyring.Proofs.Disk.Directories
import Keyring.Proofs.Disk.Files
import Keyring.Proofs.Disk.Canonical
import Keyring.Proofs.Managed.Stanzas
import Keyring.Proofs.Managed.Sync
import Keyring.Proofs.Managed.Links
import Keyring.Proofs.Managed.Extent
import Keyring.Proofs.Lifecycle.Directory
import Keyring.Proofs.Lifecycle.Removal
import Keyring.Proofs.Lifecycle.Writing
import Keyring.Proofs.Lifecycle.Recorded
import Keyring.Proofs.Lifecycle.Safety
import Keyring.Proofs.Operation.Refusal
import Keyring.Proofs.Inventory.KeySteps
import Keyring.Proofs.Inventory.Succession
import Keyring.Proofs.Codec.Base64
import Keyring.Proofs.Codec.Canonical
import Keyring.Proofs.PublicKey
import Keyring.Proofs.PublicLine
import Keyring.Proofs.Inventory.Fidelity
import Keyring.Proofs.CommandLine.Console
import Keyring.Proofs.CommandLine.Rotation
import Keyring.Proofs.CommandLine.Reporting
import Keyring.Proofs.CommandLine.Deploying
import Keyring.Proofs.CommandLine.Preparing
import Keyring.Proofs.CommandLine.SettingUp
import Keyring.Proofs.CommandLine.Ending
import Keyring.Proofs.Inventory.Retirement
import Keyring.Proofs.Lifecycle.NewName
import Keyring.Proofs.Lifecycle.Making
import Keyring.Proofs.Lifecycle.DefaultName
import Keyring.Proofs.Lifecycle.Inheritance
import Keyring.Proofs.Audit
import Keyring.Proofs.Document.Json
import Keyring.Proofs.Time.Calendar
import Keyring.Proofs.Time.Rfc3339
import Keyring.Proofs.Time.Span
import Keyring.Proofs.Document.Reading
import Keyring.Proofs.Document.Formats
import Keyring.Proofs.Document.Records
import Keyring.Proofs.Inventory.Storage
import Keyring.Proofs.Disk.Apart
import Keyring.Proofs.Lifecycle.Sparing
import Keyring.Proofs.CommandLine.Saving
import Keyring.Proofs.Reordering
import Keyring.Proofs.Expiry
import Keyring.Proofs.Inventory.HostNames
import Keyring.Proofs.Lifecycle.FailedRemoval
import Keyring.Proofs.Lifecycle.LastDay
import Keyring.Proofs.Lifecycle.FailedMaking
import Keyring.Proofs.Remote.Answers
import Keyring.Proofs.Inventory.KeyRemoval
import Keyring.Proofs.CurveName
import Keyring.Proofs.Disk.Paving
import Keyring.Proofs.Lifecycle.Replacement
import Keyring.Proofs.Lifecycle.KeygenPolicy
import Keyring.Proofs.Inventory.Problems
import Keyring.Proofs.Managed.Shadowed
import Keyring.Proofs.Lifecycle.Intake
import Keyring.Proofs.Lifecycle.LineBreaks
import Keyring.Proofs.Managed.Markers
import Keyring.Proofs.Lifecycle.Lifetimes
import Keyring.Proofs.TimeLeft
import Keyring.Proofs.Tool
import Keyring.Proofs.Lifecycle.Warned
import Keyring.Proofs.Lifecycle.Ownership
import Keyring.Proofs.Settings
import Keyring.Proofs.Codec.Wire
import Keyring.Proofs.KeySize
import Keyring.Proofs.Text.Ascii
import Keyring.Proofs.Name
import Keyring.Proofs.KeyFiles
import Keyring.Proofs.Lifecycle.NameSearch
import Keyring.Proofs.Remote.ShellReader
import Keyring.Proofs.Remote.QuotedField
import Keyring.Proofs.Remote.Quoting
