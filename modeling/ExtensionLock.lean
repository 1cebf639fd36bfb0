import ExtensionLock.Extension.Prepared
import ExtensionLock.Main
import ExtensionLock.Proofs.History
import ExtensionLock.Proofs.Unchanged
import ExtensionLock.ScriptGraph
import ExtensionLock.Proofs.LoadClosure
import ExtensionLock.Proofs.Accepted
import ExtensionLock.Proofs.Modes
import ExtensionLock.Proofs.Decision
import ExtensionLock.Proofs.Identities
import ExtensionLock.Proofs.Settling
import ExtensionLock.Proofs.RepoNames
import ExtensionLock.Proofs.Repeats
import ExtensionLock.Proofs.LoadWalk
import ExtensionLock.Proofs.MissingInput
import ExtensionLock.Proofs.ImportChecks
import ExtensionLock.Proofs.Merging
import ExtensionLock.Proofs.LabelGrammar
import ExtensionLock.Proofs.ModuleKeys
import ExtensionLock.Proofs.ChangeReports
import ExtensionLock.Proofs.UsingModules
import ExtensionLock.Proofs.UnusedEntries
import ExtensionLock.Proofs.MetadataWarnings
import ExtensionLock.Proofs.ContextFiles
import ExtensionLock.Proofs.Saving
import ExtensionLock.Proofs.PlainVolumes
import ExtensionLock.Proofs.StaleInputs
import ExtensionLock.Proofs.Guards
import ExtensionLock.Proofs.Leftovers
import ExtensionLock.Proofs.Timeouts
import ExtensionLock.Proofs.EditDistance
import ExtensionLock.Proofs.Suggestions
