import ShellCompletion.Main
import ShellCompletion.Model.Draft
import ShellCompletion.Proofs.Acceptance
import ShellCompletion.Proofs.CommandTree
import ShellCompletion.Proofs.Identifier
import ShellCompletion.Schema.Policy
import ShellCompletion.Schema.ToJson
import ShellCompletion.Session
import ShellCompletion.Proofs.Dispatch
import ShellCompletion.Proofs.Shell.OneLine
import ShellCompletion.Proofs.FunctionSource
import ShellCompletion.Proofs.EntrySource
import ShellCompletion.Proofs.ScriptSource
import ShellCompletion.Proofs.FunctionNames
import ShellCompletion.Proofs.Compilable
import ShellCompletion.Proofs.FailedRun
import ShellCompletion.Proofs.KeptFiles
import ShellCompletion.Proofs.Rejection
import ShellCompletion.Proofs.Registration
import ShellCompletion.Proofs.FreeText
import ShellCompletion.Proofs.SchemaAgreement
import ShellCompletion.Proofs.CanonicalForm
import ShellCompletion.Proofs.Worklist
import ShellCompletion.Proofs.Enumeration
import ShellCompletion.Proofs.Warnings
import ShellCompletion.Proofs.InterfaceModel
import ShellCompletion.Proofs.Path
import ShellCompletion.Proofs.Locations
import ShellCompletion.Proofs.Outputs
import ShellCompletion.Proofs.Shell.DoubleQuotes
import ShellCompletion.Proofs.Launcher
import ShellCompletion.Proofs.DeclaredValues
import ShellCompletion.Proofs.Depth
import ShellCompletion.Proofs.Settled
import ShellCompletion.Proofs.NestedCommands
import ShellCompletion.Proofs.Shell.WordLists
import ShellCompletion.Proofs.TerseForm
import ShellCompletion.Proofs.Duplicates
import ShellCompletion.Proofs.Yaml.Continuation
import ShellCompletion.Proofs.Yaml.SingleQuotes
import ShellCompletion.Proofs.SampleModel
import ShellCompletion.Proofs.Text.Pieces
import ShellCompletion.Proofs.ValidNames
import ShellCompletion.Proofs.OfferedWords
