import ContractAbi.Draft.Parameter
import ContractAbi.Main
import ContractAbi.Report.Build
import ContractAbi.Session.Step
import ContractAbi.Proofs.Outcome
import ContractAbi.Proofs.TypeTree.Rendering
import ContractAbi.Proofs.AbiType.Written
import ContractAbi.Proofs.TypeName.Balance
import ContractAbi.Proofs.Text.Runs
import ContractAbi.Proofs.TypeName.Ending
import ContractAbi.Proofs.TypeName.Grammar
import ContractAbi.Proofs.TypeName.Reading
import ContractAbi.Proofs.TypeName.RoundTrip
import ContractAbi.Proofs.Parameter.RoundTrip
import ContractAbi.Proofs.TypeName.Numerals
import ContractAbi.Proofs.Parameter.Visits
import ContractAbi.Proofs.Parameter.Fields
import ContractAbi.Proofs.Parameter.Repeats
import ContractAbi.Proofs.Parameter.Results
import ContractAbi.Proofs.Parameter.Agreement
import ContractAbi.Proofs.Parameter.Edits
import ContractAbi.Proofs.Json.LongNumber
import ContractAbi.Proofs.Handled
import ContractAbi.Proofs.TypeName.LookUps
import ContractAbi.Proofs.AbiType.Reassembly
import ContractAbi.Proofs.Soundness
import ContractAbi.Proofs.Lines
import ContractAbi.Proofs.Listing
import ContractAbi.Proofs.AbiType.Levels
import ContractAbi.Proofs.Ceiling
import ContractAbi.Proofs.TypeName.Ceiling
import ContractAbi.Proofs.Parameter.Ceiling
import ContractAbi.Proofs.Parameter.Spellings
import ContractAbi.Proofs.Parameter.FirstNotice
import ContractAbi.Proofs.Text.LeadingZeros
import ContractAbi.Proofs.TypeName.NormalForm
import ContractAbi.Proofs.TypeName.Recursion
import ContractAbi.Proofs.TypeName.Blame
import ContractAbi.Proofs.Json.RoundTrip
import ContractAbi.Proofs.Relisting
import ContractAbi.Proofs.Session.Activity
import ContractAbi.Proofs.Session.Anchors
import ContractAbi.Proofs.Parameter.FirstRepeat
import ContractAbi.Proofs.AbiType.SelectorNames
import ContractAbi.Proofs.AbiType.Respelling
import ContractAbi.Proofs.AbiType.DynamicNames
import ContractAbi.Proofs.AbiType.Expansion
import ContractAbi.Proofs.Text.OneLine
import ContractAbi.Proofs.OutputLines
import ContractAbi.Proofs.TypeName.Scans
import ContractAbi.Proofs.Session.Controls
import ContractAbi.Proofs.Parameter.Tour
import ContractAbi.Proofs.ShownNotices
