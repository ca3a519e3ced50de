import FragmentRouting.Catalogue
import FragmentRouting.Main
import FragmentRouting.Value.Numbers
import FragmentRouting.Proofs.Template.Attempts
import FragmentRouting.Proofs.Template.Spelling
import FragmentRouting.Proofs.Template.Language
import FragmentRouting.Proofs.Template.Preference
import FragmentRouting.Proofs.Query.Escaping
import FragmentRouting.Proofs.Query.Flattening
import FragmentRouting.Proofs.Query.RoundTrip
import FragmentRouting.Proofs.Query.ValueCodec
import FragmentRouting.Proofs.Query.Walk
import FragmentRouting.Proofs.Query.KeyOrder
import FragmentRouting.Proofs.Query.Noninterference
import FragmentRouting.Proofs.Query.Shape
import FragmentRouting.Proofs.Query.Repetition
import FragmentRouting.Proofs.Query.Reencoding
import FragmentRouting.Proofs.Template.Suffix
import FragmentRouting.Proofs.Template.Rewriting
import FragmentRouting.Proofs.Template.Pairing
import FragmentRouting.Proofs.Template.CaptureGroups
import FragmentRouting.Proofs.Extraction.Arguments
import FragmentRouting.Proofs.Extraction.Filling
import FragmentRouting.Proofs.Router.Reachable
import FragmentRouting.Proofs.Router.Execution
import FragmentRouting.Proofs.Router.Runs
import FragmentRouting.Proofs.Router.Address
import FragmentRouting.Proofs.Template.Acceptance
import FragmentRouting.Proofs.Template.Backtracking
import FragmentRouting.Proofs.Template.Repetition
import FragmentRouting.Proofs.Extraction.Positional
import FragmentRouting.Proofs.Extraction.Naming
import FragmentRouting.Proofs.Percent
import FragmentRouting.Proofs.Query.Accumulation
import FragmentRouting.Proofs.Query.Leaves
import FragmentRouting.Proofs.Template.Partners
import FragmentRouting.Proofs.Template.Scanning
import FragmentRouting.Proofs.Query.Refusal
import FragmentRouting.Proofs.Query.Markers
import FragmentRouting.Proofs.Query.Names
import FragmentRouting.Proofs.Query.LeadingMark
import FragmentRouting.Proofs.Json.Reader
import FragmentRouting.Proofs.CommandLine.Queries
