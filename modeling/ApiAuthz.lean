import ApiAuthz.CommandLine.Run
import ApiAuthz.Main
import ApiAuthz.Notice
import ApiAuthz.Number.Decimal
import ApiAuthz.Proofs.Attempt
import ApiAuthz.Proofs.BasePath
import ApiAuthz.Proofs.CommandLine.Help
import ApiAuthz.Proofs.CommandLine.Leftovers
import ApiAuthz.Proofs.CommandLine.Policies
import ApiAuthz.Proofs.CommandLine.Succeeding
import ApiAuthz.Proofs.FileTree
import ApiAuthz.Proofs.FirstFault
import ApiAuthz.Proofs.Json.RoundTrip
import ApiAuthz.Proofs.Json.Strings
import ApiAuthz.Proofs.Json.Writability
import ApiAuthz.Proofs.Keyed
import ApiAuthz.Proofs.Matched
import ApiAuthz.Proofs.Members
import ApiAuthz.Proofs.NamespaceGrammar
import ApiAuthz.Proofs.PathText
import ApiAuthz.Proofs.Policy.Faults
import ApiAuthz.Proofs.Policy.Listing
import ApiAuthz.Proofs.Policy.Reading
import ApiAuthz.Proofs.Reordered
import ApiAuthz.Proofs.SanitizedPath
import ApiAuthz.Proofs.Schema.ActionTable
import ApiAuthz.Proofs.Schema.AnyMethod
import ApiAuthz.Proofs.Schema.Attribution
import ApiAuthz.Proofs.Schema.Building
import ApiAuthz.Proofs.Schema.Closure
import ApiAuthz.Proofs.Schema.Composition
import ApiAuthz.Proofs.Schema.ContextTable
import ApiAuthz.Proofs.Schema.DepthLimit
import ApiAuthz.Proofs.Schema.EntityTable
import ApiAuthz.Proofs.Schema.Escapes
import ApiAuthz.Proofs.Schema.Grammar
import ApiAuthz.Proofs.Schema.Irrelevance
import ApiAuthz.Proofs.Schema.Naming
import ApiAuthz.Proofs.Schema.Positions
import ApiAuthz.Proofs.Schema.Projection
import ApiAuthz.Proofs.Schema.Relevant
import ApiAuthz.Proofs.Schema.ReorderedParts
import ApiAuthz.Proofs.Schema.Reordering
import ApiAuthz.Proofs.Schema.Requests
import ApiAuthz.Proofs.Schema.Separation
import ApiAuthz.Proofs.Schema.Sites
import ApiAuthz.Proofs.Schema.Skeletons
import ApiAuthz.Proofs.Schema.Variants
import ApiAuthz.Proofs.Settings
import ApiAuthz.Proofs.Settings.Faults
import ApiAuthz.Proofs.SpecFile
import ApiAuthz.Proofs.UrlPath
import ApiAuthz.Proofs.Yaml.Flaws
import ApiAuthz.Proofs.Yaml.Reading
import ApiAuthz.Text.Classes
import ApiAuthz.Text.Lowercase
import ApiAuthz.Workbench
