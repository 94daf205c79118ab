import ComponentWiring.Main
import ComponentWiring.Proofs.Code.ContainerPlumbing
import ComponentWiring.Proofs.Code.DefaultScopes
import ComponentWiring.Proofs.Code.FactoryReadBack
import ComponentWiring.Proofs.Code.GeneratedScopes
import ComponentWiring.Proofs.Code.TemplateTexts
import ComponentWiring.Proofs.Command.ScannedReports
import ComponentWiring.Proofs.Command.WrittenOutput
import ComponentWiring.Proofs.Disk.AddedFiles
import ComponentWiring.Proofs.Disk.FoundSources
import ComponentWiring.Proofs.Disk.KeptFiles
import ComponentWiring.Proofs.Hierarchy.Reachability
import ComponentWiring.Proofs.Pass.BoundProperties
import ComponentWiring.Proofs.Pass.CanonicalImports
import ComponentWiring.Proofs.Pass.CarriedImports
import ComponentWiring.Proofs.Pass.GeneratedSources
import ComponentWiring.Proofs.Pass.ImportClashes
import ComponentWiring.Proofs.Pass.ImportOrder
import ComponentWiring.Proofs.Pass.InvisibleComments
import ComponentWiring.Proofs.Pass.InvisibleLiterals
import ComponentWiring.Proofs.Pass.ListedSources
import ComponentWiring.Proofs.Pass.MarkerReports
import ComponentWiring.Proofs.Pass.OutputTrees
import ComponentWiring.Proofs.Pass.PropertyLines
import ComponentWiring.Proofs.Pass.PropertyOwners
import ComponentWiring.Proofs.Pass.RepeatedFunctions
import ComponentWiring.Proofs.Pass.SharedNames
import ComponentWiring.Proofs.Pass.UnitOrder
import ComponentWiring.Proofs.Pass.UnreadableSources
import ComponentWiring.Proofs.Report.Ties
import ComponentWiring.Proofs.Source.ComparisonDefaults
import ComponentWiring.Proofs.Source.DefaultAgreement
import ComponentWiring.Proofs.Source.MatchingDelimiters
import ComponentWiring.Proofs.Source.PrintedUnits
import ComponentWiring.Proofs.Source.TrailingSeparators
import ComponentWiring.Proofs.Source.WrittenHeaders
