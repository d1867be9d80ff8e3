import Backlog.Main
import Backlog.Proofs.AllOrNothing
import Backlog.Proofs.CatalogKinds
import Backlog.Proofs.Conforming
import Backlog.Proofs.FilterGrammar
import Backlog.Proofs.ForeignRows
import Backlog.Proofs.Independence
import Backlog.Proofs.Interchange
import Backlog.Proofs.ItemViews
import Backlog.Proofs.IterationCounts
import Backlog.Proofs.IterationForest
import Backlog.Proofs.LastingFields
import Backlog.Proofs.Migrations
import Backlog.Proofs.NoLostUpdate
import Backlog.Proofs.Overlays
import Backlog.Proofs.Paging
import Backlog.Proofs.PlannedFilters
import Backlog.Proofs.ReadBack
import Backlog.Proofs.RelatedLinks
import Backlog.Proofs.Rivals
import Backlog.Proofs.Search
import Backlog.Proofs.Searchable
import Backlog.Proofs.SharedCache
import Backlog.Proofs.StartedIterations
import Backlog.Proofs.SteadyFilters
import Backlog.Proofs.StoredForms
import Backlog.Proofs.UntypedFilters
import Backlog.Proofs.WrittenFilters
import Backlog.Script
import Backlog.Store.Memory
