import ChantSearch.Api.Handler
import ChantSearch.Index.Select
import ChantSearch.Main
import ChantSearch.Proofs.Api.PageHeaders
import ChantSearch.Proofs.Api.PageLimits
import ChantSearch.Proofs.Api.PageValues
import ChantSearch.Proofs.Api.Pages
import ChantSearch.Proofs.Api.Requests
import ChantSearch.Proofs.Components.Flattening
import ChantSearch.Proofs.Grammar.Acceptance
import ChantSearch.Proofs.Grammar.ErrorPosition
import ChantSearch.Proofs.Grammar.OpenGroups
import ChantSearch.Proofs.Grammar.Slices
import ChantSearch.Proofs.Index.Replies
import ChantSearch.Proofs.Meaning.NoResults
import ChantSearch.Proofs.Resolution.ArrivalOrder
import ChantSearch.Proofs.Resolution.Blocks
import ChantSearch.Proofs.Resolution.Frames
import ChantSearch.Proofs.Resolution.GroupLookup
import ChantSearch.Proofs.Resolution.GroupSearch
import ChantSearch.Proofs.Resolution.Ranking
import ChantSearch.Proofs.Resolution.Scoping
import ChantSearch.Proofs.Translation.Confinement
import ChantSearch.Proofs.Translation.Respacing
import ChantSearch.Proofs.Translation.Unreferenced
