import ChantSearch.Proofs.Api.PageLimits
import ChantSearch.Proofs.Api.PageValues

/-!
# Pages in headers

What a call tells of its page is heeded, in a header as in the body, and it is refused if it is out
of range. A header that is left unread is the exception: the call is answered as if it had none.
-/

namespace ChantSearch.Proofs
open Api Index

def withoutHeader (call : Call) (name : String) : Call :=
  { call with headers := ⟨call.headers.entries.filter (·.1 != name)⟩ }

variable {site : Site} {call : Call} {body : SearchBody} {place : PagePlace} {paging : Paging}
  {number? size? : Option PageValue} {value : PageValue} {resource : Resource} {refusal : Refusal}

lemma PagePlace.header_inj {other : PagePlace} (h : other.header = place.header) :
    other = place := by
  revert h
  cases other <;> cases place <;> decide

lemma get?_withoutHeader (call : Call) (name other : String) :
    (withoutHeader call name).headers.get? other =
      if other = name then none else call.headers.get? other := by
  simp only [withoutHeader, Headers.get?]
  induction call.headers.entries with
  | nil => simp
  | cons entry entries ih =>
    obtain ⟨key, value⟩ := entry
    rw [List.filter_cons, lookup_cons_ite]
    by_cases hkey : key = name
    · subst hkey
      rw [if_neg (by simp), ih]
      split_ifs <;> rfl
    · rw [if_pos (by simpa using hkey), lookup_cons_ite, ih]
      by_cases hother : other = key
      · rw [if_pos hother, if_neg (hother ▸ hkey), if_pos hother]
      · rw [if_neg hother, if_neg hother]

/-- A header that is left unread may as well be missing. -/
lemma Unread.asked_withoutHeader (h : Unread call body place) (other : PagePlace) :
    other.asked (withoutHeader call place.header) body = other.asked call body := by
  by_cases hother : other = place
  · subst hother
    rw [h.asked_eq, Proofs.asked_eq, headerValue?, get?_withoutHeader, if_pos rfl, h.member]
    rfl
  · have hheader : other.header ≠ place.header := fun heq => hother (PagePlace.header_inj heq)
    rw [Proofs.asked_eq, Proofs.asked_eq, headerValue?, headerValue?, get?_withoutHeader,
      if_neg hheader]

/-- The call cannot be told from the one without the header. -/
lemma Unread.search_eq (h : Unread call body place)
    (hbody : SearchBody.parse call.body = .ok body) :
    search site call = search site (withoutHeader call place.header) := by
  have hnumber : numberAsked (withoutHeader call place.header) body = numberAsked call body :=
    h.asked_withoutHeader .number
  have hsize : sizeAsked (withoutHeader call place.header) body = sizeAsked call body :=
    h.asked_withoutHeader .size
  -- The order is all that the headers are read for.
  have horder (resource : Resource) :
      Api.orderOf site.paging resource (withoutHeader call place.header) =
        Api.orderOf site.paging resource call := by
    rw [orderOf_of_body hbody, orderOf_of_body (by exact hbody), hnumber, hsize]
  simp only [search, callOutcome, horder]
  rfl

/-- A page is granted only for integers that can be. -/
lemma admits_of_granted {page : Page} (hasked : place.asked call body = some value)
    (h : paging.page (PagePlace.number.asked call body) (PagePlace.size.asked call body) =
      .ok page) : ∃ n, Denotes value n ∧ place.Admits paging n := by
  obtain ⟨hnumber, hsize⟩ := page_eq_ok_iff.mp h
  obtain ⟨number, size⟩ := page
  cases place with
  | number =>
    rw [hasked] at hnumber
    cases hnumber with
    | asked hvalue hpos =>
      exact ⟨_, toInt?_eq_some_iff_denotes.mp hvalue, Int.toNat_le.mp hpos⟩
  | size =>
    rw [hasked] at hsize
    cases hsize with
    | greatest hvalue =>
      exact ⟨0, toInt?_eq_some_iff_denotes.mp hvalue, le_rfl, Int.natCast_nonneg _⟩
    | asked hvalue _ hle =>
      exact ⟨_, toInt?_eq_some_iff_denotes.mp hvalue, Int.natCast_nonneg _, Int.ofNat_le.mpr hle⟩

/-- The value denotes a page size that is too great. -/
def Excessive (paging : Paging) (size? : Option PageValue) : Prop :=
  ∃ value n, size? = some value ∧ Denotes value n ∧ (paging.maxPerPage : Int) < n

lemma excessive_some_iff {n : Int} (h : value.toInt? = some n) :
    Excessive paging (some value) ↔ (paging.maxPerPage : Int) < n := by
  constructor
  · rintro ⟨_, m, ⟨⟩, hdenotes, hlt⟩
    rw [toInt?_eq_some_iff_denotes.mpr hdenotes] at h
    exact Option.some.inj h ▸ hlt
  · intro hlt
    exact ⟨value, n, rfl, toInt?_eq_some_iff_denotes.mp h, hlt⟩

lemma GrantsSize.not_excessive {size : Nat} (h : GrantsSize paging size? size) :
    ¬Excessive paging size? := by
  cases h with
  | absent => exact fun ⟨_, _, hnone, _⟩ => nomatch hnone
  | greatest hvalue =>
    rw [excessive_some_iff hvalue]
    omega
  | asked hvalue _ hle =>
    rw [excessive_some_iff hvalue]
    omega

lemma DeniesSize.excessive_iff (h : DeniesSize paging size? refusal) :
    Excessive paging size? ↔ refusal.status = 507 := by
  cases h with
  | noInteger hvalue =>
    refine iff_of_false (fun ⟨_, n, heq, hdenotes, _⟩ => ?_) (by decide)
    obtain rfl := Option.some.inj heq
    simp [toInt?_eq_some_iff_denotes.mpr hdenotes] at hvalue
  | negative hvalue hneg =>
    rw [excessive_some_iff hvalue]
    exact iff_of_false (by omega) (by decide)
  | excessive hvalue hlt _ =>
    rw [excessive_some_iff hvalue]
    exact iff_of_true (by omega) rfl

/-- A page is refused with 507 if its size is too great, and with 400 otherwise. -/
lemma status_of_refused (h : paging.page number? size? = .error refusal) :
    (refusal.status = 400 ∨ refusal.status = 507) ∧
      (refusal.status = 507 ↔ Excessive paging size?) := by
  rcases ((told_page paging number? size?).error_iff refusal).mp h with
    hdenied | ⟨⟨size, hsize⟩, hdenied⟩
  · refine ⟨?_, hdenied.excessive_iff.symm⟩
    cases hdenied with
    | noInteger | negative => exact .inl rfl
    | excessive => exact .inr rfl
  · rw [hdenied.status_eq]
    exact ⟨.inl rfl, iff_of_false (by decide) hsize.not_excessive⟩

lemma search_of_refused (hresource : Designates call.path resource)
    (hmethod : call.method = "SEARCH") (hbody : SearchBody.parse call.body = .ok body)
    (h : site.paging.page (PagePlace.number.asked call body) (PagePlace.size.asked call body) =
      .error refusal) : search site call = ([], refusal.toResponse) := by
  have hpath := ((told_resourceAt _).ok_iff _).mpr hresource
  have horder : Api.orderOf site.paging resource call = .error refusal := by
    rw [orderOf_of_body hbody]
    exact congrArg (Except.map _) h
  simp [search, callOutcome, hpath, hmethod, horder]

/-- A search call whose body can be read tells its page in the body, or else in the headers, or
else gets the default, as long as no header is left unread. What it tells and does not denote an
integer that can be granted is refused, before anything is asked: with 507 if a page size is too
great, and with 400 otherwise. Only a header that is not made of plain bytes is left unread, and the
call is then answered as without it, whatever the header says. -/
theorem page_headers_heeded (site : Site) (call : Call) (resource : Resource) (body : SearchBody)
    (hresource : Designates call.path resource) (hmethod : call.method = "SEARCH")
    (hbody : SearchBody.parse call.body = .ok body) :
    ((∀ place, ¬Unread call body place) → ∀ number? size? number size,
      Tells call body .number number? → Tells call body .size size? →
      GrantsNumber number? number → GrantsSize site.paging size? size →
        callOutcome site call = fulfil site ⟨resource.typeName, body.query, ⟨number, size⟩⟩) ∧
    (∀ place value, Tells call body place (some value) → ¬Unread call body place →
      (∀ n, Denotes value n → ¬place.Admits site.paging n) →
      ∃ refusal : Refusal, search site call = ([], refusal.toResponse) ∧
        (refusal.status = 400 ∨ refusal.status = 507) ∧
        (refusal.status = 507 ↔ ∃ value n, Tells call body .size (some value) ∧
          ¬Unread call body .size ∧ Denotes value n ∧ (site.paging.maxPerPage : Int) < n)) ∧
    ∀ place, Unread call body place →
      search site call = search site (withoutHeader call place.header) ∧
        Tells (withoutHeader call place.header) body place none := by
  refine ⟨fun hread number? size? number size htells htells' hnumber hsize => ?_,
    fun place value htells hread hadmits => ?_, fun place hunread => ⟨hunread.search_eq hbody, ?_⟩⟩
  · refine (Orders.intro hresource hmethod hbody ?_ ?_).callOutcome_eq
    · rw [← htells'.asked_eq (hread .size)] at hsize
      exact hsize
    · rw [← htells.asked_eq (hread .number)] at hnumber
      exact hnumber
  · have hasked := htells.asked_eq hread
    cases hpage : site.paging.page (PagePlace.number.asked call body)
        (PagePlace.size.asked call body) with
    | ok page =>
      obtain ⟨n, hdenotes, hn⟩ := admits_of_granted hasked hpage
      exact absurd hn (hadmits n hdenotes)
    | error refusal =>
      obtain ⟨hstatus, hexcessive⟩ := status_of_refused hpage
      refine ⟨refusal, search_of_refused hresource hmethod hbody hpage, hstatus, ?_⟩
      simp only [hexcessive, Excessive, asked_eq_some_iff, and_assoc]
  · refine .nothing hunread.member ?_
    rw [get?_withoutHeader, if_pos rfl]

/-- A page number of zero and a page size above the limit, both in headers. -/
theorem excessive_size_header_refused :
    let site : Site := ⟨⟨[], []⟩, fun _ => .ok ⟨[], 0⟩, ⟨10, 100⟩⟩
    let call := wordCall ⟨[("x-cantus-page", "0"), ("x-cantus-per-page", " +101")]⟩
    Designates call.path ⟨"chants", "chant"⟩ ∧ call.method = "SEARCH" ∧
      SearchBody.parse call.body = .ok ⟨"Deus", none, none⟩ ∧
      (search site call).1 = [] ∧ (search site call).2.status = 507 := by
  intro site call
  have hbody := parse_wordCall call.headers
  obtain ⟨_, hrefused, _⟩ := page_headers_heeded site call _ _ designates_chants rfl hbody
  obtain ⟨hnumber, hread⟩ := asked_eq_some_iff.mp
    (show PagePlace.number.asked call ⟨"Deus", none, none⟩ = some (.text "0") by decide)
  obtain ⟨hsize, hsizeRead⟩ := asked_eq_some_iff.mp
    (show PagePlace.size.asked call ⟨"Deus", none, none⟩ = some (.text " +101") by decide)
  obtain ⟨refusal, hsearch, _, hexcessive⟩ :=
    hrefused .number _ hnumber hread fun n hdenotes (hpos : 1 ≤ n) => by
      have hzero : (PageValue.text "0").toInt? = some 0 := by decide
      rw [toInt?_eq_some_iff_denotes.mpr hdenotes] at hzero
      cases hzero
      omega
  have hstatus : refusal.status = 507 := hexcessive.mpr
    ⟨_, 101, hsize, hsizeRead, toInt?_eq_some_iff_denotes.mp (by decide), by decide⟩
  rw [hsearch]
  exact ⟨designates_chants, rfl, hbody, rfl, hstatus⟩

/-- A page number in a header that is no number, with a letter beyond ASCII: the first page is
answered, as if no page had been asked for. -/
theorem accented_page_header_ignored :
    let docs : List Document := [[("id", .text "7"), ("type", .text "chant")]]
    let site : Site := ⟨⟨[], []⟩, fun _ => .ok ⟨docs, 1⟩, ⟨10, 100⟩⟩
    let call := wordCall ⟨[("x-cantus-page", "é")]⟩
    let body : SearchBody := ⟨"Deus", none, none⟩
    Designates call.path ⟨"chants", "chant"⟩ ∧ call.method = "SEARCH" ∧
      SearchBody.parse call.body = .ok body ∧
      Tells call body .number (some (.text "é")) ∧ (∀ n, ¬Denotes (.text "é") n) ∧
      (search site call).2.status = 200 ∧
      (search site call).1 = [⟨"type:chant AND (Deus)", some 0, some 10, none⟩] := by
  intro docs site call body
  have hnumber : headerValue? call.headers pageHeader = none := by decide
  have hsize : headerValue? call.headers perPageHeader = none := by decide
  have horder : Orders site.paging call ⟨"chant", "Deus", ⟨1, 10⟩⟩ :=
    orders_wordCall (hsize ▸ .absent) (hnumber ▸ .absent)
  have hlists : Lists site call ⟨"chant", "Deus", ⟨1, 10⟩⟩ ⟨docs, 1⟩ ["7"] :=
    ⟨⟨_, .intro horder (translates_word _ _), rfl⟩, by simp [docs], .cons ⟨.text rfl, rfl⟩ .nil⟩
  refine ⟨designates_chants, rfl, parse_wordCall _, .header rfl rfl, fun n h => ?_, ?_, ?_⟩
  · have hnone : (PageValue.text "é").toInt? = none := by decide
    rw [toInt?_eq_some_iff_denotes.mpr h] at hnone
    cases hnone
  · rw [hlists.search_eq]
    rfl
  · rw [search_requests_eq, (Sends.intro horder (translates_word _ _)).requests_eq]
    rfl

end ChantSearch.Proofs
