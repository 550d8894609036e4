import ChantSearch.Proofs.Api.Calls

/-!
# Places of a page

A call tells the page number and the page size in its body, or else in its headers. What it tells is
asked for, unless it stands in a header with a byte that is neither visible ASCII nor a space or
tab: such a header is left unread.
-/

namespace ChantSearch.Proofs
open Api

/-- The places of a page in a call. -/
inductive PagePlace where
  | number
  | size
  deriving DecidableEq

namespace PagePlace

def header : PagePlace → String
  | number => pageHeader
  | size => perPageHeader

def member? (body : SearchBody) : PagePlace → Option PageValue
  | number => body.page?
  | size => body.perPage?

/-- The integers that can be granted. A size of zero stands for the greatest one. -/
def Admits (paging : Paging) : PagePlace → Int → Prop
  | number, n => 1 ≤ n
  | size, n => 0 ≤ n ∧ n ≤ paging.maxPerPage

def asked (call : Call) (body : SearchBody) : PagePlace → Option PageValue
  | number => numberAsked call body
  | size => sizeAsked call body

end PagePlace

/-- What a call tells in a place: the member of its body, or else the header, or else nothing. -/
inductive Tells (call : Call) (body : SearchBody) (place : PagePlace) : Option PageValue → Prop
  | member {value : PageValue} (hmember : place.member? body = some value) :
      Tells call body place (some value)
  | header {text : String} (hmember : place.member? body = none)
      (hheader : call.headers.get? place.header = some text) :
      Tells call body place (some (.text text))
  | nothing (hmember : place.member? body = none)
      (hheader : call.headers.get? place.header = none) : Tells call body place none

/-- Visible ASCII, the space, and the tab. -/
def IsPlainByte (b : UInt8) : Prop :=
  b.toNat = 0x09 ∨ 0x20 ≤ b.toNat ∧ b.toNat ≤ 0x7e

/-- The bytes that a text is sent as, in UTF-8. -/
def utf8Bytes (text : String) : List UInt8 :=
  text.toList.flatMap String.utf8EncodeChar

/-- The place is told in a header that is not made of plain bytes. Headers hold texts here: a value
that is no UTF-8 is not among them, but it has a byte beyond ASCII, and is left unread too. -/
structure Unread (call : Call) (body : SearchBody) (place : PagePlace) : Prop where
  member : place.member? body = none
  header : ∃ text, call.headers.get? place.header = some text ∧
    ∃ b ∈ utf8Bytes text, ¬IsPlainByte b

variable {call : Call} {body : SearchBody} {place : PagePlace} {asked? : Option PageValue}
  {value : PageValue} {text : String}

/-- The first byte of a character beyond ASCII is beyond ASCII itself. -/
lemma exists_byte_of_beyond {c : Char} (h : 0x7f < c.toNat) :
    ∃ b ∈ String.utf8EncodeChar c, 0x80 ≤ b.toNat := by
  rw [String.utf8EncodeChar]
  split_ifs with h1 h2 h3
  · exact absurd h1 (not_le.mpr h)
  all_goals
    refine ⟨_, List.mem_cons_self, ?_⟩
    rw [UInt8.toNat_ofNat']
    omega

lemma plainChar_iff (c : Char) :
    (c == '\t' || (decide (' ' ≤ c) && decide (c ≤ '~'))) = true ↔
      ∀ b ∈ String.utf8EncodeChar c, IsPlainByte b := by
  have hchar : (c == '\t' || (decide (' ' ≤ c) && decide (c ≤ '~'))) = true ↔
      c.toNat = 0x09 ∨ 0x20 ≤ c.toNat ∧ c.toNat ≤ 0x7e := by
    simp [Char.le_def, Char.ext_iff, UInt32.le_iff_toNat_le, ← UInt32.toNat_inj]
  rw [hchar]
  by_cases hascii : c.toNat ≤ 0x7f
  · have hbyte : (UInt8.ofNat c.toNat).toNat = c.toNat := by
      rw [UInt8.toNat_ofNat']
      omega
    have hencoded : String.utf8EncodeChar c = [UInt8.ofNat c.toNat] := if_pos hascii
    simp [hencoded, IsPlainByte, hbyte]
  · obtain ⟨b, hb, hbeyond⟩ := exists_byte_of_beyond (not_le.mp hascii)
    refine ⟨fun h => by omega, fun h => ?_⟩
    have hplain := h b hb
    rw [IsPlainByte] at hplain
    omega

lemma isPlain_iff : isPlain text = true ↔ ∀ b ∈ utf8Bytes text, IsPlainByte b := by
  simp only [isPlain, List.all_eq_true, plainChar_iff, utf8Bytes, List.mem_flatMap]
  exact ⟨fun h b ⟨c, hc, hb⟩ => h c hc b hb, fun h c hc b hb => h b ⟨c, hc, hb⟩⟩

lemma asked_eq (call : Call) (body : SearchBody) (place : PagePlace) :
    place.asked call body = (place.member? body).or (headerValue? call.headers place.header) := by
  cases place <;> rfl

/-- What a call tells is asked for, whether a value or nothing. -/
lemma Tells.asked_eq (h : Tells call body place asked?) (hread : ¬Unread call body place) :
    place.asked call body = asked? := by
  rw [Proofs.asked_eq, headerValue?]
  cases h with
  | member hmember => simp [hmember]
  | nothing hmember hheader => simp [hmember, hheader]
  | @header text hmember hheader =>
    have hplain : isPlain text = true := by
      rw [isPlain_iff]
      intro b hb
      by_contra hb'
      exact hread ⟨hmember, text, hheader, b, hb, hb'⟩
    simp [hmember, hheader, Option.filter, hplain]

lemma Unread.asked_eq (h : Unread call body place) : place.asked call body = none := by
  obtain ⟨hmember, text, hheader, b, hb, hb'⟩ := h
  have hplain : isPlain text = false := by
    rw [← Bool.not_eq_true, isPlain_iff]
    exact fun hall => hb' (hall b hb)
  simp [Proofs.asked_eq, headerValue?, hmember, hheader, Option.filter, hplain]

lemma exists_tells (call : Call) (body : SearchBody) (place : PagePlace) :
    ∃ asked?, Tells call body place asked? := by
  cases hmember : place.member? body with
  | some value => exact ⟨_, .member hmember⟩
  | none =>
    cases hheader : call.headers.get? place.header with
    | some text => exact ⟨_, .header hmember hheader⟩
    | none => exact ⟨_, .nothing hmember hheader⟩

/-- What is asked for is told, unless it is told in a header that is left unread. -/
lemma tells_asked (hread : ¬Unread call body place) :
    Tells call body place (place.asked call body) := by
  obtain ⟨asked?, htells⟩ := exists_tells call body place
  rwa [htells.asked_eq hread]

lemma asked_eq_some_iff :
    place.asked call body = some value ↔
      Tells call body place (some value) ∧ ¬Unread call body place := by
  refine ⟨fun h => ?_, fun ⟨htells, hread⟩ => htells.asked_eq hread⟩
  have hread : ¬Unread call body place := fun hunread => by simp [hunread.asked_eq] at h
  exact ⟨h ▸ tells_asked hread, hread⟩

end ChantSearch.Proofs
